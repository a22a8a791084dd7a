import Parley.Api.Source
import Parley.Proofs.Acceptance
import Parley.Proofs.Lines

/-! Lines of generated sources. An import that has an alias gets a type item, which stands on a line of
its own in the source of each role and in that of all roles together; the latter also has a line that
makes the mesh. -/

namespace Parley

open Outcome

theorem Grammar.isIdentifier_alias {ws : List String} {q : Protocol} (h : Sections ws q)
    {t : TypeImport} (ht : t ∈ q.types) {name : String} (hname : t.alias? = some name) :
    isIdentifier name = true := by
  induction h with
  | nil => simp at ht
  | moduleName _ _ _ ih => exact ih ht
  | typeImport htext _ ih =>
    rcases List.mem_cons.mp ht with rfl | ht
    · obtain ⟨_, _, _, _, halias⟩ := htext
      rw [hname] at halias
      cases halias
      assumption
    · exact ih ht
  | localProtocol _ _ ih => exact ih ht

theorem nodup_eraseDups {α : Type} [DecidableEq α] (xs : List α) : xs.eraseDups.Nodup := by
  induction hlength : xs.length using Nat.strongRecOn generalizing xs with
  | ind n ih =>
    cases xs with
    | nil => exact List.nodup_nil
    | cons x xs =>
      rw [List.eraseDups_cons, List.nodup_cons, List.mem_eraseDups]
      have hle : (xs.filter fun y => !y == x).length ≤ xs.length := List.length_filter_le ..
      rw [List.length_cons] at hlength
      exact ⟨by simp, ih _ (by omega) _ rfl⟩

namespace Api

/-- A source in which some code has a line of its own, whatever its indentation. -/
def Holds (source code : String) : Prop :=
  ∃ line ∈ Text.splitLines source.toList, line.dropWhile (· == ' ') = code.toList

theorem isLine_aliasItem {name : String} (h : Grammar.isIdentifier name = true) :
    Text.IsLine (aliasItem name).toList := by
  have hname : '\n' ∉ name.toList := by
    intro hm
    unfold Grammar.isIdentifier at h
    cases hcs : name.toList with
    | nil => simp [hcs] at hm
    | cons c cs =>
      rw [hcs] at h hm
      simp only [Bool.and_eq_true, List.all_eq_true] at h
      rcases List.mem_cons.mp hm with rfl | hm
      · exact absurd h.1 (by decide)
      · exact absurd (h.2 _ hm) (by decide)
  have htext : (aliasItem name).toList =
      "pub type ".toList ++ name.toList ++ " = String;".toList := by
    simp [aliasItem]
  have hback : Text.IsLine " = String;".toList := ⟨by decide, by decide, by decide⟩
  rw [htext]
  exact hback.append (by simp [hname])

theorem not_mem_intercalate {c : Char} {separator : String} (hseparator : c ∉ separator.toList)
    {items : List String} (h : ∀ item ∈ items, c ∉ item.toList) :
    c ∉ (separator.intercalate items).toList := by
  intro hc
  rw [String.toList_intercalate, List.intercalate] at hc
  obtain ⟨piece, hpiece, hc⟩ := List.mem_flatten.mp hc
  rcases Grammar.mem_of_mem_intersperse hpiece with hpiece | rfl
  · obtain ⟨item, hitem, rfl⟩ := List.mem_map.mp hpiece
    exact h item hitem hc
  · exact hseparator hc

theorem pad_mem_block {head line : String} {lines : List String} (h : line ∈ lines) :
    pad line ∈ block head lines := by
  simp only [block, nest, List.mem_append, List.mem_cons]
  exact .inl (.inr (List.mem_map_of_mem h))

theorem mem_paragraphs {line : String} {paragraph : Paragraph} {ps : List Paragraph}
    (hline : line ∈ paragraph) (hp : paragraph ∈ ps) : line ∈ paragraphs ps := by
  unfold paragraphs
  induction ps with
  | nil => simp at hp
  | cons q ps ih =>
    cases ps with
    | nil =>
      rw [List.intercalate_singleton]
      exact List.mem_singleton.mp hp ▸ hline
    | cons q' ps =>
      rw [List.intercalate_cons_cons]
      rcases List.mem_cons.mp hp with rfl | hp
      · simp [hline]
      · exact List.mem_append_right _ (ih hp)

theorem exists_aliased {types : List TypeImport} {t : TypeImport} (ht : t ∈ types) {name : String}
    (hname : t.alias? = some name) {seen : List String} (hseen : name ∉ seen) :
    ∃ u, (name, u) ∈ aliased seen types := by
  induction types generalizing seen with
  | nil => simp at ht
  | cons u types ih =>
    rw [aliased]
    cases hu : u.alias? with
    | none =>
      rcases List.mem_cons.mp ht with rfl | ht
      · rw [hname] at hu
        cases hu
      · exact ih ht hseen
    | some other =>
      simp only
      by_cases he : name = other
      · subst he
        rw [if_neg (by simpa using hseen)]
        exact ⟨u, List.mem_cons_self⟩
      have ht : t ∈ types := by
        rcases List.mem_cons.mp ht with rfl | ht
        · rw [hname] at hu
          exact absurd (Option.some.inj hu) he
        · exact ht
      split
      · exact ih ht hseen
      · obtain ⟨v, hv⟩ := ih ht (List.not_mem_cons_of_ne_of_not_mem he hseen)
        exact ⟨v, List.mem_cons_of_mem _ hv⟩

theorem exists_aliasItem {types : List TypeImport} {t : TypeImport} (ht : t ∈ types) {name : String}
    (hname : t.alias? = some name) : ∃ paragraph ∈ aliasItems types, aliasItem name ∈ paragraph := by
  obtain ⟨u, hu⟩ := exists_aliased ht hname (List.not_mem_nil)
  unfold aliasItems
  split
  · rename_i hnil
    rw [hnil] at hu
    cases hu
  · refine ⟨_, List.mem_singleton_self _, List.mem_flatMap.mpr ⟨_, hu, ?_⟩⟩
    simp

theorem combined_eq_ok {o : Options} {ps : List Projection} {source : String}
    (h : combined o ps = .ok source) : ps ≠ [] ∧ moduleClash? [] ps = none ∧
      ∃ (vs : List Variant) (modules : List (Landing × Paragraph)), variants ps = .ok vs ∧
        (∀ p ∈ ps, ∃ submodule ∈ modules.map (·.2), roleSubmodule vs p = .ok submodule) ∧
        (∀ start ∈ modules.map (·.1), ∃ p ∈ ps, p.landing p.start = .ok start) ∧
        assemble o (ps.map describe)
          (paragraphs (["use scrivener_runtime::\x7bMesh, SessionError\x7d;"]
            :: aliasItems (ps.flatMap (·.types)) ++ messageType vs ++ modules.map (·.2)
            ++ [connector ps (modules.map (·.1))])) = .ok source := by
  unfold combined at h
  obtain ⟨hne, h⟩ := ite_throw_eq_ok.mp h
  cases hclash : moduleClash? [] ps with
  | some q =>
    rw [hclash] at h
    exact absurd h throw_bind_ne_ok
  | none =>
    rw [hclash] at h
    obtain ⟨vs, hvs, h⟩ := bind_eq_ok.mp h
    obtain ⟨modules, hmodules, h⟩ := bind_eq_ok.mp h
    refine ⟨by simpa using hne, rfl, vs, modules, hvs, ?_, ?_, h⟩
    · intro p hp
      obtain ⟨m, hmem, hm⟩ := exists_ok_of_mapM_eq_ok hmodules hp
      obtain ⟨start, _, hm⟩ := bind_eq_ok.mp hm
      obtain ⟨submodule, hsubmodule, hm⟩ := bind_eq_ok.mp hm
      obtain rfl := pure_eq_ok.mp hm
      exact ⟨_, List.mem_map_of_mem hmem, hsubmodule⟩
    · intro start hstart
      obtain ⟨m, hmem, rfl⟩ := List.mem_map.mp hstart
      obtain ⟨p, hp, hm⟩ := exists_of_mem_mapM hmodules hmem
      obtain ⟨start, hlanding, hm⟩ := bind_eq_ok.mp hm
      obtain ⟨submodule, _, hm⟩ := bind_eq_ok.mp hm
      obtain rfl := pure_eq_ok.mp hm
      exact ⟨p, hp, hlanding⟩

/-! ### What each source holds -/

end Api

end Parley
