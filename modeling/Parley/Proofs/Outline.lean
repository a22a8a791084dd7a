import Parley.Compile
import Parley.Proofs.Item

/-! The outline of a source: how the lines begin that declare something. Whatever is nested or joined
into the source keeps the beginnings of its lines, up to their indentation. -/

namespace Parley

open Outcome

namespace Api

/-- The source of some projections: that of a single role, or of all roles together. -/
def sourceOf (o : Options) : List Projection → Except ApiError String
  | [p] => single o p
  | ps => combined o ps

/-- A line of the source begins like this, whatever its indentation. -/
def Opens (source head : String) : Prop :=
  Text.Opens (Text.splitLines source.toList) head.toList

/-- The source has all the beginnings of some lines. -/
def Shows (source : String) (lines : List String) : Prop :=
  ∀ head : String, Text.IsLine head.toList →
    Text.Opens (lines.map String.toList) head.toList → Opens source head

namespace Shows

variable {source : String} {lines lines' : List String}

theorem mono (h : Shows source lines) (hsub : lines' ⊆ lines) : Shows source lines' := by
  intro head hhead hopens
  apply h head hhead
  exact hopens.mono (List.map_subset _ hsub)

theorem of_indent (h : Shows source (Text.indent (Text.joinLines lines))) : Shows source lines := by
  intro head hhead hopens
  apply h head hhead
  exact (hopens.joinLines hhead).indent hhead

theorem of_joinLines (lines : List String) : Shows (Text.joinLines lines) lines := by
  intro head hhead hopens
  exact hopens.joinLines hhead

theorem of_assemble {o : Options} {sources body : List String}
    (h : assemble o sources body = .ok source) : Shows source body := by
  unfold assemble at h
  split at h
  · cases h
    apply (of_joinLines _).mono
    intro line hline
    simp [hline]
  · split at h
    · cases h
    · cases h
      apply of_indent
      apply (of_joinLines _).mono
      intro line hline
      simp [hline]

theorem paragraph {ps : List Paragraph} (h : Shows source (paragraphs ps)) {paragraph : Paragraph}
    (hp : paragraph ∈ ps) : Shows source paragraph :=
  h.mono fun _ hline => mem_paragraphs hline hp

theorem opens (h : Shows source lines) {line : String} (hline : line ∈ lines)
    (hl : Text.IsLine line.toList) : Opens source line :=
  h line hl (Text.opens_of_mem (List.mem_map_of_mem hline) List.prefix_rfl)

end Shows

/-- A name with something on either side of it on one line. -/
theorem isLine_around {front name back : String} (hfront : '\n' ∉ front.toList)
    (hname : '\n' ∉ name.toList) (hback : Text.IsLine back.toList) :
    Text.IsLine (front ++ name ++ back).toList := by
  rw [String.toList_append, String.toList_append]
  apply hback.append
  rw [List.mem_append, not_or]
  exact ⟨hfront, hname⟩

def sessionTypes : List String :=
  ["BranchDone", "Endpoint", "Finished", "Joiner", "Session", "SessionError"]

def meshTypes : List String := ["Mesh", "SessionError"]

/-- The types that the source of some projections imports. -/
def importedTypes : List Projection → List String
  | [_] => sessionTypes
  | _ => meshTypes

def importLine (types : List String) : String :=
  "use scrivener_runtime::\x7b" ++ commaList types ++ "\x7d;"

theorem importedTypes_cases (ps : List Projection) :
    importedTypes ps = sessionTypes ∨ importedTypes ps = meshTypes := by
  match ps with
  | [_] => exact .inl rfl
  | [] | _ :: _ :: _ => exact .inr rfl

/-- The line on which the submodule of a role begins. -/
def moduleLine (p : Projection) : String := "pub mod " ++ roleModule p ++ " \x7b"

/-- What is seen in the source of some projections, with these variants for their messages. -/
structure Outline (ps : List Projection) (vs : List Variant) (source : String) : Prop where
  imports : Shows source [importLine (importedTypes ps)]
  aliases : ∀ paragraph ∈ aliasItems (ps.flatMap (·.types)), Shows source paragraph
  messages : ∀ paragraph ∈ messageType vs, Shows source paragraph
  roles : ∀ p ∈ ps, ∃ items, roleItems p vs = .ok items ∧
    ∀ paragraph ∈ items, Shows source paragraph
  modules : ps.length ≠ 1 → ∀ p ∈ ps, Shows source [moduleLine p]

theorem exists_outline_of_single {o : Options} {p : Projection} {source : String}
    (h : single o p = .ok source) : ∃ vs, variants [p] = .ok vs ∧ Outline [p] vs source := by
  obtain ⟨vs, hvs, h⟩ := bind_eq_ok.mp h
  obtain ⟨items, hitems, h⟩ := bind_eq_ok.mp h
  have hbody := (Shows.of_assemble h).mono (List.subset_append_left _ _)
  refine ⟨vs, hvs, ?_, ?_, ?_, ?_, ?_⟩
  · have himports : importLine sessionTypes = sessionImports := by decide
    exact hbody.paragraph (by simp [importedTypes, himports])
  · intro paragraph hp
    rw [List.flatMap_singleton] at hp
    exact hbody.paragraph (by simp [hp])
  · intro paragraph hp
    exact hbody.paragraph (by simp [hp])
  · intro q hq
    obtain rfl := List.mem_singleton.mp hq
    refine ⟨items, hitems, ?_⟩
    intro paragraph hp
    exact hbody.paragraph (by simp [hp])
  · intro hlength
    exact absurd rfl hlength

theorem exists_outline_of_combined {o : Options} {ps : List Projection} {source : String}
    (htypes : importedTypes ps = meshTypes)
    (h : combined o ps = .ok source) : ∃ vs, variants ps = .ok vs ∧ Outline ps vs source := by
  obtain ⟨_, _, vs, modules, hvs, hmodules, _, h⟩ := combined_eq_ok h
  have hbody := Shows.of_assemble h
  have hmodule : ∀ p ∈ ps, ∃ items, roleItems p vs = .ok items ∧
      Shows source (moduleLine p :: Text.indent (Text.joinLines (paragraphs items))) := by
    intro p hp
    obtain ⟨submodule, hmem, hsubmodule⟩ := hmodules p hp
    obtain ⟨items, hitems, hsubmodule⟩ := bind_eq_ok.mp hsubmodule
    have hshows := hbody.paragraph (List.mem_append_left _ (List.mem_append_right _ hmem))
    refine ⟨items, hitems, hshows.mono ?_⟩
    rw [← pure_eq_ok.mp hsubmodule]
    intro line hline
    rcases List.mem_cons.mp hline with rfl | hline
    · simp [moduleLine]
    · simp [hline]
  refine ⟨vs, hvs, ?_, ?_, ?_, ?_, ?_⟩
  · have himports : importLine meshTypes = "use scrivener_runtime::\x7bMesh, SessionError\x7d;" := by
      decide
    rw [htypes, himports]
    exact hbody.paragraph (by simp)
  · intro paragraph hp
    exact hbody.paragraph (by simp [hp])
  · intro paragraph hp
    exact hbody.paragraph (by simp [hp])
  · intro p hp
    obtain ⟨items, hitems, hshows⟩ := hmodule p hp
    refine ⟨items, hitems, ?_⟩
    intro paragraph hparagraph
    exact ((hshows.mono (List.subset_cons_self _ _)).of_indent).paragraph hparagraph
  · intro _ p hp
    obtain ⟨items, _, hshows⟩ := hmodule p hp
    exact hshows.mono (by simp)

/-- Whatever projections a source is of, it can be read off from it what it declares. -/
theorem exists_outline {o : Options} {ps : List Projection} {source : String}
    (h : sourceOf o ps = .ok source) : ∃ vs, variants ps = .ok vs ∧ Outline ps vs source := by
  match ps with
  | [p] => exact exists_outline_of_single h
  | [] => exact exists_outline_of_combined rfl h
  | p :: q :: ps => exact exists_outline_of_combined rfl h

/-- The items of a role hold those of each of its steps. -/
theorem roleItems_eq_ok {p : Projection} {vs : List Variant} {items : List Paragraph}
    (h : roleItems p vs = .ok items) :
    (∀ r ∈ p.messages, ∃ own, messageItems p vs r = .ok own ∧ own ⊆ items) ∧
    (∀ r ∈ p.choices, ∃ own, choiceItems p r = .ok own ∧ own ⊆ items) ∧
    (∀ r ∈ p.pars, ∃ own, parItems p r = .ok own ∧ own ⊆ items) ∧
    ∀ r ∈ p.loops, ∃ own, loopItems p r = .ok own ∧ own ⊆ items := by
  obtain ⟨start, _, h⟩ := bind_eq_ok.mp h
  obtain ⟨messages, hmessages, h⟩ := bind_eq_ok.mp h
  obtain ⟨choices, hchoices, h⟩ := bind_eq_ok.mp h
  obtain ⟨pars, hpars, h⟩ := bind_eq_ok.mp h
  obtain ⟨loops, hloops, h⟩ := bind_eq_ok.mp h
  have hitems {own : List Paragraph} (hown : own ∈ messages ++ choices ++ pars ++ loops) :
      own ⊆ items := by
    rw [← pure_eq_ok.mp h]
    intro paragraph hp
    exact List.mem_append_right _ (List.mem_flatten.mpr ⟨own, hown, hp⟩)
  refine ⟨?_, ?_, ?_, ?_⟩
  · intro r hr
    obtain ⟨own, hown, hr⟩ := exists_ok_of_mapM_eq_ok hmessages hr
    exact ⟨own, hr, hitems (by simp [hown])⟩
  · intro r hr
    obtain ⟨own, hown, hr⟩ := exists_ok_of_mapM_eq_ok hchoices hr
    exact ⟨own, hr, hitems (by simp [hown])⟩
  · intro r hr
    obtain ⟨own, hown, hr⟩ := exists_ok_of_mapM_eq_ok hpars hr
    exact ⟨own, hr, hitems (by simp [hown])⟩
  · intro r hr
    obtain ⟨own, hown, hr⟩ := exists_ok_of_mapM_eq_ok hloops hr
    exact ⟨own, hr, hitems (by simp [hown])⟩

end Api

theorem generate_eq_ok {concurrent : Bool} {o : Api.Options}
    {texts : List (Except FileError String)} {source : String} :
    generate concurrent o texts = .ok source ↔ texts ≠ [] ∧
      ∃ ps, compileTexts concurrent texts = .ok ps ∧ Api.sourceOf o ps = .ok source := by
  unfold generate
  refine ite_throw_eq_ok.trans ?_
  rw [bind_eq_ok]
  refine and_congr (by simp) (exists_congr fun ps => and_congr_right fun _ => ?_)
  match ps with
  | [p] => exact mapError_eq_ok
  | [] => exact mapError_eq_ok
  | p :: q :: ps => exact mapError_eq_ok

theorem compileTexts_singleton {concurrent : Bool} {text : String} {c : Compiled}
    (h : compile concurrent text = .ok c) :
    compileTexts concurrent [.ok text] = .ok c.projections := by
  refine bind_eq_ok.mpr ⟨text, rfl, bind_eq_ok.mpr ⟨c, h, bind_eq_ok.mpr ⟨[], rfl, ?_⟩⟩⟩
  rw [List.append_nil]
  rfl

theorem exists_compile_of_compileTexts {concurrent : Bool}
    {texts : List (Except FileError String)} {ps : List Projection}
    (h : compileTexts concurrent texts = .ok ps) {p : Projection} (hp : p ∈ ps) :
    ∃ text c, compile concurrent text = .ok c ∧ p ∈ c.projections := by
  induction texts generalizing ps with
  | nil =>
    cases h
    cases hp
  | cons text texts ih =>
    obtain ⟨text, _, h⟩ := bind_eq_ok.mp h
    obtain ⟨c, hcompile, h⟩ := bind_eq_ok.mp h
    obtain ⟨qs, hqs, h⟩ := bind_eq_ok.mp h
    cases h
    rcases List.mem_append.mp hp with hp | hp
    · exact ⟨text, c, hcompile, hp⟩
    · exact ih hqs hp

end Parley
