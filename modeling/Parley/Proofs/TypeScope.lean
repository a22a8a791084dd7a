import Parley.Proofs.Containment
import Parley.Proofs.Legible

/-! The type names of a source: those it imports, the message type, and the types or the submodules of
its roles. No two of these are the same, and no two imported types have the same alias. But nothing
keeps an alias from being one of the names that the source has anyway. -/

namespace Parley

open Outcome StateName Text

/-! ### How types of a role are named -/

theorem Text.parts_toDigits (i : Nat) : Parts (Nat.toDigits 10 i) := by
  intro c hc
  have hdigit := Nat.isDigit_of_mem_toDigits (by decide) (by decide) hc
  exact .inl (by simp [Char.isAlphanum, hdigit])

theorem Text.parts_stateName {stem : String} (h : Parts stem.toList) (i : Nat) :
    Parts (stateName stem i).toList := by
  rw [toList_stateName, parts_append, parts_cons]
  exact ⟨h, .inr rfl, parts_toDigits i⟩

section Stems

variable {ws : List String} {l : LocalProtocol} (htext : Grammar.LocalText ws l)

include htext

theorem Grammar.LocalText.parts_stem {s : Stretch} (hs : l.Has s) : Parts s.stem.toList := by
  have hbranch {s : Stretch} (ih : Parts s.stem.toList) {tag : String} (htag : Parts tag.toList)
      (i : Nat) : Parts (branchStem s.state tag i).toList := by
    rw [toList_branchStem, parts_append, parts_cons, parts_append]
    exact ⟨parts_stateName ih _, .inr rfl, htag, parts_toDigits i⟩
  induction hs with
  | whole =>
    cases htext with
    | localProtocol _ hprotagonist => exact Api.parts_of_isIdentifier hprotagonist
  | pass _ _ ih => exact ih
  | @body s id label body ns hs hr ih =>
    obtain ⟨us, hstep⟩ := htext.exists_step hs hr
    cases hstep with
    | loop hlabel _ =>
      show Parts (bodyStem s.state label).toList
      rw [toList_bodyStem, parts_append, parts_cons]
      exact ⟨parts_stateName ih _, .inr rfl, Api.parts_of_isIdentifier hlabel⟩
  | choice _ _ _ ih => exact hbranch ih (by decide) _
  | par _ _ _ ih => exact hbranch ih (by decide) _

end Stems

/-- A name that is made from the state of a step. -/
def LocalProtocol.Derives (l : LocalProtocol) (name : String) : Prop :=
  ∃ s n ns cs, l.Has s ∧ s.rest = n :: ns ∧ Closed cs ∧ Parts cs ∧
    name.toList = s.state.toList ++ cs

namespace LocalProtocol.Derives

variable {l : LocalProtocol} {name : String} (h : l.Derives name)

include h

theorem liesFrom : LiesFrom l.protagonist 1 name := by
  obtain ⟨s, n, ns, cs, hs, hr, hc, _, hname⟩ := h
  obtain ⟨q, hq, _, rfl, _⟩ := hs.exists_place hr
  obtain ⟨j, ds, hj, hd, hstate⟩ := Conversation.places_liesFrom l.protagonist [] none 1
    l.conversation q hq
  refine ⟨j, ds ++ cs, hj, hd.append hc, ?_⟩
  have hsame : q.stretch.state = q.state := rfl
  rw [hname, hsame, hstate, List.append_assoc]

theorem parts {ws : List String} (htext : Grammar.LocalText ws l) : Parts name.toList := by
  obtain ⟨s, n, ns, cs, hs, _, _, hcs, hname⟩ := h
  rw [hname, parts_append]
  exact ⟨parts_stateName (htext.parts_stem hs) _, hcs⟩

theorem append {suffix : String} (hhead : suffix.toList.head? = some '_')
    (hparts : Parts suffix.toList) : l.Derives (name ++ suffix) := by
  obtain ⟨s, n, ns, ds, hs, hr, hd, hds, hname⟩ := h
  obtain ⟨es, hes⟩ := List.head?_eq_some_iff.mp hhead
  have hsuffix : Closed suffix.toList := hes ▸ closed_underscore es
  refine ⟨s, n, ns, ds ++ suffix.toList, hs, hr, hd.append hsuffix, parts_append.mpr ⟨hds, hparts⟩, ?_⟩
  rw [String.toList_append, hname, List.append_assoc]

end LocalProtocol.Derives

namespace LocalProtocol.Yields

variable {l : LocalProtocol} {p : Projection} (y : l.Yields p)

include y

theorem derives_state {r : Record} (h : p.Lists r) (hk : r.kind ≠ .loop) : l.Derives r.state := by
  obtain ⟨s, hs, hr⟩ := y.exists_stretch h
  obtain ⟨n, ns, hrest, hstate⟩ := hr.state_eq hk
  exact ⟨s, n, ns, [], hs, hrest, .inl rfl, List.forall_mem_nil _, by simp [hstate]⟩

theorem derives_stem {ws : List String} (htext : Grammar.LocalText ws l) {r : LoopRecord}
    (h : r ∈ p.loops) : l.Derives r.stem := by
  obtain ⟨s, hs, body, ns, hrest, _, hstem, _⟩ := y.exists_stretch (r := .loop r) h
  obtain ⟨us, hstep⟩ := htext.exists_step hs hrest
  cases hstep with
  | loop hlabel _ =>
    refine ⟨s, _, ns, _, hs, hrest, closed_underscore r.label.toList, ?_, ?_⟩
    · exact parts_cons.mpr ⟨.inr rfl, Api.parts_of_isIdentifier hlabel⟩
    · rw [hstem, toList_bodyStem]

theorem derives_typeNames {ws : List String} (htext : Grammar.LocalText ws l) :
    ∀ name ∈ Api.typeNames p, l.Derives name := by
  intro name hname
  simp only [Api.typeNames, List.flatten_cons, List.flatten_nil, List.append_nil, List.mem_append,
    List.mem_map] at hname
  rcases hname with ((⟨r, hr, rfl⟩ | ⟨r, hr, rfl⟩) | ⟨r, hr, rfl⟩) | ⟨r, hr, rfl⟩ | ⟨r, hr, rfl⟩ |
    ⟨r, hr, rfl⟩ | ⟨r, hr, rfl⟩
  · exact y.derives_state (r := .message r) hr nofun
  · exact y.derives_state (r := .choice r) hr nofun
  · exact y.derives_state (r := .par r) hr nofun
  · obtain ⟨s, _, bs, ns, _, hstate, _, hjoin, _⟩ := y.exists_stretch (r := .par r) hr
    rw [hjoin, ← hstate]
    exact (y.derives_state (r := .par r) hr nofun).append (by decide) (by decide)
  · exact (y.derives_state (r := .choice r) hr nofun).append (by decide) (by decide)
  · exact (y.derives_stem htext hr).append (by decide) (by decide)
  · exact (y.derives_stem htext hr).append (by decide) (by decide)

end LocalProtocol.Yields

namespace Api

/-! ### Scopes -/

/-- The aliases of the imported types, as they stand in the source of some projections. -/
def aliasNames (ps : List Projection) : List String :=
  (aliased [] (ps.flatMap (·.types))).map (·.1)

def structLine (name back : String) : String := "pub struct " ++ name ++ back

def enumLine (name : String) : String := "pub enum " ++ name ++ " \x7b"

/-- Whether a loop can be left other than by its end. -/
def leavesEarly (p : Projection) (r : LoopRecord) : Bool :=
  ((p.landing r.next).toOption.bind fun exit =>
    (waysOut p r exit.typeName [] p.jumps).toOption).any (!·.isEmpty)

/-- The types that the source of a role declares, each with its line. -/
def ownTypes (p : Projection) : List (String × String) :=
  [(p.messages.map (·.state) ++ p.choices.map (·.state) ++ p.pars.map (·.state)).map
      fun name => (name, structLine name "(Session<Msg>);"),
    (p.pars.map (·.join)).map fun name => (name, structLine name "(Joiner<Msg>);"),
    ((p.choices.filter (·.role == .observer)).map branchType).map fun name => (name, enumLine name),
    (p.loops.map stepType).map fun name => (name, enumLine name),
    ((p.loops.filter (leavesEarly p)).map leaveType).map fun name => (name, enumLine name)].flatten

/-- What the roles have in the scope of a source: the types of a single one, or a submodule for
each. -/
def roleTypes : List Projection → List (String × String)
  | [p] => ownTypes p
  | ps => ps.map fun p => (roleModule p, moduleLine p)

/-- The types and modules in the scope of a source that are not aliases, each with the line that
brings it there. -/
def scope (ps : List Projection) : List (String × String) :=
  (importedTypes ps).map (fun name => (name, importLine (importedTypes ps))) ++
    ("Msg", enumLine "Msg") :: roleTypes ps

/-- The names in every scope of this kind, whatever the roles are. -/
def fixedTypes (ps : List Projection) : List String := importedTypes ps ++ ["Msg"]

def scopeNames (ps : List Projection) : List String := (scope ps).map (·.1)

theorem scopeNames_eq (ps : List Projection) :
    scopeNames ps = fixedTypes ps ++ (roleTypes ps).map (·.1) := by
  simp [scopeNames, scope, fixedTypes, Function.comp_def]

/-! ### Names that are apart -/

theorem nodup_aliased (seen : List String) (types : List TypeImport) :
    ((aliased seen types).map (·.1)).Nodup ∧ ∀ e ∈ aliased seen types, e.1 ∉ seen := by
  fun_induction aliased seen types with
  | case1 => simp
  | case2 seen u types _ ih => exact ih
  | case3 seen u types other _ _ ih => exact ih
  | case4 seen u types other _ hfresh ih =>
    obtain ⟨hnodup, hseen⟩ := ih
    rw [List.map_cons, List.nodup_cons, List.forall_mem_cons]
    refine ⟨⟨?_, hnodup⟩, by simpa using hfresh, ?_⟩
    · intro hmem
      obtain ⟨e, he, hname⟩ := List.mem_map.mp hmem
      exact hseen e he (hname ▸ List.mem_cons_self)
    · intro e he hmem
      exact hseen e he (List.mem_cons_of_mem _ hmem)

theorem moduleClash?_eq_none {taken : List String} {ps : List Projection} :
    moduleClash? taken ps = none ↔
      (ps.map roleModule).Nodup ∧ ∀ name ∈ ps.map roleModule, name ∉ taken := by
  rw [← firstRepeat?_eq_none]
  induction ps generalizing taken with
  | nil => exact iff_of_true rfl rfl
  | cons p ps ih =>
    rw [moduleClash?, List.map_cons, firstRepeat?]
    split
    · exact iff_of_false (Option.some_ne_none _) (Option.some_ne_none _)
    · exact ih

theorem map_fst_ownTypes_sublist (p : Projection) :
    ((ownTypes p).map (·.1)).Sublist (typeNames p) := by
  have hnames : (ownTypes p).map (·.1) =
      [p.messages.map (·.state) ++ p.choices.map (·.state) ++ p.pars.map (·.state),
        p.pars.map (·.join), (p.choices.filter (·.role == .observer)).map branchType,
        p.loops.map stepType, (p.loops.filter (leavesEarly p)).map leaveType].flatten := by
    simp [ownTypes, Function.comp_def]
  rw [hnames, typeNames]
  simp only [List.flatten_cons, List.flatten_nil, List.append_nil]
  refine (List.Sublist.refl _).append ((List.Sublist.refl _).append ?_)
  exact (List.filter_sublist.map _).append ((List.Sublist.refl _).append (List.filter_sublist.map _))

/-! ### Lines of types -/

section Lines

variable {p : Projection} {own : List Paragraph}

theorem mem_messageItems {vs : List Variant} {r : MessageRecord} (h : messageItems p vs r = .ok own) :
    ∃ paragraph ∈ own, structLine r.state "(Session<Msg>);" ∈ paragraph := by
  obtain ⟨v, _, h⟩ := bind_eq_ok.mp h
  obtain ⟨next, _, h⟩ := bind_eq_ok.mp h
  rw [← pure_eq_ok.mp h]
  exact ⟨_, List.mem_cons_self, by simp [stateType, structLine]⟩

theorem mem_choiceItems {r : ChoiceRecord} (h : choiceItems p r = .ok own) :
    (∃ paragraph ∈ own, structLine r.state "(Session<Msg>);" ∈ paragraph) ∧
      (r.role = .observer → ∃ paragraph ∈ own, enumLine (branchType r) ∈ paragraph) := by
  unfold choiceItems at h
  cases hrole : r.role with
  | chooser =>
    rw [hrole] at h
    obtain ⟨methods, _, h⟩ := bind_eq_ok.mp h
    rw [← pure_eq_ok.mp h]
    exact ⟨⟨_, List.mem_cons_self, by simp [stateType, structLine]⟩, nofun⟩
  | observer =>
    rw [hrole] at h
    obtain ⟨labels, _, h⟩ := bind_eq_ok.mp h
    obtain ⟨landings, _, h⟩ := bind_eq_ok.mp h
    rw [← pure_eq_ok.mp h]
    refine ⟨⟨_, List.mem_cons_of_mem _ List.mem_cons_self, by simp [stateType, structLine]⟩, ?_⟩
    intro _
    exact ⟨_, List.mem_cons_self, List.mem_cons_of_mem _ List.mem_cons_self⟩

theorem mem_parItems {r : ParRecord} (h : parItems p r = .ok own) :
    (∃ paragraph ∈ own, structLine r.state "(Session<Msg>);" ∈ paragraph) ∧
      ∃ paragraph ∈ own, structLine r.join "(Joiner<Msg>);" ∈ paragraph := by
  obtain ⟨landings, _, h⟩ := bind_eq_ok.mp h
  obtain ⟨next, _, h⟩ := bind_eq_ok.mp h
  rw [← pure_eq_ok.mp h]
  refine ⟨⟨_, List.mem_cons_self, by simp [stateType, structLine]⟩, ?_⟩
  refine ⟨_, List.mem_cons_of_mem _ (List.mem_cons_of_mem _ List.mem_cons_self), ?_⟩
  simp [structLine]

theorem mem_loopItems {r : LoopRecord} (h : loopItems p r = .ok own) :
    (∃ paragraph ∈ own, enumLine (stepType r) ∈ paragraph) ∧
      (leavesEarly p r = true → ∃ paragraph ∈ own, enumLine (leaveType r) ∈ paragraph) := by
  obtain ⟨exit, hexit, h⟩ := bind_eq_ok.mp h
  obtain ⟨ways, hways, h⟩ := bind_eq_ok.mp h
  rw [← pure_eq_ok.mp h]
  refine ⟨⟨_, List.mem_cons_self, List.mem_cons_of_mem _ List.mem_cons_self⟩, ?_⟩
  intro hleaves
  have hsome : ways.isEmpty = false := by
    have hany : (waysOut p r exit.typeName [] p.jumps).toOption.any (!·.isEmpty) = true := by
      rw [leavesEarly, hexit] at hleaves
      exact hleaves
    rw [hways] at hany
    exact Bool.not_eq_true' _ ▸ hany
  refine ⟨("/// How rec " ++ r.label ++ " was left.") ::
    block ("pub enum " ++ leaveType r)
      (variantLine "Done" exit.typeName :: ways.map fun w => variantLine w.variant w.state),
    List.mem_append_left _ (List.mem_append_right _ ?_), List.mem_cons_of_mem _ List.mem_cons_self⟩
  rw [if_neg (by simp [hsome])]
  exact List.mem_singleton_self _

theorem isLine_structLine {name back : String} (hname : '\n' ∉ name.toList)
    (hback : Text.IsLine back.toList) : Text.IsLine (structLine name back).toList :=
  isLine_around (by decide) hname hback

theorem isLine_enumLine {name : String} (hname : '\n' ∉ name.toList) :
    Text.IsLine (enumLine name).toList :=
  isLine_around (by decide) hname ⟨by decide, by decide, by decide⟩

theorem Outline.opens_ownTypes {vs : List Variant} {source : String} (outline : Outline [p] vs source)
    (hnames : ∀ name ∈ typeNames p, '\n' ∉ name.toList) :
    ∀ e ∈ ownTypes p, Opens source e.2 := by
  obtain ⟨items, hitems, hshows⟩ := outline.roles p (List.mem_singleton_self p)
  obtain ⟨hmessages, hchoices, hpars, hloops⟩ := roleItems_eq_ok hitems
  have hopens {own : List Paragraph} {line : String} (hsub : own ⊆ items)
      (h : ∃ paragraph ∈ own, line ∈ paragraph) (hline : Text.IsLine line.toList) :
      Opens source line := by
    obtain ⟨paragraph, hp, hmem⟩ := h
    exact (hshows paragraph (hsub hp)).opens hmem hline
  intro e he
  have hname : '\n' ∉ e.1.toList :=
    hnames _ ((map_fst_ownTypes_sublist p).subset (List.mem_map_of_mem he))
  have hsession : Text.IsLine "(Session<Msg>);".toList := ⟨by decide, by decide, by decide⟩
  have hjoiner : Text.IsLine "(Joiner<Msg>);".toList := ⟨by decide, by decide, by decide⟩
  simp only [ownTypes, List.flatten_cons, List.flatten_nil, List.append_nil, List.map_append,
    List.map_map, List.mem_append, List.mem_map, List.mem_filter, Function.comp_apply] at he
  rcases he with ((⟨r, hr, rfl⟩ | ⟨r, hr, rfl⟩) | ⟨r, hr, rfl⟩) | ⟨r, hr, rfl⟩ | ⟨r, ⟨hr, hrole⟩, rfl⟩ |
    ⟨r, hr, rfl⟩ | ⟨r, ⟨hr, hleaves⟩, rfl⟩
  · obtain ⟨own, hown, hsub⟩ := hmessages r hr
    exact hopens hsub (mem_messageItems hown) (isLine_structLine hname hsession)
  · obtain ⟨own, hown, hsub⟩ := hchoices r hr
    exact hopens hsub (mem_choiceItems hown).1 (isLine_structLine hname hsession)
  · obtain ⟨own, hown, hsub⟩ := hpars r hr
    exact hopens hsub (mem_parItems hown).1 (isLine_structLine hname hsession)
  · obtain ⟨own, hown, hsub⟩ := hpars r hr
    exact hopens hsub (mem_parItems hown).2 (isLine_structLine hname hjoiner)
  · obtain ⟨own, hown, hsub⟩ := hchoices r hr
    exact hopens hsub ((mem_choiceItems hown).2 (eq_of_beq hrole)) (isLine_enumLine hname)
  · obtain ⟨own, hown, hsub⟩ := hloops r hr
    exact hopens hsub (mem_loopItems hown).1 (isLine_enumLine hname)
  · obtain ⟨own, hown, hsub⟩ := hloops r hr
    exact hopens hsub ((mem_loopItems hown).2 hleaves) (isLine_enumLine hname)

end Lines

/-! ### The scope of a source -/

/-- The fixed names begin with a capital letter and have no underscore in them. -/
theorem fixedTypes_spec (ps : List Projection) : (fixedTypes ps).Nodup ∧
    ∀ name ∈ fixedTypes ps, name.toList.head?.any Char.isUpper = true ∧ '_' ∉ name.toList := by
  unfold fixedTypes
  rcases importedTypes_cases ps with h | h
  · rw [h]
    decide +kernel
  · rw [h]
    decide +kernel

theorem isLine_importLine (ps : List Projection) :
    Text.IsLine (importLine (importedTypes ps)).toList := by
  rcases importedTypes_cases ps with h | h
  · rw [h]
    exact ⟨by decide, by decide, by decide⟩
  · rw [h]
    exact ⟨by decide, by decide, by decide⟩

theorem several {ps : List Projection} (h : ps.length ≠ 1) (o : Options) :
    sourceOf o ps = combined o ps ∧ roleTypes ps = ps.map fun p => (roleModule p, moduleLine p) := by
  match ps with
  | [p] => exact absurd rfl h
  | [] => exact ⟨rfl, rfl⟩
  | p :: q :: ps => exact ⟨rfl, rfl⟩

/-- What the roles have in the scope of a source goes by names of its own: those of the types go on
from the role with a number, and those of the submodules do not begin with a capital letter. -/
structure RolesApart (ps : List Projection) : Prop where
  nodup : ((roleTypes ps).map (·.1)).Nodup
  single : ∀ p, ps = [p] → ∀ e ∈ roleTypes ps, LiesFrom p.protagonist 1 e.1
  several : ps.length ≠ 1 → ∀ e ∈ roleTypes ps, e.1.toList.head?.any Char.isUpper = false

/-- So none of these names is in the usual style for types. -/
theorem RolesApart.underscore_mem {ps : List Projection} (h : RolesApart ps) {e : String × String}
    (he : e ∈ roleTypes ps) (hupper : e.1.toList.head?.any Char.isUpper = true) :
    '_' ∈ e.1.toList := by
  by_cases hlength : ps.length = 1
  · obtain ⟨p, hp⟩ := List.length_eq_one_iff.mp hlength
    obtain ⟨cs, hcs⟩ := (h.single p hp e he).extends
    rw [hcs]
    simp
  · rw [h.several hlength e he] at hupper
    cases hupper

/-- The names of types in the source of some projections. -/
structure TypeScope (ps : List Projection) (source : String) : Prop where
  aliases : ∀ name ∈ aliasNames ps, Opens source (aliasItem name)
  others : ∀ e ∈ scope ps, Opens source e.2
  /-- All names are apart just if no alias is one of the others. -/
  apart_iff : (aliasNames ps ++ scopeNames ps).Nodup ↔ ∀ name ∈ aliasNames ps, name ∉ scopeNames ps
  single : ∀ p, ps = [p] → ∀ name ∈ scopeNames ps,
    name ∈ fixedTypes ps ∨ LiesFrom p.protagonist 1 name
  several : ps.length ≠ 1 → ∀ name ∈ scopeNames ps,
    name ∈ fixedTypes ps ∨ ∃ p ∈ ps, name = unreserved (snakeCase p.protagonist)
  /-- A name in the usual style, with a capital letter first and no underscore, is one of the others
  just if it is fixed. -/
  usual : ∀ name : String, name.toList.head?.any Char.isUpper = true → '_' ∉ name.toList →
    (name ∈ scopeNames ps ↔ name ∈ fixedTypes ps)

theorem RolesApart.nodup_scopeNames {ps : List Projection} (h : RolesApart ps) :
    (scopeNames ps).Nodup := by
  rw [scopeNames_eq]
  refine (fixedTypes_spec ps).1.append h.nodup ?_
  intro name hfixed hmem
  obtain ⟨e, he, rfl⟩ := List.mem_map.mp hmem
  obtain ⟨hupper, hunderscore⟩ := (fixedTypes_spec ps).2 _ hfixed
  exact hunderscore (h.underscore_mem he hupper)

end Api

theorem exists_localText_of_compileTexts {concurrent : Bool}
    {texts : List (Except FileError String)} {ps : List Projection}
    (h : compileTexts concurrent texts = .ok ps) {p : Projection} (hp : p ∈ ps) :
    ∃ ws l, Grammar.LocalText ws l ∧ l.Yields p := by
  obtain ⟨text, c, hc, hp⟩ := exists_compile_of_compileTexts h hp
  obtain ⟨us, q, hsections, _, l, hl, hproject⟩ := exists_local_of_compile hc hp
  obtain ⟨ws, htext⟩ := hsections.exists_localText hl
  exact ⟨ws, l, htext, LocalProtocol.yields_of_project_eq_ok hproject⟩

theorem rolesApart_of_compileTexts {concurrent : Bool} {texts : List (Except FileError String)}
    {ps : List Projection} (h : compileTexts concurrent texts = .ok ps) {o : Api.Options}
    {source : String} (hsource : Api.sourceOf o ps = .ok source) : Api.RolesApart ps := by
  by_cases hlength : ps.length = 1
  · obtain ⟨p, rfl⟩ := List.length_eq_one_iff.mp hlength
    obtain ⟨ws, l, htext, y⟩ := exists_localText_of_compileTexts h (List.mem_singleton_self p)
    have hsublist := Api.map_fst_ownTypes_sublist p
    refine ⟨hsublist.nodup y.typeNames_nodup, ?_, fun hne => absurd rfl hne⟩
    intro q hq e he
    obtain rfl := List.singleton_inj.mp hq
    rw [y.protagonist]
    exact (y.derives_typeNames htext _ (hsublist.subset (List.mem_map_of_mem he))).liesFrom
  · obtain ⟨hcombined, htypes⟩ := Api.several hlength o
    rw [hcombined] at hsource
    obtain ⟨_, hclash, _⟩ := Api.combined_eq_ok hsource
    refine ⟨?_, ?_, ?_⟩
    · rw [htypes, List.map_map]
      exact (Api.moduleClash?_eq_none.mp hclash).1
    · rintro p rfl
      exact absurd rfl hlength
    · intro _ e he
      rw [htypes] at he
      obtain ⟨p, hp, rfl⟩ := List.mem_map.mp he
      exact Api.head?_unreserved_snakeCase (lettered_of_compileTexts h p hp).protagonist

theorem opens_scope {concurrent : Bool} {texts : List (Except FileError String)}
    {ps : List Projection} (h : compileTexts concurrent texts = .ok ps) {vs : List Api.Variant}
    {source : String} (outline : Api.Outline ps vs source) :
    ∀ e ∈ Api.scope ps, Api.Opens source e.2 := by
  intro e he
  rcases List.mem_append.mp he with he | he
  · obtain ⟨name, _, rfl⟩ := List.mem_map.mp he
    exact outline.imports.opens (List.mem_singleton_self _) (Api.isLine_importLine ps)
  rcases List.mem_cons.mp he with rfl | he
  · have hline : Text.IsLine (Api.enumLine "Msg").toList := Api.isLine_enumLine (by decide)
    have henum : Api.enumLine "Msg" = "pub enum Msg" ++ " \x7b" := by decide
    apply (outline.messages _ List.mem_cons_self).opens _ hline
    rw [henum]
    simp [Api.block, Api.nest]
  by_cases hlength : ps.length = 1
  · obtain ⟨p, rfl⟩ := List.length_eq_one_iff.mp hlength
    obtain ⟨ws, l, htext, y⟩ := exists_localText_of_compileTexts h (List.mem_singleton_self p)
    refine outline.opens_ownTypes ?_ e he
    intro name hname
    exact ((y.derives_typeNames htext name hname).parts htext).newline_not_mem
  · rw [(Api.several hlength {}).2] at he
    obtain ⟨p, hp, rfl⟩ := List.mem_map.mp he
    have hid := Api.isIdentifier_snakeCase (lettered_of_compileTexts h p hp).protagonist
    apply outline.opens_module hlength hp
    exact (Api.parts_of_isIdentifier (Api.isIdentifier_unreserved hid)).newline_not_mem

/-- Whatever a source is generated from, no two of its type names are the same unless one of them is
an alias. -/
theorem typeScope_of_generate {concurrent : Bool} {o : Api.Options}
    {texts : List (Except FileError String)} {source : String}
    (h : generate concurrent o texts = .ok source) :
    ∃ ps, compileTexts concurrent texts = .ok ps ∧ Api.TypeScope ps source := by
  obtain ⟨_, ps, hps, hsource⟩ := generate_eq_ok.mp h
  obtain ⟨vs, _, outline⟩ := Api.exists_outline hsource
  have hroles := rolesApart_of_compileTexts hps hsource
  refine ⟨ps, hps, ?_, opens_scope hps outline, ?_, ?_, ?_, ?_⟩
  · intro name hname
    obtain ⟨⟨_, t⟩, ht, rfl⟩ := List.mem_map.mp hname
    exact outline.opens_type ht (Api.isIdentifier_of_mem_aliased (lettered_of_compileTexts hps) ht)
  · rw [List.nodup_append]
    constructor
    · rintro ⟨_, _, hapart⟩ name halias hmem
      exact hapart name halias name hmem rfl
    · intro hclear
      refine ⟨(Api.nodup_aliased _ _).1, hroles.nodup_scopeNames, ?_⟩
      rintro name halias _ hmem rfl
      exact hclear name halias hmem
  · intro p hp name hname
    rw [Api.scopeNames_eq] at hname
    refine (List.mem_append.mp hname).imp_right ?_
    intro hmem
    obtain ⟨e, he, rfl⟩ := List.mem_map.mp hmem
    exact hroles.single p hp e he
  · intro hlength name hname
    rw [Api.scopeNames_eq] at hname
    refine (List.mem_append.mp hname).imp_right ?_
    intro hmem
    rw [(Api.several hlength o).2, List.map_map] at hmem
    obtain ⟨p, hp, rfl⟩ := List.mem_map.mp hmem
    exact ⟨p, hp, rfl⟩
  · intro name hupper hunderscore
    rw [Api.scopeNames_eq, List.mem_append]
    refine ⟨?_, .inl⟩
    rintro (hfixed | hmem)
    · exact hfixed
    obtain ⟨e, he, rfl⟩ := List.mem_map.mp hmem
    exact absurd (hroles.underscore_mem he hupper) hunderscore

/-- Letters day by day, and two errands at once. -/
def postText : String :=
  "type <json> \"Note\" from \"note.json\" as Note;
  local protocol Post at Ann (role Ann, role Bob) \x7b
    rec Day \x7b
      choice at Bob \x7b letter(Note) from Bob; continue Day; \x7d or \x7b close() from Bob; \x7d
    \x7d
    par \x7b stamp() to Bob; \x7d and \x7b weigh() from Bob; \x7d
  \x7d"

theorem postText_typeScope : ∃ source ps, generate false ⟨"post", true⟩ [.ok postText] = .ok source ∧
    compileTexts false [.ok postText] = .ok ps ∧ Api.TypeScope ps source ∧
    Api.aliasNames ps = ["Note"] ∧ (Api.aliasNames ps ++ Api.scopeNames ps).Nodup := by
  have hok : ((compile false postText).toOption.any fun c : Compiled =>
      (Api.sourceOf ⟨"post", true⟩ c.projections).toBool &&
        (decide (Api.aliasNames c.projections = ["Note"]) &&
          decide (∀ name ∈ Api.aliasNames c.projections,
            name ∉ Api.scopeNames c.projections))) = true := by
    unfold compile Protocol.parse postText
    rw [Token.scan_ofList]
    decide +kernel
  obtain ⟨c, hc, hok⟩ := exists_ok_of_any hok
  obtain ⟨hsource, hok⟩ := Bool.and_eq_true_iff.mp hok
  obtain ⟨haliases, hclear⟩ := Bool.and_eq_true_iff.mp hok
  obtain ⟨source, hsource⟩ := exists_ok_of_toBool hsource
  have hps := compileTexts_singleton hc
  have hgenerate := generate_eq_ok.mpr ⟨List.cons_ne_nil _ _, _, hps, hsource⟩
  obtain ⟨ps, hps', hscope⟩ := typeScope_of_generate hgenerate
  obtain rfl := Except.ok.inj (hps.symm.trans hps')
  exact ⟨source, _, hgenerate, hps, hscope, of_decide_eq_true haliases,
    hscope.apart_iff.mpr (of_decide_eq_true hclear)⟩

/-- A note that goes by the name of the message type. -/
def noteText : String :=
  "type <json> \"Note\" from \"note.json\" as Msg;
  local protocol Post at Ann (role Ann, role Bob) \x7b letter(Msg) to Bob; \x7d"

/-- An alias may be the name of a type that the source has anyway. -/
theorem noteText_clash : ∃ source ps, generate false {} [.ok noteText] = .ok source ∧
    compileTexts false [.ok noteText] = .ok ps ∧ "Msg" ∈ Api.aliasNames ps ∧
    "Msg" ∈ Api.scopeNames ps ∧ Api.Opens source "pub type Msg = String;" ∧
    Api.Opens source "pub enum Msg \x7b" := by
  have hok : ((compile false noteText).toOption.any fun c =>
      (Api.sourceOf {} c.projections).toBool &&
        decide ("Msg" ∈ Api.aliasNames c.projections)) = true := by
    unfold compile Protocol.parse noteText
    rw [Token.scan_ofList]
    decide +kernel
  obtain ⟨c, hc, hok⟩ := exists_ok_of_any hok
  obtain ⟨hsource, halias⟩ := Bool.and_eq_true_iff.mp hok
  obtain ⟨source, hsource⟩ := exists_ok_of_toBool hsource
  have halias := of_decide_eq_true halias
  have hps := compileTexts_singleton hc
  obtain ⟨vs, _, outline⟩ := Api.exists_outline hsource
  have hmem : ("Msg", Api.enumLine "Msg") ∈ Api.scope c.projections := by
    simp [Api.scope]
  obtain ⟨⟨_, t⟩, ht, rfl⟩ := List.mem_map.mp halias
  have htype := outline.opens_type ht (by decide)
  have henum := opens_scope hps outline _ hmem
  have htypeLine : Api.aliasItem "Msg" = "pub type Msg = String;" := by decide
  have henumLine : Api.enumLine "Msg" = "pub enum Msg \x7b" := by decide
  rw [htypeLine] at htype
  rw [henumLine] at henum
  exact ⟨source, _, generate_eq_ok.mpr ⟨List.cons_ne_nil _ _, _, hps, hsource⟩, hps, halias,
    List.mem_map_of_mem hmem, htype, henum⟩

end Parley
