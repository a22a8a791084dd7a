import Mathlib.Data.List.Basic
import Parley.Api.Role
import Parley.Proofs.Declared
import Parley.Proofs.Roster

/-! Names in the source of a role. The types of states, of joins and branches, and of the steps and
exits of loops all have names of their own. So have the functions that drive the loops, although
their names are lowered: a number in a name is not touched by a change of case, and behind it stands
an underscore. -/

namespace Parley

open Outcome StateName

namespace Text

theorem any_contains_eq_false {strides : List Stride} {least n : Nat}
    (hall : ∀ s ∈ strides, least ≤ s.first) (hn : n < least) :
    strides.any (·.contains n) = false := by
  rw [List.any_eq_false]
  intro s hs hc
  have hfirst := hall s hs
  simp only [Stride.contains, Bool.and_eq_true, decide_eq_true_eq] at hc
  omega

theorem caseless_of_isDigit {c : Char} (h : c.isDigit = true) :
    isUpper c = false ∧ isLower c = false := by
  have hlt : c.toNat < 65 := by
    have := (Char.isDigit_iff_toNat.mp h).2
    have hnine : '9'.toNat = 57 := rfl
    omega
  exact ⟨any_contains_eq_false (by decide +kernel) hlt, any_contains_eq_false (by decide +kernel) hlt⟩

theorem caseless_underscore : isUpper '_' = false ∧ isLower '_' = false := by
  decide +kernel

/-- What stands before a character that is not lower-case changes case without regard to it. -/
theorem snakeChars_append (xs : List Char) {ys : List Char} (h : ys.head?.any isLower = false)
    (before? : Option Char) :
    snakeChars before? (xs ++ ys) =
      snakeChars before? xs ++ snakeChars (xs.getLast?.or before?) ys := by
  induction xs generalizing before? with
  | nil => rfl
  | cons x xs ih =>
    have hword : startsWord before? (xs ++ ys) = startsWord before? xs := by
      cases before? with
      | none => rfl
      | some b =>
        cases xs with
        | nil => simp [startsWord, h]
        | cons => rfl
    have hlast : (x :: xs).getLast?.or before? = xs.getLast?.or (some x) := by
      cases hxs : xs.getLast? <;> simp [List.getLast?_cons, hxs]
    rw [List.cons_append, snakeChars, snakeChars, hword, ih, hlast, List.append_assoc]

theorem snakeChars_underscore (xs ys : List Char) :
    ∃ zs, snakeChars none (xs ++ '_' :: ys) = snakeChars none xs ++ '_' :: zs := by
  obtain ⟨hupper, hlower⟩ := caseless_underscore
  refine ⟨snakeChars (some '_') ys, ?_⟩
  rw [snakeChars_append xs (by simpa using hlower), snakeChars, hupper]
  rfl

theorem snakeChars_plain {xs : List Char} (h : ∀ c ∈ xs, isUpper c = false) (ys : List Char)
    (before? : Option Char) : ∃ last?, snakeChars before? (xs ++ ys) = xs ++ snakeChars last? ys := by
  induction xs generalizing before? with
  | nil => exact ⟨before?, rfl⟩
  | cons x xs ih =>
    obtain ⟨hx, hxs⟩ := List.forall_mem_cons.mp h
    obtain ⟨last?, hrest⟩ := ih hxs (some x)
    exact ⟨last?, by rw [List.cons_append, snakeChars, hx, hrest]; rfl⟩

/-- A number with an underscore behind it is still there after a change of case. -/
theorem snakeChars_number (start : List Char) (i : Nat) (ys : List Char) :
    ∃ zs, snakeChars none (start ++ (Nat.toDigits 10 i ++ '_' :: ys)) =
      snakeChars none start ++ (Nat.toDigits 10 i ++ '_' :: zs) := by
  have hdigit : ∀ c ∈ Nat.toDigits 10 i, isUpper c = false ∧ isLower c = false := fun c hc =>
    caseless_of_isDigit (Nat.isDigit_of_mem_toDigits (by decide) (by decide) hc)
  have hhead : (Nat.toDigits 10 i ++ '_' :: ys).head?.any isLower = false := by
    cases hd : Nat.toDigits 10 i with
    | nil => exact absurd hd Nat.toDigits_ne_nil
    | cons d ds => exact (hdigit d (hd ▸ List.mem_cons_self)).2
  obtain ⟨last?, hplain⟩ := snakeChars_plain (fun c hc => (hdigit c hc).1) ('_' :: ys) start.getLast?
  refine ⟨snakeChars (some '_') ys, ?_⟩
  rw [snakeChars_append start hhead, Option.or_none, hplain, snakeChars, caseless_underscore.1]
  rfl

end Text

open Text

/-- Names that a number tells apart stay apart when they go on and change case. -/
theorem StateName.Splits.snakeChars_ne {s t : List Char} (h : Splits s t) (a b : List Char) :
    snakeChars none (s ++ '_' :: a) ≠ snakeChars none (t ++ '_' :: b) := by
  obtain ⟨start, i, j, cs, ds, hij, hc, hd, rfl, rfl⟩ := h
  obtain ⟨es, hes⟩ := hc.append_underscore a
  obtain ⟨fs, hfs⟩ := hd.append_underscore b
  obtain ⟨us, hus⟩ := snakeChars_number start i es
  obtain ⟨vs, hvs⟩ := snakeChars_number start j fs
  simp only [List.append_assoc, hes, hfs, hus, hvs]
  intro he
  have hrest := List.append_cancel_left he
  exact hij (digits_append_injective (closed_underscore us) (closed_underscore vs) hrest).1

theorem Place.Precedes.snakeCase_ne {p q : Place} (h : p.Precedes q) {a b : List Char}
    (hp : p.innerStem.toList = p.state.toList ++ '_' :: a)
    (hq : q.innerStem.toList = q.state.toList ++ '_' :: b) :
    snakeCase p.innerStem ≠ snakeCase q.innerStem := by
  intro he
  have hchars : snakeChars none p.innerStem.toList = snakeChars none q.innerStem.toList :=
    String.ofList_injective he
  rcases h with ⟨cs, hcs⟩ | h
  · -- the stem of the inner loop goes on from that of the outer
    obtain ⟨zs, hzs⟩ := snakeChars_underscore p.innerStem.toList (cs ++ '_' :: b)
    rw [hq, hcs, List.append_assoc, List.cons_append, hzs] at hchars
    have hlength := congrArg List.length hchars
    rw [List.length_append, List.length_cons] at hlength
    omega
  · rw [hp, hq] at hchars
    exact h.snakeChars_ne a b hchars

/-- The names of the types of a role, family by family. -/
def Api.typeNames (p : Projection) : List String :=
  [p.messages.map (·.state) ++ p.choices.map (·.state) ++ p.pars.map (·.state),
    p.pars.map (·.join), p.choices.map branchType, p.loops.map stepType,
    p.loops.map leaveType].flatten

/-- The letter at the end of a name, if it ends in one. -/
def Api.ending (name : String) : Option Char := name.toList.getLast?.filter (!·.isDigit)

namespace Api

/-- Names with one ending, made from others that never repeat. -/
theorem nodup_map_append {α : Type} {xs : List α} {f : α → String} (hf : (xs.map f).Nodup)
    {suffix : String} {c : Char} (h : ending suffix = some c) :
    (xs.map (f · ++ suffix)).Nodup ∧ ∀ name ∈ xs.map (f · ++ suffix), ending name = some c := by
  constructor
  · refine List.pairwise_map.mpr ((List.pairwise_map.mp hf).imp fun hne he => hne ?_)
    exact String.append_left_inj suffix |>.mp he
  · intro name hname
    obtain ⟨x, _, rfl⟩ := List.mem_map.mp hname
    obtain ⟨hlast, hc⟩ := Option.filter_eq_some_iff.mp h
    rw [ending, String.toList_append, List.getLast?_append, hlast]
    exact Option.filter_eq_some_iff.mpr ⟨rfl, hc⟩

theorem ending_stateName (stem : String) (i : Nat) : ending (stateName stem i) = none := by
  have hlast : (stateName stem i).toList.getLast? = (Nat.toDigits 10 i).getLast? := by
    rw [toList_stateName, List.append_cons]
    exact List.getLast?_append_of_ne_nil _ Nat.toDigits_ne_nil
  rw [ending, hlast, Option.filter_eq_none_iff]
  intro c hc
  have hdigit := Nat.isDigit_of_mem_toDigits (by decide) (by decide) (List.mem_of_getLast? hc)
  simp [hdigit]

end Api

/-- Names that never repeat within a family, in families that a key tells apart. -/
theorem nodup_flatten_of_key {α κ : Type} {key : α → κ} {keys : List κ} {families : List (List α)}
    (h : List.Forall₂ (fun k xs => xs.Nodup ∧ ∀ x ∈ xs, key x = k) keys families)
    (hkeys : keys.Nodup) : families.flatten.Nodup ∧ ∀ x ∈ families.flatten, key x ∈ keys := by
  induction h with
  | nil => exact ⟨List.nodup_nil, by simp⟩
  | @cons k xs keys families hxs _ ih =>
    obtain ⟨hk, hkeys⟩ := List.nodup_cons.mp hkeys
    obtain ⟨hnodup, hmem⟩ := ih hkeys
    rw [List.flatten_cons]
    refine ⟨List.nodup_append.mpr ⟨hxs.1, hnodup, ?_⟩, ?_⟩
    · rintro x hx y hy rfl
      exact hk (hxs.2 x hx ▸ hmem x hy)
    · intro x hx
      rcases List.mem_append.mp hx with hx | hx
      · rw [hxs.2 x hx]
        exact List.mem_cons_self
      · exact List.mem_cons_of_mem k (hmem x hx)

namespace LocalProtocol

variable {l : LocalProtocol} {p : Projection}

namespace Yields

variable (y : l.Yields p)

include y

theorem snakeCase_stems : p.loops.Pairwise fun r r' => snakeCase r.stem ≠ snakeCase r'.stem := by
  have hstem : ∀ q r, (l.record? q).bind Record.loop? = some r → r.stem = q.innerStem ∧
      q.innerStem.toList = q.state.toList ++ '_' :: r.label.toList := by
    intro q r h
    obtain ⟨x, hx, hr⟩ := Option.bind_eq_some_iff.mp h
    cases x <;> cases hr
    obtain ⟨body, ns, hrest, _, hstem, _⟩ := records_of_record_eq_ok (record?_eq_some.mp hx)
    have hn : q.node = .loop r.id r.label body := (List.cons.inj hrest).1
    have hinner : q.innerStem = bodyStem q.state r.label := by
      rw [Place.innerStem, hn]
      rfl
    rw [hinner]
    exact ⟨hstem, toList_bodyStem ..⟩
  rw [y.loops, List.pairwise_filterMap]
  refine l.places_pairwise.imp fun h r hr r' hr' => ?_
  obtain ⟨hs, hlist⟩ := hstem _ r hr
  obtain ⟨hs', hlist'⟩ := hstem _ r' hr'
  rw [hs, hs']
  exact h.snakeCase_ne hlist hlist'

theorem drivers_nodup : (p.loops.map Api.driverName).Nodup := by
  refine List.pairwise_map.mpr (y.snakeCase_stems.imp fun hne he => hne ?_)
  exact String.append_right_inj _ |>.mp he

theorem stems_nodup : (p.loops.map (·.stem)).Nodup :=
  List.pairwise_map.mpr (y.snakeCase_stems.imp fun hne he => hne (congrArg snakeCase he))

theorem standing_nodup :
    (p.messages.map (·.state) ++ p.choices.map (·.state) ++ p.pars.map (·.state)).Nodup := by
  have hstates : p.records.filterMap Record.standing? =
      p.messages.map (·.state) ++ p.choices.map (·.state) ++ p.pars.map (·.state) := by
    simp [Projection.records, StepKind.all, Projection.ofKind, List.filterMap_map, Function.comp_def,
      Record.standing?, Record.kind, StepKind.observable, Record.state]
  rw [← hstates]
  exact ((y.records_perm.filterMap Record.standing?).nodup_iff).mpr y.states_nodup

theorem ending_standing {r : Record} (h : p.Lists r) (hk : r.kind ≠ .loop) :
    Api.ending r.state = none := by
  obtain ⟨s, _, hr⟩ := y.exists_stretch h
  obtain ⟨_, _, _, hstate⟩ := hr.state_eq hk
  rw [← hstate]
  exact Api.ending_stateName ..

theorem joins_eq : p.pars.map (·.join) = p.pars.map fun r => joinState r.state := by
  refine List.map_congr_left fun r hr => ?_
  obtain ⟨s, _, hrec⟩ := y.exists_stretch (r := .par r) hr
  obtain ⟨_, _, _, hstate, _, hjoin, _⟩ := hrec
  rw [hjoin, ← hstate]

theorem typeNames_nodup : (Api.typeNames p).Nodup := by
  have hstanding := y.standing_nodup
  obtain ⟨hmc, hpars, _⟩ := List.nodup_append.mp hstanding
  obtain ⟨_, hchoices, _⟩ := List.nodup_append.mp hmc
  have hending : ∀ name ∈ p.messages.map (·.state) ++ p.choices.map (·.state) ++
      p.pars.map (·.state), Api.ending name = none := by
    intro name hname
    simp only [List.mem_append, List.mem_map] at hname
    rcases hname with (⟨r, hr, rfl⟩ | ⟨r, hr, rfl⟩) | ⟨r, hr, rfl⟩
    · exact y.ending_standing (r := .message r) hr nofun
    · exact y.ending_standing (r := .choice r) hr nofun
    · exact y.ending_standing (r := .par r) hr nofun
  -- the last letter tells the families apart
  have hfamilies : List.Forall₂ (fun c names => names.Nodup ∧ ∀ name ∈ names, Api.ending name = c)
      [none, some 'n', some 'h', some 'p', some 't']
      [p.messages.map (·.state) ++ p.choices.map (·.state) ++ p.pars.map (·.state),
        p.pars.map (·.join), p.choices.map Api.branchType, p.loops.map Api.stepType,
        p.loops.map Api.leaveType] := by
    rw [y.joins_eq]
    exact .cons ⟨hstanding, hending⟩ <| .cons (Api.nodup_map_append hpars (by decide)) <|
      .cons (Api.nodup_map_append hchoices (by decide)) <|
      .cons (Api.nodup_map_append y.stems_nodup (by decide)) <|
      .cons (Api.nodup_map_append y.stems_nodup (by decide)) .nil
  exact (nodup_flatten_of_key hfamilies (by decide)).1

end Yields

/-- A local protocol and its projection with all names apart. -/
structure Named (l : LocalProtocol) (p : Projection) : Prop where
  placed : l.places.map Place.node = Conversation.preorder l.conversation
  states : (l.places.map Place.state).Nodup
  types : (Api.typeNames p).Nodup
  drivers : (p.loops.map Api.driverName).Nodup

/-- Whatever the labels are, no two steps share a state, no two types of a role share a name, and no
two loops share a driver. -/
theorem named_of_project {moduleName? : Option String} {types : List TypeImport}
    (h : l.project moduleName? types = .ok p) : l.Named p := by
  have y := yields_of_project_eq_ok h
  exact ⟨Conversation.map_node_places .., l.places_states_nodup, y.typeNames_nodup, y.drivers_nodup⟩

end LocalProtocol

/-- Loops whose labels look like the names around them. -/
def thicket : LocalProtocol where
  name := "Thicket"
  protagonist := "Fox"
  roles := ["Fox", "Owl"]
  conversation :=
    [.loop ⟨"Fox", "rec", 0⟩ "Walk_1_Step" [.message ⟨⟨"Fox", "step", 1⟩, "Rest", "Fox", "Owl", []⟩],
     .loop ⟨"Fox", "rec", 2⟩ "Walk"
      [.loop ⟨"Fox", "rec", 3⟩ "Step"
        [.choice ⟨"Fox", "choice", 4⟩ "Fox"
          [[.loop ⟨"Fox", "rec", 5⟩ "Par2" [.message ⟨⟨"Fox", "step", 6⟩, "Dig", "Fox", "Owl", []⟩]],
           [.message ⟨⟨"Fox", "step", 7⟩, "Hide", "Fox", "Owl", []⟩]]],
       .par ⟨"Fox", "par", 8⟩
        [[.loop ⟨"Fox", "rec", 9⟩ "Join" [.message ⟨⟨"Fox", "step", 10⟩, "Call", "Owl", "Fox", []⟩]],
         [.loop ⟨"Fox", "rec", 11⟩ "join" [.message ⟨⟨"Fox", "step", 12⟩, "Wait", "Fox", "Owl", []⟩]]]],
     .loop ⟨"Fox", "rec", 13⟩ "Choice1" [.message ⟨⟨"Fox", "step", 14⟩, "Sleep", "Fox", "Owl", []⟩]]

theorem thicket_named : ∃ p, thicket.project none [] = .ok p ∧ thicket.Named p := by
  have hok : (thicket.project none []).toBool = true := by decide +kernel
  obtain ⟨p, h⟩ := exists_ok_of_toBool hok
  exact ⟨p, h, LocalProtocol.named_of_project h⟩

end Parley
