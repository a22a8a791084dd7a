import Mathlib.Data.List.Nodup
import Parley.Layout

/-! State names tell the steps of a conversation apart, whatever the labels of its loops are. A name
is read from the left: behind the stem of a conversation stands a position in digits, and what comes
after it either ends or goes on with an underscore, so the position is found again. -/

namespace Parley

namespace StateName

/-- What may follow a number without running into it. -/
def Closed (cs : List Char) : Prop := cs = [] ∨ ∃ ds, cs = '_' :: ds

theorem closed_underscore (ds : List Char) : Closed ('_' :: ds) := Or.inr ⟨ds, rfl⟩

theorem Closed.append_underscore {cs : List Char} (hc : Closed cs) (ds : List Char) :
    ∃ es, cs ++ '_' :: ds = '_' :: es := by
  rcases hc with rfl | ⟨es, rfl⟩
  · exact ⟨ds, rfl⟩
  · exact ⟨es ++ '_' :: ds, rfl⟩

theorem toDigits_injective {i j : Nat} (h : Nat.toDigits 10 i = Nat.toDigits 10 j) : i = j := by
  have hi := Nat.ofDigitChars_ten_toDigits (n := i)
  rw [h, Nat.ofDigitChars_ten_toDigits] at hi
  exact hi.symm

theorem bne_underscore_of_mem_toDigits {i : Nat} {d : Char} (hd : d ∈ Nat.toDigits 10 i) :
    (d != '_') = true := by
  have hne : d ≠ '_' := by
    rintro rfl
    exact Nat.underscore_not_in_toDigits hd
  simpa using hne

theorem takeWhile_digits (i : Nat) {cs : List Char} (hc : Closed cs) :
    (Nat.toDigits 10 i ++ cs).takeWhile (· != '_') = Nat.toDigits 10 i := by
  rw [List.takeWhile_append_of_pos fun _ => bne_underscore_of_mem_toDigits]
  rcases hc with rfl | ⟨ds, rfl⟩ <;> simp

/-- A number and what follows it can be read off a text. -/
theorem digits_append_injective {i j : Nat} {cs ds : List Char} (hc : Closed cs) (hd : Closed ds)
    (h : Nat.toDigits 10 i ++ cs = Nat.toDigits 10 j ++ ds) : i = j ∧ cs = ds := by
  have ht := congrArg (List.takeWhile (· != '_')) h
  rw [takeWhile_digits i hc, takeWhile_digits j hd] at ht
  rw [ht] at h
  exact ⟨toDigits_injective ht, List.append_cancel_left h⟩

theorem toList_stateName (stem : String) (i : Nat) :
    (stateName stem i).toList = stem.toList ++ '_' :: Nat.toDigits 10 i := by
  simp [stateName]

theorem toList_bodyStem (state label : String) :
    (bodyStem state label).toList = state.toList ++ '_' :: label.toList := by
  simp [bodyStem]

theorem toList_branchStem (state tag : String) (i : Nat) :
    (branchStem state tag i).toList =
      state.toList ++ '_' :: (tag.toList ++ Nat.toDigits 10 i) := by
  simp [branchStem]

theorem toList_joinState (state : String) :
    (joinState state).toList = state.toList ++ "_Join".toList := by
  simp [joinState]

theorem joinState_injective {s t : String} (h : joinState s = joinState t) : s = t := by
  have hl := congrArg String.toList h
  rw [toList_joinState, toList_joinState] at hl
  exact String.ext (List.append_cancel_right hl)

/-- The state lies at a position from `i` on of the conversation with a stem, or inside the step
there. -/
def LiesFrom (stem : String) (i : Nat) (state : String) : Prop :=
  ∃ j cs, i ≤ j ∧ Closed cs ∧ state.toList = (stateName stem j).toList ++ cs

/-- The state lies in a branch from `i` on of the step with a state. -/
def BranchesFrom (state tag : String) (i : Nat) (inner : String) : Prop :=
  ∃ j cs, i ≤ j ∧ inner.toList = (branchStem state tag j).toList ++ '_' :: cs

theorem LiesFrom.mono {stem state : String} {i j : Nat} (hij : i ≤ j)
    (h : LiesFrom stem j state) : LiesFrom stem i state := by
  obtain ⟨k, cs, hk, hc, hs⟩ := h
  exact ⟨k, cs, Nat.le_trans hij hk, hc, hs⟩

theorem LiesFrom.self (stem : String) (i : Nat) : LiesFrom stem i (stateName stem i) :=
  ⟨i, [], Nat.le_refl i, Or.inl rfl, by simp⟩

/-- Two names that go on with different numbers from where they begin alike. -/
def Splits (s t : List Char) : Prop :=
  ∃ start i j cs ds, i ≠ j ∧ Closed cs ∧ Closed ds ∧ s = start ++ (Nat.toDigits 10 i ++ cs) ∧
    t = start ++ (Nat.toDigits 10 j ++ ds)

theorem Splits.ne {s t : List Char} (h : Splits s t) : s ≠ t := by
  rintro rfl
  obtain ⟨start, i, j, cs, ds, hij, hc, hd, hs, ht⟩ := h
  have hrest := List.append_cancel_left (hs.symm.trans ht)
  exact hij (digits_append_injective hc hd hrest).1

/-- A state at or inside step `i` splits from those from `i + 1` on. -/
theorem LiesFrom.splits {stem inner later : String} {i : Nat} {cs : List Char} (hc : Closed cs)
    (h : inner.toList = (stateName stem i).toList ++ cs) (hl : LiesFrom stem (i + 1) later) :
    Splits inner.toList later.toList := by
  obtain ⟨j, ds, hj, hd, hs⟩ := hl
  refine ⟨stem.toList ++ ['_'], i, j, cs, ds, by omega, hc, hd, ?_, ?_⟩
  · rw [h, toList_stateName]
    simp
  · rw [hs, toList_stateName]
    simp

theorem BranchesFrom.splits {state tag inner later : String} {i : Nat} {cs : List Char}
    (h : inner.toList = (branchStem state tag i).toList ++ '_' :: cs)
    (hl : BranchesFrom state tag (i + 1) later) : Splits inner.toList later.toList := by
  obtain ⟨j, ds, hj, hs⟩ := hl
  refine ⟨state.toList ++ '_' :: tag.toList, i, j, '_' :: cs, '_' :: ds, by omega,
    closed_underscore cs, closed_underscore ds, ?_, ?_⟩
  · rw [h, toList_branchStem]
    simp
  · rw [hs, toList_branchStem]
    simp

theorem LiesFrom.extends {stem state : String} {i : Nat} (h : LiesFrom stem i state) :
    ∃ cs, state.toList = stem.toList ++ '_' :: cs := by
  obtain ⟨j, cs, _, _, hs⟩ := h
  refine ⟨Nat.toDigits 10 j ++ cs, ?_⟩
  rw [hs, toList_stateName]
  simp

theorem BranchesFrom.extends {state tag inner : String} {i : Nat}
    (h : BranchesFrom state tag i inner) : ∃ cs, inner.toList = state.toList ++ '_' :: cs := by
  obtain ⟨j, cs, _, hs⟩ := h
  refine ⟨tag.toList ++ Nat.toDigits 10 j ++ '_' :: cs, ?_⟩
  rw [hs, toList_branchStem]
  simp

end StateName

open StateName

/-- How the states inside a step start, given the state of the step. -/
def Node.innerStem (state : String) : Node → String
  | .loop _ label _ => bodyStem state label
  | _ => state

theorem Node.exists_innerStem (state : String) (n : Node) :
    ∃ es, Closed es ∧ (n.innerStem state).toList = state.toList ++ es := by
  cases n with
  | loop id label body => exact ⟨_, closed_underscore label.toList, toList_bodyStem state label⟩
  | _ => exact ⟨[], .inl rfl, (List.append_nil _).symm⟩

/-- A state inside a step goes on from the state of the step. -/
theorem Node.exists_of_innerStem {state inner : String} {n : Node} {cs : List Char}
    (h : inner.toList = (n.innerStem state).toList ++ '_' :: cs) :
    ∃ es, inner.toList = state.toList ++ '_' :: es := by
  obtain ⟨es, hes, hn⟩ := n.exists_innerStem state
  obtain ⟨ds, hds⟩ := hes.append_underscore cs
  exact ⟨ds, by rw [h, hn, List.append_assoc, hds]⟩

namespace Place

def innerStem (p : Place) : String := p.node.innerStem p.state

/-- How the states of two places differ, the first before the second: the second lies inside the
step at the first, or a number tells them apart. -/
def Precedes (p q : Place) : Prop :=
  (∃ cs, q.state.toList = p.innerStem.toList ++ '_' :: cs) ∨ Splits p.state.toList q.state.toList

theorem Precedes.state_ne {p q : Place} (h : p.Precedes q) : p.state ≠ q.state := by
  rcases h with ⟨cs, hcs⟩ | h
  · obtain ⟨es, hes⟩ := Node.exists_of_innerStem hcs
    intro he
    have hlength := congrArg List.length hes
    rw [he, List.length_append, List.length_cons] at hlength
    omega
  · exact fun he => h.ne (congrArg String.toList he)

end Place

mutual

theorem Conversation.places_liesFrom (stem : String) (frames : List Frame) (before? : Option Node)
    (i : Nat) : ∀ (c : List Node), ∀ p ∈ Conversation.places stem frames before? i c,
      LiesFrom stem i p.state
  | [], p, hp => by simp [Conversation.places] at hp
  | n :: ns, p, hp => by
    rw [Conversation.places] at hp
    rcases List.mem_cons.mp hp with rfl | hp
    · exact LiesFrom.self stem i
    rcases List.mem_append.mp hp with hp | hp
    · obtain ⟨cs, hs⟩ := Node.placesWithin_extends stem frames i ns n p hp
      obtain ⟨es, hes⟩ := Node.exists_of_innerStem hs
      exact ⟨i, '_' :: es, Nat.le_refl i, closed_underscore es, hes⟩
    · exact (Conversation.places_liesFrom stem frames (some n) (i + 1) ns p hp).mono (Nat.le_succ i)

theorem Node.placesWithin_extends (stem : String) (frames : List Frame) (i : Nat)
    (following : Conversation) : ∀ (n : Node), ∀ p ∈ n.placesWithin stem frames i following,
      ∃ cs, p.state.toList = (n.innerStem (stateName stem i)).toList ++ '_' :: cs
  | .loop id label body, p, hp => by
    rw [Node.placesWithin] at hp
    exact (Conversation.places_liesFrom _ _ _ _ body p hp).extends
  | .choice id chooser branches, p, hp => by
    rw [Node.placesWithin] at hp
    exact (branchPlaces_branchesFrom _ _ _ _ branches p hp).extends
  | .par id branches, p, hp => by
    rw [Node.placesWithin] at hp
    exact (branchPlaces_branchesFrom _ _ _ _ branches p hp).extends
  | .message m, p, hp => by simp [Node.placesWithin] at hp
  | .call name roles, p, hp => by simp [Node.placesWithin] at hp
  | .jump id label, p, hp => by simp [Node.placesWithin] at hp

theorem branchPlaces_branchesFrom (state tag : String) (frames : List Frame) (i : Nat) :
    ∀ (bs : List (List Node)), ∀ p ∈ branchPlaces state tag frames i bs,
      BranchesFrom state tag i p.state
  | [], p, hp => by simp [branchPlaces] at hp
  | b :: bs, p, hp => by
    rw [branchPlaces] at hp
    rcases List.mem_append.mp hp with hp | hp
    · obtain ⟨cs, hs⟩ := (Conversation.places_liesFrom _ _ _ _ b p hp).extends
      exact ⟨i, cs, Nat.le_refl i, hs⟩
    · obtain ⟨j, cs, hj, hs⟩ := branchPlaces_branchesFrom state tag frames (i + 1) bs p hp
      exact ⟨j, cs, by omega, hs⟩

end

/-- A relation that holds of any two places in their order: it holds where the second lies inside the
step at the first, and where a number tells their states apart. -/
structure Place.Orders (R : Place → Place → Prop) : Prop where
  inside : ∀ stem frames before? i following n,
    ∀ q ∈ Node.placesWithin stem frames i following n, R ⟨n, stem, i, before?, following, frames⟩ q
  apart : ∀ p q : Place, Splits p.state.toList q.state.toList → R p q

section Pairwise

variable {R : Place → Place → Prop}

mutual

theorem Conversation.places_pairwise (h : Place.Orders R) (stem : String) (frames : List Frame)
    (before? : Option Node) (i : Nat) :
    ∀ c : List Node, (Conversation.places stem frames before? i c).Pairwise R
  | [] => by simp [Conversation.places]
  | n :: ns => by
    rw [Conversation.places, List.pairwise_cons, List.pairwise_append]
    refine ⟨?_, Node.placesWithin_pairwise h stem frames i ns n,
      Conversation.places_pairwise h stem frames (some n) (i + 1) ns, ?_⟩
    · intro q hq
      rcases List.mem_append.mp hq with hq | hq
      · exact h.inside stem frames before? i ns n q hq
      · have hl := Conversation.places_liesFrom stem frames (some n) (i + 1) ns q hq
        exact h.apart _ _ (LiesFrom.splits (Or.inl rfl) (List.append_nil _).symm hl)
    · intro p hp q hq
      obtain ⟨cs, hs⟩ := Node.placesWithin_extends stem frames i ns n p hp
      obtain ⟨es, hes⟩ := Node.exists_of_innerStem hs
      have hl := Conversation.places_liesFrom stem frames (some n) (i + 1) ns q hq
      exact h.apart _ _ (LiesFrom.splits (closed_underscore es) hes hl)

theorem Node.placesWithin_pairwise (h : Place.Orders R) (stem : String) (frames : List Frame)
    (i : Nat) (following : Conversation) :
    ∀ n : Node, (n.placesWithin stem frames i following).Pairwise R
  | .loop id label body => by
    rw [Node.placesWithin]
    exact Conversation.places_pairwise h _ _ _ _ body
  | .choice id chooser branches => by
    rw [Node.placesWithin]
    exact branchPlaces_pairwise h _ _ _ _ branches
  | .par id branches => by
    rw [Node.placesWithin]
    exact branchPlaces_pairwise h _ _ _ _ branches
  | .message m => by simp [Node.placesWithin]
  | .call name roles => by simp [Node.placesWithin]
  | .jump id label => by simp [Node.placesWithin]

theorem branchPlaces_pairwise (h : Place.Orders R) (state tag : String) (frames : List Frame)
    (i : Nat) :
    ∀ bs : List (List Node), (branchPlaces state tag frames i bs).Pairwise R
  | [] => by simp [branchPlaces]
  | b :: bs => by
    rw [branchPlaces, List.pairwise_append]
    refine ⟨Conversation.places_pairwise h _ _ _ _ b,
      branchPlaces_pairwise h state tag frames (i + 1) bs, ?_⟩
    intro p hp q hq
    obtain ⟨cs, hc⟩ := (Conversation.places_liesFrom _ _ _ _ b p hp).extends
    have hl := branchPlaces_branchesFrom state tag frames (i + 1) bs q hq
    exact h.apart _ _ (BranchesFrom.splits hc hl)

end

end Pairwise

theorem LocalProtocol.places_pairwise (l : LocalProtocol) : l.places.Pairwise Place.Precedes := by
  refine Conversation.places_pairwise ⟨?_, ?_⟩ _ _ _ _ l.conversation
  · intro stem frames before? i following n q hq
    exact .inl (Node.placesWithin_extends stem frames i following n q hq)
  · intro p q h
    exact .inr h

theorem LocalProtocol.places_states_nodup (l : LocalProtocol) : (l.places.map Place.state).Nodup :=
  List.pairwise_map.mpr (l.places_pairwise.imp Place.Precedes.state_ne)

theorem LocalProtocol.place_eq_of_state_eq (l : LocalProtocol) {p q : Place} (hp : p ∈ l.places)
    (hq : q ∈ l.places) (h : p.state = q.state) : p = q :=
  List.inj_on_of_nodup_map l.places_states_nodup hp hq h

end Parley
