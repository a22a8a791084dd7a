import Parley.Proofs.Linkage

/-! Steps inside loops. Whether a step lies in the body of a loop can be seen from its frames, from
what encloses it in the tree, and from its name; the three agree. A jump in the body of a loop goes to
that loop or one inside it, or it is bound where the loop stands. -/

namespace Parley

open Outcome StateName

/-! ### Names inside a loop -/

namespace StateName

theorem Closed.append {cs ds : List Char} (hc : Closed cs) (hd : Closed ds) : Closed (cs ++ ds) := by
  rcases hc with rfl | ⟨es, rfl⟩
  · exact hd
  · exact closed_underscore (es ++ ds)

theorem Splits.symm {s t : List Char} (h : Splits s t) : Splits t s := by
  obtain ⟨start, i, j, cs, ds, hij, hc, hd, hs, ht⟩ := h
  exact ⟨start, j, i, ds, cs, Ne.symm hij, hd, hc, ht, hs⟩

end StateName

mutual

theorem Conversation.suffix_frames_of_mem_places (stem : String) (frames : List Frame)
    (before? : Option Node) (i : Nat) : ∀ c : List Node,
      ∀ q ∈ Conversation.places stem frames before? i c, frames <:+ q.frames
  | [], q, hq => by simp [Conversation.places] at hq
  | n :: ns, q, hq => by
    rw [Conversation.places] at hq
    rcases List.mem_cons.mp hq with rfl | hq
    · exact List.suffix_refl frames
    rcases List.mem_append.mp hq with hq | hq
    · exact Node.suffix_frames_of_mem_placesWithin stem frames i ns n q hq
    · exact Conversation.suffix_frames_of_mem_places stem frames (some n) (i + 1) ns q hq

theorem Node.suffix_frames_of_mem_placesWithin (stem : String) (frames : List Frame) (i : Nat)
    (following : Conversation) : ∀ n : Node,
      ∀ q ∈ n.placesWithin stem frames i following, frames <:+ q.frames
  | .loop id label body, q, hq => by
    rw [Node.placesWithin] at hq
    exact (List.suffix_cons _ _).trans (Conversation.suffix_frames_of_mem_places _ _ _ _ body q hq)
  | .choice id chooser branches, q, hq => by
    rw [Node.placesWithin] at hq
    exact (List.suffix_cons _ _).trans (suffix_frames_of_mem_branchPlaces _ _ _ _ branches q hq)
  | .par id branches, q, hq => by
    rw [Node.placesWithin] at hq
    exact (List.suffix_cons _ _).trans (suffix_frames_of_mem_branchPlaces _ _ _ _ branches q hq)
  | .message m, q, hq => by simp [Node.placesWithin] at hq
  | .call name roles, q, hq => by simp [Node.placesWithin] at hq
  | .jump id label, q, hq => by simp [Node.placesWithin] at hq

theorem suffix_frames_of_mem_branchPlaces (state tag : String) (frames : List Frame) (i : Nat) :
    ∀ bs : List (List Node), ∀ q ∈ branchPlaces state tag frames i bs, frames <:+ q.frames
  | [], q, hq => by simp [branchPlaces] at hq
  | b :: bs, q, hq => by
    rw [branchPlaces] at hq
    rcases List.mem_append.mp hq with hq | hq
    · exact Conversation.suffix_frames_of_mem_places _ _ _ _ b q hq
    · exact suffix_frames_of_mem_branchPlaces state tag frames (i + 1) bs q hq

end

namespace LocalProtocol

variable {l : LocalProtocol} {s t : Stretch}

end LocalProtocol

/-! ### Jumps out of a loop -/

namespace Frame

/-- The frames inside a loop, without a parallel step between. -/
inductive Straight (inner : Loop) (outer : List Frame) : List Frame → Prop where
  | here : Straight inner outer (.loop inner :: outer)
  | loop {other : Loop} {frames : List Frame} :
      Straight inner outer frames → Straight inner outer (.loop other :: frames)
  | choice {stem : String} {i : Nat} {following : Conversation} {frames : List Frame} :
      Straight inner outer frames → Straight inner outer (.choice stem i following :: frames)

theorem Straight.suffix {inner : Loop} {outer frames : List Frame} (h : Straight inner outer frames) :
    .loop inner :: outer <:+ frames := by
  induction h with
  | here => exact List.suffix_refl _
  | loop _ ih => exact ih.trans (List.suffix_cons _ _)
  | choice _ ih => exact ih.trans (List.suffix_cons _ _)

namespace Binds

variable {label : String} {frames outer : List Frame} {inner : Loop}

/-- A jump in the body of a loop goes to that loop or one inside it, or it is bound where the loop
stands. -/
theorem suffix_cases (h : Binds label frames inner outer) {r : Loop} {around : List Frame}
    (hr : .loop r :: around <:+ frames) :
    .loop r :: around <:+ .loop inner :: outer ∨ Binds label around inner outer := by
  induction h with
  | here => exact .inl hr
  | loop _ hb ih =>
    rcases List.suffix_cons_iff.mp hr with he | hr
    · cases he
      exact .inr hb
    · exact ih hr
  | choice _ ih =>
    rcases List.suffix_cons_iff.mp hr with he | hr
    · cases he
    · exact ih hr

end Binds

end Frame

namespace LocalProtocol.Yields

variable {l : LocalProtocol} {p : Projection} {s t : Stretch}

theorem stretch_eq_of_id_eq (y : l.Yields p) (hs : l.Has s) {n m : Node} {ns ms : Conversation}
    (hsr : s.rest = n :: ns) (ht : l.Has t) (htr : t.rest = m :: ms) {id : NodeId}
    (hn : n.id? = some id) (hm : m.id? = some id) : s = t := by
  obtain ⟨q, hq, rfl, rfl, _⟩ := hs.exists_place hsr
  obtain ⟨q', hq', rfl, rfl, _⟩ := ht.exists_place htr
  rw [y.place_eq_of_id_eq hq hq' hn hm]

end LocalProtocol.Yields

end Parley
