import Mathlib.Data.List.Perm.Basic
import Parley.Proofs.Scope

/-! The roster of a projection: its records, list after list. The steps of a conversation are listed
beside it, in the order in which they are written and each with what encloses it. Every step has one
record, found under its identifier, and the step in a state one more way to be found. -/

namespace Parley

open Outcome

/-- A loop or a parallel step that encloses a step. -/
inductive Enclosure where
  | loop (id : NodeId)
  | par (id : NodeId)
deriving DecidableEq

/-- A step where it stands: its position in its conversation, counted from 1, and the loops and
parallel steps around it, innermost first. -/
structure Occurrence where
  node : Node
  position : Nat
  around : List Enclosure

mutual

/-- The steps of a conversation from `position` on, each before those inside it. -/
def Conversation.occurrences (around : List Enclosure) (position : Nat) : List Node → List Occurrence
  | [] => []
  | n :: ns =>
    ⟨n, position, around⟩ ::
      (n.occurrencesWithin around ++ Conversation.occurrences around (position + 1) ns)

def Node.occurrencesWithin (around : List Enclosure) : Node → List Occurrence
  | .loop id _ body => Conversation.occurrences (.loop id :: around) 1 body
  | .choice _ _ branches => branchOccurrences around branches
  | .par id branches => branchOccurrences (.par id :: around) branches
  | .message _ => []
  | .call .. => []
  | .jump .. => []

def branchOccurrences (around : List Enclosure) : List (List Node) → List Occurrence
  | [] => []
  | b :: bs => Conversation.occurrences around 1 b ++ branchOccurrences around bs

end

def LocalProtocol.occurrences (l : LocalProtocol) : List Occurrence :=
  Conversation.occurrences [] 1 l.conversation

namespace Frame

def enclosure? : Frame → Option Enclosure
  | .loop inner => some (.loop inner.id)
  | .choice .. => none
  | .par id _ => some (.par id)

/-- What some frames enclose a step in, innermost first. -/
def enclosures (frames : List Frame) : List Enclosure := frames.filterMap enclosure?

@[simp] theorem enclosures_nil : enclosures [] = [] := rfl

@[simp] theorem enclosures_choice (stem : String) (i : Nat) (following : Conversation)
    (outer : List Frame) : enclosures (.choice stem i following :: outer) = enclosures outer := rfl

theorem Binds.mem_enclosures {label : String} {frames outer : List Frame} {inner : Loop}
    (h : Binds label frames inner outer) : .loop inner.id ∈ enclosures frames := by
  induction h with
  | here => exact List.mem_cons_self
  | loop _ _ ih => exact List.mem_cons_of_mem _ ih
  | choice _ ih => exact ih

end Frame

def Place.occurrence (q : Place) : Occurrence := ⟨q.node, q.position, Frame.enclosures q.frames⟩

theorem Conversation.draws_occurrences : Stretch.Draws (fun q => [q.occurrence])
    (fun s => Conversation.occurrences (Frame.enclosures s.frames) s.position s.rest)
    (fun _ _ frames _ bs => branchOccurrences (Frame.enclosures frames) bs) := by
  constructor <;> intros <;> rfl

theorem LocalProtocol.map_occurrence_places (l : LocalProtocol) :
    l.places.map Place.occurrence = l.occurrences :=
  Conversation.map_places Conversation.draws_occurrences _ _ _ _ l.conversation

def StepKind.all : List StepKind := [.message, .choice, .par, .loop, .jump, .call]

/-- Whether a session stands at a step of this kind, rather than passing it. -/
def StepKind.observable : StepKind → Bool
  | .message => true
  | .choice => true
  | .par => true
  | _ => false

namespace Record

def id? : Record → Option NodeId
  | .message r => some r.message.id
  | .choice r => some r.id
  | .par r => some r.id
  | .loop r => some r.id
  | .jump r => some r.id
  | .call _ => none

/-- The state in which a session stands at the step, unless it passes it. -/
def standing? (r : Record) : Option String := if r.kind.observable then some r.state else none

def position : Record → Nat
  | .message r => r.position
  | .choice r => r.position
  | .par r => r.position
  | .loop r => r.position
  | .jump r => r.position
  | .call r => r.position

/-- A record that is about a step: it has the position of the step and all that the step says of
itself. -/
def Tells (r : Record) (o : Occurrence) : Prop :=
  r.position = o.position ∧
    match r with
    | .message r => o.node = .message r.message
    | .choice r => ∃ branches, o.node = .choice r.id r.chooser branches ∧
        r.branches.map (·.index) = List.range' 1 branches.length
    | .par r => ∃ branches, o.node = .par r.id branches ∧ r.branches.length = branches.length
    | .loop r => ∃ body, o.node = .loop r.id r.label body
    | .jump r => o.node = .jump r.id r.label
    | .call r => o.node = .call r.name r.roles

/-- A record with its signal, if it is one of a message. -/
def mark (signals : List (NodeId × NodeId)) : Record → Record
  | .message r => .message (LocalProtocol.markSignal signals r)
  | r => r

/-- The records of one kind. -/
def sorted (rs : List Record) : StepKind → List Record
  | .message => (rs.filterMap message?).map .message
  | .choice => (rs.filterMap choice?).map .choice
  | .par => (rs.filterMap par?).map .par
  | .loop => (rs.filterMap loop?).map .loop
  | .jump => (rs.filterMap jump?).map .jump
  | .call => (rs.filterMap call?).map .call

theorem sorted_eq_filter (rs : List Record) (kind : StepKind) :
    sorted rs kind = rs.filter (·.kind == kind) := by
  induction rs with
  | nil => cases kind <;> rfl
  | cons r rs ih =>
    cases kind <;> cases r <;> simpa [sorted, List.filterMap_cons, message?, choice?, par?, loop?,
      jump?, call?, Record.kind] using ih

theorem flatMap_filter_singleton (r : Record) :
    (StepKind.all.flatMap fun kind => [r].filter (·.kind == kind)) = [r] := by
  cases r <;> rfl

theorem flatMap_filter_perm (rs : List Record) :
    (StepKind.all.flatMap fun kind => rs.filter (·.kind == kind)).Perm rs := by
  induction rs with
  | nil => exact .refl []
  | cons r rs ih =>
    have hsplit : (StepKind.all.flatMap fun kind => (r :: rs).filter (·.kind == kind)) =
        StepKind.all.flatMap fun kind => [r].filter (·.kind == kind) ++ rs.filter (·.kind == kind) :=
      congrArg StepKind.all.flatMap (funext fun kind => List.filter_append [r] rs)
    rw [hsplit]
    refine (List.flatMap_append_perm _ _ _).symm.trans ?_
    rw [flatMap_filter_singleton]
    exact ih.cons r

variable {r : Record} {o : Occurrence}

theorem Tells.kind_id_eq (h : r.Tells o) : r.kind = o.node.kind ∧ r.id? = o.node.id? := by
  obtain ⟨_, h⟩ := h
  cases r with
  | message | jump | call =>
    rw [h]
    exact ⟨rfl, rfl⟩
  | choice | par =>
    obtain ⟨_, h, _⟩ := h
    rw [h]
    exact ⟨rfl, rfl⟩
  | loop =>
    obtain ⟨_, h⟩ := h
    rw [h]
    exact ⟨rfl, rfl⟩

end Record

namespace Projection

/-- The list of the records of one kind. -/
def ofKind (p : Projection) : StepKind → List Record
  | .message => p.messages.map .message
  | .choice => p.choices.map .choice
  | .par => p.pars.map .par
  | .loop => p.loops.map .loop
  | .jump => p.jumps.map .jump
  | .call => p.calls.map .call

/-- All records. -/
def records (p : Projection) : List Record := StepKind.all.flatMap p.ofKind

/-- The only record with a key. -/
def Sole {κ : Type} [DecidableEq κ] (p : Projection) (key : Record → Option κ) (k : κ) (r : Record) :
    Prop :=
  p.records.filter (fun x => key x == some k) = [r]

theorem Sole.mem {κ : Type} [DecidableEq κ] {p : Projection} {key : Record → Option κ} {k : κ}
    {r : Record} (h : p.Sole key k r) : r ∈ p.records ∧ key r = some k := by
  have hm : r ∈ p.records.filter (fun x => key x == some k) := h ▸ List.mem_singleton_self r
  simpa using List.mem_filter.mp hm

theorem Sole.eq {κ : Type} [DecidableEq κ] {p : Projection} {key : Record → Option κ} {k : κ}
    {r x : Record} (h : p.Sole key k r) (hx : x ∈ p.records) (hk : key x = some k) : x = r := by
  have hm : x ∈ p.records.filter (fun x => key x == some k) :=
    List.mem_filter.mpr ⟨hx, by simpa using hk⟩
  rw [h] at hm
  exact List.mem_singleton.mp hm

end Projection

section Lists

variable {α β κ : Type}

theorem forall₂_filterMap {f : α → Option β} {R : α → β → Prop} {xs : List α}
    (h : ∀ x ∈ xs, ∃ y, f x = some y ∧ R x y) : List.Forall₂ R xs (xs.filterMap f) := by
  induction xs with
  | nil => exact .nil
  | cons x xs ih =>
    obtain ⟨hx, hxs⟩ := List.forall_mem_cons.mp h
    obtain ⟨y, hy, hr⟩ := hx
    rw [List.filterMap_cons_some hy]
    exact .cons hr (ih hxs)

theorem filterMap_eq_of_forall₂ {R : α → β → Prop} {f : α → Option κ} {g : β → Option κ}
    (hfg : ∀ x y, R x y → f x = g y) {xs : List α} {ys : List β} (h : List.Forall₂ R xs ys) :
    xs.filterMap f = ys.filterMap g := by
  induction h with
  | nil => rfl
  | cons hr _ ih => rw [List.filterMap_cons, List.filterMap_cons, hfg _ _ hr, ih]

/-- Among keys that never repeat, each finds one element. -/
theorem filter_eq_singleton [DecidableEq κ] {key : α → Option κ} {xs : List α}
    (hn : (xs.filterMap key).Nodup) {x : α} (hx : x ∈ xs) {k : κ} (hk : key x = some k) :
    xs.filter (fun y => key y == some k) = [x] := by
  induction xs with
  | nil => simp at hx
  | cons y ys ih =>
    by_cases hy : key y = some k
    · rw [List.filterMap_cons_some hy, List.nodup_cons] at hn
      have hne : ∀ z ∈ ys, key z ≠ some k :=
        fun z hz he => hn.1 (List.mem_filterMap.mpr ⟨z, hz, he⟩)
      rcases List.mem_cons.mp hx with rfl | hx
      · simpa [hy] using hne
      · exact absurd (List.mem_filterMap.mpr ⟨x, hx, hk⟩) hn.1
    · have hxy : x ∈ ys := by
        rcases List.mem_cons.mp hx with rfl | hx
        · exact absurd hk hy
        · exact hx
      have hn' : (ys.filterMap key).Nodup :=
        hn.sublist ((List.sublist_cons_self y ys).filterMap key)
      rw [List.filter_cons, if_neg (by simpa using hy), ih hn' hxy]

end Lists

namespace LocalProtocol

variable {l : LocalProtocol} {p : Projection} {q : Place} {r : Record}

theorem Records.tells (h : l.Records q.stretch r) : r.Tells q.occurrence := by
  cases r with
  | message r =>
    obtain ⟨ns, hr, _, hp, _⟩ := h
    exact ⟨hp, (List.cons.inj hr).1⟩
  | choice r =>
    obtain ⟨bs, ns, hr, _, hp, _, _, hlen, hall⟩ := h
    refine ⟨hp, bs, (List.cons.inj hr).1, List.ext_getElem? fun k => ?_⟩
    cases hk : r.branches[k]? with
    | none =>
      have hle := List.getElem?_eq_none_iff.mp hk
      rw [List.getElem?_map, hk, List.getElem?_eq_none (by simp; omega)]
      rfl
    | some e =>
      obtain ⟨b, hb⟩ := exists_getElem?_of_length_eq hlen hk
      have hlt := (List.getElem?_eq_some_iff.mp hb).1
      rw [List.getElem?_map, hk, List.getElem?_range' hlt, Option.map_some, (hall k b e hb hk).1,
        Nat.one_mul, Nat.add_comm]
  | par r =>
    obtain ⟨bs, ns, hr, _, hp, _, _, hlen, _⟩ := h
    exact ⟨hp, bs, (List.cons.inj hr).1, hlen⟩
  | loop r =>
    obtain ⟨body, ns, hr, hp, _⟩ := h
    exact ⟨hp, body, (List.cons.inj hr).1⟩
  | jump r =>
    obtain ⟨ns, hr, _, hp, _⟩ := h
    exact ⟨hp, (List.cons.inj hr).1⟩
  | call r =>
    obtain ⟨ns, hr, _, hp, _⟩ := h
    exact ⟨hp, (List.cons.inj hr).1⟩

theorem Records.standing?_eq (h : l.Records q.stretch r) :
    r.standing? = if q.node.kind.observable then some q.state else none := by
  have hkind : r.kind = q.node.kind := h.kind_eq rfl
  rw [Record.standing?, hkind]
  cases ho : q.node.kind.observable with
  | false => rfl
  | true =>
    obtain ⟨_, _, _, hstate⟩ := h.state_eq (by rw [hkind]; intro hl; rw [hl] at ho; cases ho)
    rw [← hstate]
    rfl

/-- The records of all places in order, with their signals. -/
def roll (l : LocalProtocol) (p : Projection) : List Record :=
  (l.places.filterMap l.record?).map (Record.mark (signals p.choices))

theorem records_mark {s : Stretch} (h : l.Records s r) (signals : List (NodeId × NodeId)) :
    l.Records s (r.mark signals) := by
  cases r <;> exact h

namespace Yields

theorem forall₂_roll (y : l.Yields p) :
    List.Forall₂ (fun q r => q ∈ l.places ∧ l.Records q.stretch r) l.places (l.roll p) := by
  rw [roll, List.map_filterMap]
  refine forall₂_filterMap fun q hq => ?_
  obtain ⟨r, hr⟩ := y.recorded q hq
  refine ⟨r.mark (signals p.choices), by rw [hr]; rfl, hq, ?_⟩
  exact records_mark (records_of_record_eq_ok (record?_eq_some.mp hr)) _

theorem ofKind_eq_filter (y : l.Yields p) (kind : StepKind) :
    p.ofKind kind = (l.roll p).filter (·.kind == kind) := by
  have hmap {γ : Type} {pick : Record → Option γ} (pick' : Record → Option γ)
      (h : ∀ r, pick (r.mark (signals p.choices)) = pick' r) :
      (l.roll p).filterMap pick = l.places.filterMap fun q => (l.record? q).bind pick' := by
    rw [roll, List.filterMap_map, List.filterMap_filterMap]
    simp only [Function.comp_def, h]
  rw [← Record.sorted_eq_filter]
  cases kind with
  | message =>
    have hmark : ∀ r : Record, (r.mark (signals p.choices)).message? =
        r.message?.map (markSignal (signals p.choices)) := by
      intro r
      cases r <;> rfl
    rw [Projection.ofKind, y.messages, Record.sorted, hmap _ hmark, List.map_filterMap]
    simp only [Option.map_bind, Function.comp_def]
  | choice =>
    rw [Projection.ofKind, y.choices, Record.sorted, hmap Record.choice? fun r => by cases r <;> rfl]
  | par =>
    rw [Projection.ofKind, y.pars, Record.sorted, hmap Record.par? fun r => by cases r <;> rfl]
  | loop =>
    rw [Projection.ofKind, y.loops, Record.sorted, hmap Record.loop? fun r => by cases r <;> rfl]
  | jump =>
    rw [Projection.ofKind, y.jumps, Record.sorted, hmap Record.jump? fun r => by cases r <;> rfl]
  | call =>
    rw [Projection.ofKind, y.calls, Record.sorted, hmap Record.call? fun r => by cases r <;> rfl]

theorem records_perm (y : l.Yields p) : p.records.Perm (l.roll p) := by
  have hfilter : p.ofKind = fun kind => (l.roll p).filter (·.kind == kind) :=
    funext y.ofKind_eq_filter
  rw [Projection.records, hfilter]
  exact Record.flatMap_filter_perm (l.roll p)

theorem sole (y : l.Yields p) {κ : Type} [DecidableEq κ] {key : Record → Option κ}
    (hn : ((l.roll p).filterMap key).Nodup) (hr : r ∈ l.roll p) {k : κ} (hk : key r = some k) :
    p.Sole key k r := by
  have hone := filter_eq_singleton hn hr hk
  have hswap : (fun kind => (p.ofKind kind).filter fun x => key x == some k) =
      fun kind => [r].filter (·.kind == kind) := by
    funext kind
    rw [y.ofKind_eq_filter, List.filter_comm, hone]
  rw [Projection.Sole, Projection.records, List.filter_flatMap, hswap]
  exact Record.flatMap_filter_singleton r

theorem ids_nodup (y : l.Yields p) : ((l.roll p).filterMap Record.id?).Nodup := by
  have hids : l.places.filterMap (·.node.id?) = (l.roll p).filterMap Record.id? :=
    filterMap_eq_of_forall₂ (fun q r h => h.2.tells.kind_id_eq.2.symm) y.forall₂_roll
  rw [← hids]
  exact (Place.checkAll_ids y.checked).1

theorem states_nodup (y : l.Yields p) : ((l.roll p).filterMap Record.standing?).Nodup := by
  have hstates : (l.places.filterMap fun q =>
      if q.node.kind.observable then some q.state else none) =
        (l.roll p).filterMap Record.standing? :=
    filterMap_eq_of_forall₂ (fun q r h => h.2.standing?_eq.symm) y.forall₂_roll
  have hapart := List.pairwise_map.mp l.places_states_nodup
  rw [← hstates]
  refine List.pairwise_filterMap.mpr (hapart.imp fun hne s hs s' hs' => ?_)
  obtain ⟨_, ⟨rfl⟩⟩ := Option.ite_none_right_eq_some.mp hs
  obtain ⟨_, ⟨rfl⟩⟩ := Option.ite_none_right_eq_some.mp hs'
  exact hne

end Yields

end LocalProtocol

end Parley
