import Mathlib.Data.List.Basic
import Parley.Proofs.Outcome
import Parley.Layout

/-! Slot tables. A conversation is laid out a second time here, as a flat table: a slot for each step,
in the order in which the steps are written, with the indices of the slot that comes next, of the step
around the conversation and of the first slots inside. The table is built slot by slot; an index that
does not lie in it is a `fault`. Main statement: whatever the fault is, a table comes out just if the
places of the conversation pass their checks, with the same error otherwise, and its slots can be
written down at once. -/

namespace Parley

/-- The step that a conversation stands in, by its slot. -/
inductive Owner where
  | root
  | loop (slot : Nat)
  | choice (slot : Nat)
  | par (slot : Nat)

/-- The first slots of the conversations inside a step. -/
inductive Children where
  | leaf
  | body (first? : Option Nat)
  | branches (firsts : List (Option Nat))

structure Slot where
  node : Node
  state : String
  position : Nat
  owner : Owner
  next? : Option Nat
  children : Children

/-- A loop around a step, with its slot, or a parallel step around it. -/
inductive Scope where
  | loop (label : String) (slot : Nat)
  | par

namespace Scope

def isLoop (label : String) : Scope → Bool
  | .loop other _ => other == label
  | .par => false

/-- The slot of the loop that a jump goes back to, looked for among scopes from the inside out; `all`
are those around the jump. -/
def loopOf (label : String) (all : List Scope) : List Scope → Except LayoutError Nat
  | [] => .error (.unboundJump label)
  | .loop other slot :: outer => if other == label then .ok slot else loopOf label all outer
  | .par :: outer =>
    if all.any (isLoop label) then .error (.leavesPar label) else loopOf label all outer

end Scope

structure SlotTable where
  slots : List Slot
  /-- The slot of the loop for the slot of a jump. -/
  loops : Nat → Option Nat
  seen : List NodeId

namespace SlotTable

def empty : SlotTable := ⟨[], fun _ => none, []⟩

def push (t : SlotTable) (s : Slot) : SlotTable := { t with slots := t.slots ++ [s] }

def setChildren (t : SlotTable) (index : Nat) (children : Children) : SlotTable :=
  { t with slots := t.slots.modify index fun s => { s with children } }

def setNext (t : SlotTable) (index next : Nat) : SlotTable :=
  { t with slots := t.slots.modify index fun s => { s with next? := some next } }

def setLoop (t : SlotTable) (index loop : Nat) : SlotTable :=
  { t with loops := fun k => if k = index then some loop else t.loops k }

section Build

variable (fault : LayoutError)

/-- Links the slot before to the one that is to come, unless nothing may follow it. -/
def link (t : SlotTable) (stem : String) (n : Node) : Option Nat → Except LayoutError SlotTable
  | none => .ok t
  | some previous =>
    match t.slots[previous]? with
    | none => .error fault
    | some s =>
      match s.node with
      | .jump _ label => .error (.unreachable n.title label stem)
      | _ => .ok (t.setNext previous t.slots.length)

/-- Takes note of the identifier of a step. -/
def claim (t : SlotTable) (n : Node) : Except LayoutError SlotTable :=
  match n.id? with
  | none => .ok t
  | some id =>
    if t.seen.contains id then .error (.idTwice id) else .ok { t with seen := id :: t.seen }

mutual

/-- Lays the rest of a conversation out, of which `first?` and `previous?` are the first slot and the
last one so far. -/
def conversation (stem : String) (owner : Owner) (scopes : List Scope) (first? previous? : Option Nat)
    (position : Nat) : List Node → SlotTable → Except LayoutError (Option Nat × SlotTable)
  | [], t => .ok (first?, t)
  | n :: ns, t => do
    let index := t.slots.length
    let t ← t.link fault stem n previous?
    let t ← t.claim n
    let t ← inside (stateName stem position) scopes index n
      (t.push ⟨n, stateName stem position, position, owner, none, .leaf⟩)
    conversation stem owner scopes (first?.or (some index)) (some index) (position + 1) ns t

/-- Lays out what is inside the step in a slot. -/
def inside (state : String) (scopes : List Scope) (index : Nat) :
    Node → SlotTable → Except LayoutError SlotTable
  | .loop _ label body, t =>
    if body.isEmpty then .error (.emptyLoop label)
    else do
      let (first?, t) ← conversation (bodyStem state label) (.loop index) (.loop label index :: scopes)
        none none 1 body t
      return t.setChildren index (.body first?)
  | .choice _ _ bs, t =>
    if bs.isEmpty then .error (.noBranches .choice state)
    else do
      let (firsts, t) ← branches state choiceTag (.choice index) scopes 1 bs t
      return t.setChildren index (.branches firsts)
  | .par _ bs, t =>
    if bs.isEmpty then .error (.noBranches .par state)
    else do
      let (firsts, t) ← branches state parTag (.par index) (.par :: scopes) 1 bs t
      return t.setChildren index (.branches firsts)
  | .jump _ label, t => do return t.setLoop index (← Scope.loopOf label scopes scopes)
  | .message _, t => .ok t
  | .call .., t => .ok t

def branches (state tag : String) (owner : Owner) (scopes : List Scope) (number : Nat) :
    List (List Node) → SlotTable → Except LayoutError (List (Option Nat) × SlotTable)
  | [], t => .ok ([], t)
  | b :: bs, t => do
    let (first?, t) ← conversation (branchStem state tag number) owner scopes none none 1 b t
    let (firsts, t) ← branches state tag owner scopes (number + 1) bs t
    return (first? :: firsts, t)

end

/-- The table of a local protocol, and its first slot. -/
def build (l : LocalProtocol) : Except LayoutError (Option Nat × SlotTable) :=
  conversation fault l.protagonist .root [] none none 1 l.conversation empty

end Build

end SlotTable

/-! ### Tables at once -/

/-- The first slot of a conversation that begins at an index. -/
def Conversation.first? (index : Nat) (c : Conversation) : Option Nat :=
  if c.isEmpty then none else some index

/-- The first slots of branches of which the first begins at an index. -/
def branchFirsts (index : Nat) : List (List Node) → List (Option Nat)
  | [] => []
  | b :: bs => Conversation.first? index b :: branchFirsts (index + (Conversation.preorder b).length) bs

/-- What is known of the insides of a step before they are laid out from an index on. -/
def Node.children (index : Nat) : Node → Children
  | .loop _ _ body => .body (Conversation.first? index body)
  | .choice _ _ bs => .branches (branchFirsts index bs)
  | .par _ bs => .branches (branchFirsts index bs)
  | .message _ => .leaf
  | .call .. => .leaf
  | .jump .. => .leaf

/-- The slot of the loop that a step goes back to, if it is a jump. -/
def Node.loopSlot? (scopes : List Scope) : Node → Option Nat
  | .jump _ label => (Scope.loopOf label scopes scopes).toOption
  | _ => none

mutual

/-- The slots of a conversation that begins at an index, each with the slot of the loop that it goes
back to. -/
def Conversation.cells (stem : String) (owner : Owner) (scopes : List Scope) (position index : Nat) :
    List Node → List (Slot × Option Nat)
  | [] => []
  | n :: ns =>
    let behind := index + n.preorder.length
    (⟨n, stateName stem position, position, owner, Conversation.first? behind ns,
        n.children (index + 1)⟩, n.loopSlot? scopes) ::
      (n.cellsWithin (stateName stem position) scopes index
        ++ Conversation.cells stem owner scopes (position + 1) behind ns)

/-- The slots inside the step at an index. -/
def Node.cellsWithin (state : String) (scopes : List Scope) (index : Nat) :
    Node → List (Slot × Option Nat)
  | .loop _ label body =>
    Conversation.cells (bodyStem state label) (.loop index) (.loop label index :: scopes) 1 (index + 1)
      body
  | .choice _ _ bs => branchCells state choiceTag (.choice index) scopes 1 (index + 1) bs
  | .par _ bs => branchCells state parTag (.par index) (.par :: scopes) 1 (index + 1) bs
  | .message _ => []
  | .call .. => []
  | .jump .. => []

def branchCells (state tag : String) (owner : Owner) (scopes : List Scope) (number index : Nat) :
    List (List Node) → List (Slot × Option Nat)
  | [] => []
  | b :: bs =>
    Conversation.cells (branchStem state tag number) owner scopes 1 index b
      ++ branchCells state tag owner scopes (number + 1) (index + (Conversation.preorder b).length) bs

end

/-- The cells of a local protocol. -/
def LocalProtocol.cells (l : LocalProtocol) : List (Slot × Option Nat) :=
  Conversation.cells l.protagonist .root [] 1 0 l.conversation

mutual

theorem Conversation.length_cells (stem : String) (owner : Owner) (scopes : List Scope)
    (i k : Nat) : ∀ c : List Node,
      (Conversation.cells stem owner scopes i k c).length = (Conversation.preorder c).length
  | [] => rfl
  | n :: ns => by
    have hwithin := Node.length_cellsWithin (stateName stem i) scopes k n
    rw [Conversation.cells, Conversation.preorder, List.length_cons, List.length_append,
      List.length_append, Conversation.length_cells stem owner scopes (i + 1) _ ns]
    omega

theorem Node.length_cellsWithin (state : String) (scopes : List Scope) (k : Nat) : ∀ n : Node,
    (n.cellsWithin state scopes k).length + 1 = n.preorder.length
  | .loop id label body => by
    rw [Node.cellsWithin, Node.preorder, Conversation.length_cells, List.length_cons]
  | .choice id chooser bs => by
    rw [Node.cellsWithin, Node.preorder, length_branchCells, List.length_cons]
  | .par id bs => by rw [Node.cellsWithin, Node.preorder, length_branchCells, List.length_cons]
  | .message m => rfl
  | .call name roles => rfl
  | .jump id label => rfl

theorem length_branchCells (state tag : String) (owner : Owner) (scopes : List Scope) (i k : Nat) :
    ∀ bs : List (List Node),
      (branchCells state tag owner scopes i k bs).length = (branchesPreorder bs).length
  | [] => rfl
  | b :: bs => by
    rw [branchCells, branchesPreorder, List.length_append, List.length_append,
      Conversation.length_cells, length_branchCells state tag owner scopes (i + 1) _ bs]

end

/-! ### Checks -/

namespace Place

/-- Whether the identifier of a step is a new one. -/
def checkNew (seen : List NodeId) (q : Place) : Except LayoutError Unit :=
  match q.node.id? with
  | none => .ok ()
  | some id => if seen.contains id then .error (.idTwice id) else .ok ()

/-- The identifiers seen behind some places. -/
def seenAfter (seen : List NodeId) : List Place → List NodeId
  | [] => seen
  | q :: qs => seenAfter (q.node.id?.toList ++ seen) qs

theorem checkAll_cons_eq_bind (seen : List NodeId) (q : Place) (qs : List Place) :
    checkAll seen (q :: qs) = q.checkReached >>= fun _ => q.checkNew seen >>= fun _ =>
      q.checkNode >>= fun _ => checkAll (q.node.id?.toList ++ seen) qs := by
  rw [checkAll, checkNew]
  refine bind_congr fun _ => ?_
  cases q.node.id? with
  | none => rfl
  | some id =>
    by_cases h : seen.contains id = true
    · simp only [h, if_true]
      rfl
    · simp only [h]
      rfl

theorem seenAfter_append (seen : List NodeId) (ps qs : List Place) :
    seenAfter seen (ps ++ qs) = seenAfter (seenAfter seen ps) qs := by
  induction ps generalizing seen with
  | nil => rfl
  | cons p ps ih => exact ih _

theorem checkAll_append_eq_bind (seen : List NodeId) (ps qs : List Place) :
    checkAll seen (ps ++ qs) = checkAll seen ps >>= fun _ => checkAll (seenAfter seen ps) qs := by
  induction ps generalizing seen with
  | nil => rfl
  | cons p ps ih =>
    rw [List.cons_append, checkAll_cons_eq_bind, checkAll_cons_eq_bind]
    simp only [bind_assoc, ih]
    rfl

end Place

namespace Scope

/-- Scopes that stand for the loops and parallel steps among some frames, each loop with a slot that has
to do with it. -/
inductive Enclose (P : Nat → Loop → Prop) : List Scope → List Frame → Prop where
  | nil : Enclose P [] []
  | loop {k : Nat} (inner : Loop) {scopes : List Scope} {frames : List Frame} :
      P k inner → Enclose P scopes frames →
        Enclose P (.loop inner.label k :: scopes) (.loop inner :: frames)
  | choice {stem : String} {i : Nat} {following : Conversation} {scopes : List Scope}
      {frames : List Frame} :
      Enclose P scopes frames → Enclose P scopes (.choice stem i following :: frames)
  | par {id : NodeId} {state : String} {scopes : List Scope} {frames : List Frame} :
      Enclose P scopes frames → Enclose P (.par :: scopes) (.par id state :: frames)

variable {P : Nat → Loop → Prop} {scopes all : List Scope} {frames : List Frame} {label : String}

theorem Enclose.any_isLoop (h : Enclose P scopes frames) :
    scopes.any (isLoop label) = frames.any (Frame.isLoop label) := by
  induction h with
  | nil => rfl
  | loop _ _ _ ih => rw [List.any_cons, List.any_cons, ih, isLoop, Frame.isLoop]
  | choice _ ih => exact ih
  | par _ ih => exact ih

theorem loopOf_of_not_any (hall : all.any (isLoop label) = false)
    (h : scopes.any (isLoop label) = false) :
    loopOf label all scopes = .error (.unboundJump label) := by
  induction scopes with
  | nil => rfl
  | cons scope scopes ih =>
    obtain ⟨hscope, hscopes⟩ := Bool.or_eq_false_iff.mp h
    cases scope with
    | loop other k =>
      rw [loopOf, if_neg (by simpa [isLoop] using hscope)]
      exact ih hscopes
    | par =>
      rw [loopOf, hall]
      exact ih hscopes

/-- A jump goes back to the slot of its loop, or fails in the same way. -/
theorem Enclose.loopOf_cases (label : String) (h : Enclose P scopes frames)
    (hall : all.any (isLoop label) = scopes.any (isLoop label)) :
    (∃ k inner, loopOf label all scopes = .ok k ∧ Frame.target label frames = .ok inner ∧ P k inner) ∨
      ∃ e, loopOf label all scopes = .error e ∧ Frame.target label frames = .error e := by
  induction h with
  | nil => exact .inr ⟨_, rfl, rfl⟩
  | @loop k inner scopes frames hk _ ih =>
    rw [loopOf, Frame.target]
    by_cases hlabel : (inner.label == label) = true
    · rw [if_pos hlabel, if_pos hlabel]
      exact .inl ⟨k, inner, rfl, rfl, hk⟩
    · have hother : (inner.label == label) = false := by simpa using hlabel
      rw [if_neg hlabel, if_neg hlabel]
      apply ih
      rw [hall, List.any_cons, isLoop, hother, Bool.false_or]
  | choice _ ih => exact ih hall
  | @par id state scopes frames h ih =>
    right
    rw [loopOf, Frame.target, hall, List.any_cons, isLoop, Bool.false_or, ← h.any_isLoop]
    by_cases hany : scopes.any (isLoop label) = true
    · rw [hany]
      exact ⟨_, rfl, rfl⟩
    · have hnone : scopes.any (isLoop label) = false := by simpa using hany
      have hall : all.any (isLoop label) = false := by
        rw [hall]
        exact hnone
      rw [hnone, loopOf_of_not_any hall hnone]
      exact ⟨_, rfl, rfl⟩

end Scope

namespace SlotTable

/-- The table with given cells. -/
def ofCells (cells : List (Slot × Option Nat)) (seen : List NodeId) : SlotTable :=
  ⟨cells.map (·.1), fun k => cells[k]?.bind (·.2), seen⟩

/-- The slot before the next one, if there is one, holds the step before. -/
def Behind (cells : List (Slot × Option Nat)) (previous? : Option Nat) (before? : Option Node) : Prop :=
  match previous? with
  | none => before? = none
  | some k => ∃ cell, cells[k]? = some cell ∧ before? = some cell.1.node

/-- The cells once the slot before is linked to the next one, which comes if there are steps left. -/
def linked (cells : List (Slot × Option Nat)) : Option Nat → Conversation → List (Slot × Option Nat)
  | some k, _ :: _ =>
    cells.modify k fun cell => ({ cell.1 with next? := some cells.length }, cell.2)
  | _, _ => cells

section Cells

variable {cells : List (Slot × Option Nat)} {seen : List NodeId}

@[simp] theorem linked_none (c : Conversation) : linked cells none c = cells := by
  cases c <;> rfl

@[simp] theorem length_linked (previous? : Option Nat) (c : Conversation) :
    (linked cells previous? c).length = cells.length := by
  cases previous? with
  | none => rw [linked_none]
  | some k =>
    cases c with
    | nil => rfl
    | cons n ns => rw [linked, List.length_modify]

@[simp] theorem length_slots_ofCells : (ofCells cells seen).slots.length = cells.length :=
  List.length_map _

theorem modify_append_length {α : Type} (xs ys : List α) (a : α) (f : α → α) :
    (xs ++ a :: ys).modify xs.length f = xs ++ f a :: ys := by
  induction xs with
  | nil => rfl
  | cons x xs ih => rw [List.cons_append, List.length_cons, List.modify_succ_cons, ih, List.cons_append]

theorem map_fst_modify (cells : List (Slot × Option Nat)) (k : Nat) (f : Slot → Slot) :
    (cells.modify k fun cell => (f cell.1, cell.2)).map (·.1) = (cells.map (·.1)).modify k f := by
  apply List.ext_getElem?
  intro j
  rw [List.getElem?_map, List.getElem?_modify, List.getElem?_modify, List.getElem?_map]
  cases cells[j]? with
  | none => rfl
  | some cell =>
    by_cases h : k = j <;> simp [h]

theorem bind_snd_modify (cells : List (Slot × Option Nat)) (k j : Nat) (f : Slot → Slot) :
    (cells.modify k fun cell => (f cell.1, cell.2))[j]?.bind (·.2) = cells[j]?.bind (·.2) := by
  rw [List.getElem?_modify]
  cases cells[j]? with
  | none => rfl
  | some cell =>
    by_cases h : k = j <;> simp [h]

theorem push_ofCells (s : Slot) :
    (ofCells cells seen).push s = ofCells (cells ++ [(s, none)]) seen := by
  have hloops (k : Nat) : cells[k]?.bind (·.2) = (cells ++ [(s, none)])[k]?.bind (·.2) := by
    rw [List.getElem?_append]
    split
    · rfl
    · rename_i h
      rw [List.getElem?_eq_none (by omega)]
      cases k - cells.length <;> rfl
  simp [ofCells, push, hloops]

theorem modify_ofCells (k : Nat) (f : Slot → Slot) :
    { ofCells cells seen with slots := (ofCells cells seen).slots.modify k f } =
      ofCells (cells.modify k fun cell => (f cell.1, cell.2)) seen := by
  have hslots := map_fst_modify cells k f
  have hloops := funext fun j => bind_snd_modify cells k j f
  exact congrArg₂ (SlotTable.mk · · seen) hslots.symm hloops.symm

/-- The slot of a step is completed once what is inside the step stands behind it. -/
theorem setChildren_ofCells (before : List (Slot × Option Nat)) (s : Slot)
    (within : List (Slot × Option Nat)) (children : Children) :
    (ofCells (before ++ [(s, none)] ++ within) seen).setChildren before.length children =
      ofCells (before ++ ({ s with children }, none) :: within) seen := by
  rw [setChildren, modify_ofCells, List.append_assoc, List.singleton_append, modify_append_length]

theorem setLoop_ofCells (before : List (Slot × Option Nat)) (s : Slot) (loop : Nat) :
    (ofCells (before ++ [(s, none)]) seen).setLoop before.length loop =
      ofCells (before ++ [(s, some loop)]) seen := by
  have hslots : (before ++ [(s, (none : Option Nat))]).map (·.1) =
      (before ++ [(s, some loop)]).map (·.1) := by
    simp
  have hloops : (fun k => if k = before.length then some loop
      else (before ++ [(s, none)])[k]?.bind (·.2)) =
        fun k => (before ++ [(s, some loop)])[k]?.bind (·.2) := by
    funext k
    by_cases hk : k = before.length
    · simp [hk]
    · rw [if_neg hk, List.getElem?_append, List.getElem?_append]
      split
      · rfl
      · rw [List.getElem?_eq_none (by simp; omega), List.getElem?_eq_none (by simp; omega)]
  exact congrArg₂ (SlotTable.mk · · seen) hslots hloops

theorem linked_append (before : List (Slot × Option Nat)) (s : Slot) (loop? : Option Nat)
    (behind : List (Slot × Option Nat)) (c : Conversation) (h : s.next? = none) :
    linked (before ++ (s, loop?) :: behind) (some before.length) c = before ++
      ({ s with next? := Conversation.first? (before ++ (s, loop?) :: behind).length c }, loop?) ::
        behind := by
  cases c with
  | nil =>
    cases s
    cases h
    rfl
  | cons n ns => rw [linked, modify_append_length, Conversation.first?, if_neg (by simp)]

theorem link_ofCells (fault : LayoutError) (seen : List NodeId) {previous? : Option Nat} (q : Place)
    (ns : Conversation) (h : Behind cells previous? q.before?) :
    (ofCells cells seen).link fault q.stem q.node previous? =
      q.checkReached >>= fun _ => .ok (ofCells (linked cells previous? (q.node :: ns)) seen) := by
  unfold Place.checkReached
  cases previous? with
  | none =>
    rw [show q.before? = none from h, linked_none]
    rfl
  | some k =>
    obtain ⟨cell, hcell, hbefore⟩ := h
    have hslot : (ofCells cells seen).slots[k]? = some cell.1 := by
      simp [ofCells, hcell]
    have hnext : (ofCells cells seen).setNext k (ofCells cells seen).slots.length =
        ofCells (linked cells (some k) (q.node :: ns)) seen := by
      rw [setNext, modify_ofCells, length_slots_ofCells, linked]
    rw [link, hslot, hbefore, hnext]
    simp only
    cases cell.1.node <;> rfl

theorem claim_ofCells (q : Place) :
    (ofCells cells seen).claim q.node =
      q.checkNew seen >>= fun _ => .ok (ofCells cells (q.node.id?.toList ++ seen)) := by
  unfold claim Place.checkNew
  cases q.node.id? with
  | none => rfl
  | some id =>
    by_cases h : seen.contains id = true
    · simp only [ofCells, h, if_true]
      rfl
    · simp only [ofCells, h]
      rfl

end Cells

mutual

theorem conversation_ofCells (fault : LayoutError) {scopes : List Scope} {frames : List Frame}
    (hs : Scope.Enclose (fun _ _ => True) scopes frames) (stem : String)
    (owner : Owner) (first? previous? : Option Nat) (before? : Option Node) (i : Nat)
    (cells : List (Slot × Option Nat)) (seen : List NodeId) (hb : Behind cells previous? before?) :
    ∀ c : List Node, conversation fault stem owner scopes first? previous? i c (ofCells cells seen) =
      Place.checkAll seen (Conversation.places stem frames before? i c) >>= fun _ =>
        .ok (first?.or (Conversation.first? cells.length c),
          ofCells (linked cells previous? c ++ Conversation.cells stem owner scopes i cells.length c)
            (Place.seenAfter seen (Conversation.places stem frames before? i c)))
  | [] => by
    have hlinked : linked cells previous? [] = cells := by cases previous? <;> rfl
    have hfirst : first?.or (Conversation.first? cells.length []) = first? := Option.or_none
    rw [conversation, Conversation.places, Conversation.cells, hlinked, hfirst, List.append_nil]
    rfl
  | n :: ns => by
    let q : Place := ⟨n, stem, i, before?, ns, frames⟩
    have hlink := link_ofCells fault seen q ns hb
    have hlength : (linked cells previous? (n :: ns)).length = cells.length := length_linked ..
    rw [conversation, Conversation.places, Place.checkAll_cons_eq_bind, hlink, length_slots_ofCells]
    generalize linked cells previous? (n :: ns) = cells' at hlength ⊢
    simp only [bind_assoc]
    refine bind_congr fun _ => ?_
    show ((ofCells cells' seen).claim q.node >>= _) = _
    rw [claim_ofCells q, bind_assoc]
    refine bind_congr fun _ => ?_
    show (inside fault (stateName stem i) scopes cells.length n ((ofCells cells' _).push _) >>= _) = _
    rw [push_ofCells, ← hlength, inside_ofCells fault hs stem owner before? i ns cells' _ n, bind_assoc]
    refine bind_congr fun _ => ?_
    rw [bind_assoc, Place.checkAll_append_eq_bind, bind_assoc]
    refine bind_congr fun _ => ?_
    let s : Slot := ⟨n, stateName stem i, i, owner, none, n.children (cells'.length + 1)⟩
    have hbehind : Behind (cells' ++ (s, n.loopSlot? scopes) ::
        n.cellsWithin (stateName stem i) scopes cells'.length) (some cells'.length) (some n) :=
      ⟨(s, n.loopSlot? scopes), by simp, rfl⟩
    refine (conversation_ofCells fault hs stem owner _ _ (some n) (i + 1) _ _ hbehind ns).trans ?_
    refine bind_congr fun _ => ?_
    have hfirst (k : Nat) : (first?.or (some cells'.length)).or (Conversation.first? k ns) =
        first?.or (Conversation.first? cells'.length (n :: ns)) := by
      cases first? <;> rfl
    have hwithin := n.length_cellsWithin (stateName stem i) scopes cells'.length
    rw [hfirst, linked_append _ _ _ _ _ rfl, Conversation.cells, List.append_assoc, List.cons_append,
      List.length_append, List.length_cons, hwithin, Place.seenAfter, Place.seenAfter_append]

theorem inside_ofCells (fault : LayoutError) {scopes : List Scope} {frames : List Frame}
    (hs : Scope.Enclose (fun _ _ => True) scopes frames)
    (stem : String) (owner : Owner) (before? : Option Node) (i : Nat) (following : Conversation)
    (cells : List (Slot × Option Nat)) (seen : List NodeId) : ∀ n : Node,
      inside fault (stateName stem i) scopes cells.length n
          (ofCells (cells ++ [(⟨n, stateName stem i, i, owner, none, .leaf⟩, none)]) seen) =
        Place.checkNode ⟨n, stem, i, before?, following, frames⟩ >>= fun _ =>
          Place.checkAll seen (n.placesWithin stem frames i following) >>= fun _ =>
            .ok (ofCells (cells ++ (⟨n, stateName stem i, i, owner, none, n.children (cells.length + 1)⟩,
                n.loopSlot? scopes) :: n.cellsWithin (stateName stem i) scopes cells.length)
              (Place.seenAfter seen (n.placesWithin stem frames i following)))
  | .loop id label body => by
    rw [inside, Node.placesWithin]
    by_cases hempty : body.isEmpty = true
    · obtain rfl := List.isEmpty_iff.mp hempty
      rfl
    · have hnode : Place.checkNode ⟨.loop id label body, stem, i, before?, following, frames⟩ =
          .ok () := by
        cases body with
        | nil => exact absurd rfl hempty
        | cons => rfl
      have hscopes : Scope.Enclose (fun _ _ => True) (.loop label cells.length :: scopes)
          (.loop ⟨id, label, bodyStem (stateName stem i) label, body⟩ :: frames) :=
        .loop ⟨id, label, _, body⟩ trivial hs
      rw [if_neg hempty, hnode, conversation_ofCells fault hscopes _ _ none none none 1 _ _ rfl body,
        bind_assoc]
      refine bind_congr fun _ => ?_
      rw [linked_none, List.length_append, List.length_singleton]
      exact congrArg Except.ok (setChildren_ofCells cells _ _ _)
  | .choice id chooser bs => by
    rw [inside, Node.placesWithin]
    by_cases hempty : bs.isEmpty = true
    · obtain rfl := List.isEmpty_iff.mp hempty
      rfl
    · have hnode : Place.checkNode ⟨.choice id chooser bs, stem, i, before?, following, frames⟩ =
          .ok () := by
        cases bs with
        | nil => exact absurd rfl hempty
        | cons => rfl
      have hscopes : Scope.Enclose (fun _ _ => True) scopes (.choice stem i following :: frames) :=
        .choice hs
      rw [if_neg hempty, hnode, branches_ofCells fault hscopes _ _ _ 1 _ _ bs, bind_assoc]
      refine bind_congr fun _ => ?_
      rw [List.length_append, List.length_singleton]
      exact congrArg Except.ok (setChildren_ofCells cells _ _ _)
  | .par id bs => by
    rw [inside, Node.placesWithin]
    by_cases hempty : bs.isEmpty = true
    · obtain rfl := List.isEmpty_iff.mp hempty
      rfl
    · have hnode : Place.checkNode ⟨.par id bs, stem, i, before?, following, frames⟩ = .ok () := by
        cases bs with
        | nil => exact absurd rfl hempty
        | cons => rfl
      have hscopes : Scope.Enclose (fun _ _ => True) (.par :: scopes)
          (.par id (stateName stem i) :: frames) := .par hs
      rw [if_neg hempty, hnode, branches_ofCells fault hscopes _ _ _ 1 _ _ bs, bind_assoc]
      refine bind_congr fun _ => ?_
      rw [List.length_append, List.length_singleton]
      exact congrArg Except.ok (setChildren_ofCells cells _ _ _)
  | .message m => by
    rw [inside, Node.placesWithin, Node.cellsWithin]
    rfl
  | .call name roles => by
    rw [inside, Node.placesWithin, Node.cellsWithin]
    rfl
  | .jump id label => by
    have hnode : Place.checkNode ⟨.jump id label, stem, i, before?, following, frames⟩ =
        (fun _ => ()) <$> Frame.target label frames := rfl
    rw [inside, hnode, Node.placesWithin, Node.cellsWithin, Node.loopSlot?]
    rcases hs.loopOf_cases label rfl with ⟨k, inner, hk, hinner, _⟩ | ⟨e, he, he'⟩
    · rw [hk, hinner]
      exact congrArg Except.ok (setLoop_ofCells cells _ k)
    · rw [he, he']
      rfl

theorem branches_ofCells (fault : LayoutError) {scopes : List Scope} {frames : List Frame}
    (hs : Scope.Enclose (fun _ _ => True) scopes frames)
    (state tag : String) (owner : Owner) (i : Nat) (cells : List (Slot × Option Nat))
    (seen : List NodeId) : ∀ bs : List (List Node),
      branches fault state tag owner scopes i bs (ofCells cells seen) =
        Place.checkAll seen (branchPlaces state tag frames i bs) >>= fun _ =>
          .ok (branchFirsts cells.length bs,
            ofCells (cells ++ branchCells state tag owner scopes i cells.length bs)
              (Place.seenAfter seen (branchPlaces state tag frames i bs)))
  | [] => by
    rw [branches, branchPlaces, branchCells, List.append_nil]
    rfl
  | b :: bs => by
    rw [branches, branchPlaces, Place.checkAll_append_eq_bind,
      conversation_ofCells fault hs _ owner none none none 1 cells seen rfl b]
    simp only [bind_assoc]
    refine bind_congr fun _ => ?_
    rw [linked_none]
    show (branches fault state tag owner scopes (i + 1) bs (ofCells _ _) >>= _) = _
    rw [branches_ofCells fault hs state tag owner (i + 1) _ _ bs, bind_assoc]
    refine bind_congr fun _ => ?_
    rw [List.length_append, Conversation.length_cells, branchCells, branchFirsts, List.append_assoc,
      Place.seenAfter_append]
    rfl

end

/-- The table of a local protocol is built if its places pass their checks. -/
theorem build_eq (fault : LayoutError) (l : LocalProtocol) :
    build fault l = Place.checkAll [] l.places >>= fun _ =>
      .ok (Conversation.first? 0 l.conversation, ofCells l.cells (Place.seenAfter [] l.places)) :=
  conversation_ofCells fault .nil l.protagonist .root none none none 1 [] [] rfl l.conversation

end SlotTable

end Parley
