import Parley.Proofs.Declared
import Parley.Proofs.SlotTable

/-! Walks over slot tables. The way on from a step is found a second time here, from slot to slot: on to
the next one, and at the end of a conversation to its owner. A slot that is missing or holds something
else than it should is a `fault`, and so is a walk of more steps than there are slots. Main statement:
whatever the fault is, the projection read off the table is the one read off the places. -/

namespace Parley

def Children.body? : Children → Option Nat
  | .body first? => first?
  | _ => none

def Children.firsts : Children → List (Option Nat)
  | .branches firsts => firsts
  | _ => []

namespace SlotTable

section Definitions

variable (fault : LayoutError) (t : SlotTable)

def slotAt (k : Nat) : Except LayoutError Slot :=
  match t.slots[k]? with
  | some s => .ok s
  | none => .error fault

def idAt (k : Nat) : Except LayoutError NodeId := do
  let s ← slotAt fault t k
  match s.node.id? with
  | some id => .ok id
  | none => .error fault

/-- The state of the first step from a slot on that can be observed, in a loop with a label. At most
`fuel` slots are looked at. -/
def firstState : Nat → String → Option Nat → Except LayoutError String
  | _, label, none => .error (.silentLoop label)
  | 0, _, some _ => .error fault
  | fuel + 1, label, some k => do
    let s ← slotAt fault t k
    match s.node with
    | .call .. => firstState fuel label s.next?
    | .jump .. => .error (.silentLoop label)
    | .loop _ inner _ => firstState fuel inner s.children.body?
    | _ => .ok s.state

/-- The state in which the loop in a slot is entered. -/
def loopEntry (k : Nat) : Except LayoutError String := do
  let s ← slotAt fault t k
  match s.node with
  | .loop _ label _ => firstState fault t t.slots.length label s.children.body?
  | _ => .error fault

mutual

/-- The target of arriving at a slot. -/
def entry (fuel k : Nat) : Except LayoutError Target := do
  let s ← slotAt fault t k
  match s.node, t.loops k with
  | .call .., _ => follow fuel k
  | .jump _ label, some loop => return .back (← idAt fault t loop) label (← loopEntry fault t loop)
  | .jump .., none => .error fault
  | .loop .., _ => return .step (← idAt fault t k) .loop (← loopEntry fault t k)
  | n, _ => return .step (← idAt fault t k) n.kind s.state
termination_by (fuel, 1)

/-- The target once the step in a slot is done. At most `fuel` steps are passed on the way. -/
def follow (fuel k : Nat) : Except LayoutError Target :=
  match fuel with
  | 0 => .error fault
  | fuel + 1 => do
    let s ← slotAt fault t k
    match s.next? with
    | some next => entry fuel next
    | none => exit fuel s.owner
termination_by (fuel, 0)

/-- The target of running off the end of a conversation. -/
def exit (fuel : Nat) (owner : Owner) : Except LayoutError Target :=
  match owner with
  | .root => .ok .finish
  | .loop k => do
    let s ← slotAt fault t k
    match s.node with
    | .loop id label _ => .ok (.loopEnd id label)
    | _ => .error fault
  | .choice k => follow fuel k
  | .par k => do
    let id ← idAt fault t k
    let s ← slotAt fault t k
    return .join id (joinState s.state)
termination_by (fuel, 1)

end

/-- The target of entering a conversation at its first slot. -/
def branchEntry (fuel : Nat) (first? : Option Nat) (owner : Owner) : Except LayoutError Target :=
  match first? with
  | some k => entry fault t fuel k
  | none => exit fault t fuel owner

/-- The signal of a branch that is entered at a target: the message there, if it is one. -/
def signal? (l : LocalProtocol) : Target → Option Signal
  | .step id .message _ => t.slots.findSome? fun s =>
    match s.node with
    | .message m => if m.id == id then some ⟨m.id, m.name, m.sender, l.directionOf m⟩ else none
    | _ => none
  | _ => none

def choiceBranches (l : LocalProtocol) (owner : Owner) (index : Nat) :
    List (Option Nat) → Except LayoutError (List ChoiceBranch)
  | [] => .ok []
  | first? :: firsts => do
    let entry ← branchEntry fault t t.slots.length first? owner
    return ⟨index, entry, t.signal? l entry⟩ :: (← choiceBranches l owner (index + 1) firsts)

/-- The record of the step in a slot. -/
def record (l : LocalProtocol) (k : Nat) (s : Slot) : Except LayoutError Record :=
  match s.node with
  | .message m => do
    return .message {
      message := m
      direction := l.directionOf m
      position := s.position
      state := s.state
      next := ← follow fault t t.slots.length k
      choiceSignal? := none }
  | .choice id chooser _ => do
    let branches ← choiceBranches fault t l (.choice k) 1 s.children.firsts
    return .choice {
      id, chooser, branches
      position := s.position
      state := s.state
      role := if chooser == l.protagonist then .chooser else .observer
      next := ← follow fault t t.slots.length k }
  | .par id _ => do
    let branches ← s.children.firsts.mapM (branchEntry fault t t.slots.length · (.par k))
    return .par {
      id, branches
      position := s.position
      state := s.state
      join := joinState s.state
      next := ← follow fault t t.slots.length k }
  | .loop id label _ => do
    let state ← loopEntry fault t k
    return .loop {
      id, label, state
      stem := bodyStem s.state label
      position := s.position
      next := ← follow fault t t.slots.length k }
  | .jump id label => do
    let target ← entry fault t t.slots.length k
    return .jump { id, label, target, position := s.position, state := s.state }
  | .call name roles => do
    return .call {
      name, roles
      position := s.position
      state := s.state
      next := ← follow fault t t.slots.length k }

def recordsFrom (l : LocalProtocol) (k : Nat) : List Slot → Except LayoutError (List Record)
  | [] => .ok []
  | s :: ss => do
    let r ← record fault t l k s
    return r :: (← recordsFrom l (k + 1) ss)

end Definitions

end SlotTable

namespace LocalProtocol

/-- A projection from the records of all steps. -/
def assemble (l : LocalProtocol) (moduleName? : Option String) (types : List TypeImport)
    (start : Target) (records : List Record) : Projection where
  moduleName? := moduleName?
  types := types
  start := start
  choices := records.filterMap Record.choice?
  localName := l.name
  protagonist := l.protagonist
  roles := l.roles
  messages := (records.filterMap Record.message?).map
    (markSignal (signals (records.filterMap Record.choice?)))
  pars := records.filterMap Record.par?
  loops := records.filterMap Record.loop?
  jumps := records.filterMap Record.jump?
  calls := records.filterMap Record.call?

/-- Projects a local protocol by way of its table. -/
def projectSlots (fault : LayoutError) (moduleName? : Option String) (types : List TypeImport)
    (l : LocalProtocol) : Except LayoutError Projection := do
  let (first?, t) ← SlotTable.build fault l
  let start ← t.branchEntry fault t.slots.length first? .root
  let records ← t.recordsFrom fault l 0 t.slots
  return l.assemble moduleName? types start records

end LocalProtocol

/-! ### Slots and places -/

namespace SlotTable

variable {G : List Place}

/-- The places of a conversation stand in a list from an index on. -/
def Sits (G : List Place) (k : Nat) (ps : List Place) : Prop :=
  ∀ j q, ps[j]? = some q → G[k + j]? = some q

/-- The slot of the first step of a stretch, if there is one. -/
def Starts (G : List Place) (first? : Option Nat) (s : Stretch) : Prop :=
  match first? with
  | none => s.rest = []
  | some k => ∃ q, G[k]? = some q ∧ q.stretch = s

/-- The slot of a loop. -/
def HoldsLoop (G : List Place) (k : Nat) (inner : Loop) : Prop :=
  ∃ q, G[k]? = some q ∧ q.node = .loop inner.id inner.label inner.body ∧
    inner = q.stretch.loop inner.id inner.label inner.body

/-- The owner of a conversation is the step of the innermost frame. -/
inductive Owns (G : List Place) : Owner → List Frame → Prop where
  | root : Owns G .root []
  | loop {k : Nat} {q : Place} {id : NodeId} {label : String} {body : Conversation} :
      G[k]? = some q → q.node = .loop id label body →
        Owns G (.loop k) (.loop (q.stretch.loop id label body) :: q.frames)
  | choice {k : Nat} {q : Place} {id : NodeId} {chooser : String} {bs : List Conversation} :
      G[k]? = some q → q.node = .choice id chooser bs →
        Owns G (.choice k) (.choice q.stem q.position q.following :: q.frames)
  | par {k : Nat} {q : Place} {id : NodeId} {bs : List Conversation} :
      G[k]? = some q → q.node = .par id bs → Owns G (.par k) (.par id q.state :: q.frames)

/-- The children of a slot start what is inside its step. -/
def Opens (G : List Place) (q : Place) (children : Children) : Prop :=
  match q.node with
  | .loop id label body => ∃ first?, children = .body first? ∧
      Starts G first? (q.stretch.inLoop id label body)
  | .choice _ _ bs => ∃ firsts, children = .branches firsts ∧ firsts.length = bs.length ∧
      ∀ i b first?, bs[i]? = some b → firsts[i]? = some first? →
        Starts G first? (q.stretch.inChoice q.following i b)
  | .par id bs => ∃ firsts, children = .branches firsts ∧ firsts.length = bs.length ∧
      ∀ i b first?, bs[i]? = some b → firsts[i]? = some first? →
        Starts G first? (q.stretch.inPar id i b)
  | _ => True

/-- A cell says of the step at a place what the place does. -/
structure Fits (G : List Place) (q : Place) (cell : Slot × Option Nat) : Prop where
  node : cell.1.node = q.node
  state : cell.1.state = q.state
  position : cell.1.position = q.position
  owner : Owns G cell.1.owner q.frames
  next : Starts G cell.1.next? q.after
  children : Opens G q cell.1.children
  loop : ∀ id label, q.node = .jump id label → ∃ k inner, cell.2 = some k ∧
    Frame.target label q.frames = .ok inner ∧ HoldsLoop G k inner

theorem Sits.head {k : Nat} {p : Place} {ps : List Place} (h : Sits G k (p :: ps)) :
    G[k]? = some p :=
  h 0 p rfl

theorem Sits.tail {k : Nat} {p : Place} {ps : List Place} (h : Sits G k (p :: ps)) :
    Sits G (k + 1) ps := by
  intro j q hq
  rw [Nat.add_assoc, Nat.add_comm 1 j]
  exact h (j + 1) q hq

theorem Sits.left {k : Nat} {ps qs : List Place} (h : Sits G k (ps ++ qs)) : Sits G k ps := by
  intro j q hq
  obtain ⟨hj, _⟩ := List.getElem?_eq_some_iff.mp hq
  exact h j q (by rw [List.getElem?_append_left hj, hq])

theorem Sits.right {k : Nat} {ps qs : List Place} (h : Sits G k (ps ++ qs)) :
    Sits G (k + ps.length) qs := by
  intro j q hq
  rw [Nat.add_assoc]
  exact h (ps.length + j) q (by rw [List.getElem?_append_right (by omega), Nat.add_sub_cancel_left, hq])

theorem Sits.starts {k : Nat} {stem : String} {frames : List Frame} {before? : Option Node} {i : Nat}
    {c : Conversation} (h : Sits G k (Conversation.places stem frames before? i c)) :
    Starts G (Conversation.first? k c) ⟨stem, frames, i, c⟩ := by
  cases c with
  | nil => rfl
  | cons n ns =>
    rw [Conversation.places] at h
    exact ⟨_, h.head, rfl⟩

theorem length_branchFirsts (k : Nat) (bs : List Conversation) :
    (branchFirsts k bs).length = bs.length := by
  induction bs generalizing k with
  | nil => rfl
  | cons b bs ih => rw [branchFirsts, List.length_cons, List.length_cons, ih]

theorem Sits.starts_branch {k : Nat} {state tag : String} {frames : List Frame} {i : Nat}
    {bs : List Conversation} (h : Sits G k (branchPlaces state tag frames i bs)) {j : Nat}
    {b : Conversation} {first? : Option Nat} (hb : bs[j]? = some b)
    (hfirst : (branchFirsts k bs)[j]? = some first?) :
    Starts G first? ⟨branchStem state tag (i + j), frames, 1, b⟩ := by
  induction bs generalizing i j k with
  | nil => simp at hb
  | cons a bs ih =>
    rw [branchPlaces] at h
    rw [branchFirsts] at hfirst
    cases j with
    | zero =>
      cases hb
      cases hfirst
      exact h.left.starts
    | succ j =>
      have hlength := congrArg List.length
        (Conversation.map_node_places (branchStem state tag i) frames none 1 a)
      rw [List.length_map] at hlength
      have hright := h.right
      rw [hlength] at hright
      rw [show i + (j + 1) = i + 1 + j by omega]
      exact ih hright (by simpa using hb) (by simpa using hfirst)

theorem opens_children {k : Nat} {q : Place}
    (h : Sits G k (q.node.placesWithin q.stem q.frames q.position q.following)) :
    Opens G q (q.node.children k) := by
  unfold Opens
  split
  · rename_i id label body hn
    rw [hn, Node.placesWithin] at h
    exact ⟨_, by rw [hn, Node.children], h.starts⟩
  · rename_i id chooser bs hn
    rw [hn, Node.placesWithin] at h
    refine ⟨_, by rw [hn, Node.children], length_branchFirsts k bs, ?_⟩
    intro i b first? hb hfirst
    rw [Stretch.inChoice, Nat.add_comm i 1]
    exact h.starts_branch hb hfirst
  · rename_i id bs hn
    rw [hn, Node.placesWithin] at h
    refine ⟨_, by rw [hn, Node.children], length_branchFirsts k bs, ?_⟩
    intro i b first? hb hfirst
    rw [Stretch.inPar, Nat.add_comm i 1]
    exact h.starts_branch hb hfirst
  · trivial

theorem exists_loop_of_checkNode {scopes : List Scope} {q : Place}
    (hs : Scope.Enclose (HoldsLoop G) scopes q.frames) (hq : q.checkNode = .ok ()) {id : NodeId}
    {label : String} (hn : q.node = .jump id label) : ∃ k inner, q.node.loopSlot? scopes = some k ∧
      Frame.target label q.frames = .ok inner ∧ HoldsLoop G k inner := by
  rcases hs.loopOf_cases label rfl with ⟨k, inner, hk, hinner, hloop⟩ | ⟨e, _, he⟩
  · exact ⟨k, inner, by rw [hn, Node.loopSlot?, hk]; rfl, hinner, hloop⟩
  · have hnode : q.checkNode = (fun _ => ()) <$> Frame.target label q.frames := by
      rw [Place.checkNode, hn]
    rw [hnode, he] at hq
    cases hq

mutual

theorem cells_fit {scopes : List Scope} {frames : List Frame}
    (hs : Scope.Enclose (HoldsLoop G) scopes frames) {owner : Owner} (ho : Owns G owner frames)
    (stem : String) (before? : Option Node) (i k : Nat) : ∀ c : List Node,
      Sits G k (Conversation.places stem frames before? i c) →
      (∀ q ∈ Conversation.places stem frames before? i c, q.checkNode = .ok ()) →
      List.Forall₂ (Fits G) (Conversation.places stem frames before? i c)
        (Conversation.cells stem owner scopes i k c)
  | [], _, _ => by
    rw [Conversation.places, Conversation.cells]
    exact .nil
  | n :: ns, hsits, hchecked => by
    rw [Conversation.places] at hsits hchecked ⊢
    rw [Conversation.cells]
    obtain ⟨hnode, hchecked⟩ := List.forall_mem_cons.mp hchecked
    obtain ⟨hinside, hrest⟩ := List.forall_mem_append.mp hchecked
    have hwithin := cellsWithin_fit hs stem before? i k ns n hsits.head hsits.tail.left hinside
    have hlength : k + 1 + (n.placesWithin stem frames i ns).length = k + n.preorder.length := by
      have := n.length_cellsWithin (stateName stem i) scopes k
      have := hwithin.length_eq
      omega
    have hbehind := hsits.tail.right
    rw [hlength] at hbehind
    refine .cons ?_ (List.rel_append hwithin
      (cells_fit hs ho stem (some n) (i + 1) (k + n.preorder.length) ns hbehind hrest))
    exact {
      node := rfl
      state := rfl
      position := rfl
      owner := ho
      next := hbehind.starts
      children := opens_children hsits.tail.left
      loop := fun id label hn => exists_loop_of_checkNode hs hnode hn }

theorem cellsWithin_fit {scopes : List Scope} {frames : List Frame}
    (hs : Scope.Enclose (HoldsLoop G) scopes frames) (stem : String) (before? : Option Node) (i k : Nat)
    (following : Conversation) : ∀ n : Node, G[k]? = some ⟨n, stem, i, before?, following, frames⟩ →
      Sits G (k + 1) (n.placesWithin stem frames i following) →
      (∀ q ∈ n.placesWithin stem frames i following, q.checkNode = .ok ()) →
      List.Forall₂ (Fits G) (n.placesWithin stem frames i following)
        (n.cellsWithin (stateName stem i) scopes k)
  | .loop id label body, hk, hsits, hchecked => by
    rw [Node.placesWithin] at hsits hchecked ⊢
    rw [Node.cellsWithin]
    exact cells_fit (.loop ⟨id, label, _, body⟩ ⟨_, hk, rfl, rfl⟩ hs) (.loop hk rfl) _ none 1 (k + 1)
      body hsits hchecked
  | .choice id chooser bs, hk, hsits, hchecked => by
    rw [Node.placesWithin] at hsits hchecked ⊢
    rw [Node.cellsWithin]
    exact branchCells_fit (.choice hs) (.choice hk rfl) _ _ 1 (k + 1) bs hsits hchecked
  | .par id bs, hk, hsits, hchecked => by
    rw [Node.placesWithin] at hsits hchecked ⊢
    rw [Node.cellsWithin]
    exact branchCells_fit (.par hs) (.par hk rfl) _ _ 1 (k + 1) bs hsits hchecked
  | .message m, _, _, _ => by
    rw [Node.placesWithin, Node.cellsWithin]
    exact .nil
  | .call name roles, _, _, _ => by
    rw [Node.placesWithin, Node.cellsWithin]
    exact .nil
  | .jump id label, _, _, _ => by
    rw [Node.placesWithin, Node.cellsWithin]
    exact .nil

theorem branchCells_fit {scopes : List Scope} {frames : List Frame}
    (hs : Scope.Enclose (HoldsLoop G) scopes frames) {owner : Owner} (ho : Owns G owner frames)
    (state tag : String) (i k : Nat) : ∀ bs : List (List Node),
      Sits G k (branchPlaces state tag frames i bs) →
      (∀ q ∈ branchPlaces state tag frames i bs, q.checkNode = .ok ()) →
      List.Forall₂ (Fits G) (branchPlaces state tag frames i bs)
        (branchCells state tag owner scopes i k bs)
  | [], _, _ => by
    rw [branchPlaces, branchCells]
    exact .nil
  | b :: bs, hsits, hchecked => by
    rw [branchPlaces] at hsits hchecked ⊢
    rw [branchCells]
    obtain ⟨hfirst, hrest⟩ := List.forall_mem_append.mp hchecked
    have hfit := cells_fit hs ho (branchStem state tag i) none 1 k b hsits.left hfirst
    have hbehind := hsits.right
    rw [hfit.length_eq, Conversation.length_cells] at hbehind
    exact List.rel_append hfit (branchCells_fit hs ho state tag (i + 1) _ bs hbehind hrest)

end

theorem fits_cells {l : LocalProtocol} (h : Place.checkAll [] l.places = .ok ()) :
    List.Forall₂ (Fits l.places) l.places l.cells :=
  cells_fit .nil .root l.protagonist none 1 0 l.conversation (fun j q hq => by rwa [Nat.zero_add])
    fun _ => Place.checkNode_of_checkAll h

/-- A table whose slots are about some places, one after the other. -/
structure Tabulates (t : SlotTable) (G : List Place) : Prop where
  length : t.slots.length = G.length
  fits : ∀ k q, G[k]? = some q → ∃ s, t.slots[k]? = some s ∧ Fits G q (s, t.loops k)

theorem tabulates_ofCells {cells : List (Slot × Option Nat)} (h : List.Forall₂ (Fits G) G cells)
    (seen : List NodeId) : (ofCells cells seen).Tabulates G := by
  refine ⟨length_slots_ofCells.trans h.length_eq.symm, ?_⟩
  intro k q hq
  obtain ⟨cell, hcell⟩ := Outcome.exists_getElem?_of_length_eq h.length_eq hq
  have hloop : (ofCells cells seen).loops k = cell.2 := by simp [ofCells, hcell]
  refine ⟨cell.1, by simp [ofCells, hcell], ?_⟩
  rw [hloop]
  exact Outcome.getElem?_of_forall₂ h hq hcell

end SlotTable

/-! ### Walks -/

/-- How many steps may have to be passed behind the conversations of some frames. -/
def Frame.weight : List Frame → Nat
  | [] => 0
  | .choice _ _ following :: outer => (Conversation.preorder following).length + 1 + weight outer
  | .loop _ :: outer => weight outer
  | .par .. :: outer => weight outer

/-- How many steps may have to be passed from a stretch on, those inside other steps included. -/
def Stretch.weight (s : Stretch) : Nat :=
  (Conversation.preorder s.rest).length + Frame.weight s.frames

theorem Node.length_preorder_pos (n : Node) : 0 < n.preorder.length := by
  cases n <;> simp [Node.preorder]

theorem Place.rest_stretch (q : Place) {n : Node} (hn : q.node = n) :
    q.stretch.rest = n :: q.following := by
  rw [← hn]
  rfl

theorem Stretch.weight_pass_lt {s : Stretch} {n : Node} {ns : Conversation} (hr : s.rest = n :: ns) :
    (s.pass ns).weight < s.weight := by
  have := n.length_preorder_pos
  simp only [weight, pass, hr, Conversation.preorder, List.length_append]
  omega

theorem Stretch.weight_behind_choice_lt {s : Stretch} {stem : String} {i : Nat}
    {following : Conversation} {outer : List Frame} (hf : s.frames = .choice stem i following :: outer) :
    weight ⟨stem, outer, i + 1, following⟩ < s.weight := by
  simp only [weight, hf, Frame.weight]
  omega

theorem length_preorder_le_of_getElem? {bs : List Conversation} {k : Nat} {b : Conversation}
    (h : bs[k]? = some b) : (Conversation.preorder b).length ≤ (branchesPreorder bs).length := by
  induction bs generalizing k with
  | nil => simp at h
  | cons a bs ih =>
    rw [branchesPreorder, List.length_append]
    cases k with
    | zero =>
      cases h
      omega
    | succ k =>
      have := ih (by simpa using h)
      omega

/-- No stretch of a local protocol weighs more than all of its steps. -/
theorem LocalProtocol.Has.weight_le {l : LocalProtocol} {s : Stretch} (h : l.Has s) :
    s.weight ≤ (Conversation.preorder l.conversation).length := by
  induction h with
  | whole => exact Nat.le_refl _
  | pass _ hr ih => exact Nat.le_trans (Nat.le_of_lt (Stretch.weight_pass_lt hr)) ih
  | @body s id label body ns _ hr ih =>
    rw [Stretch.weight, hr, Conversation.preorder, Node.preorder, List.length_append,
      List.length_cons] at ih
    simp only [Stretch.weight, Stretch.inLoop, Loop.stretch, Stretch.loop, Frame.weight]
    omega
  | @choice s id chooser bs ns b k _ hr hb ih =>
    have hbranch := length_preorder_le_of_getElem? hb
    rw [Stretch.weight, hr, Conversation.preorder, Node.preorder, List.length_append,
      List.length_cons] at ih
    simp only [Stretch.weight, Stretch.inChoice, Frame.weight]
    omega
  | @par s id bs ns b k _ hr hb ih =>
    have hbranch := length_preorder_le_of_getElem? hb
    rw [Stretch.weight, hr, Conversation.preorder, Node.preorder, List.length_append,
      List.length_cons] at ih
    simp only [Stretch.weight, Stretch.inPar, Frame.weight]
    omega

namespace SlotTable

section Walks

variable {t : SlotTable} (fault : LayoutError)

theorem slotAt_eq {k : Nat} {s : Slot} (h : t.slots[k]? = some s) : slotAt fault t k = pure s := by
  rw [slotAt, h]
  rfl

theorem idAt_eq (ht : t.Tabulates G) {k : Nat} {q : Place} (hq : G[k]? = some q) {id : NodeId}
    (hid : q.node.id? = some id) : idAt fault t k = pure id := by
  obtain ⟨s, hs, hfit⟩ := ht.fits k q hq
  rw [idAt, slotAt_eq fault hs, pure_bind, hfit.node, hid]
  rfl

theorem Fits.starts_body {q : Place} {s : Slot} {loop? : Option Nat} (h : Fits G q (s, loop?))
    {id : NodeId} {label : String} {body : Conversation} (hn : q.node = .loop id label body) :
    Starts G s.children.body? (q.stretch.inLoop id label body) := by
  have hchildren : Opens G q s.children := h.children
  rw [Opens, hn] at hchildren
  obtain ⟨first?, hfirst, hstarts⟩ := hchildren
  rw [hfirst]
  exact hstarts

theorem Starts.exists_place {first? : Option Nat} {s : Stretch} (h : Starts G first? s) {n : Node}
    {ns : Conversation} (hr : s.rest = n :: ns) :
    ∃ k q, first? = some k ∧ G[k]? = some q ∧ q.stretch = s ∧ q.node = n ∧ q.following = ns := by
  cases first? with
  | none =>
    have hnil : s.rest = [] := h
    rw [hnil] at hr
    cases hr
  | some k =>
    obtain ⟨q, hk, rfl⟩ := h
    cases hr
    exact ⟨k, q, rfl, hk, rfl, rfl, rfl⟩

theorem Starts.eq_none {first? : Option Nat} {s : Stretch} (h : Starts G first? s) (hr : s.rest = []) :
    first? = none := by
  cases first? with
  | none => rfl
  | some k =>
    obtain ⟨q, _, rfl⟩ := h
    cases hr

theorem firstState_eq (ht : t.Tabulates G) {fuel : Nat} {label stem : String} {frames : List Frame}
    {i : Nat} {c : Conversation} {first? : Option Nat} (h : Starts G first? ⟨stem, frames, i, c⟩)
    (hfuel : (Conversation.preorder c).length ≤ fuel) :
    firstState fault t fuel label first? = Conversation.entryState label stem i c := by
  induction fuel generalizing label stem frames i c first? with
  | zero =>
    cases c with
    | nil =>
      rw [h.eq_none rfl]
      rfl
    | cons n ns =>
      have := n.length_preorder_pos
      rw [Conversation.preorder, List.length_append] at hfuel
      omega
  | succ fuel ih =>
    cases c with
    | nil =>
      rw [h.eq_none rfl]
      rfl
    | cons n ns =>
      obtain ⟨k, q, rfl, hk, hq, rfl, rfl⟩ := h.exists_place rfl
      cases hq
      obtain ⟨s, hs, hfit⟩ := ht.fits k q hk
      have hnode : s.node = q.node := hfit.node
      have hstate : s.state = q.state := hfit.state
      rw [Conversation.preorder, List.length_append] at hfuel
      rw [firstState, slotAt_eq fault hs, pure_bind, hnode, hstate]
      cases hn : q.node with
      | call name roles =>
        have := q.node.length_preorder_pos
        have hrest : firstState fault t fuel label s.next? =
            Conversation.entryState label q.stem (q.position + 1) q.following :=
          ih hfit.next (by omega)
        exact hrest
      | loop id inner body =>
        rw [hn, Node.preorder, List.length_cons] at hfuel
        exact ih (hfit.starts_body hn) (by omega)
      | jump => rfl
      | message => rfl
      | choice => rfl
      | par => rfl

theorem follow_succ {k : Nat} {s : Slot} (h : t.slots[k]? = some s) (fuel : Nat) :
    follow fault t (fuel + 1) k = branchEntry fault t fuel s.next? s.owner := by
  rw [follow, slotAt_eq fault h, pure_bind]
  cases s.next? <;> rfl

/-- Each branch is entered by walking as it is by its conversation; the indices count from `i` on. -/
inductive Entered (fault : LayoutError) (t : SlotTable) (owner : Owner) (state tag : String)
    (frames : List Frame) : Nat → List (Option Nat) → List Conversation → Prop where
  | nil {i : Nat} : Entered fault t owner state tag frames i [] []
  | cons {i : Nat} {first? : Option Nat} {b : Conversation} {firsts : List (Option Nat)}
      {bs : List Conversation} :
      branchEntry fault t t.slots.length first? owner =
        Target.enter (branchStem state tag i) frames 1 b →
      Entered fault t owner state tag frames (i + 1) firsts bs →
      Entered fault t owner state tag frames i (first? :: firsts) (b :: bs)

theorem entered_of_getElem? {owner : Owner} {state tag : String} {frames : List Frame} {i : Nat}
    {firsts : List (Option Nat)} {bs : List Conversation} (hlength : firsts.length = bs.length)
    (h : ∀ j b first?, bs[j]? = some b → firsts[j]? = some first? →
      branchEntry fault t t.slots.length first? owner =
        Target.enter (branchStem state tag (i + j)) frames 1 b) :
    Entered fault t owner state tag frames i firsts bs := by
  induction bs generalizing i firsts with
  | nil =>
    rw [List.eq_nil_of_length_eq_zero hlength]
    exact .nil
  | cons b bs ih =>
    cases firsts with
    | nil => cases hlength
    | cons first? firsts =>
      refine .cons (h 0 b first? rfl rfl) (ih (Nat.succ.inj hlength) ?_)
      intro j b' first'? hb hfirst
      rw [Nat.add_assoc, Nat.add_comm 1 j]
      exact h (j + 1) b' first'? hb hfirst

theorem findSome?_slots (l : LocalProtocol) (id : NodeId) (slots : List Slot) :
    (slots.findSome? fun s =>
      match s.node with
      | .message m => if m.id == id then some ⟨m.id, m.name, m.sender, l.directionOf m⟩ else none
      | _ => none) =
    (((slots.map Slot.node).filterMap Node.message?).find? (·.id == id)).map
      fun m => (⟨m.id, m.name, m.sender, l.directionOf m⟩ : Signal) := by
  induction slots with
  | nil => rfl
  | cons s slots ih =>
    rw [List.findSome?_cons, List.map_cons, List.filterMap_cons, ih]
    cases s.node with
    | message m =>
      simp only [Node.message?, List.find?_cons]
      cases m.id == id <;> rfl
    | _ => rfl

section Projected

variable {l : LocalProtocol} (ht : t.Tabulates l.places)

include ht

theorem weight_le_length {s : Stretch} (h : l.Has s) : s.weight ≤ t.slots.length := by
  have hnodes := congrArg List.length
    (Conversation.map_node_places l.protagonist [] none 1 l.conversation)
  rw [List.length_map] at hnodes
  rw [ht.length]
  exact hnodes ▸ h.weight_le

section Places

variable {k : Nat} {q : Place} (hq : l.places[k]? = some q)

include hq

theorem loopEntry_eq {id : NodeId} {label : String} {body : Conversation}
    (hn : q.node = .loop id label body) :
    loopEntry fault t k = (q.stretch.loop id label body).entry := by
  obtain ⟨s, hs, hfit⟩ := ht.fits k q hq
  have hnode : s.node = q.node := hfit.node
  have hbody : (q.stretch.inLoop id label body).weight ≤ t.slots.length :=
    weight_le_length ht (.body (l.has_of_mem_places (List.mem_of_getElem? hq)) (by rw [← hn]; rfl))
  rw [loopEntry, slotAt_eq fault hs, pure_bind, hnode, hn]
  exact firstState_eq fault ht (hfit.starts_body hn) (Nat.le_trans (Nat.le_add_right ..) hbody)

theorem entry_eq_of_not_passed (hn : ¬ q.node.Passed) (fuel : Nat) :
    entry fault t fuel k = q.stretch.target := by
  obtain ⟨s, hs, hfit⟩ := ht.fits k q hq
  have hnode : s.node = q.node := hfit.node
  have hstate : s.state = q.state := hfit.state
  have hid : ∀ id, q.node.id? = some id → idAt fault t k = pure id := fun _ => idAt_eq fault ht hq
  rw [entry, slotAt_eq fault hs, pure_bind, hnode, hstate]
  cases hnq : q.node with
  | message m =>
    have hr : q.stretch.rest = .message m :: q.following := q.rest_stretch hnq
    rw [Stretch.target_message hr, hid m.id (congrArg Node.id? hnq)]
    rfl
  | choice id chooser bs =>
    have hr : q.stretch.rest = .choice id chooser bs :: q.following := q.rest_stretch hnq
    rw [Stretch.target_choice hr, hid id (congrArg Node.id? hnq)]
    rfl
  | par id bs =>
    have hr : q.stretch.rest = .par id bs :: q.following := q.rest_stretch hnq
    rw [Stretch.target_par hr, hid id (congrArg Node.id? hnq)]
    rfl
  | loop => exact absurd (hnq ▸ trivial) hn
  | jump => exact absurd (hnq ▸ trivial) hn
  | call => exact absurd (hnq ▸ trivial) hn

theorem entry_eq_of_loop {id : NodeId} {label : String} {body : Conversation}
    (hn : q.node = .loop id label body) (fuel : Nat) : entry fault t fuel k = q.stretch.target := by
  obtain ⟨s, hs, hfit⟩ := ht.fits k q hq
  have hnode : s.node = q.node := hfit.node
  have hr : q.stretch.rest = .loop id label body :: q.following := q.rest_stretch hn
  rw [Stretch.target_loop_eq_bind hr, ← loopEntry_eq fault ht hq hn, entry, slotAt_eq fault hs,
    pure_bind, hnode, hn]
  show (idAt fault t k >>= _) = _
  rw [idAt_eq fault ht hq (congrArg Node.id? hn), pure_bind]
  rfl

/-- The slot that a jump goes back to was found when the table was built. -/
theorem entry_eq_of_jump {id : NodeId} {label : String} (hn : q.node = .jump id label) (fuel : Nat) :
    entry fault t fuel k = q.stretch.target := by
  obtain ⟨s, hs, hfit⟩ := ht.fits k q hq
  have hnode : s.node = q.node := hfit.node
  obtain ⟨j, inner, hj, htarget, q', hq', hloop, hinner⟩ := hfit.loop id label hn
  have hr : q.stretch.rest = .jump id label :: q.following := q.rest_stretch hn
  have hentry := loopEntry_eq fault ht hq' hloop
  rw [← hinner] at hentry
  rw [Stretch.target_jump_eq_bind hr htarget, ← hentry, entry, slotAt_eq fault hs, pure_bind, hnode, hn,
    show t.loops k = some j from hj]
  show (idAt fault t j >>= _) = _
  rw [idAt_eq fault ht hq' (congrArg Node.id? hloop), pure_bind]
  rfl

theorem entry_eq_of_call {name : String} {roles : List String} (hn : q.node = .call name roles)
    (fuel : Nat) : entry fault t fuel k = follow fault t fuel k := by
  obtain ⟨s, hs, hfit⟩ := ht.fits k q hq
  have hnode : s.node = q.node := hfit.node
  rw [entry, slotAt_eq fault hs, pure_bind, hnode, hn]

end Places

/-- Walking on from where a stretch starts leads to the target of the stretch. -/
theorem branchEntry_eq {s : Stretch} (h : l.Has s) {fuel : Nat} {first? : Option Nat} {owner : Owner}
    (hfuel : s.weight ≤ fuel) (hstarts : Starts l.places first? s)
    (howns : Owns l.places owner s.frames) : branchEntry fault t fuel first? owner = s.target := by
  induction h using LocalProtocol.Has.walk generalizing fuel first? owner with
  | step h hr hn =>
    obtain ⟨k, q, rfl, hk, rfl, rfl, -⟩ := hstarts.exists_place hr
    exact entry_eq_of_not_passed fault ht hk hn fuel
  | enter h hr =>
    obtain ⟨k, q, rfl, hk, rfl, hn, -⟩ := hstarts.exists_place hr
    exact entry_eq_of_loop fault ht hk hn fuel
  | jump h hr =>
    obtain ⟨k, q, rfl, hk, rfl, hn, -⟩ := hstarts.exists_place hr
    exact entry_eq_of_jump fault ht hk hn fuel
  | call h hr ih =>
    -- the call is one step, and what is behind it weighs one less
    obtain ⟨k, q, rfl, hk, rfl, hn, rfl⟩ := hstarts.exists_place hr
    obtain ⟨s, hs, hfit⟩ := ht.fits k q hk
    have hlt := Stretch.weight_pass_lt hr
    obtain ⟨fuel, rfl⟩ : ∃ n, fuel = n + 1 := ⟨fuel - 1, by omega⟩
    rw [Stretch.target_call hr, ← ih (Nat.le_of_lt_succ (Nat.lt_of_lt_of_le hlt hfuel)) hfit.next
      hfit.owner, ← follow_succ fault hs]
    exact entry_eq_of_call fault ht hk hn _
  | root h hr hf =>
    rw [hf] at howns
    rw [hstarts.eq_none hr, Stretch.target_root hr hf]
    cases howns
    show exit fault t fuel .root = _
    rw [exit]
  | par h hr hf =>
    rw [hf] at howns
    rw [hstarts.eq_none hr, Stretch.target_par_end hr hf]
    cases howns with
    | par hk hn =>
      obtain ⟨s, hs, hfit⟩ := ht.fits _ _ hk
      have hstate : s.state = Place.state _ := hfit.state
      show exit fault t fuel (.par _) = _
      rw [exit, idAt_eq fault ht hk (congrArg Node.id? hn), pure_bind, slotAt_eq fault hs, pure_bind,
        hstate]
      rfl
  | choice h hr hf ih =>
    have hlt := Stretch.weight_behind_choice_lt hf
    rw [hf] at howns
    rw [hstarts.eq_none hr, Stretch.target_choice_end hr hf]
    cases howns with
    | choice hk hn =>
      obtain ⟨s, hs, hfit⟩ := ht.fits _ _ hk
      obtain ⟨fuel, rfl⟩ : ∃ n, fuel = n + 1 := ⟨fuel - 1, by omega⟩
      rw [← ih (Nat.le_of_lt_succ (Nat.lt_of_lt_of_le hlt hfuel)) hfit.next hfit.owner,
        ← follow_succ fault hs]
      show exit fault t _ (.choice _) = _
      rw [exit]
  | loop h hr hf _ =>
    rw [hf] at howns
    rw [hstarts.eq_none hr, Stretch.target_loop_end hr hf]
    cases howns with
    | loop hk hn =>
      obtain ⟨s, hs, hfit⟩ := ht.fits _ _ hk
      have hnode : s.node = Place.node _ := hfit.node
      show exit fault t fuel (.loop _) = _
      rw [exit, slotAt_eq fault hs, pure_bind, hnode, hn]
      rfl

theorem follow_eq {k : Nat} {q : Place} (hq : l.places[k]? = some q) :
    follow fault t t.slots.length k = q.next := by
  obtain ⟨s, hs, hfit⟩ := ht.fits k q hq
  have hhas : l.Has q.stretch := l.has_of_mem_places (List.mem_of_getElem? hq)
  have hlt : (q.stretch.pass q.following).weight < q.stretch.weight := Stretch.weight_pass_lt rfl
  have hle := weight_le_length ht hhas
  obtain ⟨fuel, hfuel⟩ : ∃ n, t.slots.length = n + 1 := ⟨t.slots.length - 1, by omega⟩
  rw [hfuel, follow_succ fault hs]
  exact branchEntry_eq fault ht (hhas.pass rfl) (by omega) hfit.next hfit.owner

theorem map_node_slots : t.slots.map Slot.node = Conversation.preorder l.conversation := by
  have hnodes : t.slots.map Slot.node = l.places.map Place.node := by
    apply List.ext_getElem?
    intro k
    rw [List.getElem?_map, List.getElem?_map]
    cases hq : l.places[k]? with
    | none =>
      rw [List.getElem?_eq_none_iff] at hq
      rw [List.getElem?_eq_none_iff.mpr (ht.length ▸ hq)]
      rfl
    | some q =>
      obtain ⟨s, hs, hfit⟩ := ht.fits k q hq
      rw [hs]
      exact congrArg some hfit.node
  rw [hnodes]
  exact Conversation.map_node_places ..

theorem signal?_eq : t.signal? l = l.signal? l.messages := by
  funext target
  cases target with
  | step id kind state =>
    cases kind with
    | message =>
      show t.slots.findSome? _ = (l.messages.find? _).map _
      rw [LocalProtocol.messages, ← map_node_slots ht]
      exact findSome?_slots l id t.slots
    | choice => rfl
    | par => rfl
    | loop => rfl
    | jump => rfl
    | call => rfl
  | back => rfl
  | loopEnd => rfl
  | join => rfl
  | finish => rfl

/-- Branches that start where they should are all entered as their conversations are. -/
theorem entered_of_starts {owner : Owner} {state tag : String} {frames : List Frame}
    {firsts : List (Option Nat)} {bs : List Conversation} (hlength : firsts.length = bs.length)
    (hhas : ∀ j b, bs[j]? = some b → l.Has ⟨branchStem state tag (j + 1), frames, 1, b⟩)
    (hstarts : ∀ j b first?, bs[j]? = some b → firsts[j]? = some first? →
      Starts l.places first? ⟨branchStem state tag (j + 1), frames, 1, b⟩)
    (howns : Owns l.places owner frames) : Entered fault t owner state tag frames 1 firsts bs := by
  refine entered_of_getElem? fault hlength ?_
  intro j b first? hb hfirst
  have hbranch := hhas j b hb
  rw [Nat.add_comm 1 j]
  exact branchEntry_eq fault ht hbranch (weight_le_length ht hbranch) (hstarts j b first? hb hfirst)
    howns

theorem choiceBranches_eq {q : Place} {owner : Owner} {i : Nat} {firsts : List (Option Nat)}
    {bs : List Conversation} (h : Entered fault t owner q.state choiceTag
      (.choice q.stem q.position q.following :: q.frames) i firsts bs) :
    choiceBranches fault t l owner i firsts = q.choiceEntries i bs >>= fun entries =>
      .ok (entries.map fun (index, entry) => ⟨index, entry, l.signal? l.messages entry⟩) := by
  induction h with
  | nil => rfl
  | @cons i first? b firsts bs hfirst _ ih =>
    rw [choiceBranches, hfirst, ih, signal?_eq ht, Place.choiceEntries, bind_assoc]
    refine bind_congr fun entry => ?_
    cases q.choiceEntries (i + 1) bs <;> rfl

omit ht in
theorem mapM_branchEntry_eq {q : Place} {id : NodeId} {owner : Owner} {i : Nat}
    {firsts : List (Option Nat)} {bs : List Conversation}
    (h : Entered fault t owner q.state parTag (.par id q.state :: q.frames) i firsts bs) :
    firsts.mapM (branchEntry fault t t.slots.length · owner) = q.parBranches id i bs := by
  induction h with
  | nil => rfl
  | cons hfirst _ ih => rw [List.mapM_cons, hfirst, ih, Place.parBranches]

theorem record_eq {k : Nat} {q : Place} (hq : l.places[k]? = some q) {s : Slot}
    (hs : t.slots[k]? = some s) : record fault t l k s = l.record l.messages q := by
  obtain ⟨s', hs', hfit⟩ := ht.fits k q hq
  cases hs.symm.trans hs'
  have hhas : l.Has q.stretch := l.has_of_mem_places (List.mem_of_getElem? hq)
  have hnode : s.node = q.node := hfit.node
  have hstate : s.state = q.state := hfit.state
  have hposition : s.position = q.position := hfit.position
  have hchildren : Opens l.places q s.children := hfit.children
  rw [record, LocalProtocol.record, hnode, hstate, hposition, follow_eq fault ht hq]
  cases hn : q.node with
  | message m => rfl
  | call name roles => rfl
  | loop id label body =>
    dsimp only
    rw [loopEntry_eq fault ht hq hn]
    rfl
  | jump id label =>
    have htarget : q.stretch.target = Target.ofNode q.stem q.position q.frames (.jump id label) := by
      rw [Stretch.target, Place.stretch, hn]
      rfl
    rw [entry_eq_of_jump fault ht hq hn, htarget]
  | choice id chooser bs =>
    have hr : q.stretch.rest = .choice id chooser bs :: q.following := q.rest_stretch hn
    rw [Opens, hn] at hchildren
    obtain ⟨firsts, hfirsts, hlength, hstarts⟩ := hchildren
    have hentered := entered_of_starts fault ht hlength (fun _ _ hb => hhas.choice hr hb) hstarts
      (.choice hq hn)
    dsimp only
    rw [hfirsts, Children.firsts, choiceBranches_eq fault ht hentered, bind_assoc]
    rfl
  | par id bs =>
    have hr : q.stretch.rest = .par id bs :: q.following := q.rest_stretch hn
    rw [Opens, hn] at hchildren
    obtain ⟨firsts, hfirsts, hlength, hstarts⟩ := hchildren
    have hentered := entered_of_starts fault ht hlength (fun _ _ hb => hhas.par hr hb) hstarts
      (.par hq hn)
    dsimp only
    rw [hfirsts, Children.firsts, mapM_branchEntry_eq fault hentered]

omit ht in
theorem recordsFrom_eq {k : Nat} {ss : List Slot} {qs : List Place} (hlength : ss.length = qs.length)
    (h : ∀ j s q, ss[j]? = some s → qs[j]? = some q →
      record fault t l (k + j) s = l.record l.messages q) :
    recordsFrom fault t l k ss = qs.mapM (l.record l.messages) := by
  induction qs generalizing k ss with
  | nil =>
    rw [List.eq_nil_of_length_eq_zero hlength]
    rfl
  | cons q qs ih =>
    cases ss with
    | nil => cases hlength
    | cons s ss =>
      have hrest : recordsFrom fault t l (k + 1) ss = qs.mapM (l.record l.messages) := by
        refine ih (Nat.succ.inj hlength) ?_
        intro j s' q' hs hq
        rw [Nat.add_assoc, Nat.add_comm 1 j]
        exact h (j + 1) s' q' hs hq
      have hfirst : record fault t l k s = l.record l.messages q := h 0 s q rfl rfl
      rw [recordsFrom, hfirst, hrest, List.mapM_cons]

end Projected

end Walks

end SlotTable

namespace LocalProtocol

theorem project_eq_bind (moduleName? : Option String) (types : List TypeImport) (l : LocalProtocol) :
    l.project moduleName? types = Place.checkAll [] l.places >>= fun _ =>
      l.whole.target >>= fun start => l.places.mapM (l.record l.messages) >>= fun records =>
        .ok (l.assemble moduleName? types start records) :=
  rfl

/-- The projection by way of the table is the projection from the places. No walk over the table comes
to a fault, and none takes more steps than there are slots. -/
theorem projectSlots_eq (fault : LayoutError) (moduleName? : Option String) (types : List TypeImport)
    (l : LocalProtocol) : l.projectSlots fault moduleName? types = l.project moduleName? types := by
  rw [projectSlots, SlotTable.build_eq, project_eq_bind]
  cases hcheck : Place.checkAll [] l.places with
  | error e => rfl
  | ok _ =>
    have ht := SlotTable.tabulates_ofCells (SlotTable.fits_cells hcheck) (Place.seenAfter [] l.places)
    have hsits : SlotTable.Sits l.places 0 l.places := fun j q hq => by rwa [Nat.zero_add]
    have hstart := SlotTable.branchEntry_eq fault ht .whole (SlotTable.weight_le_length ht .whole)
      hsits.starts .root
    have hrecords := SlotTable.recordsFrom_eq fault ht.length fun j s q hs hq => by
      rw [Nat.zero_add]
      exact SlotTable.record_eq fault ht hq hs
    show (SlotTable.branchEntry fault _ _ _ .root >>= fun start =>
      SlotTable.recordsFrom fault _ l 0 _ >>= fun records =>
        pure (l.assemble moduleName? types start records)) = _
    rw [hstart, hrecords]
    rfl

end LocalProtocol

end Parley
