import Parley.Target

/-! Projections: the steps of a local protocol as flat lists of records, each with its state and with
the targets it leads to. -/

namespace Parley

inductive Direction where
  | send
  | receive
deriving DecidableEq

inductive ChoiceRole where
  | chooser
  | observer
deriving DecidableEq

structure MessageRecord where
  message : Message
  direction : Direction
  position : Nat
  state : String
  next : Target
  /-- The choice that the message decides, if it opens one of the branches. -/
  choiceSignal? : Option NodeId
deriving DecidableEq

/-- The role at the other end. -/
def MessageRecord.peer (r : MessageRecord) : String :=
  match r.direction with
  | .send => r.message.receiver
  | .receive => r.message.sender

/-- The message that tells the others which branch was taken. -/
structure Signal where
  id : NodeId
  label : String
  sender : String
  direction : Direction
deriving DecidableEq

structure ChoiceBranch where
  index : Nat
  entry : Target
  signal? : Option Signal
deriving DecidableEq

structure ChoiceRecord where
  id : NodeId
  position : Nat
  state : String
  chooser : String
  role : ChoiceRole
  branches : List ChoiceBranch
  next : Target
deriving DecidableEq

structure ParRecord where
  id : NodeId
  position : Nat
  state : String
  branches : List Target
  join : String
  next : Target
deriving DecidableEq

structure LoopRecord where
  id : NodeId
  label : String
  position : Nat
  /-- How all states of the body start. -/
  stem : String
  /-- The state in which the body is entered. -/
  state : String
  next : Target
deriving DecidableEq

structure JumpRecord where
  id : NodeId
  label : String
  position : Nat
  state : String
  target : Target
deriving DecidableEq

structure CallRecord where
  name : String
  roles : List String
  position : Nat
  state : String
  next : Target
deriving DecidableEq

/-- The record of one step. -/
inductive Record where
  | message (record : MessageRecord)
  | choice (record : ChoiceRecord)
  | par (record : ParRecord)
  | loop (record : LoopRecord)
  | jump (record : JumpRecord)
  | call (record : CallRecord)

namespace Record

def message? : Record → Option MessageRecord
  | .message r => some r
  | _ => none

def choice? : Record → Option ChoiceRecord
  | .choice r => some r
  | _ => none

def par? : Record → Option ParRecord
  | .par r => some r
  | _ => none

def loop? : Record → Option LoopRecord
  | .loop r => some r
  | _ => none

def jump? : Record → Option JumpRecord
  | .jump r => some r
  | _ => none

def call? : Record → Option CallRecord
  | .call r => some r
  | _ => none

end Record

structure Projection where
  moduleName? : Option String
  localName : String
  protagonist : String
  roles : List String
  types : List TypeImport
  start : Target
  messages : List MessageRecord
  choices : List ChoiceRecord
  pars : List ParRecord
  loops : List LoopRecord
  jumps : List JumpRecord
  calls : List CallRecord

namespace Projection

def message? (p : Projection) (id : NodeId) : Option MessageRecord :=
  p.messages.find? (·.message.id == id)

def loop? (p : Projection) (id : NodeId) : Option LoopRecord := p.loops.find? (·.id == id)

def par? (p : Projection) (id : NodeId) : Option ParRecord := p.pars.find? (·.id == id)

end Projection

namespace LocalProtocol

def directionOf (l : LocalProtocol) (m : Message) : Direction :=
  if m.sender == l.protagonist then .send else .receive

def messages (l : LocalProtocol) : List Message :=
  (Conversation.preorder l.conversation).filterMap Node.message?

/-- The signal of a branch that is entered at a target: the message there, if it is one. -/
def signal? (l : LocalProtocol) (messages : List Message) : Target → Option Signal
  | .step id .message _ =>
    (messages.find? (·.id == id)).map fun m => ⟨m.id, m.name, m.sender, l.directionOf m⟩
  | _ => none

end LocalProtocol

/-- The entries of the branches of the choice at a place, from the given index on. -/
def Place.choiceEntries (p : Place) (index : Nat) :
    List Conversation → Except LayoutError (List (Nat × Target))
  | [] => .ok []
  | b :: bs => do
    let entry ← Target.enter (branchStem p.state choiceTag index)
      (.choice p.stem p.position p.following :: p.frames) 1 b
    return (index, entry) :: (← p.choiceEntries (index + 1) bs)

/-- The entries of the branches of the parallel step at a place, from the given index on. -/
def Place.parBranches (p : Place) (id : NodeId) (index : Nat) :
    List Conversation → Except LayoutError (List Target)
  | [] => .ok []
  | b :: bs => do
    let entry ← Target.enter (branchStem p.state parTag index) (.par id p.state :: p.frames) 1 b
    return entry :: (← p.parBranches id (index + 1) bs)

namespace LocalProtocol

/-- The record of the step at a place; `messages` are all those of the local protocol. -/
def record (l : LocalProtocol) (messages : List Message) (p : Place) :
    Except LayoutError Record :=
  match p.node with
  | .message m => do
    return .message {
      message := m
      direction := l.directionOf m
      position := p.position
      state := p.state
      next := ← p.next
      choiceSignal? := none }
  | .choice id chooser branches => do
    let entries ← p.choiceEntries 1 branches
    return .choice {
      id, chooser
      branches := entries.map fun (index, entry) => ⟨index, entry, l.signal? messages entry⟩
      position := p.position
      state := p.state
      role := if chooser == l.protagonist then .chooser else .observer
      next := ← p.next }
  | .par id branches => do
    let branches ← p.parBranches id 1 branches
    return .par {
      id, branches
      position := p.position
      state := p.state
      join := joinState p.state
      next := ← p.next }
  | .loop id label body => do
    let stem := bodyStem p.state label
    let state ← Loop.entry ⟨id, label, stem, body⟩
    return .loop { id, label, stem, state, position := p.position, next := ← p.next }
  | .jump id label => do
    let target ← Target.ofNode p.stem p.position p.frames p.node
    return .jump { id, label, target, position := p.position, state := p.state }
  | .call name roles => do
    return .call { name, roles, position := p.position, state := p.state, next := ← p.next }

/-- The messages that signal a branch, each with the choice it decides. -/
def signals (choices : List ChoiceRecord) : List (NodeId × NodeId) :=
  choices.flatMap fun c => c.branches.filterMap fun b => b.signal?.map fun s => (s.id, c.id)

/-- Marks a message with the last choice that it signals. -/
def markSignal (signals : List (NodeId × NodeId)) (r : MessageRecord) : MessageRecord :=
  { r with choiceSignal? := (signals.findRev? (·.1 == r.message.id)).map (·.2) }

/-- Lays a local protocol out: checks every place first, then finds the start and records each step. -/
def project (moduleName? : Option String) (types : List TypeImport) (l : LocalProtocol) :
    Except LayoutError Projection := do
  Place.checkAll [] l.places
  let start ← Target.enter l.protagonist [] 1 l.conversation
  let records ← l.places.mapM (l.record l.messages)
  let choices := records.filterMap Record.choice?
  return {
    moduleName?, types, start, choices
    localName := l.name
    protagonist := l.protagonist
    roles := l.roles
    messages := (records.filterMap Record.message?).map (markSignal (signals choices))
    pars := records.filterMap Record.par?
    loops := records.filterMap Record.loop?
    jumps := records.filterMap Record.jump?
    calls := records.filterMap Record.call? }

end LocalProtocol

def Protocol.project (p : Protocol) : Except LayoutError (List Projection) :=
  p.locals.mapM (LocalProtocol.project p.moduleName? p.types)

end Parley
