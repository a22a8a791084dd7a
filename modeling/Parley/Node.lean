/-! Conversations: trees of the steps that one role goes through. -/

namespace Parley

/-- Names one step among all steps of a local protocol. -/
structure NodeId where
  scope : String
  label : String
  seq : UInt32
deriving DecidableEq

/-- The number comes last, so two steps of one scope never share a text. -/
def NodeId.text (id : NodeId) : String :=
  id.scope ++ "_" ++ id.label ++ "_" ++ toString id.seq.toNat

/-- Hands out the identifiers of one local protocol, numbered from 0. -/
structure IdSource where
  scope : String
  issued : UInt32

namespace IdSource

def ofScope (scope : String) : IdSource := ⟨scope, 0⟩

def next (source : IdSource) (label : String) : NodeId × IdSource :=
  (⟨source.scope, label, source.issued⟩, { source with issued := source.issued + 1 })

/-- One identifier for each label, with the source left after it. -/
def issueAll (source : IdSource) : List String → List (NodeId × IdSource)
  | [] => []
  | label :: labels =>
    let step := source.next label
    step :: issueAll step.2 labels

end IdSource

inductive StepKind where
  | message
  | choice
  | par
  | loop
  | call
  | jump
deriving DecidableEq

/-- The keyword of the step in protocol text; a message has none and goes by its kind. -/
def StepKind.text : StepKind → String
  | .message => "message"
  | .choice => "choice"
  | .par => "par"
  | .loop => "rec"
  | .call => "do"
  | .jump => "continue"

/-- A message that one role sends to another. -/
structure Message where
  id : NodeId
  name : String
  sender : String
  receiver : String
  payloads : List String
deriving DecidableEq

/-- One step of a conversation. A `call` refers to a protocol elsewhere and is not looked into; a
`jump` goes back to the start of an enclosing `loop`. -/
inductive Node where
  | message (message : Message)
  | choice (id : NodeId) (chooser : String) (branches : List (List Node))
  | par (id : NodeId) (branches : List (List Node))
  | loop (id : NodeId) (label : String) (body : List Node)
  | call (name : String) (roles : List String)
  | jump (id : NodeId) (label : String)

abbrev Conversation := List Node

namespace Node

def id? : Node → Option NodeId
  | .message m => some m.id
  | .choice id .. => some id
  | .par id _ => some id
  | .loop id .. => some id
  | .call .. => none
  | .jump id _ => some id

def kind : Node → StepKind
  | .message _ => .message
  | .choice .. => .choice
  | .par .. => .par
  | .loop .. => .loop
  | .call .. => .call
  | .jump .. => .jump

/-- What a report calls the step: its name or label, or its kind. -/
def title : Node → String
  | .message m => m.name
  | .loop _ label _ => label
  | .jump _ label => label
  | .call name _ => name
  | n => n.kind.text

def message? : Node → Option Message
  | .message m => some m
  | _ => none

end Node

mutual

/-- A step and all steps inside it, each before those inside it. -/
def Node.preorder : Node → List Node
  | .choice id chooser branches => .choice id chooser branches :: branchesPreorder branches
  | .par id branches => .par id branches :: branchesPreorder branches
  | .loop id label body => .loop id label body :: Conversation.preorder body
  | .message m => [.message m]
  | .call name roles => [.call name roles]
  | .jump id label => [.jump id label]

/-- All steps of a conversation at any depth, in the order in which they are written. -/
def Conversation.preorder : List Node → List Node
  | [] => []
  | n :: ns => n.preorder ++ Conversation.preorder ns

def branchesPreorder : List (List Node) → List Node
  | [] => []
  | b :: bs => Conversation.preorder b ++ branchesPreorder bs

end

def NodeId.renumber (id : NodeId) (seq : UInt32) : NodeId := { id with seq }

mutual

/-- Numbers a step and the steps inside it in pre-order from `seq`, and says which number is next. -/
def Node.renumber (seq : UInt32) : Node → Node × UInt32
  | .message m => (.message { m with id := m.id.renumber seq }, seq + 1)
  | .choice id chooser branches =>
    let (branches, next) := renumberBranches (seq + 1) branches
    (.choice (id.renumber seq) chooser branches, next)
  | .par id branches =>
    let (branches, next) := renumberBranches (seq + 1) branches
    (.par (id.renumber seq) branches, next)
  | .loop id label body =>
    let (body, next) := Conversation.renumber (seq + 1) body
    (.loop (id.renumber seq) label body, next)
  | .call name roles => (.call name roles, seq)
  | .jump id label => (.jump (id.renumber seq) label, seq + 1)

def Conversation.renumber (seq : UInt32) : List Node → List Node × UInt32
  | [] => ([], seq)
  | n :: ns =>
    let (n, next) := n.renumber seq
    let (ns, next) := Conversation.renumber next ns
    (n :: ns, next)

def renumberBranches (seq : UInt32) : List (List Node) → List (List Node) × UInt32
  | [] => ([], seq)
  | b :: bs =>
    let (b, next) := Conversation.renumber seq b
    let (bs, next) := renumberBranches next bs
    (b :: bs, next)

end

end Parley
