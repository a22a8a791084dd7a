import Parley.Place
import Parley.Protocol
import Parley.Text.Quoted

/-! Layout: which conversations have a well-defined way on from every step. -/

namespace Parley

inductive LayoutError where
  /-- A step stands behind a jump. -/
  | unreachable (step label stem : String)
  | idTwice (id : NodeId)
  | emptyLoop (label : String)
  | noBranches (kind : StepKind) (state : String)
  /-- A jump names a loop that lies outside the parallel branch it stands in. -/
  | leavesPar (label : String)
  | unboundJump (label : String)
  /-- A loop comes back to its start without a message, choice or parallel step. -/
  | silentLoop (label : String)
deriving DecidableEq

namespace LayoutError

open Text in
def text : LayoutError → String
  | .unreachable step label stem =>
    "Step " ++ quote step ++ " after continue " ++ quote label ++ " in " ++ quote stem
      ++ " is unreachable"
  | .idTwice id => "The identifier " ++ quote id.text ++ " is used twice"
  | .emptyLoop label => "The body of rec " ++ quote label ++ " is empty"
  | .noBranches kind state => "The " ++ kind.text ++ " at " ++ quote state ++ " has no branches"
  | .leavesPar label => "continue " ++ quote label ++ " cannot leave a par branch"
  | .unboundJump label => "continue " ++ quote label ++ " does not name an enclosing rec"
  | .silentLoop label => "rec " ++ quote label ++ " loops without an observable step"

/-- Whether a name leads nowhere or to two things, rather than the conversation being ill-shaped. -/
def isLinkage : LayoutError → Bool
  | .idTwice _ => true
  | .unboundJump _ => true
  | _ => false

end LayoutError

namespace Frame

def isLoop (label : String) : Frame → Bool
  | .loop l => l.label == label
  | _ => false

/-- The innermost loop with a label, to which a jump inside these frames goes. -/
def target (label : String) : List Frame → Except LayoutError Loop
  | [] => .error (.unboundJump label)
  | .loop l :: outer => if l.label == label then .ok l else target label outer
  | .choice .. :: outer => target label outer
  | .par .. :: outer =>
    .error (if outer.any (isLoop label) then .leavesPar label else .unboundJump label)

end Frame

namespace Place

def checkReached (p : Place) : Except LayoutError Unit :=
  match p.before? with
  | some (.jump _ label) => .error (.unreachable p.node.title label p.stem)
  | _ => .ok ()

/-- Checks a step by itself; the steps inside it are checked on their own. -/
def checkNode (p : Place) : Except LayoutError Unit :=
  match p.node with
  | .loop _ label [] => .error (.emptyLoop label)
  | .choice _ _ [] => .error (.noBranches .choice p.state)
  | .par _ [] => .error (.noBranches .par p.state)
  | .jump _ label => (fun _ => ()) <$> Frame.target label p.frames
  | _ => .ok ()

/-- Checks places in order; `seen` holds the identifiers of those before. -/
def checkAll (seen : List NodeId) : List Place → Except LayoutError Unit
  | [] => .ok ()
  | p :: ps => do
    p.checkReached
    match p.node.id? with
    | some id =>
      if seen.contains id then throw (.idTwice id)
      p.checkNode
      checkAll (id :: seen) ps
    | none =>
      p.checkNode
      checkAll seen ps

end Place

mutual

/-- The state in which a loop labelled `label` is entered if its body begins with the given step. -/
def Node.entryState (label stem : String) (position : Nat) : Node → Except LayoutError String
  | .loop _ inner body =>
    Conversation.entryState inner (bodyStem (stateName stem position) inner) 1 body
  | .jump .. => .error (.silentLoop label)
  | .call .. => .error (.silentLoop label)
  | .message _ => .ok (stateName stem position)
  | .choice .. => .ok (stateName stem position)
  | .par .. => .ok (stateName stem position)

/-- The state in which a loop labelled `label` is entered: that of the first step in its body that
can be observed. A call is passed over, and a loop stands for its own entry. -/
def Conversation.entryState (label stem : String) (position : Nat) :
    List Node → Except LayoutError String
  | [] => .error (.silentLoop label)
  | .call .. :: ns => Conversation.entryState label stem (position + 1) ns
  | n :: _ => n.entryState label stem position

end

def Loop.entry (l : Loop) : Except LayoutError String :=
  Conversation.entryState l.label l.stem 1 l.body

/-- All places of a local protocol. Its states start with the name of the protagonist. -/
def LocalProtocol.places (l : LocalProtocol) : List Place :=
  Conversation.places l.protagonist [] none 1 l.conversation

end Parley
