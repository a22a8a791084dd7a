import Parley.Node

/-! Places: where each step of a conversation stands. A place knows the steps after it and what
encloses it, so that the way on from it can be read off, and it has a state name of its own. -/

namespace Parley

/-- The state of the step at `position` of the conversation whose states start with `stem`. -/
def stateName (stem : String) (position : Nat) : String := stem ++ "_" ++ toString position

/-- How the states in the body of a loop start. -/
def bodyStem (state label : String) : String := state ++ "_" ++ label

/-- How the states in a branch start; branches count from 1. -/
def branchStem (state tag : String) (index : Nat) : String := state ++ "_" ++ tag ++ toString index

def choiceTag : String := "Choice"

def parTag : String := "Par"

/-- The state in which the branches of a parallel step meet. -/
def joinState (state : String) : String := state ++ "_Join"

/-- A loop seen from inside. `stem` starts the states of its body. -/
structure Loop where
  id : NodeId
  label : String
  stem : String
  body : Conversation

/-- What directly encloses a conversation. A choice is given by where it stands: behind a branch the
conversation goes on with the steps that follow the choice. -/
inductive Frame where
  | loop (loop : Loop)
  | choice (stem : String) (position : Nat) (following : Conversation)
  | par (id : NodeId) (state : String)

/-- A step, its conversation (`stem`, `position` in it from 1, the neighbours), and what encloses
it, innermost first. -/
structure Place where
  node : Node
  stem : String
  position : Nat
  before? : Option Node
  following : Conversation
  frames : List Frame

def Place.state (p : Place) : String := stateName p.stem p.position

mutual

/-- The places of a conversation from `position` on, each before those inside it. -/
def Conversation.places (stem : String) (frames : List Frame) (before? : Option Node)
    (position : Nat) : List Node → List Place
  | [] => []
  | n :: ns =>
    ⟨n, stem, position, before?, ns, frames⟩ ::
      (n.placesWithin stem frames position ns
        ++ Conversation.places stem frames (some n) (position + 1) ns)

/-- The places inside a step. -/
def Node.placesWithin (stem : String) (frames : List Frame) (position : Nat)
    (following : Conversation) : Node → List Place
  | .loop id label body =>
    let inner := bodyStem (stateName stem position) label
    Conversation.places inner (.loop ⟨id, label, inner, body⟩ :: frames) none 1 body
  | .choice _ _ branches =>
    branchPlaces (stateName stem position) choiceTag (.choice stem position following :: frames) 1
      branches
  | .par id branches =>
    let state := stateName stem position
    branchPlaces state parTag (.par id state :: frames) 1 branches
  | .message _ => []
  | .call .. => []
  | .jump .. => []

def branchPlaces (state tag : String) (frames : List Frame) (index : Nat) :
    List (List Node) → List Place
  | [] => []
  | b :: bs =>
    Conversation.places (branchStem state tag index) frames none 1 b
      ++ branchPlaces state tag frames (index + 1) bs

end

end Parley
