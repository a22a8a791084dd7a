import Parley.Layout

/-! Targets: where a session stands once a step is done. The way on is found outwards: the next step
of the same conversation, or, at its end, whatever the innermost frame says. -/

namespace Parley

inductive Target where
  /-- A step; for a loop, `state` is the one in which it is entered. -/
  | step (id : NodeId) (kind : StepKind) (state : String)
  /-- The start of an enclosing loop. -/
  | back (loop : NodeId) (label state : String)
  /-- The end of a loop that is not gone round again. -/
  | loopEnd (loop : NodeId) (label : String)
  /-- The end of a parallel branch. -/
  | join (par : NodeId) (state : String)
  | finish
deriving DecidableEq

namespace Target

/-- The state a target names. -/
def state? : Target → Option String
  | .step _ _ state => some state
  | .back _ _ state => some state
  | .join _ state => some state
  | .loopEnd .. => none
  | .finish => none

/-- The target of arriving at a step that is not a call. -/
def ofNode (stem : String) (position : Nat) (frames : List Frame) (n : Node) :
    Except LayoutError Target :=
  match n with
  | .message m => .ok (.step m.id .message (stateName stem position))
  | .choice id .. => .ok (.step id .choice (stateName stem position))
  | .par id _ => .ok (.step id .par (stateName stem position))
  | .loop id label body => do
    let state ← Loop.entry ⟨id, label, bodyStem (stateName stem position) label, body⟩
    return .step id .loop state
  | .jump _ label => do
    let loop ← Frame.target label frames
    return .back loop.id label (← loop.entry)
  | .call .. => .ok .finish

/-- The first step that is not a call, and its position. -/
def firstStep? (position : Nat) : List Node → Option (Nat × Node)
  | [] => none
  | .call .. :: ns => firstStep? (position + 1) ns
  | n :: _ => some (position, n)

/-- The target of running off the end of a conversation inside the given frames. -/
def leave : List Frame → Except LayoutError Target
  | [] => .ok .finish
  | .loop l :: _ => .ok (.loopEnd l.id l.label)
  | .par id state :: _ => .ok (.join id (joinState state))
  | .choice stem position following :: outer =>
    match firstStep? (position + 1) following with
    | some (position, n) => ofNode stem position outer n
    | none => leave outer

/-- The target of entering a conversation at `position`. -/
def enter (stem : String) (frames : List Frame) (position : Nat) (c : Conversation) :
    Except LayoutError Target :=
  match firstStep? position c with
  | some (position, n) => ofNode stem position frames n
  | none => leave frames

end Target

/-- The target once the step at a place is done. -/
def Place.next (p : Place) : Except LayoutError Target :=
  Target.enter p.stem p.frames (p.position + 1) p.following

end Parley
