import Parley.Api.Error
import Parley.Projection

/-! Landings: what a target comes to once the loops that end there are left. -/

namespace Parley

inductive Landing where
  | state (name : String)
  | join (par : NodeId)
  | finish
deriving DecidableEq

namespace Landing

/-- Follows loop ends until something else is reached. `loops` are the records to look a loop up in,
inner ones first: what follows a loop lies outside it, so each record is passed once. -/
def find : List LoopRecord → Target → Except ApiError Landing
  | _, .step _ _ name => .ok (.state name)
  | _, .back _ _ name => .ok (.state name)
  | _, .join par _ => .ok (.join par)
  | _, .finish => .ok .finish
  | [], .loopEnd _ label => .error (.noLoop label)
  | r :: outer, .loopEnd id label =>
    if r.id == id then find outer r.next else find outer (.loopEnd id label)

/-- The type of the landing in the generated source. -/
def typeName : Landing → String
  | .state name => name
  | .join _ => "BranchDone"
  | .finish => "Finished<Msg>"

/-- The expression that makes the landing from a session. -/
def value (session : String) : Landing → String
  | .state name => name ++ "(" ++ session ++ ")"
  | .join _ => session ++ ".complete_branch()?"
  | .finish => session ++ ".finish()?"

end Landing

def Projection.landing (p : Projection) (t : Target) : Except ApiError Landing :=
  Landing.find p.loops.reverse t

end Parley
