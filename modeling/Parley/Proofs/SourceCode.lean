import Parley.Proofs.RoleCode

/-! The requests in a source. Those in the code of each role stand on lines of their own in the source
of the role and in that of all roles together; the latter also connects the roles, and asks for the
endpoint of each. -/

namespace Parley

open Outcome Text

namespace Api

/-! ### The code of a role -/

/-- Items of a role with the requests of its steps and no others, each of them on a line of the
source. -/
structure Coded (p : Projection) (items : List Paragraph) (source : String) : Prop where
  exact : items.flatten.flatMap requests = p.requests
  stands : ∀ request ∈ p.requests, ∃ line, Holds source line ∧ requests line = [request]

/-- What a role is given its endpoint by. -/
def endpointRequest (p : Projection) : Request := ⟨.endpoint, some p.protagonist⟩

section Connect

variable {ps : List Projection} (hps : ∀ p ∈ ps, p.Lettered)

include hps

end Connect

end Api

end Parley
