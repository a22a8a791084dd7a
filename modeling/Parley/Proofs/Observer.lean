import Parley.Proofs.Commutation
import Parley.Proofs.Signal
import Parley.Proofs.StateName

/-! How an observer resolves a choice. The code generated for it asks for the labels of all branches at
once, and the answer is the branch of the oldest message under one of them. This message stays the
oldest of the choice, whatever else is sent and received, until it is received itself. -/

namespace Parley

open Outcome

universe u

variable {μ : Type u}

namespace Selector

variable {labels : List String} {before after q : List (Envelope μ)} {e : Envelope μ}

end Selector

namespace Mesh

section Foremost

variable {m : Mesh μ} {chooser observer : String} {labels : List String}
  {before after q : List (Envelope μ)} {e : Envelope μ}

end Foremost

end Mesh

namespace Api

open Text

/-- A line without its indentation. -/
def unpadded (line : String) : String := String.ofList (line.toList.dropWhile (· == ' '))

/-- Some code from the head of its first match on, without indentation. -/
def fromMatch (code : Paragraph) : List String :=
  (code.map unpadded).dropWhile fun line => !beginsWith line "match "

/-- Whether a line is an arm of a match for a number, or one for all of them. -/
def isArm (i : Nat) (line : String) : Bool :=
  beginsWith line (toString i ++ " => ") || beginsWith line "_ => "

/-- The arm that a number takes is the first one for it. -/
def takenArm? (lines : List String) (i : Nat) : Option String := lines.find? (isArm i)

/-- The labels of the messages that the branches of a choice begin with. -/
def signalLabels (r : ChoiceRecord) : List String :=
  r.branches.filterMap fun b => b.signal?.map (·.label)

/-- The request that resolves a choice, as the head of a match. -/
def resolveHead (r : ChoiceRecord) : String :=
  "match session.wait_any(" ++ quote r.chooser ++ ", &[" ++ commaList ((signalLabels r).map quote)
    ++ "])? \x7b"

/-- The arm that goes on with a branch. -/
def resolveArm (r : ChoiceRecord) (i : Nat) (label : String) (next : Landing) : String :=
  toString i ++ " => Ok(" ++ branchType r ++ "::" ++ pascalCase label ++ "("
    ++ next.value "session" ++ ")),"

/-- The type that holds one variant for each branch, and the method that picks one of them by the place
of a label among the labels of the branches. -/
structure Resolves (p : Projection) (r : ChoiceRecord) (type method : Paragraph) : Prop where
  distinct : (signalLabels r).Nodup
  variants : ((signalLabels r).map pascalCase).Nodup
  count : (signalLabels r).length = r.branches.length
  declares : type[1]? = some ("pub enum " ++ branchType r ++ " \x7b")
  implements : method[0]? = some ("impl " ++ r.state ++ " \x7b")
  returns : method[1]? = some
    (pad ("pub fn resolve(self) -> " ++ resultOf (branchType r) ++ " \x7b"))
  asks : (fromMatch method).head? = some (resolveHead r)
  branch : ∀ i b, r.branches[i]? = some b → ∃ s next, Begins r b s ∧
    (signalLabels r)[i]? = some s.label ∧ p.landing b.entry = .ok next ∧
    type[i + 2]? = some (pad (pascalCase s.label ++ "(" ++ next.typeName ++ "),")) ∧
    takenArm? (fromMatch method) i = some (resolveArm r i s.label next)

section Lines

end Lines

section Arms

variable {r : ChoiceRecord}

end Arms

section Method

variable {r : ChoiceRecord}

end Method

end Api

namespace Mesh

end Mesh

end Parley
