import Parley.Grammar.Run

/-! The sections of a protocol text, told apart by their first word. -/

namespace Parley.Grammar

inductive SectionKind where
  | moduleName
  | typeImport
  | localProtocol
deriving DecidableEq

def SectionKind.keyword : SectionKind → String
  | .moduleName => "module"
  | .typeImport => "type"
  | .localProtocol => "local"

structure Section where
  kind : SectionKind
  run : List Token

/-- A header and the block that follows it. -/
def blockSection (stop : Position) : Reader (List Token) := fun tokens =>
  match header tokens with
  | (_, []) => .error ⟨.ended (.word openBrace), stop⟩
  | (head, brace :: rest) =>
    if brace.is openBrace then do
      let (b, rest) ← block brace rest
      return (head ++ brace :: b.inner ++ [b.close], rest)
    else .error (unexpected brace)

/-- One section. A local protocol ends with its block, the others with a semicolon. -/
def readSection (stop : Position) : Reader Section
  | [] => .error ⟨.ended (.word "local"), stop⟩
  | t :: ts =>
    if t.is "module" then do
      let (run, rest) ← statement stop (t :: ts)
      return (⟨.moduleName, run⟩, rest)
    else if t.is "type" then do
      let (run, rest) ← statement stop (t :: ts)
      return (⟨.typeImport, run⟩, rest)
    else if t.is "local" then do
      let (run, rest) ← blockSection stop (t :: ts)
      return (⟨.localProtocol, run⟩, rest)
    else .error (unexpected t)

def splitSections (tokens : List Token) : Except ParseError (List Section) :=
  cut (readSection (endOf tokens)) tokens

end Parley.Grammar
