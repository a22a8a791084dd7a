import Parley.Api.Source
import Parley.Error
import Parley.Grammar
import Parley.Json.Projection
import Parley.Token.Scan

/-! From protocol text to projections and to generated source. -/

namespace Parley

/-- Reads a protocol text. -/
def Protocol.parse (concurrent : Bool) (text : String) : Except CompileError Protocol :=
  (Grammar.readProtocol concurrent (Token.scan text)).mapError .parse

def Protocol.verify (p : Protocol) : Except CompileError Unit := p.check.mapError .declaration

def Protocol.projections (p : Protocol) : Except CompileError (List Projection) :=
  p.project.mapError .layout

/-- A protocol that has passed all checks, with the projection of each of its local protocols. -/
structure Compiled where
  protocol : Protocol
  projections : List Projection

/-- Reads, checks and projects a protocol text. -/
def compile (concurrent : Bool) (text : String) : Except CompileError Compiled := do
  let protocol ← Protocol.parse concurrent text
  protocol.verify
  return ⟨protocol, ← protocol.projections⟩

/-- The tree of a protocol text as JSON text. -/
def protocolJson (text : String) : Except CompileError String := do
  let compiled ← compile false text
  return compiled.protocol.toJson.pretty

/-- The projections of a protocol text as JSON text. -/
def projectionJson (text : String) : Except CompileError String := do
  let compiled ← compile false text
  return (Json.arr (compiled.projections.map (·.toJson))).pretty

def generateSingle (o : Api.Options) (p : Projection) : Except CompileError String :=
  (Api.single o p).mapError .source

def generateCombined (o : Api.Options) (ps : List Projection) : Except CompileError String :=
  (Api.combined o ps).mapError .source

/-- Compiles texts one after the other, each as soon as it has been read. -/
def compileTexts (concurrent : Bool) :
    List (Except FileError String) → Except CompileError (List Projection)
  | [] => .ok []
  | text :: texts => do
    let compiled ← compile concurrent (← text.mapError .file)
    return compiled.projections ++ (← compileTexts concurrent texts)

/-- The source for the protocols in some files: that of a single role, or of all roles together. -/
def generate (concurrent : Bool) (o : Api.Options) (texts : List (Except FileError String)) :
    Except CompileError String := do
  if texts.isEmpty then throw (.source .noFile)
  match ← compileTexts concurrent texts with
  | [p] => generateSingle o p
  | ps => generateCombined o ps

end Parley
