import Parley.Grammar.Section
import Parley.Grammar.Step
import Parley.Protocol

/-! Protocols from tokens. The text is cut into its sections first; then the module name is read,
then the type imports and last the local protocols, each in the order of the text. -/

namespace Parley.Grammar

def readModule (run : List Token) : Except ParseError String := do
  let stop := endOf run
  let rest ← expectWord "module" stop run
  let (names, rest) ← chain (expectText .identifier stop) (fun ts => .ok (eat? "." ts)) rest
  let rest ← expectWord ";" stop rest
  expectEnd rest
  return ".".intercalate names

/-- The text between two quote marks. -/
def quoted (stop : Position) : Reader String := fun tokens => do
  let (_, rest) ← expect .quoteMark stop tokens
  let (text, rest) := textUntil "\"" rest
  let (_, rest) ← expect .quoteMark stop rest
  return (text, rest)

/-- The text between angle brackets, which may not be missing. -/
def schemaName (stop : Position) : Reader String := fun tokens => do
  let rest ← expectWord "<" stop tokens
  let (text, rest) := textUntil ">" rest
  if text.isEmpty then
    let (t, _) ← expect .schemaName stop rest
    .error (unexpected t)
  else
    let rest ← expectWord ">" stop rest
    return (text, rest)

/-- The name that a type import gives to its type, if any. -/
def typeAlias (stop : Position) : Reader (Option String) := fun tokens =>
  match eat? "as" tokens with
  | some rest => (fun (name, rest) => (some name, rest)) <$> expectText .identifier stop rest
  | none => .ok (none, tokens)

def readType (run : List Token) : Except ParseError TypeImport := do
  let stop := endOf run
  let rest ← expectWord "type" stop run
  let (schema, rest) ← schemaName stop rest
  let (source, rest) ← quoted stop rest
  let rest ← expectWord "from" stop rest
  let (fileName, rest) ← quoted stop rest
  let (alias?, rest) ← typeAlias stop rest
  let rest ← expectWord ";" stop rest
  expectEnd rest
  return { schema, source, fileName, alias? }

def declaredRole (stop : Position) : Reader String := fun tokens => do
  let rest ← expectWord "role" stop tokens
  expectText .identifier stop rest

/-- Reads a local protocol. With `concurrent` its steps are numbered again once all are read, so that
the order in which they were read does not show. -/
def readLocal (concurrent : Bool) (run : List Token) : Reading LocalProtocol := do
  let stop := endOf run
  let rest ← expectWord "local" stop run
  let rest ← expectWord "protocol" stop rest
  let (name, rest) ← expectText .identifier stop rest
  let rest ← expectWord "at" stop rest
  let (protagonist, rest) ← expectText .identifier stop rest
  let rest ← expectWord "(" stop rest
  let (roles, rest) ← commaItems (declaredRole stop) (.word ",") stop rest
  let (brace, rest) ← expect (.word openBrace) stop rest
  let (b, rest) ← block brace rest
  expectEnd rest
  let conversation ← .within (IdSource.ofScope name) (readConversation protagonist b.inner) pure
  return {
    name, protagonist, roles
    conversation := if concurrent then (Conversation.renumber 0 conversation).1 else conversation }

/-- The module name, which only one section may give. -/
def readModules : List (List Token) → Except ParseError (Option String)
  | [] => .ok none
  | [run] => some <$> readModule run
  | run :: again :: _ => do
    let _ ← readModule run
    throw ⟨.moduleTwice, startOf again⟩

def runsOf (kind : SectionKind) (sections : List Section) : List (List Token) :=
  (sections.filter (·.kind == kind)).map (·.run)

/-- The reading of a whole protocol: its type imports side by side, then its local protocols. -/
def protocolReading (concurrent : Bool) (tokens : List Token) : Reading Protocol := do
  let sections ← splitSections tokens
  let moduleName? ← readModules (runsOf .moduleName sections)
  let types ← Reading.all ((runsOf .typeImport sections).map fun run => .done (readType run))
  let locals ← Reading.all ((runsOf .localProtocol sections).map (readLocal concurrent))
  if locals.isEmpty then .done (.error ⟨.noLocal, endOf tokens⟩)
  else return { moduleName?, types, locals }

/-- Reads a protocol part by part. Identifiers are drawn within its local protocols only. -/
def readProtocol (concurrent : Bool) (tokens : List Token) : Except ParseError Protocol :=
  (·.1) <$> (protocolReading concurrent tokens).run (IdSource.ofScope "")

end Parley.Grammar
