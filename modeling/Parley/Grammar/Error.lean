import Parley.Text.Quoted
import Parley.Token

/-! Why a token list is not a protocol, and where. -/

namespace Parley.Grammar

/-- Letters, digits and underscores, not starting with a digit; ASCII only. -/
def isIdentifier (text : String) : Bool :=
  match text.toList with
  | [] => false
  | c :: cs => (c.isAlpha || c == '_') && cs.all fun d => d.isAlphanum || d == '_'

/-- What a reader wants to see next. -/
inductive Wanted where
  | word (text : String)
  | quoteMark
  | identifier
  | schemaName
  | messageName
  | payloadEnd
  | direction
deriving DecidableEq

namespace Wanted

/-- The token texts that meet the want. A direction has two words of its own and is met by neither
here, and after a payload only the comma still needs to be asked for. -/
def admits : Wanted → String → Bool
  | .word w, text => text == w
  | .quoteMark, text => text == "\""
  | .identifier, text => isIdentifier text
  | .schemaName, text => isIdentifier text
  | .messageName, text => isIdentifier text
  | .payloadEnd, text => text == ","
  | .direction, _ => false

def text : Wanted → String
  | .word w => Text.quote w
  | .quoteMark => "'\"'"
  | .identifier => "identifier"
  | .schemaName => "schema name"
  | .messageName => "message name"
  | .payloadEnd => "\",\" or \")\""
  | .direction => "\"from\" or \"to\""

end Wanted

inductive Cause where
  /-- Another token stands where something is wanted. -/
  | found (wanted : Wanted) (text : String)
  /-- Nothing stands where something is wanted. -/
  | ended (wanted : Wanted)
  /-- A block step has no block. -/
  | noBlock (keyword text : String)
  /-- A separator is the last token. -/
  | noBlockAfter (separator : String)
  | unexpected (text : String)
  | unclosed
  | moduleTwice
  | noLocal
  | noPayload (name : String)
deriving DecidableEq

def Cause.text : Cause → String
  | .found wanted text => "Expected " ++ wanted.text ++ " but found " ++ Text.quote text
  | .ended wanted => "Expected " ++ wanted.text ++ " but found end of input"
  | .noBlock keyword text =>
    "Expected \"\x7b\" after " ++ Text.quote keyword ++ " but found " ++ Text.quote text
  | .noBlockAfter separator =>
    "Expected \"\x7b\" after " ++ Text.quote separator ++ " but found end of input"
  | .unexpected text => "Unexpected token " ++ Text.quote text
  | .unclosed => "Unbalanced brackets: \"\x7b\" is never closed"
  | .moduleTwice => "The module is declared twice"
  | .noLocal => "Expected at least one local protocol"
  | .noPayload name => "Missing payload type in message " ++ Text.quote name

structure ParseError where
  cause : Cause
  place : Position
deriving DecidableEq

def unexpected (t : Token) : ParseError := ⟨.unexpected t.text, t.start⟩

end Parley.Grammar
