import Parley.Node

/-! Protocols: type imports and the local protocols of the roles. -/

namespace Parley

/-- A payload type that is defined outside the protocol. -/
structure TypeImport where
  schema : String
  source : String
  fileName : String
  alias? : Option String
deriving DecidableEq

/-- One role's view of a protocol. -/
structure LocalProtocol where
  name : String
  protagonist : String
  roles : List String
  conversation : Conversation

structure Protocol where
  moduleName? : Option String
  types : List TypeImport
  locals : List LocalProtocol

/-- The payload types that need no import. -/
def nativeTypes : List String :=
  ["bool", "byte", "int", "uint", "int64", "uint64", "float", "double", "string"]

def Protocol.aliases (p : Protocol) : List String := p.types.filterMap (·.alias?)

end Parley
