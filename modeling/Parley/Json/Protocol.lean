import Parley.Json
import Parley.Protocol

/-! Protocols as JSON documents. -/

namespace Parley

def NodeId.toJson (id : NodeId) : Json :=
  .obj [("local", .str id.scope), ("label", .str id.label), ("seq", .nat id.seq.toNat)]

mutual

def Node.toJson : Node → Json
  | .message m => .obj [("kind", .str "message"), ("id", m.id.toJson), ("name", .str m.name),
      ("from", .str m.sender), ("to", .str m.receiver), ("payloads", .strs m.payloads)]
  | .choice id chooser branches => .obj [("kind", .str "choice"), ("id", id.toJson),
      ("chooser", .str chooser), ("branches", .arr (branchesToJson branches))]
  | .par id branches => .obj [("kind", .str "par"), ("id", id.toJson),
      ("branches", .arr (branchesToJson branches))]
  | .loop id label body => .obj [("kind", .str "rec"), ("id", id.toJson), ("label", .str label),
      ("body", .obj [("nodes", .arr (nodesToJson body))])]
  | .call name roles => .obj [("kind", .str "do"), ("name", .str name), ("roles", .strs roles)]
  | .jump id label => .obj [("kind", .str "continue"), ("id", id.toJson), ("label", .str label)]

def nodesToJson : List Node → List Json
  | [] => []
  | n :: ns => n.toJson :: nodesToJson ns

def branchesToJson : List (List Node) → List Json
  | [] => []
  | b :: bs => .obj [("nodes", .arr (nodesToJson b))] :: branchesToJson bs

end

def Conversation.toJson (c : Conversation) : Json := .obj [("nodes", .arr (nodesToJson c))]

def TypeImport.toJson (t : TypeImport) : Json :=
  .obj [("schema", .str t.schema), ("source", .str t.source), ("file_name", .str t.fileName),
    ("alias", .optStr t.alias?)]

def LocalProtocol.toJson (l : LocalProtocol) : Json :=
  .obj [("name", .str l.name), ("protagonist", .str l.protagonist),
    ("roles", .arr (l.roles.map fun role => .obj [("name", .str role)])),
    ("conversation", Conversation.toJson l.conversation)]

def Protocol.toJson (p : Protocol) : Json :=
  .obj [("module", .optStr p.moduleName?), ("types", .arr (p.types.map TypeImport.toJson)),
    ("locals", .arr (p.locals.map LocalProtocol.toJson))]

end Parley
