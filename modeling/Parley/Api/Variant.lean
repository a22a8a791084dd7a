import Parley.Api.Code
import Parley.Api.Error
import Parley.Projection
import Parley.Text.Casing

/-! The variants of the message type that the roles of a protocol share, one for each message name
with each list of payloads. -/

namespace Parley.Api

/-- What tells messages apart. -/
structure Key where
  label : String
  payloads : List String
deriving DecidableEq

def Key.ofRecord (r : MessageRecord) : Key := ⟨r.message.name, r.message.payloads⟩

structure Variant where
  key : Key
  name : String

/-- The keys of all messages, each once, in the order of their first use. -/
def keys (ps : List Projection) : List Key :=
  (ps.flatMap fun p => p.messages.map Key.ofRecord).eraseDups

/-- The name of a variant: the label, and the payloads too where messages share the label. -/
def Key.variantName (all : List Key) (k : Key) : String :=
  let name := Text.pascalCase k.label
  if (all.filter (·.label == k.label)).length > 1 then
    if k.payloads.isEmpty then name ++ "Empty" else name ++ String.join (k.payloads.map Text.pascalCase)
  else name

/-- The variants of the keys; `before` holds those of the earlier keys, whose names are taken. -/
def nameVariants (all : List Key) (before : List Variant) : List Key → Except ApiError (List Variant)
  | [] => .ok before
  | k :: ks =>
    let name := k.variantName all
    match before.find? (·.name == name) with
    | some v => .error (.variantClash v.key.label k.label name)
    | none => nameVariants all (before ++ [⟨k, name⟩]) ks

/-- The variants for the messages of some projections, in the order of their first use. -/
def variants (ps : List Projection) : Except ApiError (List Variant) :=
  nameVariants (keys ps) [] (keys ps)

def variantOf (vs : List Variant) (r : MessageRecord) : Except ApiError Variant :=
  match vs.find? (·.key == Key.ofRecord r) with
  | some v => .ok v
  | none => .error (.noVariant r.message.name)

def Variant.declaration (v : Variant) : String :=
  if v.key.payloads.isEmpty then v.name ++ ","
  else v.name ++ "(" ++ commaList (v.key.payloads.map typeName) ++ "),"

def Variant.labelArm (v : Variant) : String :=
  "Msg::" ++ v.name ++ (if v.key.payloads.isEmpty then "" else "(..)") ++ " => "
    ++ Text.quote v.key.label ++ ","

/-- The message type with its labels. -/
def messageType (vs : List Variant) : List Paragraph :=
  [["/// Every message exchanged in this protocol.", "#[derive(Debug, Clone, PartialEq)]"]
      ++ block "pub enum Msg" (vs.map (·.declaration)),
    block "impl Msg"
      (block "pub fn label(&self) -> &'static str" (block "match *self" (vs.map (·.labelArm))))]

/-- The imports that have an alias, without those whose alias has come before. -/
def aliased (seen : List String) : List TypeImport → List (String × TypeImport)
  | [] => []
  | t :: ts =>
    match t.alias? with
    | none => aliased seen ts
    | some name => if seen.contains name then aliased seen ts else (name, t) :: aliased (name :: seen) ts

/-- The type item of an alias. -/
def aliasItem (name : String) : String := "pub type " ++ name ++ " = String;"

/-- The type items of the imports, as one paragraph if there are any. -/
def aliasItems (types : List TypeImport) : List Paragraph :=
  match aliased [] types with
  | [] => []
  | items => [items.flatMap fun (name, t) =>
      ["/// `" ++ t.schema ++ "` type `" ++ t.source ++ "` from `" ++ t.fileName
        ++ "`, carried in its serialized form.",
        aliasItem name]]

end Parley.Api
