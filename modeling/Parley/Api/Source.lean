import Parley.Api.Role

/-! Whole generated sources: the module of a single role, or one module for several roles with a
submodule for each. -/

namespace Parley.Api

open Text

structure Options where
  moduleName : String := "protocol"
  /-- Wraps the source in a module item instead of giving it the attributes of a file. -/
  inline : Bool := false

def describe (p : Projection) : String :=
  "local protocol " ++ p.localName ++ " at " ++ p.protagonist

/-- What stands above the items: where they come from, and what the compiler is to overlook. -/
def heading (o : Options) (sources : List String) : List String :=
  let mark := if o.inline then "///" else "//!"
  let allow := if o.inline then "#[allow" else "#![allow"
  (mark ++ " Typestate API `" ++ o.moduleName ++ "`, generated by scrivener from:")
    :: sources.map (fun s => mark ++ "  - " ++ s)
    ++ [mark, mark ++ " Do not edit by hand.",
      allow ++ "(non_camel_case_types, dead_code, unused_imports, unreachable_patterns)]"]

/-- Puts the heading above the body, or above a module item that holds it. -/
def assemble (o : Options) (sources body : List String) : Except ApiError String :=
  if !o.inline then .ok (joinLines (heading o sources ++ "" :: body))
  else if !isModuleName o.moduleName then .error (.notIdentifier o.moduleName)
  else .ok (joinLines (heading o sources
    ++ ["pub mod " ++ unreserved o.moduleName ++ " \x7b"] ++ indent (joinLines body) ++ ["\x7d", ""]))

/-- The source of one role by itself. -/
def single (o : Options) (p : Projection) : Except ApiError String := do
  let vs ← variants [p]
  let items ← roleItems p vs
  assemble o [describe p]
    (paragraphs ([sessionImports] :: aliasItems p.types ++ messageType vs ++ items) ++ [""])

/-- The name of the submodule of a role. -/
def roleModule (p : Projection) : String := unreserved (snakeCase p.protagonist)

/-- The first projection whose submodule has the name of an earlier one. -/
def moduleClash? (taken : List String) : List Projection → Option Projection
  | [] => none
  | p :: ps =>
    if taken.contains (roleModule p) then some p else moduleClash? (roleModule p :: taken) ps

def roleSubmodule (vs : List Variant) (p : Projection) : Except ApiError Paragraph := do
  let items ← roleItems p vs
  return ["pub mod " ++ roleModule p ++ " \x7b", "    use super::*;", "    " ++ sessionImports, ""]
    ++ indent (joinLines (paragraphs items)) ++ ["\x7d"]

/-- The type of the start of a role, seen from above its submodule. -/
def startType (p : Projection) (start : Landing) : String :=
  match start with
  | .finish => "scrivener_runtime::" ++ start.typeName
  | _ => roleModule p ++ "::" ++ start.typeName

/-- All roles that some projections know of, each once. -/
def meshRoles (ps : List Projection) : List String := (ps.flatMap (·.roles)).eraseDups

/-- The statement that makes a mesh of these roles. -/
def meshStatement (ps : List Projection) : String :=
  "let mesh = Mesh::new([" ++ commaList ((meshRoles ps).map quote) ++ "]);"

/-- The function that connects all roles to one mesh. -/
def connector (ps : List Projection) (starts : List Landing) : Paragraph :=
  let types := (ps.zip starts).map fun (p, start) => startType p start
  let values := ps.map fun p =>
    roleModule p ++ "::start(mesh.endpoint(" ++ quote p.protagonist ++ ")?)?"
  "/// Connects every role to a fresh in-process mesh and returns their start states."
    :: block ("pub fn connect() -> " ++ resultOf ("(" ++ commaList types ++ ",)"))
      [meshStatement ps, "Ok((" ++ commaList values ++ ",))"]

/-- The source of several roles together. -/
def combined (o : Options) (ps : List Projection) : Except ApiError String := do
  if ps.isEmpty then throw .noProjection
  if let some p := moduleClash? [] ps then throw (.roleTwice p.protagonist)
  let vs ← variants ps
  let modules ← ps.mapM fun p => do
    let start ← p.landing p.start
    return (start, ← roleSubmodule vs p)
  assemble o (ps.map describe)
    (paragraphs (["use scrivener_runtime::\x7bMesh, SessionError\x7d;"]
      :: aliasItems (ps.flatMap (·.types)) ++ messageType vs ++ modules.map (·.2)
      ++ [connector ps (modules.map (·.1))]))

end Parley.Api
