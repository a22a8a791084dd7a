import Parley.Text.Letter
import Parley.Text.Lines

/-! Pieces of generated source: lines, nested blocks, paragraphs, and what the target language asks of
names. -/

namespace Parley.Api

/-- Lines that stand together. -/
abbrev Paragraph := List String

/-- Paragraphs with an empty line between each two. -/
def paragraphs (ps : List Paragraph) : List String := [""].intercalate ps

def pad (line : String) : String := if line.isEmpty then "" else "    " ++ line

/-- Lines one level in, between an opening and a closing line. -/
def nest (opening : String) (lines : List String) (closing : String) : List String :=
  opening :: lines.map pad ++ [closing]

/-- Lines in braces behind a head. -/
def block (head : String) (lines : List String) : List String :=
  nest (head ++ " \x7b") lines "\x7d"

def commaList (items : List String) : String := ", ".intercalate items

/-- What a function that may fail returns. -/
def resultOf (type : String) : String := "Result<" ++ type ++ ", SessionError>"

/-- The native payload types and what they are in Rust. -/
def nativeNames : List (String × String) :=
  [("bool", "bool"), ("byte", "u8"), ("int", "i32"), ("uint", "u32"), ("int64", "i64"),
    ("uint64", "u64"), ("float", "f32"), ("double", "f64"), ("string", "String")]

/-- A payload type in Rust. An imported type goes by its own name. -/
def typeName (type : String) : String := (nativeNames.lookup type).getD type

def reservedWords : List String :=
  ["as", "break", "const", "continue", "crate", "else",
    "enum", "extern", "false", "fn", "for", "if", "impl",
    "in", "let", "loop", "match", "mod", "move", "mut",
    "pub", "ref", "return", "self", "Self", "static",
    "struct", "super", "trait", "true", "type", "unsafe",
    "use", "where", "while", "async", "await", "dyn"]

/-- A name that is not a reserved word. -/
def unreserved (name : String) : String :=
  if reservedWords.contains name then name ++ "_" else name

/-- Whether a name can be that of a module: letters, digits and underscores of any script, not
starting with a digit. -/
def isModuleName (name : String) : Bool :=
  match name.toList with
  | [] => false
  | c :: cs =>
    (Text.isLetter c || c == '_') && (c :: cs).all fun d => Text.isLetterOrNumber d || d == '_'

/-- What every role module imports. -/
def sessionImports : String :=
  "use scrivener_runtime::\x7bBranchDone, Endpoint, Finished, Joiner, Session, SessionError\x7d;"

end Parley.Api
