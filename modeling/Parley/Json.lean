import Parley.Text.Quoted

/-! JSON documents whose objects keep the order of their fields, and their text over several lines. -/

namespace Parley

inductive Json where
  | null
  | nat (n : Nat)
  | str (s : String)
  | arr (items : List Json)
  | obj (fields : List (String × Json))

namespace Json

def strs (items : List String) : Json := .arr (items.map .str)

def optStr : Option String → Json
  | some s => .str s
  | none => .null

/-- A line break and the indentation of the line after it, two blanks a level. -/
def newline (depth : Nat) : String := "\n" ++ String.ofList (List.replicate (2 * depth) ' ')

mutual

/-- The text of a document that stands `depth` levels deep. -/
def prettyAt (depth : Nat) : Json → String
  | .null => "null"
  | .nat n => toString n
  | .str s => Text.quote s
  | .arr [] => "[]"
  | .arr (item :: items) =>
    "[" ++ newline (depth + 1) ++ prettyAt (depth + 1) item ++ prettyItems (depth + 1) items
      ++ newline depth ++ "]"
  | .obj [] => "\x7b\x7d"
  | .obj ((name, value) :: fields) =>
    "\x7b" ++ newline (depth + 1) ++ Text.quote name ++ ": " ++ prettyAt (depth + 1) value
      ++ prettyFields (depth + 1) fields ++ newline depth ++ "\x7d"

def prettyItems (depth : Nat) : List Json → String
  | [] => ""
  | item :: items => "," ++ newline depth ++ prettyAt depth item ++ prettyItems depth items

def prettyFields (depth : Nat) : List (String × Json) → String
  | [] => ""
  | (name, value) :: fields =>
    "," ++ newline depth ++ Text.quote name ++ ": " ++ prettyAt depth value ++ prettyFields depth fields

end

def pretty (doc : Json) : String := prettyAt 0 doc

end Json

end Parley
