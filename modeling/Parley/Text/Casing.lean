import Parley.Text.Case

/-! Names in the two cases of generated identifiers. -/

namespace Parley.Text

/-- Leaves out underscores and raises each character that starts a word. `first` says whether a
word starts here. -/
def pascalChars (first : Bool) : List Char → List Char
  | [] => []
  | c :: cs =>
    if c = '_' then pascalChars true cs
    else (if first then upperForm c else [c]) ++ pascalChars false cs

/-- The words between underscores, each with its first character raised and the rest kept. -/
def pascalCase (s : String) : String := String.ofList (pascalChars true s.toList)

/-- Whether a word starts at an upper-case character that stands between `before?` and `after`: not
at the start nor after an underscore, and not inside a run of upper-case characters unless the run
ends with it. -/
def startsWord (before? : Option Char) (after : List Char) : Bool :=
  match before? with
  | none => false
  | some b => b != '_' && (!isUpper b || after.head?.any isLower)

/-- Lowers each upper-case character, with an underscore before it where a word starts. -/
def snakeChars (before? : Option Char) : List Char → List Char
  | [] => []
  | c :: cs =>
    (if isUpper c then
      if startsWord before? cs then '_' :: lowerForm c else lowerForm c
    else [c]) ++ snakeChars (some c) cs

/-- Lower-case words joined by underscores; a run of upper-case characters is one word. -/
def snakeCase (s : String) : String := String.ofList (snakeChars none s.toList)

end Parley.Text
