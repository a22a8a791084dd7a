/-! Lines of a text and their indentation. -/

namespace Parley.Text

/-- The lines of a text, without their ends. A line ends at a line feed, together with the carriage
return right before it if there is one; an end at the very end of the text opens no further line. -/
def splitLines : List Char → List (List Char)
  | [] => []
  | '\n' :: cs => [] :: splitLines cs
  | '\r' :: '\n' :: cs => [] :: splitLines cs
  | c :: cs =>
    match splitLines cs with
    | [] => [[c]]
    | line :: lines => (c :: line) :: lines

def joinLines (lines : List String) : String := "\n".intercalate lines

/-- Four blanks in front of every line that is not empty. -/
def indentLine (line : List Char) : String :=
  String.ofList (if line.isEmpty then [] else ' ' :: ' ' :: ' ' :: ' ' :: line)

def indent (text : String) : List String := (splitLines text.toList).map indentLine

end Parley.Text
