import Parley.Token

/-! From text to tokens. A text is cut into lexemes: comments and blank runs, which are skipped, and
punctuation characters and runs of other characters, which are the tokens. Every character belongs to
some lexeme, so no text is refused. -/

namespace Parley.Token

/-- The first lexeme of a text, and what follows it. -/
structure Lexeme where
  chars : List Char
  kept : Bool
  rest : List Char

/-- Cuts a text behind the first `*/`, or at its end if there is none. -/
def cutComment : List Char → List Char × List Char
  | [] => ([], [])
  | '*' :: '/' :: cs => (['*', '/'], cs)
  | c :: cs =>
    let (comment, rest) := cutComment cs
    (c :: comment, rest)

/-- The lexeme that `c` opens before `cs`. A comment to the end of the line leaves the line feed; a
slash that opens no comment is punctuation. -/
def lexeme (c : Char) (cs : List Char) : Lexeme :=
  match c, cs with
  | '/', '/' :: _ => ⟨c :: cs.takeWhile (· != '\n'), false, cs.dropWhile (· != '\n')⟩
  | '/', '*' :: tail =>
    let (comment, rest) := cutComment tail
    ⟨'/' :: '*' :: comment, false, rest⟩
  | _, _ =>
    if Text.isBlank c then ⟨c :: cs.takeWhile Text.isBlank, false, cs.dropWhile Text.isBlank⟩
    else if isMark c then ⟨[c], true, cs⟩
    else ⟨c :: cs.takeWhile isWordChar, true, cs.dropWhile isWordChar⟩

theorem cutComment_append (cs : List Char) : (cutComment cs).1 ++ (cutComment cs).2 = cs := by
  fun_induction cutComment cs with
  | case1 => rfl
  | case2 => rfl
  | case3 c cs _ comment rest h ih => simpa [h] using ih

/-- A lexeme is the beginning of its text. -/
theorem lexeme_append (c : Char) (cs : List Char) :
    (lexeme c cs).chars ++ (lexeme c cs).rest = c :: cs := by
  unfold lexeme
  split
  · simp
  · simp [cutComment_append]
  · split
    · simp
    · split <;> simp

theorem lexeme_chars_ne_nil (c : Char) (cs : List Char) : (lexeme c cs).chars ≠ [] := by
  unfold lexeme
  split
  · simp
  · simp
  · split
    · simp
    · split <;> simp

theorem length_lexeme_rest (c : Char) (cs : List Char) :
    (lexeme c cs).rest.length < (c :: cs).length := by
  have h := congrArg List.length (lexeme_append c cs)
  have hpos := List.length_pos_iff.mpr (lexeme_chars_ne_nil c cs)
  rw [List.length_append] at h
  omega

/-- The tokens of a text that starts at `p`. -/
def scanFrom (p : Position) : List Char → List Token
  | [] => []
  | c :: cs =>
    let l := lexeme c cs
    let rest := scanFrom (p.advance l.chars) l.rest
    if l.kept then ⟨String.ofList l.chars, p⟩ :: rest else rest
termination_by cs => cs.length
decreasing_by exact length_lexeme_rest c cs

/-- The tokens of a text. -/
def scan (text : String) : List Token := scanFrom Position.origin text.toList

theorem scan_ofList (cs : List Char) : scan (String.ofList cs) = scanFrom Position.origin cs := by
  rw [scan, String.toList_ofList]

end Parley.Token
