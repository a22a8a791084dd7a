import Parley.Grammar.Error

/-! Runs of tokens and the readers that take them apart. A reader takes something off the front of a
token list and returns it with what is left. Readers that may meet the end of their run are told
where that end is, since that is where they report it. -/

namespace Parley.Grammar

abbrev Reader (α : Type) := List Token → Except ParseError (α × List Token)

def openBrace : String := "\x7b"

def closeBrace : String := "\x7d"

/-- The place just past the last token, or the start of the text if there is no token. -/
def endOf (tokens : List Token) : Position :=
  match tokens.getLast? with
  | some t => t.stop
  | none => Position.origin

/-- The place of the first token, or the start of the text if there is no token. -/
def startOf (tokens : List Token) : Position :=
  match tokens with
  | t :: _ => t.start
  | [] => Position.origin

def expect (wanted : Wanted) (stop : Position) : Reader Token
  | [] => .error ⟨.ended wanted, stop⟩
  | t :: ts => if wanted.admits t.text then .ok (t, ts) else .error ⟨.found wanted t.text, t.start⟩

def expectWord (word : String) (stop : Position) (tokens : List Token) :
    Except ParseError (List Token) :=
  (·.2) <$> expect (.word word) stop tokens

def expectText (wanted : Wanted) (stop : Position) : Reader String := fun tokens =>
  (fun (t, rest) => (t.text, rest)) <$> expect wanted stop tokens

/-- What is left behind a word, if it comes first. -/
def eat? (word : String) : List Token → Option (List Token)
  | [] => none
  | t :: ts => if t.is word then some ts else none

def expectEnd : List Token → Except ParseError Unit
  | [] => .ok ()
  | t :: _ => .error (unexpected t)

/-- The texts of the tokens before the first `word`, put together. -/
def textUntil (word : String) (tokens : List Token) : String × List Token :=
  (String.join ((tokens.takeWhile fun t => !t.is word).map (·.text)),
    tokens.dropWhile fun t => !t.is word)

/-- Reads items for as long as `more?` finds that another one follows. An item and its separator
together take at least one token, and a chain without progress ends. -/
def chain (item : Reader α) (more? : List Token → Except ParseError (Option (List Token))) :
    Reader (List α) := fun tokens =>
  match item tokens with
  | .error e => .error e
  | .ok (a, rest) =>
    match more? rest with
    | .error e => .error e
    | .ok none => .ok ([a], rest)
    | .ok (some next) =>
      if next.length < tokens.length then
        match chain item more? next with
        | .error e => .error e
        | .ok (as, rest) => .ok (a :: as, rest)
      else .ok ([a], next)
termination_by tokens => tokens.length

/-- What is left behind a comma, unless the closing parenthesis comes first. -/
def nextItem? (comma : Wanted) (stop : Position) (tokens : List Token) :
    Except ParseError (Option (List Token)) :=
  match eat? ")" tokens with
  | some _ => .ok none
  | none => (fun (_, rest) => some rest) <$> expect comma stop tokens

/-- The items between an opened parenthesis and the closing one, with commas between them. -/
def commaItems (item : Reader α) (comma : Wanted) (stop : Position) : Reader (List α) := fun tokens =>
  match eat? ")" tokens with
  | some rest => .ok ([], rest)
  | none => do
    let (items, rest) ← chain item (nextItem? comma stop) tokens
    return (items, rest.tail)

/-- What is left, if anything. -/
def nextRun? (tokens : List Token) : Except ParseError (Option (List Token)) :=
  .ok (if tokens.isEmpty then none else some tokens)

/-- Cuts a whole token list into runs. -/
def cut (run : Reader α) : List Token → Except ParseError (List α)
  | [] => .ok []
  | t :: ts => (·.1) <$> chain run nextRun? (t :: ts)

/-- Through the first semicolon, with no brace before it. -/
def statement (stop : Position) : Reader (List Token)
  | [] => .error ⟨.ended (.word ";"), stop⟩
  | t :: ts =>
    if t.is ";" then .ok ([t], ts)
    else if t.is openBrace || t.is closeBrace then .error ⟨.found (.word ";") t.text, t.start⟩
    else
      match statement stop ts with
      | .error e => .error e
      | .ok (run, rest) => .ok (t :: run, rest)

/-- A block that has been opened: what stands in it, and the brace that closes it. -/
structure Block where
  inner : List Token
  close : Token

/-- Finds the brace that closes `depth + 1` open ones. -/
def closing? (depth : Nat) : List Token → Option (Block × List Token)
  | [] => none
  | t :: ts =>
    if t.is openBrace then (closing? (depth + 1) ts).map fun (b, rest) => ({ b with inner := t :: b.inner }, rest)
    else if t.is closeBrace then
      match depth with
      | 0 => some (⟨[], t⟩, ts)
      | depth + 1 => (closing? depth ts).map fun (b, rest) => ({ b with inner := t :: b.inner }, rest)
    else (closing? depth ts).map fun (b, rest) => ({ b with inner := t :: b.inner }, rest)

/-- The block that `brace` opens. -/
def block (brace : Token) : Reader Block := fun tokens =>
  match closing? 0 tokens with
  | some found => .ok found
  | none => .error ⟨.unclosed, brace.start⟩

/-- The tokens before the first brace or semicolon. -/
def header (tokens : List Token) : List Token × List Token :=
  let plain (t : Token) : Bool := !(t.is openBrace || t.is closeBrace || t.is ";")
  (tokens.takeWhile plain, tokens.dropWhile plain)

end Parley.Grammar
