import Parley.Text.Blank

/-! Tokens of a protocol text and the places they stand at. -/

namespace Parley

/-- A place in a text, counted from line 1, column 1. Only a line feed ends a line, and a column is
a character. -/
structure Position where
  line : Nat
  column : Nat
deriving DecidableEq

namespace Position

def origin : Position := ⟨1, 1⟩

/-- The place after a character. -/
def next (p : Position) (c : Char) : Position :=
  if c = '\n' then ⟨p.line + 1, 1⟩ else ⟨p.line, p.column + 1⟩

/-- The place after a run of characters. -/
def advance (p : Position) (cs : List Char) : Position := cs.foldl next p

end Position

structure Token where
  text : String
  start : Position
deriving DecidableEq

namespace Token

/-- The characters that are a token each. -/
def punctuation : List Char :=
  ['<', '>', '/', '"', '.', ',', '\\', ';', '\x7b', '\x7d', '[', ']', '(', ')']

def isMark (c : Char) : Bool := punctuation.contains c

/-- The characters that runs are made of. -/
def isWordChar (c : Char) : Bool := !Text.isBlank c && !isMark c

/-- Whether a text is a single punctuation character. -/
def isPunctuation (text : String) : Bool :=
  match text.toList with
  | [c] => isMark c
  | _ => false

def is (t : Token) (text : String) : Bool := t.text == text

/-- The place just past the last character. -/
def stop (t : Token) : Position := ⟨t.start.line, t.start.column + t.text.length⟩

end Token

end Parley
