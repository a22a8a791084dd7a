import Parley.Proofs.Observer

/-! Requests: the calls in some code that look a role up, and the roles they ask for. They are read off
the lines of the code, wherever a method is called on them. The pieces that lines are put together
from mostly have no dot in them, and where they have one no such method is called behind it. -/

namespace Parley

namespace Text

/-! ### Literals -/

def hexValue (c : Char) : Nat := if c.isDigit then c.toNat - 48 else c.toNat - 87

/-- The character that is meant by a letter behind a backslash. -/
def shortEscape (c : Char) : Char :=
  if c = 'b' then '\x08' else if c = 'f' then '\x0c' else if c = 'n' then '\n'
  else if c = 'r' then '\r' else if c = 't' then '\t' else c

/-- The characters of a literal up to its closing quote. -/
def literalChars? : List Char → Option (List Char)
  | [] => none
  | '"' :: _ => some []
  | '\\' :: 'u' :: '0' :: '0' :: high :: low :: cs =>
    (literalChars? cs).map (Char.ofNat (16 * hexValue high + hexValue low) :: ·)
  | '\\' :: c :: cs => (literalChars? cs).map (shortEscape c :: ·)
  | c :: cs => (literalChars? cs).map (c :: ·)

/-- The text that is meant by the literal at the front. -/
def literal? : List Char → Option String
  | '"' :: cs => (literalChars? cs).map String.ofList
  | _ => none

end Text

open Text

namespace Api

/-! ### Requests on a line -/

/-- The methods of the runtime that look a role up. -/
inductive Lookup where
  | send
  | recv
  | waitAny
  | endpoint
deriving DecidableEq

namespace Lookup

def name : Lookup → String
  | send => "send"
  | recv => "recv"
  | waitAny => "wait_any"
  | endpoint => "endpoint"

def all : List Lookup := [send, recv, waitAny, endpoint]

/-- How a call of the method begins behind the dot. -/
def opening (lookup : Lookup) : List Char := lookup.name.toList ++ ['(']

end Lookup

/-- A call that looks a role up, with the role that its first argument names if this is a literal. -/
structure Request where
  lookup : Lookup
  role? : Option String
deriving DecidableEq

/-- The call that some code begins with, if it is a request. -/
def Request.read? (code : List Char) : Option Request :=
  (Lookup.all.find? fun lookup => lookup.opening.isPrefixOf code).map fun lookup =>
    ⟨lookup, literal? (code.drop lookup.opening.length)⟩

/-- The code behind each dot. -/
def behindDots : List Char → List (List Char)
  | [] => []
  | c :: cs => if c = '.' then cs :: behindDots cs else behindDots cs

def requestsIn (code : List Char) : List Request := (behindDots code).filterMap Request.read?

/-- The requests on a line; there are none in a comment. -/
def requests (line : String) : List Request :=
  if beginsWith (unpadded line) "//" then [] else requestsIn line.toList

/-! ### Code without requests -/

/-- Whether two texts differ where both go on. -/
def differ : List Char → List Char → Bool
  | c :: cs, d :: ds => c != d || differ cs ds
  | _, _ => false

/-- Code in which no request begins, whatever is put behind it. -/
def Silent (code : String) : Prop :=
  ∀ cs ∈ behindDots code.toList, ∀ lookup ∈ Lookup.all, differ cs lookup.opening = true

instance (code : String) : Decidable (Silent code) :=
  List.decidableBAll (fun cs => ∀ lookup ∈ Lookup.all, differ cs lookup.opening = true) _

theorem behindDots_append (cs ds : List Char) :
    behindDots (cs ++ ds) = (behindDots cs).map (· ++ ds) ++ behindDots ds := by
  induction cs with
  | nil => rfl
  | cons c cs ih =>
    rw [List.cons_append, behindDots, behindDots, ih]
    split <;> rfl

theorem behindDots_eq_nil {cs : List Char} (h : '.' ∉ cs) : behindDots cs = [] := by
  induction cs with
  | nil => rfl
  | cons c cs ih =>
    obtain ⟨hc, hcs⟩ : '.' ≠ c ∧ '.' ∉ cs := by simpa using h
    rw [behindDots, if_neg hc.symm, ih hcs]

theorem differ_append {cs ds : List Char} (h : differ cs ds = true) (es : List Char) :
    differ (cs ++ es) ds = true := by
  induction cs generalizing ds with
  | nil => cases h
  | cons c cs ih =>
    cases ds with
    | nil => cases h
    | cons d ds =>
      rw [differ, Bool.or_eq_true] at h
      rw [List.cons_append, differ, Bool.or_eq_true]
      exact h.imp_right ih

namespace Silent

variable {code : String}

theorem append {back : String} (hcode : Silent code) (hback : Silent back) :
    Silent (code ++ back) := by
  intro cs hcs lookup hlookup
  rw [String.toList_append, behindDots_append] at hcs
  rcases List.mem_append.mp hcs with hcs | hcs
  · obtain ⟨ds, hds, rfl⟩ := List.mem_map.mp hcs
    exact differ_append (hcode ds hds lookup hlookup) back.toList
  · exact hback cs hcs lookup hlookup

theorem of_dotless (h : '.' ∉ code.toList) : Silent code := by
  intro cs hcs
  rw [behindDots_eq_nil h] at hcs
  cases hcs

end Silent

/-! ### A request on a line -/

end Api

end Parley
