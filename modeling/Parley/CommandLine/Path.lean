/-! Paths: names between slashes that lead from the root or from the working directory. A path keeps
the parts that lead nowhere, since they still have to be passed. -/

namespace Parley.CommandLine

structure Path where
  absolute : Bool
  /-- What stands between the slashes, without the slash that an absolute path starts with. -/
  parts : List String
deriving DecidableEq

namespace Path

def splitSlashes : List Char → List (List Char)
  | [] => [[]]
  | c :: cs =>
    if c = '/' then [] :: splitSlashes cs
    else
      match splitSlashes cs with
      | [] => [[c]]
      | part :: parts => (c :: part) :: parts

def ofText (text : String) : Path :=
  match text.toList with
  | '/' :: cs => ⟨true, (splitSlashes cs).map String.ofList⟩
  | cs => ⟨false, (splitSlashes cs).map String.ofList⟩

def text (p : Path) : String :=
  if p.absolute then "/" ++ "/".intercalate p.parts else "/".intercalate p.parts

/-- A path continued by another, which counts alone if it is absolute. -/
def join (p q : Path) : Path :=
  if q.absolute then q
  else ⟨p.absolute, (if p.parts.getLast? == some "" then p.parts.dropLast else p.parts) ++ q.parts⟩

/-- Takes away what leads nowhere at the end of a path, whose parts are given last first: nothing
between two slashes, and a dot unless a relative path starts with it. -/
def dropIdle (absolute : Bool) : List String → List String
  | [] => []
  | part :: before =>
    if part == "" || (part == "." && (absolute || !before.isEmpty)) then dropIdle absolute before
    else part :: before

/-- The path without the last part that leads on; none if no part does. -/
def parent? (p : Path) : Option Path :=
  match dropIdle p.absolute p.parts.reverse with
  | [] => none
  | _ :: before => some ⟨p.absolute, (dropIdle p.absolute before).reverse⟩

theorem length_dropIdle_le (absolute : Bool) (parts : List String) :
    (dropIdle absolute parts).length ≤ parts.length := by
  induction parts with
  | nil => exact Nat.le_refl _
  | cons part before ih =>
    rw [dropIdle]
    split
    · exact Nat.le_succ_of_le ih
    · exact Nat.le_refl _

theorem length_parts_parent?_lt {p q : Path} (h : p.parent? = some q) :
    q.parts.length < p.parts.length := by
  have hp := length_dropIdle_le p.absolute p.parts.reverse
  unfold parent? at h
  split at h
  · contradiction
  · next part before hd =>
    cases h
    have hq := length_dropIdle_le p.absolute before
    rw [hd] at hp
    simp only [List.length_cons, List.length_reverse] at hp ⊢
    omega

end Path

end Parley.CommandLine
