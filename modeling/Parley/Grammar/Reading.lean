import Parley.Grammar.Error
import Parley.Node

/-! Readings: tasks that draw identifiers and may fall into parts that need not wait for one another. A
reading says which steps there are and what each of them depends on; `run` takes its parts one after
the other. -/

namespace Parley.Grammar

inductive Reading : Type → Type 1 where
  | done {α : Type} (outcome : Except ParseError α) : Reading α
  /-- Draws an identifier. -/
  | draw {α : Type} (label : String) (next : NodeId → Reading α) : Reading α
  /-- Two parts that draw from the same source, in any order, and what is done with both results. -/
  | both {α β γ : Type} (left : Reading β) (right : Reading γ) (next : β → γ → Reading α) : Reading α
  /-- A part that draws from a source of its own. -/
  | within {α β : Type} (source : IdSource) (part : Reading β) (next : β → Reading α) : Reading α

namespace Reading

variable {α β : Type}

def bind : {α : Type} → Reading α → (α → Reading β) → Reading β
  | _, .done (.ok a), f => f a
  | _, .done (.error e), _ => .done (.error e)
  | _, .draw label next, f => .draw label fun id => (next id).bind f
  | _, .both left right next, f => .both left right fun b c => (next b c).bind f
  | _, .within source part next, f => .within source part fun b => (next b).bind f

instance : Monad Reading where
  pure a := .done (.ok a)
  bind := bind

instance : MonadLift (Except ParseError) Reading where
  monadLift := .done

def issue (label : String) : Reading NodeId := .draw label pure

/-- Readings side by side, with their results in order. -/
def all : List (Reading α) → Reading (List α)
  | [] => pure []
  | t :: ts => .both t (all ts) fun a as => pure (a :: as)

/-- Reads part by part, and says what is left of the source. -/
def run : {α : Type} → Reading α → IdSource → Except ParseError (α × IdSource)
  | _, .done (.ok a), source => .ok (a, source)
  | _, .done (.error e), _ => .error e
  | _, .draw label next, source => (next (source.next label).1).run (source.next label).2
  | _, .both left right next, source =>
    match left.run source with
    | .error e => .error e
    | .ok (b, source) =>
      match right.run source with
      | .error e => .error e
      | .ok (c, source) => (next b c).run source
  | _, .within own part next, source =>
    match part.run own with
    | .error e => .error e
    | .ok (b, _) => (next b).run source

end Reading

end Parley.Grammar
