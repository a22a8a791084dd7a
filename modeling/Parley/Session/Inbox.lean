/-! Inboxes: the messages from one role to another that have not been received. -/

namespace Parley

universe u v

/-- A message under its label. -/
structure Envelope (μ : Type u) where
  label : String
  body : μ
deriving DecidableEq

/-- The messages that a receiver has looked at and left, and behind them those that have arrived
since. -/
structure Inbox (μ : Type u) where
  pending : List (Envelope μ)
  arrived : List (Envelope μ)

/-- What to find among messages in order of arrival, and what is left of them. -/
abbrev Selector (μ : Type u) (α : Type v) := List (Envelope μ) → Option (α × List (Envelope μ))

namespace Selector

variable {μ : Type u}

/-- Takes the oldest message with a label. -/
def take (label : String) : Selector μ μ
  | [] => none
  | e :: es =>
    if e.label == label then some (e.body, es)
    else (take label es).map fun (body, rest) => (body, e :: rest)

/-- The place in `labels` of the label of the oldest message that has one of them. The message stays. -/
def peek (labels : List String) : Selector μ Nat := fun es =>
  (es.findSome? fun e => labels.idxOf? e.label).map fun i => (i, es)

end Selector

namespace Inbox

variable {μ : Type u}

def empty : Inbox μ := ⟨[], []⟩

/-- All messages, the oldest first. -/
def queue (b : Inbox μ) : List (Envelope μ) := b.pending ++ b.arrived

def deliver (b : Inbox μ) (e : Envelope μ) : Inbox μ := { b with arrived := b.arrived ++ [e] }

/-- Looks among the pending messages, and takes in one arrived message after the other until something
is found. -/
def pollFrom {α : Type v} (select : Selector μ α) (pending : List (Envelope μ)) :
    List (Envelope μ) → Option α × Inbox μ
  | [] =>
    match select pending with
    | some (a, rest) => (some a, ⟨rest, []⟩)
    | none => (none, ⟨pending, []⟩)
  | e :: es =>
    match select pending with
    | some (a, rest) => (some a, ⟨rest, e :: es⟩)
    | none => pollFrom select (pending ++ [e]) es

/-- What a selector finds, if anything, and the inbox after the search. -/
def poll {α : Type v} (select : Selector μ α) (b : Inbox μ) : Option α × Inbox μ :=
  pollFrom select b.pending b.arrived

end Inbox

end Parley
