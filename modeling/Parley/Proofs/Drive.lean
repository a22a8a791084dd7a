import Parley.Api.Landing
import Parley.Session.Fork

/-! How generated code moves sessions on. A landing in a state holds the session there; any other
landing uses it up. A crew is what the code of one role holds at a time: a session for each state it
stands in, and a joiner for each join it waits at. The mesh is left out, so that a crew may go on from
a message or into any branch of a choice. -/

namespace Parley

structure Post where
  state : String
  session : Session

/-- What becomes of a session that comes to a landing. -/
def Session.arrive (s : Session) (f : Forks) : Landing → Except SessionError (Option Post × Forks)
  | .state name => .ok (some ⟨name, s⟩, f)
  | .join _ => do
    let (_, f) ← s.complete f
    return (none, f)
  | .finish => do
    s.finish
    return (none, f)

inductive Holder where
  | post (post : Post)
  | pending (join : String) (joiner : Joiner)

/-- What a call leaves to hold, and the barriers behind it. -/
abbrev Moved := Except SessionError (List Holder × Forks)

def Session.goTo (s : Session) (x : Landing) (f : Forks) : Moved := do
  let (post?, f) ← s.arrive f x
  return (post?.toList.map .post, f)

def Session.goAll : List (Session × Landing) → Forks → Moved
  | [], f => .ok ([], f)
  | (s, x) :: rest, f => do
    let (hs, f) ← s.goTo x f
    let (hs', f) ← goAll rest f
    return (hs ++ hs', f)

def Session.forkTo (s : Session) (join : String) (xs : List Landing) (f : Forks) : Moved := do
  let (joiner, sessions, f) := s.fork xs.length f
  let (hs, f) ← goAll (sessions.zip xs) f
  return (.pending join joiner :: hs, f)

def Joiner.joinTo (j : Joiner) (x : Landing) (f : Forks) : Moved := do
  let s ← j.join f
  s.goTo x f

/-- The calls that can be made with what is held, and the parallel steps that they open. -/
inductive Projection.Method (p : Projection) : Holder → List NodeId → (Forks → Moved) → Prop where
  | message {r : MessageRecord} {x : Landing} {s : Session} :
      r ∈ p.messages → p.landing r.next = .ok x → p.Method (.post ⟨r.state, s⟩) [] (s.goTo x)
  | choice {r : ChoiceRecord} {b : ChoiceBranch} {x : Landing} {s : Session} :
      r ∈ p.choices → b ∈ r.branches → p.landing b.entry = .ok x →
      p.Method (.post ⟨r.state, s⟩) [] (s.goTo x)
  | fork {r : ParRecord} {xs : List Landing} {s : Session} :
      r ∈ p.pars → r.branches.mapM p.landing = .ok xs →
      p.Method (.post ⟨r.state, s⟩) [r.id] (s.forkTo r.join xs)
  | join {r : ParRecord} {x : Landing} {j : Joiner} :
      r ∈ p.pars → p.landing r.next = .ok x → p.Method (.pending r.join j) [] (j.joinTo x)

structure Crew where
  forks : Forks
  /-- The parallel step of each fork so far. -/
  opened : List NodeId
  holders : List Holder

namespace Crew

def empty : Crew := ⟨.empty, [], []⟩

/-- One call of the generated code, which uses up what it is made with, or the loss of what is held,
as by a call that fails. -/
inductive Step (p : Projection) : Crew → Crew → Prop where
  | start {c : Crew} {x : Landing} {hs : List Holder} {f : Forks} : p.landing p.start = .ok x →
      (Session.start p.protagonist).goTo x c.forks = .ok (hs, f) →
      Step p c ⟨f, c.opened, hs ++ c.holders⟩
  | call {c : Crew} {h : Holder} {before after hs : List Holder} {opened : List NodeId}
      {method : Forks → Moved} {f : Forks} : c.holders = before ++ h :: after →
      p.Method h opened method → method c.forks = .ok (hs, f) →
      Step p c ⟨f, c.opened ++ opened, hs ++ (before ++ after)⟩
  | drop {c : Crew} {h : Holder} {before after : List Holder} :
      c.holders = before ++ h :: after → Step p c { c with holders := before ++ after }

end Crew

end Parley
