import Parley.Session.Barrier
import Parley.Text.Shown

/-! Sessions that fork into branches and join again. Forks are numbered in the order in which they
happen, and the barrier of each is kept under its number. -/

namespace Parley

/-- A branch of a numbered fork. -/
structure Branch where
  fork : Nat
  index : Nat
deriving DecidableEq

/-- What a role holds while it runs: the branches it runs inside, innermost first. -/
structure Session where
  role : String
  joins : List Branch
deriving DecidableEq

/-- The session that forked, held back until its branches have ended. -/
structure Joiner where
  session : Session
  fork : Nat
deriving DecidableEq

/-- The barriers of all forks so far. -/
structure Forks where
  barriers : List Barrier

namespace Forks

def empty : Forks := ⟨[]⟩

def barrier (f : Forks) (fork : Nat) : Barrier := f.barriers[fork]?.getD ⟨[]⟩

/-- The number of a new fork. -/
def fresh (f : Forks) : Nat := f.barriers.length

def add (f : Forks) (branches : Nat) : Forks := ⟨f.barriers ++ [Barrier.ofSize branches]⟩

def signal (f : Forks) (b : Branch) : Except SessionError Forks := do
  let barrier ← (f.barrier b.fork).signal b.index
  return ⟨f.barriers.set b.fork barrier⟩

end Forks

namespace Session

def start (role : String) : Session := ⟨role, []⟩

/-- A branch of a session at a fork. -/
def branch (s : Session) (fork index : Nat) : Session := { s with joins := ⟨fork, index⟩ :: s.joins }

/-- Splits a session into as many branches as asked for. -/
def fork (s : Session) (branches : Nat) (f : Forks) : Joiner × List Session × Forks :=
  (⟨s, f.fresh⟩, (List.range branches).map (s.branch f.fresh), f.add branches)

/-- Ends the innermost branch, and says which it was. -/
def complete (s : Session) (f : Forks) : Except SessionError (Nat × Forks) :=
  match s.joins with
  | [] => .error .joinMismatch
  | b :: _ => do
    let f ← f.signal b
    return (b.index, f)

/-- Ends a session that is in no branch. -/
def finish (s : Session) : Except SessionError Unit :=
  if s.joins.isEmpty then .ok () else .error .joinMismatch

def shown (s : Session) : String :=
  "Session \x7b role: " ++ Text.shown s.role ++ ", depth: " ++ toString s.joins.length ++ " \x7d"

def finishedShown (s : Session) : String := "Finished \x7b session: " ++ s.shown ++ " \x7d"

end Session

namespace Joiner

def tryJoin (j : Joiner) (f : Forks) : Except SessionError Unit := (f.barrier j.fork).tryJoin

def ready (j : Joiner) (f : Forks) : Bool := (j.tryJoin f).isOk

/-- The forked session, once all branches have ended. -/
def join (j : Joiner) (f : Forks) : Except SessionError Session := do
  j.tryJoin f
  return j.session

def shown (j : Joiner) (f : Forks) : String :=
  "Joiner \x7b session: " ++ j.session.shown ++ ", barrier: " ++ (f.barrier j.fork).shown ++ " \x7d"

end Joiner

def branchDoneShown (branch : Nat) : String := "BranchDone \x7b branch: " ++ toString branch ++ " \x7d"

def endpointShown (role : String) : String := "Endpoint \x7b role: " ++ Text.shown role ++ " \x7d"

end Parley
