import Parley.Session.Error

/-! Barriers: which branches of a fork have ended. -/

namespace Parley

structure Barrier where
  done : List Bool

namespace Barrier

def ofSize (branches : Nat) : Barrier := ⟨List.replicate branches false⟩

/-- Notes the end of a branch. -/
def signal (b : Barrier) (branch : Nat) : Except SessionError Barrier :=
  if branch < b.done.length then .ok ⟨b.done.set branch true⟩ else .error .joinMismatch

def isDone (b : Barrier) (branch : Nat) : Bool := b.done[branch]?.getD false

/-- Succeeds once all branches have ended, and else names the first that has not. -/
def tryJoin (b : Barrier) : Except SessionError Unit :=
  match b.done.idxOf? false with
  | some branch => .error (.branchIncomplete branch)
  | none => .ok ()

def shown (b : Barrier) : String :=
  "JoinBarrier \x7b done: [" ++ ", ".intercalate (b.done.map toString) ++ "] \x7d"

end Barrier

end Parley
