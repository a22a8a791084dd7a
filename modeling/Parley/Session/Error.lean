/-! What can go wrong in a running session. -/

namespace Parley

inductive SessionError where
  | unexpectedMessage (state expected found : String)
  | branchIncomplete (branch : Nat)
  /-- A branch is ended outside every fork, or a session inside one. -/
  | joinMismatch
  | disconnected (role : String)
  | unknownRole (role : String)
  | poisoned
deriving DecidableEq

def SessionError.text : SessionError → String
  | .unexpectedMessage state expected found =>
    "Unexpected message in state " ++ state ++ ": expected " ++ expected ++ ", found " ++ found
  | .branchIncomplete branch => "Parallel branch " ++ toString branch ++ " has not completed"
  | .joinMismatch => "Branch completion does not match any open parallel block"
  | .disconnected role => "The channel from " ++ role ++ " was closed"
  | .unknownRole role => "Unknown role: " ++ role
  | .poisoned => "A session lock was poisoned by a panicking thread"

end Parley
