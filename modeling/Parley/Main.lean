import Parley.CommandLine.Run

/-! The command line program. -/

namespace Parley.CommandLine

/-- How a failure of the file system is reported. -/
def fileError : IO.Error → FileError
  | .alreadyExists .. => .alreadyExists
  | .inappropriateType .. => .notDirectory
  | _ => .missing

def attempt {α : Type} (action : IO α) : IO (Except FileError α) := do
  try
    return .ok (← action)
  catch e =>
    return .error (fileError e)

/-- The files of the system. -/
def systemFiles : Files IO where
  readText path := do
    match ← attempt (IO.FS.readBinFile path.text) with
    | .error e => return .error e
    | .ok bytes => return (String.fromUTF8? bytes).elim (.error .notText) .ok
  ensureDirectory path := do
    match ← attempt (IO.FS.createDir path.text) with
    | .error .alreadyExists => attempt (IO.FS.createDirAll path.text)
    | result => return result
  writeText path text := attempt (IO.FS.writeFile path.text text)

end Parley.CommandLine

open Parley.CommandLine in
def main (args : List String) : IO UInt32 := do
  let outcome ← run systemFiles args
  (← IO.getStdout).putStr outcome.printed
  (← IO.getStderr).putStr outcome.report
  return outcome.code.toUInt32
