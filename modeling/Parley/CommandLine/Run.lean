import Parley.Compile
import Parley.CommandLine.Args
import Parley.CommandLine.Disk

/-! What the command line program does, over any way to reach files. -/

namespace Parley.CommandLine

/-- The files as the program reaches them. -/
structure Files (m : Type → Type) where
  readText : Path → m (Except FileError String)
  /-- Makes one directory unless it is there. -/
  ensureDirectory : Path → m (Except FileError Unit)
  writeText : Path → String → m (Except FileError Unit)

/-- How a run ends: the exit code and what is printed. -/
structure Outcome where
  code : Nat
  printed : String
  report : String

namespace Outcome

def success (printed : String) : Outcome := ⟨0, printed, ""⟩

def failure (e : CompileError) : Outcome := ⟨1, "", e.text⟩

def ofResult : Except CompileError String → Outcome
  | .ok printed => success printed
  | .error e => failure e

end Outcome

def usage : String :=
  "Usage: scrivener [-v] tokens|parse|project -i FILE\n"
    ++ "       scrivener [-v] gen-rust -i FILE [-i FILE...] [-m MODULE] [-o DIR] [--parallel] [--inline]\n"

def Refusal.outcome : Refusal → Outcome
  | .help => .success usage
  | .misuse => ⟨2, "", usage⟩

/-- A token with its place. -/
def tokenLine (t : Token) : String :=
  toString t.start.line ++ ":" ++ toString t.start.column ++ "\t" ++ t.text ++ "\n"

def tokenLines (text : String) : String := String.join ((Token.scan text).map tokenLine)

def withNewline (text : String) : String := text ++ "\n"

/-- Makes a directory and, as far as they are missing, those above it. Only a part that leads on has a
directory above it: where `a` is missing, `a/.` is not made by way of `a`. -/
def makeDirectories {m : Type → Type} [Monad m] (files : Files m) (p : Path) :
    m (Except FileError Unit) :=
  match _h : p.parent? with
  | none => return .ok ()
  | some parent => do
    match ← files.ensureDirectory p with
    | .error .missing =>
      match ← makeDirectories files parent with
      | .ok () => files.ensureDirectory p
      | .error e => return .error e
    | result => return result
termination_by p.parts.length
decreasing_by exact Path.length_parts_parent?_lt _h

/-- Writes a module to the file `mod.rs` in a directory of its name. -/
def writeModule {m : Type → Type} [Monad m] (files : Files m) (output moduleName source : String) :
    m (Except FileError Unit) := do
  let directory := (Path.ofText output).join (Path.ofText moduleName)
  match ← makeDirectories files directory with
  | .error e => return .error e
  | .ok () => files.writeText (directory.join (Path.ofText "mod.rs")) source

def runTask {m : Type → Type} [Monad m] (files : Files m) : Task → m Outcome
  | .tokens file => do
    let text ← files.readText (.ofText file)
    return .ofResult (tokenLines <$> text.mapError .file)
  | .parse file => do
    let text ← files.readText (.ofText file)
    return .ofResult (withNewline <$> (text.mapError .file >>= protocolJson))
  | .project file => do
    let text ← files.readText (.ofText file)
    return .ofResult (withNewline <$> (text.mapError .file >>= projectionJson))
  | .generate inputs options output? concurrent => do
    let texts ← inputs.mapM fun file => files.readText (.ofText file)
    match generate concurrent options texts, output? with
    | .error e, _ => return .failure e
    | .ok source, none => return .success (withNewline source)
    | .ok source, some output =>
      match ← writeModule files output options.moduleName source with
      | .error e => return .failure (.file e)
      | .ok () => return .success ""

/-- Runs the program with the given arguments. -/
def run {m : Type → Type} [Monad m] (files : Files m) (args : List String) : m Outcome :=
  match readInvocation args with
  | .error refusal => return refusal.outcome
  | .ok invocation => runTask files invocation.task

/-- An action on a tree in memory that leaves it as it is if it fails. -/
def changeDisk (f : Disk → Except FileError Disk) : StateM Disk (Except FileError Unit) := fun d =>
  match f d with
  | .error e => (.error e, d)
  | .ok d => (.ok (), d)

/-- A tree in memory as the files of the program. -/
def diskFiles : Files (StateM Disk) where
  readText path := fun d => (d.readText path, d)
  ensureDirectory path := changeDisk (·.ensureDirectory path)
  writeText path text := changeDisk (·.writeText path text)

/-- Runs the program in a tree in memory. -/
def runOnDisk (args : List String) (d : Disk) : Outcome × Disk := run diskFiles args d

end Parley.CommandLine
