import Parley.CommandLine.Path
import Parley.Error

/-! A file system in memory: the null device, a working directory, and what is put there. -/

namespace Parley.CommandLine

/-- Where a file or directory lies, from the root to its own name. -/
abbrev Location := List String

structure Disk where
  files : List (Location × ByteArray)
  directories : List Location

namespace Disk

/-- The working directory. -/
def home : Location := ["tmp", "work"]

def nullDevice : Location := ["dev", "null"]

def file? (d : Disk) (l : Location) : Option ByteArray := d.files.lookup l

/-- The root, a directory that was made, or one that something lies in. -/
def isDirectory (d : Disk) (l : Location) : Bool :=
  l.isEmpty || d.directories.any (l.isPrefixOf ·) || d.files.any fun f => l != f.1 && l.isPrefixOf f.1

/-- The given files in the working directory, under their paths from there. -/
def ofFiles (files : List (String × ByteArray)) : Disk where
  files := (nullDevice, ByteArray.empty) :: files.map fun (path, bytes) =>
    (home ++ (Path.ofText path).parts.filter fun part => part != "" && part != ".", bytes)
  directories := [home]

/-- A name has at most 255 bytes. -/
def checkName (name : String) : Except FileError Unit :=
  if name.utf8ByteSize > 255 then .error .nameTooLong else .ok ()

/-- A path has at most 4095 bytes in all. -/
def checkPath (p : Path) : Except FileError Unit :=
  if p.text.utf8ByteSize > 4095 then .error .nameTooLong else .ok ()

def checkDirectory (d : Disk) (l : Location) : Except FileError Unit :=
  if (d.file? l).isSome then .error .notDirectory
  else if d.isDirectory l then .ok ()
  else .error .missing

/-- Where parts of a path lead from `here`. Every place that is left has to be a directory; what the
last part leads to need not exist. The root is its own parent. -/
def locate (d : Disk) (here : Location) : List String → Except FileError Location
  | [] => .ok here
  | part :: rest => do
    d.checkDirectory here
    if part == "" || part == "." then d.locate here rest
    else if part == ".." then d.locate here.dropLast rest
    else do
      checkName part
      d.locate (here ++ [part]) rest

def start (p : Path) : Location := if p.absolute then [] else home

def readText (d : Disk) (p : Path) : Except FileError String := do
  checkPath p
  let l ← d.locate (start p) p.parts
  match d.file? l with
  | some bytes => (String.fromUTF8? bytes).elim (.error .notText) .ok
  | none => throw (if d.isDirectory l then .isDirectory else .missing)

/-- Makes one directory unless it is there. The one it lies in has to be there; a dot or two at the
end of the path name a directory that is there if the path leads to them at all. -/
def ensureDirectory (d : Disk) (p : Path) : Except FileError Disk := do
  checkPath p
  match p.parts.reverse.dropWhile (· == "") with
  | [] => return d
  | part :: before =>
    let here ← d.locate (start p) before.reverse
    d.checkDirectory here
    if part == "." || part == ".." then return d
    checkName part
    if (d.file? (here ++ [part])).isSome then throw .alreadyExists
    return { d with directories := (here ++ [part]) :: d.directories }

def writeText (d : Disk) (p : Path) (text : String) : Except FileError Disk := do
  checkPath p
  let l ← d.locate (start p) p.parts
  if d.isDirectory l then throw .isDirectory
  return { d with files := (l, text.toUTF8) :: d.files.filter (·.1 != l) }

/-- The files in the working directory that were not there before, with their texts, under their
paths from there. -/
def added (before after : Disk) : List (String × String) :=
  (after.files.filter fun f => home.isPrefixOf f.1 && (before.file? f.1).isNone).filterMap fun f =>
    (String.fromUTF8? f.2).map fun text => ("/".intercalate (f.1.drop home.length), text)

end Disk

end Parley.CommandLine
