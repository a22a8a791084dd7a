import Parley.Api.Source

/-! The arguments of the command line: a subcommand with its options, and one flag that may stand
before it or among them. -/

namespace Parley.CommandLine

/-- Why arguments name no task. -/
inductive Refusal where
  | help
  | misuse
deriving DecidableEq

/-- What an option is followed by. -/
inductive Operand where
  | nothing
  | text
  /-- A text that is not empty. -/
  | path
deriving DecidableEq

/-- An option that is given by a word and perhaps also by a letter. -/
structure Switch where
  word : String
  letter? : Option Char
  operand : Operand
  repeatable : Bool
deriving DecidableEq

/-- An option as given. -/
structure Setting where
  switch : Switch
  value : String

/-- The kinds of argument. A single hyphen is an ordinary word. -/
inductive Argument where
  | word (text : String)
  | long (name : List Char)
  | short (letters : List Char)
  | escape

def classify (arg : String) : Argument :=
  match arg.toList with
  | ['-', '-'] => .escape
  | '-' :: '-' :: name => .long name
  | '-' :: c :: cs => .short (c :: cs)
  | _ => .word arg

def helpSwitch : Switch := ⟨"help", some 'h', .nothing, false⟩

/-- Adds a setting, unless it repeats one that may be given only once or its value is refused. -/
def addSetting (s : Switch) (value : String) (given : List Setting) :
    Except Refusal (List Setting) :=
  if s == helpSwitch then .error .help
  else if !s.repeatable && given.any (·.switch == s) then .error .misuse
  else if s.operand == .path && value.isEmpty then .error .misuse
  else .ok (given ++ [⟨s, value⟩])

/-- Reads a group of letters. Those before one that takes a value are flags; the rest of the group is
its value, with or without an equals sign before it. If the group ends there, the switch still waits
for its value. -/
def readLetters (switches : List Switch) (given : List Setting) :
    List Char → Except Refusal (List Setting × Option Switch)
  | [] => .ok (given, none)
  | c :: cs =>
    match switches.find? (·.letter? == some c) with
    | none => .error .misuse
    | some s =>
      if s.operand == .nothing then do
        let given ← addSetting s "" given
        readLetters switches given cs
      else
        match cs with
        | [] => .ok (given, some s)
        | '=' :: value => (·, none) <$> addSetting s (String.ofList value) given
        | value => (·, none) <$> addSetting s (String.ofList value) given

/-- Reads a long option, which may bring its value behind an equals sign. -/
def readName (switches : List Switch) (given : List Setting) (name : List Char) :
    Except Refusal (List Setting × Option Switch) :=
  let word := String.ofList (name.takeWhile (· != '='))
  match switches.find? (·.word == word), name.dropWhile (· != '=') with
  | none, _ => .error .misuse
  | some s, [] =>
    if s.operand == .nothing then (·, none) <$> addSetting s "" given else .ok (given, some s)
  | some s, _ :: value =>
    if s.operand == .nothing then .error .misuse
    else (·, none) <$> addSetting s (String.ofList value) given

/-- Reads options up to the first word that is not the value of one. `waiting?` is the option whose
value comes next. -/
def readSettings (switches : List Switch) (waiting? : Option Switch) (given : List Setting) :
    List String → Except Refusal (List Setting × List String)
  | [] => if waiting?.isSome then .error .misuse else .ok (given, [])
  | arg :: args =>
    match waiting?, classify arg with
    | some s, .word text => do
      let given ← addSetting s text given
      readSettings switches none given args
    | some _, _ => .error .misuse
    | none, .word _ => .ok (given, arg :: args)
    | none, .escape => if args.isEmpty then .ok (given, []) else .error .misuse
    | none, .long name => do
      let (given, waiting?) ← readName switches given name
      readSettings switches waiting? given args
    | none, .short letters => do
      let (given, waiting?) ← readLetters switches given letters
      readSettings switches waiting? given args

def verbose : Switch := ⟨"verbose", some 'v', .nothing, false⟩

def input : Switch := ⟨"input", some 'i', .path, false⟩

def inputs : Switch := ⟨"input", some 'i', .path, true⟩

def moduleName : Switch := ⟨"module", some 'm', .text, false⟩

def output : Switch := ⟨"output", some 'o', .path, false⟩

def parallel : Switch := ⟨"parallel", none, .nothing, false⟩

def inline : Switch := ⟨"inline", none, .nothing, false⟩

def values (s : Switch) (given : List Setting) : List String :=
  (given.filter (·.switch == s)).map (·.value)

def isSet (s : Switch) (given : List Setting) : Bool := given.any (·.switch == s)

/-- What the program is to do. -/
inductive Task where
  | tokens (input : String)
  | parse (input : String)
  | project (input : String)
  | generate (inputs : List String) (options : Api.Options) (output? : Option String)
      (concurrent : Bool)

structure Invocation where
  verbose : Bool
  task : Task

/-- Reads the options of a subcommand, which takes no further words. -/
def readOptions (switches : List Switch) (args : List String) : Except Refusal (List Setting) := do
  let (given, rest) ← readSettings (helpSwitch :: verbose :: switches) none [] args
  if rest.isEmpty then return given else throw .misuse

/-- A subcommand with one input file. -/
def readInputTask (task : String → Task) (args : List String) : Except Refusal Invocation := do
  let given ← readOptions [input] args
  match values input given with
  | [file] => return ⟨isSet verbose given, task file⟩
  | _ => throw .misuse

def readGenerate (args : List String) : Except Refusal Invocation := do
  let given ← readOptions [inputs, moduleName, output, parallel, inline] args
  let files := values inputs given
  if files.isEmpty then throw .misuse
  let options := {
    moduleName := (values moduleName given).head?.getD "protocol"
    inline := isSet inline given }
  return ⟨isSet verbose given,
    .generate files options (values output given).head? (isSet parallel given)⟩

/-- The subcommands and how their arguments are read. -/
def subcommands : List (String × (List String → Except Refusal Invocation)) :=
  [("tokens", readInputTask .tokens), ("parse", readInputTask .parse),
    ("project", readInputTask .project), ("gen-rust", readGenerate)]

/-- The subcommand `help` takes the name of one more subcommand. -/
def readHelp : List String → Refusal
  | [] => .help
  | [name] => if name == "help" || (subcommands.lookup name).isSome then .help else .misuse
  | _ => .misuse

/-- Reads all arguments. -/
def readInvocation (args : List String) : Except Refusal Invocation := do
  let (given, rest) ← readSettings [helpSwitch, verbose] none [] args
  match rest with
  | [] => throw .misuse
  | name :: rest =>
    match subcommands.lookup name with
    | some read => do
      let invocation ← read rest
      return { invocation with verbose := invocation.verbose || isSet verbose given }
    | none => throw (if name == "help" then readHelp rest else .misuse)

end Parley.CommandLine
