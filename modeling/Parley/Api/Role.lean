import Parley.Api.Landing
import Parley.Api.Variant

/-! The source of one role: a type for each state, whose methods consume it and return the next. -/

namespace Parley.Api

open Text

/-- The type of a state. -/
def stateType (state doc : String) : Paragraph :=
  ["/// " ++ doc, "pub struct " ++ state ++ "(Session<Msg>);"]

def implOf (state : String) (body : List String) : Paragraph := block ("impl " ++ state) body

def takeSession : String := "let session = self.0;"

/-- The report of a message that is none of those awaited. -/
def unexpectedArm (pattern state expected found : String) : List String :=
  nest (pattern ++ " => Err(SessionError::UnexpectedMessage \x7b")
    ["state:    " ++ quote state ++ ".to_string(),",
      "expected: " ++ quote expected ++ ".to_string(),",
      "found:    " ++ found ++ ".to_string(),"]
    "\x7d),"

/-- Names for the payloads of a message. -/
def payloadNames (payloads : List String) : List String :=
  (List.range payloads.length).map fun i => "p" ++ toString i

def messageDoc (r : MessageRecord) : String :=
  let m := r.message
  "`" ++ m.name ++ "(" ++ commaList m.payloads ++ ")` " ++
    match r.direction with
    | .send => "to " ++ m.receiver
    | .receive => "from " ++ m.sender

def emitMethod (m : Message) (value : String) (next : Landing) : List String :=
  let params := (payloadNames m.payloads).zip m.payloads |>.map fun (name, type) =>
    ", " ++ name ++ ": " ++ typeName type
  block ("pub fn emit_" ++ snakeCase m.name ++ "(self" ++ String.join params ++ ") -> "
      ++ resultOf next.typeName)
    [takeSession,
      "session.send(" ++ quote m.receiver ++ ", " ++ quote m.name ++ ", " ++ value ++ ")?;",
      "Ok(" ++ next.value "session" ++ ")"]

def awaitMethod (m : Message) (state value : String) (next : Landing) : List String :=
  let (type, result) :=
    if m.payloads.isEmpty then (next.typeName, next.value "session")
    else ("(" ++ next.typeName ++ ", " ++ commaList (m.payloads.map Api.typeName) ++ ")",
      "(" ++ next.value "session" ++ ", " ++ commaList (payloadNames m.payloads) ++ ")")
  block ("pub fn await_" ++ snakeCase m.name ++ "(self) -> " ++ resultOf type)
    (takeSession ::
      block ("match session.recv(" ++ quote m.sender ++ ", " ++ quote m.name ++ ")?")
        ((value ++ " => Ok(" ++ result ++ "),")
          :: unexpectedArm "other" state m.name "other.label()"))

def messageItems (p : Projection) (vs : List Variant) (r : MessageRecord) :
    Except ApiError (List Paragraph) := do
  let v ← variantOf vs r
  let next ← p.landing r.next
  let m := r.message
  let value := "Msg::" ++ v.name ++
    (if m.payloads.isEmpty then "" else "(" ++ commaList (payloadNames m.payloads) ++ ")")
  let method :=
    match r.direction with
    | .send => emitMethod m value next
    | .receive => awaitMethod m r.state value next
  return [stateType r.state (messageDoc r), implOf r.state method]

/-- Whether the signals of all branches name their branches apart. -/
def signalsTell (branches : List ChoiceBranch) : Bool :=
  let names := branches.filterMap fun b => b.signal?.map fun s => snakeCase s.label
  names.eraseDups.length == branches.length

def chooserMethod (p : Projection) (named : Bool) (b : ChoiceBranch) :
    Except ApiError (List String) := do
  let name :=
    match b.signal? with
    | some s => if named then snakeCase s.label else "branch" ++ toString b.index
    | none => "branch" ++ toString b.index
  let next ← p.landing b.entry
  return block ("pub fn select_" ++ name ++ "(self) -> " ++ resultOf next.typeName)
    [takeSession, "Ok(" ++ next.value "session" ++ ")"]

def chooserItems (p : Projection) (r : ChoiceRecord) : Except ApiError (List Paragraph) := do
  let methods ← r.branches.mapM (chooserMethod p (signalsTell r.branches))
  return [stateType r.state ("Choice made here by " ++ r.chooser ++ "."),
    implOf r.state methods.flatten]

/-- The labels by which an observer tells the branches apart; `labels` holds those of the branches
before. -/
def observedLabels (r : ChoiceRecord) (labels : List String) :
    List ChoiceBranch → Except ApiError (List String)
  | [] => .ok labels
  | b :: bs =>
    match b.signal?.filter fun s => s.direction == .receive && s.sender == r.chooser with
    | none => .error (.noSignal b.index r.state r.chooser)
    | some s =>
      if labels.contains s.label then .error (.signalTwice r.state s.label)
      else
        match labels.find? fun l => pascalCase l == pascalCase s.label with
        | some l => .error (.branchClash l s.label r.state (pascalCase s.label))
        | none => observedLabels r (labels ++ [s.label]) bs

/-- The type of what an observer of a choice learns. -/
def branchType (r : ChoiceRecord) : String := r.state ++ "_Branch"

def observerItems (p : Projection) (r : ChoiceRecord) : Except ApiError (List Paragraph) := do
  let labels ← observedLabels r [] r.branches
  let landings ← r.branches.mapM fun b => p.landing b.entry
  let cases := labels.zip landings
  let arms := cases.zipIdx.map fun ((label, next), i) =>
    toString i ++ " => Ok(" ++ branchType r ++ "::" ++ pascalCase label ++ "("
      ++ next.value "session" ++ ")),"
  return [
    ("/// Branches " ++ r.chooser ++ " may select at " ++ r.state ++ ".")
      :: block ("pub enum " ++ branchType r)
        (cases.map fun (label, next) => pascalCase label ++ "(" ++ next.typeName ++ "),"),
    stateType r.state ("Waits for " ++ r.chooser ++ " to choose a branch."),
    implOf r.state
      (block ("pub fn resolve(self) -> " ++ resultOf (branchType r))
        (takeSession ::
          block ("match session.wait_any(" ++ quote r.chooser ++ ", &["
              ++ commaList (labels.map quote) ++ "])?")
            (arms ++ unexpectedArm "_" r.state (" | ".intercalate labels) "\"none\"")))]

def choiceItems (p : Projection) (r : ChoiceRecord) : Except ApiError (List Paragraph) :=
  match r.role with
  | .chooser => chooserItems p r
  | .observer => observerItems p r

def parItems (p : Projection) (r : ParRecord) : Except ApiError (List Paragraph) := do
  let landings ← r.branches.mapM p.landing
  let count := r.branches.length
  let names := (List.range count).map fun i => "b" ++ toString (i + 1)
  let values := (landings.zip names).map fun (l, name) => l.value name
  let next ← p.landing r.next
  return [
    stateType r.state ("Forks into " ++ toString count ++ " parallel branches."),
    implOf r.state
      (block ("pub fn fork(self) -> "
          ++ resultOf ("(" ++ commaList (r.join :: landings.map (·.typeName)) ++ ")"))
        ["let (joiner, [" ++ commaList names ++ "]) = self.0.fork::<" ++ toString count ++ ">();",
          "Ok((" ++ commaList ((r.join ++ "(joiner)") :: values) ++ "))"]),
    ["/// Joins the branches forked at " ++ r.state ++ ".",
      "pub struct " ++ r.join ++ "(Joiner<Msg>);"],
    implOf r.join
      (block "pub fn ready(&self) -> bool" ["self.0.ready()"] ++ [""]
        ++ block ("pub fn join(self) -> " ++ resultOf next.typeName)
          ["let session = self.0.join()?;", "Ok(" ++ next.value "session" ++ ")"])]

/-- Whether a text begins with another. -/
def beginsWith (text start : String) : Bool := start.toList.isPrefixOf text.toList

/-- A way out of a loop other than its end: the variant and the state it goes to. -/
structure WayOut where
  variant : String
  state : String

/-- The jumps from inside a loop to the start of a loop around it, one for each state, apart from
those that go where the loop starts or ends anyway; `found` holds those of the jumps before. -/
def waysOut (p : Projection) (r : LoopRecord) (exit : String) (found : List WayOut) :
    List JumpRecord → Except ApiError (List WayOut)
  | [] => .ok found
  | j :: js =>
    if !beginsWith j.state (r.stem ++ "_") then waysOut p r exit found js
    else
      match j.target with
      | .back loop label state =>
        match p.loop? loop with
        | none => .error (.noLoop label)
        | some outer =>
          if outer.id == r.id || !beginsWith r.stem (outer.stem ++ "_") || state == r.state
              || state == exit || found.any (·.state == state) then
            waysOut p r exit found js
          else waysOut p r exit (found ++ [⟨"Continue_" ++ label, state⟩]) js
      | _ => waysOut p r exit found js

def variantLine (variant state : String) : String := variant ++ "(" ++ state ++ "),"

/-- A conversion into one variant of a type. -/
def fromImpl (state type variant : String) : Paragraph :=
  block ("impl From<" ++ state ++ "> for " ++ type)
    (block ("fn from(state: " ++ state ++ ") -> Self") [type ++ "::" ++ variant ++ "(state)"])

/-- The type of what one pass through a loop comes to. -/
def stepType (r : LoopRecord) : String := r.stem ++ "_Step"

/-- The type of how a loop was left, where there is more than one way. -/
def leaveType (r : LoopRecord) : String := r.stem ++ "_Exit"

/-- The function that goes round a loop. -/
def driverName (r : LoopRecord) : String := "drive_" ++ snakeCase r.stem

def loopItems (p : Projection) (r : LoopRecord) : Except ApiError (List Paragraph) := do
  let exit := (← p.landing r.next).typeName
  let ways ← waysOut p r exit [] p.jumps
  let result := if ways.isEmpty then exit else leaveType r
  let wayLines := ways.map fun w => variantLine w.variant w.state
  let stepItem := ("/// Outcome of one pass through rec " ++ r.label ++ ".")
    :: block ("pub enum " ++ stepType r) (variantLine "Again" r.state :: variantLine "Done" exit :: wayLines)
  let conversions := fromImpl r.state (stepType r) "Again"
    :: (if exit != r.state then [fromImpl exit (stepType r) "Done"] else [])
    ++ ways.map fun w => fromImpl w.state (stepType r) w.variant
  let leaveItem :=
    if ways.isEmpty then []
    else [("/// How rec " ++ r.label ++ " was left.")
      :: block ("pub enum " ++ leaveType r) (variantLine "Done" exit :: wayLines)]
  let doneArm :=
    if ways.isEmpty then stepType r ++ "::Done(exit) => return Ok(exit),"
    else stepType r ++ "::Done(exit) => return Ok(" ++ leaveType r ++ "::Done(exit)),"
  let wayArms := ways.map fun w =>
    stepType r ++ "::" ++ w.variant ++ "(next) => return Ok(" ++ leaveType r ++ "::" ++ w.variant ++ "(next)),"
  let driver :=
    ["/// Runs `body` from " ++ r.state ++ " until it leaves rec " ++ r.label ++ ".",
      "pub fn " ++ driverName r ++ "<F>(mut state: " ++ r.state ++ ", mut body: F) -> "
        ++ resultOf result,
      "where",
      "    F: FnMut(" ++ r.state ++ ") -> " ++ resultOf (stepType r) ++ ","]
    ++ nest "\x7b"
      (block "loop" (block "match body(state)?"
        ((stepType r ++ "::Again(next) => state = next,") :: doneArm :: wayArms)))
      "\x7d"
  return stepItem :: conversions ++ leaveItem ++ [driver]

def callNote (r : CallRecord) : String :=
  "// do " ++ r.name ++ "(" ++ commaList r.roles ++ ") at " ++ r.state
    ++ " is an external protocol and is not expanded."

/-- All items of one role. -/
def roleItems (p : Projection) (vs : List Variant) : Except ApiError (List Paragraph) := do
  let start ← p.landing p.start
  let messages ← p.messages.mapM (messageItems p vs)
  let choices ← p.choices.mapM (choiceItems p)
  let pars ← p.pars.mapM (parItems p)
  let loops ← p.loops.mapM (loopItems p)
  let roles := ["pub const ROLE: &str = " ++ quote p.protagonist ++ ";",
    "pub const ROLES: &[&str] = &[" ++ commaList (p.roles.map quote) ++ "];"]
  let calls := if p.calls.isEmpty then [] else [p.calls.map callNote]
  let starter := ("/// Opens the " ++ p.protagonist ++ " session of `" ++ p.localName
      ++ "` on `endpoint`.")
    :: block ("pub fn start(endpoint: Endpoint<Msg>) -> " ++ resultOf start.typeName)
      ["let session = Session::new(endpoint);", "Ok(" ++ start.value "session" ++ ")"]
  return roles :: calls ++ [starter]
    ++ (messages ++ choices ++ pars ++ loops).flatten

end Parley.Api
