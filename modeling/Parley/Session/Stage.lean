import Parley.Session.Fork
import Parley.Session.Mesh

/-! A stage is a mesh with named slots for the handles in use, and runs one command after the other.
Whatever consumes a handle takes it out of its slot, so no handle is used twice. -/

namespace Parley

universe u

/-- A call that may have to wait. -/
inductive Request where
  | recv (sender label : String)
  | waitAny (sender : String) (labels : List String)

inductive Handle where
  | session (session : Session)
  | joiner (joiner : Joiner)
  /-- A session that is busy with a call until that is awaited. -/
  | task (session : Session) (request : Request)

structure Stage (μ : Type u) where
  mesh : Mesh μ
  forks : Forks
  slots : List (String × Handle)

inductive Command (μ : Type u) where
  | roles
  | start (role slot : String)
  | role (slot : String)
  | send (slot receiver label : String) (body : μ)
  | request (slot : String) (request : Request)
  | fork (slot joiner : String) (branches : List String)
  | complete (slot : String)
  | finish (slot : String)
  | ready (joiner : String)
  | tryJoin (joiner : String)
  | join (joiner slot : String)
  | showMesh
  | showEndpoint (role : String)
  | showSession (slot : String)
  | showJoiner (joiner : String)
  | spawn (slot : String) (request : Request)
  | await (slot : String)

inductive Answer (μ : Type u) where
  | roles (roles : List String)
  | role (role : String)
  | sent
  | received (body : μ)
  | index (index : Nat)
  | blocked
  | branches (count : Nat)
  | completed (branch : Nat)
  | finished (session : Session)
  | ready (ready : Bool)
  | joined
  | shown (text : String)
  | spawned
  | failed (error : SessionError)
  | noSession
  | noJoiner
  | noTask

namespace Stage

variable {μ : Type u}

def ofRoles (roles : List String) : Stage μ := ⟨Mesh.ofRoles roles, Forks.empty, []⟩

def clear (s : Stage μ) (slot : String) : Stage μ :=
  { s with slots := s.slots.filter (·.1 != slot) }

/-- Puts a handle into a slot in place of what was there. -/
def put (s : Stage μ) (slot : String) (h : Handle) : Stage μ :=
  { s with slots := (slot, h) :: (s.clear slot).slots }

def session? (s : Stage μ) (slot : String) : Option Session :=
  match s.slots.lookup slot with
  | some (.session session) => some session
  | _ => none

def joiner? (s : Stage μ) (slot : String) : Option Joiner :=
  match s.slots.lookup slot with
  | some (.joiner joiner) => some joiner
  | _ => none

def task? (s : Stage μ) (slot : String) : Option (Session × Request) :=
  match s.slots.lookup slot with
  | some (.task session request) => some (session, request)
  | _ => none

/-- Runs a call of a session that may have to wait. -/
def call (s : Stage μ) (session : Session) : Request → Answer μ × Stage μ
  | .recv sender label =>
    match s.mesh.recv session.role sender label with
    | .error e => (.failed e, s)
    | .ok (found, mesh) => (found.elim .blocked .received, { s with mesh })
  | .waitAny sender labels =>
    match s.mesh.waitAny session.role sender labels with
    | .error e => (.failed e, s)
    | .ok (found, mesh) => (found.elim .blocked .index, { s with mesh })

def withSession (s : Stage μ) (slot : String) (k : Session → Answer μ × Stage μ) :
    Answer μ × Stage μ :=
  match s.session? slot with
  | some session => k session
  | none => (.noSession, s)

def withJoiner (s : Stage μ) (slot : String) (k : Joiner → Answer μ × Stage μ) :
    Answer μ × Stage μ :=
  match s.joiner? slot with
  | some joiner => k joiner
  | none => (.noJoiner, s)

def start (s : Stage μ) (role slot : String) : Answer μ × Stage μ :=
  match s.mesh.checkRole role with
  | .error e => (.failed e, s)
  | .ok () => (.role role, s.put slot (.session (Session.start role)))

def send (s : Stage μ) (session : Session) (receiver label : String) (body : μ) :
    Answer μ × Stage μ :=
  match s.mesh.send session.role receiver label body with
  | .error e => (.failed e, s)
  | .ok mesh => (.sent, { s with mesh })

/-- The joiner is put into its slot first, then the branches into theirs. -/
def fork (s : Stage μ) (slot joiner : String) (branches : List String) (session : Session) :
    Answer μ × Stage μ :=
  let (held, sessions, forks) := session.fork branches.length s.forks
  let s := { s.clear slot with forks }
  (.branches branches.length,
    (branches.zip sessions).foldl (fun s (name, branch) => s.put name (.session branch))
      (s.put joiner (.joiner held)))

def complete (s : Stage μ) (slot : String) (session : Session) : Answer μ × Stage μ :=
  let s := s.clear slot
  match session.complete s.forks with
  | .error e => (.failed e, s)
  | .ok (branch, forks) => (.completed branch, { s with forks })

def finish (s : Stage μ) (slot : String) (session : Session) : Answer μ × Stage μ :=
  let s := s.clear slot
  match session.finish with
  | .error e => (.failed e, s)
  | .ok () => (.finished session, s)

def tryJoin (s : Stage μ) (joiner : Joiner) : Answer μ × Stage μ :=
  match joiner.tryJoin s.forks with
  | .error e => (.failed e, s)
  | .ok () => (.joined, s)

def join (s : Stage μ) (name slot : String) (joiner : Joiner) : Answer μ × Stage μ :=
  let s := s.clear name
  match joiner.join s.forks with
  | .error e => (.failed e, s)
  | .ok session => (.role session.role, s.put slot (.session session))

/-- Ends a task with the answer of its call; one that still has to wait stays. -/
def await (s : Stage μ) (slot : String) : Answer μ × Stage μ :=
  match s.task? slot with
  | none => (.noTask, s)
  | some (session, request) =>
    match s.call session request with
    | (.blocked, s) => (.blocked, s)
    | (answer, s) => (answer, s.put slot (.session session))

def step (s : Stage μ) : Command μ → Answer μ × Stage μ
  | .roles => (.roles s.mesh.roles, s)
  | .start role slot => s.start role slot
  | .role slot => s.withSession slot fun session => (.role session.role, s)
  | .send slot receiver label body => s.withSession slot (s.send · receiver label body)
  | .request slot request => s.withSession slot (s.call · request)
  | .fork slot joiner branches => s.withSession slot (s.fork slot joiner branches)
  | .complete slot => s.withSession slot (s.complete slot)
  | .finish slot => s.withSession slot (s.finish slot)
  | .ready joiner => s.withJoiner joiner fun j => (.ready (j.ready s.forks), s)
  | .tryJoin joiner => s.withJoiner joiner s.tryJoin
  | .join joiner slot => s.withJoiner joiner (s.join joiner slot)
  | .showMesh => (.shown s.mesh.shown, s)
  | .showEndpoint role =>
    match s.mesh.checkRole role with
    | .error e => (.failed e, s)
    | .ok () => (.shown (endpointShown role), s)
  | .showSession slot => s.withSession slot fun session => (.shown session.shown, s)
  | .showJoiner joiner => s.withJoiner joiner fun j => (.shown (j.shown s.forks), s)
  | .spawn slot request =>
    s.withSession slot fun session => (.spawned, s.put slot (.task session request))
  | .await slot => s.await slot

/-- Runs commands in order and gives their answers. -/
def run (s : Stage μ) : List (Command μ) → List (Answer μ) × Stage μ
  | [] => ([], s)
  | c :: cs =>
    let (answer, s) := s.step c
    let (answers, s) := s.run cs
    (answer :: answers, s)

/-- The names of the slots in use, in order. -/
def slotNames (s : Stage μ) : List String :=
  (s.slots.map (·.1)).mergeSort fun a b => decide (a ≤ b)

end Stage

end Parley
