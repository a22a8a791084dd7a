import Mathlib.Logic.Function.Basic
import Mathlib.Logic.Relation
import Parley.Api.Role
import Parley.Proofs.Drive
import Parley.Proofs.Meaning
import Parley.Proofs.Queue

/-! Two roles over one mesh. Each goes through the states of its own projection, and every state calls
the mesh as the method generated for it does. The roles take their steps in any order. -/

namespace Parley

/-- What travels as one message: a variant, by its key, with values for the payloads. -/
structure Parcel where
  key : Api.Key
  values : List String

/-- Something that a role has done. -/
inductive Event where
  | exchange (message : Message) (values : List String)
  | branch (choice : NodeId) (chooser : String) (index : Nat)

/-- The outcome of calling the method of a state. -/
inductive Reply where
  | moved (event : Event) (post? : Option Post) (mesh : Mesh Parcel)
  | blocked (mesh : Mesh Parcel)
  | failed (error : SessionError)

namespace Reply

def arriving (event : Event) (session : Session) (x : Landing) (mesh : Mesh Parcel) : Reply :=
  match session.arrive .empty x with
  | .error e => .failed e
  | .ok (post?, _) => .moved event post? mesh

def emit (r : MessageRecord) (x : Landing) (values : List String) (session : Session)
    (mesh : Mesh Parcel) : Reply :=
  match mesh.send session.role r.message.receiver r.message.name ⟨.ofRecord r, values⟩ with
  | .error e => .failed e
  | .ok mesh => arriving (.exchange r.message values) session x mesh

def await (r : MessageRecord) (x : Landing) (session : Session) (mesh : Mesh Parcel) : Reply :=
  match mesh.recv session.role r.message.sender r.message.name with
  | .error e => .failed e
  | .ok (none, mesh) => .blocked mesh
  | .ok (some parcel, mesh) =>
    if parcel.key = .ofRecord r then
      arriving (.exchange r.message parcel.values) session x mesh
    else .failed (.unexpectedMessage r.state r.message.name parcel.key.label)

def select (r : ChoiceRecord) (index : Nat) (x : Landing) (session : Session)
    (mesh : Mesh Parcel) : Reply :=
  arriving (.branch r.id r.chooser index) session x mesh

def resolve (r : ChoiceRecord) (labels : List String) (xs : List Landing) (session : Session)
    (mesh : Mesh Parcel) : Reply :=
  match mesh.waitAny session.role r.chooser labels with
  | .error e => .failed e
  | .ok (none, mesh) => .blocked mesh
  | .ok (some index, mesh) =>
    match xs[index]? with
    | some x => select r index x session mesh
    | none => .failed (.unexpectedMessage r.state (" | ".intercalate labels) "none")

end Reply

/-- The calls that a role can make in a state, with their outcomes. -/
inductive Projection.Calls (p : Projection) (mesh : Mesh Parcel) : Post → Reply → Prop where
  | emit {r : MessageRecord} {x : Landing} {session : Session} (values : List String) :
      r ∈ p.messages → r.direction = .send → p.landing r.next = .ok x →
      p.Calls mesh ⟨r.state, session⟩ (.emit r x values session mesh)
  | await {r : MessageRecord} {x : Landing} {session : Session} :
      r ∈ p.messages → r.direction = .receive → p.landing r.next = .ok x →
      p.Calls mesh ⟨r.state, session⟩ (.await r x session mesh)
  | select {r : ChoiceRecord} {b : ChoiceBranch} {k : Nat} {x : Landing} {session : Session} :
      r ∈ p.choices → r.role = .chooser → r.branches[k]? = some b → p.landing b.entry = .ok x →
      p.Calls mesh ⟨r.state, session⟩ (.select r k x session mesh)
  | resolve {r : ChoiceRecord} {labels : List String} {xs : List Landing} {session : Session} :
      r ∈ p.choices → r.role = .observer → Api.observedLabels r [] r.branches = .ok labels →
      (r.branches.mapM fun b => p.landing b.entry) = .ok xs →
      p.Calls mesh ⟨r.state, session⟩ (.resolve r labels xs session mesh)

inductive Side where
  | left
  | right
deriving DecidableEq

/-- Two roles at work. A role without a post has finished. -/
structure Duet where
  post? : Side → Option Post
  log : Side → List Event
  mesh : Mesh Parcel

namespace Duet

/-- One side has done something and stands elsewhere. -/
def move (d : Duet) (i : Side) (event : Event) (post? : Option Post) (mesh : Mesh Parcel) : Duet where
  post? := Function.update d.post? i post?
  log := Function.update d.log i (d.log i ++ [event])
  mesh

section Move

variable {d : Duet} {i j : Side} {event : Event} {post? : Option Post} {mesh : Mesh Parcel}

@[simp] theorem move_post?_self : (d.move i event post? mesh).post? i = post? :=
  Function.update_self ..

theorem move_post?_of_ne (h : j ≠ i) : (d.move i event post? mesh).post? j = d.post? j :=
  Function.update_of_ne h ..

@[simp] theorem move_log_self : (d.move i event post? mesh).log i = d.log i ++ [event] :=
  Function.update_self ..

theorem move_log_of_ne (h : j ≠ i) : (d.move i event post? mesh).log j = d.log j :=
  Function.update_of_ne h ..

end Move

variable (p : Side → Projection)

/-- Both roles at their start, on a mesh without messages. -/
structure Opens (d : Duet) : Prop where
  mesh : d.mesh = Mesh.ofRoles [(p .left).protagonist, (p .right).protagonist]
  endpoint : ∀ i, d.mesh.checkRole (p i).protagonist = .ok ()
  log : ∀ i, d.log i = []
  post : ∀ i, ∃ x f, (p i).landing (p i).start = .ok x ∧
    (Session.start (p i).protagonist).arrive .empty x = .ok (d.post? i, f)

/-- One call of either role. A call that is blocked may have looked at messages. -/
inductive Step : Duet → Duet → Prop where
  | moved {d : Duet} {i : Side} {post : Post} {event : Event} {post? : Option Post}
      {mesh : Mesh Parcel} : d.post? i = some post →
      (p i).Calls d.mesh post (.moved event post? mesh) →
      Step d (d.move i event post? mesh)
  | blocked {d : Duet} {i : Side} {post : Post} {mesh : Mesh Parcel} : d.post? i = some post →
      (p i).Calls d.mesh post (.blocked mesh) → Step d { d with mesh }

/-- What is asked of two roles at any moment of their work. -/
structure Safe (d : Duet) : Prop where
  /-- No call fails. -/
  sound : ∀ i post e, d.post? i = some post → ¬ (p i).Calls d.mesh post (.failed e)
  /-- A message that is received is the one that the state awaits. -/
  awaited : ∀ i r session parcel mesh, r ∈ (p i).messages → r.direction = .receive →
    d.post? i = some ⟨r.state, session⟩ →
    d.mesh.recv session.role r.message.sender r.message.name = .ok (some parcel, mesh) →
    parcel.key = .ofRecord r
  /-- What one role has done, the branches it took included, the other has done or is yet to do. -/
  agreed : d.log .left <+: d.log .right ∨ d.log .right <+: d.log .left
  /-- Some role can move on unless both have finished. -/
  live : (∃ i post event post? mesh, d.post? i = some post ∧
    (p i).Calls d.mesh post (.moved event post? mesh)) ∨ ∀ i, d.post? i = none
  /-- No message is left once both have finished. -/
  drained : (∀ i, d.post? i = none) →
    ∀ i j, i ≠ j → d.mesh.queue? ((p i).protagonist, (p j).protagonist) = some []

end Duet

end Parley
