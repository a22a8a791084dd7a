import Parley.Proofs.Duet
import Parley.Proofs.Refinement
import Parley.Proofs.Signal

/-! Two roles that have one conversation between them. At any moment one of them leads: it has come to
a point that the other reaches by steps which the leader has already taken, and which are the leader's
own to take. The messages of those steps are all there is on the mesh. -/

namespace Parley

open Outcome

/-- Two machines at one point of a conversation. -/
def Joint (l l' : LocalProtocol) (p p' : Projection) (x x' : Landing) : Prop :=
  ∃ a, l.Matches p none a (.at x) ∧ l'.Matches p' none a (.at x')

namespace Joint

variable {l l' : LocalProtocol} {p p' : Projection} {x x' : Landing}

theorem symm (h : Joint l l' p p' x x') : Joint l' l p' p x' x := by
  obtain ⟨a, hx, hx'⟩ := h
  exact ⟨a, hx', hx⟩

theorem step (y : l.Yields p) (y' : l'.Yields p') (h : Joint l l' p p' x x') {a : Action}
    {z : Landing} (hs : p.Step (.at x) (some a) (.at z)) :
    ∃ z', p'.Step (.at x') (some a) (.at z') ∧ Joint l l' p p' z z' := by
  obtain ⟨c, hc, hc'⟩ := h
  obtain ⟨c₁, hmoves, hm⟩ := hc.back y hs
  obtain ⟨b', hstep, hm'⟩ := hc'.forth_moves y' hmoves
  cases hm with
  | thread hrun hl =>
    cases hm' with
    | thread hrun' hl' => exact ⟨_, hstep, _, .thread hrun hl, .thread hrun' hl'⟩

theorem finish (y : l.Yields p) (y' : l'.Yields p') (h : Joint l l' p p' .finish x') :
    x' = .finish := by
  obtain ⟨c, hc, hc'⟩ := h
  have hend : Activity.system.Silent c (.thread [] []) := LocalProtocol.Matches.ended_back y hc
  have heq := (hc'.forth_silent y' hend).ended_forth y'
  cases heq
  rfl

end Joint

/-- Whose step an action is: the sender's or the chooser's. -/
def Action.owner? : Action → Option String
  | .exchange m => some m.sender
  | .branch _ chooser _ => some chooser
  | _ => none

namespace Event

def action : Event → Action
  | .exchange m _ => .exchange m
  | .branch choice chooser index => .branch choice chooser index

/-- The message that an event puts on the mesh. -/
def envelope? : Event → Option (Envelope Parcel)
  | .exchange m values => some ⟨m.name, ⟨⟨m.name, m.payloads⟩, values⟩⟩
  | .branch .. => none

end Event

/-- The way from one landing to another by steps of one role. -/
inductive Projection.Trails (p : Projection) (role : String) :
    Landing → List Event → Landing → Prop where
  | nil {x : Landing} : p.Trails role x [] x
  | cons {x y z : Landing} {e : Event} {w : List Event} : e.action.owner? = some role →
      p.Step (.at x) (some e.action) (.at y) → p.Trails role y w z → p.Trails role x (e :: w) z

theorem Projection.Trails.snoc {p : Projection} {role : String} {x y z : Landing} {w : List Event}
    {e : Event} (h : p.Trails role x w y) (ho : e.action.owner? = some role)
    (hs : p.Step (.at y) (some e.action) (.at z)) : p.Trails role x (w ++ [e]) z := by
  induction h with
  | nil => exact .cons ho hs .nil
  | cons ho' hs' _ ih => exact .cons ho' hs' (ih hs)

/-- Two roles with one conversation between them, each with a source of its own. -/
structure Mirrored (l : Side → LocalProtocol) (p : Side → Projection) : Prop where
  yields : ∀ i, (l i).Yields (p i)
  same : ∀ i j, (l i).conversation = (l j).conversation
  apart : ∀ {i j}, (p i).protagonist = (p j).protagonist → i = j
  message : ∀ {i r}, r ∈ (p i).messages → ∃ a b, a ≠ b ∧
    r.message.sender = (p a).protagonist ∧ r.message.receiver = (p b).protagonist
  choice : ∀ {i r}, r ∈ (p i).choices → ∃ a, r.chooser = (p a).protagonist
  unforked : ∀ i, (p i).pars = []
  observed : ∀ {i r}, r ∈ (p i).choices → r.role = .observer →
    ∃ labels, Api.observedLabels r [] r.branches = .ok labels

/-- Where a role stands that is in no branch. -/
def Stands (role : String) (post? : Option Post) (x : Landing) : Prop :=
  ∃ f, (Session.start role).arrive .empty x = .ok (post?, f)

theorem Stands.of_some {role : String} {post : Post} {x : Landing}
    (h : Stands role (some post) x) : post = ⟨post.state, .start role⟩ ∧ x = .state post.state := by
  obtain ⟨f, hf⟩ := h
  cases x with
  | state name =>
    cases hf
    exact ⟨rfl, rfl⟩
  | join par => cases hf
  | finish => cases hf

theorem Stands.of_state {role name : String} {post? : Option Post}
    (h : Stands role post? (.state name)) : post? = some ⟨name, .start role⟩ := by
  obtain ⟨f, hf⟩ := h
  cases hf
  rfl

theorem Stands.of_finish {role : String} {post? : Option Post} (h : Stands role post? .finish) :
    post? = none := by
  obtain ⟨f, hf⟩ := h
  cases hf
  rfl

theorem Stands.of_none {role : String} {x : Landing} (h : Stands role none x) : x = .finish := by
  obtain ⟨f, hf⟩ := h
  cases x with
  | state name => cases hf
  | join par => cases hf
  | finish => rfl

theorem exists_stands (role : String) {x : Landing} (h : ∀ par, x ≠ .join par) :
    ∃ post?, Stands role post? x := by
  cases x with
  | state name => exact ⟨_, _, rfl⟩
  | join par => exact absurd rfl (h par)
  | finish => exact ⟨_, _, rfl⟩

theorem Side.eq_or_eq {i j : Side} (h : i ≠ j) (k : Side) : k = i ∨ k = j := by
  cases i <;> cases j <;> cases k <;> simp_all

namespace LocalProtocol.Yields

variable {l : LocalProtocol} {p : Projection}

theorem direction_eq (y : l.Yields p) {r : MessageRecord} (hr : r ∈ p.messages) :
    r.direction = if r.message.sender = p.protagonist then .send else .receive := by
  obtain ⟨s, _, ns, _, _, _, hd, _⟩ := y.exists_stretch (r := .message r) hr
  rw [hd, directionOf, y.protagonist]
  simp only [beq_iff_eq]

theorem role_eq (y : l.Yields p) {r : ChoiceRecord} (hr : r ∈ p.choices) :
    r.role = if r.chooser = p.protagonist then .chooser else .observer := by
  obtain ⟨s, _, bs, ns, _, _, _, hrole, _⟩ := y.exists_stretch (r := .choice r) hr
  rw [hrole, y.protagonist]
  simp only [beq_iff_eq]

theorem exists_step_choice (y : l.Yields p) {r : ChoiceRecord} (hr : r ∈ p.choices) :
    ∃ k x, p.Step (.at (.state r.state)) (some (.branch r.id r.chooser k)) (.at x) := by
  obtain ⟨s, hs, bs, ns, hrest, hstate, _⟩ := y.exists_stretch (r := .choice r) hr
  obtain ⟨q, hq, hn, _⟩ := hs.exists_place hrest
  have hcheck := Place.checkNode_of_checkAll y.checked hq
  rw [Place.checkNode, hn] at hcheck
  cases bs with
  | nil => cases hcheck
  | cons b bs =>
    obtain ⟨x, hx⟩ := y.exists_lands (hs.choice hrest (k := 0) rfl)
    refine ⟨0, x, ?_⟩
    rw [hstate]
    exact y.step_choice hs hrest rfl hx

theorem exists_step_message (y : l.Yields p) {r : MessageRecord} (hr : r ∈ p.messages) :
    ∃ x, p.Step (.at (.state r.state)) (some (.exchange r.message)) (.at x) := by
  obtain ⟨s, hs, ns, hrest, hstate, _⟩ := y.exists_stretch (r := .message r) hr
  obtain ⟨x, hx⟩ := y.exists_lands (hs.pass hrest)
  refine ⟨x, ?_⟩
  rw [hstate]
  exact y.step_message hs hrest hx

end LocalProtocol.Yields

namespace Mirrored

variable {l : Side → LocalProtocol} {p : Side → Projection} {i j : Side}

theorem send_iff (m : Mirrored l p) {r : MessageRecord} (hr : r ∈ (p i).messages) :
    r.direction = .send ↔ r.message.sender = (p i).protagonist := by
  rw [(m.yields i).direction_eq hr]
  by_cases h : r.message.sender = (p i).protagonist <;> simp [h]

theorem chooser_iff (m : Mirrored l p) {r : ChoiceRecord} (hr : r ∈ (p i).choices) :
    r.role = .chooser ↔ r.chooser = (p i).protagonist := by
  rw [(m.yields i).role_eq hr]
  by_cases h : r.chooser = (p i).protagonist <;> simp [h]

theorem receive_iff (m : Mirrored l p) (hij : i ≠ j) {r : MessageRecord}
    (hr : r ∈ (p i).messages) :
    r.direction = .receive ↔ r.message.sender = (p j).protagonist := by
  rw [(m.yields i).direction_eq hr]
  obtain ⟨a, b, _, hs, _⟩ := m.message hr
  rw [hs]
  rcases Side.eq_or_eq hij a with rfl | rfl
  · simpa using fun h => hij (m.apart h)
  · simpa using fun h => hij (m.apart h).symm

theorem observer_iff (m : Mirrored l p) (hij : i ≠ j) {r : ChoiceRecord}
    (hr : r ∈ (p i).choices) : r.role = .observer ↔ r.chooser = (p j).protagonist := by
  rw [(m.yields i).role_eq hr]
  obtain ⟨a, ha⟩ := m.choice hr
  rw [ha]
  rcases Side.eq_or_eq hij a with rfl | rfl
  · simpa using fun h => hij (m.apart h)
  · simpa using fun h => hij (m.apart h).symm

theorem receiver_eq (m : Mirrored l p) (hij : i ≠ j) {k : Side} {r : MessageRecord}
    (hr : r ∈ (p k).messages) (hs : r.message.sender = (p i).protagonist) :
    r.message.receiver = (p j).protagonist := by
  obtain ⟨a, b, hab, ha, hb⟩ := m.message hr
  obtain rfl : i = a := m.apart (hs.symm.trans ha)
  rw [hb]
  rcases Side.eq_or_eq hij b with rfl | rfl
  · exact absurd rfl hab
  · rfl

theorem ne_join (m : Mirrored l p) {x x' : Landing}
    (h : Joint (l i) (l j) (p i) (p j) x x') (par : NodeId) : x ≠ .join par := by
  obtain ⟨a, hx, _⟩ := h
  rintro rfl
  rcases hx.landing_cases (m.yields i) with hf | ⟨_, _, hs⟩ | ⟨_, _, hs⟩ | ⟨_, _, hs⟩
  · cases hf
  all_goals cases hs

/-- Where a role has not finished, there is a step that one of the two can take. -/
theorem exists_owned_step (m : Mirrored l p) {x x' : Landing}
    (h : Joint (l i) (l j) (p i) (p j) x x') : x = .finish ∨ ∃ a y k,
      (p i).Step (.at x) (some a) (.at y) ∧ a.owner? = some (p k).protagonist := by
  obtain ⟨c, hc, _⟩ := h
  rcases hc.landing_cases (m.yields i) with hf | ⟨r, hr, rfl⟩ | ⟨r, hr, rfl⟩ | ⟨r, hr, _⟩
  · exact .inl hf
  · obtain ⟨y, hs⟩ := (m.yields i).exists_step_message hr
    obtain ⟨a, _, _, ha, _⟩ := m.message hr
    exact .inr ⟨_, y, a, hs, congrArg some ha⟩
  · obtain ⟨k, y, hs⟩ := (m.yields i).exists_step_choice hr
    obtain ⟨a, ha⟩ := m.choice hr
    exact .inr ⟨_, y, a, hs, congrArg some ha⟩
  · rw [m.unforked i] at hr
    cases hr

/-- A branch that one role observes is entered in the state of a message that names it. -/
theorem exists_label (m : Mirrored l p) {r : ChoiceRecord} (hr : r ∈ (p i).choices)
    {labels : List String} (hl : Api.observedLabels r [] r.branches = .ok labels) {k : Nat}
    {b : ChoiceBranch} (hb : r.branches[k]? = some b) : ∃ s ∈ (p i).messages,
      (p i).landing b.entry = .ok (.state s.state) ∧ s.message.sender = r.chooser ∧
        labels.idxOf? s.message.name = some k := by
  obtain ⟨signals, hall, rfl, hnodup⟩ := Api.signals_of_observedLabels hl
  obtain ⟨signal, hk⟩ := exists_getElem?_of_length_eq hall.length_eq hb
  obtain ⟨hsignal, _, hsender⟩ := getElem?_of_forall₂ hall hb hk
  obtain ⟨s, hs, hland, hs', hname⟩ := (m.yields i).exists_signal_record hr hb hsignal
  refine ⟨s, hs, hland, hs'.trans hsender, ?_⟩
  rw [Selector.idxOf?_eq_some_iff hnodup.of_map, hname, List.getElem?_map, hk, Option.map_some]

theorem exists_landings (m : Mirrored l p) {r : ChoiceRecord} (hr : r ∈ (p i).choices)
    {labels : List String} (hl : Api.observedLabels r [] r.branches = .ok labels) :
    ∃ xs, (r.branches.mapM fun b => (p i).landing b.entry) = .ok xs := by
  apply exists_mapM_eq_ok
  intro b hb
  obtain ⟨k, hk⟩ := List.mem_iff_getElem?.mp hb
  obtain ⟨s, _, hland, _⟩ := m.exists_label hr hl hk
  exact ⟨_, hland⟩

end Mirrored

namespace Duet

/-- One role leads, at `x`; the other, at `y`, has yet to do the events `w`, which take it to `z`, where
it is level with the leader. -/
structure Leads (l : Side → LocalProtocol) (p : Side → Projection) (i j : Side) (d : Duet)
    (x y z : Landing) (w : List Event) : Prop where
  lead : Stands (p i).protagonist (d.post? i) x
  follow : Stands (p j).protagonist (d.post? j) y
  joint : Joint (l i) (l j) (p i) (p j) x z
  trails : (p j).Trails (p i).protagonist y w z
  log : d.log i = d.log j ++ w
  queue : d.mesh.queue? ((p i).protagonist, (p j).protagonist) =
    some (w.filterMap Event.envelope?)
  back : d.mesh.queue? ((p j).protagonist, (p i).protagonist) = some []

/-- Some role leads. -/
def Paced (l : Side → LocalProtocol) (p : Side → Projection) (d : Duet) : Prop :=
  ∃ i j, i ≠ j ∧ ∃ x y z w, d.Leads l p i j x y z w

/-- What a call of one side comes to: it moves on or has to wait, and either way some role leads. -/
def Answers (l : Side → LocalProtocol) (p : Side → Projection) (d : Duet) (k : Side) :
    Reply → Prop
  | .moved event post? mesh => Paced l p (d.move k event post? mesh)
  | .blocked mesh => Paced l p { d with mesh }
  | .failed _ => False

namespace Leads

variable {l : Side → LocalProtocol} {p : Side → Projection} {i j : Side} {d : Duet}
  {x y z : Landing} {w : List Event}

theorem level (h : d.Leads l p i j x y z []) : d.Leads l p j i y x x [] := by
  obtain ⟨hlead, hfollow, hjoint, htrails, hlog, hqueue, hback⟩ := h
  cases htrails
  exact ⟨hfollow, hlead, hjoint.symm, .nil, by simp [hlog], hback, hqueue⟩

theorem of_queue?_eq (h : d.Leads l p i j x y z w) {mesh : Mesh Parcel}
    (hq : ∀ route, mesh.queue? route = d.mesh.queue? route) :
    Leads l p i j { d with mesh } x y z w :=
  ⟨h.lead, h.follow, h.joint, h.trails, h.log, (hq _).trans h.queue, (hq _).trans h.back⟩

theorem advance (m : Mirrored l p) (hij : i ≠ j) (h : d.Leads l p i j x y z w) {event : Event}
    {x' : Landing} {mesh : Mesh Parcel}
    (ho : event.action.owner? = some (p i).protagonist)
    (hs : (p i).Step (.at x) (some event.action) (.at x'))
    (hq : mesh.queue? ((p i).protagonist, (p j).protagonist) =
      some ((w ++ [event]).filterMap Event.envelope?))
    (hb : mesh.queue? ((p j).protagonist, (p i).protagonist) = some []) :
    ∃ post?, Reply.arriving event (.start (p i).protagonist) x' mesh = .moved event post? mesh ∧
      d.Answers l p i (.moved event post? mesh) := by
  obtain ⟨z', hs', hjoint⟩ := h.joint.step (m.yields i) (m.yields j) hs
  obtain ⟨post?, f, hf⟩ := exists_stands (p i).protagonist (m.ne_join hjoint)
  refine ⟨post?, by rw [Reply.arriving, hf], i, j, hij, x', y, z', w ++ [event], ?_⟩
  refine ⟨⟨f, ?_⟩, ?_, hjoint, h.trails.snoc ho hs', ?_, hq, hb⟩
  · rw [move_post?_self]
    exact hf
  · rw [move_post?_of_ne hij.symm]
    exact h.follow
  · rw [move_log_self, move_log_of_ne hij.symm, h.log, List.append_assoc]

/-- The other role takes the step that it is to take next. -/
theorem catchUp (m : Mirrored l p) (hij : i ≠ j) {event : Event}
    (h : d.Leads l p i j x y z (event :: w)) {y' : Landing} {mesh : Mesh Parcel}
    (hs : (p j).Step (.at y) (some event.action) (.at y'))
    (hq : mesh.queue? ((p i).protagonist, (p j).protagonist) =
      some (w.filterMap Event.envelope?))
    (hb : mesh.queue? ((p j).protagonist, (p i).protagonist) = some []) :
    ∃ post?, Reply.arriving event (.start (p j).protagonist) y' mesh = .moved event post? mesh ∧
      d.Answers l p j (.moved event post? mesh) := by
  cases h.trails with
  | cons _ hs' htrails =>
    cases (m.yields j).step_unique hs hs'
    have hjoin : ∀ par, y' ≠ .join par := by
      cases htrails with
      | nil => exact m.ne_join h.joint.symm
      | cons _ hnext _ =>
        rintro par rfl
        cases hnext
    obtain ⟨post?, f, hf⟩ := exists_stands (p j).protagonist hjoin
    refine ⟨post?, by rw [Reply.arriving, hf], i, j, hij, x, y', z, w, ?_⟩
    refine ⟨?_, ⟨f, ?_⟩, h.joint, htrails, ?_, hq, hb⟩
    · rw [move_post?_of_ne hij]
      exact h.lead
    · rw [move_post?_self]
      exact hf
    · rw [move_log_self, move_log_of_ne hij, h.log, List.append_assoc]
      rfl

theorem emit_moved (m : Mirrored l p) (hij : i ≠ j) {r : MessageRecord}
    (h : d.Leads l p i j (.state r.state) y z w) (hr : r ∈ (p i).messages)
    (hd : r.direction = .send) {x' : Landing} (hx : (p i).landing r.next = .ok x')
    (values : List String) : ∃ post? mesh,
      Reply.emit r x' values (.start (p i).protagonist) d.mesh =
        .moved (.exchange r.message values) post? mesh ∧
      d.Answers l p i (.moved (.exchange r.message values) post? mesh) := by
  have hsender := (m.send_iff hr).mp hd
  have hreceiver := m.receiver_eq hij hr hsender
  obtain ⟨mesh, hsend, hq, hother⟩ := Mesh.send_spec h.queue r.message.name ⟨.ofRecord r, values⟩
  have hb : mesh.queue? ((p j).protagonist, (p i).protagonist) = some [] := by
    rw [hother _ fun he => hij (m.apart (Prod.mk.inj he).2)]
    exact h.back
  have ho : (Event.exchange r.message values).action.owner? = some (p i).protagonist :=
    congrArg some hsender
  obtain ⟨post?, hreply, hpaced⟩ := h.advance m hij ho (.message hr hx)
    (by rw [hq, List.filterMap_append]; rfl) hb
  refine ⟨post?, mesh, ?_, hpaced⟩
  rw [Reply.emit, hreceiver]
  simp only [Session.start] at hreply ⊢
  rw [hsend]
  exact hreply

theorem select_moved (m : Mirrored l p) (hij : i ≠ j) {r : ChoiceRecord}
    (h : d.Leads l p i j (.state r.state) y z w) (hr : r ∈ (p i).choices)
    (hrole : r.role = .chooser) {k : Nat} {b : ChoiceBranch} (hb : r.branches[k]? = some b)
    {x' : Landing} (hx : (p i).landing b.entry = .ok x') : ∃ post?,
      Reply.select r k x' (.start (p i).protagonist) d.mesh =
        .moved (.branch r.id r.chooser k) post? d.mesh ∧
      d.Answers l p i (.moved (.branch r.id r.chooser k) post? d.mesh) := by
  have ho : (Event.branch r.id r.chooser k).action.owner? = some (p i).protagonist :=
    congrArg some ((m.chooser_iff hr).mp hrole)
  refine h.advance m hij ho (.choice hr hb hx) ?_ h.back
  rw [h.queue, List.filterMap_append]
  exact congrArg some (List.append_nil _).symm

theorem blocked (hij : i ≠ j) (h : d.Leads l p i j x y z w) {mesh : Mesh Parcel}
    (hq : ∀ route, mesh.queue? route = d.mesh.queue? route) (k : Side) :
    d.Answers l p k (.blocked mesh) :=
  ⟨i, j, hij, x, y, z, w, h.of_queue?_eq hq⟩

theorem await_blocked (m : Mirrored l p) (hij : i ≠ j) (h : d.Leads l p i j x y z w)
    {r : MessageRecord} (hr : r ∈ (p i).messages) (hd : r.direction = .receive) (x' : Landing) :
    ∃ mesh, Reply.await r x' (.start (p i).protagonist) d.mesh = .blocked mesh ∧
      d.Answers l p i (.blocked mesh) := by
  obtain ⟨mesh, hselect, hq⟩ := Mesh.select_none h.back (Selector.stable_take r.message.name) rfl
  refine ⟨mesh, ?_, h.blocked hij hq i⟩
  rw [Reply.await, (m.receive_iff hij hr).mp hd, Mesh.recv]
  simp only [Session.start]
  rw [hselect]

theorem resolve_blocked (m : Mirrored l p) (hij : i ≠ j) (h : d.Leads l p i j x y z w)
    {r : ChoiceRecord} (hr : r ∈ (p i).choices) (hrole : r.role = .observer)
    (labels : List String) (xs : List Landing) :
    ∃ mesh, Reply.resolve r labels xs (.start (p i).protagonist) d.mesh = .blocked mesh ∧
      d.Answers l p i (.blocked mesh) := by
  obtain ⟨mesh, hselect, hq⟩ := Mesh.select_none h.back (Selector.stable_peek labels) rfl
  refine ⟨mesh, ?_, h.blocked hij hq i⟩
  rw [Reply.resolve, (m.observer_iff hij hr).mp hrole, Mesh.waitAny]
  simp only [Session.start]
  rw [hselect]

theorem await_moved (m : Mirrored l p) (hij : i ≠ j) {r : MessageRecord} {event : Event}
    (h : d.Leads l p i j x (.state r.state) z (event :: w)) (hr : r ∈ (p j).messages)
    {y' : Landing} (hy : (p j).landing r.next = .ok y') : ∃ post? mesh,
      Reply.await r y' (.start (p j).protagonist) d.mesh = .moved event post? mesh ∧
      d.Answers l p j (.moved event post? mesh) := by
  cases h.trails with
  | cons ho hs _ =>
    obtain ⟨haction, _⟩ := (m.yields j).step_of_message hr hs
    cases event with
    | branch => cases haction
    | exchange message values =>
      obtain rfl : message = r.message := by
        cases haction
        rfl
      have hsender : r.message.sender = (p i).protagonist := Option.some.inj ho
      have hqueue : d.mesh.queue? ((p i).protagonist, (p j).protagonist) =
          some (⟨r.message.name, ⟨.ofRecord r, values⟩⟩ :: w.filterMap Event.envelope?) := h.queue
      obtain ⟨mesh, hselect, hq, hother⟩ :=
        Mesh.select_spec hqueue (Selector.stable_take r.message.name)
      rw [Selector.take_cons] at hselect
      rw [Selector.left, Selector.take_cons] at hq
      have hb : mesh.queue? ((p j).protagonist, (p i).protagonist) = some [] := by
        rw [hother _ fun he => hij (m.apart (Prod.mk.inj he).2)]
        exact h.back
      obtain ⟨post?, hreply, hpaced⟩ := h.catchUp m hij (.message hr hy) hq hb
      refine ⟨post?, mesh, ?_, hpaced⟩
      rw [Reply.await, hsender, Mesh.recv]
      simp only [Session.start] at hreply ⊢
      rw [hselect]
      simp only [Option.map_some, if_true]
      exact hreply

/-- The other role sees the branch that the leader took as soon as the message that tells it is
there. -/
theorem resolve_moved (m : Mirrored l p) (hij : i ≠ j) {r : ChoiceRecord} {event next : Event}
    (h : d.Leads l p i j x (.state r.state) z (event :: next :: w)) (hr : r ∈ (p j).choices)
    {labels : List String} (hl : Api.observedLabels r [] r.branches = .ok labels)
    {xs : List Landing} (hxs : (r.branches.mapM fun b => (p j).landing b.entry) = .ok xs) :
    ∃ post? mesh, Reply.resolve r labels xs (.start (p j).protagonist) d.mesh =
        .moved event post? mesh ∧
      d.Answers l p j (.moved event post? mesh) := by
  cases h.trails with
  | cons ho hs htrails =>
    obtain ⟨k, b, y', hb, hy, haction, hy'⟩ := (m.yields j).step_of_choice hr hs
    cases hy'
    cases event with
    | exchange => cases haction
    | branch choice chooser index =>
      cases haction
      obtain ⟨s, hmem, hland, _, hidx⟩ := m.exists_label hr hl hb
      cases hland.symm.trans hy
      cases htrails with
      | cons _ hs' _ =>
        -- the branch begins with the message that names it, and that message is the oldest
        obtain ⟨haction, _⟩ := (m.yields j).step_of_message hmem hs'
        cases next with
        | branch => cases haction
        | exchange message values =>
          obtain rfl : message = s.message := by
            cases haction
            rfl
          have hqueue : d.mesh.queue? ((p i).protagonist, (p j).protagonist) =
              some ((Event.exchange s.message values :: w).filterMap Event.envelope?) := h.queue
          have hpeek : Selector.peek labels
              ((Event.exchange s.message values :: w).filterMap Event.envelope?) =
                some (k, (Event.exchange s.message values :: w).filterMap Event.envelope?) :=
            Selector.peek_cons hidx
          obtain ⟨mesh, hselect, hq, hother⟩ :=
            Mesh.select_spec hqueue (Selector.stable_peek labels)
          rw [hpeek] at hselect
          rw [Selector.left, hpeek] at hq
          have hback : mesh.queue? ((p j).protagonist, (p i).protagonist) = some [] := by
            rw [hother _ fun he => hij (m.apart (Prod.mk.inj he).2)]
            exact h.back
          obtain ⟨x', hx'⟩ := exists_getElem?_of_length_eq (length_of_mapM_eq_ok hxs).symm hb
          have hland' := getElem?_of_mapM_eq_ok hxs hb hx'
          cases hland.symm.trans hland'
          obtain ⟨post?, hreply, hpaced⟩ := h.catchUp m hij (.choice hr hb hland) hq hback
          refine ⟨post?, mesh, ?_, hpaced⟩
          have hsender : r.chooser = (p i).protagonist := Option.some.inj ho
          rw [← hsender] at hselect
          rw [Reply.resolve, Mesh.waitAny]
          simp only [Session.start] at hreply ⊢
          rw [hselect]
          simp only [Option.map_some, hx']
          exact hreply

/-- As long as the leader has not told which branch it took, the other role has to wait. -/
theorem resolve_untold (m : Mirrored l p) (hij : i ≠ j) {r : ChoiceRecord} {event : Event}
    (h : d.Leads l p i j x (.state r.state) z [event]) (hr : r ∈ (p j).choices)
    (hrole : r.role = .observer) (labels : List String) (xs : List Landing) :
    ∃ mesh, Reply.resolve r labels xs (.start (p j).protagonist) d.mesh = .blocked mesh ∧
      d.Answers l p j (.blocked mesh) := by
  cases h.trails with
  | cons ho hs htrails =>
    obtain ⟨k, b, y', hb, hy, haction, hy'⟩ := (m.yields j).step_of_choice hr hs
    cases event with
    | exchange => cases haction
    | branch choice chooser index =>
      have hq : d.mesh.queue? ((p i).protagonist, (p j).protagonist) = some [] := h.queue
      obtain ⟨mesh, hselect, hq⟩ := Mesh.select_none hq (Selector.stable_peek labels) rfl
      refine ⟨mesh, ?_, h.blocked hij hq j⟩
      rw [Reply.resolve, (m.observer_iff hij.symm hr).mp hrole, Mesh.waitAny]
      simp only [Session.start]
      rw [hselect]

theorem answers_lead (m : Mirrored l p) (hij : i ≠ j) (h : d.Leads l p i j x y z w) {post : Post}
    (hpost : d.post? i = some post) {reply : Reply} (hc : (p i).Calls d.mesh post reply) :
    d.Answers l p i reply := by
  have hlead := h.lead
  rw [hpost] at hlead
  obtain ⟨hsession, rfl⟩ := hlead.of_some
  cases hc with
  | emit values hr hd hx =>
    cases hsession
    obtain ⟨post?, mesh, hreply, hpaced⟩ := h.emit_moved m hij hr hd hx values
    rw [hreply]
    exact hpaced
  | await hr hd hx =>
    cases hsession
    obtain ⟨mesh, hreply, hpaced⟩ := h.await_blocked m hij hr hd _
    rw [hreply]
    exact hpaced
  | select hr hrole hb hx =>
    cases hsession
    obtain ⟨post?, hreply, hpaced⟩ := h.select_moved m hij hr hrole hb hx
    rw [hreply]
    exact hpaced
  | resolve hr hrole hl hxs =>
    cases hsession
    obtain ⟨mesh, hreply, hpaced⟩ := h.resolve_blocked m hij hr hrole _ _
    rw [hreply]
    exact hpaced

theorem answers_follow (m : Mirrored l p) (hij : i ≠ j) {event : Event}
    (h : d.Leads l p i j x y z (event :: w)) {post : Post} (hpost : d.post? j = some post)
    {reply : Reply} (hc : (p j).Calls d.mesh post reply) : d.Answers l p j reply := by
  have hfollow := h.follow
  rw [hpost] at hfollow
  obtain ⟨hsession, rfl⟩ := hfollow.of_some
  cases h.trails with
  | cons ho hs _ =>
    cases hc with
    | emit values hr hd hx =>
      obtain ⟨haction, _⟩ := (m.yields j).step_of_message hr hs
      rw [Option.some.inj haction] at ho
      exact absurd (m.apart ((Option.some.inj ho).symm.trans ((m.send_iff hr).mp hd))) hij
    | await hr hd hx =>
      cases hsession
      obtain ⟨post?, mesh, hreply, hpaced⟩ := h.await_moved m hij hr hx
      rw [hreply]
      exact hpaced
    | select hr hrole hb hx =>
      obtain ⟨_, _, _, _, _, haction, _⟩ := (m.yields j).step_of_choice hr hs
      rw [Option.some.inj haction] at ho
      exact absurd (m.apart ((Option.some.inj ho).symm.trans ((m.chooser_iff hr).mp hrole))) hij
    | resolve hr hrole hl hxs =>
      cases hsession
      cases w with
      | nil =>
        obtain ⟨mesh, hreply, hpaced⟩ := h.resolve_untold m hij hr hrole _ _
        rw [hreply]
        exact hpaced
      | cons next w =>
        obtain ⟨post?, mesh, hreply, hpaced⟩ := h.resolve_moved m hij hr hl hxs
        rw [hreply]
        exact hpaced

theorem exists_moved (m : Mirrored l p) (hij : i ≠ j) (h : d.Leads l p i j x y z w) {a : Action}
    {x' : Landing} (hs : (p i).Step (.at x) (some a) (.at x'))
    (ho : a.owner? = some (p i).protagonist) : ∃ post event post? mesh, d.post? i = some post ∧
      (p i).Calls d.mesh post (.moved event post? mesh) := by
  cases hs with
  | message hr hnext =>
    have hd := (m.send_iff hr).mpr (Option.some.inj ho)
    obtain ⟨post?, mesh, hreply, _⟩ := h.emit_moved m hij hr hd hnext []
    have hcall : (p i).Calls d.mesh _ (.emit _ x' [] (.start (p i).protagonist) d.mesh) :=
      .emit [] hr hd hnext
    rw [hreply] at hcall
    exact ⟨_, _, _, _, h.lead.of_state, hcall⟩
  | choice hr hb hentry =>
    have hrole := (m.chooser_iff hr).mpr (Option.some.inj ho)
    obtain ⟨post?, hreply, _⟩ := h.select_moved m hij hr hrole hb hentry
    have hcall : (p i).Calls d.mesh _ (.select _ _ x' (.start (p i).protagonist) d.mesh) :=
      .select hr hrole hb hentry
    rw [hreply] at hcall
    exact ⟨_, _, _, _, h.lead.of_state, hcall⟩

/-- A role that is behind can follow, or the leader can go on to tell it which branch was taken. -/
theorem exists_moved_of_behind (m : Mirrored l p) (hij : i ≠ j) {event : Event}
    (h : d.Leads l p i j x y z (event :: w)) : ∃ k post event post? mesh, d.post? k = some post ∧
      (p k).Calls d.mesh post (.moved event post? mesh) := by
  cases h.trails with
  | cons ho hs htrails =>
    generalize ha : some event.action = a at hs
    cases hs with
    | message hr hy =>
      rw [Option.some.inj ha] at ho
      have hd := (m.receive_iff hij.symm hr).mpr (Option.some.inj ho)
      obtain ⟨post?, mesh, hreply, _⟩ := h.await_moved m hij hr hy
      have hcall : (p j).Calls d.mesh _ (.await _ _ (.start (p j).protagonist) d.mesh) :=
        .await hr hd hy
      rw [hreply] at hcall
      exact ⟨j, _, _, _, _, h.follow.of_state, hcall⟩
    | choice hr hb hy =>
      rw [Option.some.inj ha] at ho
      have hrole := (m.observer_iff hij.symm hr).mpr (Option.some.inj ho)
      obtain ⟨labels, hl⟩ := m.observed hr hrole
      cases htrails with
      | nil =>
        -- the leader has yet to send the message that names the branch
        obtain ⟨s, hmem, hland, hsender, _⟩ := m.exists_label hr hl hb
        cases hland.symm.trans hy
        obtain ⟨z', hs⟩ := (m.yields j).exists_step_message hmem
        obtain ⟨x', hs', _⟩ := h.joint.symm.step (m.yields j) (m.yields i) hs
        exact ⟨i, h.exists_moved m hij hs' (by rw [← ho]; exact congrArg some hsender)⟩
      | cons _ _ _ =>
        obtain ⟨xs, hxs⟩ := m.exists_landings hr hl
        obtain ⟨post?, mesh, hreply, _⟩ := h.resolve_moved m hij hr hl hxs
        have hcall : (p j).Calls d.mesh _
            (.resolve _ labels xs (.start (p j).protagonist) d.mesh) := .resolve hr hrole hl hxs
        rw [hreply] at hcall
        exact ⟨j, _, _, _, _, h.follow.of_state, hcall⟩

theorem live (m : Mirrored l p) (hij : i ≠ j) (h : d.Leads l p i j x y z w) :
    (∃ k post event post? mesh, d.post? k = some post ∧
      (p k).Calls d.mesh post (.moved event post? mesh)) ∨ ∀ k, d.post? k = none := by
  cases w with
  | cons event w => exact .inl (h.exists_moved_of_behind m hij)
  | nil =>
    -- the roles are level: whoever owns the next step can take it
    have h' := h.level
    rcases m.exists_owned_step h.joint with rfl | ⟨a, x', k, hs, ho⟩
    · cases h'.joint.symm.finish (m.yields i) (m.yields j)
      refine .inr fun k => ?_
      rcases Side.eq_or_eq hij k with rfl | rfl
      · exact h.lead.of_finish
      · exact h.follow.of_finish
    · rcases Side.eq_or_eq hij k with rfl | rfl
      · exact .inl ⟨k, h.exists_moved m hij hs ho⟩
      · obtain ⟨y', hs', _⟩ := h'.joint.symm.step (m.yields i) (m.yields k) hs
        exact .inl ⟨k, h'.exists_moved m hij.symm hs' ho⟩

end Leads

variable {l : Side → LocalProtocol} {p : Side → Projection} {d d' : Duet}

/-- Whichever role calls, the call does not fail, and some role leads after it. -/
theorem Paced.answers (m : Mirrored l p) (h : d.Paced l p) {k : Side} {post : Post}
    (hpost : d.post? k = some post) {reply : Reply} (hc : (p k).Calls d.mesh post reply) :
    d.Answers l p k reply := by
  obtain ⟨i, j, hij, x, y, z, w, hl⟩ := h
  rcases Side.eq_or_eq hij k with rfl | rfl
  · exact hl.answers_lead m hij hpost hc
  · cases w with
    | nil => exact hl.level.answers_lead m hij.symm hpost hc
    | cons event w => exact hl.answers_follow m hij hpost hc

theorem Paced.step (m : Mirrored l p) (h : d.Paced l p) (hs : Step p d d') : d'.Paced l p := by
  cases hs with
  | moved hpost hc => exact h.answers m hpost hc
  | blocked hpost hc => exact h.answers m hpost hc

theorem Opens.paced (m : Mirrored l p) (h : Opens p d) : d.Paced l p := by
  obtain ⟨x, f, hx, hpost⟩ := h.post .left
  obtain ⟨y, g, hy, hpost'⟩ := h.post .right
  have hjoint : Joint (l .left) (l .right) (p .left) (p .right) x y := by
    refine ⟨_, .start (m.yields .left) hx, ?_⟩
    rw [m.same .left .right]
    exact .start (m.yields .right) hy
  refine ⟨.left, .right, by decide, x, y, y, [], ⟨f, hpost⟩, ⟨g, hpost'⟩, hjoint, .nil, ?_, ?_, ?_⟩
  · rw [h.log, h.log, List.append_nil]
  · rw [h.mesh]
    exact Mesh.queue?_ofRoles (by simp) (by simp)
  · rw [h.mesh]
    exact Mesh.queue?_ofRoles (by simp) (by simp)

theorem exists_opens (m : Mirrored l p) : ∃ d, Opens p d := by
  have hstart : ∀ i, ∃ post?, ∃ x f, (p i).landing (p i).start = .ok x ∧
      (Session.start (p i).protagonist).arrive .empty x = .ok (post?, f) := by
    intro i
    obtain ⟨x, hx⟩ := (m.yields i).exists_lands .whole
    have hland := (Stretch.lands_iff (m.yields i).start).mp hx
    have hm := LocalProtocol.Matches.start (m.yields i) hland
    obtain ⟨post?, f, hf⟩ := exists_stands (p i).protagonist (m.ne_join ⟨_, hm, hm⟩)
    exact ⟨post?, x, f, hland, hf⟩
  choose post? hpost using hstart
  refine ⟨⟨post?, fun _ => [], .ofRoles [(p .left).protagonist, (p .right).protagonist]⟩,
    rfl, ?_, fun _ => rfl, hpost⟩
  intro i
  cases i <;> simp [Mesh.checkRole, Mesh.ofRoles]

theorem Paced.safe (m : Mirrored l p) (h : d.Paced l p) : d.Safe p := by
  have hsound : ∀ i post e, d.post? i = some post → ¬ (p i).Calls d.mesh post (.failed e) :=
    fun i post e hpost hc => h.answers m hpost hc
  obtain ⟨i, j, hij, x, y, z, w, hl⟩ := h
  refine ⟨hsound, ?_, ?_, hl.live m hij, ?_⟩
  · intro k r session parcel mesh hr hd hpost hrecv
    by_contra hkey
    obtain ⟨x', hs⟩ := (m.yields k).exists_step_message hr
    obtain ⟨_, x', hx', _⟩ := (m.yields k).step_of_message hr hs
    have hcall : (p k).Calls d.mesh ⟨r.state, session⟩ (.await r x' session d.mesh) :=
      .await hr hd hx'
    rw [Reply.await, hrecv] at hcall
    simp only [hkey, if_false] at hcall
    exact hsound k _ _ hpost hcall
  · have hprefix : d.log j <+: d.log i := ⟨w, hl.log.symm⟩
    cases i <;> cases j
    · exact absurd rfl hij
    · exact .inr hprefix
    · exact .inl hprefix
    · exact absurd rfl hij
  · intro hdone
    have hlead := hl.lead
    have hfollow := hl.follow
    rw [hdone i] at hlead
    rw [hdone j] at hfollow
    -- a role that has finished has nothing left to do
    cases hfollow.of_none
    have hqueue := hl.queue
    cases hl.trails with
    | cons _ hs _ => cases hs
    | nil =>
      intro a b hab
      rcases Side.eq_or_eq hij a with rfl | rfl <;> rcases Side.eq_or_eq hij b with rfl | rfl
      · exact absurd rfl hab
      · exact hqueue
      · exact hl.back
      · exact absurd rfl hab

end Duet

theorem mirrored_of_check {q : Protocol} (hq : q.check = .ok ()) {l : Side → LocalProtocol}
    (hl : ∀ i, l i ∈ q.locals) (hsame : (l .left).conversation = (l .right).conversation)
    (hapart : (l .left).protagonist ≠ (l .right).protagonist)
    (hroles : ∀ i, ∀ role ∈ (l i).roles, ∃ j, role = (l j).protagonist)
    (hpar : ∀ n ∈ Conversation.preorder (l .left).conversation, n.kind ≠ .par)
    {p : Side → Projection} (hp : ∀ i, (l i).project q.moduleName? q.types = .ok (p i))
    {o : Side → Api.Options} {source : Side → String}
    (hs : ∀ i, Api.single (o i) (p i) = .ok (source i)) : Mirrored l p := by
  have y : ∀ i, (l i).Yields (p i) := fun i => LocalProtocol.yields_of_project_eq_ok (hp i)
  have hcheck : ∀ i, (l i).check (nativeTypes ++ q.aliases) = .ok () :=
    fun i => Protocol.check_of_mem hq (hl i)
  have hsame' : ∀ i, (l i).conversation = (l .left).conversation := by
    intro i
    cases i with
    | left => rfl
    | right => exact hsame.symm
  refine ⟨y, fun i j => (hsame' i).trans (hsame' j).symm, ?_, ?_, ?_, ?_, ?_⟩
  · intro i j h
    rw [(y i).protagonist, (y j).protagonist] at h
    cases i <;> cases j
    · rfl
    · exact absurd h hapart
    · exact absurd h.symm hapart
    · rfl
  · intro i r hr
    obtain ⟨hsender, hreceiver, hne⟩ := (y i).declared_message (hcheck i) hr
    obtain ⟨a, ha⟩ := hroles i _ hsender
    obtain ⟨b, hb⟩ := hroles i _ hreceiver
    refine ⟨a, b, ?_, by rw [ha, (y a).protagonist], by rw [hb, (y b).protagonist]⟩
    rintro rfl
    exact hne (ha.trans hb.symm)
  · intro i r hr
    obtain ⟨a, ha⟩ := hroles i _ ((y i).declared_chooser (hcheck i) hr)
    exact ⟨a, by rw [ha, (y a).protagonist]⟩
  · intro i
    refine List.eq_nil_iff_forall_not_mem.mpr fun r hr => ?_
    obtain ⟨s, hs, bs, ns, hrest, _⟩ := (y i).exists_stretch (r := .par r) hr
    exact hpar _ (hsame' i ▸ hs.mem_preorder hrest) rfl
  · exact fun hr hrole => Api.exists_observedLabels (hs _) hr hrole

/-- Two roles that have one conversation without parallel steps between them communicate safely:
from their start on, in whatever order they take their steps and whichever branches are chosen. -/
theorem Duet.safe_of_check {q : Protocol} (hq : q.check = .ok ()) {l : Side → LocalProtocol}
    (hl : ∀ i, l i ∈ q.locals) (hsame : (l .left).conversation = (l .right).conversation)
    (hapart : (l .left).protagonist ≠ (l .right).protagonist)
    (hroles : ∀ i, ∀ role ∈ (l i).roles, ∃ j, role = (l j).protagonist)
    (hpar : ∀ n ∈ Conversation.preorder (l .left).conversation, n.kind ≠ .par)
    {p : Side → Projection} (hp : ∀ i, (l i).project q.moduleName? q.types = .ok (p i))
    {o : Side → Api.Options} {source : Side → String}
    (hs : ∀ i, Api.single (o i) (p i) = .ok (source i)) :
    (∃ d, Duet.Opens p d) ∧
      ∀ d₀ d, Duet.Opens p d₀ → Relation.ReflTransGen (Duet.Step p) d₀ d → d.Safe p := by
  have m := mirrored_of_check hq hl hsame hapart hroles hpar hp hs
  refine ⟨Duet.exists_opens m, ?_⟩
  intro d₀ d hopens hrun
  have hpaced : d.Paced l p := by
    induction hrun with
    | refl => exact hopens.paced m
    | tail _ hstep ih => exact ih.step m hstep
  exact hpaced.safe m

/-- One side of a haggle: offers until one is accepted or the buyer gives up. -/
def haggle (protagonist : String) : LocalProtocol where
  name := "Haggle"
  protagonist
  roles := ["Buyer", "Seller"]
  conversation :=
    [.loop ⟨"Haggle", "rec", 0⟩ "Round"
      [.choice ⟨"Haggle", "choice", 1⟩ "Buyer"
        [[.message ⟨⟨"Haggle", "step", 2⟩, "Offer", "Buyer", "Seller", ["int"]⟩,
          .choice ⟨"Haggle", "choice", 3⟩ "Seller"
            [[.message ⟨⟨"Haggle", "step", 4⟩, "Accept", "Seller", "Buyer", []⟩],
             [.message ⟨⟨"Haggle", "step", 5⟩, "Counter", "Seller", "Buyer", ["int"]⟩,
              .jump ⟨"Haggle", "continue", 6⟩ "Round"]]],
         [.message ⟨⟨"Haggle", "step", 7⟩, "Quit", "Buyer", "Seller", []⟩]]],
     .message ⟨⟨"Haggle", "step", 8⟩, "Receipt", "Seller", "Buyer", ["string"]⟩]

def hagglers : Side → LocalProtocol
  | .left => haggle "Buyer"
  | .right => haggle "Seller"

theorem hagglers_safe : ∃ p : Side → Projection,
    (∀ i, (hagglers i).project none [] = .ok (p i)) ∧ (∃ d, Duet.Opens p d) ∧
      ∀ d₀ d, Duet.Opens p d₀ → Relation.ReflTransGen (Duet.Step p) d₀ d → d.Safe p := by
  have hready : ∀ i, ∃ p source,
      (hagglers i).project none [] = .ok p ∧ Api.single {} p = .ok source := by
    intro i
    have hok : (match (hagglers i).project none [] with
        | .ok p => (Api.single {} p).toBool
        | .error _ => false) = true := by
      cases i <;> decide +kernel
    cases hp : (hagglers i).project none [] with
    | error e =>
      rw [hp] at hok
      cases hok
    | ok p =>
      rw [hp] at hok
      cases hs : Api.single {} p with
      | error e =>
        simp only [hs] at hok
        cases hok
      | ok source => exact ⟨p, source, rfl, hs⟩
  choose p source hp hs using hready
  have hlocals : ∀ i, hagglers i ∈ [hagglers .left, hagglers .right] := by
    intro i
    cases i <;> simp
  have hroles : ∀ i, ∀ role ∈ (hagglers i).roles, ∃ j, role = (hagglers j).protagonist := by
    intro i role hrole
    have hrole' : role ∈ ["Buyer", "Seller"] := by
      cases i <;> exact hrole
    simp only [List.mem_cons, List.not_mem_nil, or_false] at hrole'
    rcases hrole' with rfl | rfl
    · exact ⟨.left, rfl⟩
    · exact ⟨.right, rfl⟩
  have hdeclared : Protocol.check ⟨none, [], [hagglers .left, hagglers .right]⟩ = .ok () := by
    decide +kernel
  exact ⟨p, hp, Duet.safe_of_check hdeclared hlocals rfl (by decide) hroles (by decide +kernel)
    hp hs⟩

end Parley
