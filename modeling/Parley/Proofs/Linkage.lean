import Mathlib.Data.List.Forall2
import Parley.Proofs.Declared
import Parley.Proofs.Roster

/-! The links between the records of a projection. A target names a step by its identifier, its kind
and its state, and each of these leads to one record. The state in which a loop is entered is that of
a step in its body; ends of loops and joins belong to the innermost of what encloses a step. -/

namespace Parley

open Outcome

namespace LocalProtocol

/-- The state of a loop: one step stands in it, and that step lies in the body of the loop. -/
def Entered (l : LocalProtocol) (p : Projection) (r : LoopRecord) : Prop :=
  ∃ x o, p.Sole Record.standing? r.state x ∧ o ∈ l.occurrences ∧ x.Tells o ∧ .loop r.id ∈ o.around

/-- A target that refers to something, seen from inside the given loops and parallel steps. -/
def Refers (l : LocalProtocol) (p : Projection) (around : List Enclosure) : Target → Prop
  | .step id .loop state => ∃ r, p.Sole Record.id? id (.loop r) ∧ r.state = state ∧ l.Entered p r
  | .step id kind state =>
    ∃ r, p.Sole Record.id? id r ∧ r.kind = kind ∧ p.Sole Record.standing? state r
  | .back id label state => ∃ r, p.Sole Record.id? id (.loop r) ∧ r.label = label ∧
      r.state = state ∧ l.Entered p r ∧ .loop id ∈ around
  | .loopEnd id label => ∃ r, p.Sole Record.id? id (.loop r) ∧ r.label = label ∧
      around.head? = some (.loop id)
  | .join id state => ∃ r, p.Sole Record.id? id (.par r) ∧ r.join = state ∧
      around.head? = some (.par id)
  | .finish => around = []

/-- The record of a step: it is about the step, and all its targets refer to something. -/
structure Recorded (l : LocalProtocol) (p : Projection) (o : Occurrence) (r : Record) : Prop where
  tells : r.Tells o
  targets : ∀ t ∈ r.targets, l.Refers p o.around t
  branches : ∀ c, r = .par c → ∀ t ∈ c.branches, l.Refers p (.par c.id :: o.around) t

/-- A projection that lists just the steps of a local protocol, and in which every reference leads to
one record. -/
structure Linked (l : LocalProtocol) (p : Projection) : Prop where
  listed : l.occurrences.map Occurrence.node = Conversation.preorder l.conversation
  recorded : ∀ kind, List.Forall₂ (l.Recorded p) (l.occurrences.filter (·.node.kind == kind))
    (p.ofKind kind)
  start : l.Refers p [] p.start
  sole : ∀ r ∈ p.records, ∀ id, r.id? = some id → p.Sole Record.id? id r
  message? : ∀ id r, p.message? id = some r ↔ p.Sole Record.id? id (.message r)
  loop? : ∀ id r, p.loop? id = some r ↔ p.Sole Record.id? id (.loop r)
  par? : ∀ id r, p.par? id = some r ↔ p.Sole Record.id? id (.par r)

variable {l : LocalProtocol} {p : Projection} {s : Stretch}

/-- The step in whose state a loop is entered lies inside whatever encloses the way to it. -/
theorem Leads.exists_step {state : String} (h : l.Leads state s) :
    ∃ u n ns, l.Has u ∧ u.rest = n :: ns ∧ ¬ n.Passed ∧ u.state = state ∧
      Frame.enclosures s.frames ⊆ Frame.enclosures u.frames := by
  induction h with
  | @step s n ns hs hr hn hstate => exact ⟨s, n, ns, hs, hr, hn, hstate, List.Subset.refl _⟩
  | call _ _ _ ih => exact ih
  | loop _ _ _ ih =>
    obtain ⟨u, n, ns, hu, hr, hn, hstate, hsub⟩ := ih
    exact ⟨u, n, ns, hu, hr, hn, hstate, List.Subset.trans (List.subset_cons_self _ _) hsub⟩

namespace Yields

variable (y : l.Yields p)

include y

theorem mem_records_iff {r : Record} : r ∈ p.records ↔ r ∈ l.roll p := by
  have hall : r.kind ∈ StepKind.all := by cases r <;> simp [Record.kind, StepKind.all]
  simp only [Projection.records, List.mem_flatMap, y.ofKind_eq_filter, List.mem_filter, beq_iff_eq]
  constructor
  · rintro ⟨_, _, hr, _⟩
    exact hr
  · intro hr
    exact ⟨r.kind, hall, hr, rfl⟩

theorem sole_id {r : Record} (hr : r ∈ p.records) {id : NodeId} (hid : r.id? = some id) :
    p.Sole Record.id? id r :=
  y.sole y.ids_nodup (y.mem_records_iff.mp hr) hid

/-- The record of the step that begins a stretch is found by the identifier of the step, and by the
state where sessions stand in it. -/
theorem exists_sole (hs : l.Has s) {n : Node} {ns : Conversation} (hr : s.rest = n :: ns) :
    ∃ q ∈ l.places, q.stretch = s ∧ ∃ r ∈ p.records, l.Records s r ∧ r.kind = n.kind ∧
      (∀ id, n.id? = some id → p.Sole Record.id? id r) ∧
      (n.kind.observable = true → p.Sole Record.standing? s.state r) := by
  obtain ⟨q, hq, rfl, rfl, _⟩ := hs.exists_place hr
  obtain ⟨r, hrq⟩ := y.recorded q hq
  have hroll : r.mark (signals p.choices) ∈ l.roll p :=
    List.mem_map_of_mem (List.mem_filterMap.mpr ⟨q, hq, hrq⟩)
  have hrec := records_mark (records_of_record_eq_ok (record?_eq_some.mp hrq)) (signals p.choices)
  have hmem := y.mem_records_iff.mpr hroll
  refine ⟨q, hq, rfl, _, hmem, hrec, hrec.kind_eq hr, ?_, ?_⟩
  · intro id hid
    exact y.sole_id hmem (hrec.tells.kind_id_eq.2.trans hid)
  · intro ho
    exact y.sole y.states_nodup hroll (hrec.standing?_eq.trans (if_pos ho))

theorem exists_sole_par (hs : l.Has s) {id : NodeId} {bs : List Conversation} {ns : Conversation}
    (hr : s.rest = .par id bs :: ns) :
    ∃ r, p.Sole Record.id? id (.par r) ∧ r.join = joinState s.state := by
  obtain ⟨_, _, _, x, _, hrec, hkind, hid, _⟩ := y.exists_sole hs hr
  cases x <;> cases hkind
  obtain ⟨_, _, _, _, _, hjoin, _⟩ := hrec
  exact ⟨_, hid id rfl, hjoin⟩

theorem entered {r : LoopRecord} (hl : l.Leads r.state s)
    (hin : .loop r.id ∈ Frame.enclosures s.frames) : l.Entered p r := by
  obtain ⟨u, n, ns, hu, hr, hn, hstate, hsub⟩ := hl.exists_step
  obtain ⟨q, hq, rfl, x, _, hrec, _, _, hsole⟩ := y.exists_sole hu hr
  have ho : n.kind.observable = true := by
    cases n with
    | message | choice | par => rfl
    | loop | jump | call => exact absurd trivial hn
  refine ⟨x, q.occurrence, hstate ▸ hsole ho, ?_, hrec.tells, hsub hin⟩
  rw [← l.map_occurrence_places]
  exact List.mem_map_of_mem hq

theorem exists_sole_loop (hs : l.Has s) {id : NodeId} {label : String} {body ns : Conversation}
    (hr : s.rest = .loop id label body :: ns) :
    ∃ r, p.Sole Record.id? id (.loop r) ∧ r.label = label ∧
      (s.loop id label body).entry = .ok r.state ∧ l.Entered p r := by
  obtain ⟨_, _, _, x, _, hrec, hkind, hid, _⟩ := y.exists_sole hs hr
  cases x <;> cases hkind
  obtain ⟨_, _, hr', _, _, he, _⟩ := hrec
  cases (List.cons.inj (hr.symm.trans hr')).1
  refine ⟨_, hid _ rfl, rfl, he, ?_⟩
  exact y.entered ((hs.body hr).leads_of_entryState he) List.mem_cons_self

/-- What a stretch leads to, there is one of. -/
theorem refers (hs : l.Has s) {t : Target} (ht : s.target = .ok t) :
    l.Refers p (Frame.enclosures s.frames) t := by
  induction hs using LocalProtocol.Has.walk with
  | @step s n ns hs hr hn =>
    obtain ⟨_, _, _, r, _, _, hkind, hid, hstate⟩ := y.exists_sole hs hr
    cases n with
    | message m =>
      obtain rfl := Except.ok.inj ((Stretch.target_message hr).symm.trans ht)
      exact ⟨r, hid _ rfl, hkind, hstate rfl⟩
    | choice id chooser bs =>
      obtain rfl := Except.ok.inj ((Stretch.target_choice hr).symm.trans ht)
      exact ⟨r, hid _ rfl, hkind, hstate rfl⟩
    | par id bs =>
      obtain rfl := Except.ok.inj ((Stretch.target_par hr).symm.trans ht)
      exact ⟨r, hid _ rfl, hkind, hstate rfl⟩
    | loop | jump | call => exact absurd trivial hn
  | enter hs hr =>
    obtain ⟨r, hsole, _, he, hentered⟩ := y.exists_sole_loop hs hr
    obtain rfl := Except.ok.inj ((Stretch.target_loop hr he).symm.trans ht)
    exact ⟨r, hsole, rfl, hentered⟩
  | @jump s id label ns hs hr =>
    obtain ⟨inner, outer, state, hb, he, htarget⟩ := y.exists_target_jump hs hr
    obtain ⟨u, following, hu, hur, _, hinner⟩ := (hs.of_binds hb rfl).enclosing_loop rfl
    obtain ⟨r, hsole, hlabel, he', hentered⟩ := y.exists_sole_loop hu hur
    rw [← hinner, he] at he'
    obtain rfl := Except.ok.inj (htarget.symm.trans ht)
    exact ⟨r, hsole, hlabel.trans hb.label_eq, (Except.ok.inj he').symm, hentered, hb.mem_enclosures⟩
  | call _ hr ih => exact ih ((Stretch.target_call hr).symm.trans ht)
  | root _ hr hf =>
    obtain rfl := Except.ok.inj ((Stretch.target_root hr hf).symm.trans ht)
    rw [hf]
    rfl
  | par hs hr hf =>
    obtain rfl := Except.ok.inj ((Stretch.target_par_end hr hf).symm.trans ht)
    obtain ⟨u, bs, following, hu, hur, _, rfl⟩ := hs.enclosing_par hf
    obtain ⟨r, hsole, hjoin⟩ := y.exists_sole_par hu hur
    rw [hf]
    exact ⟨r, hsole, hjoin, rfl⟩
  | choice _ hr hf ih =>
    rw [hf]
    exact ih ((Stretch.target_choice_end hr hf).symm.trans ht)
  | loop hs hr hf _ =>
    obtain rfl := Except.ok.inj ((Stretch.target_loop_end hr hf).symm.trans ht)
    obtain ⟨u, following, hu, hur, _, _⟩ := hs.enclosing_loop hf
    obtain ⟨r, hsole, hlabel, _⟩ := y.exists_sole_loop hu hur
    rw [hf]
    exact ⟨r, hsole, hlabel, rfl⟩

theorem recorded_of_records {q : Place} (hq : q ∈ l.places) {r : Record}
    (hr : l.Records q.stretch r) : l.Recorded p q.occurrence r := by
  have hs := l.has_of_mem_places hq
  refine ⟨hr.tells, ?_, ?_⟩
  · intro t ht
    obtain ⟨u, hu, htarget, hframes⟩ := hr.exists_of_mem_targets Frame.enclosures_choice hs ht
    have hrefers := y.refers hu htarget
    rwa [hframes] at hrefers
  · rintro c rfl t ht
    obtain ⟨u, hu, htarget, hframes⟩ := hr.exists_frames_of_mem_branches hs ht
    have hrefers := y.refers hu htarget
    rwa [hframes] at hrefers

theorem forall₂_recorded (kind : StepKind) :
    List.Forall₂ (l.Recorded p) (l.occurrences.filter (·.node.kind == kind)) (p.ofKind kind) := by
  have hall : List.Forall₂ (l.Recorded p) l.occurrences (l.roll p) := by
    rw [← l.map_occurrence_places, List.forall₂_map_left_iff]
    exact y.forall₂_roll.imp fun q r h => y.recorded_of_records h.1 h.2
  rw [y.ofKind_eq_filter]
  refine List.rel_filter (fun o r h => ?_) hall
  simp only [h.tells.kind_id_eq.1]

/-- A list of records of one kind finds a record just where it is the only one with its
identifier. -/
theorem find?_eq_some_iff {γ : Type} {xs : List γ} {key : γ → NodeId} {wrap : γ → Record}
    (hwrap : wrap.Injective) (hkey : ∀ c, (wrap c).id? = some (key c))
    (hmem : ∀ c, wrap c ∈ p.records ↔ c ∈ xs) (id : NodeId) (c : γ) :
    xs.find? (key · == id) = some c ↔ p.Sole Record.id? id (wrap c) := by
  constructor
  · intro h
    have hid : key c = id := by simpa using List.find?_some h
    exact y.sole_id ((hmem c).mpr (List.mem_of_find?_eq_some h)) (hid ▸ hkey c)
  · intro h
    obtain ⟨hc, hid⟩ := h.mem
    have hkc : key c = id := Option.some.inj ((hkey c).symm.trans hid)
    cases hf : xs.find? (key · == id) with
    | none =>
      have hne := List.find?_eq_none.mp hf c ((hmem c).mp hc)
      simp [hkc] at hne
    | some c' =>
      have hkc' : key c' = id := by simpa using List.find?_some hf
      have hc' := (hmem c').mpr (List.mem_of_find?_eq_some hf)
      rw [hwrap (h.eq hc' (hkc' ▸ hkey c'))]

theorem linked : l.Linked p := by
  have hlists : ∀ r, r ∈ p.records ↔ p.Lists r := by
    intro r
    cases r <;> simp [Projection.records, StepKind.all, Projection.ofKind, Projection.Lists]
  refine ⟨?_, y.forall₂_recorded, y.refers .whole y.start, fun r hr id hid => y.sole_id hr hid,
    ?_, ?_, ?_⟩
  · rw [← l.map_occurrence_places, List.map_map]
    exact Conversation.map_node_places ..
  · exact y.find?_eq_some_iff (fun _ _ => Record.message.inj) (fun _ => rfl) fun r => hlists (.message r)
  · exact y.find?_eq_some_iff (fun _ _ => Record.loop.inj) (fun _ => rfl) fun r => hlists (.loop r)
  · exact y.find?_eq_some_iff (fun _ _ => Record.par.inj) (fun _ => rfl) fun r => hlists (.par r)

end Yields

/-- The lists of a projection hold one record for each step, in order, and each target leads to the
one record that it names. -/
theorem linked_of_project {moduleName? : Option String} {types : List TypeImport}
    (h : l.project moduleName? types = .ok p) : l.Linked p := by
  have y := yields_of_project_eq_ok h
  exact y.linked

end LocalProtocol

/-- Rounds of a watch, hour by hour, with a break that can be given up. -/
def watch : LocalProtocol where
  name := "Watch"
  protagonist := "Guard"
  roles := ["Guard", "Gate", "Desk"]
  conversation :=
    [.loop ⟨"Guard", "rec", 0⟩ "Day"
      [.call "Briefing" ["Guard", "Desk"],
       .loop ⟨"Guard", "rec", 1⟩ "Hour"
        [.choice ⟨"Guard", "choice", 2⟩ "Guard"
          [[.message ⟨⟨"Guard", "step", 3⟩, "Round", "Guard", "Gate", []⟩,
            .jump ⟨"Guard", "continue", 4⟩ "Hour"],
           [.message ⟨⟨"Guard", "step", 5⟩, "Change", "Guard", "Desk", ["u8"]⟩,
            .jump ⟨"Guard", "continue", 6⟩ "Day"],
           []]],
       .par ⟨"Guard", "par", 7⟩
        [[.message ⟨⟨"Guard", "step", 8⟩, "Break", "Guard", "Desk", []⟩], []]],
     .call "Report" ["Guard", "Desk"]]

theorem watch_linked : ∃ p, watch.project none [] = .ok p ∧ watch.Linked p := by
  have hok : (watch.project none []).toBool = true := by decide +kernel
  obtain ⟨p, h⟩ := exists_ok_of_toBool hok
  exact ⟨p, h, LocalProtocol.linked_of_project h⟩

end Parley
