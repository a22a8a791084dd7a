import Parley.Proofs.Declared
import Parley.Proofs.Roster

/-! Continuations. The way on from a step can be read off the tree from the outside in: a conversation
is given the target behind its end and hands each step the target behind that step. The targets of a
projection are found the other way round, from a step outwards, and the two agree at every step. -/

namespace Parley

open Outcome

/-- Where a conversation is entered from `position` on, if running off its end leads to `exit`. Jumps
go back to the loops in `scope`, which holds the innermost first. -/
def Conversation.entry (stem : String) (scope : List Loop) (exit : Option Target) (position : Nat) :
    List Node → Option Target
  | [] => exit
  | .call .. :: ns => Conversation.entry stem scope exit (position + 1) ns
  | .jump _ label :: _ => do
    let bound ← scope.find? (·.label == label)
    return .back bound.id label (← bound.entry.toOption)
  | .loop id label body :: _ => do
    let inner : Loop := ⟨id, label, bodyStem (stateName stem position) label, body⟩
    return .step id .loop (← inner.entry.toOption)
  | .message m :: _ => some (.step m.id .message (stateName stem position))
  | .choice id .. :: _ => some (.step id .choice (stateName stem position))
  | .par id _ :: _ => some (.step id .par (stateName stem position))

/-- Where branches are entered, counted from `index`, if each leads to `exit`. -/
def branchEntries (state tag : String) (scope : List Loop) (exit : Option Target) (index : Nat) :
    List (List Node) → List (Option Target)
  | [] => []
  | b :: bs =>
    Conversation.entry (branchStem state tag index) scope exit 1 b
      :: branchEntries state tag scope exit (index + 1) bs

/-- The target at which the branches of a parallel step end. -/
def joinOf (id : NodeId) (state : String) : Option Target := some (.join id (joinState state))

/-- Where the branches of a step in `state` are entered, if `after` is the target behind the step. A
branch of a choice leads behind the choice; out of a parallel step no jump leads. -/
def Node.branchEntries (state : String) (scope : List Loop) (after : Option Target) :
    Node → List (Option Target)
  | .choice _ _ branches => Parley.branchEntries state choiceTag scope after 1 branches
  | .par id branches => Parley.branchEntries state parTag [] (joinOf id state) 1 branches
  | _ => []

/-- A step and the ways on from there: on arriving at it, once it is done, from the end of the
conversation it stands in, and into its branches. -/
structure Course where
  node : Node
  state : String
  entry : Option Target
  after : Option Target
  exit : Option Target
  branches : List (Option Target)

mutual

/-- The courses of a conversation that leads to `exit`, each before those inside it. -/
def Conversation.courses (stem : String) (scope : List Loop) (exit : Option Target)
    (position : Nat) : List Node → List Course
  | [] => []
  | n :: ns =>
    let state := stateName stem position
    let after := Conversation.entry stem scope exit (position + 1) ns
    ⟨n, state, Conversation.entry stem scope exit position (n :: ns), after, exit,
        n.branchEntries state scope after⟩
      :: (n.coursesWithin state scope after
        ++ Conversation.courses stem scope exit (position + 1) ns)

/-- The courses inside a step, if `after` is the target behind it. -/
def Node.coursesWithin (state : String) (scope : List Loop) (after : Option Target) :
    Node → List Course
  | .loop id label body =>
    let inner : Loop := ⟨id, label, bodyStem state label, body⟩
    Conversation.courses inner.stem (inner :: scope) (some (.loopEnd id label)) 1 body
  | .choice _ _ branches => branchCourses state choiceTag scope after 1 branches
  | .par id branches => branchCourses state parTag [] (joinOf id state) 1 branches
  | .message _ => []
  | .call .. => []
  | .jump .. => []

def branchCourses (state tag : String) (scope : List Loop) (exit : Option Target) (index : Nat) :
    List (List Node) → List Course
  | [] => []
  | b :: bs =>
    Conversation.courses (branchStem state tag index) scope exit 1 b
      ++ branchCourses state tag scope exit (index + 1) bs

end

def LocalProtocol.courses (l : LocalProtocol) : List Course :=
  Conversation.courses l.protagonist [] (some .finish) 1 l.conversation

/-! ### The two ways of finding a target -/

namespace Frame

/-- The loops to which jumps inside some frames may go, innermost first. -/
def scope : List Frame → List Loop
  | [] => []
  | .loop inner :: outer => inner :: scope outer
  | .choice .. :: outer => scope outer
  | .par .. :: _ => []

theorem toOption_target (label : String) (frames : List Frame) :
    (target label frames).toOption = (scope frames).find? (·.label == label) := by
  induction frames with
  | nil => rfl
  | cons f outer ih =>
    cases f with
    | loop inner =>
      rw [target, scope, List.find?_cons]
      by_cases h : (inner.label == label) = true
      · rw [if_pos h, h]
        rfl
      · rw [if_neg h, ih]
        simp [h]
    | choice stem position following => exact ih
    | par id state => rfl

end Frame

/-- The target behind the end of a conversation inside some frames, if there is one. -/
def Frame.exit (frames : List Frame) : Option Target := (Target.leave frames).toOption

section Agreement

variable {stem : String} {frames : List Frame} {i : Nat}

theorem Target.toOption_enter (c : Conversation) :
    (Target.enter stem frames i c).toOption =
      Conversation.entry stem (Frame.scope frames) (Frame.exit frames) i c := by
  induction c generalizing i with
  | nil => rfl
  | cons n ns ih =>
    cases n with
    | call name roles => exact ih
    | message m => rfl
    | choice id chooser branches => rfl
    | par id branches => rfl
    | loop id label body =>
      unfold Target.enter Conversation.entry
      simp only [Target.firstStep?, Target.ofNode]
      cases Loop.entry ⟨id, label, bodyStem (stateName stem i) label, body⟩ <;> rfl
    | jump id label =>
      unfold Target.enter Conversation.entry
      simp only [Target.firstStep?, Target.ofNode]
      rw [← Frame.toOption_target]
      cases Frame.target label frames with
      | error e => rfl
      | ok bound =>
        cases he : bound.entry <;> simp [he, Except.toOption, bind, Except.bind, pure, Except.pure]

/-- Behind a branch of a choice comes what comes behind the choice. -/
theorem Frame.exit_choice (stem : String) (i : Nat) (following : Conversation)
    (outer : List Frame) :
    Frame.exit (.choice stem i following :: outer) =
      Conversation.entry stem (Frame.scope outer) (Frame.exit outer) (i + 1) following := by
  rw [← Target.toOption_enter]
  unfold Frame.exit
  rw [Target.leave]
  rfl

end Agreement

/-- The course of the step at a place. -/
def Place.course (q : Place) : Course :=
  let scope := Frame.scope q.frames
  let exit := Frame.exit q.frames
  let after := Conversation.entry q.stem scope exit (q.position + 1) q.following
  ⟨q.node, q.state, Conversation.entry q.stem scope exit q.position (q.node :: q.following), after,
    exit, q.node.branchEntries q.state scope after⟩

theorem Conversation.draws_courses : Stretch.Draws (fun q => [q.course])
    (fun s => Conversation.courses s.stem (Frame.scope s.frames) (Frame.exit s.frames) s.position s.rest)
    (fun state tag frames i bs =>
      branchCourses state tag (Frame.scope frames) (Frame.exit frames) i bs) := by
  constructor
  case choice =>
    intro stem frames before? i ns id chooser bs
    rw [Frame.exit_choice]
    rfl
  all_goals
    intros
    rfl

theorem LocalProtocol.map_course_places (l : LocalProtocol) :
    l.places.map Place.course = l.courses :=
  Conversation.map_places Conversation.draws_courses _ _ _ _ l.conversation

/-- At a place a target is found on arriving, once the step is done, and from the end of the
conversation around it, each of them the one of the course. -/
structure Course.Resolves (c : Course) (q : Place) : Prop where
  node : c.node = q.node
  state : c.state = q.state
  entry : ∃ t, Target.enter q.stem q.frames q.position (q.node :: q.following) = .ok t ∧
    c.entry = some t
  after : ∃ t, q.next = .ok t ∧ c.after = some t
  exit : ∃ t, Target.leave q.frames = .ok t ∧ c.exit = some t

/-- A record whose targets are those of the course. -/
def Course.Describes (c : Course) : Record → Prop
  | .message r => c.node = .message r.message ∧ c.state = r.state ∧ c.after = some r.next
  | .choice r => (∃ bs, c.node = .choice r.id r.chooser bs) ∧ c.state = r.state ∧
      c.after = some r.next ∧ c.branches = r.branches.map fun b => some b.entry
  | .par r => (∃ bs, c.node = .par r.id bs) ∧ c.state = r.state ∧ c.after = some r.next ∧
      c.branches = r.branches.map some
  | .loop r => (∃ body, c.node = .loop r.id r.label body) ∧ r.stem = bodyStem c.state r.label ∧
      c.after = some r.next
  | .jump r => c.node = .jump r.id r.label ∧ c.state = r.state ∧ c.entry = some r.target
  | .call r => c.node = .call r.name r.roles ∧ c.state = r.state ∧ c.after = some r.next

theorem Course.Describes.kind_eq {c : Course} {r : Record} (h : c.Describes r) :
    c.node.kind = r.kind := by
  cases r with
  | message | jump | call =>
    rw [h.1]
    rfl
  | choice | par | loop =>
    obtain ⟨⟨_, hnode⟩, _⟩ := h
    rw [hnode]
    rfl

theorem getElem?_branchEntries {state tag : String} {scope : List Loop} {exit : Option Target}
    {bs : List Conversation} (i k : Nat) :
    (branchEntries state tag scope exit i bs)[k]? =
      bs[k]?.map (Conversation.entry (branchStem state tag (i + k)) scope exit 1) := by
  induction bs generalizing i k with
  | nil => simp [branchEntries]
  | cons b bs ih =>
    rw [branchEntries]
    cases k with
    | zero => rfl
    | succ k =>
      rw [List.getElem?_cons_succ, List.getElem?_cons_succ, ih,
        show i + 1 + k = i + (k + 1) by omega]

/-- Branches that are entered where some targets say. -/
theorem branchEntries_eq_map {α : Type} {state tag : String} {scope : List Loop}
    {exit : Option Target} {bs : List Conversation} {as : List α} {f : α → Target}
    (hlen : as.length = bs.length)
    (h : ∀ (k : Nat) b a, bs[k]? = some b → as[k]? = some a →
      Conversation.entry (branchStem state tag (k + 1)) scope exit 1 b = some (f a)) :
    branchEntries state tag scope exit 1 bs = as.map fun a => some (f a) := by
  apply List.ext_getElem?
  intro k
  rw [getElem?_branchEntries, List.getElem?_map, Nat.add_comm 1 k]
  cases hb : bs[k]? with
  | none =>
    have hle := List.getElem?_eq_none_iff.mp hb
    rw [List.getElem?_eq_none (by omega)]
    rfl
  | some b =>
    obtain ⟨a, ha⟩ := exists_getElem?_of_length_eq hlen.symm hb
    rw [ha, Option.map_some, Option.map_some, h k b a hb ha]

namespace LocalProtocol

variable {l : LocalProtocol} {p : Projection} {s : Stretch}

theorem entry_of_target {t : Target} (h : s.target = .ok t) :
    Conversation.entry s.stem (Frame.scope s.frames) (Frame.exit s.frames) s.position s.rest =
      some t := by
  rw [← Target.toOption_enter]
  unfold Stretch.target at h
  rw [h]
  rfl

theorem Yields.exists_target (y : l.Yields p) (hs : l.Has s) : ∃ t, s.target = .ok t := by
  obtain ⟨_, t, ht, _⟩ := y.exists_lands hs
  exact ⟨t, ht⟩

theorem Yields.resolves (y : l.Yields p) {q : Place} (hq : q ∈ l.places) :
    q.course.Resolves q := by
  have hs := l.has_of_mem_places hq
  obtain ⟨e, he⟩ := y.exists_target hs
  obtain ⟨a, ha⟩ := y.exists_target (hs.pass rfl)
  obtain ⟨k, hk⟩ := y.exists_target (hs.drop (List.append_nil _).symm)
  refine ⟨rfl, rfl, ⟨e, he, entry_of_target he⟩, ⟨a, ha, entry_of_target ha⟩, ⟨k, hk, ?_⟩⟩
  exact entry_of_target hk

theorem Records.describes {q : Place} {r : Record} (h : l.Records q.stretch r) :
    q.course.Describes r := by
  cases r with
  | message r =>
    obtain ⟨ns, hr, hstate, _, _, hnext⟩ := h
    obtain ⟨hn, rfl⟩ := List.cons.inj hr
    exact ⟨hn, hstate.symm, entry_of_target hnext⟩
  | choice r =>
    obtain ⟨bs, ns, hr, hstate, _, _, hnext, hlen, hall⟩ := h
    obtain ⟨hn, rfl⟩ := List.cons.inj hr
    refine ⟨⟨bs, hn⟩, hstate.symm, entry_of_target hnext, ?_⟩
    unfold Place.course
    simp only [hn, Node.branchEntries]
    apply branchEntries_eq_map hlen
    intro k b e hb he
    have hentry := entry_of_target (hall k b e hb he).2.1
    rw [← Frame.exit_choice]
    exact hentry
  | par r =>
    obtain ⟨bs, ns, hr, hstate, _, _, hnext, hlen, hall⟩ := h
    obtain ⟨hn, rfl⟩ := List.cons.inj hr
    refine ⟨⟨bs, hn⟩, hstate.symm, entry_of_target hnext, ?_⟩
    unfold Place.course
    simp only [hn, Node.branchEntries]
    apply branchEntries_eq_map (f := id) hlen
    intro k b t hb ht
    exact entry_of_target (hall k b t hb ht)
  | loop r =>
    obtain ⟨body, ns, hr, _, hstem, _, hnext⟩ := h
    obtain ⟨hn, rfl⟩ := List.cons.inj hr
    exact ⟨⟨body, hn⟩, hstem, entry_of_target hnext⟩
  | jump r =>
    obtain ⟨ns, hr, hstate, _, htarget⟩ := h
    obtain ⟨hn, rfl⟩ := List.cons.inj hr
    exact ⟨hn, hstate.symm, entry_of_target htarget⟩
  | call r =>
    obtain ⟨ns, hr, hstate, _, hnext⟩ := h
    obtain ⟨hn, rfl⟩ := List.cons.inj hr
    exact ⟨hn, hstate.symm, entry_of_target hnext⟩

theorem Yields.forall₂_describes (y : l.Yields p) (kind : StepKind) :
    List.Forall₂ Course.Describes (l.courses.filter (·.node.kind == kind)) (p.ofKind kind) := by
  have hall : List.Forall₂ Course.Describes l.courses (l.roll p) := by
    rw [← l.map_course_places, List.forall₂_map_left_iff]
    exact y.forall₂_roll.imp fun q r h => h.2.describes
  rw [y.ofKind_eq_filter]
  refine List.rel_filter (fun c r h => ?_) hall
  simp only [h.kind_eq]

/-- All branches of a choice lead where the choice leads: a branch without steps is entered there, and
the last step of any other goes on there. -/
def Merges (l : LocalProtocol) (c : Course) : Prop :=
  ∀ id chooser bs, c.node = .choice id chooser bs → ∀ (k : Nat) b, bs[k]? = some b →
    (b = [] → c.branches[k]? = some c.after) ∧
    ∀ n, b.getLast? = some n → ∃ c' ∈ l.courses, c'.node = n ∧ c'.after = c.after ∧
      c'.state = stateName (branchStem c.state choiceTag (k + 1)) b.length

theorem merges_course {q : Place} (hq : q ∈ l.places) : l.Merges q.course := by
  intro id chooser bs hn k b hb
  have hs := l.has_of_mem_places hq
  have hrest : q.stretch.rest = .choice id chooser bs :: q.following := by
    rw [← show q.node = .choice id chooser bs from hn]
    rfl
  constructor
  · intro hnil
    have hn' : q.node = .choice id chooser bs := hn
    unfold Place.course
    simp only [hn', Node.branchEntries]
    rw [getElem?_branchEntries, hb, hnil]
    rfl
  · intro n hlast
    obtain ⟨xs, rfl⟩ := List.getLast?_eq_some_iff.mp hlast
    have hend := (hs.choice hrest hb).drop (show _ = xs ++ [n] from rfl)
    obtain ⟨q', hq', hnode, hstretch, _⟩ := hend.exists_place rfl
    obtain ⟨node, stem, i, before?, following, frames⟩ := q'
    simp only [Place.stretch, Stretch.mk.injEq, List.cons.injEq] at hstretch
    obtain ⟨rfl, rfl, rfl, rfl, rfl⟩ := hstretch
    refine ⟨_, by rw [← l.map_course_places]; exact List.mem_map_of_mem hq', rfl, ?_, ?_⟩
    · exact Frame.exit_choice ..
    · simp [Place.course, Place.state, Stretch.inChoice, Stretch.state, Nat.add_comm]

/-- A projection all of whose targets are those read off the tree from the outside in. -/
structure Continued (l : LocalProtocol) (p : Projection) : Prop where
  listed : l.courses.map Course.node = Conversation.preorder l.conversation
  resolved : List.Forall₂ Course.Resolves l.courses l.places
  start : Conversation.entry l.protagonist [] (some .finish) 1 l.conversation = some p.start
  recorded : ∀ kind, List.Forall₂ Course.Describes (l.courses.filter (·.node.kind == kind))
    (p.ofKind kind)
  merged : ∀ c ∈ l.courses, l.Merges c

/-- Every search for the way on from a step finds a target, and it is the one that the structure of the
conversation gives the step. -/
theorem continued_of_project {moduleName? : Option String} {types : List TypeImport}
    (h : l.project moduleName? types = .ok p) : l.Continued p := by
  have y := yields_of_project_eq_ok h
  refine ⟨?_, ?_, entry_of_target y.start, y.forall₂_describes, ?_⟩
  · rw [← l.map_course_places, List.map_map]
    exact Conversation.map_node_places ..
  · rw [← l.map_course_places, List.forall₂_map_left_iff, List.forall₂_same]
    exact fun q hq => y.resolves hq
  · rw [← l.map_course_places]
    intro c hc
    obtain ⟨q, hq, rfl⟩ := List.mem_map.mp hc
    exact merges_course hq

end LocalProtocol

/-- Crossings of a ferry. A choice ends a choice that ends a loop, branches are empty or hold nothing
but calls, and the inner loop opens the outer. -/
def ferry : LocalProtocol where
  name := "Ferry"
  protagonist := "Mate"
  roles := ["Mate", "Pilot"]
  conversation :=
    [.call "Muster" ["Mate"],
     .loop ⟨"Mate", "rec", 0⟩ "Day"
      [.loop ⟨"Mate", "rec", 1⟩ "Trip"
        [.call "Fuel" ["Mate"],
         .choice ⟨"Mate", "choice", 2⟩ "Mate"
          [[.message ⟨⟨"Mate", "step", 3⟩, "Cast", "Mate", "Pilot", ["int"]⟩,
            .choice ⟨"Mate", "choice", 4⟩ "Pilot"
              [[.message ⟨⟨"Mate", "step", 5⟩, "Back", "Pilot", "Mate", []⟩,
                .jump ⟨"Mate", "continue", 6⟩ "Trip"],
               [.message ⟨⟨"Mate", "step", 7⟩, "Rest", "Pilot", "Mate", []⟩,
                .jump ⟨"Mate", "continue", 8⟩ "Day"],
               [.call "Wait" ["Mate"], .call "Wait" ["Mate"]],
               []]],
           []]],
       .call "Log" ["Mate"]],
     .par ⟨"Mate", "par", 9⟩
      [[.message ⟨⟨"Mate", "step", 10⟩, "Moor", "Mate", "Pilot", []⟩, .call "Wash" ["Mate"]], []],
     .call "Lock" ["Mate"]]

theorem ferry_continued : ∃ p, ferry.project none [] = .ok p ∧ ferry.Continued p := by
  have hok : (ferry.project none []).toBool = true := by decide +kernel
  obtain ⟨p, h⟩ := exists_ok_of_toBool hok
  exact ⟨p, h, LocalProtocol.continued_of_project h⟩

end Parley
