import Parley.Api.Role
import Parley.Proofs.Containment

/-! The ways out of a loop. The generated source goes by the names of states to tell which steps lie
inside a loop and which loops lie around it. What one pass of the body can come to is a step of the
body, what follows the loop, or the start of a loop further out, and the last are the ways out. -/

namespace Parley

open Outcome StateName

/-! ### What one pass comes to -/

/-- The record of a step that has an identifier. -/
def Record.About (x : Record) (o : Occurrence) : Prop :=
  ∃ id, x.id? = some id ∧ o.node.id? = some id

namespace LocalProtocol

/-- The step of a record lies in the body of a loop, at any depth. -/
def Inside (l : LocalProtocol) (x : Record) (r : LoopRecord) : Prop :=
  ∃ o ∈ l.occurrences, x.About o ∧ .loop r.id ∈ o.around

/-- The step of a record lies in the body of a loop, and in no parallel step of that body. -/
def StraightInside (l : LocalProtocol) (x : Record) (r : LoopRecord) : Prop :=
  ∃ o ∈ l.occurrences, x.About o ∧ ∃ inside outside, o.around = inside ++ .loop r.id :: outside ∧
    ∀ par, .par par ∉ inside

/-- The state of a step in the body of a loop. -/
def StandsInside (l : LocalProtocol) (p : Projection) (r : LoopRecord) (state : String) : Prop :=
  ∃ x, p.Lists x ∧ x.standing? = some state ∧ l.Inside x r

/-- A jump in the body of a loop that goes to the start of a loop around it. -/
structure Escapes (l : LocalProtocol) (p : Projection) (r outer : LoopRecord) (j : JumpRecord) :
    Prop where
  jump : j ∈ p.jumps
  inside : l.Inside (.jump j) r
  loop : outer ∈ p.loops
  around : l.Inside (.loop r) outer
  target : j.target = .back outer.id outer.label outer.state

/-- The ways out of a loop are all that a pass of its body can come to, apart from the steps of the
body and what follows the loop, and each is one that a jump takes. -/
structure Leaves (l : LocalProtocol) (p : Projection) (r : LoopRecord) (exit : Landing)
    (ways : List Api.WayOut) : Prop where
  onward : ∀ x, p.Lists x → l.StraightInside x r → ∀ t ∈ x.targets, ∃ y, p.landing t = .ok y ∧
    (l.StandsInside p r y.typeName ∨ y.typeName = exit.typeName ∨
      ∃ w ∈ ways, w.state = y.typeName)
  listed : ∀ w ∈ ways, ∃ outer j, l.Escapes p r outer j ∧
    w = ⟨"Continue_" ++ outer.label, outer.state⟩
  covered : ∀ outer j, l.Escapes p r outer j → outer.state = r.state ∨
    outer.state = exit.typeName ∨ ∃ w ∈ ways, w.state = outer.state

/-- The record of a loop with the stretch that the loop begins, and the loop seen from inside. -/
structure LoopAt (l : LocalProtocol) (r : LoopRecord) (t : Stretch) (inner : Loop)
    (following : Conversation) : Prop where
  has : l.Has t
  recorded : l.Records t (.loop r)
  rest : t.rest = .loop inner.id inner.label inner.body :: following
  inner_eq : inner = t.loop inner.id inner.label inner.body
  id_eq : inner.id = r.id
  label_eq : inner.label = r.label
  stem_eq : inner.stem = r.stem
  entry : inner.entry = .ok r.state
  next : (t.pass following).target = .ok r.next

variable {l : LocalProtocol} {p : Projection} {s t : Stretch}

theorem Records.exists_rest {x : Record} (h : l.Records s x) :
    ∃ n ns, s.rest = n :: ns ∧ x.id? = n.id? := by
  cases x with
  | message r =>
    obtain ⟨ns, hr, _⟩ := h
    exact ⟨_, ns, hr, rfl⟩
  | choice r =>
    obtain ⟨_, ns, hr, _⟩ := h
    exact ⟨_, ns, hr, rfl⟩
  | par r =>
    obtain ⟨_, ns, hr, _⟩ := h
    exact ⟨_, ns, hr, rfl⟩
  | loop r =>
    obtain ⟨_, ns, hr, _⟩ := h
    exact ⟨_, ns, hr, rfl⟩
  | jump r =>
    obtain ⟨ns, hr, _⟩ := h
    exact ⟨_, ns, hr, rfl⟩
  | call r =>
    obtain ⟨ns, hr, _⟩ := h
    exact ⟨_, ns, hr, rfl⟩

theorem Records.loopAt {r : LoopRecord} (h : l.Records t (.loop r)) (ht : l.Has t) :
    ∃ inner following, l.LoopAt r t inner following := by
  have hrec := h
  obtain ⟨body, ns, hr, _, hstem, he, hnext⟩ := h
  exact ⟨t.loop r.id r.label body, ns, ht, hrec, hr, rfl, rfl, rfl, hstem.symm, he, hnext⟩

namespace LoopAt

variable {r : LoopRecord} {inner : Loop} {following : Conversation}

end LoopAt

namespace Yields

variable (y : l.Yields p)

include y

theorem exists_loopAt_of_rest (ht : l.Has t) {inner : Loop} {following : Conversation}
    (htr : t.rest = .loop inner.id inner.label inner.body :: following)
    (hinner : inner = t.loop inner.id inner.label inner.body) :
    ∃ r ∈ p.loops, l.LoopAt r t inner following := by
  obtain ⟨x, hx, hrec⟩ := y.exists_record ht htr
  have hkind := hrec.kind_eq htr
  cases x <;> cases hkind
  rename_i r
  obtain ⟨inner', following', a⟩ := hrec.loopAt ht
  obtain ⟨hnode, rfl⟩ := List.cons.inj (htr.symm.trans a.rest)
  simp only [Node.loop.injEq] at hnode
  obtain rfl : inner = inner' := by
    rw [hinner, a.inner_eq, hnode.1, hnode.2.1, hnode.2.2]
  exact ⟨r, hx, a⟩

theorem loop?_eq_some {r : LoopRecord} (hr : r ∈ p.loops) : p.loop? r.id = some r := by
  have hm : Record.loop r ∈ p.records := by
    simp [Projection.records, StepKind.all, Projection.ofKind, hr]
  exact (y.linked.loop? r.id r).mpr (y.sole_id hm rfl)

/-- Where a record is about the step that begins a stretch, its loops are those among the frames. -/
theorem around_eq_of_about {x : Record} (hs : l.Has s) (hx : l.Records s x) {o : Occurrence}
    (ho : o ∈ l.occurrences) (h : x.About o) : o.around = Frame.enclosures s.frames := by
  obtain ⟨id, hid, hoid⟩ := h
  obtain ⟨n, ns, hr, hn⟩ := hx.exists_rest
  obtain ⟨q, hq, rfl, rfl, _⟩ := hs.exists_place hr
  rw [← l.map_occurrence_places] at ho
  obtain ⟨q', hq', rfl⟩ := List.mem_map.mp ho
  rw [y.place_eq_of_id_eq hq hq' (hn.symm.trans hid) hoid]
  rfl

theorem inside_iff {x : Record} (hs : l.Has s) (hx : l.Records s x) {id : NodeId}
    (hid : x.id? = some id) {r : LoopRecord} :
    l.Inside x r ↔ .loop r.id ∈ Frame.enclosures s.frames := by
  constructor
  · intro h
    obtain ⟨o, ho, habout, hin⟩ := h
    rwa [y.around_eq_of_about hs hx ho habout] at hin
  · intro h
    obtain ⟨n, ns, hr, hn⟩ := hx.exists_rest
    obtain ⟨q, hq, rfl, rfl, _⟩ := hs.exists_place hr
    refine ⟨q.occurrence, ?_, ⟨id, hid, hn.symm.trans hid⟩, h⟩
    rw [← l.map_occurrence_places]
    exact List.mem_map_of_mem hq

end Yields

end LocalProtocol

/-! ### The list of the ways out -/

namespace Api

/-- The jump is taken for one out of the loop `r` to the start of `outer`, going by the names. -/
structure Departs (r outer : LoopRecord) (j : JumpRecord) : Prop where
  inside : beginsWith j.state (r.stem ++ "_") = true
  target : j.target = .back outer.id outer.label outer.state
  other : outer.id ≠ r.id
  around : beginsWith r.stem (outer.stem ++ "_") = true

def WayOut.to (outer : LoopRecord) : WayOut := ⟨"Continue_" ++ outer.label, outer.state⟩

section WaysOut

variable {p : Projection} {outer : LoopRecord} {j : JumpRecord} (r : LoopRecord) (exit : String)
  (found : List WayOut)

/-- A way out is added where a jump departs to a state that is not reached otherwise. -/
theorem waysOut_cons (js : List JumpRecord) (hl : p.loop? outer.id = some outer)
    (ht : j.target = .back outer.id outer.label outer.state) :
    (waysOut p r exit found (j :: js) = waysOut p r exit found js ∧
      (Departs r outer j → outer.state = r.state ∨ outer.state = exit ∨
        ∃ w ∈ found, w.state = outer.state)) ∨
    (waysOut p r exit found (j :: js) = waysOut p r exit (found ++ [.to outer]) js ∧
      Departs r outer j ∧ outer.state ≠ r.state ∧ outer.state ≠ exit ∧
        ∀ w ∈ found, w.state ≠ outer.state) := by
  rw [waysOut, ht]
  by_cases hin : beginsWith j.state (r.stem ++ "_") = true
  · simp only [hin, hl, Bool.not_true, Bool.false_eq_true, if_false]
    split
    · rename_i hskip
      refine .inl ⟨rfl, fun d => ?_⟩
      simp only [Bool.or_eq_true, beq_iff_eq, Bool.not_eq_true', List.any_eq_true] at hskip
      rcases hskip with (((hid | hstem) | hstate) | hexit) | hfound
      · exact absurd hid d.other
      · rw [d.around] at hstem
        cases hstem
      · exact .inl hstate
      · exact .inr (.inl hexit)
      · exact .inr (.inr hfound)
    · rename_i hskip
      simp only [Bool.or_eq_true, beq_iff_eq, Bool.not_eq_true', List.any_eq_true, not_or,
        Bool.not_eq_false, not_exists, not_and] at hskip
      obtain ⟨⟨⟨⟨hid, hstem⟩, hstate⟩, hexit⟩, hfound⟩ := hskip
      exact .inr ⟨rfl, ⟨hin, ht, hid, hstem⟩, hstate, hexit, hfound⟩
  · rw [if_pos (by simpa using hin)]
    exact .inl ⟨rfl, fun d => absurd d.inside hin⟩

/-- What gathering the ways out of a loop from some jumps adds to those found before. -/
structure Gathers (p : Projection) (r : LoopRecord) (exit : String) (js : List JumpRecord)
    (found ways : List WayOut) : Prop where
  kept : found ⊆ ways
  listed : ∀ w ∈ ways, w ∈ found ∨ ∃ j ∈ js, ∃ outer, p.loop? outer.id = some outer ∧
    Departs r outer j ∧ w = .to outer ∧ outer.state ≠ r.state ∧ outer.state ≠ exit
  covered : ∀ j ∈ js, ∀ outer, p.loop? outer.id = some outer → Departs r outer j →
    outer.state = r.state ∨ outer.state = exit ∨ ∃ w ∈ ways, w.state = outer.state
  distinct : (found.map (·.state)).Nodup → (ways.map (·.state)).Nodup

theorem exists_waysOut {js : List JumpRecord}
    (hjs : ∀ j ∈ js, ∃ outer, p.loop? outer.id = some outer ∧
      j.target = .back outer.id outer.label outer.state) :
    ∃ ways, waysOut p r exit found js = .ok ways ∧ Gathers p r exit js found ways := by
  induction js generalizing found with
  | nil => exact ⟨found, rfl, List.Subset.refl _, fun w hw => .inl hw, by simp, id⟩
  | cons j js ih =>
    obtain ⟨hj, hjs⟩ := List.forall_mem_cons.mp hjs
    obtain ⟨outer, hl, ht⟩ := hj
    -- the jump says which loop it goes to
    have hsame {outer' : LoopRecord} (hl' : p.loop? outer'.id = some outer')
        (d : Departs r outer' j) : outer' = outer := by
      have hback := d.target.symm.trans ht
      simp only [Target.back.injEq] at hback
      rw [hback.1, hl] at hl'
      exact (Option.some.inj hl').symm
    rcases waysOut_cons r exit found js hl ht with
      ⟨heq, hskip⟩ | ⟨heq, hd, hstate, hexit, hnew⟩
    · obtain ⟨ways, hways, g⟩ := ih found hjs
      refine ⟨ways, heq.trans hways, g.kept, ?_, ?_, g.distinct⟩
      · intro w hw
        rcases g.listed w hw with hw | ⟨j', hj', h⟩
        · exact .inl hw
        · exact .inr ⟨j', List.mem_cons_of_mem _ hj', h⟩
      · intro j' hj' outer' hl' d
        rcases List.mem_cons.mp hj' with rfl | hj'
        · obtain rfl := hsame hl' d
          rcases hskip d with h | h | ⟨w, hw, h⟩
          · exact .inl h
          · exact .inr (.inl h)
          · exact .inr (.inr ⟨w, g.kept hw, h⟩)
        · exact g.covered j' hj' outer' hl' d
    · obtain ⟨ways, hways, g⟩ := ih (found ++ [.to outer]) hjs
      have hmem : WayOut.to outer ∈ ways := g.kept (List.mem_append_right _ List.mem_cons_self)
      refine ⟨ways, heq.trans hways, ?_, ?_, ?_, ?_⟩
      · exact List.Subset.trans (List.subset_append_left _ _) g.kept
      · intro w hw
        rcases g.listed w hw with hw | ⟨j', hj', h⟩
        · rcases List.mem_append.mp hw with hw | hw
          · exact .inl hw
          · obtain rfl := List.mem_singleton.mp hw
            exact .inr ⟨j, List.mem_cons_self, outer, hl, hd, rfl, hstate, hexit⟩
        · exact .inr ⟨j', List.mem_cons_of_mem _ hj', h⟩
      · intro j' hj' outer' hl' d
        rcases List.mem_cons.mp hj' with rfl | hj'
        · obtain rfl := hsame hl' d
          exact .inr (.inr ⟨_, hmem, rfl⟩)
        · exact g.covered j' hj' outer' hl' d
      · intro hn
        apply g.distinct
        rw [List.map_append, List.nodup_append]
        refine ⟨hn, List.nodup_singleton _, ?_⟩
        intro a ha b hb
        obtain ⟨w, hw, rfl⟩ := List.mem_map.mp ha
        obtain rfl := List.mem_singleton.mp hb
        exact hnew w hw

end WaysOut

end Api

namespace LocalProtocol

variable {l : LocalProtocol} {p : Projection} {s t : Stretch} {r : LoopRecord} {inner : Loop}
  {following : Conversation}

namespace Yields

variable (y : l.Yields p)

include y

theorem exists_loopAt_of_binds (hs : l.Has s) {label : String} {outer : List Frame}
    (hb : Frame.Binds label s.frames inner outer) :
    ∃ r ∈ p.loops, ∃ u following, l.LoopAt r u inner following ∧ u.frames = outer := by
  obtain ⟨u, following, hu, hur, huf, hinner⟩ := (hs.of_binds hb rfl).enclosing_loop rfl
  obtain ⟨r, hr, a⟩ := y.exists_loopAt_of_rest hu hur hinner
  exact ⟨r, hr, u, following, a, huf⟩

/-- A jump is bound where it stands, and its record says to which loop. -/
theorem exists_bound {j : JumpRecord} (hj : j ∈ p.jumps) :
    ∃ s n ns inner outer u following, ∃ r ∈ p.loops, l.Has s ∧ l.Records s (.jump j) ∧
      s.rest = n :: ns ∧ j.state = s.state ∧ Frame.Binds j.label s.frames inner outer ∧
      l.LoopAt r u inner following ∧ u.frames = outer ∧
      j.target = .back r.id r.label r.state := by
  obtain ⟨s, hs, hrec⟩ := y.exists_stretch (r := .jump j) hj
  have hjump := hrec
  obtain ⟨ns, hr, hstate, _, ht⟩ := hrec
  obtain ⟨inner, outer, state, hb, he, htarget⟩ := y.exists_target_jump hs hr
  obtain ⟨r, hmem, u, following, a, huf⟩ := y.exists_loopAt_of_binds hs hb
  refine ⟨s, _, ns, inner, outer, u, following, r, hmem, hs, hjump, hr, hstate, hb, a, huf, ?_⟩
  obtain rfl := Except.ok.inj (he.symm.trans a.entry)
  rw [← a.id_eq, ← a.label_eq, hb.label_eq]
  exact Except.ok.inj (ht.symm.trans htarget)

theorem standsInside {n : Node} {ns : Conversation} (hs : l.Has s) (hr : s.rest = n :: ns)
    (hn : ¬ n.Passed) (hin : .loop r.id ∈ Frame.enclosures s.frames) :
    l.StandsInside p r s.state := by
  obtain ⟨x, hx, hrec⟩ := y.exists_record hs hr
  have hkind := hrec.kind_eq hr
  have hinside {id : NodeId} (hid : x.id? = some id) := (y.inside_iff hs hrec hid).mpr hin
  cases n with
  | message m =>
    cases x <;> cases hkind
    obtain ⟨_, _, hstate, _⟩ := hrec
    exact ⟨_, hx, congrArg some hstate, hinside rfl⟩
  | choice id chooser bs =>
    cases x <;> cases hkind
    obtain ⟨_, _, _, hstate, _⟩ := hrec
    exact ⟨_, hx, congrArg some hstate, hinside rfl⟩
  | par id bs =>
    cases x <;> cases hkind
    obtain ⟨_, _, _, hstate, _⟩ := hrec
    exact ⟨_, hx, congrArg some hstate, hinside rfl⟩
  | loop | jump | call => exact absurd trivial hn

theorem standsInside_of_entry {stretch : Stretch} {label state : String} (hs : l.Has stretch)
    (he : Conversation.entryState label stretch.stem stretch.position stretch.rest = .ok state)
    (hin : .loop r.id ∈ Frame.enclosures stretch.frames) : l.StandsInside p r state := by
  obtain ⟨u, n, ns, hu, hr, hn, rfl, hsub⟩ := (hs.leads_of_entryState he).exists_step
  exact y.standsInside hu hr hn (hsub hin)

/-- From a step in the body of a loop the way leads to a step of the body, behind the loop, or to the
start of a loop that a jump goes out to. -/
theorem landing_cases (a : l.LoopAt r t inner following) (hs : l.Has s)
    (hin : Frame.Straight inner t.frames s.frames) {x : Landing} (hx : s.Lands p x) :
    l.StandsInside p r x.typeName ∨ (t.pass following).Lands p x ∨
      ∃ outer j, l.Escapes p r outer j ∧ x = .state outer.state := by
  have henclosed {frames : List Frame} (h : Frame.Straight inner t.frames frames) :
      .loop r.id ∈ Frame.enclosures frames :=
    List.mem_filterMap.mpr ⟨_, h.suffix.subset List.mem_cons_self,
      congrArg (some ∘ Enclosure.loop) a.id_eq⟩
  induction hs using LocalProtocol.Has.walk with
  | step hs hr hn =>
    obtain rfl := hx.unique (Stretch.lands_step hr hn)
    exact .inl (y.standsInside hs hr hn (henclosed hin))
  | @enter s id label body ns hs hr =>
    obtain ⟨state, he⟩ := y.exists_entry hs hr
    obtain rfl := hx.unique ⟨_, Stretch.target_loop hr he, p.landing_step ..⟩
    refine .inl (y.standsInside_of_entry (hs.body hr) he ?_)
    exact List.mem_cons_of_mem _ (henclosed hin)
  | @jump s id label ns hs hr =>
    obtain ⟨j, hj, hrec⟩ := y.exists_record hs hr
    have hkind := hrec.kind_eq hr
    cases j <;> cases hkind
    rename_i j
    obtain ⟨inner', frames, state, hb, he, htarget⟩ := y.exists_target_jump hs hr
    obtain rfl := hx.unique ⟨_, htarget, p.landing_back ..⟩
    obtain ⟨outer, ho, u, following', b, hu⟩ := y.exists_loopAt_of_binds hs hb
    rcases hb.suffix_cases hin.suffix with hsuffix | hbeyond
    · refine .inl (y.standsInside_of_entry (hs.of_binds hb rfl) he ?_)
      exact List.mem_filterMap.mpr ⟨_, hsuffix.subset List.mem_cons_self,
        congrArg (some ∘ Enclosure.loop) a.id_eq⟩
    · obtain rfl := Except.ok.inj (he.symm.trans b.entry)
      refine .inr (.inr ⟨outer, j, ⟨hj, (y.inside_iff hs hrec rfl).mpr (henclosed hin), ho, ?_, ?_⟩,
        rfl⟩)
      · rw [y.inside_iff a.has a.recorded rfl, ← b.id_eq]
        exact hbeyond.mem_enclosures
      · obtain ⟨_, _, _, _, ht⟩ := hrec
        rw [← b.id_eq, ← b.label_eq, hb.label_eq]
        exact Except.ok.inj (ht.symm.trans htarget)
  | call _ hr ih =>
    exact ih hin ((Stretch.lands_iff_of_target_eq (Stretch.target_call hr)).mp hx)
  | root _ _ hf =>
    rw [hf] at hin
    cases hin
  | par _ _ hf =>
    rw [hf] at hin
    cases hin
  | choice _ hr hf ih =>
    rw [hf] at hin
    cases hin with
    | choice hin =>
      exact ih hin ((Stretch.lands_iff_of_target_eq (Stretch.target_choice_end hr hf)).mp hx)
  | @loop s other outer hs hr hf ih =>
    obtain ⟨u, following', hu, hur, huf, _⟩ := hs.enclosing_loop hf
    have hnext := (y.lands_loop_end hr hf hu hur).mp hx
    rw [hf] at hin
    cases hin with
    | here =>
      obtain rfl := y.stretch_eq_of_id_eq hu hur a.has a.rest rfl rfl
      obtain ⟨_, rfl⟩ := List.cons.inj (hur.symm.trans a.rest)
      exact .inr (.inl hnext)
    | loop hin => exact ih hu hur huf (huf ▸ hin) hnext

theorem exists_waysOut (r : LoopRecord) (exit : String) :
    ∃ ways, Api.waysOut p r exit [] p.jumps = .ok ways ∧ Api.Gathers p r exit p.jumps [] ways := by
  apply Api.exists_waysOut
  intro j hj
  obtain ⟨_, _, _, _, _, _, _, outer, ho, _, _, _, _, _, _, _, htarget⟩ := y.exists_bound hj
  exact ⟨outer, y.loop?_eq_some ho, htarget⟩

end Yields

end LocalProtocol

/-! ### The generated type -/

namespace Api

/-- What one pass through a loop comes to, each with its variant. -/
def outcomes (r : LoopRecord) (exit : String) (ways : List WayOut) : List WayOut :=
  ⟨"Again", r.state⟩ :: ⟨"Done", exit⟩ :: ways

/-- The outcomes that are converted from: of those that go to one state, the first. -/
def converted (r : LoopRecord) (exit : String) (ways : List WayOut) : List WayOut :=
  ⟨"Again", r.state⟩ :: (if exit != r.state then [⟨"Done", exit⟩] else []) ++ ways

def isConversion (item : Paragraph) : Bool := item.head?.any (beginsWith · "impl From<")

section Emits

variable {p : Projection} {r : LoopRecord} {exit : String} {ways : List WayOut}

theorem isConversion_doc {line : String} (h : line.toList.head? = some '/') (lines : List String) :
    isConversion (line :: lines) = false := by
  obtain ⟨cs, hcs⟩ := List.head?_eq_some_iff.mp h
  have himpl : "impl From<".toList = 'i' :: "mpl From<".toList := rfl
  unfold isConversion beginsWith
  rw [List.head?_cons, Option.any_some, hcs, himpl]
  rfl

theorem exists_loopItems {landing : Landing} (hexit : p.landing r.next = .ok landing)
    (hways : waysOut p r landing.typeName [] p.jumps = .ok ways) :
    ∃ first rest, loopItems p r = .ok (first ::
        ((converted r landing.typeName ways).map fun w => fromImpl w.state (stepType r) w.variant)
          ++ rest) ∧
      first = (("/// Outcome of one pass through rec " ++ r.label ++ ".") ::
        block ("pub enum " ++ stepType r)
          ((outcomes r landing.typeName ways).map fun w => variantLine w.variant w.state)) ∧
      ∀ item ∈ first :: rest, isConversion item = false := by
  have hconverted : (fromImpl r.state (stepType r) "Again" ::
      (if landing.typeName != r.state then [fromImpl landing.typeName (stepType r) "Done"] else [])
        ++ ways.map fun w => fromImpl w.state (stepType r) w.variant) =
      (converted r landing.typeName ways).map fun w => fromImpl w.state (stepType r) w.variant := by
    unfold converted
    split <;> rfl
  refine ⟨_, ?rest, bind_eq_ok.mpr ⟨landing, hexit, bind_eq_ok.mpr ⟨ways, hways,
    pure_eq_ok.mpr ?items⟩⟩, rfl, ?others⟩
  case items =>
    rw [← hconverted, List.append_assoc]
    rfl
  case others =>
    intro item hi
    rcases List.mem_cons.mp hi with rfl | hi
    · exact isConversion_doc (by simp) _
    rcases List.mem_append.mp hi with hi | hi
    · split at hi
      · cases hi
      · obtain rfl := List.mem_singleton.mp hi
        exact isConversion_doc (by simp) _
    · obtain rfl := List.mem_singleton.mp hi
      exact isConversion_doc (by simp) _

end Emits

end Api

namespace LocalProtocol

end LocalProtocol

end Parley
