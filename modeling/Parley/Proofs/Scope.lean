import Parley.Proofs.Landing

/-! Scopes: the parallel steps around a place. Wherever the record of a step leads, a session stays
inside the same parallel steps, ends a branch of the innermost of them, or finishes outside all. -/

namespace Parley

open Outcome

/-- A step inside a conversation, and the parallel steps around it, outermost first. -/
inductive Conversation.Nests (n : Node) : List NodeId → List Node → Prop where
  | here {c : Conversation} : n ∈ c → Nests n [] c
  | loop {c body : Conversation} {id : NodeId} {label : String} {pars : List NodeId} :
      .loop id label body ∈ c → Nests n pars body → Nests n pars c
  | choice {c b : Conversation} {id : NodeId} {chooser : String} {bs : List Conversation}
      {pars : List NodeId} : .choice id chooser bs ∈ c → b ∈ bs → Nests n pars b → Nests n pars c
  | par {c b : Conversation} {id : NodeId} {bs : List Conversation} {pars : List NodeId} :
      .par id bs ∈ c → b ∈ bs → Nests n pars b → Nests n (id :: pars) c

theorem Conversation.Nests.mono {n : Node} {pars : List NodeId} {c c' : Conversation}
    (h : Nests n pars c) (hsub : c ⊆ c') : Nests n pars c' := by
  cases h with
  | here hn => exact .here (hsub hn)
  | loop hm h => exact .loop (hsub hm) h
  | choice hm hb h => exact .choice (hsub hm) hb h
  | par hm hb h => exact .par (hsub hm) hb h

namespace Frame

def par? : Frame → Option NodeId
  | .par id _ => some id
  | _ => none

/-- The parallel steps among some frames, outermost first. -/
def pars (frames : List Frame) : List NodeId := (frames.filterMap par?).reverse

@[simp] theorem pars_nil : pars [] = [] := rfl

@[simp] theorem pars_loop (inner : Loop) (outer : List Frame) :
    pars (.loop inner :: outer) = pars outer := rfl

@[simp] theorem pars_choice (stem : String) (i : Nat) (following : Conversation)
    (outer : List Frame) : pars (.choice stem i following :: outer) = pars outer := rfl

@[simp] theorem pars_par (id : NodeId) (state : String) (outer : List Frame) :
    pars (.par id state :: outer) = pars outer ++ [id] := by simp [pars, par?]

theorem Binds.pars_eq {label : String} {frames outer : List Frame} {inner : Loop}
    (h : Binds label frames inner outer) : pars outer = pars frames := by
  induction h with
  | here => rfl
  | loop _ _ ih => exact ih
  | choice _ ih => exact ih

end Frame

def Stretch.pars (s : Stretch) : List NodeId := Frame.pars s.frames

def Place.pars (q : Place) : List NodeId := Frame.pars q.frames

namespace Record

def state : Record → String
  | .message r => r.state
  | .choice r => r.state
  | .par r => r.state
  | .loop r => r.state
  | .jump r => r.state
  | .call r => r.state

/-- Where a session goes on from a step, other than into the branches of a fork. -/
def targets : Record → List Target
  | .message r => [r.next]
  | .choice r => r.next :: r.branches.map (·.entry)
  | .par r => [r.next]
  | .loop r => [r.next]
  | .jump r => [r.target]
  | .call r => [r.next]

end Record

namespace LocalProtocol

variable {l : LocalProtocol} {s : Stretch}

/-- What is nested in a stretch is nested in the whole conversation, inside the parallel steps around
the stretch as well. -/
theorem Has.nests (h : l.Has s) {n : Node} {pars : List NodeId}
    (hn : Conversation.Nests n pars s.rest) :
    Conversation.Nests n (s.pars ++ pars) l.conversation := by
  induction h generalizing pars with
  | whole => exact hn
  | pass _ hr ih =>
    refine ih (hn.mono ?_)
    rw [hr]
    exact List.subset_cons_self _ _
  | body _ hr ih => exact ih (.loop (hr ▸ List.mem_cons_self) hn)
  | choice _ hr hb ih => exact ih (.choice (hr ▸ List.mem_cons_self) (List.mem_of_getElem? hb) hn)
  | @par s id bs ns b k _ hr hb ih =>
    have hpar := ih (.par (hr ▸ List.mem_cons_self) (List.mem_of_getElem? hb) hn)
    simpa [Stretch.pars, Stretch.inPar] using hpar

theorem nests_of_mem_places {q : Place} (hq : q ∈ l.places) :
    Conversation.Nests q.node q.pars l.conversation := by
  have h := (l.has_of_mem_places hq).nests (.here List.mem_cons_self)
  rwa [List.append_nil] at h

/-- The state of a step that lies in just these parallel steps. -/
def InScope (l : LocalProtocol) (pars : List NodeId) (state : String) : Prop :=
  ∃ s n ns, l.Has s ∧ s.rest = n :: ns ∧ ¬ n.Passed ∧ s.state = state ∧ s.pars = pars

/-- Whether a session inside some parallel steps may come to a landing. -/
def Within (l : LocalProtocol) (pars : List NodeId) : Landing → Prop
  | .state name => l.InScope pars name
  | .join par => pars.getLast? = some par
  | .finish => pars = []

theorem Leads.inScope {state : String} (h : l.Leads state s) : l.InScope s.pars state := by
  induction h with
  | @step s n ns hs hr hn hstate => exact ⟨s, n, ns, hs, hr, hn, hstate, rfl⟩
  | call _ _ _ ih => exact ih
  | loop _ _ _ ih => exact ih

theorem InScope.pars_eq {pars : List NodeId} {state : String} (h : l.InScope pars state)
    (hs : l.Has s) {n : Node} {ns : Conversation} (hr : s.rest = n :: ns) (hstate : s.state = state) :
    s.pars = pars := by
  obtain ⟨t, _, _, ht, htr, _, htstate, rfl⟩ := h
  rw [hs.eq_of_state_eq ht hr htr (hstate.trans htstate.symm)]

/-- A stretch lands within the parallel steps around it. -/
theorem Yields.within_of_lands {p : Projection} (y : l.Yields p) (hs : l.Has s) {x : Landing}
    (hl : s.Lands p x) : l.Within s.pars x := by
  induction hs using LocalProtocol.Has.walk with
  | @step s n ns hs hr hn =>
    obtain rfl := hl.unique (Stretch.lands_step hr hn)
    exact ⟨s, n, ns, hs, hr, hn, rfl, rfl⟩
  | enter hs hr =>
    obtain ⟨state, he⟩ := y.exists_entry hs hr
    obtain rfl := hl.unique ⟨_, Stretch.target_loop hr he, p.landing_step ..⟩
    exact ((hs.body hr).leads_of_entryState he).inScope
  | jump hs hr =>
    obtain ⟨inner, outer, state, hb, he, hl', _⟩ := y.exists_lands_jump hs hr
    obtain rfl := hl.unique hl'
    -- no parallel step lies between the jump and its loop
    have hscope := ((hs.of_binds hb rfl).leads_of_entryState he).inScope
    rwa [Stretch.pars, Loop.stretch, Frame.pars_loop, hb.pars_eq] at hscope
  | call _ hr ih => exact ih ((Stretch.lands_iff_of_target_eq (Stretch.target_call hr)).mp hl)
  | root _ hr hf =>
    obtain rfl := hl.unique ⟨_, Stretch.target_root hr hf, p.landing_finish⟩
    simp [Within, Stretch.pars, hf]
  | par _ hr hf =>
    obtain rfl := hl.unique ⟨_, Stretch.target_par_end hr hf, p.landing_join ..⟩
    simp [Within, Stretch.pars, hf]
  | choice _ hr hf ih =>
    have hwithin := ih ((Stretch.lands_iff_of_target_eq (Stretch.target_choice_end hr hf)).mp hl)
    rwa [Stretch.pars, hf, Frame.pars_choice]
  | loop hs hr hf ih =>
    obtain ⟨t, following, ht, htr, htf, _⟩ := hs.enclosing_loop hf
    have hwithin := ih ht htr htf ((y.lands_loop_end hr hf ht htr).mp hl)
    rwa [Stretch.pars, hf, Frame.pars_loop, ← htf]

/-- What is seen of the frames but for choices is the same wherever a step leads. -/
theorem Records.exists_of_mem_targets {α : Type} {f : List Frame → α}
    (hf : ∀ stem i following outer, f (.choice stem i following :: outer) = f outer) {r : Record}
    (h : l.Records s r) (hs : l.Has s) {t : Target} (ht : t ∈ r.targets) :
    ∃ u, l.Has u ∧ u.target = .ok t ∧ f u.frames = f s.frames := by
  cases r with
  | message r =>
    obtain ⟨ns, hr, _, _, _, hnext⟩ := h
    obtain rfl := List.mem_singleton.mp ht
    exact ⟨_, hs.pass hr, hnext, rfl⟩
  | choice r =>
    obtain ⟨bs, ns, hr, _, _, _, hnext, hlen, hall⟩ := h
    rcases List.mem_cons.mp ht with rfl | ht
    · exact ⟨_, hs.pass hr, hnext, rfl⟩
    · obtain ⟨e, he, rfl⟩ := List.mem_map.mp ht
      obtain ⟨k, hk⟩ := List.mem_iff_getElem?.mp he
      obtain ⟨b, hb⟩ := exists_getElem?_of_length_eq hlen hk
      exact ⟨_, hs.choice hr hb, (hall k b e hb hk).2.1, hf ..⟩
  | par r =>
    obtain ⟨bs, ns, hr, _, _, _, hnext, _⟩ := h
    obtain rfl := List.mem_singleton.mp ht
    exact ⟨_, hs.pass hr, hnext, rfl⟩
  | loop r =>
    obtain ⟨body, ns, hr, _, _, _, hnext⟩ := h
    obtain rfl := List.mem_singleton.mp ht
    exact ⟨_, hs.pass hr, hnext, rfl⟩
  | jump r =>
    obtain ⟨ns, _, _, _, htarget⟩ := h
    obtain rfl := List.mem_singleton.mp ht
    exact ⟨s, hs, htarget, rfl⟩
  | call r =>
    obtain ⟨ns, hr, _, _, hnext⟩ := h
    obtain rfl := List.mem_singleton.mp ht
    exact ⟨_, hs.pass hr, hnext, rfl⟩

theorem Records.exists_frames_of_mem_branches {r : ParRecord} (h : l.Records s (.par r))
    (hs : l.Has s) {t : Target} (ht : t ∈ r.branches) :
    ∃ u, l.Has u ∧ u.target = .ok t ∧ u.frames = .par r.id s.state :: s.frames := by
  obtain ⟨bs, ns, hr, _, _, _, _, hlen, hall⟩ := h
  obtain ⟨k, hk⟩ := List.mem_iff_getElem?.mp ht
  obtain ⟨b, hb⟩ := exists_getElem?_of_length_eq hlen hk
  exact ⟨_, hs.par hr hb, hall k b t hb hk, rfl⟩

theorem Records.exists_of_mem_branches {r : ParRecord} (h : l.Records s (.par r)) (hs : l.Has s)
    {t : Target} (ht : t ∈ r.branches) :
    ∃ u, l.Has u ∧ u.target = .ok t ∧ u.pars = s.pars ++ [r.id] := by
  obtain ⟨u, hu, htarget, hframes⟩ := h.exists_frames_of_mem_branches hs ht
  exact ⟨u, hu, htarget, by rw [Stretch.pars, hframes, Frame.pars_par]; rfl⟩

/-- Other than for a loop, which is known by the state in which it is entered, the state of a record
is that of its step. -/
theorem Records.state_eq {r : Record} (h : l.Records s r) (hk : r.kind ≠ .loop) :
    ∃ n ns, s.rest = n :: ns ∧ s.state = r.state := by
  cases r with
  | message r =>
    obtain ⟨ns, hr, hstate, _⟩ := h
    exact ⟨_, ns, hr, hstate.symm⟩
  | choice r =>
    obtain ⟨bs, ns, hr, hstate, _⟩ := h
    exact ⟨_, ns, hr, hstate.symm⟩
  | par r =>
    obtain ⟨bs, ns, hr, hstate, _⟩ := h
    exact ⟨_, ns, hr, hstate.symm⟩
  | loop r => exact absurd rfl hk
  | jump r =>
    obtain ⟨ns, hr, hstate, _⟩ := h
    exact ⟨_, ns, hr, hstate.symm⟩
  | call r =>
    obtain ⟨ns, hr, hstate, _⟩ := h
    exact ⟨_, ns, hr, hstate.symm⟩

theorem Records.pars_eq {r : Record} (h : l.Records s r) (hs : l.Has s) {pars : List NodeId}
    (hscope : l.InScope pars r.state) : s.pars = pars := by
  by_cases hk : r.kind = .loop
  · -- the record names the state of a step further in, which lies in the scope of the loop
    cases r <;> cases hk
    obtain ⟨body, ns, hr, _, _, he, _⟩ := h
    obtain ⟨t, _, _, ht, htr, _, hstate, hpars⟩ := ((hs.body hr).leads_of_entryState he).inScope
    exact hpars.symm.trans (hscope.pars_eq ht htr hstate)
  · obtain ⟨n, ns, hr, hstate⟩ := h.state_eq hk
    exact hscope.pars_eq hs hr hstate

theorem Yields.exists_record_of_inScope {p : Projection} (y : l.Yields p) {pars : List NodeId}
    {state : String} (h : l.InScope pars state) :
    ∃ q ∈ l.places, ∃ r, l.record l.messages q = .ok r ∧ r.state = state := by
  obtain ⟨s, n, ns, hs, hr, hn, rfl, _⟩ := h
  obtain ⟨q, hq, _, rfl, _⟩ := hs.exists_place hr
  obtain ⟨r, hrq⟩ := y.recorded q hq
  have hok := record?_eq_some.mp hrq
  have hrec := records_of_record_eq_ok hok
  have hk : r.kind ≠ .loop := by
    rw [hrec.kind_eq hr]
    intro hloop
    cases n <;> cases hloop
    exact hn trivial
  obtain ⟨_, _, _, hstate⟩ := hrec.state_eq hk
  exact ⟨q, hq, r, hok, hstate.symm⟩

/-- What a landing has to do with the parallel steps that a session is inside. -/
def Admits (l : LocalProtocol) (pars : List NodeId) : Landing → Prop
  | .state name => (∃ q ∈ l.places, ∃ r, l.record l.messages q = .ok r ∧ r.state = name) ∧
      ∀ q ∈ l.places, ∀ r, l.record l.messages q = .ok r → r.state = name → q.pars = pars
  | .join par => pars.getLast? = some par
  | .finish => pars = []

theorem Yields.admits_of_within {p : Projection} (y : l.Yields p) {pars : List NodeId}
    {x : Landing} (h : l.Within pars x) : l.Admits pars x := by
  cases x with
  | state name =>
    refine ⟨y.exists_record_of_inScope h, ?_⟩
    rintro q hq r hr rfl
    exact (records_of_record_eq_ok hr).pars_eq (l.has_of_mem_places hq) h
  | join par => exact h
  | finish => exact h

/-- Targets that keep to the parallel steps around the steps they belong to. -/
structure Scoped (l : LocalProtocol) (p : Projection) : Prop where
  /-- The scope of a place is what its step is nested in. -/
  nested : ∀ q ∈ l.places, Conversation.Nests q.node q.pars l.conversation
  recorded : ∀ q ∈ l.places, ∃ r, l.record l.messages q = .ok r
  start : ∃ x, p.landing p.start = .ok x ∧ l.Admits [] x
  targets : ∀ q ∈ l.places, ∀ r, l.record l.messages q = .ok r → ∀ t ∈ r.targets,
    ∃ x, p.landing t = .ok x ∧ l.Admits q.pars x
  branches : ∀ q ∈ l.places, ∀ r, l.record l.messages q = .ok (.par r) → ∀ t ∈ r.branches,
    ∃ x, p.landing t = .ok x ∧ l.Admits (q.pars ++ [r.id]) x
  /-- Every record of the projection, of whatever kind, belongs to a place and keeps to its scope. -/
  listed : ∀ r, p.Lists r → ∃ q ∈ l.places, l.Records q.stretch r ∧
    ∀ t ∈ r.targets, ∃ x, p.landing t = .ok x ∧ l.Admits q.pars x
  forked : ∀ r ∈ p.pars, ∃ q ∈ l.places, l.Records q.stretch (.par r) ∧
    ∀ t ∈ r.branches, ∃ x, p.landing t = .ok x ∧ l.Admits (q.pars ++ [r.id]) x

theorem Yields.exists_landing {p : Projection} (y : l.Yields p) (hs : l.Has s) {t : Target}
    (ht : s.target = .ok t) : ∃ x, p.landing t = .ok x ∧ l.Within s.pars x := by
  obtain ⟨x, hl⟩ := y.exists_lands hs
  exact ⟨x, (Stretch.lands_iff ht).mp hl, y.within_of_lands hs hl⟩

theorem Yields.exists_admits_of_mem_targets {p : Projection} (y : l.Yields p) (hs : l.Has s)
    {r : Record} (hrec : l.Records s r) {t : Target} (ht : t ∈ r.targets) :
    ∃ x, p.landing t = .ok x ∧ l.Admits s.pars x := by
  obtain ⟨u, hu, htarget, hpars⟩ := hrec.exists_of_mem_targets Frame.pars_choice hs ht
  obtain ⟨x, hx, hwithin⟩ := y.exists_landing hu htarget
  rw [Stretch.pars, hpars] at hwithin
  exact ⟨x, hx, y.admits_of_within hwithin⟩

theorem Yields.exists_admits_of_mem_branches {p : Projection} (y : l.Yields p) (hs : l.Has s)
    {r : ParRecord} (hrec : l.Records s (.par r)) {t : Target} (ht : t ∈ r.branches) :
    ∃ x, p.landing t = .ok x ∧ l.Admits (s.pars ++ [r.id]) x := by
  obtain ⟨u, hu, htarget, hpars⟩ := hrec.exists_of_mem_branches hs ht
  obtain ⟨x, hx, hwithin⟩ := y.exists_landing hu htarget
  rw [hpars] at hwithin
  exact ⟨x, hx, y.admits_of_within hwithin⟩

theorem Yields.scoped {p : Projection} (y : l.Yields p) : l.Scoped p := by
  refine ⟨fun q hq => nests_of_mem_places hq, ?_, ?_, ?_, ?_, ?_, ?_⟩
  · intro q hq
    obtain ⟨r, hr⟩ := y.recorded q hq
    exact ⟨r, record?_eq_some.mp hr⟩
  · obtain ⟨x, hx, hwithin⟩ := y.exists_landing .whole y.start
    exact ⟨x, hx, y.admits_of_within hwithin⟩
  · intro q hq r hr t ht
    exact y.exists_admits_of_mem_targets (l.has_of_mem_places hq) (records_of_record_eq_ok hr) ht
  · intro q hq r hr t ht
    exact y.exists_admits_of_mem_branches (l.has_of_mem_places hq) (records_of_record_eq_ok hr) ht
  · intro r hr
    obtain ⟨q, hq, hrec⟩ := y.exists_place hr
    exact ⟨q, hq, hrec, fun t => y.exists_admits_of_mem_targets (l.has_of_mem_places hq) hrec⟩
  · intro r hr
    obtain ⟨q, hq, hrec⟩ := y.exists_place (r := .par r) hr
    exact ⟨q, hq, hrec, fun t => y.exists_admits_of_mem_branches (l.has_of_mem_places hq) hrec⟩

theorem Yields.within_of_mem_targets {p : Projection} (y : l.Yields p) {r : Record}
    (h : p.Lists r) {pars : List NodeId} (hscope : l.InScope pars r.state) {t : Target}
    (ht : t ∈ r.targets) {x : Landing} (hx : p.landing t = .ok x) : l.Within pars x := by
  obtain ⟨s, hs, hrec⟩ := y.exists_stretch h
  obtain ⟨u, hu, htarget, hpars⟩ := hrec.exists_of_mem_targets Frame.pars_choice hs ht
  have hwithin := y.within_of_lands hu ((Stretch.lands_iff htarget).mpr hx)
  rwa [Stretch.pars, hpars, ← Stretch.pars, hrec.pars_eq hs hscope] at hwithin

end LocalProtocol

end Parley
