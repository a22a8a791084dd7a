import Parley.Proofs.Landing
import Parley.Proofs.Meaning

/-! Threads of a local protocol. A thread that runs inside the tree is given by a stretch: it does the
steps of the stretch, then what the frames around them leave to do. Silent moves take it to the step in
whose state the stretch lands, so a thread never goes on silently for ever. -/

namespace Parley

/-- Where a conversation ends that is a branch of the given parallel step, or of none. -/
def Landing.ofScope : Option NodeId → Landing
  | some par => .join par
  | none => .finish

namespace LocalProtocol

/-- What is left to do behind a stretch inside some frames: steps, and then loops to leave. The
frames count up to the innermost parallel step, the scope. -/
inductive Continues (l : LocalProtocol) (scope : Option NodeId) :
    List Frame → Conversation → List Round → Prop where
  | root : scope = none → l.Continues scope [] [] []
  | par {id : NodeId} {state : String} {outer : List Frame} :
      scope = some id → l.Continues scope (.par id state :: outer) [] []
  | choice {stem : String} {i : Nat} {following tail : Conversation} {outer : List Frame}
      {rounds : List Round} : l.Continues scope outer tail rounds →
      l.Continues scope (.choice stem i following :: outer) (following ++ tail) rounds
  | loop {t : Stretch} {inner : Loop} {following tail : Conversation} {rounds : List Round} :
      l.Has t → t.rest = .loop inner.id inner.label inner.body :: following →
      l.Continues scope t.frames tail rounds →
      l.Continues scope (.loop inner :: t.frames) []
        (⟨inner.label, inner.body, following ++ tail⟩ :: rounds)

/-- A thread that is about to do a stretch. -/
structure Running (l : LocalProtocol) (scope : Option NodeId) (s : Stretch) (c : Conversation)
    (rounds : List Round) : Prop where
  has : l.Has s
  split : ∃ tail, l.Continues scope s.frames tail rounds ∧ c = s.rest ++ tail

/-- A thread with no silent move to make, and where the machine stands meanwhile. -/
inductive Settled (l : LocalProtocol) (scope : Option NodeId) :
    Conversation → List Round → Landing → Prop where
  | step {s : Stretch} {n : Node} {ns tail : Conversation} {rounds : List Round} :
      l.Has s → s.rest = n :: ns → ¬ n.Passed → l.Continues scope s.frames tail rounds →
      l.Settled scope (n :: (ns ++ tail)) rounds (.state s.state)
  | ended : l.Settled scope [] [] (.ofScope scope)

variable {l : LocalProtocol} {scope : Option NodeId}

theorem Continues.pass {s : Stretch} {n : Node} {ns tail : Conversation} {rounds : List Round}
    (h : l.Continues scope s.frames tail rounds) (hs : l.Has s) (hr : s.rest = n :: ns) :
    l.Running scope (s.pass ns) (ns ++ tail) rounds :=
  ⟨hs.pass hr, tail, h, rfl⟩

theorem Continues.enter {s : Stretch} {id : NodeId} {label : String} {body ns tail : Conversation}
    {rounds : List Round} (h : l.Continues scope s.frames tail rounds) (hs : l.Has s)
    (hr : s.rest = .loop id label body :: ns) :
    l.Running scope (s.inLoop id label body) body (⟨label, body, ns ++ tail⟩ :: rounds) :=
  ⟨hs.body hr, [], .loop hs hr h, (List.append_nil body).symm⟩

theorem Continues.branch {s : Stretch} {id : NodeId} {chooser : String} {bs : List Conversation}
    {b ns tail : Conversation} {k : Nat} {rounds : List Round}
    (h : l.Continues scope s.frames tail rounds) (hs : l.Has s)
    (hr : s.rest = .choice id chooser bs :: ns) (hb : bs[k]? = some b) :
    l.Running scope (s.inChoice ns k b) (b ++ (ns ++ tail)) rounds :=
  ⟨hs.choice hr hb, ns ++ tail, .choice h, rfl⟩

theorem running_par {s : Stretch} {id : NodeId} {bs : List Conversation} {b ns : Conversation}
    {k : Nat} (hs : l.Has s) (hr : s.rest = .par id bs :: ns) (hb : bs[k]? = some b) :
    l.Running (some id) (s.inPar id k b) b [] :=
  ⟨hs.par hr hb, [], .par rfl, (List.append_nil b).symm⟩

/-- The loop that a jump goes back to is the innermost of that label that the thread is in. -/
theorem Continues.binds {label : String} {frames outer : List Frame} {inner : Loop}
    (hb : Frame.Binds label frames inner outer) {tail : Conversation} {rounds : List Round}
    (h : l.Continues scope frames tail rounds) : ∃ after left,
      rounds.dropWhile (fun r => r.label != label) = ⟨inner.label, inner.body, after⟩ :: left ∧
        l.Continues scope (.loop inner :: outer) [] (⟨inner.label, inner.body, after⟩ :: left) := by
  induction hb generalizing tail rounds with
  | here hl =>
    cases h with
    | loop ht htr h =>
      refine ⟨_, _, ?_, .loop ht htr h⟩
      rw [List.dropWhile_cons_of_neg (by simpa using hl)]
  | loop hl _ ih =>
    cases h with
    | loop ht htr h =>
      rw [List.dropWhile_cons_of_pos (by simpa using hl)]
      exact ih h
  | choice _ ih =>
    cases h with
    | choice h => exact ih h

/-- The first step that a thread has left begins a stretch that lands where the thread does. -/
theorem Running.focus {s : Stretch} {n : Node} {c : Conversation} {rounds : List Round}
    (h : l.Running scope s (n :: c) rounds) {p : Projection} {x : Landing} (hl : s.Lands p x) :
    ∃ t ns tail, l.Has t ∧ t.rest = n :: ns ∧ c = ns ++ tail ∧
      l.Continues scope t.frames tail rounds ∧ t.Lands p x := by
  obtain ⟨hs, tail, hc, he⟩ := h
  obtain ⟨frames, hf⟩ : ∃ frames, s.frames = frames := ⟨_, rfl⟩
  rw [hf] at hc
  induction hc generalizing s with
  | root | par | loop =>
    rw [List.append_nil] at he
    refine ⟨s, c, [], hs, he.symm, (List.append_nil c).symm, ?_, hl⟩
    rw [hf]
    constructor <;> assumption
  | @choice stem i following tail outer rounds hc ih =>
    cases hr : s.rest with
    | nil =>
      rw [hr, List.nil_append] at he
      have hl' := (Stretch.lands_iff_of_target_eq (Stretch.target_choice_end hr hf)).mp hl
      exact ih hl' (hs.behind_choice hf) he rfl
    | cons m ms =>
      rw [hr] at he
      obtain ⟨rfl, rfl⟩ : n = m ∧ c = ms ++ (following ++ tail) := by simpa using he
      exact ⟨s, ms, following ++ tail, hs, hr, rfl, hf ▸ .choice hc, hl⟩

end LocalProtocol

namespace LocalProtocol.Yields

variable {l : LocalProtocol} {scope : Option NodeId} {p : Projection} {s : Stretch} {x : Landing}

theorem end_cases (y : l.Yields p) {rounds : List Round} (h : l.Running scope s [] rounds)
    (hl : s.Lands p x) : (rounds = [] ∧ x = .ofScope scope) ∨
      ∃ r left t, rounds = r :: left ∧ l.Running scope t r.after left ∧ t.Lands p x := by
  obtain ⟨hs, tail, hc, he⟩ := h
  obtain ⟨hr, rfl⟩ := List.append_eq_nil_iff.mp he.symm
  obtain ⟨frames, hf⟩ : ∃ frames, s.frames = frames := ⟨_, rfl⟩
  obtain ⟨tail, ht⟩ : ∃ tail : Conversation, tail = [] := ⟨_, rfl⟩
  rw [hf, ← ht] at hc
  induction hc generalizing s with
  | root hscope =>
    have hx : p.landing .finish = .ok x := (Stretch.lands_iff (Stretch.target_root hr hf)).mp hl
    rw [p.landing_finish] at hx
    cases hx
    exact .inl ⟨rfl, by rw [hscope]; rfl⟩
  | par hscope =>
    have hx := (Stretch.lands_iff (Stretch.target_par_end hr hf)).mp hl
    rw [p.landing_join] at hx
    cases hx
    exact .inl ⟨rfl, by rw [hscope]; rfl⟩
  | choice hc ih =>
    obtain ⟨rfl, rfl⟩ := List.append_eq_nil_iff.mp ht
    have hl' := (Stretch.lands_iff_of_target_eq (Stretch.target_choice_end hr hf)).mp hl
    exact ih hl' (hs.behind_choice hf) rfl rfl rfl rfl
  | @loop t inner following tail rounds hts htr hc _ =>
    exact .inr ⟨_, _, t.pass following, rfl, ⟨hts.pass htr, tail, hc, rfl⟩,
      (y.lands_loop_end hr hf hts htr).mp hl⟩

theorem settle_of_leads {state : String} (h : l.Leads state s) {tail : Conversation}
    {rounds : List Round} (hc : l.Continues scope s.frames tail rounds) :
    ∃ c rs, Activity.system.Silent (.thread (s.rest ++ tail) rounds) (.thread c rs) ∧
      l.Settled scope c rs (.state state) := by
  induction h generalizing tail rounds with
  | step hs hr hn hstate =>
    rw [hr, ← hstate]
    exact ⟨_, _, .refl _, .step hs hr hn hc⟩
  | call hs hr _ ih =>
    obtain ⟨c, rs, hsilent, hset⟩ := ih hc
    rw [hr]
    exact ⟨c, rs, hsilent.head .call, hset⟩
  | loop hs hr _ ih =>
    obtain ⟨c, rs, hsilent, hset⟩ := ih (.loop hs hr hc)
    rw [List.append_nil] at hsilent
    rw [hr]
    exact ⟨c, rs, hsilent.head .enter, hset⟩

/-- A thread settles, by silent moves alone, in the state where its stretch lands. -/
theorem settle (y : l.Yields p) {c : Conversation} {rounds : List Round}
    (h : l.Running scope s c rounds) (hl : s.Lands p x) :
    ∃ c' rs, Activity.system.Silent (.thread c rounds) (.thread c' rs) ∧
      l.Settled scope c' rs x := by
  obtain ⟨hs, tail, hc, rfl⟩ := h
  induction hs using LocalProtocol.Has.walk generalizing tail rounds with
  | step hs hr hn =>
    obtain rfl := hl.unique (Stretch.lands_step hr hn)
    rw [hr]
    exact ⟨_, _, .refl _, .step hs hr hn hc⟩
  | @enter s lid label body ns hs hr =>
    obtain ⟨state, he⟩ := y.exists_entry hs hr
    obtain rfl := hl.unique ⟨_, Stretch.target_loop hr he, p.landing_step ..⟩
    obtain ⟨c, rs, hsilent, hset⟩ := settle_of_leads ((hs.body hr).leads_of_entryState he)
      (.loop hs hr hc)
    have hbody : (s.inLoop lid label body).rest ++ [] = body := List.append_nil body
    rw [hbody] at hsilent
    rw [hr]
    exact ⟨c, rs, hsilent.head .enter, hset⟩
  | jump hs hr =>
    obtain ⟨inner, outer, state, hb, he, hl', _⟩ := y.exists_lands_jump hs hr
    obtain rfl := hl.unique hl'
    obtain ⟨after, left, hdrop, hc'⟩ := hc.binds hb
    obtain ⟨c, rs, hsilent, hset⟩ := settle_of_leads ((hs.of_binds hb rfl).leads_of_entryState he)
      hc'
    have hbody : (inner.stretch outer).rest ++ [] = inner.body := List.append_nil inner.body
    rw [hbody] at hsilent
    rw [hr]
    exact ⟨c, rs, hsilent.head (.again hdrop), hset⟩
  | call hs hr ih =>
    have hl' := (Stretch.lands_iff_of_target_eq (Stretch.target_call hr)).mp hl
    obtain ⟨c, rs, hsilent, hset⟩ := ih hl' tail hc
    rw [hr]
    exact ⟨c, rs, hsilent.head .call, hset⟩
  | root _ hr hf =>
    rw [hf] at hc
    cases hc with
    | root hscope =>
      obtain rfl := hl.unique ⟨_, Stretch.target_root hr hf, p.landing_finish⟩
      subst hscope
      rw [hr]
      exact ⟨_, _, .refl _, .ended⟩
  | par _ hr hf =>
    rw [hf] at hc
    cases hc with
    | par hscope =>
      obtain rfl := hl.unique ⟨_, Stretch.target_par_end hr hf, p.landing_join ..⟩
      subst hscope
      rw [hr]
      exact ⟨_, _, .refl _, .ended⟩
  | choice hs hr hf ih =>
    rw [hf] at hc
    cases hc with
    | choice hc =>
      have hl' := (Stretch.lands_iff_of_target_eq (Stretch.target_choice_end hr hf)).mp hl
      rw [hr]
      exact ih hl' _ hc
  | loop hs hr hf ih =>
    rw [hf] at hc
    cases hc with
    | loop ht htr hc =>
      have hl' := (y.lands_loop_end hr hf ht htr).mp hl
      obtain ⟨c, rs, hsilent, hset⟩ := ih ht htr rfl hl' _ hc
      rw [hr]
      exact ⟨c, rs, hsilent.head .leave, hset⟩

theorem converges_thread (y : l.Yields p) {c : Conversation} {rounds : List Round}
    (h : l.Running scope s c rounds) (hl : s.Lands p x) :
    Activity.system.Converges (.thread c rounds) := by
  obtain ⟨c', rs, hsilent, hset⟩ := y.settle h hl
  apply System.converges_of_silent (P := fun a => ∃ c rs, a = .thread c rs) ?_ ?_ hsilent ?_
    ⟨c, rounds, rfl⟩
  · rintro _ _ ⟨c, rs, rfl⟩ hstep
    exact Activity.exists_thread_of_step_none hstep
  · rintro _ _ _ ⟨c, rs, rfl⟩ hstep hstep'
    exact Activity.step_none_unique hstep hstep'
  · intro a hstep
    cases hset with
    | ended => cases hstep
    | @step s n ns tail rounds _ _ hn _ =>
      cases n with
      | message | choice | par => cases hstep
      | loop | jump | call => exact hn trivial

end LocalProtocol.Yields

end Parley
