import Parley.Proofs.Machine
import Parley.Proofs.Thread

/-! The machine of a projection behaves as the conversation it was projected from. The moves of the
machine are first read off the stretches of the conversation; a relation then pairs each thread with
the landing of its stretch, and each fork with the state of its join. -/

namespace Parley

open Outcome

namespace LocalProtocol.Yields

variable {l : LocalProtocol} {p : Projection} {s : Stretch} {x : Landing}

theorem step_message (y : l.Yields p) (hs : l.Has s) {m : Message} {ns : Conversation}
    (hr : s.rest = .message m :: ns) (hl : (s.pass ns).Lands p x) :
    p.Step (.at (.state s.state)) (some (.exchange m)) (.at x) := by
  obtain ⟨r, hmem, hrec⟩ := y.exists_record hs hr
  have hkind := hrec.kind_eq hr
  cases r <;> cases hkind
  obtain ⟨ns', hr', hstate, _, _, hnext⟩ := hrec
  obtain ⟨hm, rfl⟩ := List.cons.inj (hr.symm.trans hr')
  cases hm
  rw [← hstate]
  exact .message hmem ((Stretch.lands_iff hnext).mp hl)

theorem step_choice (y : l.Yields p) (hs : l.Has s) {id : NodeId} {chooser : String}
    {bs : List Conversation} {ns b : Conversation} {k : Nat}
    (hr : s.rest = .choice id chooser bs :: ns) (hb : bs[k]? = some b)
    (hl : (s.inChoice ns k b).Lands p x) :
    p.Step (.at (.state s.state)) (some (.branch id chooser k)) (.at x) := by
  obtain ⟨r, hmem, hrec⟩ := y.exists_record hs hr
  have hkind := hrec.kind_eq hr
  cases r <;> cases hkind
  rename_i r
  obtain ⟨bs', ns', hr', hstate, _, _, _, hlen, hall⟩ := hrec
  obtain ⟨hn, rfl⟩ := List.cons.inj (hr.symm.trans hr')
  cases hn
  obtain ⟨e, he⟩ := exists_getElem?_of_length_eq hlen.symm hb
  obtain ⟨_, hentry, _⟩ := hall k b e hb he
  rw [← hstate]
  exact .choice hmem he ((Stretch.lands_iff hentry).mp hl)

theorem exists_par_record (y : l.Yields p) (hs : l.Has s) {id : NodeId} {bs : List Conversation}
    {ns : Conversation} (hr : s.rest = .par id bs :: ns) : ∃ r ∈ p.pars, r.id = id ∧
      r.state = s.state ∧ r.join = joinState s.state ∧ (s.pass ns).target = .ok r.next ∧
      r.branches.length = bs.length ∧
      ∀ k b t, bs[k]? = some b → r.branches[k]? = some t → (s.inPar id k b).target = .ok t := by
  obtain ⟨r, hmem, hrec⟩ := y.exists_record hs hr
  have hkind := hrec.kind_eq hr
  cases r <;> cases hkind
  obtain ⟨bs', ns', hr', hstate, _, hjoin, hnext, hlen, hall⟩ := hrec
  obtain ⟨hn, rfl⟩ := List.cons.inj (hr.symm.trans hr')
  cases hn
  exact ⟨_, hmem, rfl, hstate, hjoin, hnext, hlen, hall⟩

theorem step_fork (y : l.Yields p) (hs : l.Has s) {id : NodeId} {bs : List Conversation}
    {ns : Conversation} (hr : s.rest = .par id bs :: ns) : ∃ xs : List Landing,
      p.Step (.at (.state s.state)) (some (.fork id)) (.fork (joinState s.state) (xs.map .at)) ∧
        xs.length = bs.length ∧
        ∀ k b x, bs[k]? = some b → xs[k]? = some x → (s.inPar id k b).Lands p x := by
  obtain ⟨r, hmem, rfl, hstate, hjoin, _, hlen, hall⟩ := y.exists_par_record hs hr
  obtain ⟨xs, hxs⟩ : ∃ xs, r.branches.mapM p.landing = .ok xs := by
    apply exists_mapM_eq_ok
    intro t ht
    obtain ⟨k, hk, rfl⟩ := List.mem_iff_getElem.mp ht
    have ht := List.getElem?_eq_getElem hk
    obtain ⟨b, hb⟩ := exists_getElem?_of_length_eq hlen ht
    obtain ⟨x, hx⟩ := y.exists_lands (hs.par hr hb)
    exact ⟨x, (Stretch.lands_iff (hall k b _ hb ht)).mp hx⟩
  have hlenx : xs.length = bs.length := (length_of_mapM_eq_ok hxs).trans hlen
  refine ⟨xs, ?_, hlenx, ?_⟩
  · rw [← hjoin, ← hstate]
    exact .fork hmem hxs
  · intro k b x hb hx
    obtain ⟨t, ht⟩ := exists_getElem?_of_length_eq hlen.symm hb
    exact (Stretch.lands_iff (hall k b t hb ht)).mpr (getElem?_of_mapM_eq_ok hxs ht hx)

theorem step_join (y : l.Yields p) (hs : l.Has s) {id : NodeId} {bs : List Conversation}
    {ns : Conversation} (hr : s.rest = .par id bs :: ns) {cs : List Control}
    (hcs : ∀ c ∈ cs, c = .at (.join id)) (hl : (s.pass ns).Lands p x) :
    p.Step (.fork (joinState s.state) cs) (some (.join id)) (.at x) := by
  obtain ⟨r, hmem, rfl, _, hjoin, hnext, _⟩ := y.exists_par_record hs hr
  rw [← hjoin]
  exact .join hmem hcs ((Stretch.lands_iff hnext).mp hl)

/-- All moves of the machine in the state of the step that begins a stretch. -/
theorem step_cases (y : l.Yields p) (hs : l.Has s) {n : Node} {ns : Conversation}
    (hr : s.rest = n :: ns) {a : Option Action} {c : Control}
    (h : p.Step (.at (.state s.state)) a c) :
    (∃ m x, n = .message m ∧ a = some (.exchange m) ∧ c = .at x ∧ (s.pass ns).Lands p x) ∨
    (∃ id chooser bs b k x, n = .choice id chooser bs ∧ bs[k]? = some b ∧
      a = some (.branch id chooser k) ∧ c = .at x ∧ (s.inChoice ns k b).Lands p x) ∨
    ∃ (id : NodeId) (bs : List Conversation) (xs : List Landing), n = .par id bs ∧
      a = some (.fork id) ∧ c = .fork (joinState s.state) (xs.map .at) ∧ xs.length = bs.length ∧
      ∀ k b x, bs[k]? = some b → xs[k]? = some x → (s.inPar id k b).Lands p x := by
  generalize hat : Control.at (.state s.state) = c₀ at h
  cases h with
  | @message r x hmem hx =>
    obtain ⟨t, ht, ns', hr', hstate, _, _, hnext⟩ := y.exists_stretch (r := .message r) hmem
    injection hat with hat
    injection hat with hat
    obtain rfl := ht.eq_of_state_eq hs hr' hr (hstate.symm.trans hat.symm)
    obtain ⟨rfl, rfl⟩ := List.cons.inj (hr.symm.trans hr')
    exact .inl ⟨_, x, rfl, rfl, rfl, (Stretch.lands_iff hnext).mpr hx⟩
  | @choice r e k x hmem hk hx =>
    obtain ⟨t, ht, bs, ns', hr', hstate, _, _, _, hlen, hall⟩ :=
      y.exists_stretch (r := .choice r) hmem
    injection hat with hat
    injection hat with hat
    obtain rfl := ht.eq_of_state_eq hs hr' hr (hstate.symm.trans hat.symm)
    obtain ⟨rfl, rfl⟩ := List.cons.inj (hr.symm.trans hr')
    obtain ⟨b, hb⟩ := exists_getElem?_of_length_eq hlen hk
    obtain ⟨_, hentry, _⟩ := hall k b e hb hk
    exact .inr (.inl ⟨_, _, bs, _, k, x, rfl, hb, rfl, rfl, (Stretch.lands_iff hentry).mpr hx⟩)
  | @fork r xs hmem hxs =>
    obtain ⟨t, ht, bs, ns', hr', hstate, _, hjoin, _, hlen, hall⟩ :=
      y.exists_stretch (r := .par r) hmem
    injection hat with hat
    injection hat with hat
    obtain rfl := ht.eq_of_state_eq hs hr' hr (hstate.symm.trans hat.symm)
    obtain ⟨rfl, rfl⟩ := List.cons.inj (hr.symm.trans hr')
    refine .inr (.inr ⟨_, bs, xs, rfl, rfl, by rw [hjoin], ?_, ?_⟩)
    · exact (length_of_mapM_eq_ok hxs).trans hlen
    · intro k b x hb hx
      obtain ⟨t, ht⟩ := exists_getElem?_of_length_eq hlen.symm hb
      exact (Stretch.lands_iff (hall k b t hb ht)).mpr (getElem?_of_mapM_eq_ok hxs ht hx)
  | within | join => cases hat

theorem step_of_message (y : l.Yields p) {r : MessageRecord} (hr : r ∈ p.messages)
    {a : Option Action} {c : Control} (h : p.Step (.at (.state r.state)) a c) :
    a = some (.exchange r.message) ∧ ∃ x, p.landing r.next = .ok x ∧ c = .at x := by
  obtain ⟨s, hs, ns, hrest, hstate, _, _, hnext⟩ := y.exists_stretch (r := .message r) hr
  rw [hstate] at h
  rcases y.step_cases hs hrest h with ⟨m, x, hn, rfl, rfl, hx⟩ |
    ⟨_, _, _, _, _, _, hn, _⟩ | ⟨_, _, _, hn, _⟩ <;> cases hn
  exact ⟨rfl, x, (Stretch.lands_iff hnext).mp hx, rfl⟩

theorem step_of_choice (y : l.Yields p) {r : ChoiceRecord} (hr : r ∈ p.choices)
    {a : Option Action} {c : Control} (h : p.Step (.at (.state r.state)) a c) :
    ∃ k e x, r.branches[k]? = some e ∧ p.landing e.entry = .ok x ∧
      a = some (.branch r.id r.chooser k) ∧ c = .at x := by
  obtain ⟨s, hs, bs, ns, hrest, hstate, _, _, _, hlen, hall⟩ :=
    y.exists_stretch (r := .choice r) hr
  rw [hstate] at h
  rcases y.step_cases hs hrest h with ⟨_, _, hn, _⟩ |
    ⟨_, _, _, b, k, x, hn, hb, rfl, rfl, hx⟩ | ⟨_, _, _, hn, _⟩ <;> cases hn
  obtain ⟨e, he⟩ := exists_getElem?_of_length_eq hlen.symm hb
  obtain ⟨_, hentry, _⟩ := hall k b e hb he
  exact ⟨k, e, x, he, (Stretch.lands_iff hentry).mp hx, rfl, rfl⟩

theorem step_unique (y : l.Yields p) {a : Option Action} {x x' : Landing} {c : Control}
    (h : p.Step (.at x) a (.at x')) (h' : p.Step (.at x) a c) : c = .at x' := by
  cases h with
  | message hr hx =>
    obtain ⟨_, x'', hx'', rfl⟩ := y.step_of_message hr h'
    rw [Except.ok.inj (hx''.symm.trans hx)]
  | choice hr hb hx =>
    obtain ⟨k, e, x'', he, hx'', ha, rfl⟩ := y.step_of_choice hr h'
    cases ha
    obtain rfl := Option.some.inj (hb.symm.trans he)
    rw [Except.ok.inj (hx''.symm.trans hx)]

theorem step_fork_cases (y : l.Yields p) (hs : l.Has s) {id : NodeId} {bs : List Conversation}
    {ns : Conversation} (hr : s.rest = .par id bs :: ns) {cs : List Control} {a : Option Action}
    {c : Control} (h : p.Step (.fork (joinState s.state) cs) a c) :
    (∃ k c₀ c₁, cs[k]? = some c₀ ∧ p.Step c₀ a c₁ ∧ c = .fork (joinState s.state) (cs.set k c₁)) ∨
    (∃ x, (∀ c ∈ cs, c = .at (.join id)) ∧ a = some (.join id) ∧ c = .at x ∧
      (s.pass ns).Lands p x) := by
  generalize hfork : Control.fork (joinState s.state) cs = c₀ at h
  cases h with
  | message | choice | fork => cases hfork
  | within hk hstep =>
    cases hfork
    exact .inl ⟨_, _, _, hk, hstep, rfl⟩
  | @join r cs' x hmem hcs hx =>
    obtain ⟨t, ht, bs', ns', hr', _, _, hjoin, hnext, _⟩ := y.exists_stretch (r := .par r) hmem
    injection hfork with hj hcs'
    subst hcs'
    have hstate : t.state = s.state := StateName.joinState_injective (hjoin.symm.trans hj.symm)
    obtain rfl := ht.eq_of_state_eq hs hr' hr hstate
    obtain ⟨hn, rfl⟩ := List.cons.inj (hr.symm.trans hr')
    cases hn
    exact .inr ⟨x, hcs, rfl, rfl, (Stretch.lands_iff hnext).mpr hx⟩

end LocalProtocol.Yields

namespace LocalProtocol

/-- How far a conversation has come, and where the machine stands meanwhile. -/
inductive Matches (l : LocalProtocol) (p : Projection) :
    Option NodeId → Activity → Control → Prop where
  | thread {scope : Option NodeId} {s : Stretch} {c : Conversation} {rounds : List Round}
      {x : Landing} : l.Running scope s c rounds → s.Lands p x →
      l.Matches p scope (.thread c rounds) (.at x)
  | fork {scope : Option NodeId} {s : Stretch} {id : NodeId} {bs : List Conversation}
      {ns tail : Conversation} {rounds : List Round} {as : List Activity} {cs : List Control} :
      l.Has s → s.rest = .par id bs :: ns → l.Continues scope s.frames tail rounds →
      as.length = cs.length →
      (∀ (k : Nat) a c, as[k]? = some a → cs[k]? = some c → l.Matches p (some id) a c) →
      l.Matches p scope (.fork id as (ns ++ tail) rounds) (.fork (joinState s.state) cs)

namespace Matches

variable {l : LocalProtocol} {p : Projection} {scope : Option NodeId}

theorem start (y : l.Yields p) {x : Landing} (h : p.landing p.start = .ok x) :
    l.Matches p none (Activity.start l.conversation) (.at x) :=
  .thread ⟨.whole, [], .root rfl, (List.append_nil _).symm⟩ ((Stretch.lands_iff y.start).mpr h)

/-- The machine has ended with the conversation, in the join of the scope. -/
theorem ended_forth (y : l.Yields p) {b : Control} (h : l.Matches p scope (.thread [] []) b) :
    b = .at (.ofScope scope) := by
  cases h with
  | thread hrun hl =>
    rcases y.end_cases hrun hl with ⟨_, rfl⟩ | ⟨_, _, _, he, _⟩
    · rfl
    · cases he

theorem ended_back (y : l.Yields p) {a : Activity} (h : l.Matches p scope a (.at (.ofScope scope))) :
    Activity.system.Silent a (.thread [] []) := by
  generalize hb : Control.at (.ofScope scope) = b at h
  cases h with
  | fork => cases hb
  | thread hrun hl =>
    cases hb
    obtain ⟨c, rs, hsilent, hset⟩ := y.settle hrun hl
    generalize hx : Landing.ofScope scope = x at hset
    cases hset with
    | ended => exact hsilent
    | step => cases scope <;> cases hx

theorem converges (y : l.Yields p) {a : Activity} {b : Control} (h : l.Matches p scope a b) :
    Activity.system.Converges a := by
  induction h with
  | thread hrun hl => exact y.converges_thread hrun hl
  | fork _ _ _ hlen _ ih =>
    apply Activity.converges_fork
    intro a ha
    obtain ⟨k, hk⟩ := List.mem_iff_getElem?.mp ha
    obtain ⟨c, hc⟩ := exists_getElem?_of_length_eq hlen hk
    exact ih k a c hk hc

theorem branches_set {as : List Activity} {cs : List Control}
    (h : ∀ (k : Nat) a c, as[k]? = some a → cs[k]? = some c → l.Matches p scope a c) {k : Nat}
    {a : Activity} {c : Control} (hac : l.Matches p scope a c) (i : Nat) (a' : Activity)
    (c' : Control) (ha : (as.set k a)[i]? = some a') (hc : (cs.set k c)[i]? = some c') :
    l.Matches p scope a' c' := by
  by_cases hki : k = i
  · subst hki
    obtain ⟨_, rfl⟩ := List.getElem?_eq_some_iff.mp ha
    obtain ⟨_, rfl⟩ := List.getElem?_eq_some_iff.mp hc
    rw [List.getElem_set_self, List.getElem_set_self]
    exact hac
  · rw [List.getElem?_set_ne hki] at ha hc
    exact h i a' c' ha hc

/-- The machine answers a move of the conversation: it stays if the move is silent. -/
theorem forth (y : l.Yields p) {a a' : Activity} {b : Control} {x : Option Action}
    (hm : l.Matches p scope a b) (h : Activity.Step a x a') :
    ∃ b', (x = none ∧ b' = b ∨ p.Step b x b') ∧ l.Matches p scope a' b' := by
  induction h generalizing scope b with
  | message =>
    cases hm with
    | thread hrun hl =>
      obtain ⟨t, ns, tail, ht, hr, rfl, hc, hl⟩ := hrun.focus hl
      obtain rfl := hl.unique (Stretch.lands_step hr id)
      obtain ⟨x, hx⟩ := y.exists_lands (ht.pass hr)
      exact ⟨.at x, .inr (y.step_message ht hr hx), .thread (hc.pass ht hr) hx⟩
  | choice hb =>
    cases hm with
    | thread hrun hl =>
      obtain ⟨t, ns, tail, ht, hr, rfl, hc, hl⟩ := hrun.focus hl
      obtain rfl := hl.unique (Stretch.lands_step hr id)
      obtain ⟨x, hx⟩ := y.exists_lands (ht.choice hr hb)
      exact ⟨.at x, .inr (y.step_choice ht hr hb hx), .thread (hc.branch ht hr hb) hx⟩
  | call =>
    cases hm with
    | thread hrun hl =>
      obtain ⟨t, ns, tail, ht, hr, rfl, hc, hl⟩ := hrun.focus hl
      have hl' := (Stretch.lands_iff_of_target_eq (Stretch.target_call hr)).mp hl
      exact ⟨_, .inl ⟨rfl, rfl⟩, .thread (hc.pass ht hr) hl'⟩
  | enter =>
    cases hm with
    | thread hrun hl =>
      obtain ⟨t, ns, tail, ht, hr, rfl, hc, hl⟩ := hrun.focus hl
      obtain ⟨state, hloop, hbody⟩ := y.exists_lands_loop ht hr
      obtain rfl := hl.unique hloop
      exact ⟨_, .inl ⟨rfl, rfl⟩, .thread (hc.enter ht hr) hbody⟩
  | again hdrop =>
    cases hm with
    | thread hrun hl =>
      obtain ⟨t, ns, tail, ht, hr, rfl, hc, hl⟩ := hrun.focus hl
      obtain ⟨inner, outer, state, hb, _, hjump, hbody⟩ := y.exists_lands_jump ht hr
      obtain rfl := hl.unique hjump
      obtain ⟨after, left, hdrop', hc'⟩ := hc.binds hb
      cases hdrop.symm.trans hdrop'
      have hrun' : l.Running scope (inner.stretch outer) inner.body _ :=
        ⟨ht.of_binds hb rfl, [], hc', (List.append_nil inner.body).symm⟩
      exact ⟨_, .inl ⟨rfl, rfl⟩, .thread hrun' hbody⟩
  | leave =>
    cases hm with
    | thread hrun hl =>
      rcases y.end_cases hrun hl with ⟨he, _⟩ | ⟨r, left, t, he, hrun', hl'⟩
      · cases he
      · cases he
        exact ⟨_, .inl ⟨rfl, rfl⟩, .thread hrun' hl'⟩
  | fork =>
    cases hm with
    | thread hrun hl =>
      obtain ⟨t, ns, tail, ht, hr, rfl, hc, hl⟩ := hrun.focus hl
      obtain rfl := hl.unique (Stretch.lands_step hr id)
      obtain ⟨xs, hstep, hlen, hall⟩ := y.step_fork ht hr
      refine ⟨_, .inr hstep, .fork ht hr hc (by simp [hlen]) ?_⟩
      intro k a c ha hcs
      simp only [List.getElem?_map, Option.map_eq_some_iff] at ha hcs
      obtain ⟨b, hb, rfl⟩ := ha
      obtain ⟨x, hx, rfl⟩ := hcs
      exact .thread (running_par ht hr hb) (hall k b x hb hx)
  | @within id as a a' x k c rs hk _ ih =>
    cases hm with
    | fork hs hr hc hlen hall =>
      rename_i cs
      obtain ⟨c₀, hc₀⟩ := exists_getElem?_of_length_eq hlen hk
      obtain ⟨c₁, hmove, hmatch⟩ := ih (hall k a c₀ hk hc₀)
      have hlen' : (as.set k a').length = (cs.set k c₁).length := by simpa using hlen
      refine ⟨_, ?_, .fork hs hr hc hlen' (branches_set hall hmatch)⟩
      rcases hmove with ⟨rfl, rfl⟩ | hstep
      · obtain ⟨hlt, rfl⟩ := List.getElem?_eq_some_iff.mp hc₀
        exact .inl ⟨rfl, by rw [List.set_getElem_self]⟩
      · exact .inr (.within hc₀ hstep)
  | join hended =>
    cases hm with
    | fork hs hr hc hlen hall =>
      obtain ⟨x, hx⟩ := y.exists_lands (hs.pass hr)
      refine ⟨.at x, .inr (y.step_join hs hr ?_ hx), .thread (hc.pass hs hr) hx⟩
      intro c hmem
      obtain ⟨k, hk⟩ := List.mem_iff_getElem?.mp hmem
      obtain ⟨a, ha⟩ := exists_getElem?_of_length_eq hlen.symm hk
      obtain rfl := hended a (List.mem_of_getElem? ha)
      exact ended_forth y (hall k _ c ha hk)

/-- The conversation answers a move of the machine, after silent moves of its own. -/
theorem back (y : l.Yields p) {a : Activity} {b b' : Control} {x : Option Action}
    (hm : l.Matches p scope a b) (h : p.Step b x b') :
    ∃ a', Activity.system.Moves a x a' ∧ l.Matches p scope a' b' := by
  induction hm generalizing x b' with
  | @thread scope s c rounds x₀ hrun hl =>
    obtain ⟨c, rs, hsilent, hset⟩ := y.settle hrun hl
    cases hset with
    | ended => cases scope <;> cases h
    | step hs hr hn hc =>
      rcases y.step_cases hs hr h with ⟨m, x, rfl, rfl, rfl, hx⟩ |
        ⟨id, chooser, bs, b, k, x, rfl, hb, rfl, rfl, hx⟩ |
        ⟨id, bs, xs, rfl, rfl, rfl, hlen, hall⟩
      · exact ⟨_, ⟨_, _, hsilent, .message, .refl _⟩, .thread (hc.pass hs hr) hx⟩
      · exact ⟨_, ⟨_, _, hsilent, .choice hb, .refl _⟩, .thread (hc.branch hs hr hb) hx⟩
      · refine ⟨_, ⟨_, _, hsilent, .fork, .refl _⟩, .fork hs hr hc (by simp [hlen]) ?_⟩
        intro k a c ha hcs
        simp only [List.getElem?_map, Option.map_eq_some_iff] at ha hcs
        obtain ⟨b, hb, rfl⟩ := ha
        obtain ⟨x, hx, rfl⟩ := hcs
        exact .thread (running_par hs hr hb) (hall k b x hb hx)
  | @fork scope s id bs ns tail rounds as cs hs hr hc hlen hall ih =>
    rcases y.step_fork_cases hs hr h with ⟨k, c₀, c₁, hk, hstep, rfl⟩ | ⟨x, hcs, rfl, rfl, hx⟩
    · obtain ⟨a₀, ha₀⟩ := exists_getElem?_of_length_eq hlen.symm hk
      obtain ⟨a₁, hmoves, hmatch⟩ := ih k a₀ c₀ ha₀ hk hstep
      have hlen' : (as.set k a₁).length = (cs.set k c₁).length := by simpa using hlen
      exact ⟨_, Activity.moves_within ha₀ hmoves,
        .fork hs hr hc hlen' (branches_set hall hmatch)⟩
    · -- every branch has landed in the join, and what is left of it ends silently
      have hends : ∀ a ∈ as, Activity.system.Silent a (.thread [] []) := by
        intro a ha
        obtain ⟨k, hk⟩ := List.mem_iff_getElem?.mp ha
        obtain ⟨c, hck⟩ := exists_getElem?_of_length_eq hlen hk
        obtain rfl := hcs c (List.mem_of_getElem? hck)
        exact ended_back y (hall k a _ hk hck)
      obtain ⟨as', hended, hsilent⟩ := Activity.silent_ended hends
      exact ⟨_, ⟨_, _, hsilent, .join hended, .refl _⟩, .thread (hc.pass hs hr) hx⟩

theorem forth_silent (y : l.Yields p) {a a' : Activity} {b : Control}
    (hm : l.Matches p scope a b) (h : Activity.system.Silent a a') : l.Matches p scope a' b := by
  induction h with
  | refl => exact hm
  | tail _ hstep ih =>
    obtain ⟨b', ⟨_, rfl⟩ | hstep', hm'⟩ := ih.forth y hstep
    · exact hm'
    · exact absurd hstep' Projection.not_step_none

theorem forth_moves (y : l.Yields p) {a a' : Activity} {b : Control} {x : Action}
    (hm : l.Matches p scope a b) (h : Activity.system.Moves a (some x) a') :
    ∃ b', p.Step b (some x) b' ∧ l.Matches p scope a' b' := by
  obtain ⟨a₁, a₂, hbefore, hstep, hafter⟩ := h
  obtain ⟨b', ⟨hx, _⟩ | hstep', hm'⟩ := (hm.forth_silent y hbefore).forth y hstep
  · cases hx
  · exact ⟨b', hstep', hm'.forth_silent y hafter⟩

theorem landing_cases (y : l.Yields p) {a : Activity} {x : Landing}
    (h : l.Matches p none a (.at x)) : x = .finish ∨ (∃ r ∈ p.messages, x = .state r.state) ∨
      (∃ r ∈ p.choices, x = .state r.state) ∨ ∃ r ∈ p.pars, x = .state r.state := by
  cases h with
  | thread hrun hl =>
    obtain ⟨c, rs, _, hset⟩ := y.settle hrun hl
    cases hset with
    | ended => exact .inl rfl
    | @step s n ns tail rounds hs hr hn _ =>
      obtain ⟨r, hmem, hrec⟩ := y.exists_record hs hr
      have hkind := hrec.kind_eq hr
      cases n with
      | message m =>
        cases r <;> cases hkind
        obtain ⟨_, _, hstate, _⟩ := hrec
        exact .inr (.inl ⟨_, hmem, by rw [hstate]⟩)
      | choice id chooser bs =>
        cases r <;> cases hkind
        obtain ⟨_, _, _, hstate, _⟩ := hrec
        exact .inr (.inr (.inl ⟨_, hmem, by rw [hstate]⟩))
      | par id bs =>
        cases r <;> cases hkind
        obtain ⟨_, _, _, hstate, _⟩ := hrec
        exact .inr (.inr (.inr ⟨_, hmem, by rw [hstate]⟩))
      | loop | jump | call => exact absurd trivial hn

theorem bisimulation (y : l.Yields p) :
    Activity.system.Bisimulation p.system (l.Matches p none) where
  forth hm hstep := by
    obtain ⟨b', hmove, hm'⟩ := hm.forth y hstep
    refine ⟨b', ?_, hm'⟩
    rcases hmove with ⟨rfl, rfl⟩ | hstep'
    · exact System.Silent.refl b'
    · rename_i x _
      cases x with
      | none => exact absurd hstep' Projection.not_step_none
      | some x => exact .of_step hstep'
  back hm hstep := hm.back y hstep
  ends_forth hm hend := by
    obtain rfl : _ = Activity.thread [] [] := hend
    exact ⟨_, .refl _, hm.ended_forth y⟩
  ends_back hm hend := by
    obtain rfl : _ = Control.at .finish := hend
    exact ⟨_, ended_back y hm, rfl⟩
  converges hm := by
    refine ⟨fun _ => Acc.intro _ fun c hc => ?_, fun _ => hm.converges y⟩
    exact absurd hc Projection.not_step_none

end Matches

/-- Projection keeps the meaning of a conversation: the machine of the projection starts, and from
there behaves as the conversation does from its start. -/
theorem bisimilar_machine {l : LocalProtocol} {moduleName? : Option String}
    {types : List TypeImport} {p : Projection} (h : l.project moduleName? types = .ok p) :
    ∃ x, p.landing p.start = .ok x ∧
      Activity.system.Bisimilar p.system (Activity.start l.conversation) (.at x) := by
  have y := yields_of_project_eq_ok h
  obtain ⟨x, hx⟩ := y.exists_lands .whole
  have hstart : p.landing p.start = .ok x := (Stretch.lands_iff y.start).mp hx
  exact ⟨x, hstart, l.Matches p none, Matches.bisimulation y, Matches.start y hstart⟩

/-- A bidder's view of an auction: rounds with two bids at once, until the house sells. -/
def auction : LocalProtocol where
  name := "Auction"
  protagonist := "Bidder"
  roles := ["Bidder", "House"]
  conversation :=
    [.loop ⟨"Bidder", "rec", 0⟩ "Round"
      [.call "Register" ["Bidder"],
       .choice ⟨"Bidder", "choice", 1⟩ "House"
        [[.message ⟨⟨"Bidder", "step", 2⟩, "Ask", "House", "Bidder", ["u32"]⟩,
          .par ⟨"Bidder", "par", 3⟩
            [[.message ⟨⟨"Bidder", "step", 4⟩, "Bid", "Bidder", "House", ["u32"]⟩],
             [.message ⟨⟨"Bidder", "step", 5⟩, "Watch", "Bidder", "House", []⟩]],
          .jump ⟨"Bidder", "continue", 6⟩ "Round"],
         [.message ⟨⟨"Bidder", "step", 7⟩, "Sold", "House", "Bidder", []⟩]]],
     .message ⟨⟨"Bidder", "step", 8⟩, "Leave", "Bidder", "House", []⟩]

theorem auction_bisimilar_machine : ∃ p x, auction.project none [] = .ok p ∧
    p.landing p.start = .ok x ∧
      Activity.system.Bisimilar p.system (Activity.start auction.conversation) (.at x) := by
  have hok : (auction.project none []).toBool = true := by decide +kernel
  cases h : auction.project none [] with
  | error e =>
    rw [h] at hok
    cases hok
  | ok p =>
    obtain ⟨x, hx, hb⟩ := bisimilar_machine h
    exact ⟨p, x, rfl, hx, hb⟩

end LocalProtocol

end Parley
