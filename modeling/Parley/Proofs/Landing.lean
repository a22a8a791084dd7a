import Parley.Api.Landing
import Parley.Proofs.Record

/-! Where stretches land. A target that ends a loop leads on through the record of that loop; the
records are searched from the innermost loop outwards, and each loop stands before whatever it
encloses, so the search always arrives. The lemmas on `Lands` then give the landing of a stretch step
by step, without reference to targets or records. -/

namespace Parley

open Outcome

/-- Each place comes behind the loops around it; `seen` holds the steps before. -/
def LoopsFirst (seen : List Node) : List Place → Prop
  | [] => True
  | p :: ps =>
    (∀ inner, Frame.loop inner ∈ p.frames → .loop inner.id inner.label inner.body ∈ seen) ∧
      LoopsFirst (p.node :: seen) ps

namespace LoopsFirst

theorem mono {seen seen' : List Node} {ps : List Place} (hs : seen ⊆ seen')
    (h : LoopsFirst seen ps) : LoopsFirst seen' ps := by
  induction ps generalizing seen seen' with
  | nil => trivial
  | cons p ps ih =>
    exact ⟨fun inner hi => hs (h.1 inner hi), ih (List.cons_subset_cons _ hs) h.2⟩

theorem append {seen : List Node} {ps qs : List Place} (hp : LoopsFirst seen ps)
    (hq : LoopsFirst seen qs) : LoopsFirst seen (ps ++ qs) := by
  induction ps generalizing seen with
  | nil => exact hq
  | cons p ps ih => exact ⟨hp.1, ih hp.2 (hq.mono (List.subset_cons_self _ _))⟩

theorem exists_before {pre post : List Place} {q : Place} {seen : List Node}
    (h : LoopsFirst seen (pre ++ q :: post)) {inner : Loop} (hi : Frame.loop inner ∈ q.frames) :
    .loop inner.id inner.label inner.body ∈ pre.map Place.node ++ seen := by
  induction pre generalizing seen with
  | nil => exact h.1 inner hi
  | cons p pre ih =>
    have hm := ih h.2
    simp only [List.map_cons, List.cons_append, List.mem_append, List.mem_cons] at hm ⊢
    tauto

end LoopsFirst

mutual

theorem Conversation.places_loopsFirst (stem : String) (frames : List Frame)
    (before? : Option Node) (i : Nat) : ∀ (c : List Node) (seen : List Node),
      (∀ inner, Frame.loop inner ∈ frames → .loop inner.id inner.label inner.body ∈ seen) →
        LoopsFirst seen (Conversation.places stem frames before? i c)
  | [], _, _ => by
    rw [Conversation.places]
    trivial
  | n :: ns, seen, h => by
    rw [Conversation.places]
    have hn : ∀ inner, Frame.loop inner ∈ frames →
        .loop inner.id inner.label inner.body ∈ n :: seen :=
      fun inner hi => List.mem_cons_of_mem n (h inner hi)
    exact ⟨h, (Node.placesWithin_loopsFirst stem frames i ns n _ List.mem_cons_self hn).append
      (Conversation.places_loopsFirst stem frames (some n) (i + 1) ns _ hn)⟩

theorem Node.placesWithin_loopsFirst (stem : String) (frames : List Frame) (i : Nat)
    (following : Conversation) : ∀ (n : Node) (seen : List Node), n ∈ seen →
      (∀ inner, Frame.loop inner ∈ frames → .loop inner.id inner.label inner.body ∈ seen) →
        LoopsFirst seen (n.placesWithin stem frames i following)
  | .loop id label body, seen, hn, h => by
    rw [Node.placesWithin]
    apply Conversation.places_loopsFirst
    intro inner hi
    rcases List.mem_cons.mp hi with hi | hi
    · cases hi
      exact hn
    · exact h inner hi
  | .choice id chooser branches, seen, _, h => by
    rw [Node.placesWithin]
    apply branchPlaces_loopsFirst
    intro inner hi
    rcases List.mem_cons.mp hi with hi | hi
    · cases hi
    · exact h inner hi
  | .par id branches, seen, _, h => by
    rw [Node.placesWithin]
    apply branchPlaces_loopsFirst
    intro inner hi
    rcases List.mem_cons.mp hi with hi | hi
    · cases hi
    · exact h inner hi
  | .message m, _, _, _ => by
    rw [Node.placesWithin]
    trivial
  | .call name roles, _, _, _ => by
    rw [Node.placesWithin]
    trivial
  | .jump id label, _, _, _ => by
    rw [Node.placesWithin]
    trivial

theorem branchPlaces_loopsFirst (state tag : String) (frames : List Frame) (i : Nat) :
    ∀ (bs : List (List Node)) (seen : List Node),
      (∀ inner, Frame.loop inner ∈ frames → .loop inner.id inner.label inner.body ∈ seen) →
        LoopsFirst seen (branchPlaces state tag frames i bs)
  | [], _, _ => by
    rw [branchPlaces]
    trivial
  | b :: bs, seen, h => by
    rw [branchPlaces]
    exact (Conversation.places_loopsFirst _ _ none 1 b seen h).append
      (branchPlaces_loopsFirst state tag frames (i + 1) bs seen h)

end

theorem LocalProtocol.places_loopsFirst (l : LocalProtocol) : LoopsFirst [] l.places :=
  Conversation.places_loopsFirst _ _ none 1 l.conversation [] (by simp)

namespace Landing

theorem find_append {rs outer : List LoopRecord} {id : NodeId} {label : String}
    (h : ∀ r ∈ rs, r.id ≠ id) :
    find (rs ++ outer) (.loopEnd id label) = find outer (.loopEnd id label) := by
  induction rs with
  | nil => rfl
  | cons r rs ih =>
    have hr : (r.id == id) = false := by simpa using h r List.mem_cons_self
    rw [List.cons_append, find, hr]
    exact ih fun r hm => h r (List.mem_cons_of_mem _ hm)

theorem find_cons {r : LoopRecord} {outer : List LoopRecord} {label : String} :
    find (r :: outer) (.loopEnd r.id label) = find outer r.next := by
  simp [find]

theorem find_eq_of_not_loopEnd {rs rs' : List LoopRecord} {t : Target}
    (h : ∀ id label, t ≠ .loopEnd id label) : find rs t = find rs' t := by
  cases t with
  | loopEnd id label => exact absurd rfl (h id label)
  | _ => simp [find]

end Landing

namespace Target

theorem ofNode_ne_loopEnd {stem : String} {i : Nat} {frames : List Frame} {n : Node} {id : NodeId}
    {label : String} : ofNode stem i frames n ≠ .ok (.loopEnd id label) := by
  intro h
  cases n with
  | loop lid llabel body =>
    obtain ⟨_, _, h⟩ := bind_eq_ok.mp h
    cases pure_eq_ok.mp h
  | jump jid jlabel =>
    obtain ⟨_, _, h⟩ := bind_eq_ok.mp h
    obtain ⟨_, _, h⟩ := bind_eq_ok.mp h
    cases pure_eq_ok.mp h
  | _ => simp [ofNode] at h

theorem leave_eq_loopEnd {frames : List Frame} {id : NodeId} {label : String}
    (h : leave frames = .ok (.loopEnd id label)) :
    ∃ inner, Frame.loop inner ∈ frames ∧ inner.id = id := by
  induction frames with
  | nil => simp [leave] at h
  | cons f frames ih =>
    cases f with
    | loop inner =>
      simp only [leave, Except.ok.injEq, Target.loopEnd.injEq] at h
      exact ⟨inner, List.mem_cons_self, h.1⟩
    | par pid state => simp [leave] at h
    | choice stem i following =>
      rw [leave] at h
      split at h
      · exact absurd h ofNode_ne_loopEnd
      · obtain ⟨inner, hm, hi⟩ := ih h
        exact ⟨inner, List.mem_cons_of_mem _ hm, hi⟩

end Target

theorem Stretch.exists_loop_of_target {s : Stretch} {id : NodeId} {label : String}
    (h : s.target = .ok (.loopEnd id label)) :
    ∃ inner, Frame.loop inner ∈ s.frames ∧ inner.id = id := by
  unfold Stretch.target Target.enter at h
  split at h
  · exact absurd h Target.ofNode_ne_loopEnd
  · exact Target.leave_eq_loopEnd h

namespace LocalProtocol.Yields

variable {l : LocalProtocol} {p : Projection}

theorem ids_pairwise (y : l.Yields p) :
    l.places.Pairwise fun q q' => ∀ id, q.node.id? = some id → q'.node.id? ≠ some id := by
  have h := List.pairwise_filterMap.mp (Place.checkAll_ids y.checked).1
  exact h.imp fun hq id hid hid' => hq id hid id hid' rfl

theorem place_eq_of_id_eq (y : l.Yields p) {q q' : Place} (hq : q ∈ l.places) (hq' : q' ∈ l.places)
    {id : NodeId} (h : q.node.id? = some id) (h' : q'.node.id? = some id) : q = q' := by
  obtain ⟨i, hi, rfl⟩ := List.mem_iff_getElem.mp hq
  obtain ⟨j, hj, rfl⟩ := List.mem_iff_getElem.mp hq'
  have hpair := List.pairwise_iff_getElem.mp y.ids_pairwise
  rcases Nat.lt_trichotomy i j with hij | rfl | hij
  · exact absurd h' (hpair i j hi hj hij id h)
  · rfl
  · exact absurd h (hpair j i hj hi hij id h')

theorem id?_of_loop_record {q : Place} {r : LoopRecord}
    (h : (l.record? q).bind Record.loop? = some r) : q.node.id? = some r.id := by
  obtain ⟨x, hx, hr⟩ := Option.bind_eq_some_iff.mp h
  cases x <;> cases hr
  obtain ⟨body, ns, hrest, _⟩ := records_of_record_eq_ok (record?_eq_some.mp hx)
  have hn : q.node = .loop r.id r.label body := (List.cons.inj hrest).1
  rw [hn]
  rfl

theorem exists_loop_record (y : l.Yields p) {q : Place} (hq : q ∈ l.places) {id : NodeId}
    {label : String} {body : Conversation} (hn : q.node = .loop id label body) :
    ∃ r, (l.record? q).bind Record.loop? = some r ∧ r.id = id ∧ q.next = .ok r.next := by
  obtain ⟨x, hx⟩ := y.recorded q hq
  have hrec := records_of_record_eq_ok (record?_eq_some.mp hx)
  have hs : q.stretch.rest = .loop id label body :: q.following := by simp [Place.stretch, hn]
  have hkind := hrec.kind_eq hs
  cases x <;> cases hkind
  rename_i r
  obtain ⟨_, ns, hr, _, _, _, hnext⟩ := hrec
  obtain ⟨hnode, rfl⟩ := List.cons.inj (hs.symm.trans hr)
  refine ⟨r, by rw [hx]; rfl, ?_, hnext⟩
  cases hnode
  rfl

/-- Running off the end of a loop leads to where the steps behind the loop lead. -/
theorem landing_loopEnd (y : l.Yields p) {s : Stretch} (hs : l.Has s) {id : NodeId}
    {label : String} {body ns : Conversation} (hr : s.rest = .loop id label body :: ns)
    (ended : String) :
    ∃ t, (s.pass ns).target = .ok t ∧ p.landing (.loopEnd id ended) = p.landing t := by
  obtain ⟨q, hq, hnode, _, hafter⟩ := hs.exists_place hr
  obtain ⟨r, hpick, rfl, hnext⟩ := y.exists_loop_record hq hnode
  refine ⟨r.next, hafter ▸ hnext, ?_⟩
  obtain ⟨pre, post, hsplit⟩ := List.append_of_mem hq
  -- turned round, the records of the loops before the place come behind its own
  have hloops : p.loops.reverse =
      (post.filterMap fun q => (l.record? q).bind Record.loop?).reverse ++
        r :: (pre.filterMap fun q => (l.record? q).bind Record.loop?).reverse := by
    rw [y.loops, hsplit, List.filterMap_append,
      List.filterMap_cons_some (f := fun q => (l.record? q).bind Record.loop?) hpick]
    simp
  have hids := y.ids_pairwise
  rw [hsplit, List.pairwise_append, List.pairwise_cons] at hids
  obtain ⟨_, ⟨hpost, _⟩, hpre⟩ := hids
  have hrid : q.node.id? = some r.id := id?_of_loop_record hpick
  have hlater : ∀ r' ∈ (post.filterMap fun q => (l.record? q).bind Record.loop?).reverse,
      ∃ q' ∈ post, q'.node.id? = some r'.id := by
    intro r' hr'
    obtain ⟨q', hq', hr'⟩ := List.mem_filterMap.mp (List.mem_reverse.mp hr')
    exact ⟨q', hq', id?_of_loop_record hr'⟩
  unfold Projection.landing
  rw [hloops, Landing.find_append, Landing.find_cons]
  · by_cases hend : ∃ i lab, r.next = .loopEnd i lab
    · -- what follows ends an outer loop, whose record is among those before
      obtain ⟨i, lab, hi⟩ := hend
      obtain ⟨inner, hm, rfl⟩ := q.after.exists_loop_of_target (hi ▸ hnext)
      have hseen := (hsplit ▸ l.places_loopsFirst).exists_before hm
      rw [List.append_nil] at hseen
      obtain ⟨q₀, hq₀, hn₀⟩ := List.mem_map.mp hseen
      have hid₀ : q₀.node.id? = some inner.id := by rw [hn₀]; rfl
      have hne : (r.id == inner.id) = false := by
        have hne := hpre q₀ hq₀ q List.mem_cons_self _ hid₀
        rw [hrid] at hne
        simpa using hne
      rw [hi, Landing.find_append, Landing.find, hne]
      · rfl
      · intro r' hr' he
        obtain ⟨q', hq', hid'⟩ := hlater r' hr'
        exact hpre q₀ hq₀ q' (List.mem_cons_of_mem _ hq') _ hid₀ (by rw [hid', he])
    · exact Landing.find_eq_of_not_loopEnd fun i lab hi => hend ⟨i, lab, hi⟩
  · intro r' hr' he
    obtain ⟨q', hq', hid'⟩ := hlater r' hr'
    exact hpost q' hq' _ hrid (by rw [hid', he])

end LocalProtocol.Yields

/-- Whether a step is passed without being seen. -/
def Node.Passed : Node → Prop
  | .loop .. => True
  | .jump .. => True
  | .call .. => True
  | _ => False

/-- Induction along the way on from a stretch: calls are passed, and at the end of a conversation the
way goes on behind the choice or the loop around it. -/
theorem LocalProtocol.Has.walk {l : LocalProtocol} {motive : ∀ s, l.Has s → Prop}
    (step : ∀ {s n ns} (h : l.Has s), s.rest = n :: ns → ¬ n.Passed → motive s h)
    (enter : ∀ {s id label body ns} (h : l.Has s), s.rest = .loop id label body :: ns → motive s h)
    (jump : ∀ {s id label ns} (h : l.Has s), s.rest = .jump id label :: ns → motive s h)
    (call : ∀ {s name roles ns} (h : l.Has s) (hr : s.rest = .call name roles :: ns),
      motive (s.pass ns) (h.pass hr) → motive s h)
    (root : ∀ {s} (h : l.Has s), s.rest = [] → s.frames = [] → motive s h)
    (par : ∀ {s id state outer} (h : l.Has s), s.rest = [] → s.frames = .par id state :: outer →
      motive s h)
    (choice : ∀ {s stem i following outer} (h : l.Has s), s.rest = [] →
      (hf : s.frames = .choice stem i following :: outer) →
      motive ⟨stem, outer, i + 1, following⟩ (h.behind_choice hf) → motive s h)
    (loop : ∀ {s inner outer} (h : l.Has s), s.rest = [] → s.frames = .loop inner :: outer →
      (∀ {t following} (ht : l.Has t)
        (htr : t.rest = .loop inner.id inner.label inner.body :: following), t.frames = outer →
        motive (t.pass following) (ht.pass htr)) → motive s h)
    {s : Stretch} (h : l.Has s) : motive s h := by
  -- first on the frames, and inside the same frames on the steps that are left
  obtain ⟨frames, hf⟩ : ∃ frames, s.frames = frames := ⟨_, rfl⟩
  obtain ⟨rest, hr⟩ : ∃ rest, s.rest = rest := ⟨_, rfl⟩
  induction frames generalizing s rest with
  | nil =>
    induction rest generalizing s with
    | nil => exact root h hr hf
    | cons n ns ih =>
      cases n with
      | call name roles => exact call h hr (ih (h.pass hr) hf rfl)
      | loop id label body => exact enter h hr
      | jump id label => exact jump h hr
      | message | choice | par => exact step h hr not_false
  | cons f frames ihf =>
    induction rest generalizing s with
    | nil =>
      cases f with
      | loop inner => exact loop h hr hf fun ht htr htf => ihf (ht.pass htr) htf _ rfl
      | choice stem i following => exact choice h hr hf (ihf (h.behind_choice hf) rfl _ rfl)
      | par id state => exact par h hr hf
    | cons n ns ih =>
      cases n with
      | call name roles => exact call h hr (ih (h.pass hr) hf rfl)
      | loop id label body => exact enter h hr
      | jump id label => exact jump h hr
      | message | choice | par => exact step h hr not_false

/-- The way to the step in whose state a loop is entered: calls are passed, and a loop is entered
through its body. -/
inductive LocalProtocol.Leads (l : LocalProtocol) (state : String) : Stretch → Prop where
  | step {s : Stretch} {n : Node} {ns : Conversation} :
      l.Has s → s.rest = n :: ns → ¬ n.Passed → s.state = state → l.Leads state s
  | call {s : Stretch} {name : String} {roles : List String} {ns : Conversation} :
      l.Has s → s.rest = .call name roles :: ns → l.Leads state (s.pass ns) → l.Leads state s
  | loop {s : Stretch} {id : NodeId} {label : String} {body ns : Conversation} :
      l.Has s → s.rest = .loop id label body :: ns → l.Leads state (s.inLoop id label body) →
      l.Leads state s

theorem LocalProtocol.Has.leads_of_entryState {l : LocalProtocol} {s : Stretch}
    {label state : String} (h : l.Has s)
    (he : Conversation.entryState label s.stem s.position s.rest = .ok state) :
    l.Leads state s := by
  induction hsize : sizeOf s.rest using Nat.strongRecOn generalizing s label with
  | ind size ih =>
    obtain ⟨rest, hr⟩ : ∃ rest, s.rest = rest := ⟨_, rfl⟩
    rw [hr] at he hsize
    cases rest with
    | nil => simp [Conversation.entryState] at he
    | cons n ns =>
      cases n with
      | message m => exact .step h hr id (Except.ok.inj he)
      | choice cid chooser bs => exact .step h hr id (Except.ok.inj he)
      | par pid bs => exact .step h hr id (Except.ok.inj he)
      | call name roles =>
        exact .call h hr (ih (sizeOf ns) (by simp at hsize; omega) (h.pass hr) he rfl)
      | loop lid inner body =>
        exact .loop h hr (ih (sizeOf body) (by simp at hsize; omega) (h.body hr) he rfl)
      | jump jid inner => simp [Conversation.entryState, Node.entryState] at he

namespace Projection

variable (p : Projection)

@[simp] theorem landing_step (id : NodeId) (kind : StepKind) (state : String) :
    p.landing (.step id kind state) = .ok (.state state) := by simp [landing, Landing.find]

@[simp] theorem landing_back (id : NodeId) (label state : String) :
    p.landing (.back id label state) = .ok (.state state) := by simp [landing, Landing.find]

@[simp] theorem landing_join (id : NodeId) (state : String) :
    p.landing (.join id state) = .ok (.join id) := by simp [landing, Landing.find]

@[simp] theorem landing_finish : p.landing .finish = .ok .finish := by
  simp [landing, Landing.find]

end Projection

namespace Stretch

variable {s : Stretch}

theorem target_call {name : String} {roles : List String} {ns : Conversation}
    (h : s.rest = .call name roles :: ns) : s.target = (s.pass ns).target := by
  unfold target
  rw [h]
  rfl

theorem target_message {m : Message} {ns : Conversation} (h : s.rest = .message m :: ns) :
    s.target = .ok (.step m.id .message s.state) := by
  unfold target
  rw [h]
  rfl

theorem target_choice {id : NodeId} {chooser : String} {bs : List Conversation} {ns : Conversation}
    (h : s.rest = .choice id chooser bs :: ns) : s.target = .ok (.step id .choice s.state) := by
  unfold target
  rw [h]
  rfl

theorem target_par {id : NodeId} {bs : List Conversation} {ns : Conversation}
    (h : s.rest = .par id bs :: ns) : s.target = .ok (.step id .par s.state) := by
  unfold target
  rw [h]
  rfl

theorem target_loop_eq_bind {id : NodeId} {label : String} {body ns : Conversation}
    (h : s.rest = .loop id label body :: ns) :
    s.target = (s.loop id label body).entry >>= fun state => .ok (.step id .loop state) := by
  unfold target
  rw [h]
  rfl

theorem target_loop {id : NodeId} {label state : String} {body ns : Conversation}
    (h : s.rest = .loop id label body :: ns) (he : (s.loop id label body).entry = .ok state) :
    s.target = .ok (.step id .loop state) := by
  rw [target_loop_eq_bind h, he]
  rfl

theorem target_jump_eq_bind {id : NodeId} {label : String} {ns : Conversation} {inner : Loop}
    (h : s.rest = .jump id label :: ns) (ht : Frame.target label s.frames = .ok inner) :
    s.target = inner.entry >>= fun state => .ok (.back inner.id label state) := by
  have htarget : s.target = Frame.target label s.frames >>= fun inner =>
      inner.entry >>= fun state => .ok (.back inner.id label state) := by
    unfold target
    rw [h]
    rfl
  rw [htarget, ht]
  rfl

theorem target_jump {id : NodeId} {label state : String} {ns : Conversation} {inner : Loop}
    (h : s.rest = .jump id label :: ns) (ht : Frame.target label s.frames = .ok inner)
    (he : inner.entry = .ok state) : s.target = .ok (.back inner.id label state) := by
  rw [target_jump_eq_bind h ht, he]
  rfl

theorem target_root (hr : s.rest = []) (hf : s.frames = []) : s.target = .ok .finish := by
  unfold target
  rw [hr, hf]
  rfl

theorem target_par_end {id : NodeId} {state : String} {outer : List Frame} (hr : s.rest = [])
    (hf : s.frames = .par id state :: outer) : s.target = .ok (.join id (joinState state)) := by
  unfold target
  rw [hr, hf]
  rfl

theorem target_loop_end {inner : Loop} {outer : List Frame} (hr : s.rest = [])
    (hf : s.frames = .loop inner :: outer) : s.target = .ok (.loopEnd inner.id inner.label) := by
  unfold target
  rw [hr, hf]
  rfl

theorem target_choice_end {stem : String} {i : Nat} {following : Conversation}
    {outer : List Frame} (hr : s.rest = []) (hf : s.frames = .choice stem i following :: outer) :
    s.target = target ⟨stem, outer, i + 1, following⟩ := by
  unfold target
  rw [hr, hf]
  simp only [Target.enter, Target.firstStep?, Target.leave]

theorem target_of_entryState {label state : String}
    (h : Conversation.entryState label s.stem s.position s.rest = .ok state) :
    ∃ id kind, s.target = .ok (.step id kind state) := by
  obtain ⟨rest, hr⟩ : ∃ rest, s.rest = rest := ⟨_, rfl⟩
  induction rest generalizing s with
  | nil =>
    rw [hr] at h
    simp [Conversation.entryState] at h
  | cons n ns ih =>
    rw [hr] at h
    cases n with
    | call name roles =>
      rw [target_call hr]
      exact ih h rfl
    | message m =>
      cases h
      exact ⟨_, _, target_message hr⟩
    | choice id chooser bs =>
      cases h
      exact ⟨_, _, target_choice hr⟩
    | par id bs =>
      cases h
      exact ⟨_, _, target_par hr⟩
    | loop id inner body => exact ⟨_, _, target_loop hr h⟩
    | jump id inner => simp [Conversation.entryState, Node.entryState] at h

/-- Where a session that enters the stretch comes to stand. -/
def Lands (s : Stretch) (p : Projection) (x : Landing) : Prop :=
  ∃ t, s.target = .ok t ∧ p.landing t = .ok x

theorem Lands.unique {p : Projection} {x x' : Landing} (h : s.Lands p x) (h' : s.Lands p x') :
    x = x' := by
  obtain ⟨t, ht, hx⟩ := h
  obtain ⟨t', ht', hx'⟩ := h'
  obtain rfl : t = t' := Except.ok.inj (ht.symm.trans ht')
  exact Except.ok.inj (hx.symm.trans hx')

theorem lands_iff_of_target_eq {t : Stretch} (h : s.target = t.target) {p : Projection}
    {x : Landing} : s.Lands p x ↔ t.Lands p x := by
  unfold Lands
  rw [h]

theorem lands_iff {t : Target} (h : s.target = .ok t) {p : Projection} {x : Landing} :
    s.Lands p x ↔ p.landing t = .ok x := by
  unfold Lands
  rw [h]
  simp

theorem lands_step {n : Node} {ns : Conversation} (hr : s.rest = n :: ns) (hn : ¬ n.Passed)
    {p : Projection} : s.Lands p (.state s.state) := by
  cases n with
  | message m => exact ⟨_, target_message hr, p.landing_step ..⟩
  | choice id chooser bs => exact ⟨_, target_choice hr, p.landing_step ..⟩
  | par id bs => exact ⟨_, target_par hr, p.landing_step ..⟩
  | loop | jump | call => exact absurd trivial hn

theorem lands_of_entryState {label state : String} {p : Projection}
    (h : Conversation.entryState label s.stem s.position s.rest = .ok state) :
    s.Lands p (.state state) := by
  obtain ⟨id, kind, ht⟩ := target_of_entryState h
  exact ⟨_, ht, p.landing_step id kind state⟩

end Stretch

/-- A jump that has passed its check goes back to where its loop is entered. -/
theorem LocalProtocol.Has.exists_target_jump {l : LocalProtocol} {s : Stretch} (hs : l.Has s)
    (hnodes : ∀ q ∈ l.places, q.checkNode = .ok ())
    (hentry : ∀ {t id label body ns}, l.Has t → t.rest = .loop id label body :: ns →
      ∃ state, (t.loop id label body).entry = .ok state)
    {id : NodeId} {label : String} {ns : Conversation} (hr : s.rest = .jump id label :: ns) :
    ∃ inner outer state, Frame.Binds label s.frames inner outer ∧ inner.entry = .ok state ∧
      s.target = .ok (.back inner.id label state) := by
  obtain ⟨q, hq, hn, rfl, _⟩ := hs.exists_place hr
  have hc := hnodes q hq
  rw [Place.checkNode, hn] at hc
  obtain ⟨inner, ht, _⟩ := map_eq_ok.mp hc
  obtain ⟨outer, hb⟩ := Frame.exists_binds ht
  obtain ⟨t, following, htb, htr, _, hloop⟩ := (hs.of_binds hb rfl).enclosing_loop rfl
  obtain ⟨state, he⟩ := hentry htb htr
  rw [← hloop] at he
  exact ⟨inner, outer, state, hb, he, Stretch.target_jump hr ht he⟩

namespace LocalProtocol.Yields

variable {l : LocalProtocol} {p : Projection} {s : Stretch} {x : Landing}

theorem exists_entry (y : l.Yields p) (hs : l.Has s) {id : NodeId} {label : String}
    {body ns : Conversation} (hr : s.rest = .loop id label body :: ns) :
    ∃ state, (s.loop id label body).entry = .ok state := by
  obtain ⟨r, _, hrec⟩ := y.exists_record hs hr
  have hkind := hrec.kind_eq hr
  cases r <;> cases hkind
  obtain ⟨body', ns', hr', _, _, he, _⟩ := hrec
  have hn := (List.cons.inj (hr.symm.trans hr')).1
  cases hn
  exact ⟨_, he⟩

theorem exists_lands_loop (y : l.Yields p) (hs : l.Has s) {id : NodeId} {label : String}
    {body ns : Conversation} (hr : s.rest = .loop id label body :: ns) :
    ∃ state, s.Lands p (.state state) ∧ (s.inLoop id label body).Lands p (.state state) := by
  obtain ⟨state, he⟩ := y.exists_entry hs hr
  exact ⟨state, ⟨_, Stretch.target_loop hr he, p.landing_step ..⟩,
    Stretch.lands_of_entryState he⟩

theorem exists_target_jump (y : l.Yields p) (hs : l.Has s) {id : NodeId} {label : String}
    {ns : Conversation} (hr : s.rest = .jump id label :: ns) :
    ∃ inner outer state, Frame.Binds label s.frames inner outer ∧ inner.entry = .ok state ∧
      s.target = .ok (.back inner.id label state) := by
  apply hs.exists_target_jump _ _ hr
  · intro q hq
    exact Place.checkNode_of_checkAll y.checked hq
  · intro t id label body ns ht htr
    exact y.exists_entry ht htr

theorem exists_lands_jump (y : l.Yields p) (hs : l.Has s) {id : NodeId} {label : String}
    {ns : Conversation} (hr : s.rest = .jump id label :: ns) :
    ∃ inner outer state, Frame.Binds label s.frames inner outer ∧ inner.entry = .ok state ∧
      s.Lands p (.state state) ∧ (inner.stretch outer).Lands p (.state state) := by
  obtain ⟨inner, outer, state, hb, he, ht⟩ := y.exists_target_jump hs hr
  exact ⟨inner, outer, state, hb, he, ⟨_, ht, p.landing_back ..⟩, Stretch.lands_of_entryState he⟩

theorem lands_loop_end (y : l.Yields p) {inner : Loop} {outer : List Frame} {t : Stretch}
    {following : Conversation} (hr : s.rest = []) (hf : s.frames = .loop inner :: outer)
    (ht : l.Has t) (htr : t.rest = .loop inner.id inner.label inner.body :: following) :
    s.Lands p x ↔ (t.pass following).Lands p x := by
  obtain ⟨u, hu, hl⟩ := y.landing_loopEnd ht htr inner.label
  rw [Stretch.lands_iff (Stretch.target_loop_end hr hf), Stretch.lands_iff hu, hl]

theorem exists_lands (y : l.Yields p) (hs : l.Has s) : ∃ x, s.Lands p x := by
  induction hs using LocalProtocol.Has.walk with
  | step _ hr hn => exact ⟨_, Stretch.lands_step hr hn⟩
  | enter hs hr =>
    obtain ⟨state, hl, _⟩ := y.exists_lands_loop hs hr
    exact ⟨_, hl⟩
  | jump hs hr =>
    obtain ⟨_, _, state, _, _, hl, _⟩ := y.exists_lands_jump hs hr
    exact ⟨_, hl⟩
  | call _ hr ih =>
    obtain ⟨x, hx⟩ := ih
    exact ⟨x, (Stretch.lands_iff_of_target_eq (Stretch.target_call hr)).mpr hx⟩
  | root _ hr hf => exact ⟨_, _, Stretch.target_root hr hf, p.landing_finish⟩
  | par _ hr hf => exact ⟨_, _, Stretch.target_par_end hr hf, p.landing_join ..⟩
  | choice _ hr hf ih =>
    obtain ⟨x, hx⟩ := ih
    exact ⟨x, (Stretch.lands_iff_of_target_eq (Stretch.target_choice_end hr hf)).mpr hx⟩
  | loop hs hr hf ih =>
    obtain ⟨t, following, ht, htr, htf, _⟩ := hs.enclosing_loop hf
    obtain ⟨x, hx⟩ := ih ht htr htf
    exact ⟨x, (y.lands_loop_end hr hf ht htr).mpr hx⟩

end LocalProtocol.Yields

end Parley
