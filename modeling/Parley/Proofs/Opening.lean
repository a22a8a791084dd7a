import Parley.Proofs.Containment
import Parley.Proofs.Signal
import Parley.Proofs.Verified

/-! Which messages are taken for signals. A branch is entered at the first step in it that is not a call,
and if that is a message, it is the signal of the branch. A branch that holds nothing but calls is entered
behind its choice, and then a message there is taken for its signal. So the marks of a projection are those
of the messages that open branches just if no such branch runs on into a message. -/

namespace Parley

open Outcome

/-- The first step of a conversation that is not a call. -/
def Conversation.opening? (c : Conversation) : Option Node := c.find? (·.kind != .call)

/-- The message at which a stretch is entered: calls are passed, and where no step is left the way goes
on behind the choice around the stretch. -/
inductive Stretch.ComesTo (m : Message) : Stretch → Prop where
  | here {s : Stretch} {ns : Conversation} : s.rest = .message m :: ns → ComesTo m s
  | call {s : Stretch} {name : String} {roles : List String} {ns : Conversation} :
      s.rest = .call name roles :: ns → ComesTo m (s.pass ns) → ComesTo m s
  | behind {s : Stretch} {stem : String} {i : Nat} {following : Conversation} {outer : List Frame} :
      s.rest = [] → s.frames = .choice stem i following :: outer →
        ComesTo m ⟨stem, outer, i + 1, following⟩ → ComesTo m s

namespace Stretch

variable {s : Stretch} {m : Message} {n : Node} {ns : Conversation}

theorem comesTo_call {name : String} {roles : List String} (hr : s.rest = .call name roles :: ns) :
    s.ComesTo m ↔ (s.pass ns).ComesTo m := by
  constructor
  · intro h
    cases h with
    | here hr' => cases hr.symm.trans hr'
    | call hr' h =>
      obtain rfl := (List.cons.inj (hr.symm.trans hr')).2
      exact h
    | behind hr' => cases hr.symm.trans hr'
  · exact .call hr

theorem comesTo_step (hr : s.rest = n :: ns) (hn : n.kind ≠ .call) :
    s.ComesTo m ↔ n = .message m := by
  constructor
  · intro h
    cases h with
    | here hr' => exact (List.cons.inj (hr.symm.trans hr')).1
    | call hr' =>
      rw [(List.cons.inj (hr.symm.trans hr')).1] at hn
      exact absurd rfl hn
    | behind hr' => cases hr.symm.trans hr'
  · intro h
    exact .here (h ▸ hr)

theorem comesTo_behind {stem : String} {i : Nat} {following : Conversation} {outer : List Frame}
    (hr : s.rest = []) (hf : s.frames = .choice stem i following :: outer) :
    s.ComesTo m ↔ Stretch.ComesTo m ⟨stem, outer, i + 1, following⟩ := by
  constructor
  · intro h
    cases h with
    | here hr' => cases hr.symm.trans hr'
    | call hr' => cases hr.symm.trans hr'
    | behind _ hf' h =>
      cases hf.symm.trans hf'
      exact h
  · exact .behind hr hf

theorem not_comesTo_end (hr : s.rest = [])
    (hf : ∀ stem i following outer, s.frames ≠ .choice stem i following :: outer) :
    ¬ s.ComesTo m := by
  intro h
  cases h with
  | here hr' => cases hr.symm.trans hr'
  | call hr' => cases hr.symm.trans hr'
  | behind _ hf' => exact hf _ _ _ _ hf'

/-- Where a stretch has a step that is not a call, nothing behind it matters. -/
theorem comesTo_of_opening (h : Conversation.opening? s.rest = some n) :
    s.ComesTo m ↔ n = .message m := by
  obtain ⟨rest, hr⟩ : ∃ rest, s.rest = rest := ⟨_, rfl⟩
  induction rest generalizing s with
  | nil =>
    rw [hr] at h
    cases h
  | cons x xs ih =>
    rw [hr, Conversation.opening?, List.find?_cons] at h
    by_cases hx : x.kind = .call
    · rw [hx] at h
      cases x <;> cases hx
      rw [comesTo_call hr]
      exact ih h rfl
    · have hkind : (x.kind != .call) = true := by simpa using hx
      rw [hkind] at h
      obtain rfl := Option.some.inj h
      exact comesTo_step hr hx

end Stretch

/-- A choice that takes a message for the signal of one of its branches. -/
def ChoiceRecord.Signals (r : ChoiceRecord) (id : NodeId) : Prop :=
  ∃ e ∈ r.branches, ∃ signal, e.signal? = some signal ∧ signal.id = id

namespace LocalProtocol

variable {l : LocalProtocol} {p : Projection} {s t : Stretch} {m : Message}

theorem Has.exists_of_comesTo (hs : l.Has s) (h : s.ComesTo m) :
    ∃ t ns, l.Has t ∧ t.rest = .message m :: ns := by
  induction h with
  | @here s ns hr => exact ⟨s, ns, hs, hr⟩
  | call hr _ ih => exact ih (hs.pass hr)
  | behind _ hf _ ih => exact ih (hs.behind_choice hf)

theorem Has.mem_messages_of_comesTo (hs : l.Has s) (h : s.ComesTo m) : m ∈ l.messages := by
  obtain ⟨t, ns, ht, hr⟩ := hs.exists_of_comesTo h
  obtain ⟨q, hq, hn, _⟩ := ht.exists_place hr
  exact mem_messages_iff.mpr ⟨q, hq, hn⟩

/-- The signal that a message gives. -/
def signalOf (l : LocalProtocol) (m : Message) : Signal := ⟨m.id, m.name, m.sender, l.directionOf m⟩

theorem mem_signals {choices : List ChoiceRecord} {id c : NodeId} :
    (id, c) ∈ signals choices ↔ ∃ r ∈ choices, r.id = c ∧ r.Signals id := by
  simp only [signals, List.mem_flatMap, List.mem_filterMap, Option.map_eq_some_iff,
    ChoiceRecord.Signals, Prod.mk.injEq]
  constructor
  · intro h
    obtain ⟨r, hr, e, he, signal, hsignal, hid, hc⟩ := h
    exact ⟨r, hr, hc, e, he, signal, hsignal, hid⟩
  · intro h
    obtain ⟨r, hr, hc, e, he, signal, hsignal, hid⟩ := h
    exact ⟨r, hr, e, he, signal, hsignal, hid, hc⟩

/-- A message is marked if some choice takes it for a signal, and then with one that does. -/
theorem choiceSignal?_markSignal (choices : List ChoiceRecord) (r : MessageRecord) :
    (∀ c, (markSignal (signals choices) r).choiceSignal? = some c →
      ∃ x ∈ choices, x.id = c ∧ x.Signals r.message.id) ∧
    ((∃ x ∈ choices, x.Signals r.message.id) →
      ∃ c, (markSignal (signals choices) r).choiceSignal? = some c) := by
  unfold markSignal
  simp only [List.findRev?_eq_find?_reverse]
  cases hfound : (signals choices).reverse.find? (·.1 == r.message.id) with
  | none =>
    refine ⟨nofun, ?_⟩
    intro h
    obtain ⟨x, hx, hsignals⟩ := h
    have hmem := List.mem_reverse.mpr (mem_signals.mpr ⟨x, hx, rfl, hsignals⟩)
    have hne := List.find?_eq_none.mp hfound _ hmem
    simp at hne
  | some found =>
    obtain ⟨id, c⟩ := found
    have hid : id = r.message.id := by simpa using List.find?_some hfound
    have hmem := mem_signals.mp (List.mem_reverse.mp (List.mem_of_find?_eq_some hfound))
    rw [hid] at hmem
    refine ⟨?_, fun _ => ⟨c, rfl⟩⟩
    intro c' hc
    obtain rfl : c = c' := Option.some.inj hc
    exact hmem

namespace Yields

variable (y : l.Yields p)

include y

/-- A stretch is entered at a message just if it comes to that message. -/
theorem target_message_iff (hs : l.Has s) {id : NodeId} :
    (∃ state, s.target = .ok (.step id .message state)) ↔ ∃ m, s.ComesTo m ∧ m.id = id := by
  induction hs using LocalProtocol.Has.walk with
  | @step s n ns hs hr hn =>
    have hcall : n.kind ≠ .call := by
      intro hk
      cases n <;> cases hk
      exact hn trivial
    simp only [Stretch.comesTo_step hr hcall]
    cases n with
    | message m =>
      rw [Stretch.target_message hr]
      simp
    | choice => rw [Stretch.target_choice hr]; simp
    | par => rw [Stretch.target_par hr]; simp
    | loop | jump | call => exact absurd trivial hn
  | enter hs hr =>
    obtain ⟨state, he⟩ := y.exists_entry hs hr
    rw [Stretch.target_loop hr he]
    simp [Stretch.comesTo_step hr nofun]
  | jump hs hr =>
    obtain ⟨_, _, _, _, _, htarget⟩ := y.exists_target_jump hs hr
    rw [htarget]
    simp [Stretch.comesTo_step hr nofun]
  | call _ hr ih =>
    rw [Stretch.target_call hr]
    simpa only [Stretch.comesTo_call hr] using ih
  | root _ hr hf =>
    rw [Stretch.target_root hr hf]
    simp [Stretch.not_comesTo_end hr (by simp [hf])]
  | par _ hr hf =>
    rw [Stretch.target_par_end hr hf]
    simp [Stretch.not_comesTo_end hr (by simp [hf])]
  | choice _ hr hf ih =>
    rw [Stretch.target_choice_end hr hf]
    simpa only [Stretch.comesTo_behind hr hf] using ih
  | loop _ hr hf =>
    rw [Stretch.target_loop_end hr hf]
    simp [Stretch.not_comesTo_end hr (by simp [hf])]

theorem find?_message (hm : m ∈ l.messages) : l.messages.find? (·.id == m.id) = some m := by
  cases hfound : l.messages.find? (·.id == m.id) with
  | none =>
    have hne := List.find?_eq_none.mp hfound m hm
    simp at hne
  | some m' =>
    have hid : m'.id = m.id := by simpa using List.find?_some hfound
    rw [y.message_eq_of_id_eq (List.mem_of_find?_eq_some hfound) hm hid]

theorem signal?_eq_some_iff (hs : l.Has s) {t : Target} (ht : s.target = .ok t) {signal : Signal} :
    l.signal? l.messages t = some signal ↔ ∃ m, s.ComesTo m ∧ signal = l.signalOf m := by
  constructor
  · intro h
    cases t with
    | step id kind state =>
      cases kind with
      | message =>
        obtain ⟨m, hfound, rfl⟩ := Option.map_eq_some_iff.mp h
        obtain ⟨m', hm', hid'⟩ := (y.target_message_iff hs).mp ⟨state, ht⟩
        have hid : m.id = id := by simpa using List.find?_some hfound
        obtain rfl : m = m' := y.message_eq_of_id_eq (List.mem_of_find?_eq_some hfound)
          (hs.mem_messages_of_comesTo hm') (hid.trans hid'.symm)
        exact ⟨m, hm', rfl⟩
      | choice | par | loop | call | jump => cases h
    | back | loopEnd | join | finish => cases h
  · intro h
    obtain ⟨m, hm, rfl⟩ := h
    obtain ⟨state, hstate⟩ := (y.target_message_iff hs).mpr ⟨m, hm, rfl⟩
    obtain rfl := Except.ok.inj (ht.symm.trans hstate)
    rw [LocalProtocol.signal?, y.find?_message (hs.mem_messages_of_comesTo hm)]
    rfl

/-- A message opens the branches of one choice at most. -/
theorem choice_eq_of_opening (hs : l.Has s) {id id' : NodeId} {chooser chooser' : String}
    {bs bs' : List Conversation} {ns ns' b b' : Conversation}
    (hr : s.rest = .choice id chooser bs :: ns) (hb : b ∈ bs)
    (hm : Conversation.opening? b = some (.message m)) (ht : l.Has t)
    (hr' : t.rest = .choice id' chooser' bs' :: ns') (hb' : b' ∈ bs')
    (hm' : Conversation.opening? b' = some (.message m)) : id = id' := by
  obtain ⟨k, hk⟩ := List.mem_iff_getElem?.mp hb
  obtain ⟨k', hk'⟩ := List.mem_iff_getElem?.mp hb'
  obtain ⟨calls, rest, rfl⟩ := List.append_of_mem (List.mem_of_find?_eq_some hm)
  obtain ⟨calls', rest', rfl⟩ := List.append_of_mem (List.mem_of_find?_eq_some hm')
  have heq := y.stretch_eq_of_id_eq ((hs.choice hr hk).drop rfl) rfl ((ht.choice hr' hk').drop rfl) rfl
    rfl rfl
  -- both branches lie in the frame of one choice, whose state names it
  have hframes := (Stretch.mk.inj heq).2.1
  simp only [Stretch.inChoice, List.cons.injEq, Frame.choice.injEq] at hframes
  have hstate : s.state = t.state := by
    rw [Stretch.state, Stretch.state, hframes.1.1, hframes.1.2.1]
  obtain rfl := hs.eq_of_state_eq ht hr hr' hstate
  cases (List.cons.inj (hr.symm.trans hr')).1
  rfl

end Yields

/-- How a projection marks signals. The signal of a branch is the message that the branch comes to, be it
in the branch or behind the choice, and a message that branches come to is marked with one of their
choices. -/
structure Marks (l : LocalProtocol) (p : Projection) : Prop where
  branches : ∀ r ∈ p.choices, ∃ s bs ns, l.Has s ∧ s.rest = .choice r.id r.chooser bs :: ns ∧
    r.branches.length = bs.length ∧ ∀ k b e, bs[k]? = some b → r.branches[k]? = some e →
      ∀ signal, e.signal? = some signal ↔
        ∃ m, (s.inChoice ns k b).ComesTo m ∧ signal = l.signalOf m
  messages : ∀ r ∈ p.messages,
    (∀ c, r.choiceSignal? = some c → ∃ x ∈ p.choices, x.id = c ∧ x.Signals r.message.id) ∧
      ((∃ x ∈ p.choices, x.Signals r.message.id) → ∃ c, r.choiceSignal? = some c)

/-- A projection whose marks are those of the messages that open branches. -/
structure Signalled (l : LocalProtocol) (p : Projection) : Prop where
  /-- A branch has a signal if it opens with a message, and then that of the message. -/
  branches : ∀ r ∈ p.choices, ∃ bs, Conversation.Contains l.conversation (.choice r.id r.chooser bs) ∧
    List.Forall₂ (fun b (e : ChoiceBranch) => ∀ signal, e.signal? = some signal ↔
      ∃ m, Conversation.opening? b = some (.message m) ∧ signal = l.signalOf m) bs r.branches
  /-- A message is marked with a choice if it opens one of the branches of the choice. -/
  messages : ∀ r ∈ p.messages, ∀ c, r.choiceSignal? = some c ↔
    ∃ chooser bs, Conversation.Contains l.conversation (.choice c chooser bs) ∧
      ∃ b ∈ bs, Conversation.opening? b = some (.message r.message)

/-- No branch that holds nothing but calls runs on into a message. -/
def Decisive (l : LocalProtocol) : Prop :=
  ∀ s id chooser bs ns k b, l.Has s → s.rest = .choice id chooser bs :: ns → bs[k]? = some b →
    Conversation.opening? b = none → ∀ m, ¬ (s.inChoice ns k b).ComesTo m

theorem Yields.marks (y : l.Yields p) : l.Marks p := by
  constructor
  · intro r hr
    obtain ⟨s, hs, bs, ns, hrest, _, _, _, _, hlen, hall⟩ := y.exists_stretch (r := .choice r) hr
    refine ⟨s, bs, ns, hs, hrest, hlen, ?_⟩
    intro k b e hb he signal
    obtain ⟨_, hentry, hsignal⟩ := hall k b e hb he
    rw [hsignal]
    exact y.signal?_eq_some_iff (hs.choice hrest hb) hentry
  · intro r hr
    rw [y.messages] at hr
    obtain ⟨r₀, _, rfl⟩ := List.mem_map.mp hr
    exact choiceSignal?_markSignal p.choices r₀

theorem Has.contains (hs : l.Has s) {n : Node} {ns : Conversation} (hr : s.rest = n :: ns) :
    Conversation.Contains l.conversation n :=
  Conversation.contains_iff_mem_preorder.mpr (hs.mem_preorder hr)

theorem exists_has_of_contains {n : Node} (h : Conversation.Contains l.conversation n) :
    ∃ s ns, l.Has s ∧ s.rest = n :: ns := by
  obtain ⟨q, hq, rfl⟩ := mem_preorder_iff.mp h.mem_preorder
  exact ⟨q.stretch, q.following, l.has_of_mem_places hq, rfl⟩

/-- In a decisive conversation a branch comes to a message just if it opens with it. -/
theorem Decisive.comesTo_iff (h : l.Decisive) (hs : l.Has s) {id : NodeId} {chooser : String}
    {bs : List Conversation} {ns b : Conversation} {k : Nat}
    (hr : s.rest = .choice id chooser bs :: ns) (hb : bs[k]? = some b) :
    (s.inChoice ns k b).ComesTo m ↔ Conversation.opening? b = some (.message m) := by
  cases hopen : Conversation.opening? b with
  | none => simp [h s id chooser bs ns k b hs hr hb hopen m]
  | some n =>
    rw [Stretch.comesTo_of_opening (s := s.inChoice ns k b) hopen, Option.some.injEq]

/-- In a decisive conversation a choice takes a message for a signal just if the message opens one of its
branches. -/
theorem Decisive.signals_iff (h : l.Decisive) (y : l.Yields p) {r : ChoiceRecord} (hr : r ∈ p.choices)
    (hm : m ∈ l.messages) : r.Signals m.id ↔ ∃ s bs ns, l.Has s ∧
      s.rest = .choice r.id r.chooser bs :: ns ∧
        ∃ b ∈ bs, Conversation.opening? b = some (.message m) := by
  obtain ⟨s, bs, ns, hs, hrest, hlen, hall⟩ := y.marks.branches r hr
  constructor
  · intro hsignals
    obtain ⟨e, he, signal, hsignal, hid⟩ := hsignals
    obtain ⟨k, hk⟩ := List.mem_iff_getElem?.mp he
    obtain ⟨b, hb⟩ := exists_getElem?_of_length_eq hlen hk
    obtain ⟨m', hcomes, rfl⟩ := (hall k b e hb hk signal).mp hsignal
    obtain rfl := y.message_eq_of_id_eq ((hs.choice hrest hb).mem_messages_of_comesTo hcomes) hm hid
    exact ⟨s, bs, ns, hs, hrest, b, List.mem_of_getElem? hb, (h.comesTo_iff hs hrest hb).mp hcomes⟩
  · intro hopens
    obtain ⟨t, cs, ms, ht, hrest', b, hb, hopen⟩ := hopens
    obtain rfl := y.stretch_eq_of_id_eq hs hrest ht hrest' rfl rfl
    obtain ⟨hnode, rfl⟩ := List.cons.inj (hrest.symm.trans hrest')
    cases hnode
    obtain ⟨k, hk⟩ := List.mem_iff_getElem?.mp hb
    obtain ⟨e, he⟩ := exists_getElem?_of_length_eq hlen.symm hk
    refine ⟨e, List.mem_of_getElem? he, l.signalOf m, ?_, rfl⟩
    exact (hall k b e hk he _).mpr ⟨m, (h.comesTo_iff hs hrest hk).mpr hopen, rfl⟩

theorem Yields.exists_choice_record (y : l.Yields p) (hs : l.Has s) {id : NodeId} {chooser : String}
    {bs : List Conversation} {ns : Conversation} (hr : s.rest = .choice id chooser bs :: ns) :
    ∃ r ∈ p.choices, r.id = id ∧ r.chooser = chooser := by
  obtain ⟨x, hx, hrec⟩ := y.exists_record hs hr
  have hkind := hrec.kind_eq hr
  cases x <;> cases hkind
  rename_i r
  obtain ⟨_, _, hr', _⟩ := hrec
  cases (List.cons.inj (hr.symm.trans hr')).1
  exact ⟨r, hx, rfl, rfl⟩

theorem Decisive.signalled (h : l.Decisive) (y : l.Yields p) : l.Signalled p := by
  constructor
  · intro r hr
    obtain ⟨s, bs, ns, hs, hrest, hlen, hall⟩ := y.marks.branches r hr
    refine ⟨bs, hs.contains hrest, List.forall₂_iff_get.mpr ⟨hlen.symm, ?_⟩⟩
    intro k hk hk' signal
    have hb : bs[k]? = some (bs.get ⟨k, hk⟩) := List.getElem?_eq_getElem hk
    have he : r.branches[k]? = some (r.branches.get ⟨k, hk'⟩) := List.getElem?_eq_getElem hk'
    rw [hall k _ _ hb he signal]
    simp only [h.comesTo_iff hs hrest hb]
  · intro r hr c
    obtain ⟨hmarked, hunmarked⟩ := y.marks.messages r hr
    have hm : r.message ∈ l.messages := by
      obtain ⟨s, hs, ns, hrest, _⟩ := y.exists_stretch (r := .message r) hr
      exact hs.mem_messages_of_comesTo (.here hrest)
    constructor
    · intro hc
      obtain ⟨x, hx, rfl, hsignals⟩ := hmarked c hc
      obtain ⟨s, bs, ns, hs, hrest, b, hb, hopen⟩ := (h.signals_iff y hx hm).mp hsignals
      exact ⟨x.chooser, bs, hs.contains hrest, b, hb, hopen⟩
    · intro hopens
      obtain ⟨chooser, bs, hcontains, b, hb, hopen⟩ := hopens
      obtain ⟨s, ns, hs, hrest⟩ := exists_has_of_contains hcontains
      obtain ⟨x, hx, rfl, rfl⟩ := y.exists_choice_record hs hrest
      have hsignals := (h.signals_iff y hx hm).mpr ⟨s, bs, ns, hs, hrest, b, hb, hopen⟩
      -- the mark is that of some choice that the message opens, and there is only one
      obtain ⟨c, hc⟩ := hunmarked ⟨x, hx, hsignals⟩
      obtain ⟨x', hx', rfl, hsignals'⟩ := hmarked c hc
      obtain ⟨t, bs', ns', ht, hrest', b', hb', hopen'⟩ := (h.signals_iff y hx' hm).mp hsignals'
      rw [y.choice_eq_of_opening hs hrest hb hopen ht hrest' hb' hopen']
      exact hc

theorem Signalled.decisive (h : l.Signalled p) (y : l.Yields p) : l.Decisive := by
  intro s id chooser bs ns k b hs hrest hb hopen m hcomes
  obtain ⟨r, hr, rfl, rfl⟩ := y.exists_choice_record hs hrest
  obtain ⟨cs, hcontains, hall⟩ := h.branches r hr
  obtain ⟨t, ms, ht, hrest'⟩ := exists_has_of_contains hcontains
  obtain rfl := y.stretch_eq_of_id_eq hs hrest ht hrest' rfl rfl
  cases (List.cons.inj (hrest.symm.trans hrest')).1
  obtain ⟨u, ds, us, hu, hrest'', hlen, hmarks⟩ := y.marks.branches r hr
  obtain rfl := y.stretch_eq_of_id_eq hs hrest hu hrest'' rfl rfl
  obtain ⟨hnode, rfl⟩ := List.cons.inj (hrest.symm.trans hrest'')
  cases hnode
  obtain ⟨e, he⟩ := exists_getElem?_of_length_eq hlen.symm hb
  have hsignal := (hmarks k b e hb he _).mpr ⟨m, hcomes, rfl⟩
  obtain ⟨m', hopens, _⟩ := (getElem?_of_forall₂ hall hb he _).mp hsignal
  rw [hopen] at hopens
  cases hopens

/-- The marks of a projection are those of the messages that open branches just if no branch of calls
alone runs on into a message; in any case they are those of the messages that branches come to. -/
theorem signalled_iff_decisive {moduleName? : Option String} {types : List TypeImport}
    (h : l.project moduleName? types = .ok p) : l.Marks p ∧ (l.Signalled p ↔ l.Decisive) := by
  have y := yields_of_project_eq_ok h
  exact ⟨y.marks, fun hs => hs.decisive y, fun hd => hd.signalled y⟩

end LocalProtocol

/-- A walk with a choice of which nothing is seen in one branch before the way home. -/
def detour : LocalProtocol where
  name := "Walk"
  protagonist := "Ann"
  roles := ["Ann", "Bob"]
  conversation :=
    [.choice ⟨"Walk", "choice", 0⟩ "Ann"
      [[.call "Rest" ["Ann"], .message ⟨⟨"Walk", "left", 1⟩, "left", "Ann", "Bob", []⟩], []],
     .message ⟨⟨"Walk", "home", 2⟩, "home", "Ann", "Bob", []⟩]

/-- The same walk when it ends with the choice. -/
def stroll : LocalProtocol := { detour with conversation := detour.conversation.take 1 }

theorem stroll_signalled_iff_decisive : ∃ p, stroll.project none [] = .ok p ∧
    p.messages.map (·.choiceSignal?) = [some ⟨"Walk", "choice", 0⟩] ∧ stroll.Marks p ∧
      (stroll.Signalled p ↔ stroll.Decisive) ∧ stroll.Decisive := by
  have hok : ((stroll.project none []).toOption.any fun p =>
      p.messages.map (·.choiceSignal?) == [some ⟨"Walk", "choice", 0⟩]) = true := by
    decide +kernel
  have hdecisive : stroll.Decisive := by
    intro s id chooser bs ns k b hs hr hb hopen m
    obtain ⟨q, hq, hn, rfl, _⟩ := hs.exists_place hr
    simp only [LocalProtocol.places, stroll, detour, List.take_succ_cons, List.take_zero,
      Conversation.places, Node.placesWithin, branchPlaces, List.append_nil, List.nil_append,
      List.mem_cons, List.not_mem_nil, or_false] at hq
    rcases hq with rfl | rfl | rfl <;> cases hn
    obtain rfl := (List.cons.inj hr).2
    rcases k with _ | _ | k
    · cases hb
      cases hopen
    · cases hb
      rw [Stretch.comesTo_behind rfl rfl]
      exact Stretch.not_comesTo_end rfl nofun
    · cases hb
  obtain ⟨p, hp, hmarks⟩ := exists_ok_of_any hok
  obtain ⟨hall, hiff⟩ := LocalProtocol.signalled_iff_decisive hp
  exact ⟨p, hp, eq_of_beq hmarks, hall, hiff, hdecisive⟩

/-- The message behind the choice of a detour opens no branch, and is marked all the same. -/
theorem detour_not_signalled : ∃ p, detour.project none [] = .ok p ∧ ¬ detour.Signalled p := by
  have hok : ((detour.project none []).toOption.any fun p => p.messages.any fun r =>
      r.message == ⟨⟨"Walk", "home", 2⟩, "home", "Ann", "Bob", []⟩ &&
        r.choiceSignal? == some ⟨"Walk", "choice", 0⟩) = true := by
    decide +kernel
  obtain ⟨p, hp, hany⟩ := exists_ok_of_any hok
  refine ⟨p, hp, ?_⟩
  intro h
  obtain ⟨r, hr, hmark⟩ := List.any_eq_true.mp hany
  simp only [Bool.and_eq_true, beq_iff_eq] at hmark
  obtain ⟨chooser, bs, hcontains, b, hb, hopen⟩ := (h.messages r hr _).mp hmark.2
  have hnode := Conversation.contains_iff_mem_preorder.mp hcontains
  rw [hmark.1] at hopen
  simp only [detour, Conversation.preorder, Node.preorder, branchesPreorder, List.append_nil,
    List.cons_append, List.nil_append, List.mem_cons, Node.choice.injEq, true_and, reduceCtorEq,
    List.not_mem_nil, or_self, or_false] at hnode
  obtain ⟨rfl, rfl⟩ := hnode
  simp only [List.mem_cons, List.not_mem_nil, or_false] at hb
  rcases hb with rfl | rfl
  · simp [Conversation.opening?, Node.kind] at hopen
  · simp [Conversation.opening?] at hopen

end Parley
