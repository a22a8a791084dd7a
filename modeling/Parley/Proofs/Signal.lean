import Parley.Api.Source
import Parley.Proofs.Declared

/-! How an observer tells the branches of a choice apart. Once a role has a source, each branch that
it has to observe begins with a message from the chooser, and no two of these messages share a name. -/

namespace Parley

open Outcome

/-- What the input can be at fault for when no source is generated for a role. -/
def ApiError.OfNames : ApiError → Prop
  | .variantClash .. => True
  | .noSignal .. => True
  | .signalTwice .. => True
  | .branchClash .. => True
  | .notIdentifier _ => True
  | _ => False

namespace Api

/-- The branch begins with a message that is received from the chooser. -/
def Begins (r : ChoiceRecord) (b : ChoiceBranch) (s : Signal) : Prop :=
  b.signal? = some s ∧ s.direction = .receive ∧ s.sender = r.chooser

/-- Each branch begins with a message from the chooser, and these messages go by different names, none
of them that of a label before. -/
def ToldApart (r : ChoiceRecord) (labels : List String) (bs : List ChoiceBranch) : Prop :=
  ∃ signals, List.Forall₂ (Begins r) bs signals ∧
    ((labels ++ signals.map (·.label)).map Text.pascalCase).Nodup

section ToldApart

variable {r : ChoiceRecord} {labels : List String} {b : ChoiceBranch} {bs : List ChoiceBranch}
  {s : Signal}

theorem toldApart_cons (hs : Begins r b s) :
    ToldApart r labels (b :: bs) ↔ ToldApart r (labels ++ [s.label]) bs := by
  constructor
  · intro h
    obtain ⟨signals, hall, hnodup⟩ := h
    cases hall with
    | @cons _ s' _ rest hs' hrest =>
      obtain rfl := Option.some.inj (hs'.1.symm.trans hs.1)
      refine ⟨rest, hrest, ?_⟩
      rwa [List.append_assoc]
  · intro h
    obtain ⟨rest, hrest, hnodup⟩ := h
    refine ⟨s :: rest, .cons hs hrest, ?_⟩
    rwa [List.append_assoc] at hnodup

theorem ToldApart.nodup (h : ToldApart r labels bs) : (labels.map Text.pascalCase).Nodup := by
  obtain ⟨signals, _, hnodup⟩ := h
  rw [List.map_append] at hnodup
  exact hnodup.of_append_left

/-- The labels of the branches are found just if they tell the branches apart, and then stand in the
order of the branches. -/
theorem observedLabels_cases (hlabels : (labels.map Text.pascalCase).Nodup) :
    (∃ signals, List.Forall₂ (Begins r) bs signals ∧
      ((labels ++ signals.map (·.label)).map Text.pascalCase).Nodup ∧
      observedLabels r labels bs = .ok (labels ++ signals.map (·.label))) ∨
    (¬ ToldApart r labels bs ∧ ∃ e, observedLabels r labels bs = .error e ∧ e.OfNames) := by
  induction bs generalizing labels with
  | nil =>
    refine .inl ⟨[], .nil, ?_, ?_⟩
    · rwa [List.map_nil, List.append_nil]
    · rw [observedLabels, List.map_nil, List.append_nil]
  | cons b bs ih =>
    rw [observedLabels]
    cases hsignal : b.signal?.filter fun s => s.direction == .receive && s.sender == r.chooser with
    | none =>
      refine .inr ⟨?_, _, rfl, trivial⟩
      intro h
      obtain ⟨signals, hall, _⟩ := h
      cases hall with
      | @cons _ s _ _ hs _ =>
        have hnone := Option.filter_eq_none_iff.mp hsignal s hs.1
        simp [hs.2] at hnone
    | some s =>
      obtain ⟨hsome, htest⟩ := Option.filter_eq_some_iff.mp hsignal
      simp only [Bool.and_eq_true, beq_iff_eq] at htest
      have hbegins : Begins r b s := ⟨hsome, htest⟩
      have hclash (hmem : Text.pascalCase s.label ∈ labels.map Text.pascalCase) :
          ¬ ToldApart r labels (b :: bs) := by
        intro h
        have hnodup := ((toldApart_cons hbegins).mp h).nodup
        rw [List.map_append] at hnodup
        exact List.disjoint_of_nodup_append hnodup hmem List.mem_cons_self
      dsimp only
      by_cases htwice : labels.contains s.label = true
      · rw [if_pos htwice]
        refine .inr ⟨hclash ?_, _, rfl, trivial⟩
        exact List.mem_map_of_mem (List.contains_iff_mem.mp htwice)
      rw [if_neg htwice]
      cases hfound : labels.find? fun l => Text.pascalCase l == Text.pascalCase s.label with
      | some l =>
        refine .inr ⟨hclash ?_, _, rfl, trivial⟩
        have hname : Text.pascalCase l = Text.pascalCase s.label := by
          simpa using List.find?_some hfound
        exact List.mem_map.mpr ⟨l, List.mem_of_find?_eq_some hfound, hname⟩
      | none =>
        have hfresh : Text.pascalCase s.label ∉ labels.map Text.pascalCase := by
          intro hmem
          obtain ⟨l, hl, hname⟩ := List.mem_map.mp hmem
          have hne := List.find?_eq_none.mp hfound l hl
          simp [hname] at hne
        have hnext : ((labels ++ [s.label]).map Text.pascalCase).Nodup := by
          rw [List.map_append]
          exact hlabels.append (List.nodup_singleton _) (List.disjoint_singleton.mpr hfresh)
        rcases ih hnext with ⟨signals, hall, hnodup, hok⟩ | ⟨hnot, e, he, hknown⟩
        · rw [List.append_assoc] at hnodup hok
          exact .inl ⟨s :: signals, .cons hbegins hall, hnodup, hok⟩
        · exact .inr ⟨fun h => hnot ((toldApart_cons hbegins).mp h), e, he, hknown⟩

theorem signals_of_observedLabels (h : observedLabels r [] bs = .ok labels) :
    ∃ signals, List.Forall₂ (Begins r) bs signals ∧ labels = signals.map (·.label) ∧
      (labels.map Text.pascalCase).Nodup := by
  have hnil : (([] : List String).map Text.pascalCase).Nodup := List.nodup_nil
  rcases observedLabels_cases hnil with ⟨signals, hall, hnodup, hok⟩ | ⟨_, e, he, _⟩
  · obtain rfl := Except.ok.inj (h.symm.trans hok)
    exact ⟨signals, hall, rfl, hnodup⟩
  · cases h.symm.trans he

end ToldApart

end Api

/-- A role has items only if it can observe all choices of others. -/
theorem Api.exists_observedLabels_of_roleItems {p : Projection} {vs : List Variant}
    {items : List Paragraph} (h : roleItems p vs = .ok items) {r : ChoiceRecord} (hr : r ∈ p.choices)
    (hrole : r.role = .observer) : ∃ labels, observedLabels r [] r.branches = .ok labels := by
  obtain ⟨_, _, h⟩ := bind_eq_ok.mp h
  obtain ⟨_, _, h⟩ := bind_eq_ok.mp h
  obtain ⟨choices, hchoices, _⟩ := bind_eq_ok.mp h
  obtain ⟨item, _, hitem⟩ := exists_ok_of_mapM_eq_ok hchoices hr
  rw [choiceItems, hrole] at hitem
  obtain ⟨labels, hlabels, _⟩ := bind_eq_ok.mp hitem
  exact ⟨labels, hlabels⟩

theorem Api.exists_observedLabels {o : Options} {p : Projection} {source : String}
    (h : single o p = .ok source) {r : ChoiceRecord} (hr : r ∈ p.choices)
    (hrole : r.role = .observer) : ∃ labels, observedLabels r [] r.branches = .ok labels := by
  obtain ⟨vs, _, h⟩ := bind_eq_ok.mp h
  obtain ⟨items, hitems, _⟩ := bind_eq_ok.mp h
  exact exists_observedLabels_of_roleItems hitems hr hrole

namespace LocalProtocol.Yields

variable {l : LocalProtocol} {p : Projection} {s : Stretch}

theorem exists_of_target_message (y : l.Yields p) (hs : l.Has s) {id : NodeId} {state : String}
    (h : s.target = .ok (.step id .message state)) :
    ∃ t m ns, l.Has t ∧ t.rest = .message m :: ns ∧ t.state = state ∧ m.id = id := by
  induction hs using LocalProtocol.Has.walk with
  | @step s n ns hs hr hn =>
    cases n with
    | message m =>
      rw [Stretch.target_message hr] at h
      cases h
      exact ⟨s, m, ns, hs, hr, rfl, rfl⟩
    | choice => rw [Stretch.target_choice hr] at h; cases h
    | par => rw [Stretch.target_par hr] at h; cases h
    | loop | jump | call => exact absurd trivial hn
  | enter hs hr =>
    obtain ⟨state, he⟩ := y.exists_entry hs hr
    rw [Stretch.target_loop hr he] at h
    cases h
  | jump _ hr =>
    unfold Stretch.target at h
    rw [hr] at h
    obtain ⟨_, _, h⟩ := bind_eq_ok.mp h
    obtain ⟨_, _, h⟩ := bind_eq_ok.mp h
    cases pure_eq_ok.mp h
  | call _ hr ih =>
    rw [Stretch.target_call hr] at h
    exact ih h
  | root _ hr hf => rw [Stretch.target_root hr hf] at h; cases h
  | par _ hr hf => rw [Stretch.target_par_end hr hf] at h; cases h
  | choice _ hr hf ih =>
    rw [Stretch.target_choice_end hr hf] at h
    exact ih h
  | loop _ hr hf => rw [Stretch.target_loop_end hr hf] at h; cases h

theorem exists_signal_record (y : l.Yields p) {r : ChoiceRecord} (hr : r ∈ p.choices) {k : Nat}
    {b : ChoiceBranch} (hb : r.branches[k]? = some b) {signal : Signal}
    (hsignal : b.signal? = some signal) : ∃ m ∈ p.messages,
      p.landing b.entry = .ok (.state m.state) ∧ m.message.sender = signal.sender ∧
        m.message.name = signal.label := by
  obtain ⟨s, hs, bs, ns, hrest, _, _, _, _, hlen, hall⟩ := y.exists_stretch (r := .choice r) hr
  obtain ⟨c, hc⟩ := exists_getElem?_of_length_eq hlen hb
  obtain ⟨_, hentry, hsig⟩ := hall k c b hc hb
  rw [hsig] at hsignal
  -- only a message step carries a signal, and its identifier finds the message
  cases he : b.entry with
  | step id kind state =>
    cases kind <;> rw [he] at hsignal
    case message =>
      obtain ⟨m, hfind, hm⟩ := Option.map_eq_some_iff.mp hsignal
      obtain ⟨t, m', ns', ht, htr, hstate, hid⟩ :=
        y.exists_of_target_message (hs.choice hrest hc) (hentry.trans (congrArg _ he))
      obtain ⟨q, hq, hn, _⟩ := ht.exists_place htr
      have hmid : m.id = id := by simpa using List.find?_some hfind
      obtain rfl : m = m' := y.message_eq_of_id_eq (List.mem_of_find?_eq_some hfind)
        (mem_messages_iff.mpr ⟨q, hq, hn⟩) (hmid.trans hid.symm)
      obtain ⟨r', hmem, hrec⟩ := y.exists_record ht htr
      have hkind := hrec.kind_eq htr
      cases r' <;> cases hkind
      rename_i r'
      obtain ⟨_, htr', hstate', _⟩ := hrec
      cases (List.cons.inj (htr.symm.trans htr')).1
      cases hm
      exact ⟨r', hmem, by rw [p.landing_step, hstate', hstate], rfl, rfl⟩
    all_goals cases hsignal
  | back | loopEnd | join | finish =>
    rw [he] at hsignal
    cases hsignal

end LocalProtocol.Yields

end Parley
