import Parley.Projection
import Parley.Proofs.Outcome
import Parley.Proofs.StateName
import Parley.Proofs.Stretch

/-! What a projection says of the local protocol it comes from: each record belongs to the stretch
that begins with its step, with the targets of the stretches that the step leads to, and each such
stretch has its record. -/

namespace Parley

open Outcome

namespace Place

theorem checkAll_cons {seen : List NodeId} {p : Place} {ps : List Place}
    (h : checkAll seen (p :: ps) = .ok ()) :
    p.checkReached = .ok () ∧ p.checkNode = .ok () ∧ (∀ id, p.node.id? = some id → id ∉ seen) ∧
      checkAll (p.node.id?.toList ++ seen) ps = .ok () := by
  rw [checkAll, bind_eq_ok] at h
  obtain ⟨_, hr, h⟩ := h
  cases hid : p.node.id? with
  | none =>
    rw [hid] at h
    obtain ⟨_, hn, h⟩ := bind_eq_ok.mp h
    exact ⟨hr, hn, by simp, h⟩
  | some id =>
    rw [hid] at h
    by_cases hs : seen.contains id = true
    · simp only [hs] at h
      obtain ⟨_, ht, _⟩ := bind_eq_ok.mp h
      exact absurd ht throw_ne_ok
    · simp only [hs] at h
      obtain ⟨_, hn, h⟩ := bind_eq_ok.mp h
      refine ⟨hr, hn, ?_, h⟩
      rintro i ⟨rfl⟩
      simpa using hs

theorem checkAll_ids {seen : List NodeId} {ps : List Place} (h : checkAll seen ps = .ok ()) :
    (ps.filterMap (·.node.id?)).Nodup ∧ ∀ id ∈ ps.filterMap (·.node.id?), id ∉ seen := by
  induction ps generalizing seen with
  | nil => simp
  | cons p ps ih =>
    obtain ⟨_, _, hnew, h⟩ := checkAll_cons h
    obtain ⟨hn, hd⟩ := ih h
    cases hid : p.node.id? with
    | none =>
      rw [hid] at hd
      rw [List.filterMap_cons_none (by exact hid)]
      exact ⟨hn, hd⟩
    | some id =>
      rw [hid] at hd
      rw [List.filterMap_cons_some (by exact hid)]
      refine ⟨List.nodup_cons.mpr ⟨fun hm => hd id hm List.mem_cons_self, hn⟩, ?_⟩
      intro i hi
      rcases List.mem_cons.mp hi with rfl | hi
      · exact hnew i hid
      · exact fun hm => hd i hi (List.mem_cons_of_mem _ hm)

theorem checkNode_of_checkAll {seen : List NodeId} {ps : List Place}
    (h : checkAll seen ps = .ok ()) {p : Place} (hp : p ∈ ps) : p.checkNode = .ok () := by
  induction ps generalizing seen with
  | nil => simp at hp
  | cons q ps ih =>
    obtain ⟨_, hn, _, h⟩ := checkAll_cons h
    rcases List.mem_cons.mp hp with rfl | hp
    · exact hn
    · exact ih h hp

theorem choiceEntries_eq_ok {p : Place} {i : Nat} {bs : List Conversation}
    {es : List (Nat × Target)} (h : p.choiceEntries i bs = .ok es) :
    es.length = bs.length ∧ ∀ k b e, bs[k]? = some b → es[k]? = some e → e.1 = i + k ∧
      Target.enter (branchStem p.state choiceTag (i + k))
        (.choice p.stem p.position p.following :: p.frames) 1 b = .ok e.2 := by
  induction bs generalizing i es with
  | nil =>
    cases h
    simp
  | cons b bs ih =>
    rw [choiceEntries, bind_eq_ok] at h
    obtain ⟨t, ht, h⟩ := h
    obtain ⟨es', hes, h⟩ := bind_eq_ok.mp h
    obtain rfl := pure_eq_ok.mp h
    obtain ⟨hlen, hall⟩ := ih hes
    refine ⟨by simp [hlen], ?_⟩
    intro k c e hc he
    cases k with
    | zero =>
      obtain rfl : b = c := by simpa using hc
      obtain rfl : (i, t) = e := by simpa using he
      exact ⟨rfl, ht⟩
    | succ k =>
      have := hall k c e (by simpa using hc) (by simpa using he)
      rwa [show i + 1 + k = i + (k + 1) by omega] at this

theorem parBranches_eq_ok {p : Place} {id : NodeId} {i : Nat} {bs : List Conversation}
    {ts : List Target} (h : p.parBranches id i bs = .ok ts) :
    ts.length = bs.length ∧ ∀ k b t, bs[k]? = some b → ts[k]? = some t →
      Target.enter (branchStem p.state parTag (i + k)) (.par id p.state :: p.frames) 1 b = .ok t := by
  induction bs generalizing i ts with
  | nil =>
    cases h
    simp
  | cons b bs ih =>
    rw [parBranches, bind_eq_ok] at h
    obtain ⟨t, ht, h⟩ := h
    obtain ⟨ts', hts, h⟩ := bind_eq_ok.mp h
    obtain rfl := pure_eq_ok.mp h
    obtain ⟨hlen, hall⟩ := ih hts
    refine ⟨by simp [hlen], ?_⟩
    intro k c u hc hu
    cases k with
    | zero =>
      obtain rfl : b = c := by simpa using hc
      obtain rfl : t = u := by simpa using hu
      exact ht
    | succ k =>
      have := hall k c u (by simpa using hc) (by simpa using hu)
      rwa [show i + 1 + k = i + (k + 1) by omega] at this

end Place

/-- The kind of step that a record is about. -/
def Record.kind : Record → StepKind
  | .message _ => .message
  | .choice _ => .choice
  | .par _ => .par
  | .loop _ => .loop
  | .jump _ => .jump
  | .call _ => .call

namespace LocalProtocol

/-- What the record of a stretch says: which step begins the stretch, and where it leads. -/
def Records (l : LocalProtocol) (s : Stretch) : Record → Prop
  | .message r => ∃ ns, s.rest = .message r.message :: ns ∧ r.state = s.state ∧
      r.position = s.position ∧ r.direction = l.directionOf r.message ∧
      (s.pass ns).target = .ok r.next
  | .choice r => ∃ bs ns, s.rest = .choice r.id r.chooser bs :: ns ∧ r.state = s.state ∧
      r.position = s.position ∧
      (r.role = if r.chooser == l.protagonist then .chooser else .observer) ∧
      (s.pass ns).target = .ok r.next ∧ r.branches.length = bs.length ∧
      ∀ k b e, bs[k]? = some b → r.branches[k]? = some e → e.index = k + 1 ∧
        (s.inChoice ns k b).target = .ok e.entry ∧ e.signal? = l.signal? l.messages e.entry
  | .par r => ∃ bs ns, s.rest = .par r.id bs :: ns ∧ r.state = s.state ∧
      r.position = s.position ∧ r.join = joinState s.state ∧ (s.pass ns).target = .ok r.next ∧
      r.branches.length = bs.length ∧
      ∀ k b t, bs[k]? = some b → r.branches[k]? = some t → (s.inPar r.id k b).target = .ok t
  | .loop r => ∃ body ns, s.rest = .loop r.id r.label body :: ns ∧ r.position = s.position ∧
      r.stem = bodyStem s.state r.label ∧ (s.loop r.id r.label body).entry = .ok r.state ∧
      (s.pass ns).target = .ok r.next
  | .jump r => ∃ ns, s.rest = .jump r.id r.label :: ns ∧ r.state = s.state ∧
      r.position = s.position ∧ s.target = .ok r.target
  | .call r => ∃ ns, s.rest = .call r.name r.roles :: ns ∧ r.state = s.state ∧
      r.position = s.position ∧ (s.pass ns).target = .ok r.next

theorem records_of_record_eq_ok {l : LocalProtocol} {p : Place} {r : Record}
    (h : l.record l.messages p = .ok r) : l.Records p.stretch r := by
  rw [record] at h
  cases hn : p.node with
  | message m =>
    rw [hn] at h
    obtain ⟨t, ht, h⟩ := bind_eq_ok.mp h
    obtain rfl := pure_eq_ok.mp h
    exact ⟨p.following, by simp [Place.stretch, hn], rfl, rfl, rfl, ht⟩
  | choice id chooser bs =>
    rw [hn] at h
    obtain ⟨es, hes, h⟩ := bind_eq_ok.mp h
    obtain ⟨t, ht, h⟩ := bind_eq_ok.mp h
    obtain rfl := pure_eq_ok.mp h
    obtain ⟨hlen, hall⟩ := Place.choiceEntries_eq_ok hes
    refine ⟨bs, p.following, by simp [Place.stretch, hn], rfl, rfl, rfl, ht, by simp [hlen], ?_⟩
    intro k b e hb he
    simp only [List.getElem?_map, Option.map_eq_some_iff] at he
    obtain ⟨⟨i, u⟩, hk, rfl⟩ := he
    obtain ⟨hi, hu⟩ := hall k b _ hb hk
    rw [Nat.add_comm 1 k] at hi hu
    exact ⟨hi, hu, rfl⟩
  | par id bs =>
    rw [hn] at h
    obtain ⟨ts, hts, h⟩ := bind_eq_ok.mp h
    obtain ⟨t, ht, h⟩ := bind_eq_ok.mp h
    obtain rfl := pure_eq_ok.mp h
    obtain ⟨hlen, hall⟩ := Place.parBranches_eq_ok hts
    refine ⟨bs, p.following, by simp [Place.stretch, hn], rfl, rfl, rfl, ht, hlen, ?_⟩
    intro k b u hb hu
    have := hall k b u hb hu
    rwa [Nat.add_comm 1 k] at this
  | loop id label body =>
    rw [hn] at h
    obtain ⟨state, hs, h⟩ := bind_eq_ok.mp h
    obtain ⟨t, ht, h⟩ := bind_eq_ok.mp h
    obtain rfl := pure_eq_ok.mp h
    exact ⟨body, p.following, by simp [Place.stretch, hn], rfl, rfl, hs, ht⟩
  | call name roles =>
    rw [hn] at h
    obtain ⟨t, ht, h⟩ := bind_eq_ok.mp h
    obtain rfl := pure_eq_ok.mp h
    exact ⟨p.following, by simp [Place.stretch, hn], rfl, rfl, ht⟩
  | jump id label =>
    rw [hn] at h
    obtain ⟨t, ht, h⟩ := bind_eq_ok.mp h
    obtain rfl := pure_eq_ok.mp h
    refine ⟨p.following, by simp [Place.stretch, hn], rfl, rfl, ?_⟩
    simpa [Stretch.target, Place.stretch, Target.enter, Target.firstStep?, hn] using ht

theorem Records.kind_eq {l : LocalProtocol} {s : Stretch} {r : Record} (h : l.Records s r) {n : Node}
    {ns : Conversation} (hs : s.rest = n :: ns) : r.kind = n.kind := by
  cases r with
  | message r =>
    obtain ⟨_, hr, _⟩ := h
    rw [(List.cons.inj (hs.symm.trans hr)).1]
    rfl
  | choice r =>
    obtain ⟨_, _, hr, _⟩ := h
    rw [(List.cons.inj (hs.symm.trans hr)).1]
    rfl
  | par r =>
    obtain ⟨_, _, hr, _⟩ := h
    rw [(List.cons.inj (hs.symm.trans hr)).1]
    rfl
  | loop r =>
    obtain ⟨_, _, hr, _⟩ := h
    rw [(List.cons.inj (hs.symm.trans hr)).1]
    rfl
  | jump r =>
    obtain ⟨_, hr, _⟩ := h
    rw [(List.cons.inj (hs.symm.trans hr)).1]
    rfl
  | call r =>
    obtain ⟨_, hr, _⟩ := h
    rw [(List.cons.inj (hs.symm.trans hr)).1]
    rfl

/-- The record of a place, if it can be made. -/
def record? (l : LocalProtocol) (p : Place) : Option Record := (l.record l.messages p).toOption

theorem record?_eq_some {l : LocalProtocol} {p : Place} {r : Record} :
    l.record? p = some r ↔ l.record l.messages p = .ok r := by
  unfold record?
  cases l.record l.messages p <;> simp [Except.toOption]

/-- A projection holds the records of all places of a local protocol, by kind and in order. -/
structure Yields (l : LocalProtocol) (p : Projection) : Prop where
  checked : Place.checkAll [] l.places = .ok ()
  recorded : ∀ q ∈ l.places, ∃ r, l.record? q = some r
  protagonist : p.protagonist = l.protagonist
  start : l.whole.target = .ok p.start
  messages : p.messages = (l.places.filterMap fun q => (l.record? q).bind Record.message?).map
    (markSignal (signals p.choices))
  choices : p.choices = l.places.filterMap fun q => (l.record? q).bind Record.choice?
  pars : p.pars = l.places.filterMap fun q => (l.record? q).bind Record.par?
  loops : p.loops = l.places.filterMap fun q => (l.record? q).bind Record.loop?
  jumps : p.jumps = l.places.filterMap fun q => (l.record? q).bind Record.jump?
  calls : p.calls = l.places.filterMap fun q => (l.record? q).bind Record.call?

theorem yields_of_project_eq_ok {l : LocalProtocol} {moduleName? : Option String}
    {types : List TypeImport} {p : Projection} (h : l.project moduleName? types = .ok p) :
    l.Yields p := by
  rw [project] at h
  obtain ⟨_, hc, h⟩ := bind_eq_ok.mp h
  obtain ⟨start, hs, h⟩ := bind_eq_ok.mp h
  obtain ⟨records, hr, h⟩ := bind_eq_ok.mp h
  obtain rfl := pure_eq_ok.mp h
  obtain rfl : records = l.places.filterMap l.record? := eq_filterMap_of_mapM_eq_ok hr
  refine ⟨hc, ?_, rfl, hs, ?_, ?_, ?_, ?_, ?_, ?_⟩
  · intro q hq
    obtain ⟨r, _, hq⟩ := exists_ok_of_mapM_eq_ok hr hq
    exact ⟨r, record?_eq_some.mpr hq⟩
  all_goals simp only [List.filterMap_filterMap]

theorem fields_of_project_eq_ok {l : LocalProtocol} {moduleName? : Option String}
    {types : List TypeImport} {p : Projection} (h : l.project moduleName? types = .ok p) :
    p.roles = l.roles ∧ p.types = types := by
  rw [project] at h
  obtain ⟨_, _, h⟩ := bind_eq_ok.mp h
  obtain ⟨_, _, h⟩ := bind_eq_ok.mp h
  obtain ⟨_, _, h⟩ := bind_eq_ok.mp h
  obtain rfl := pure_eq_ok.mp h
  exact ⟨rfl, rfl⟩

theorem Has.eq_of_state_eq {l : LocalProtocol} {s t : Stretch} (hs : l.Has s) (ht : l.Has t)
    {n m : Node} {ns ms : Conversation} (hsr : s.rest = n :: ns) (htr : t.rest = m :: ms)
    (h : s.state = t.state) : s = t := by
  obtain ⟨p, hp, _, rfl, _⟩ := hs.exists_place hsr
  obtain ⟨q, hq, _, rfl, _⟩ := ht.exists_place htr
  rw [l.place_eq_of_state_eq hp hq h]

theorem exists_of_mem_filterMap {γ : Type} {l : LocalProtocol} {pick : Record → Option γ}
    {c : γ} (h : c ∈ l.places.filterMap fun q => (l.record? q).bind pick) :
    ∃ q ∈ l.places, ∃ r, l.Records q.stretch r ∧ pick r = some c := by
  obtain ⟨q, hq, hr⟩ := List.mem_filterMap.mp h
  obtain ⟨r, hr, hc⟩ := Option.bind_eq_some_iff.mp hr
  exact ⟨q, hq, r, records_of_record_eq_ok (record?_eq_some.mp hr), hc⟩

end LocalProtocol

/-- Whether a record stands in the list of its kind. -/
def Projection.Lists (p : Projection) : Record → Prop
  | .message r => r ∈ p.messages
  | .choice r => r ∈ p.choices
  | .par r => r ∈ p.pars
  | .loop r => r ∈ p.loops
  | .jump r => r ∈ p.jumps
  | .call r => r ∈ p.calls

namespace LocalProtocol.Yields

variable {l : LocalProtocol} {p : Projection}

theorem exists_place (y : l.Yields p) {r : Record} (h : p.Lists r) :
    ∃ q ∈ l.places, l.Records q.stretch r := by
  cases r with
  | message r =>
    rw [Projection.Lists, y.messages] at h
    obtain ⟨r₀, hr, rfl⟩ := List.mem_map.mp h
    obtain ⟨q, hq, x, hx, hp⟩ := exists_of_mem_filterMap hr
    cases x <;> cases hp
    exact ⟨q, hq, hx⟩
  | choice r =>
    rw [Projection.Lists, y.choices] at h
    obtain ⟨q, hq, x, hx, hp⟩ := exists_of_mem_filterMap h
    cases x <;> cases hp
    exact ⟨q, hq, hx⟩
  | par r =>
    rw [Projection.Lists, y.pars] at h
    obtain ⟨q, hq, x, hx, hp⟩ := exists_of_mem_filterMap h
    cases x <;> cases hp
    exact ⟨q, hq, hx⟩
  | loop r =>
    rw [Projection.Lists, y.loops] at h
    obtain ⟨q, hq, x, hx, hp⟩ := exists_of_mem_filterMap h
    cases x <;> cases hp
    exact ⟨q, hq, hx⟩
  | jump r =>
    rw [Projection.Lists, y.jumps] at h
    obtain ⟨q, hq, x, hx, hp⟩ := exists_of_mem_filterMap h
    cases x <;> cases hp
    exact ⟨q, hq, hx⟩
  | call r =>
    rw [Projection.Lists, y.calls] at h
    obtain ⟨q, hq, x, hx, hp⟩ := exists_of_mem_filterMap h
    cases x <;> cases hp
    exact ⟨q, hq, hx⟩

theorem exists_stretch (y : l.Yields p) {r : Record} (h : p.Lists r) :
    ∃ s, l.Has s ∧ l.Records s r := by
  obtain ⟨q, hq, hrec⟩ := y.exists_place h
  exact ⟨q.stretch, l.has_of_mem_places hq, hrec⟩

theorem exists_record (y : l.Yields p) {s : Stretch} (hs : l.Has s) {n : Node} {ns : Conversation}
    (hr : s.rest = n :: ns) : ∃ r, p.Lists r ∧ l.Records s r := by
  obtain ⟨q, hq, _, rfl, _⟩ := hs.exists_place hr
  obtain ⟨r, hrq⟩ := y.recorded q hq
  have hrec := records_of_record_eq_ok (record?_eq_some.mp hrq)
  have hmem {γ : Type} {pick : Record → Option γ} {c : γ} (hc : pick r = some c) :
      c ∈ l.places.filterMap fun q => (l.record? q).bind pick :=
    List.mem_filterMap.mpr ⟨q, hq, by rw [hrq]; exact hc⟩
  cases r with
  | message r =>
    refine ⟨.message (markSignal (signals p.choices) r), ?_, hrec⟩
    rw [Projection.Lists, y.messages]
    exact List.mem_map_of_mem (hmem rfl)
  | choice r => exact ⟨.choice r, by rw [Projection.Lists, y.choices]; exact hmem rfl, hrec⟩
  | par r => exact ⟨.par r, by rw [Projection.Lists, y.pars]; exact hmem rfl, hrec⟩
  | loop r => exact ⟨.loop r, by rw [Projection.Lists, y.loops]; exact hmem rfl, hrec⟩
  | jump r => exact ⟨.jump r, by rw [Projection.Lists, y.jumps]; exact hmem rfl, hrec⟩
  | call r => exact ⟨.call r, by rw [Projection.Lists, y.calls]; exact hmem rfl, hrec⟩

end LocalProtocol.Yields

end Parley
