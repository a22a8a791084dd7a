import Parley.Declaration
import Parley.Proofs.Landing

/-! What a declared protocol may count on: every step, at whatever depth, uses declared roles, and a
message passes between the protagonist and another role. -/

namespace Parley

open Outcome

theorem Conversation.draws_preorder : Stretch.Draws (fun q => [q.node])
    (fun s => Conversation.preorder s.rest) (fun _ _ _ _ bs => branchesPreorder bs) := by
  constructor <;> intros <;> rfl

theorem Conversation.map_node_places (stem : String) (frames : List Frame)
    (before? : Option Node) (i : Nat) (c : List Node) :
    (Conversation.places stem frames before? i c).map Place.node = Conversation.preorder c :=
  Conversation.map_places Conversation.draws_preorder stem frames before? i c

/-- A message between the protagonist and another role, both declared, with declared payloads. -/
structure Message.Declared (l : LocalProtocol) (types : List String) (m : Message) : Prop where
  sender : m.sender ∈ l.roles
  receiver : m.receiver ∈ l.roles
  apart : m.sender ≠ m.receiver
  involved : m.sender = l.protagonist ∨ m.receiver = l.protagonist
  payloads : ∀ type ∈ m.payloads, type ∈ types

/-- A step that by itself, without the steps inside it, uses declared roles and types. -/
def Node.Declared (l : LocalProtocol) (types : List String) : Node → Prop
  | .message m => m.Declared l types
  | .choice _ chooser _ => chooser ∈ l.roles
  | .call _ roles => ∀ role ∈ roles, role ∈ l.roles
  | _ => True

theorem firstRepeat?_eq_none {α : Type} [BEq α] [LawfulBEq α] {seen xs : List α} :
    firstRepeat? seen xs = none ↔ xs.Nodup ∧ ∀ x ∈ xs, x ∉ seen := by
  induction xs generalizing seen with
  | nil => simp [firstRepeat?]
  | cons x xs ih =>
    rw [firstRepeat?]
    by_cases hx : x ∈ seen
    · simp [hx]
    · rw [if_neg (by simpa using hx), ih]
      grind

namespace LocalProtocol

variable {l : LocalProtocol}

theorem mem_preorder_iff {n : Node} :
    n ∈ Conversation.preorder l.conversation ↔ ∃ q ∈ l.places, q.node = n := by
  rw [← Conversation.map_node_places l.protagonist [] none 1 l.conversation]
  exact List.mem_map

theorem Has.mem_preorder {s : Stretch} (hs : l.Has s) {n : Node} {ns : Conversation}
    (hr : s.rest = n :: ns) : n ∈ Conversation.preorder l.conversation := by
  obtain ⟨q, hq, hn, _⟩ := hs.exists_place hr
  exact mem_preorder_iff.mpr ⟨q, hq, hn⟩

theorem mem_messages_iff {m : Message} :
    m ∈ l.messages ↔ ∃ q ∈ l.places, q.node = .message m := by
  rw [messages, ← mem_preorder_iff]
  constructor
  · intro h
    obtain ⟨n, hn, hm⟩ := List.mem_filterMap.mp h
    cases n <;> cases hm
    exact hn
  · exact fun h => List.mem_filterMap.mpr ⟨_, h, rfl⟩

theorem Yields.message_eq_of_id_eq {p : Projection} (y : l.Yields p) {m m' : Message}
    (hm : m ∈ l.messages) (hm' : m' ∈ l.messages) (h : m.id = m'.id) : m = m' := by
  obtain ⟨q, hq, hn⟩ := mem_messages_iff.mp hm
  obtain ⟨q', hq', hn'⟩ := mem_messages_iff.mp hm'
  have hid : q.node.id? = some m.id := by rw [hn]; rfl
  have hid' : q'.node.id? = some m.id := by rw [hn', h]; rfl
  rw [y.place_eq_of_id_eq hq hq' hid hid', hn'] at hn
  cases hn
  rfl

theorem checkRole_eq_ok {role : String} {u : Unit} : l.checkRole role = .ok u ↔ role ∈ l.roles := by
  simp [checkRole]

theorem checkMessage_eq_ok {types : List String} {m : Message} :
    l.checkMessage types m = .ok () ↔ m.Declared l types := by
  unfold checkMessage
  simp only [bind_eq_ok, checkRole_eq_ok, ite_throw_eq_ok]
  cases hfind : m.payloads.find? (!types.contains ·) with
  | some type =>
    have hmem := List.mem_of_find?_eq_some hfind
    have hunknown : type ∉ types := by simpa using List.find?_some hfind
    simp only [throw_ne_ok, and_false, exists_false, false_iff]
    exact fun h => hunknown (h.payloads type hmem)
  | none =>
    have hknown : ∀ type ∈ m.payloads, type ∈ types := by simpa using hfind
    simp only [pure_eq_ok, exists_const, and_true]
    constructor
    · rintro ⟨hsender, hreceiver, hapart, hinvolved⟩
      refine ⟨hsender, hreceiver, by simpa using hapart, ?_, hknown⟩
      by_cases hs : m.sender = l.protagonist
      · exact .inl hs
      · exact .inr (by simpa [hs] using hinvolved)
    · intro h
      refine ⟨h.sender, h.receiver, by simpa using h.apart, ?_⟩
      rcases h.involved with hi | hi <;> simp [hi]

theorem checkNode_eq_ok {types : List String} {n : Node} :
    l.checkNode types n = .ok () ↔ n.Declared l types := by
  cases n with
  | message m => exact checkMessage_eq_ok
  | choice id chooser branches => exact checkRole_eq_ok
  | call name roles => simp only [checkNode, forM_eq_ok, checkRole_eq_ok, Node.Declared]
  | par | loop | jump => exact iff_of_true rfl trivial

theorem check_eq_ok {types : List String} : l.check types = .ok () ↔
    l.roles.Nodup ∧ l.protagonist ∈ l.roles ∧
      ∀ n ∈ Conversation.preorder l.conversation, n.Declared l types := by
  unfold check
  cases hrepeat : firstRepeat? [] l.roles with
  | some role =>
    have hroles : ¬ l.roles.Nodup := by
      intro hnodup
      rw [firstRepeat?_eq_none.mpr ⟨hnodup, fun _ _ => List.not_mem_nil⟩] at hrepeat
      cases hrepeat
    exact iff_of_false throw_bind_ne_ok fun h => hroles h.1
  | none =>
    have hroles := (firstRepeat?_eq_none.mp hrepeat).1
    refine ite_throw_eq_ok.trans ?_
    rw [forM_eq_ok]
    simp [hroles, checkNode_eq_ok]

theorem declared_of_check {types : List String} (h : l.check types = .ok ()) {n : Node}
    (hn : n ∈ Conversation.preorder l.conversation) : n.Declared l types :=
  (check_eq_ok.mp h).2.2 n hn

theorem Yields.message_declared {p : Projection} (y : l.Yields p) {types : List String}
    (h : l.check types = .ok ()) {r : MessageRecord} (hr : r ∈ p.messages) :
    r.message.Declared l types := by
  obtain ⟨s, hs, ns, hrest, _⟩ := y.exists_stretch (r := .message r) hr
  exact declared_of_check h (hs.mem_preorder hrest)

theorem Yields.declared_message {p : Projection} (y : l.Yields p) {types : List String}
    (h : l.check types = .ok ()) {r : MessageRecord} (hr : r ∈ p.messages) :
    r.message.sender ∈ l.roles ∧ r.message.receiver ∈ l.roles ∧
      r.message.sender ≠ r.message.receiver := by
  have hm := y.message_declared h hr
  exact ⟨hm.sender, hm.receiver, hm.apart⟩

theorem Yields.declared_chooser {p : Projection} (y : l.Yields p) {types : List String}
    (h : l.check types = .ok ()) {r : ChoiceRecord} (hr : r ∈ p.choices) :
    r.chooser ∈ l.roles := by
  obtain ⟨s, hs, bs, ns, hrest, _⟩ := y.exists_stretch (r := .choice r) hr
  exact declared_of_check h (hs.mem_preorder hrest)

end LocalProtocol

namespace Protocol

/-- The local protocols are checked one by one, and none has the name and protagonist of another. -/
theorem checkLocals_eq_ok {types : List String} {seen : List (String × String)}
    {ls : List LocalProtocol} : checkLocals types seen ls = .ok () ↔
      ((ls.map fun l => (l.name, l.protagonist)).Nodup ∧
        ∀ l ∈ ls, (l.name, l.protagonist) ∉ seen) ∧ ∀ l ∈ ls, l.check types = .ok () := by
  induction ls generalizing seen with
  | nil => simp [checkLocals]
  | cons l ls ih =>
    unfold checkLocals
    refine ite_throw_eq_ok.trans ?_
    simp only [bind_eq_ok, ih]
    grind

theorem check_eq_ok {q : Protocol} : q.check = .ok () ↔
    q.locals ≠ [] ∧ (q.aliases.Nodup ∧ ∀ name ∈ q.aliases, name ∉ nativeTypes) ∧
      (q.locals.map fun l => (l.name, l.protagonist)).Nodup ∧
        ∀ l ∈ q.locals, l.check (nativeTypes ++ q.aliases) = .ok () := by
  unfold check
  refine ite_throw_eq_ok.trans ?_
  rw [← firstRepeat?_eq_none]
  cases hrepeat : firstRepeat? nativeTypes q.aliases with
  | some type => simp [throw_bind_ne_ok]
  | none => simp [checkLocals_eq_ok]

theorem check_of_mem {q : Protocol} (h : q.check = .ok ()) {l : LocalProtocol}
    (hl : l ∈ q.locals) : l.check (nativeTypes ++ q.aliases) = .ok () :=
  (check_eq_ok.mp h).2.2.2 l hl

end Protocol

end Parley
