import Parley.Proofs.Concurrent
import Parley.Proofs.WellFormed
import Parley.Token.Scan

/-! The identifiers of the steps that are read. Each goes by its step and is numbered by its turn. Its
text ends with the number, which no underscore interrupts, so the number is read off from the back
whatever stands before it. -/

namespace Parley

open Outcome

/-- What the identifier of a step goes by. -/
def Node.tag? : Node → Option String
  | .message m => some m.name
  | .choice .. => some "choice"
  | .par .. => some "par"
  | .loop _ label _ => some label
  | .jump _ label => some label
  | .call .. => none

/-- A step whose identifier, if it has one, goes by the step and belongs to a scope. -/
def Node.Labelled (scope : String) (n : Node) : Prop :=
  ∀ id, n.id? = some id → id.scope = scope ∧ n.tag? = some id.label

mutual

theorem Node.labelled_identify (s : IdSource) (n : Node) : (n.identify s).2.scope = s.scope ∧
    ∀ m ∈ (n.identify s).1.preorder, m.Labelled s.scope := by
  cases n with
  | message m =>
    simp [Node.identify, IdSource.next, Node.preorder, Node.Labelled, Node.id?, Node.tag?]
  | choice id chooser branches =>
    obtain ⟨hscope, hall⟩ := labelled_identifyBranches (s.next "choice").2 branches
    rw [Node.identify, Node.preorder]
    refine ⟨hscope, List.forall_mem_cons.mpr ⟨?_, hall⟩⟩
    rintro _ ⟨⟩
    exact ⟨rfl, rfl⟩
  | par id branches =>
    obtain ⟨hscope, hall⟩ := labelled_identifyBranches (s.next "par").2 branches
    rw [Node.identify, Node.preorder]
    refine ⟨hscope, List.forall_mem_cons.mpr ⟨?_, hall⟩⟩
    rintro _ ⟨⟩
    exact ⟨rfl, rfl⟩
  | loop id label body =>
    obtain ⟨hscope, hall⟩ := Conversation.labelled_identify (s.next label).2 body
    rw [Node.identify, Node.preorder]
    refine ⟨hscope, List.forall_mem_cons.mpr ⟨?_, hall⟩⟩
    rintro _ ⟨⟩
    exact ⟨rfl, rfl⟩
  | call name roles => simp [Node.identify, Node.preorder, Node.Labelled, Node.id?]
  | jump id label =>
    simp [Node.identify, IdSource.next, Node.preorder, Node.Labelled, Node.id?, Node.tag?]

theorem Conversation.labelled_identify (s : IdSource) (c : Conversation) :
    (Conversation.identify s c).2.scope = s.scope ∧
      ∀ m ∈ Conversation.preorder (Conversation.identify s c).1, m.Labelled s.scope := by
  cases c with
  | nil => simp [Conversation.identify, Conversation.preorder]
  | cons n ns =>
    obtain ⟨hn, hfirst⟩ := Node.labelled_identify s n
    obtain ⟨hns, hrest⟩ := Conversation.labelled_identify (n.identify s).2 ns
    rw [hn] at hns hrest
    rw [Conversation.identify, Conversation.preorder]
    exact ⟨hns, List.forall_mem_append.mpr ⟨hfirst, hrest⟩⟩

theorem labelled_identifyBranches (s : IdSource) (bs : List Conversation) :
    (identifyBranches s bs).2.scope = s.scope ∧
      ∀ m ∈ branchesPreorder (identifyBranches s bs).1, m.Labelled s.scope := by
  cases bs with
  | nil => simp [identifyBranches, branchesPreorder]
  | cons b bs =>
    obtain ⟨hb, hfirst⟩ := Conversation.labelled_identify s b
    obtain ⟨hbs, hrest⟩ := labelled_identifyBranches (Conversation.identify s b).2 bs
    rw [hb] at hbs hrest
    rw [identifyBranches, branchesPreorder]
    exact ⟨hbs, List.forall_mem_append.mpr ⟨hfirst, hrest⟩⟩

end

theorem LocalProtocol.Identified.labelled {l : LocalProtocol} (h : l.Identified) :
    ∀ n ∈ l.steps, n.Labelled l.name := by
  obtain ⟨-, hall⟩ := Conversation.labelled_identify (IdSource.ofScope l.name) l.conversation
  rw [h] at hall
  exact hall

namespace NodeId

/-- The number of an identifier is what stands behind the last underscore of its text. -/
theorem takeWhile_reverse_text (id : NodeId) :
    id.text.toList.reverse.takeWhile (· != '_') = (Nat.toDigits 10 id.seq.toNat).reverse := by
  have htext : id.text.toList =
      (id.scope.toList ++ '_' :: id.label.toList) ++ '_' :: Nat.toDigits 10 id.seq.toNat := by
    simp [NodeId.text]
  have hdigits : ∀ d ∈ (Nat.toDigits 10 id.seq.toNat).reverse, (d != '_') = true := by
    intro d hd
    exact StateName.bne_underscore_of_mem_toDigits (List.mem_reverse.mp hd)
  rw [htext, List.reverse_append, List.reverse_cons, List.append_assoc,
    List.takeWhile_append_of_pos hdigits]
  simp

theorem seq_eq_of_text_eq {a b : NodeId} (h : a.text = b.text) : a.seq = b.seq := by
  have hdigits : (Nat.toDigits 10 a.seq.toNat).reverse = (Nat.toDigits 10 b.seq.toNat).reverse := by
    rw [← takeWhile_reverse_text, h, takeWhile_reverse_text]
  exact UInt32.toNat_inj.mp (StateName.toDigits_injective (List.reverse_inj.mp hdigits))

end NodeId

theorem Counted.map_toNat {next : UInt32} {ids : List NodeId} (h : Counted 0 ids next)
    (hlength : ids.length ≤ UInt32.size) : ids.map (·.seq.toNat) = List.range ids.length := by
  have hseq := congrArg (List.map UInt32.toNat) h.map_seq
  rw [List.map_map, List.map_map] at hseq
  refine hseq.trans ((List.map_congr_left fun k hk => ?_).trans (List.map_id _))
  have hk : k < UInt32.size := Nat.lt_of_lt_of_le (List.mem_range.mp hk) hlength
  simp [Nat.mod_eq_of_lt hk]

/-- Steps that are numbered in the order in which they are written, calls left out. -/
structure LocalProtocol.Numbered (l : LocalProtocol) : Prop where
  seqs : l.ids.map (·.seq.toNat) = List.range l.ids.length
  labelled : ∀ n ∈ l.steps, n.Labelled l.name
  texts : (l.ids.map NodeId.text).Nodup

theorem LocalProtocol.Identified.numbered {l : LocalProtocol} (h : l.Identified)
    (hlength : l.ids.length < UInt32.size) : l.Numbered := by
  obtain ⟨next, hcounted⟩ := h.exists_counted
  have hseqs := hcounted.map_toNat (Nat.le_of_lt hlength)
  refine ⟨hseqs, h.labelled, ?_⟩
  have hnodup : (l.ids.map (·.seq.toNat)).Nodup := by
    rw [hseqs]
    exact List.nodup_range
  refine List.pairwise_map.mpr ((List.pairwise_map.mp hnodup).imp ?_)
  intro a b hne htext
  exact hne (congrArg UInt32.toNat (NodeId.seq_eq_of_text_eq htext))

/-- Whatever is read, its steps are numbered, as long as there are numbers for them. -/
theorem Grammar.numbered_of_readProtocol {concurrent : Bool} {tokens : List Token} {p : Protocol}
    (h : readProtocol concurrent tokens = .ok p) {l : LocalProtocol} (hl : l ∈ p.locals)
    (hlength : l.ids.length < UInt32.size) : l.Numbered :=
  (identified_of_readProtocol h l hl).numbered hlength

/-- Steps of every kind, under names that look like numbered ones. -/
def relayText : String :=
  "local protocol L at A (role A, role B) \x7b
    rec m_1 \x7b
      m() to B;
      choice at A \x7b m_1() to B; do D(A, B); continue m_1; \x7d
        or \x7b par \x7b m_1_2() to B; \x7d and \x7b m() from B; \x7d \x7d
    \x7d
    m_7() from B;
  \x7d"

/-- The identifiers in order. The call gets none. -/
def relayIds : List NodeId :=
  [⟨"L", "m_1", 0⟩, ⟨"L", "m", 1⟩, ⟨"L", "choice", 2⟩, ⟨"L", "m_1", 3⟩, ⟨"L", "m_1", 4⟩,
    ⟨"L", "par", 5⟩, ⟨"L", "m_1_2", 6⟩, ⟨"L", "m", 7⟩, ⟨"L", "m_7", 8⟩]

theorem relay_numbered : ∃ p l, Grammar.readProtocol true (Token.scan relayText) = .ok p ∧
    l ∈ p.locals ∧ l.ids = relayIds ∧ l.ids.length < UInt32.size ∧ l.Numbered := by
  have hok : ((Grammar.readProtocol true (Token.scan relayText)).toOption.any fun p =>
      p.locals.any fun l => l.ids == relayIds) = true := by
    unfold relayText
    rw [Token.scan_ofList]
    decide +kernel
  obtain ⟨p, hp, hany⟩ := exists_ok_of_any hok
  obtain ⟨l, hl, hids⟩ := List.any_eq_true.mp hany
  have hids : l.ids = relayIds := by simpa using hids
  have hlength : l.ids.length < UInt32.size := by
    rw [hids]
    decide
  exact ⟨p, l, hp, hl, hids, hlength, Grammar.numbered_of_readProtocol hp hl hlength⟩

/-- In whatever order concurrent reading takes the parts of a text, the steps come out numbered as they
are written. -/
theorem Grammar.numbered_of_reaches {tokens : List Token} {p : Protocol} {s : IdSource}
    (h : Reading.Reaches (protocolReading true tokens) (IdSource.ofScope "") (.done (.ok p)) s)
    {l : LocalProtocol} (hl : l ∈ p.locals) (hlength : l.ids.length < UInt32.size) : l.Numbered := by
  have hread : readProtocol false tokens = .ok p := by
    have hsome := toOption_of_reaches h
    cases hp : readProtocol false tokens with
    | error e =>
      rw [hp] at hsome
      cases hsome
    | ok q =>
      rw [hp] at hsome
      cases hsome
      rfl
  exact (identified_of_readProtocol hread l hl).numbered hlength

end Parley
