import Mathlib.Data.List.Forall2
import Mathlib.Data.List.Nodup
import Parley.Node
import Parley.Proofs.Reading

/-! The identifiers that the steps of a conversation draw when its text is read from the front. Steps
that hold these identifiers keep them when they are numbered again, and the numbers tell them apart. -/

namespace Parley

mutual

def Node.identify (source : IdSource) : Node → Node × IdSource
  | .message m =>
    let (id, source) := source.next m.name
    (.message { m with id }, source)
  | .choice _ chooser branches =>
    let (id, source) := source.next "choice"
    let (branches, source) := identifyBranches source branches
    (.choice id chooser branches, source)
  | .par _ branches =>
    let (id, source) := source.next "par"
    let (branches, source) := identifyBranches source branches
    (.par id branches, source)
  | .loop _ label body =>
    let (id, source) := source.next label
    let (body, source) := Conversation.identify source body
    (.loop id label body, source)
  | .call name roles => (.call name roles, source)
  | .jump _ label =>
    let (id, source) := source.next label
    (.jump id label, source)

/-- Gives the steps of a conversation the identifiers that reading its text gives them. -/
def Conversation.identify (source : IdSource) : List Node → List Node × IdSource
  | [] => ([], source)
  | n :: ns =>
    let (n, source) := n.identify source
    let (ns, source) := Conversation.identify source ns
    (n :: ns, source)

def identifyBranches (source : IdSource) : List (List Node) → List (List Node) × IdSource
  | [] => ([], source)
  | b :: bs =>
    let (b, source) := Conversation.identify source b
    let (bs, source) := identifyBranches source bs
    (b :: bs, source)

end

mutual

theorem Node.renumber_identify (s : IdSource) (n : Node) :
    (n.identify s).1.renumber s.issued = ((n.identify s).1, (n.identify s).2.issued) := by
  cases n with
  | message m => rfl
  | choice id chooser branches =>
    have h := renumberBranches_identify (s.next "choice").2 branches
    rw [Node.identify, Node.renumber]
    exact congrArg (fun r => (Node.choice (s.next "choice").1 chooser r.1, r.2)) h
  | par id branches =>
    have h := renumberBranches_identify (s.next "par").2 branches
    rw [Node.identify, Node.renumber]
    exact congrArg (fun r => (Node.par (s.next "par").1 r.1, r.2)) h
  | loop id label body =>
    have h := Conversation.renumber_identify (s.next label).2 body
    rw [Node.identify, Node.renumber]
    exact congrArg (fun r => (Node.loop (s.next label).1 label r.1, r.2)) h
  | call name roles => rfl
  | jump id label => rfl

theorem Conversation.renumber_identify (s : IdSource) (c : Conversation) :
    Conversation.renumber s.issued (Conversation.identify s c).1 =
      ((Conversation.identify s c).1, (Conversation.identify s c).2.issued) := by
  cases c with
  | nil => rfl
  | cons n ns =>
    have hn := Node.renumber_identify s n
    have hns := Conversation.renumber_identify (n.identify s).2 ns
    simp only [Conversation.identify, Conversation.renumber, hn, hns]

theorem renumberBranches_identify (s : IdSource) (bs : List Conversation) :
    renumberBranches s.issued (identifyBranches s bs).1 =
      ((identifyBranches s bs).1, (identifyBranches s bs).2.issued) := by
  cases bs with
  | nil => rfl
  | cons b bs =>
    have hb := Conversation.renumber_identify s b
    have hbs := renumberBranches_identify (Conversation.identify s b).2 bs
    simp only [identifyBranches, renumberBranches, hb, hbs]

end

mutual

theorem Node.identify_identify (s : IdSource) (n : Node) :
    (n.identify s).1.identify s = n.identify s := by
  cases n with
  | message m => rfl
  | choice id chooser branches =>
    have h := identifyBranches_identify (s.next "choice").2 branches
    simp only [Node.identify, h]
  | par id branches =>
    have h := identifyBranches_identify (s.next "par").2 branches
    simp only [Node.identify, h]
  | loop id label body =>
    have h := Conversation.identify_identify (s.next label).2 body
    simp only [Node.identify, h]
  | call name roles => rfl
  | jump id label => rfl

theorem Conversation.identify_identify (s : IdSource) (c : Conversation) :
    Conversation.identify s (Conversation.identify s c).1 = Conversation.identify s c := by
  cases c with
  | nil => rfl
  | cons n ns =>
    have hn := Node.identify_identify s n
    have hns := Conversation.identify_identify (n.identify s).2 ns
    simp only [Conversation.identify, hn, hns]

theorem identifyBranches_identify (s : IdSource) (bs : List Conversation) :
    identifyBranches s (identifyBranches s bs).1 = identifyBranches s bs := by
  cases bs with
  | nil => rfl
  | cons b bs =>
    have hb := Conversation.identify_identify s b
    have hbs := identifyBranches_identify (Conversation.identify s b).2 bs
    simp only [identifyBranches, hb, hbs]

end

/-- Identifiers that are numbered one after the other from `seq`, up to before `next`. -/
def Counted (seq : UInt32) : List NodeId → UInt32 → Prop
  | [], next => seq = next
  | id :: ids, next => id.seq = seq ∧ Counted (seq + 1) ids next

theorem Counted.append {seq mid next : UInt32} {as bs : List NodeId} (ha : Counted seq as mid)
    (hb : Counted mid bs next) : Counted seq (as ++ bs) next := by
  induction as generalizing seq with
  | nil =>
    rw [show seq = mid from ha]
    exact hb
  | cons id ids ih => exact ⟨ha.1, ih ha.2⟩

theorem Counted.map_seq {seq next : UInt32} {ids : List NodeId} (h : Counted seq ids next) :
    ids.map (·.seq) = (List.range ids.length).map fun k => seq + UInt32.ofNat k := by
  induction ids generalizing seq with
  | nil => rfl
  | cons id ids ih =>
    rw [List.map_cons, ih h.2, h.1, List.length_cons, List.range_succ_eq_map, List.map_cons,
      List.map_map]
    congr 1
    · simp
    · apply List.map_congr_left
      intro k _
      simp [UInt32.add_assoc, UInt32.add_comm 1]

/-- Identifiers are told apart by their numbers as long as there are enough of these. -/
theorem Counted.nodup {seq next : UInt32} {ids : List NodeId} (h : Counted seq ids next)
    (hlength : ids.length ≤ UInt32.size) : ids.Nodup := by
  apply List.Nodup.of_map (·.seq)
  rw [h.map_seq]
  refine List.nodup_range.map_on ?_
  intro i hi j hj hij
  have hi' := List.mem_range.mp hi
  have hj' := List.mem_range.mp hj
  have hnat := congrArg UInt32.toNat (UInt32.add_right_inj seq |>.mp hij)
  have hsize : UInt32.size = 2 ^ 32 := rfl
  rw [UInt32.toNat_ofNat', UInt32.toNat_ofNat'] at hnat
  omega

mutual

theorem Node.counted_identify (s : IdSource) (n : Node) :
    Counted s.issued ((n.identify s).1.preorder.filterMap Node.id?) (n.identify s).2.issued := by
  cases n with
  | message m => exact ⟨rfl, rfl⟩
  | choice id chooser branches =>
    have h := counted_identifyBranches (s.next "choice").2 branches
    rw [Node.identify, Node.preorder]
    exact ⟨rfl, h⟩
  | par id branches =>
    have h := counted_identifyBranches (s.next "par").2 branches
    rw [Node.identify, Node.preorder]
    exact ⟨rfl, h⟩
  | loop id label body =>
    have h := Conversation.counted_identify (s.next label).2 body
    rw [Node.identify, Node.preorder]
    exact ⟨rfl, h⟩
  | call name roles => exact rfl
  | jump id label => exact ⟨rfl, rfl⟩

theorem Conversation.counted_identify (s : IdSource) (c : Conversation) :
    Counted s.issued ((Conversation.preorder (Conversation.identify s c).1).filterMap Node.id?)
      (Conversation.identify s c).2.issued := by
  cases c with
  | nil => exact rfl
  | cons n ns =>
    have hn := Node.counted_identify s n
    have hns := Conversation.counted_identify (n.identify s).2 ns
    rw [Conversation.identify, Conversation.preorder, List.filterMap_append]
    exact hn.append hns

theorem counted_identifyBranches (s : IdSource) (bs : List Conversation) :
    Counted s.issued ((branchesPreorder (identifyBranches s bs).1).filterMap Node.id?)
      (identifyBranches s bs).2.issued := by
  cases bs with
  | nil => exact rfl
  | cons b bs =>
    have hb := Conversation.counted_identify s b
    have hbs := counted_identifyBranches (Conversation.identify s b).2 bs
    rw [identifyBranches, branchesPreorder, List.filterMap_append]
    exact hb.append hbs

end

section Fixed

variable {s s' : IdSource}

theorem Conversation.renumber_of_identify_eq {c : Conversation}
    (h : Conversation.identify s c = (c, s')) : Conversation.renumber s.issued c = (c, s'.issued) := by
  have hr := Conversation.renumber_identify s c
  rwa [h] at hr

theorem Node.identify_message {m : Message} :
    Node.identify s (.message m) = (.message m, s') ↔ s.next m.name = (m.id, s') := by
  cases m
  simp [Node.identify, Prod.ext_iff]

theorem Node.identify_choice {id : NodeId} {chooser : String} {branches : List Conversation} :
    Node.identify s (.choice id chooser branches) = (.choice id chooser branches, s') ↔
      ∃ s₁, s.next "choice" = (id, s₁) ∧ identifyBranches s₁ branches = (branches, s') := by
  simp only [Node.identify, Prod.ext_iff, Node.choice.injEq]
  grind

theorem Node.identify_par {id : NodeId} {branches : List Conversation} :
    Node.identify s (.par id branches) = (.par id branches, s') ↔
      ∃ s₁, s.next "par" = (id, s₁) ∧ identifyBranches s₁ branches = (branches, s') := by
  simp only [Node.identify, Prod.ext_iff, Node.par.injEq]
  grind

theorem Node.identify_loop {id : NodeId} {label : String} {body : Conversation} :
    Node.identify s (.loop id label body) = (.loop id label body, s') ↔
      ∃ s₁, s.next label = (id, s₁) ∧ Conversation.identify s₁ body = (body, s') := by
  simp only [Node.identify, Prod.ext_iff, Node.loop.injEq]
  grind

theorem Node.identify_call {name : String} {roles : List String} :
    Node.identify s (.call name roles) = (.call name roles, s') ↔ s = s' := by
  simp [Node.identify]

theorem Node.identify_jump {id : NodeId} {label : String} :
    Node.identify s (.jump id label) = (.jump id label, s') ↔ s.next label = (id, s') := by
  simp [Node.identify, Prod.ext_iff]

theorem Conversation.identify_nil : Conversation.identify s [] = ([], s') ↔ s = s' := by
  simp [Conversation.identify]

theorem Conversation.identify_cons {n : Node} {ns : Conversation} :
    Conversation.identify s (n :: ns) = (n :: ns, s') ↔
      ∃ s₁, n.identify s = (n, s₁) ∧ Conversation.identify s₁ ns = (ns, s') := by
  simp only [Conversation.identify, Prod.ext_iff, List.cons.injEq]
  grind

theorem identifyBranches_nil : identifyBranches s [] = ([], s') ↔ s = s' := by
  simp [identifyBranches]

theorem identifyBranches_cons {b : Conversation} {bs : List Conversation} :
    identifyBranches s (b :: bs) = (b :: bs, s') ↔
      ∃ s₁, Conversation.identify s b = (b, s₁) ∧ identifyBranches s₁ bs = (bs, s') := by
  simp only [identifyBranches, Prod.ext_iff, List.cons.injEq]
  grind

end Fixed

namespace Grammar.Reading

/-- What holds of each element apart from its identifiers, and what it draws, can be told apart. -/
theorem threads_and {α β : Type} {Q : α → β → Prop} {D : IdSource → β → IdSource → Prop}
    {E : IdSource → List β → IdSource → Prop} (hnil : ∀ s s', E s [] s' ↔ s = s')
    (hcons : ∀ s b bs s', E s (b :: bs) s' ↔ ∃ s₁, D s b s₁ ∧ E s₁ bs s')
    {as : List α} {bs : List β} {s s' : IdSource} :
    Threads (fun a s b s' => Q a b ∧ D s b s') as s bs s' ↔
      List.Forall₂ Q as bs ∧ E s bs s' := by
  constructor
  · intro h
    induction h with
    | nil => exact ⟨.nil, (hnil _ _).mpr rfl⟩
    | cons hb _ ih => exact ⟨.cons hb.1 ih.1, (hcons ..).mpr ⟨_, hb.2, ih.2⟩⟩
  · rintro ⟨hq, hd⟩
    induction hq generalizing s with
    | nil =>
      obtain rfl := (hnil _ _).mp hd
      exact .nil
    | cons hb _ ih =>
      obtain ⟨s₁, h₁, h₂⟩ := (hcons ..).mp hd
      exact .cons ⟨hb, h₁⟩ (ih h₂)

end Grammar.Reading

end Parley
