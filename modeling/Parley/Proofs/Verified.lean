import Parley.Compile
import Parley.Proofs.Declared

/-! Which protocols are verified. What is asked of a protocol is said of its tree alone: whatever stands
in it, inside whatever other steps, is declared, and declared once. -/

namespace Parley

open Outcome

/-- A step of a conversation, at whatever depth. -/
inductive Conversation.Contains : Conversation → Node → Prop where
  | here {c : Conversation} {n : Node} : n ∈ c → Contains c n
  | choice {c b : Conversation} {n : Node} {id : NodeId} {chooser : String} {bs : List Conversation} :
      .choice id chooser bs ∈ c → b ∈ bs → Contains b n → Contains c n
  | par {c b : Conversation} {n : Node} {id : NodeId} {bs : List Conversation} :
      .par id bs ∈ c → b ∈ bs → Contains b n → Contains c n
  | loop {c body : Conversation} {n : Node} {id : NodeId} {label : String} :
      .loop id label body ∈ c → Contains body n → Contains c n

theorem Conversation.mem_preorder {c : Conversation} {n : Node} :
    n ∈ Conversation.preorder c ↔ ∃ m ∈ c, n ∈ m.preorder := by
  induction c with
  | nil => simp [Conversation.preorder]
  | cons m c ih => simp [Conversation.preorder, ih]

theorem mem_branchesPreorder {bs : List Conversation} {n : Node} :
    n ∈ branchesPreorder bs ↔ ∃ b ∈ bs, n ∈ Conversation.preorder b := by
  induction bs with
  | nil => simp [branchesPreorder]
  | cons b bs ih => simp [branchesPreorder, ih]

theorem Node.mem_preorder_self (n : Node) : n ∈ n.preorder := by
  cases n <;> simp [Node.preorder]

theorem Conversation.Contains.mem_preorder {c : Conversation} {n : Node}
    (h : Conversation.Contains c n) : n ∈ Conversation.preorder c := by
  induction h with
  | here hn => exact Conversation.mem_preorder.mpr ⟨_, hn, Node.mem_preorder_self _⟩
  | choice hm hb _ ih =>
    refine Conversation.mem_preorder.mpr ⟨_, hm, ?_⟩
    rw [Node.preorder]
    exact List.mem_cons_of_mem _ (mem_branchesPreorder.mpr ⟨_, hb, ih⟩)
  | par hm hb _ ih =>
    refine Conversation.mem_preorder.mpr ⟨_, hm, ?_⟩
    rw [Node.preorder]
    exact List.mem_cons_of_mem _ (mem_branchesPreorder.mpr ⟨_, hb, ih⟩)
  | loop hm _ ih =>
    refine Conversation.mem_preorder.mpr ⟨_, hm, ?_⟩
    rw [Node.preorder]
    exact List.mem_cons_of_mem _ ih

theorem Conversation.Contains.mono {c d : Conversation} {n : Node} (hsub : c ⊆ d)
    (h : Conversation.Contains c n) : Conversation.Contains d n := by
  cases h with
  | here hn => exact .here (hsub hn)
  | choice hm hb h => exact .choice (hsub hm) hb h
  | par hm hb h => exact .par (hsub hm) hb h
  | loop hm h => exact .loop (hsub hm) h

mutual

theorem Node.contains_of_mem_preorder {n : Node} : ∀ m : Node, n ∈ m.preorder →
    Conversation.Contains [m] n
  | .choice id chooser bs, h => by
    rw [Node.preorder, List.mem_cons] at h
    rcases h with rfl | h
    · exact .here List.mem_cons_self
    · obtain ⟨b, hb, hn⟩ := contains_of_mem_branchesPreorder bs h
      exact .choice List.mem_cons_self hb hn
  | .par id bs, h => by
    rw [Node.preorder, List.mem_cons] at h
    rcases h with rfl | h
    · exact .here List.mem_cons_self
    · obtain ⟨b, hb, hn⟩ := contains_of_mem_branchesPreorder bs h
      exact .par List.mem_cons_self hb hn
  | .loop id label body, h => by
    rw [Node.preorder, List.mem_cons] at h
    rcases h with rfl | h
    · exact .here List.mem_cons_self
    · exact .loop List.mem_cons_self (Conversation.contains_of_mem_preorder body h)
  | .message m, h => .here (by rwa [Node.preorder] at h)
  | .call name roles, h => .here (by rwa [Node.preorder] at h)
  | .jump id label, h => .here (by rwa [Node.preorder] at h)

theorem Conversation.contains_of_mem_preorder {n : Node} : ∀ c : List Node,
    n ∈ Conversation.preorder c → Conversation.Contains c n
  | [], h => by simp [Conversation.preorder] at h
  | m :: c, h => by
    rw [Conversation.preorder] at h
    rcases List.mem_append.mp h with h | h
    · exact (Node.contains_of_mem_preorder m h).mono (by simp)
    · exact (Conversation.contains_of_mem_preorder c h).mono (List.subset_cons_self m c)

theorem contains_of_mem_branchesPreorder {n : Node} : ∀ bs : List (List Node),
    n ∈ branchesPreorder bs → ∃ b ∈ bs, Conversation.Contains b n
  | [], h => by simp [branchesPreorder] at h
  | b :: bs, h => by
    rw [branchesPreorder] at h
    rcases List.mem_append.mp h with h | h
    · exact ⟨b, List.mem_cons_self, Conversation.contains_of_mem_preorder b h⟩
    · obtain ⟨b', hb, hn⟩ := contains_of_mem_branchesPreorder bs h
      exact ⟨b', List.mem_cons_of_mem b hb, hn⟩

end

theorem Conversation.contains_iff_mem_preorder {c : Conversation} {n : Node} :
    Conversation.Contains c n ↔ n ∈ Conversation.preorder c :=
  ⟨Contains.mem_preorder, contains_of_mem_preorder c⟩

/-- What is asked of a local protocol, given the types that are known. -/
structure LocalProtocol.Declared (l : LocalProtocol) (types : List String) : Prop where
  roles : l.roles.Nodup
  protagonist : l.protagonist ∈ l.roles
  steps : ∀ n, Conversation.Contains l.conversation n → n.Declared l types

theorem LocalProtocol.check_eq_ok_iff_declared {l : LocalProtocol} {types : List String} :
    l.check types = .ok () ↔ l.Declared types := by
  rw [check_eq_ok]
  simp only [← Conversation.contains_iff_mem_preorder]
  constructor
  · rintro ⟨hroles, hprotagonist, hsteps⟩
    exact ⟨hroles, hprotagonist, hsteps⟩
  · intro h
    exact ⟨h.roles, h.protagonist, h.steps⟩

namespace Protocol

/-- What is asked of a protocol. -/
structure Declared (p : Protocol) : Prop where
  inhabited : p.locals ≠ []
  aliases : p.aliases.Nodup
  foreign : ∀ name ∈ p.aliases, name ∉ nativeTypes
  distinct : (p.locals.map fun l => (l.name, l.protagonist)).Nodup
  locals : ∀ l ∈ p.locals, l.Declared (nativeTypes ++ p.aliases)

/-- Exactly the declared protocols are verified, and any other is reported for its declarations. -/
theorem verify_eq_ok_iff_declared (p : Protocol) : (p.verify = .ok () ↔ p.Declared) ∧
    ∀ e, p.verify = .error e → e.kind = .declaration := by
  constructor
  · rw [verify, mapError_eq_ok, check_eq_ok]
    simp only [LocalProtocol.check_eq_ok_iff_declared]
    constructor
    · rintro ⟨hne, ⟨haliases, hforeign⟩, hdistinct, hlocals⟩
      exact ⟨hne, haliases, hforeign, hdistinct, hlocals⟩
    · intro h
      exact ⟨h.inhabited, ⟨h.aliases, h.foreign⟩, h.distinct, h.locals⟩
  · intro e he
    obtain ⟨d, _, rfl⟩ := mapError_eq_error.mp he
    rfl

end Protocol

end Parley
