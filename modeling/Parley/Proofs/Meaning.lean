import Parley.Node
import Parley.Proofs.Transition

/-! The meaning of a conversation, given on the tree itself. A thread has steps left to do and loops
that it is inside of; a fork waits for its branches, each of which runs by itself. -/

namespace Parley

/-- What can be seen of a conversation. -/
inductive Action where
  | exchange (message : Message)
  | branch (choice : NodeId) (chooser : String) (index : Nat)
  | fork (par : NodeId)
  | join (par : NodeId)

/-- A loop that is being gone round, and the steps that follow it. -/
structure Round where
  label : String
  body : Conversation
  after : Conversation

/-- How far a conversation has come. The loops of a thread come innermost first. -/
inductive Activity where
  | thread (rest : Conversation) (rounds : List Round)
  | fork (par : NodeId) (branches : List Activity) (rest : Conversation) (rounds : List Round)

namespace Activity

def start (c : Conversation) : Activity := .thread c []

/-- The moves of a conversation. -/
inductive Step : Activity → Option Action → Activity → Prop where
  | message {m : Message} {c : Conversation} {rs : List Round} :
      Step (.thread (.message m :: c) rs) (some (.exchange m)) (.thread c rs)
  | choice {id : NodeId} {chooser : String} {bs : List Conversation} {b c : Conversation} {k : Nat}
      {rs : List Round} : bs[k]? = some b →
      Step (.thread (.choice id chooser bs :: c) rs) (some (.branch id chooser k))
        (.thread (b ++ c) rs)
  | call {name : String} {roles : List String} {c : Conversation} {rs : List Round} :
      Step (.thread (.call name roles :: c) rs) none (.thread c rs)
  | enter {id : NodeId} {label : String} {body c : Conversation} {rs : List Round} :
      Step (.thread (.loop id label body :: c) rs) none (.thread body (⟨label, body, c⟩ :: rs))
  /-- A jump goes back to the innermost loop with its label. -/
  | again {id : NodeId} {label : String} {c : Conversation} {rs outer : List Round} {r : Round} :
      rs.dropWhile (fun r => r.label != label) = r :: outer →
      Step (.thread (.jump id label :: c) rs) none (.thread r.body (r :: outer))
  | leave {r : Round} {rs : List Round} : Step (.thread [] (r :: rs)) none (.thread r.after rs)
  | fork {id : NodeId} {bs : List Conversation} {c : Conversation} {rs : List Round} :
      Step (.thread (.par id bs :: c) rs) (some (.fork id)) (.fork id (bs.map start) c rs)
  | within {id : NodeId} {as : List Activity} {a a' : Activity} {x : Option Action} {k : Nat}
      {c : Conversation} {rs : List Round} : as[k]? = some a → Step a x a' →
      Step (.fork id as c rs) x (.fork id (as.set k a') c rs)
  | join {id : NodeId} {as : List Activity} {c : Conversation} {rs : List Round} :
      (∀ a ∈ as, a = .thread [] []) → Step (.fork id as c rs) (some (.join id)) (.thread c rs)

/-- The conversation as a system; it has ended when nothing is left to do and no loop is left to
leave. -/
def system : System Activity Action := ⟨Step, fun a => a = .thread [] []⟩

section Silence

variable {id : NodeId} {as : List Activity} {a b : Activity} {c : Conversation} {rs : List Round}

theorem step_none_unique {b' : Activity} (h : Step (.thread c rs) none b)
    (h' : Step (.thread c rs) none b') : b = b' := by
  cases h with
  | call | enter | leave =>
    cases h'
    rfl
  | again hr =>
    cases h' with
    | again hr' =>
      rw [hr] at hr'
      cases hr'
      rfl

theorem exists_thread_of_step_none (h : Step (.thread c rs) none b) :
    ∃ c' rs', b = .thread c' rs' := by
  cases h <;> exact ⟨_, _, rfl⟩

theorem silent_within {k : Nat} (hk : as[k]? = some a) (h : system.Silent a b) :
    system.Silent (.fork id as c rs) (.fork id (as.set k b) c rs) := by
  obtain ⟨hlt, rfl⟩ := List.getElem?_eq_some_iff.mp hk
  induction h with
  | refl =>
    rw [List.set_getElem_self]
    exact .refl _
  | @tail b b' _ hs ih =>
    have hb : (as.set k b)[k]? = some b := List.getElem?_set_self hlt
    have hset : (as.set k b).set k b' = as.set k b' := List.set_set ..
    exact Relation.ReflTransGen.tail ih (hset ▸ Step.within hb hs)

theorem moves_within {k : Nat} {x : Option Action} (hk : as[k]? = some a)
    (h : system.Moves a x b) :
    system.Moves (.fork id as c rs) x (.fork id (as.set k b) c rs) := by
  cases x with
  | none => exact silent_within hk h
  | some x =>
    obtain ⟨a', b', hbefore, hstep, hafter⟩ := h
    have hlt : k < as.length := (List.getElem?_eq_some_iff.mp hk).1
    have ha' : (as.set k a')[k]? = some a' := List.getElem?_set_self hlt
    have hb' : (as.set k b')[k]? = some b' := List.getElem?_set_self hlt
    refine ⟨_, .fork id (as.set k b') c rs, silent_within hk hbefore, ?_, ?_⟩
    · have hset : (as.set k a').set k b' = as.set k b' := List.set_set ..
      exact hset ▸ Step.within ha' hstep
    · have hset : (as.set k b').set k b = as.set k b := List.set_set ..
      exact hset ▸ silent_within hb' hafter

/-- Branches that can each end silently can do so together. -/
theorem silent_ended (h : ∀ a ∈ as, system.Silent a (.thread [] [])) :
    ∃ as', (∀ a ∈ as', a = .thread [] []) ∧
      system.Silent (.fork id as c rs) (.fork id as' c rs) := by
  -- the branches end one after the other; `pre` are those that have
  suffices hpre : ∀ (pre as : List Activity), (∀ a ∈ pre, a = .thread [] []) →
      (∀ a ∈ as, system.Silent a (.thread [] [])) →
      ∃ as', (∀ a ∈ as', a = .thread [] []) ∧
        system.Silent (.fork id (pre ++ as) c rs) (.fork id as' c rs) from
    hpre [] as (by simp) h
  intro pre as hpre has
  induction as generalizing pre with
  | nil => exact ⟨pre, hpre, by rw [List.append_nil]; exact .refl _⟩
  | cons a as ih =>
    have hpre' : ∀ a ∈ pre ++ [.thread [] []], a = .thread [] [] := by
      simpa [or_imp, forall_and] using hpre
    obtain ⟨as', hended, hs⟩ := ih _ hpre' fun a hm => has a (List.mem_cons_of_mem _ hm)
    have hk : (pre ++ a :: as)[pre.length]? = some a := by simp
    have hfirst : system.Silent (.fork id (pre ++ a :: as) c rs)
        (.fork id ((pre ++ a :: as).set pre.length (.thread [] [])) c rs) :=
      silent_within hk (has a List.mem_cons_self)
    refine ⟨as', hended, hfirst.trans ?_⟩
    simpa using hs

theorem converges_fork (h : ∀ a ∈ as, system.Converges a) :
    system.Converges (.fork id as c rs) := by
  have hacc := acc_smallerAt h
  clear h
  induction hacc with
  | intro as _ ih =>
    refine Acc.intro _ fun b hb => ?_
    cases hb with
    | within hk hs => exact ih _ ⟨_, _, _, hk, hs, rfl⟩

end Silence

end Activity

end Parley
