import Parley.Proofs.Acceptance
import Parley.Proofs.Schedule

/-! Concurrent reading. Main statement: whatever the schedule, reading sections and branches side by
side and numbering the steps again comes to what reading them in order comes to. -/

namespace Parley

/-- The same step apart from numbers, which are given again. -/
def Node.Like (n n' : Node) : Prop := ∀ seq, n.renumber seq = n'.renumber seq

def Conversation.Like (c c' : Conversation) : Prop :=
  ∀ seq, Conversation.renumber seq c = Conversation.renumber seq c'

theorem Conversation.like_of_forall₂ {c c' : Conversation} (h : List.Forall₂ Node.Like c c') :
    Conversation.Like c c' := by
  induction h with
  | nil => exact fun _ => rfl
  | cons hn _ ih =>
    intro seq
    simp only [Conversation.renumber, hn seq, ih _]

theorem renumberBranches_eq {bs bs' : List Conversation} (h : List.Forall₂ Conversation.Like bs bs')
    (seq : UInt32) : renumberBranches seq bs = renumberBranches seq bs' := by
  induction h generalizing seq with
  | nil => rfl
  | cons hb _ ih => simp only [renumberBranches, hb seq, ih]

namespace Grammar

open Reading

section Alike

variable {α β : Type} {R : α → α → Prop} {Q : β → β → Prop}

theorem Reading.Alike.imp {S : α → α → Prop} {t t' : Reading α} (h : Alike R t t')
    (hrs : ∀ a a', R a a' → S a a') : Alike S t t' := by
  rw [← bind_pure t, ← bind_pure t']
  exact h.bind fun a a' ha => .ok (hrs a a' ha)

theorem alike_lift_bind {x : Except ParseError α} {f f' : α → Reading β}
    (h : ∀ a, Alike Q (f a) (f' a)) : Alike Q (liftM x >>= f) (liftM x >>= f') := by
  cases x with
  | error e => exact .error
  | ok a => exact h a

theorem alike_issue_bind {label : String} {f : NodeId → Reading β}
    (h : ∀ scope n n', Alike Q (f ⟨scope, label, n⟩) (f ⟨scope, label, n'⟩)) :
    Alike Q (issue label >>= f) (issue label >>= f) :=
  .draw h

theorem alike_mapM {as : List β} {f : β → Reading α} (h : ∀ a ∈ as, Alike R (f a) (f a)) :
    Alike (List.Forall₂ R) (as.mapM f) (as.mapM f) := by
  induction as with
  | nil => exact .ok .nil
  | cons a as ih =>
    obtain ⟨ha, has⟩ := List.forall_mem_cons.mp h
    rw [List.mapM_cons]
    exact ha.bind fun b b' hb => (ih has).bind fun bs bs' hbs => .ok (.cons hb hbs)

theorem alike_all {as : List β} {f : β → Reading α} (h : ∀ a ∈ as, Alike R (f a) (f a)) :
    Alike (List.Forall₂ R) (all (as.map f)) (all (as.map f)) := by
  induction as with
  | nil => exact .ok .nil
  | cons a as ih =>
    obtain ⟨ha, has⟩ := List.forall_mem_cons.mp h
    exact .both ha (ih has) fun b b' bs bs' hb hbs => .ok (.cons hb hbs)

end Alike

section Steps

variable {protagonist : String} {stop : Position} {ts : List Token}
  {inner : List Token → Reading Conversation}

theorem alike_readMessage :
    Alike Node.Like (readMessage protagonist stop ts) (readMessage protagonist stop ts) := by
  unfold readMessage
  refine alike_lift_bind fun p => ?_
  refine alike_lift_bind fun rest => ?_
  refine alike_lift_bind fun q => ?_
  refine alike_lift_bind fun r => ?_
  refine alike_lift_bind fun rest => ?_
  refine alike_lift_bind fun _ => ?_
  refine alike_issue_bind fun scope n n' => ?_
  exact .ok fun seq => rfl

theorem alike_readJump : Alike Node.Like (readJump stop ts) (readJump stop ts) := by
  unfold readJump
  refine alike_lift_bind fun p => ?_
  refine alike_lift_bind fun rest => ?_
  refine alike_lift_bind fun _ => ?_
  refine alike_issue_bind fun scope n n' => ?_
  exact .ok fun seq => rfl

theorem alike_readLoop (h : ∀ b, Alike Conversation.Like (inner b) (inner b)) :
    Alike Node.Like (readLoop inner stop ts) (readLoop inner stop ts) := by
  unfold readLoop
  refine alike_lift_bind fun p => ?_
  refine alike_issue_bind fun scope n n' => ?_
  refine alike_lift_bind fun q => ?_
  refine alike_lift_bind fun r => ?_
  refine alike_lift_bind fun _ => ?_
  refine (h _).bind fun body body' hbody => .ok fun seq => ?_
  simp only [Node.renumber, NodeId.renumber, hbody (seq + 1)]

theorem alike_readChoice (h : ∀ b, Alike Conversation.Like (inner b) (inner b)) :
    Alike Node.Like (readChoice inner stop ts) (readChoice inner stop ts) := by
  unfold readChoice
  refine alike_lift_bind fun rest => ?_
  refine alike_lift_bind fun p => ?_
  refine alike_issue_bind fun scope n n' => ?_
  refine alike_lift_bind fun blocks => ?_
  refine (alike_all fun b _ => h b).bind fun bs bs' hbs => .ok fun seq => ?_
  simp only [Node.renumber, NodeId.renumber, renumberBranches_eq hbs]

theorem alike_readPar (h : ∀ b, Alike Conversation.Like (inner b) (inner b)) :
    Alike Node.Like (readPar inner ts) (readPar inner ts) := by
  unfold readPar
  refine alike_issue_bind fun scope n n' => ?_
  refine alike_lift_bind fun blocks => ?_
  refine (alike_all fun b _ => h b).bind fun bs bs' hbs => .ok fun seq => ?_
  simp only [Node.renumber, NodeId.renumber, renumberBranches_eq hbs]

theorem alike_readStep (h : ∀ b, Alike Conversation.Like (inner b) (inner b)) (run : List Token) :
    Alike Node.Like (readStep protagonist inner run) (readStep protagonist inner run) := by
  cases run with
  | nil => exact alike_readMessage
  | cons t ts =>
    rw [readStep]
    split
    · exact alike_readLoop h
    · split
      · exact alike_readChoice h
      · split
        · exact alike_readPar h
        · split
          · exact alike_readJump
          · split
            · cases readCall (endOf (t :: ts)) ts with
              | error e => exact .error
              | ok n => exact .ok fun seq => rfl
            · exact alike_readMessage

theorem alike_readConversation (protagonist : String) (ts : List Token) :
    Alike Conversation.Like (readConversation protagonist ts) (readConversation protagonist ts) := by
  induction hk : ts.length using Nat.strongRecOn generalizing ts with
  | ind k ih =>
    subst hk
    rw [readConversation]
    refine alike_lift_bind fun runs => ?_
    have hinner (b : List Token) : Alike Conversation.Like
        (if b.length < ts.length then readConversation protagonist b
          else .done (.error ⟨.unclosed, startOf b⟩))
        (if b.length < ts.length then readConversation protagonist b
          else .done (.error ⟨.unclosed, startOf b⟩)) := by
      split
      · exact ih b.length ‹_› b rfl
      · exact .error
    refine Alike.imp (alike_mapM fun run _ => alike_readStep hinner run) ?_
    exact fun _ _ => Conversation.like_of_forall₂

end Steps

section Whole

theorem alike_readLocal (run : List Token) : Alike Eq (readLocal true run) (readLocal true run) := by
  unfold readLocal
  refine alike_lift_bind fun rest => ?_
  refine alike_lift_bind fun rest => ?_
  refine alike_lift_bind fun p => ?_
  refine alike_lift_bind fun rest => ?_
  refine alike_lift_bind fun q => ?_
  refine alike_lift_bind fun rest => ?_
  refine alike_lift_bind fun r => ?_
  refine alike_lift_bind fun b => ?_
  refine alike_lift_bind fun b => ?_
  refine alike_lift_bind fun _ => ?_
  have hwithin : Alike Conversation.Like
      (.within (IdSource.ofScope p.1) (readConversation q.1 b.1.inner) pure)
      (.within (IdSource.ofScope p.1) (readConversation q.1 b.1.inner) pure) :=
    .within rfl (alike_readConversation _ _) fun _ _ hc => .ok hc
  refine hwithin.bind fun c c' hc => .ok ?_
  simp only [if_true, hc 0]

/-- No numbers show in what is read concurrently. -/
theorem alike_protocolReading (tokens : List Token) :
    Alike Eq (protocolReading true tokens) (protocolReading true tokens) := by
  unfold protocolReading
  refine alike_lift_bind fun sections => ?_
  refine alike_lift_bind fun moduleName? => ?_
  have htype (run : List Token) : Alike Eq (.done (readType run)) (.done (readType run)) := by
    cases readType run with
    | error e => exact .error
    | ok t => exact .ok rfl
  refine (alike_all fun run _ => htype run).bind fun types types' htypes => ?_
  refine (alike_all fun run _ => alike_readLocal run).bind fun locals locals' hlocals => ?_
  rw [List.forall₂_eq_eq_eq] at htypes hlocals
  subst htypes hlocals
  split
  · exact .error
  · exact .ok rfl

theorem toOption_readProtocol (tokens : List Token) :
    (readProtocol true tokens).toOption = (readProtocol false tokens).toOption := by
  have heq (p : Protocol) : readProtocol true tokens = .ok p ↔ readProtocol false tokens = .ok p := by
    simp only [readProtocol, Outcome.map_eq_ok, Prod.exists, protocolReading_eq_ok]
  cases ht : readProtocol true tokens with
  | ok p => rw [(heq p).mp ht]
  | error e =>
    cases hf : readProtocol false tokens with
    | ok p =>
      rw [(heq p).mpr hf] at ht
      cases ht
    | error e' => rfl

theorem Reading.Agree.toOption_eq {α : Type} {x y : Except ParseError α} (h : Agree Eq x y) :
    x.toOption = y.toOption := by
  cases h with
  | ok h => rw [h]
  | error => rfl

theorem toOption_of_reaches {tokens : List Token} {outcome : Except ParseError Protocol} {s : IdSource}
    (h : Reaches (protocolReading true tokens) (IdSource.ofScope "") (.done outcome) s) :
    outcome.toOption = (readProtocol false tokens).toOption := by
  obtain ⟨s', hrun⟩ := reaches_run (protocolReading true tokens) (IdSource.ofScope "")
  have hagree := (alike_protocolReading tokens).agree h.ends hrun.ends
  exact hagree.toOption_eq.trans (toOption_readProtocol tokens)

/-- Whatever the schedule, concurrent reading comes to an end, and to the protocol that reading in
order gives, if there is one. Reading part by part is one of the schedules. -/
theorem concurrent_eq_sequential (tokens : List Token) :
    (∀ outcome s, Reaches (protocolReading true tokens) (IdSource.ofScope "") (.done outcome) s →
      outcome.toOption = (readProtocol false tokens).toOption) ∧
    (∀ t s, Reaches (protocolReading true tokens) (IdSource.ofScope "") t s →
      (∃ outcome, t = .done outcome) ∨ ∃ t' s', Step t s t' s') ∧
    Acc Goes (protocolReading true tokens) ∧
    ∃ s, Reaches (protocolReading true tokens) (IdSource.ofScope "")
      (.done (readProtocol true tokens)) s := by
  obtain ⟨s, hrun⟩ := reaches_run (protocolReading true tokens) (IdSource.ofScope "")
  exact ⟨fun outcome s' => toOption_of_reaches, fun t s _ => exists_step t s, acc_goes _, s, hrun⟩

end Whole

end Grammar

end Parley
