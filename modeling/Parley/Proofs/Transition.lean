import Mathlib.Logic.Relation

/-! Labelled transition systems with silent moves, and when two of them behave alike: each answers the
moves of the other, silent moves aside, both end together, and neither goes on silently for ever where
the other does not. -/

namespace Parley

universe u v w

/-- Moves from state to state, under a label or silently, and which states have ended. -/
structure System (σ : Type u) (α : Type v) where
  step : σ → Option α → σ → Prop
  ended : σ → Prop

namespace System

variable {σ : Type u} {τ : Type w} {α : Type v}

/-- Any number of silent moves. -/
def Silent (S : System σ α) : σ → σ → Prop := Relation.ReflTransGen fun a b => S.step a none b

/-- A move with any number of silent moves around it. -/
def Moves (S : System σ α) (a : σ) : Option α → σ → Prop
  | none, b => S.Silent a b
  | some x, b => ∃ a' b', S.Silent a a' ∧ S.step a' (some x) b' ∧ S.Silent b' b

/-- Whether silent moves come to an end whichever are taken. -/
def Converges (S : System σ α) (a : σ) : Prop := Acc (fun b a => S.step a none b) a

/-- A relation under which two systems behave alike. -/
structure Bisimulation (S : System σ α) (T : System τ α) (R : σ → τ → Prop) : Prop where
  forth : ∀ {a b x a'}, R a b → S.step a x a' → ∃ b', T.Moves b x b' ∧ R a' b'
  back : ∀ {a b x b'}, R a b → T.step b x b' → ∃ a', S.Moves a x a' ∧ R a' b'
  ends_forth : ∀ {a b}, R a b → S.ended a → ∃ b', T.Silent b b' ∧ T.ended b'
  ends_back : ∀ {a b}, R a b → T.ended b → ∃ a', S.Silent a a' ∧ S.ended a'
  converges : ∀ {a b}, R a b → (S.Converges a ↔ T.Converges b)

/-- Two states from which two systems behave alike. -/
def Bisimilar (S : System σ α) (T : System τ α) (a : σ) (b : τ) : Prop :=
  ∃ R, S.Bisimulation T R ∧ R a b

variable {S : System σ α}

theorem Silent.refl (a : σ) : S.Silent a a := Relation.ReflTransGen.refl

theorem Silent.head {a b c : σ} (h : S.step a none b) (hs : S.Silent b c) : S.Silent a c :=
  Relation.ReflTransGen.head h hs

theorem Silent.trans {a b c : σ} (h : S.Silent a b) (hs : S.Silent b c) : S.Silent a c :=
  Relation.ReflTransGen.trans h hs

theorem Moves.of_step {a b : σ} {x : α} (h : S.step a (some x) b) : S.Moves a (some x) b :=
  ⟨a, b, .refl a, h, .refl b⟩

/-- Where silent moves are determined, they end as soon as one way of taking them does. -/
theorem converges_of_silent {P : σ → Prop} (closed : ∀ {a b}, P a → S.step a none b → P b)
    (unique : ∀ {a b b'}, P a → S.step a none b → S.step a none b' → b = b') {a b : σ}
    (h : S.Silent a b) (stuck : ∀ c, ¬ S.step b none c) (ha : P a) : S.Converges a := by
  induction h using Relation.ReflTransGen.head_induction_on with
  | refl => exact Acc.intro b fun c hc => absurd hc (stuck c)
  | head hs _ ih =>
    refine Acc.intro _ fun c hc => ?_
    rw [unique ha hc hs]
    exact ih (closed ha hs)

end System

/-- One element of a list is replaced by a smaller one. -/
def SmallerAt {σ : Type u} (r : σ → σ → Prop) (bs as : List σ) : Prop :=
  ∃ k a b, as[k]? = some a ∧ r b a ∧ bs = as.set k b

theorem acc_smallerAt {σ : Type u} {r : σ → σ → Prop} {as : List σ} (h : ∀ a ∈ as, Acc r a) :
    Acc (SmallerAt r) as := by
  induction as with
  | nil =>
    refine Acc.intro _ ?_
    rintro bs ⟨k, a, b, hk, _, _⟩
    simp at hk
  | cons a as ih =>
    have ha := h a List.mem_cons_self
    have hs := ih fun a hm => h a (List.mem_cons_of_mem _ hm)
    clear h ih
    -- either the head becomes smaller and the rest stays, or the other way round
    induction ha generalizing as with
    | intro a _ iha =>
      induction hs with
      | intro as hacc ihs =>
        refine Acc.intro _ ?_
        rintro bs ⟨k, c, b, hk, hr, rfl⟩
        cases k with
        | zero =>
          obtain rfl : a = c := by simpa using hk
          exact iha b hr as (Acc.intro as hacc)
        | succ k => exact ihs _ ⟨k, c, b, by simpa using hk, hr, rfl⟩

end Parley
