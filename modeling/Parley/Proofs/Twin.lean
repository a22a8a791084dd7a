import Mathlib.Data.List.Forall2
import Parley.Grammar
import Parley.Proofs.Reader

/-! Token lists with the same texts, read side by side. Whatever relates the places of the tokens relates
the places of the errors: each reader looks at texts only, and takes the place that it reports from a
token of its list or from the end of the list. -/

namespace Parley

variable {P : Position → Position → Prop}

/-- Tokens with the same text whose ends stand in places that `P` relates. -/
structure Token.Twin (P : Position → Position → Prop) (t u : Token) : Prop where
  text_eq : t.text = u.text
  start : P t.start u.start
  stop : P t.stop u.stop

theorem Token.Twin.is_eq {t u : Token} (h : t.Twin P u) (w : String) : t.is w = u.is w := by
  rw [Token.is, Token.is, h.text_eq]

namespace Grammar

abbrev Twins (P : Position → Position → Prop) : List Token → List Token → Prop :=
  List.Forall₂ (Token.Twin P)

section Twins

variable {ts us : List Token}

theorem Twins.texts_eq (h : Twins P ts us) : texts ts = texts us := by
  induction h with
  | nil => rfl
  | cons ht _ ih => rw [texts_cons, texts_cons, ht.text_eq, ih]

/-- The end of a list is the end of its last token, so there has to be one. -/
theorem Twins.endOf (h : Twins P ts us) (hne : ts ≠ []) : P (endOf ts) (endOf us) := by
  induction h with
  | nil => exact absurd rfl hne
  | @cons t u ts us ht hts ih =>
    cases hts with
    | nil => exact ht.stop
    | cons _ _ =>
      rw [Grammar.endOf, Grammar.endOf, List.getLast?_cons_cons, List.getLast?_cons_cons]
      exact ih (List.cons_ne_nil _ _)

theorem Twins.startOf (h : Twins P ts us) (hne : ts ≠ []) : P (startOf ts) (startOf us) := by
  cases h with
  | nil => exact absurd rfl hne
  | cons ht _ => exact ht.start

theorem Twins.takeWhile {f : Token → Bool} (hf : ∀ {t u}, Token.Twin P t u → f t = f u)
    (h : Twins P ts us) : Twins P (ts.takeWhile f) (us.takeWhile f) := by
  induction h with
  | nil => exact .nil
  | cons ht _ ih =>
    rw [List.takeWhile_cons, List.takeWhile_cons, hf ht]
    split
    · exact .cons ht ih
    · exact .nil

theorem Twins.dropWhile {f : Token → Bool} (hf : ∀ {t u}, Token.Twin P t u → f t = f u)
    (h : Twins P ts us) : Twins P (ts.dropWhile f) (us.dropWhile f) := by
  induction h with
  | nil => exact .nil
  | cons ht hts ih =>
    rw [List.dropWhile_cons, List.dropWhile_cons, hf ht]
    split
    · exact ih
    · exact .cons ht hts

end Twins

theorem forall₂_imp_of_mem {α β : Type} {R S : α → β → Prop} {as : List α} {bs : List β}
    (h : List.Forall₂ R as bs) (hrs : ∀ a ∈ as, ∀ b, R a b → S a b) : List.Forall₂ S as bs := by
  induction h with
  | nil => exact .nil
  | cons hab _ ih =>
    obtain ⟨hfirst, hrest⟩ := List.forall_mem_cons.mp hrs
    exact .cons (hfirst _ hab) (ih hrest)

/-- Both outcomes are errors of the same cause in places that `P` relates, or both are results that `R`
relates. -/
inductive Matches {α β : Type} (P : Position → Position → Prop) (R : α → β → Prop) :
    Except ParseError α → Except ParseError β → Prop where
  | ok {a : α} {b : β} : R a b → Matches P R (.ok a) (.ok b)
  | error {cause : Cause} {p q : Position} : P p q →
      Matches P R (.error ⟨cause, p⟩) (.error ⟨cause, q⟩)

/-- What readers return: results that `R` relates, with twins left over. -/
def Leaves {α β : Type} (P : Position → Position → Prop) (R : α → β → Prop) (x : α × List Token)
    (y : β × List Token) : Prop :=
  R x.1 y.1 ∧ Twins P x.2 y.2

section Matches

variable {α β γ δ : Type} {R : α → β → Prop} {Q : γ → δ → Prop} {x : Except ParseError α}
  {y : Except ParseError β}

theorem Matches.imp {S : α → β → Prop} (h : Matches P R x y)
    (hrs : ∀ a b, x = .ok a → R a b → S a b) : Matches P S x y := by
  cases h with
  | ok hr => exact .ok (hrs _ _ rfl hr)
  | error hp => exact .error hp

theorem Matches.with_right (h : Matches P R x y) : Matches P (fun a b => y = .ok b ∧ R a b) x y := by
  cases h with
  | ok hr => exact .ok ⟨rfl, hr⟩
  | error hp => exact .error hp

theorem Matches.bind {f : α → Except ParseError γ} {g : β → Except ParseError δ}
    (h : Matches P R x y) (hf : ∀ a b, x = .ok a → R a b → Matches P Q (f a) (g b)) :
    Matches P Q (x >>= f) (y >>= g) := by
  cases h with
  | ok hr => exact hf _ _ rfl hr
  | error hp => exact .error hp

theorem Matches.map {f : α → γ} {g : β → δ} (h : Matches P R x y)
    (hf : ∀ a b, R a b → Q (f a) (g b)) : Matches P Q (f <$> x) (g <$> y) := by
  cases h with
  | ok hr => exact .ok (hf _ _ hr)
  | error hp => exact .error hp

end Matches

/-! ### Readers of single tokens -/

section Readers

variable {ts us : List Token} {stop stop' : Position}

theorem unexpected_twin {α β : Type} {R : α → β → Prop} {t u : Token} (h : t.Twin P u) :
    Matches P R (.error (unexpected t)) (.error (unexpected u)) := by
  rw [Grammar.unexpected, Grammar.unexpected, h.text_eq]
  exact .error h.start

theorem expect_twin (wanted : Wanted) (hstop : P stop stop') (h : Twins P ts us) :
    Matches P (Leaves P (Token.Twin P)) (expect wanted stop ts) (expect wanted stop' us) := by
  cases h with
  | nil => exact .error hstop
  | cons ht hts =>
    rw [expect, expect, ht.text_eq]
    split
    · exact .ok ⟨ht, hts⟩
    · exact .error ht.start

theorem expectWord_twin (w : String) (hstop : P stop stop') (h : Twins P ts us) :
    Matches P (Twins P) (expectWord w stop ts) (expectWord w stop' us) :=
  (expect_twin _ hstop h).map fun _ _ hr => hr.2

theorem expectText_twin (wanted : Wanted) (hstop : P stop stop') (h : Twins P ts us) :
    Matches P (Leaves P Eq) (expectText wanted stop ts) (expectText wanted stop' us) :=
  (expect_twin wanted hstop h).map fun _ _ hr => ⟨hr.1.text_eq, hr.2⟩

theorem eat?_twin (w : String) (h : Twins P ts us) :
    Option.Rel (Twins P) (eat? w ts) (eat? w us) := by
  cases h with
  | nil => exact .none
  | cons ht hts =>
    rw [eat?, eat?, ht.is_eq]
    split
    · exact .some hts
    · exact .none

theorem expectEnd_twin (h : Twins P ts us) : Matches P Eq (expectEnd ts) (expectEnd us) := by
  cases h with
  | nil => exact .ok rfl
  | cons ht _ => exact unexpected_twin ht

theorem textUntil_twin (w : String) (h : Twins P ts us) :
    Leaves P Eq (textUntil w ts) (textUntil w us) := by
  have hf {t u : Token} (ht : t.Twin P u) : (!t.is w) = (!u.is w) := by rw [ht.is_eq]
  refine ⟨?_, h.dropWhile hf⟩
  have htexts := (h.takeWhile hf).texts_eq
  exact congrArg String.join htexts

end Readers

/-! ### Chains -/

section Chains

variable {α β : Type} {R : α → β → Prop} {item : Reader α} {item' : Reader β} {ts us : List Token}
  {stop stop' : Position}

theorem chain_twin {more? more?' : List Token → Except ParseError (Option (List Token))}
    (hitem : ∀ {ts us}, Twins P ts us → Matches P (Leaves P R) (item ts) (item' us))
    (hmore : ∀ {ts us}, Twins P ts us →
      Matches P (Option.Rel (Twins P)) (more? ts) (more?' us)) (h : Twins P ts us) :
    Matches P (Leaves P (List.Forall₂ R)) (chain item more? ts) (chain item' more?' us) := by
  induction hk : ts.length using Nat.strongRecOn generalizing ts us with
  | ind k ih =>
    subst hk
    have hfirst := hitem h
    rw [chain, chain]
    generalize item ts = x at hfirst ⊢
    generalize item' us = y at hfirst ⊢
    cases hfirst with
    | error hp => exact .error hp
    | @ok x y hxy =>
      obtain ⟨a, rest⟩ := x
      obtain ⟨b, rest'⟩ := y
      obtain ⟨hab, hrest⟩ := hxy
      have hnext := hmore hrest
      dsimp only
      generalize more? rest = x at hnext ⊢
      generalize more?' rest' = y at hnext ⊢
      cases hnext with
      | error hp => exact .error hp
      | ok hxy =>
        cases hxy with
        | none => exact .ok ⟨.cons hab .nil, hrest⟩
        | @some next next' hnext =>
          dsimp only
          rw [← h.length_eq, ← hnext.length_eq]
          split
          · -- the two chains go on together
            have hgo := ih next.length ‹_› hnext rfl
            generalize chain item more? next = x at hgo ⊢
            generalize chain item' more?' next' = y at hgo ⊢
            cases hgo with
            | error hp => exact .error hp
            | ok hxy => exact .ok ⟨.cons hab hxy.1, hxy.2⟩
          · exact .ok ⟨.cons hab .nil, hnext⟩

theorem nextItem?_twin (comma : Wanted) (hstop : P stop stop') (h : Twins P ts us) :
    Matches P (Option.Rel (Twins P)) (nextItem? comma stop ts) (nextItem? comma stop' us) := by
  have heat := eat?_twin ")" h
  rw [nextItem?, nextItem?]
  generalize eat? ")" ts = x at heat ⊢
  generalize eat? ")" us = y at heat ⊢
  cases heat with
  | some _ => exact .ok .none
  | none => exact (expect_twin comma hstop h).map fun _ _ hr => .some hr.2

theorem Twins.tail (h : Twins P ts us) : Twins P ts.tail us.tail := by
  cases h with
  | nil => exact .nil
  | cons _ hts => exact hts

theorem Leaves.of_forall₂_eq {x y : List α × List Token} (h : Leaves P (List.Forall₂ Eq) x y) :
    Leaves P Eq x y := by
  rwa [List.forall₂_eq_eq_eq] at h

theorem commaItems_twin {item item' : Reader α} (comma : Wanted) (hstop : P stop stop')
    (hitem : ∀ {ts us}, Twins P ts us → Matches P (Leaves P Eq) (item ts) (item' us))
    (h : Twins P ts us) : Matches P (Leaves P Eq)
      (commaItems item comma stop ts) (commaItems item' comma stop' us) := by
  have heat := eat?_twin ")" h
  rw [commaItems, commaItems]
  generalize eat? ")" ts = x at heat ⊢
  generalize eat? ")" us = y at heat ⊢
  cases heat with
  | some hrest => exact .ok ⟨rfl, hrest⟩
  | none =>
    refine (chain_twin hitem (nextItem?_twin comma hstop) h).bind fun x y _ hxy => ?_
    exact .ok ⟨hxy.of_forall₂_eq.1, hxy.2.tail⟩

theorem nextRun?_twin (h : Twins P ts us) :
    Matches P (Option.Rel (Twins P)) (nextRun? ts) (nextRun? us) := by
  cases h with
  | nil => exact .ok .none
  | cons ht hts => exact .ok (.some (.cons ht hts))

theorem cut_twin (hitem : ∀ {ts us}, Twins P ts us → Matches P (Leaves P R) (item ts) (item' us))
    (h : Twins P ts us) : Matches P (List.Forall₂ R) (cut item ts) (cut item' us) := by
  cases h with
  | nil => exact .ok .nil
  | cons ht hts => exact (chain_twin hitem nextRun?_twin (.cons ht hts)).map fun _ _ hxy => hxy.1

end Chains

/-! ### Statements, headers and blocks -/

section Blocks

variable {ts us : List Token} {stop stop' : Position}

theorem statement_twin (hstop : P stop stop') (h : Twins P ts us) :
    Matches P (Leaves P (Twins P)) (statement stop ts) (statement stop' us) := by
  induction h with
  | nil => exact .error hstop
  | @cons t u ts us ht hts ih =>
    rw [statement, statement, ht.is_eq, ht.is_eq, ht.is_eq]
    split
    · exact .ok ⟨.cons ht .nil, hts⟩
    · split
      · rw [ht.text_eq]
        exact .error ht.start
      · generalize statement stop ts = x at ih ⊢
        generalize statement stop' us = y at ih ⊢
        cases ih with
        | error hp => exact .error hp
        | ok hxy => exact .ok ⟨.cons ht hxy.1, hxy.2⟩

structure Block.Twin (P : Position → Position → Prop) (b b' : Block) : Prop where
  inner : Twins P b.inner b'.inner
  close : Token.Twin P b.close b'.close

theorem closing?_twin (h : Twins P ts us) (depth : Nat) :
    Option.Rel (Leaves P (Block.Twin P)) (closing? depth ts) (closing? depth us) := by
  induction h generalizing depth with
  | nil => exact .none
  | @cons t u ts us ht hts ih =>
    -- the token is part of the block unless it is the brace that is looked for
    have hstep (depth : Nat) : Option.Rel (Leaves P (Block.Twin P))
        ((closing? depth ts).map fun x => ({ x.1 with inner := t :: x.1.inner }, x.2))
        ((closing? depth us).map fun x => ({ x.1 with inner := u :: x.1.inner }, x.2)) := by
      have hrest := ih depth
      generalize closing? depth ts = x at hrest ⊢
      generalize closing? depth us = y at hrest ⊢
      cases hrest with
      | none => exact .none
      | some hxy => exact .some ⟨⟨.cons ht hxy.1.inner, hxy.1.close⟩, hxy.2⟩
    rw [closing?.eq_def, closing?.eq_def]
    dsimp only
    rw [ht.is_eq, ht.is_eq]
    split
    · exact hstep _
    · split
      · cases depth with
        | zero => exact .some ⟨⟨.nil, ht⟩, hts⟩
        | succ depth => exact hstep depth
      · exact hstep depth

theorem block_twin {brace brace' : Token} (hbrace : brace.Twin P brace') (h : Twins P ts us) :
    Matches P (Leaves P (Block.Twin P)) (block brace ts) (block brace' us) := by
  have hclosing := closing?_twin h 0
  rw [block, block]
  generalize closing? 0 ts = x at hclosing ⊢
  generalize closing? 0 us = y at hclosing ⊢
  cases hclosing with
  | none => exact .error hbrace.start
  | some hxy => exact .ok hxy

theorem header_twin (h : Twins P ts us) : Leaves P (Twins P) (header ts) (header us) := by
  have hf {t u : Token} (ht : t.Twin P u) :
      (!(t.is openBrace || t.is closeBrace || t.is ";")) =
        (!(u.is openBrace || u.is closeBrace || u.is ";")) := by
    rw [ht.is_eq, ht.is_eq, ht.is_eq]
  exact ⟨h.takeWhile hf, h.dropWhile hf⟩

/-- A block with the token that opens it and the one that closes it. -/
theorem Block.Twin.run {brace brace' : Token} (hbrace : brace.Twin P brace') {b b' : Block}
    (h : b.Twin P b') : Twins P (brace :: b.inner ++ [b.close]) (brace' :: b'.inner ++ [b'.close]) :=
  List.rel_append (.cons hbrace h.inner) (.cons h.close .nil)

end Blocks

end Grammar

end Parley
