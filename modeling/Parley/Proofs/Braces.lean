import Parley.Proofs.Reader

/-! Where a statement, a header and a block end. A block ends with the brace that closes it, so what
stands in it is balanced. -/

namespace Parley.Grammar

/-- Neither a brace nor a semicolon. -/
def Plain (w : String) : Prop := w ≠ openBrace ∧ w ≠ closeBrace ∧ w ≠ ";"

instance (w : String) : Decidable (Plain w) := inferInstanceAs (Decidable (_ ∧ _))

theorem header_eq {ts head rest : List Token} : header ts = (head, rest) ↔
    ts = head ++ rest ∧ (∀ w ∈ texts head, Plain w) ∧ ∀ w ∈ (texts rest).head?, ¬ Plain w := by
  have hcut : (ts.takeWhile (fun t => !(t.is openBrace || t.is closeBrace || t.is ";")) = head ∧
      ts.dropWhile (fun t => !(t.is openBrace || t.is closeBrace || t.is ";")) = rest) ↔ _ :=
    takeWhile_dropWhile_eq (p := fun w => !(w == openBrace || w == closeBrace || w == ";"))
  have hplain (w : String) :
      (!(w == openBrace || w == closeBrace || w == ";")) = true ↔ Plain w := by
    simp [Plain, and_assoc]
  simp only [hplain, ← Bool.not_eq_true] at hcut
  simpa only [header, Prod.mk.injEq] using hcut

theorem statement_append {stop : Position} {body rest : List Token} {semi : Token}
    (hbody : ∀ w ∈ texts body, Plain w) (hsemi : semi.text = ";") :
    statement stop (body ++ semi :: rest) = .ok (body ++ [semi], rest) := by
  induction body with
  | nil => simp [statement, Token.is, hsemi]
  | cons t body ih =>
    obtain ⟨⟨hopen, hclose, ht⟩, hrest⟩ := List.forall_mem_cons.mp hbody
    have hs := ih hrest
    simp [statement, Token.is, hopen, hclose, ht, hs]

theorem statement_eq_ok {stop : Position} {ts run rest : List Token} :
    statement stop ts = .ok (run, rest) ↔ ∃ body semi, ts = body ++ semi :: rest ∧
      run = body ++ [semi] ∧ semi.text = ";" ∧ ∀ w ∈ texts body, Plain w := by
  constructor
  · intro h
    induction ts generalizing run with
    | nil => simp [statement] at h
    | cons t ts ih =>
      simp only [statement, Token.is, Bool.or_eq_true, beq_iff_eq] at h
      split at h
      · cases h
        exact ⟨[], t, rfl, rfl, ‹_›, by simp⟩
      · split at h
        · cases h
        · split at h
          · cases h
          · rename_i hsemi hbrace _ _ _ hs
            cases h
            obtain ⟨body, semi, rfl, rfl, hend, hbody⟩ := ih hs
            obtain ⟨hopen, hclose⟩ := not_or.mp hbrace
            refine ⟨t :: body, semi, rfl, rfl, hend, ?_⟩
            exact List.forall_mem_cons.mpr ⟨⟨hopen, hclose, hsemi⟩, hbody⟩
  · rintro ⟨body, semi, rfl, rfl, hsemi, hbody⟩
    exact statement_append hbody hsemi

theorem closeBrace_ne_openBrace : closeBrace ≠ openBrace := by decide

/-- How many braces are open behind some texts, if none is closed that was not open. -/
def braceDepth? : Nat → List String → Option Nat
  | depth, [] => some depth
  | depth, w :: ws =>
    if w = openBrace then braceDepth? (depth + 1) ws
    else if w = closeBrace then
      match depth with
      | 0 => none
      | depth + 1 => braceDepth? depth ws
    else braceDepth? depth ws

/-- Each brace has its partner. -/
def Balanced (ws : List String) : Prop := braceDepth? 0 ws = some 0

section Braces

variable {depth final : Nat} {us ws : List String} {w : String}

@[simp] theorem braceDepth?_open (depth : Nat) (ws : List String) :
    braceDepth? depth (openBrace :: ws) = braceDepth? (depth + 1) ws := by
  rw [braceDepth?.eq_def]
  rfl

@[simp] theorem braceDepth?_close_zero (ws : List String) :
    braceDepth? 0 (closeBrace :: ws) = none := by
  rw [braceDepth?.eq_def]
  rfl

@[simp] theorem braceDepth?_close_succ (depth : Nat) (ws : List String) :
    braceDepth? (depth + 1) (closeBrace :: ws) = braceDepth? depth ws := by
  rw [braceDepth?.eq_def]
  rfl

theorem braceDepth?_cons (ho : w ≠ openBrace) (hc : w ≠ closeBrace) (depth : Nat)
    (ws : List String) : braceDepth? depth (w :: ws) = braceDepth? depth ws := by
  rw [braceDepth?.eq_def]
  simp only [if_neg ho, if_neg hc]

theorem braceDepth?_append (depth : Nat) (us ws : List String) :
    braceDepth? depth (us ++ ws) = (braceDepth? depth us).bind (braceDepth? · ws) := by
  induction us generalizing depth with
  | nil => rfl
  | cons u us ih =>
    rw [List.cons_append]
    by_cases ho : u = openBrace
    · simp [ho, ih]
    · by_cases hc : u = closeBrace
      · cases depth with
        | zero => simp [hc]
        | succ depth => simp [hc, ih]
      · simp [braceDepth?_cons ho hc, ih]

theorem braceDepth?_add (h : braceDepth? depth ws = some final) (more : Nat) :
    braceDepth? (depth + more) ws = some (final + more) := by
  induction ws generalizing depth with
  | nil =>
    cases h
    rfl
  | cons w ws ih =>
    by_cases ho : w = openBrace
    · subst ho
      rw [braceDepth?_open] at h ⊢
      rw [Nat.add_right_comm]
      exact ih h
    · by_cases hc : w = closeBrace
      · subst hc
        cases depth with
        | zero => simp at h
        | succ depth =>
          rw [braceDepth?_close_succ] at h
          rw [Nat.add_right_comm, braceDepth?_close_succ]
          exact ih h
      · rw [braceDepth?_cons ho hc] at h ⊢
        exact ih h

theorem Balanced.depth_eq (h : Balanced ws) (depth : Nat) : braceDepth? depth ws = some depth := by
  simpa using braceDepth?_add h depth

theorem balanced_nil : Balanced [] := rfl

theorem Balanced.append (hu : Balanced us) (hw : Balanced ws) : Balanced (us ++ ws) := by
  rw [Balanced, braceDepth?_append, hu]
  exact hw

theorem Balanced.cons (hw : Plain w) (h : Balanced ws) : Balanced (w :: ws) := by
  rw [Balanced, braceDepth?_cons hw.1 hw.2.1]
  exact h

theorem balanced_of_plain (h : ∀ w ∈ ws, Plain w) : Balanced ws := by
  induction ws with
  | nil => rfl
  | cons w ws ih =>
    obtain ⟨hw, hws⟩ := List.forall_mem_cons.mp h
    exact .cons hw (ih hws)

theorem Balanced.block (h : Balanced ws) : Balanced (openBrace :: ws ++ [closeBrace]) := by
  rw [Balanced, List.cons_append, braceDepth?_open, braceDepth?_append, h.depth_eq 1]
  exact braceDepth?_close_succ 0 []

end Braces

theorem texts_eq_block {ts : List Token} {us ws : List String} :
    texts ts = openBrace :: us ++ closeBrace :: ws ↔ ∃ brace inner close rest,
      ts = brace :: (inner ++ close :: rest) ∧ brace.text = openBrace ∧ texts inner = us ∧
        close.text = closeBrace ∧ texts rest = ws := by
  constructor
  · intro h
    obtain ⟨brace, ts, rfl, hbrace, h⟩ := texts_eq_cons.mp h
    obtain ⟨inner, last, rfl, hinner, h⟩ := texts_eq_append.mp h
    obtain ⟨close, rest, rfl, hclose, hrest⟩ := texts_eq_cons.mp h
    exact ⟨brace, inner, close, rest, rfl, hbrace, hinner, hclose, hrest⟩
  · rintro ⟨brace, inner, close, rest, rfl, hbrace, rfl, hclose, rfl⟩
    simp [hbrace, hclose]

theorem closing?_append {depth : Nat} {inner rest : List Token} {close : Token}
    (hclose : close.text = closeBrace) (hinner : braceDepth? depth (texts inner) = some 0) :
    closing? depth (inner ++ close :: rest) = some (⟨inner, close⟩, rest) := by
  induction inner generalizing depth with
  | nil =>
    cases hinner
    simp [closing?, Token.is, hclose, openBrace, closeBrace]
  | cons t inner ih =>
    rw [texts_cons] at hinner
    rw [List.cons_append, closing?.eq_def]
    by_cases ho : t.text = openBrace
    · rw [ho, braceDepth?_open] at hinner
      simp [Token.is, ho, ih hinner]
    · by_cases hc : t.text = closeBrace
      · cases depth with
        | zero => simp [hc] at hinner
        | succ depth =>
          rw [hc, braceDepth?_close_succ] at hinner
          simp [Token.is, hc, closeBrace_ne_openBrace, ih hinner]
      · rw [braceDepth?_cons ho hc] at hinner
        simp [Token.is, ho, hc, ih hinner]

theorem closing?_eq_some {depth : Nat} {ts rest : List Token} {b : Block}
    (h : closing? depth ts = some (b, rest)) : ts = b.inner ++ b.close :: rest ∧
      b.close.text = closeBrace ∧ braceDepth? depth (texts b.inner) = some 0 := by
  induction ts generalizing depth b with
  | nil => simp [closing?] at h
  | cons t ts ih =>
    -- the token is part of the block unless it is the brace that is looked for
    have hstep {depth' : Nat} (hd : (closing? depth' ts).map (fun x =>
        ({ x.1 with inner := t :: x.1.inner }, x.2)) = some (b, rest))
        (hdepth : ∀ ws, braceDepth? depth (t.text :: ws) = braceDepth? depth' ws) :
        t :: ts = b.inner ++ b.close :: rest ∧ b.close.text = closeBrace ∧
          braceDepth? depth (texts b.inner) = some 0 := by
      obtain ⟨⟨b', rest'⟩, hb, he⟩ := Option.map_eq_some_iff.mp hd
      cases he
      obtain ⟨rfl, hclose, hinner⟩ := ih hb
      exact ⟨rfl, hclose, (hdepth _).trans hinner⟩
    rw [closing?.eq_def] at h
    dsimp only at h
    split at h
    · rename_i ho
      have ho : t.text = openBrace := by simpa [Token.is] using ho
      exact hstep h fun ws => by rw [ho, braceDepth?_open]
    · rename_i ho
      have ho : t.text ≠ openBrace := by simpa [Token.is] using ho
      split at h
      · rename_i hc
        have hc : t.text = closeBrace := by simpa [Token.is] using hc
        cases depth with
        | zero =>
          cases h
          exact ⟨rfl, hc, rfl⟩
        | succ depth => exact hstep h fun ws => by rw [hc, braceDepth?_close_succ]
      · rename_i hc
        have hc : t.text ≠ closeBrace := by simpa [Token.is] using hc
        exact hstep h fun ws => braceDepth?_cons ho hc depth ws

theorem block_eq_ok {brace : Token} {ts rest : List Token} {b : Block} :
    block brace ts = .ok (b, rest) ↔ ts = b.inner ++ b.close :: rest ∧
      b.close.text = closeBrace ∧ Balanced (texts b.inner) := by
  constructor
  · intro h
    rw [block] at h
    split at h
    · cases h
      exact closing?_eq_some ‹_›
    · cases h
  · rintro ⟨rfl, hclose, hinner⟩
    rw [block, closing?_append hclose hinner]

end Parley.Grammar
