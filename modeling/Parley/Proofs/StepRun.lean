import Mathlib.Data.List.Forall2
import Parley.Proofs.Wording

/-! The runs of steps and the blocks of branches, which are found before anything in them is read. The
cuts are right: they fall exactly where the grammar has its steps and branches end. -/

namespace Parley.Grammar

open Outcome

/-- Balanced blocks, with `sep?` between them. -/
inductive BlockRow (sep? : Option String) : List String → Prop where
  | last {ws : List String} : Balanced ws → BlockRow sep? (openBrace :: ws ++ [closeBrace])
  | more {sep : String} {us ws : List String} : Balanced us → sep ∈ sep? → BlockRow sep? ws →
      BlockRow sep? (openBrace :: us ++ closeBrace :: sep :: ws)

theorem BlockRow.exists_brace {sep? : Option String} {row : List Token}
    (h : BlockRow sep? (texts row)) : ∃ brace us, row = brace :: us ∧ brace.text = openBrace := by
  have hhead : (texts row).head? = some openBrace := by
    generalize texts row = ws at h
    cases h <;> rfl
  cases row with
  | nil => cases hhead
  | cons brace us => exact ⟨brace, us, rfl, Option.some.inj hhead⟩

section Blocks

variable {α : Type} {P : List String → α → Prop} {sep : String} {ws : List String} {as : List α}

theorem Blocks.row (hP : ∀ ws a, P ws a → Balanced ws) (h : Blocks P sep ws as) :
    BlockRow (some sep) ws := by
  induction h with
  | last ha => exact .last (hP _ _ ha)
  | more ha _ ih => exact .more (hP _ _ ha) rfl ih

theorem BlockRow.balanced {sep? : Option String} (hsep : ∀ sep ∈ sep?, Plain sep)
    (h : BlockRow sep? ws) : Balanced ws := by
  induction h with
  | last hus => exact hus.block
  | more hus hmem _ ih =>
    have hblock := hus.block.append (ih.cons (hsep _ hmem))
    simpa using hblock

theorem Branches.row (hP : ∀ ws a, P ws a → Balanced ws) (hsep : Plain sep)
    (h : Branches P sep ws as) : BlockRow (some sep) ws := by
  cases h with
  | plain h => exact h.row hP
  | wrapped h =>
    have hrow : Balanced _ := (h.row hP).balanced (by simpa using hsep)
    exact .last hrow

end Blocks

/-- The steps that have blocks, by their keyword, with what joins another block to one. -/
def blockKeywords : List (String × Option String) :=
  [("rec", none), ("choice", some "or"), ("par", some "and")]

/-- The texts of a run of one step, with what would join another block to it. -/
inductive Run : Option String → List String → Prop where
  | statement {body : List String} : (∀ w ∈ body, Plain w) →
      (∀ w ∈ body.head?, w ∉ blockKeywords.map (·.1)) → Run none (body ++ [";"])
  | blocks {keyword : String} {sep? : Option String} {head row : List String} :
      (keyword, sep?) ∈ blockKeywords → (∀ w ∈ head, Plain w) → BlockRow sep? row →
      Run sep? (keyword :: head ++ row)

theorem Run.head {sep? : Option String} {ws : List String} (h : Run sep? ws) :
    sep? = none ∧ (∀ w ∈ ws.head?, w ∉ blockKeywords.map (·.1)) ∨
      ∃ keyword us, ws = keyword :: us ∧ (keyword, sep?) ∈ blockKeywords := by
  cases h with
  | @statement body hbody hfirst =>
    refine .inl ⟨rfl, ?_⟩
    cases body with
    | nil => decide
    | cons w body => simpa using hfirst
  | blocks hmem _ _ => exact .inr ⟨_, _, rfl, hmem⟩

theorem Run.ne_nil {sep? : Option String} {run : List Token} (h : Run sep? (texts run)) :
    run ≠ [] := by
  rintro rfl
  generalize hws : texts [] = ws at h
  cases h <;> simp at hws

/-- A step that has blocks has a brace. -/
theorem Run.openBrace_mem {sep? : Option String} {keyword : String} {ws : List String}
    (h : Run sep? (keyword :: ws)) (hk : keyword ∈ blockKeywords.map (·.1)) : openBrace ∈ ws := by
  generalize hus : keyword :: ws = us at h
  cases h with
  | @statement body _ hfirst =>
    cases body with
    | nil =>
      obtain ⟨rfl, -⟩ := List.cons.inj hus
      exact absurd hk (by decide)
    | cons w body =>
      obtain ⟨rfl, -⟩ := List.cons.inj hus
      exact absurd hk (hfirst _ rfl)
  | blocks _ _ hrow =>
    obtain ⟨-, rfl⟩ := List.cons.inj hus
    refine List.mem_append_right _ ?_
    cases hrow <;> simp

/-- The first word of a run says what would join another block to it. -/
theorem Run.unique {sep? sep'? : Option String} {ws : List String} (h : Run sep? ws)
    (h' : Run sep'? ws) : sep? = sep'? := by
  have hkeys : ∀ k s s', (k, s) ∈ blockKeywords → (k, s') ∈ blockKeywords → s = s' := by
    grind [blockKeywords]
  have hfst {k : String} {s : Option String} (hmem : (k, s) ∈ blockKeywords) :
      k ∈ blockKeywords.map (·.1) := List.mem_map.mpr ⟨_, hmem, rfl⟩
  rcases h.head with ⟨rfl, hfirst⟩ | ⟨keyword, us, rfl, hmem⟩
  · rcases h'.head with ⟨rfl, -⟩ | ⟨keyword, us, rfl, hmem⟩
    · rfl
    · exact absurd (hfst hmem) (hfirst _ rfl)
  · rcases h'.head with ⟨rfl, hfirst⟩ | ⟨keyword', us', he, hmem'⟩
    · exact absurd (hfst hmem) (hfirst _ rfl)
    · obtain ⟨rfl, -⟩ := List.cons.inj he
      exact hkeys _ _ _ hmem hmem'

theorem plain_of_mem_blockKeywords {keyword : String} {sep? : Option String}
    (h : (keyword, sep?) ∈ blockKeywords) : ∀ sep ∈ sep?, Plain sep := by
  simp only [blockKeywords, List.mem_cons, Prod.mk.injEq, List.not_mem_nil, or_false] at h
  rcases h with ⟨-, rfl⟩ | ⟨-, rfl⟩ | ⟨-, rfl⟩ <;> decide

section StepRun

variable {sep? : Option String} {stop : Position} {ts rest run : List Token}

/-- A block may have its separator in front of it. -/
theorem blockRun_eq_ok {lead us : List Token} {brace : Token}
    (hlead : lead = [] ∨ ∃ t, lead = [t] ∧ t.text ≠ openBrace) (hbrace : brace.text = openBrace) :
    blockRun stop (lead ++ brace :: us) = .ok (run, rest) ↔
      ∃ inner close, us = inner ++ close :: rest ∧ close.text = closeBrace ∧
        Balanced (texts inner) ∧ run = lead ++ brace :: inner ++ [close] := by
  have hblock : (∃ b, block brace us = .ok (b, rest) ∧ lead ++ brace :: b.inner ++ [b.close] = run) ↔
      ∃ inner close, us = inner ++ close :: rest ∧ close.text = closeBrace ∧
        Balanced (texts inner) ∧ run = lead ++ brace :: inner ++ [close] := by
    simp only [block_eq_ok]
    constructor
    · rintro ⟨b, ⟨hus, hclose, hinner⟩, rfl⟩
      exact ⟨b.inner, b.close, hus, hclose, hinner, rfl⟩
    · rintro ⟨inner, close, hus, hclose, hinner, rfl⟩
      exact ⟨⟨inner, close⟩, ⟨hus, hclose, hinner⟩, rfl⟩
  rw [← hblock]
  rcases hlead with rfl | ⟨t, rfl, ht⟩
  · simp [blockRun, Token.is, hbrace, map_eq_ok]
  · simp [blockRun, Token.is, ht, map_eq_ok]

theorem length_block {brace : Token} {b : Block} (h : block brace ts = .ok (b, rest)) :
    rest.length < ts.length := by
  obtain ⟨rfl, -, -⟩ := block_eq_ok.mp h
  simp only [List.length_append, List.length_cons]
  omega

theorem length_blockRun (h : blockRun stop ts = .ok (run, rest)) : rest.length < ts.length := by
  cases ts with
  | nil => cases h
  | cons t ts =>
    simp only [blockRun] at h
    split at h
    · simp only [bind_eq_ok, pure_eq_ok, Prod.mk.injEq, Prod.exists] at h
      obtain ⟨b, rest, hb, -, rfl⟩ := h
      have hlen := length_block hb
      simp only [List.length_cons]
      omega
    · cases ts with
      | nil => cases h
      | cons brace ts =>
        simp only [bind_eq_ok, pure_eq_ok, Prod.mk.injEq, Prod.exists] at h
        obtain ⟨b, rest, hb, -, rfl⟩ := h
        have hlen := length_block hb
        simp only [List.length_cons]
        omega

theorem nextBlock?_eq_none : nextBlock? sep? stop ts = .ok none ↔
    ∀ w ∈ sep?, (texts ts).head? ≠ some w := by
  rw [nextBlock?.eq_def]
  split
  · rename_i sep t us
    by_cases ht : t.text = sep
    · cases us with
      | nil => simp [Token.is, ht]
      | cons brace us => by_cases hb : brace.text = openBrace <;> simp [Token.is, ht, hb]
    · simp [Token.is, ht]
  · rename_i hno
    simp only [true_iff]
    intro w hw
    cases ts with
    | nil => simp
    | cons t us => exact absurd rfl (hno w t us hw)

theorem nextBlock?_eq_some {next : List Token} : nextBlock? sep? stop ts = .ok (some next) ↔
    next = ts ∧ ∃ sep brace us, ts = sep :: brace :: us ∧ sep.text ∈ sep? ∧
      brace.text = openBrace := by
  rw [nextBlock?.eq_def]
  split
  · rename_i sep t us
    by_cases ht : t.text = sep
    · cases us with
      | nil => simp [Token.is, ht]
      | cons brace us =>
        by_cases hb : brace.text = openBrace
        · simp only [Token.is, ht, hb, beq_self_eq_true, if_true, Except.ok.injEq, Option.some.injEq]
          constructor
          · rintro rfl
            exact ⟨rfl, t, brace, us, rfl, congrArg some ht.symm, hb⟩
          · exact fun h => h.1.symm
        · simp [Token.is, ht, hb]
    · simp [Token.is, ht, Ne.symm ht]
  · rename_i hno
    simp only [Except.ok.injEq, reduceCtorEq, false_iff]
    rintro ⟨-, sep, brace, us, rfl, hsep, -⟩
    exact hno _ _ _ hsep rfl

theorem Chain.row {blocks : List (List Token)}
    (h : Chain (blockRun stop) (nextBlock? sep? stop) ts blocks rest)
    (hsep : ∀ sep ∈ sep?, sep ≠ openBrace) {lead us : List Token} {brace : Token}
    (hts : ts = lead ++ brace :: us) (hlead : lead = [] ∨ ∃ t, lead = [t] ∧ t.text ≠ openBrace)
    (hbrace : brace.text = openBrace) :
    ∃ row, blocks.flatten = lead ++ row ∧ ts = lead ++ row ++ rest ∧ BlockRow sep? (texts row) := by
  induction h generalizing lead brace us with
  | last hi hm =>
    subst hts
    obtain ⟨inner, close, rfl, hclose, hinner, rfl⟩ := (blockRun_eq_ok hlead hbrace).mp hi
    refine ⟨brace :: inner ++ [close], by simp, by simp, ?_⟩
    simpa [hbrace, hclose] using BlockRow.last hinner
  | more hi hm _ ih =>
    subst hts
    obtain ⟨inner, close, rfl, hclose, hinner, rfl⟩ := (blockRun_eq_ok hlead hbrace).mp hi
    obtain ⟨rfl, sep, brace', us, rfl, hmem, hbrace'⟩ := nextBlock?_eq_some.mp hm
    obtain ⟨row, hflat, hrow, hrest⟩ := ih rfl (.inr ⟨sep, rfl, hsep _ hmem⟩) hbrace'
    refine ⟨brace :: inner ++ close :: sep :: row, by simp [hflat], ?_, ?_⟩
    · simpa using hrow
    · simpa [hbrace, hclose] using BlockRow.more hinner hmem hrest

theorem BlockRow.chain {ws : List String} (h : BlockRow sep? ws)
    (hsep : ∀ sep ∈ sep?, sep ≠ openBrace) (hend : ∀ w ∈ sep?, (texts rest).head? ≠ some w)
    {lead row : List Token} (hrow : texts row = ws)
    (hlead : lead = [] ∨ ∃ t, lead = [t] ∧ t.text ≠ openBrace) :
    ∃ blocks, Chain (blockRun stop) (nextBlock? sep? stop) (lead ++ row ++ rest) blocks rest ∧
      blocks.flatten = lead ++ row := by
  induction h generalizing lead row with
  | last hinner =>
    obtain ⟨brace, inner, close, us, rfl, hbrace, rfl, hclose, hus⟩ := texts_eq_block.mp hrow
    obtain rfl := texts_eq_nil.mp hus
    have hi : blockRun stop (lead ++ brace :: (inner ++ close :: rest)) = .ok (_, rest) :=
      (blockRun_eq_ok hlead hbrace).mpr ⟨inner, close, rfl, hclose, hinner, rfl⟩
    refine ⟨[lead ++ brace :: inner ++ [close]], ?_, by simp⟩
    simpa using Chain.last hi (nextBlock?_eq_none.mpr hend)
  | @more sep us ws hinner hmem hws ih =>
    obtain ⟨brace, inner, close, us, rfl, hbrace, rfl, hclose, hus⟩ := texts_eq_block.mp hrow
    obtain ⟨t, row, rfl, ht, hrow⟩ := texts_eq_cons.mp hus
    obtain ⟨blocks, hchain, hflat⟩ := @ih [t] row hrow (.inr ⟨t, rfl, ht ▸ hsep _ hmem⟩)
    rw [← hrow] at hws
    obtain ⟨brace', us', rfl, hbrace'⟩ := hws.exists_brace
    have hi : blockRun stop (lead ++ brace :: (inner ++ close :: (t :: brace' :: us' ++ rest))) =
        .ok (_, t :: brace' :: us' ++ rest) :=
      (blockRun_eq_ok hlead hbrace).mpr ⟨inner, close, rfl, hclose, hinner, rfl⟩
    have hm : nextBlock? sep? stop (t :: brace' :: us' ++ rest) = .ok (some _) :=
      nextBlock?_eq_some.mpr ⟨rfl, t, brace', us' ++ rest, rfl, ht ▸ hmem, hbrace'⟩
    refine ⟨(lead ++ brace :: inner ++ [close]) :: blocks, ?_, by simp [hflat]⟩
    simpa using Chain.more hi hm hchain

theorem chain_blockRun_eq_ok (hsep : ∀ sep ∈ sep?, sep ≠ openBrace) {us row : List Token}
    {brace : Token} (hbrace : brace.text = openBrace) :
    (∃ blocks, chain (blockRun stop) (nextBlock? sep? stop) (brace :: us) = .ok (blocks, rest) ∧
        blocks.flatten = row) ↔
      brace :: us = row ++ rest ∧ BlockRow sep? (texts row) ∧
        ∀ w ∈ sep?, (texts rest).head? ≠ some w := by
  have progress {ts mid next : List Token} {a : List Token} (hi : blockRun stop ts = .ok (a, mid))
      (hm : nextBlock? sep? stop mid = .ok (some next)) : next.length < ts.length := by
    obtain ⟨rfl, -⟩ := nextBlock?_eq_some.mp hm
    exact length_blockRun hi
  simp only [chain_eq_ok progress]
  constructor
  · rintro ⟨blocks, hchain, rfl⟩
    obtain ⟨row, hflat, hrow, hblocks⟩ := hchain.row hsep (List.nil_append _).symm (.inl rfl) hbrace
    rw [hflat]
    exact ⟨hrow, hblocks, nextBlock?_eq_none.mp hchain.more?_eq_none⟩
  · rintro ⟨hrow, hblocks, hend⟩
    obtain ⟨blocks, hchain, hflat⟩ := hblocks.chain hsep hend rfl (.inl rfl)
    rw [hrow]
    exact ⟨blocks, hchain, hflat⟩

theorem blockStep_eq_ok (hsep : ∀ sep ∈ sep?, sep ≠ openBrace) {keyword : Token} :
    blockStep sep? stop keyword ts = .ok (run, rest) ↔
      ∃ head row, ts = head ++ row ++ rest ∧ run = keyword :: head ++ row ∧
        (∀ w ∈ texts head, Plain w) ∧ BlockRow sep? (texts row) ∧
        ∀ w ∈ sep?, (texts rest).head? ≠ some w := by
  constructor
  · intro h
    simp only [blockStep] at h
    split at h
    · cases h
    · rename_i head brace us hh
      obtain ⟨rfl, hhead, -⟩ := header_eq.mp hh
      split at h
      · rename_i hbrace
        have hbrace : brace.text = openBrace := by simpa [Token.is] using hbrace
        simp only [bind_eq_ok, pure_eq_ok, Prod.mk.injEq, Prod.exists] at h
        obtain ⟨blocks, rest, hc, rfl, rfl⟩ := h
        obtain ⟨hrow, hblocks, hend⟩ := (chain_blockRun_eq_ok hsep hbrace).mp ⟨blocks, hc, rfl⟩
        exact ⟨head, _, by rw [List.append_assoc, ← hrow], rfl, hhead, hblocks, hend⟩
      · cases h
  · rintro ⟨head, row, rfl, rfl, hhead, hblocks, hend⟩
    obtain ⟨brace, us, rfl, hbrace⟩ := hblocks.exists_brace
    have hh : header (head ++ (brace :: us) ++ rest) = (head, brace :: (us ++ rest)) := by
      refine header_eq.mpr ⟨by simp, hhead, ?_⟩
      simp [hbrace, Plain]
    obtain ⟨blocks, hc, hflat⟩ :=
      (chain_blockRun_eq_ok hsep hbrace).mpr ⟨rfl, hblocks, hend⟩
    simp only [blockStep, hh, Token.is, hbrace, beq_self_eq_true, if_true, bind_eq_ok, pure_eq_ok,
      Prod.mk.injEq, Prod.exists]
    exact ⟨blocks, rest, hc, by rw [hflat], rfl⟩

theorem stepRun_blocks {keyword : Token} (h : (keyword.text, sep?) ∈ blockKeywords) :
    stepRun stop (keyword :: ts) = blockStep sep? stop keyword ts := by
  simp only [blockKeywords, List.mem_cons, Prod.mk.injEq, List.not_mem_nil, or_false] at h
  rcases h with ⟨hk, rfl⟩ | ⟨hk, rfl⟩ | ⟨hk, rfl⟩ <;> simp [stepRun, Token.is, hk]

theorem stepRun_statement {t : Token} (h : t.text ∉ blockKeywords.map (·.1))
    (hopen : t.text ≠ openBrace) (hclose : t.text ≠ closeBrace) :
    stepRun stop (t :: ts) = statement stop (t :: ts) := by
  simp only [blockKeywords, List.map_cons, List.map_nil, List.mem_cons, List.not_mem_nil, or_false,
    not_or] at h
  simp [stepRun, Token.is, h, hopen, hclose]

theorem stepRun_eq_ok : stepRun stop ts = .ok (run, rest) ↔ ts = run ++ rest ∧
    ∃ sep?, Run sep? (texts run) ∧ ∀ w ∈ sep?, (texts rest).head? ≠ some w := by
  constructor
  · intro h
    cases ts with
    | nil => cases h
    | cons t ts =>
      by_cases hk : t.text ∈ blockKeywords.map (·.1)
      · obtain ⟨⟨-, sep?⟩, hmem, rfl⟩ := List.mem_map.mp hk
        rw [stepRun_blocks hmem] at h
        have hsep : ∀ sep ∈ sep?, sep ≠ openBrace :=
          fun sep hs => (plain_of_mem_blockKeywords hmem sep hs).1
        obtain ⟨head, row, rfl, rfl, hhead, hrow, hend⟩ := (blockStep_eq_ok hsep).mp h
        refine ⟨by simp, sep?, ?_, hend⟩
        simpa using Run.blocks hmem hhead hrow
      · by_cases hb : t.text = openBrace ∨ t.text = closeBrace
        · rcases hb with hb | hb <;> simp [stepRun, Token.is, hb, openBrace, closeBrace] at h
        · obtain ⟨hopen, hclose⟩ := not_or.mp hb
          rw [stepRun_statement hk hopen hclose] at h
          obtain ⟨body, semi, hts, rfl, hsemi, hbody⟩ := statement_eq_ok.mp h
          refine ⟨by simpa using hts, none, ?_, by simp⟩
          have hfirst : ∀ w ∈ (texts body).head?, w ∉ blockKeywords.map (·.1) := by
            cases body with
            | nil => simp
            | cons u body =>
              obtain ⟨rfl, -⟩ := List.cons.inj hts
              simpa using hk
          simpa [hsemi] using Run.statement hbody hfirst
  · rintro ⟨rfl, sep?, hrun, hend⟩
    generalize hws : texts run = ws at hrun
    cases hrun with
    | statement hbody hfirst =>
      obtain ⟨body, last, rfl, rfl, hlast⟩ := texts_eq_append.mp hws
      obtain ⟨semi, rfl, hsemi⟩ := texts_eq_singleton.mp hlast
      have hs : statement stop (body ++ semi :: rest) = .ok (body ++ [semi], rest) :=
        statement_append hbody hsemi
      rw [List.append_assoc, List.singleton_append, ← hs]
      cases body with
      | nil => apply stepRun_statement <;> rw [hsemi] <;> decide
      | cons t body =>
        have ht := hbody t.text List.mem_cons_self
        exact stepRun_statement (hfirst _ rfl) ht.1 ht.2.1
    | blocks hmem hhead hrow =>
      obtain ⟨keyword, us, rfl, rfl, hus⟩ := texts_eq_cons.mp hws
      obtain ⟨head, row, rfl, rfl, rfl⟩ := texts_eq_append.mp hus
      have hsep : ∀ sep ∈ sep?, sep ≠ openBrace :=
        fun sep hs => (plain_of_mem_blockKeywords hmem sep hs).1
      rw [List.cons_append, stepRun_blocks hmem]
      exact (blockStep_eq_ok hsep).mpr ⟨head, row, rfl, rfl, hhead, hrow, hend⟩

end StepRun

theorem length_stepRun {stop : Position} {ts rest run : List Token}
    (h : stepRun stop ts = .ok (run, rest)) : rest.length < ts.length := by
  obtain ⟨rfl, sep?, hrun, -⟩ := stepRun_eq_ok.mp h
  have hpos := List.length_pos_iff.mpr hrun.ne_nil
  rw [List.length_append]
  omega

theorem splitSteps_eq_ok {ts : List Token} {runs : List (List Token)} :
    splitSteps ts = .ok runs ↔ Cuts (stepRun (endOf ts)) ts runs :=
  cut_eq_ok (fun _ h => by cases h) length_stepRun

theorem length_splitSteps {ts : List Token} {runs : List (List Token)}
    (h : splitSteps ts = .ok runs) : ∀ run ∈ runs, run.length ≤ ts.length := by
  have hcuts := splitSteps_eq_ok.mp h
  generalize endOf ts = stop at hcuts
  clear h
  induction hcuts with
  | nil => simp
  | cons hrun _ ih =>
    obtain ⟨rfl, -⟩ := stepRun_eq_ok.mp hrun
    intro run hmem
    rw [List.length_append]
    rcases List.mem_cons.mp hmem with rfl | hmem
    · omega
    · have := ih run hmem
      omega

/-- The cuts between steps fall where the grammar has them. -/
theorem exists_splitSteps {P : List String → Node → Prop}
    (hP : ∀ ws n, P ws n → Run (separator? n) ws) {ts : List Token} {ns : Conversation} :
    (∃ runs, splitSteps ts = .ok runs ∧ List.Forall₂ (fun run n => P (texts run) n) runs ns) ↔
      Steps P (texts ts) ns := by
  simp only [splitSteps_eq_ok]
  generalize endOf ts = stop
  constructor
  · rintro ⟨runs, hruns, hns⟩
    induction hruns generalizing ns with
    | nil =>
      cases hns
      exact .nil
    | cons hrun _ ih =>
      obtain ⟨rfl, sep?, hshape, hend⟩ := stepRun_eq_ok.mp hrun
      cases hns with
      | cons hn hns =>
        rw [texts_append]
        obtain rfl := hshape.unique (hP _ _ hn)
        exact .cons hn (ih hns) hend
  · intro h
    generalize hws : texts ts = ws at h
    induction h generalizing ts with
    | nil =>
      obtain rfl := texts_eq_nil.mp hws
      exact ⟨[], .nil, .nil⟩
    | cons hn _ hend ih =>
      obtain ⟨run, rest, rfl, rfl, rfl⟩ := texts_eq_append.mp hws
      obtain ⟨runs, hruns, hns⟩ := ih rfl
      exact ⟨run :: runs, .cons (stepRun_eq_ok.mpr ⟨rfl, _, hP _ _ hn, hend⟩) hruns, .cons hn hns⟩

section Branches

variable {stop : Position} {sep : String} {ts rest : List Token} {bs : List (List Token)}

theorem branch_eq_ok {inner : List Token} : branch stop ts = .ok (inner, rest) ↔
    ∃ brace close, ts = brace :: inner ++ close :: rest ∧ brace.text = openBrace ∧
      close.text = closeBrace ∧ Balanced (texts inner) := by
  constructor
  · intro h
    cases ts with
    | nil => cases h
    | cons t ts =>
      simp only [branch] at h
      split at h
      · rename_i ht
        simp only [bind_eq_ok, pure_eq_ok, Prod.mk.injEq, Prod.exists] at h
        obtain ⟨b, rest, hb, rfl, rfl⟩ := h
        obtain ⟨rfl, hclose, hinner⟩ := block_eq_ok.mp hb
        exact ⟨t, b.close, rfl, by simpa [Token.is] using ht, hclose, hinner⟩
      · cases h
  · rintro ⟨brace, close, rfl, hbrace, hclose, hinner⟩
    have hb : block brace (inner ++ close :: rest) = .ok (⟨inner, close⟩, rest) :=
      block_eq_ok.mpr ⟨rfl, hclose, hinner⟩
    simp [branch, Token.is, hbrace, hb]

theorem nextBranch?_eq_none : nextBranch? sep ts = .ok none ↔ ts = [] := by
  cases ts with
  | nil => simp [nextBranch?]
  | cons t ts => by_cases ht : t.text = sep <;> simp [nextBranch?, Token.is, ht]

theorem nextBranch?_eq_some {next : List Token} :
    nextBranch? sep ts = .ok (some next) ↔ Takes [sep] ts next := by
  rw [takes_singleton]
  cases ts with
  | nil => simp [nextBranch?]
  | cons t ts =>
    by_cases ht : t.text = sep <;> simp [nextBranch?, Token.is, ht]

theorem splitBranches_eq_ok : splitBranches sep ts = .ok bs ↔
    Chain (branch (endOf ts)) (nextBranch? sep) ts bs [] := by
  have progress {us mid next : List Token} {b : List Token} (hi : branch (endOf ts) us = .ok (b, mid))
      (hm : nextBranch? sep mid = .ok (some next)) : next.length < us.length := by
    obtain ⟨brace, close, rfl, -⟩ := branch_eq_ok.mp hi
    have hlen := (nextBranch?_eq_some.mp hm).length_eq
    simp only [List.length_append, List.length_cons, List.length_nil] at hlen ⊢
    omega
  simp only [splitBranches, map_eq_ok, Prod.exists, chain_eq_ok progress]
  constructor
  · rintro ⟨bs, rest, hchain, rfl⟩
    obtain rfl := nextBranch?_eq_none.mp hchain.more?_eq_none
    exact hchain
  · intro h
    exact ⟨bs, [], h, rfl⟩

theorem length_splitBranches (h : splitBranches sep ts = .ok bs) : ∀ b ∈ bs, b.length < ts.length := by
  have hchain := splitBranches_eq_ok.mp h
  generalize endOf ts = stop at hchain
  generalize ([] : List Token) = rest at hchain
  clear h
  induction hchain with
  | last hi _ =>
    obtain ⟨brace, close, rfl, -⟩ := branch_eq_ok.mp hi
    simp only [List.mem_singleton, forall_eq, List.length_append, List.length_cons]
    omega
  | more hi hm _ ih =>
    obtain ⟨brace, close, rfl, -⟩ := branch_eq_ok.mp hi
    have hlen := (nextBranch?_eq_some.mp hm).length_eq
    intro b hb
    simp only [List.length_append, List.length_cons, List.length_nil] at hlen ⊢
    rcases List.mem_cons.mp hb with rfl | hb
    · omega
    · have := ih b hb
      omega

variable {α : Type} {P : List String → α → Prop} {as : List α}

theorem blocks_of_splitBranches (h : splitBranches sep ts = .ok bs)
    (has : List.Forall₂ (fun b a => P (texts b) a) bs as) : Blocks P sep (texts ts) as := by
  have hchain := splitBranches_eq_ok.mp h
  generalize endOf ts = stop at hchain
  generalize hrest : ([] : List Token) = rest at hchain
  clear h
  induction hchain generalizing as with
  | last hi _ =>
    subst hrest
    obtain ⟨brace, close, rfl, hbrace, hclose, -⟩ := branch_eq_ok.mp hi
    cases has with
    | cons ha has =>
      cases has
      simpa [hbrace, hclose] using Blocks.last ha
  | more hi hm _ ih =>
    obtain ⟨brace, close, rfl, hbrace, hclose, -⟩ := branch_eq_ok.mp hi
    obtain ⟨t, rfl, ht⟩ := takes_singleton.mp (nextBranch?_eq_some.mp hm)
    cases has with
    | cons ha has => simpa [hbrace, hclose, ht] using Blocks.more ha (ih has hrest)

theorem Blocks.splitBranches (hP : ∀ ws a, P ws a → Balanced ws) (h : Blocks P sep (texts ts) as) :
    ∃ bs, splitBranches sep ts = .ok bs ∧ List.Forall₂ (fun b a => P (texts b) a) bs as := by
  simp only [splitBranches_eq_ok]
  generalize endOf ts = stop
  generalize hws : texts ts = ws at h
  induction h generalizing ts with
  | last ha =>
    obtain ⟨brace, inner, close, us, rfl, hbrace, rfl, hclose, hus⟩ := texts_eq_block.mp hws
    obtain rfl := texts_eq_nil.mp hus
    have hi : branch stop (brace :: (inner ++ [close])) = .ok (inner, []) :=
      branch_eq_ok.mpr ⟨brace, close, rfl, hbrace, hclose, hP _ _ ha⟩
    exact ⟨[inner], .last hi rfl, .cons ha .nil⟩
  | more ha _ ih =>
    obtain ⟨brace, inner, close, us, rfl, hbrace, rfl, hclose, hus⟩ := texts_eq_block.mp hws
    obtain ⟨t, next, rfl, ht, rfl⟩ := texts_eq_cons.mp hus
    obtain ⟨bs, hchain, has⟩ := ih rfl
    have hi : branch stop (brace :: (inner ++ close :: t :: next)) = .ok (inner, t :: next) :=
      branch_eq_ok.mpr ⟨brace, close, rfl, hbrace, hclose, hP _ _ ha⟩
    have hm : nextBranch? sep (t :: next) = .ok (some next) :=
      nextBranch?_eq_some.mpr (takes_singleton.mpr ⟨t, rfl, ht⟩)
    exact ⟨inner :: bs, .more hi hm hchain, .cons ha has⟩

theorem branchBlocks_eq_ok : branchBlocks sep ts = .ok bs ↔
    (splitBranches sep ts = .ok bs ∧ ∀ t us, bs = [t :: us] → t.text ≠ openBrace) ∨
      ∃ t us, splitBranches sep ts = .ok [t :: us] ∧ t.text = openBrace ∧
        splitBranches sep (t :: us) = .ok bs := by
  rw [branchBlocks, bind_eq_ok]
  constructor
  · rintro ⟨branches, hs, h⟩
    split at h
    · rename_i t us
      split at h
      · rename_i ht
        exact .inr ⟨t, us, hs, by simpa [Token.is] using ht, h⟩
      · rename_i ht
        obtain rfl := pure_eq_ok.mp h
        refine .inl ⟨hs, ?_⟩
        rintro _ _ ⟨⟩
        simpa [Token.is] using ht
    · rename_i hne
      obtain rfl := pure_eq_ok.mp h
      exact .inl ⟨hs, fun t us he => absurd he (hne t us)⟩
  · rintro (⟨hs, hne⟩ | ⟨t, us, hs, ht, h⟩)
    · refine ⟨bs, hs, ?_⟩
      split
      · rename_i t us
        have ht := hne t us rfl
        simp [Token.is, ht, pure_eq_ok]
      · rfl
    · exact ⟨_, hs, by simpa [Token.is, ht] using h⟩

theorem length_branchBlocks (h : branchBlocks sep ts = .ok bs) : ∀ b ∈ bs, b.length < ts.length := by
  rcases branchBlocks_eq_ok.mp h with ⟨hs, -⟩ | ⟨t, us, hs, -, h⟩
  · exact length_splitBranches hs
  · intro b hb
    have hwrapped := length_splitBranches hs _ List.mem_cons_self
    exact Nat.lt_trans (length_splitBranches h b hb) hwrapped

/-- The branches are those of the grammar, in either form. A branch does not begin with a brace, so the
forms cannot be taken for each other. -/
theorem exists_branchBlocks (hP : ∀ ws a, P ws a → Balanced ws)
    (hopen : ∀ ws a, ¬ P (openBrace :: ws) a) (hsep : Plain sep) :
    (∃ bs, branchBlocks sep ts = .ok bs ∧ List.Forall₂ (fun b a => P (texts b) a) bs as) ↔
      Branches P sep (texts ts) as := by
  simp only [branchBlocks_eq_ok]
  constructor
  · rintro ⟨bs, ⟨hs, -⟩ | ⟨t, us, hs, ht, h⟩, has⟩
    · exact .plain (blocks_of_splitBranches hs has)
    · have houter : Blocks (fun ws b => ws = texts b) sep (texts ts) [t :: us] :=
        blocks_of_splitBranches hs (.cons rfl .nil)
      have hinner := blocks_of_splitBranches h has
      generalize texts ts = ws at houter ⊢
      cases houter with
      | last he =>
        subst he
        exact .wrapped hinner
      | more _ h => cases h
  · intro h
    generalize hws : texts ts = ws at h
    cases h with
    | plain h =>
      subst hws
      obtain ⟨bs, hs, has⟩ := h.splitBranches hP
      refine ⟨bs, .inl ⟨hs, ?_⟩, has⟩
      rintro t us rfl ht
      cases has with
      | cons ha _ =>
        rw [texts_cons, ht] at ha
        exact hopen _ _ ha
    | wrapped h =>
      obtain ⟨brace, inner, close, us, rfl, hbrace, rfl, hclose, hus⟩ := texts_eq_block.mp hws
      obtain rfl := texts_eq_nil.mp hus
      obtain ⟨bs, hs, has⟩ := h.splitBranches hP
      have hrow := h.row hP
      have hbalanced : Balanced (texts inner) := hrow.balanced (by simpa using hsep)
      obtain ⟨t, us, rfl, ht⟩ := hrow.exists_brace
      have hi : branch (endOf (brace :: (t :: us ++ [close]))) (brace :: (t :: us ++ [close])) =
          .ok (t :: us, []) := branch_eq_ok.mpr ⟨brace, close, rfl, hbrace, hclose, hbalanced⟩
      exact ⟨bs, .inr ⟨t, us, splitBranches_eq_ok.mpr (.last hi rfl), ht, hs⟩, has⟩

end Branches

end Parley.Grammar
