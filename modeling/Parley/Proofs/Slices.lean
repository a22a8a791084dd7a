import Parley.Proofs.Partition
import Parley.Proofs.Twin

/-! Cuts by index. A token list is cut a second time here, by the indices of its tokens instead of list
after list: a run is a slice between two indices, and a block is found by counting braces along the
list. Where an index or a slice does not lie in its list, a brace is looked for that was never opened or
a loop does not get on, the outcome is a `fault`. Main statement: whatever the fault is, the cuts are
the same as before, so there is none. -/

namespace Parley.Grammar.Indexed

open Outcome

section Definitions

variable (fault : ParseError) (tokens : List Token)

/-- The token at an index. -/
def tokenAt (i : Nat) : Except ParseError Token :=
  match tokens[i]? with
  | some t => .ok t
  | none => .error fault

/-- The tokens from an index up to another, which has to come behind it and lie in the list. -/
def slice (first last : Nat) : Except ParseError (List Token) :=
  if first ≤ last ∧ last ≤ tokens.length then .ok (tokens.extract first last) else .error fault

/-- Counts braces from `index` on, with `depth` of them open, up to the one that closes the last. -/
def closeIn (unclosed : ParseError) (depth index : Nat) : List Token → Except ParseError Nat
  | [] => .error unclosed
  | t :: ts =>
    if t.is openBrace then closeIn unclosed (depth + 1) (index + 1) ts
    else if t.is closeBrace then
      match depth with
      | 0 => .error (unexpected t)
      | 1 => .ok index
      | depth + 2 => closeIn unclosed (depth + 1) (index + 1) ts
    else closeIn unclosed depth (index + 1) ts

/-- The index of the brace that closes the one at an index. -/
def closeOf (i : Nat) : Except ParseError Nat := do
  let brace ← tokenAt fault tokens i
  if brace.is openBrace then
    closeIn ⟨.unclosed, brace.start⟩ 0 i (← slice fault tokens i tokens.length)
  else .error fault

def semicolonIn (stop : Position) (index : Nat) : List Token → Except ParseError Nat
  | [] => .error ⟨.ended (.word ";"), stop⟩
  | t :: ts =>
    if t.is ";" then .ok index
    else if t.is openBrace || t.is closeBrace then .error ⟨.found (.word ";") t.text, t.start⟩
    else semicolonIn stop (index + 1) ts

/-- The index of the first semicolon from an index on, with no brace before it. -/
def statementEnd (i : Nat) : Except ParseError Nat := do
  semicolonIn (endOf tokens) i (← slice fault tokens i tokens.length)

/-- The index of the first brace or semicolon from an index on, if there is one. -/
def markFrom (i : Nat) : Except ParseError (Option Nat) := do
  let behind ← slice fault tokens i tokens.length
  return (behind.findIdx? fun t => t.is openBrace || t.is closeBrace || t.is ";").map (i + ·)

/-- The index of the first brace or semicolon, which has to be an opening brace. -/
def blockFrom (i : Nat) (other : Token → ParseError) : Except ParseError Nat := do
  match ← markFrom fault tokens i with
  | none => .error ⟨.ended (.word openBrace), endOf tokens⟩
  | some k =>
    let t ← tokenAt fault tokens k
    if t.is openBrace then .ok k else .error (other t)

/-- The run from an index through the one at which it ends, and the index behind it. -/
def runThrough (i : Nat) (ending : Except ParseError Nat) : Except ParseError (List Token × Nat) := do
  let last ← ending
  let run ← slice fault tokens i (last + 1)
  return (run, last + 1)

/-- Cuts the tokens from an index on into items, each of which gives the index behind it. -/
def cutFrom {α : Type} (item : Nat → Except ParseError (α × Nat)) (i : Nat) :
    Except ParseError (List α) :=
  if i < tokens.length then
    match item i with
    | .error e => .error e
    | .ok (a, next) => if i < next then (a :: ·) <$> cutFrom item next else .error fault
  else .ok []
termination_by tokens.length - i

/-! ### Sections -/

def sectionAt (i : Nat) : Except ParseError (Section × Nat) := do
  let t ← tokenAt fault tokens i
  let ofKind (kind : SectionKind) (ending : Except ParseError Nat) := do
    let (run, next) ← runThrough fault tokens i ending
    return (⟨kind, run⟩, next)
  if t.is "module" then ofKind .moduleName (statementEnd fault tokens i)
  else if t.is "type" then ofKind .typeImport (statementEnd fault tokens i)
  else if t.is "local" then
    ofKind .localProtocol (blockFrom fault tokens i unexpected >>= closeOf fault tokens)
  else .error (unexpected t)

def splitSections : Except ParseError (List Section) := cutFrom fault tokens (sectionAt fault tokens) 0

/-! ### Steps -/

/-- The index of the block behind a separator, if there is one behind a block that has been closed. -/
def blockBehind? (separator? : Option String) (close : Nat) : Except ParseError (Option Nat) :=
  match separator?, tokens[close + 1]? with
  | some separator, some t =>
    if t.is separator then
      match tokens[close + 2]? with
      | some brace =>
        if brace.is openBrace then .ok (some (close + 2)) else .error (unexpected brace)
      | none => .error ⟨.noBlockAfter separator, endOf tokens⟩
    else .ok none
  | _, _ => .ok none

/-- The index at which a row of blocks ends that begins at an index. -/
def rowEnd (separator? : Option String) (i : Nat) : Except ParseError Nat := do
  let close ← closeOf fault tokens i
  match ← blockBehind? tokens separator? close with
  | none => .ok close
  | some next =>
    if i < next ∧ next ≤ tokens.length then rowEnd separator? next else .error fault
termination_by tokens.length - i

def blockStepEnd (separator? : Option String) (i : Nat) : Except ParseError Nat := do
  let keyword ← tokenAt fault tokens i
  let brace ← blockFrom fault tokens i fun t => ⟨.noBlock keyword.text t.text, t.start⟩
  rowEnd fault tokens separator? brace

def stepEnd (i : Nat) : Except ParseError Nat := do
  let t ← tokenAt fault tokens i
  if t.is "rec" then blockStepEnd fault tokens none i
  else if t.is "choice" then blockStepEnd fault tokens (some "or") i
  else if t.is "par" then blockStepEnd fault tokens (some "and") i
  else if t.is openBrace || t.is closeBrace then .error (unexpected t)
  else statementEnd fault tokens i

def splitSteps : Except ParseError (List (List Token)) :=
  cutFrom fault tokens (fun i => runThrough fault tokens i (stepEnd fault tokens i)) 0

/-! ### Branches -/

/-- The index behind a separator, unless the tokens end behind a block that has been closed. -/
def branchBehind? (separator : String) (close : Nat) : Except ParseError (Option Nat) :=
  match tokens[close + 1]? with
  | none => .ok none
  | some t => if t.is separator then .ok (some (close + 2)) else .error (unexpected t)

def branchesFrom (separator : String) (i : Nat) : Except ParseError (List (List Token)) :=
  match tokens[i]? with
  | none => .error ⟨.ended (.word openBrace), endOf tokens⟩
  | some t =>
    if t.is openBrace then do
      let close ← closeOf fault tokens i
      let inner ← slice fault tokens (i + 1) close
      match ← branchBehind? tokens separator close with
      | none => return [inner]
      | some next =>
        if i < next ∧ next ≤ tokens.length then (inner :: ·) <$> branchesFrom separator next
        else .error fault
    else .error (unexpected t)
termination_by tokens.length - i

def splitBranches (separator : String) : Except ParseError (List (List Token)) :=
  branchesFrom fault tokens separator 0

def branchBlocks (separator : String) : Except ParseError (List (List Token)) := do
  let branches ← splitBranches fault tokens separator
  match branches with
  | [t :: ts] => if t.is openBrace then splitBranches fault (t :: ts) separator else return branches
  | _ => return branches

end Definitions

/-! ### What stands from an index on -/

/-- The tokens from an index on. -/
structure RestAt (tokens : List Token) (i : Nat) (rest : List Token) : Prop where
  le_length : i ≤ tokens.length
  drop_eq : tokens.drop i = rest

section RestAt

variable {fault : ParseError} {tokens ts run rest : List Token} {t : Token} {i : Nat}

theorem restAt_zero (tokens : List Token) : RestAt tokens 0 tokens := ⟨Nat.zero_le _, rfl⟩

theorem restAt_of_getElem? (h : tokens[i]? = some t) :
    RestAt tokens i (t :: tokens.drop (i + 1)) := by
  obtain ⟨hlt, rfl⟩ := List.getElem?_eq_some_iff.mp h
  exact ⟨Nat.le_of_lt hlt, List.drop_eq_getElem_cons hlt⟩

theorem RestAt.length_eq (h : RestAt tokens i rest) : tokens.length = i + rest.length := by
  have hlen := congrArg List.length h.drop_eq
  rw [List.length_drop] at hlen
  have hle := h.le_length
  omega

theorem RestAt.append (h : RestAt tokens i (run ++ rest)) : RestAt tokens (i + run.length) rest := by
  have hlen := h.length_eq
  rw [List.length_append] at hlen
  refine ⟨by omega, ?_⟩
  rw [← List.drop_drop, h.drop_eq, List.drop_left]

theorem RestAt.tail (h : RestAt tokens i (t :: rest)) : RestAt tokens (i + 1) rest := by
  have hcons : RestAt tokens i ([t] ++ rest) := h
  exact hcons.append

theorem RestAt.getElem?_eq (h : RestAt tokens i rest) (k : Nat) : tokens[i + k]? = rest[k]? := by
  rw [← h.drop_eq, List.getElem?_drop]

theorem RestAt.getElem?_first (h : RestAt tokens i rest) : tokens[i]? = rest[0]? := h.getElem?_eq 0

theorem tokenAt_eq_ok (h : RestAt tokens i (t :: rest)) : tokenAt fault tokens i = .ok t := by
  rw [tokenAt, h.getElem?_first]
  rfl

theorem slice_eq_ok (h : RestAt tokens i (run ++ rest)) :
    slice fault tokens i (i + run.length) = .ok run := by
  have hle := h.append.le_length
  rw [slice, if_pos ⟨Nat.le_add_right _ _, hle⟩, List.extract_eq_take_drop, h.drop_eq,
    Nat.add_sub_cancel_left, List.take_left]

example (fault : ParseError) : slice fault [] 0 1 = .error fault := rfl

theorem slice_rest (h : RestAt tokens i rest) : slice fault tokens i tokens.length = .ok rest := by
  rw [h.length_eq]
  rw [← List.append_nil rest] at h
  simpa using slice_eq_ok h

end RestAt

/-! ### Where a block, a statement and a header end -/

theorem ok_bind {α β : Type} (a : α) (f : α → Except ParseError β) : (Except.ok a >>= f) = f a := rfl

theorem eq_of_matches {α : Type} {x y : Except ParseError α} (h : Matches Eq Eq x y) : x = y := by
  cases h with
  | ok he => rw [he]
  | error hp => rw [hp]

/-- A run ends with the token at an index. -/
def EndsAt (i last : Nat) (x : List Token × List Token) : Prop := last + 1 = i + x.1.length

/-- A block that is opened at an index is closed at another. -/
structure ClosesAt (tokens : List Token) (i close : Nat) (x : Block × List Token) : Prop where
  close_eq : close = i + 1 + x.1.inner.length
  rest : RestAt tokens (i + 1) (x.1.inner ++ x.1.close :: x.2)

section Ends

variable {fault : ParseError} {tokens ts : List Token} {i : Nat}

theorem closeIn_eq (unclosed : ParseError) (depth index : Nat) (ts : List Token) :
    closeIn unclosed (depth + 1) index ts = match closing? depth ts with
      | some (b, _) => .ok (index + b.inner.length)
      | none => .error unclosed := by
  induction ts generalizing depth index with
  | nil => rfl
  | cons t ts ih =>
    -- the token is part of the block unless it is the brace that is looked for
    have hstep (depth : Nat) : closeIn unclosed (depth + 1) (index + 1) ts =
        match (closing? depth ts).map fun x => ({ x.1 with inner := t :: x.1.inner }, x.2) with
        | some (b, _) => .ok (index + b.inner.length)
        | none => .error unclosed := by
      rw [ih]
      cases closing? depth ts with
      | none => rfl
      | some x =>
        simp only [Option.map_some, List.length_cons]
        congr 1
        omega
    rw [closeIn.eq_def, closing?.eq_def]
    dsimp only
    split
    · exact hstep _
    · split
      · cases depth with
        | zero => rfl
        | succ depth => exact hstep depth
      · exact hstep depth

theorem closeOf_eq {brace : Token} (h : RestAt tokens i (brace :: ts))
    (hbrace : brace.text = openBrace) :
    closeOf fault tokens i = (fun x => i + 1 + x.1.inner.length) <$> block brace ts := by
  have hopen : brace.is openBrace = true := by simpa [Token.is] using hbrace
  simp only [closeOf, tokenAt_eq_ok h, slice_rest h, ok_bind, hopen, if_true]
  rw [closeIn, if_pos hopen, closeIn_eq, block]
  cases closing? 0 ts <;> rfl

theorem closeOf_block {brace : Token} (h : RestAt tokens i (brace :: ts))
    (hbrace : brace.text = openBrace) :
    Matches Eq (ClosesAt tokens i) (closeOf fault tokens i) (block brace ts) := by
  rw [closeOf_eq h hbrace]
  cases hb : block brace ts with
  | error e => exact .error rfl
  | ok x =>
    obtain ⟨rfl, -⟩ := block_eq_ok.mp hb
    exact .ok ⟨rfl, h.tail⟩

theorem semicolonIn_statement (stop : Position) (index : Nat) (ts : List Token) :
    Matches Eq (EndsAt index) (semicolonIn stop index ts) (statement stop ts) := by
  induction ts generalizing index with
  | nil => exact .error rfl
  | cons t ts ih =>
    rw [semicolonIn, statement]
    split
    · exact .ok rfl
    · split
      · exact .error rfl
      · have hrest := ih (index + 1)
        generalize semicolonIn stop (index + 1) ts = x at hrest ⊢
        generalize statement stop ts = y at hrest ⊢
        cases hrest with
        | error hp => exact .error hp
        | ok hlast =>
          refine .ok ?_
          simp only [EndsAt, List.length_cons] at hlast ⊢
          omega

theorem statementEnd_statement (h : RestAt tokens i ts) :
    Matches Eq (EndsAt i) (statementEnd fault tokens i) (statement (endOf tokens) ts) := by
  have hend : statementEnd fault tokens i = semicolonIn (endOf tokens) i ts := by
    rw [statementEnd, slice_rest h]
    rfl
  rw [hend]
  exact semicolonIn_statement _ _ _

theorem findIdx?_header {head rest : List Token} (h : header ts = (head, rest)) :
    (ts.findIdx? fun t => t.is openBrace || t.is closeBrace || t.is ";") =
      rest.head?.map fun _ => head.length := by
  obtain ⟨rfl, hhead, hrest⟩ := header_eq.mp h
  have hmark (t : Token) : (t.is openBrace || t.is closeBrace || t.is ";") = true ↔
      ¬ Plain t.text := by
    simp only [Token.is, Plain, Bool.or_eq_true, beq_iff_eq]
    grind
  have hnone : (head.findIdx? fun t => t.is openBrace || t.is closeBrace || t.is ";") = none := by
    refine List.findIdx?_eq_none_iff.mpr fun t ht => ?_
    have hplain := hhead t.text (List.mem_map.mpr ⟨t, ht, rfl⟩)
    exact Bool.not_eq_true _ |>.mp fun hm => (hmark t).mp hm hplain
  rw [List.findIdx?_append, hnone, Option.none_or]
  cases rest with
  | nil => rfl
  | cons t rest =>
    have ht := (hmark t).mpr (hrest t.text rfl)
    rw [List.findIdx?_cons, if_pos ht]
    simp

theorem blockFrom_nil {other : Token → ParseError} {head : List Token} (h : RestAt tokens i ts)
    (hh : header ts = (head, [])) :
    blockFrom fault tokens i other = .error ⟨.ended (.word openBrace), endOf tokens⟩ := by
  rw [blockFrom, markFrom, slice_rest h, ok_bind, findIdx?_header hh]
  rfl

theorem blockFrom_cons {other : Token → ParseError} {head rest : List Token} {t : Token}
    (h : RestAt tokens i ts) (hh : header ts = (head, t :: rest)) :
    blockFrom fault tokens i other =
      if t.is openBrace then .ok (i + head.length) else .error (other t) := by
  rw [blockFrom, markFrom, slice_rest h, ok_bind, findIdx?_header hh]
  obtain ⟨rfl, -⟩ := header_eq.mp hh
  have ht : tokenAt fault tokens (i + head.length) = .ok t := tokenAt_eq_ok h.append
  show (tokenAt fault tokens (i + head.length) >>= _) = _
  rw [ht]
  rfl

theorem blockSection_ends (h : RestAt tokens i ts) :
    Matches Eq (EndsAt i) (blockFrom fault tokens i unexpected >>= closeOf fault tokens)
      (blockSection (endOf tokens) ts) := by
  rcases hh : header ts with ⟨head, _ | ⟨brace, rest⟩⟩
  · rw [blockFrom_nil h hh, blockSection, hh]
    exact .error rfl
  · rw [blockFrom_cons h hh, blockSection, hh]
    obtain ⟨rfl, -⟩ := header_eq.mp hh
    dsimp only
    split
    · rename_i hopen
      have hbrace : brace.text = openBrace := by simpa [Token.is] using hopen
      rw [ok_bind, ← bind_pure (closeOf fault tokens (i + head.length))]
      refine (closeOf_block h.append hbrace).bind fun close x _ hclose => .ok ?_
      have := hclose.close_eq
      simp only [EndsAt, List.length_append, List.length_cons, List.length_nil]
      omega
    · exact .error rfl

end Ends

/-! ### Runs -/

/-- A result with the index of what is left, and the same result with what is left. -/
structure Located {α : Type} (tokens : List Token) (x : α × Nat) (y : α × List Token) : Prop where
  fst_eq : x.1 = y.1
  rest : RestAt tokens x.2 y.2

section Runs

variable {fault : ParseError} {tokens ts : List Token} {i : Nat}

theorem runThrough_located {ending : Except ParseError Nat}
    {outcome : Except ParseError (List Token × List Token)} (h : RestAt tokens i ts)
    (hend : Matches Eq (EndsAt i) ending outcome)
    (hrun : ∀ {run rest}, outcome = .ok (run, rest) → ts = run ++ rest) :
    Matches Eq (Located tokens) (runThrough fault tokens i ending) outcome := by
  cases hend with
  | error hp => exact .error hp
  | @ok last x hlast =>
    obtain ⟨run, rest⟩ := x
    obtain rfl := hrun rfl
    have hlast : last + 1 = i + run.length := hlast
    rw [runThrough, ok_bind, hlast, slice_eq_ok h]
    exact .ok ⟨rfl, h.append⟩

theorem chain_eq_bind {α : Type} {item : Reader α}
    {more? : List Token → Except ParseError (Option (List Token))}
    (progress : ∀ {a mid next}, item ts = .ok (a, mid) → more? mid = .ok (some next) →
      next.length < ts.length) :
    chain item more? ts = item ts >>= fun x => more? x.2 >>= fun next? =>
      match next? with
      | none => .ok ([x.1], x.2)
      | some next => (fun y => (x.1 :: y.1, y.2)) <$> chain item more? next := by
  rw [chain]
  cases hi : item ts with
  | error e => rfl
  | ok x =>
    obtain ⟨a, mid⟩ := x
    rw [ok_bind]
    dsimp only
    cases hm : more? mid with
    | error e => rfl
    | ok next? =>
      cases next? with
      | none => rfl
      | some next =>
        rw [ok_bind]
        dsimp only
        rw [if_pos (progress hi hm)]
        cases chain item more? next <;> rfl

theorem cut_cons_eq {α : Type} {run : Reader α}
    (progress : ∀ {ts a rest}, run ts = .ok (a, rest) → rest.length < ts.length) (t : Token)
    (ts : List Token) :
    cut run (t :: ts) = run (t :: ts) >>= fun x => (x.1 :: ·) <$> cut run x.2 := by
  rw [cut, chain_eq_bind fun hi hm => nextRun?_eq_some hm ▸ progress hi]
  cases run (t :: ts) with
  | error e => rfl
  | ok x =>
    obtain ⟨a, rest⟩ := x
    cases rest with
    | nil => rfl
    | cons u rest =>
      have hnext : nextRun? (u :: rest) = .ok (some (u :: rest)) := rfl
      rw [ok_bind, ok_bind, hnext, ok_bind, cut]
      dsimp only
      cases chain run nextRun? (u :: rest) <;> rfl

theorem cutFrom_eq_cut {α : Type} {item : Nat → Except ParseError (α × Nat)} {run : Reader α}
    (hitem : ∀ {i t ts}, RestAt tokens i (t :: ts) →
      Matches Eq (Located tokens) (item i) (run (t :: ts)))
    (progress : ∀ {ts a rest}, run ts = .ok (a, rest) → rest.length < ts.length)
    (h : RestAt tokens i ts) : cutFrom fault tokens item i = cut run ts := by
  induction hk : ts.length using Nat.strongRecOn generalizing i ts with
  | ind k ih =>
    subst hk
    have hlen := h.length_eq
    rw [cutFrom]
    cases ts with
    | nil =>
      rw [if_neg (by simp at hlen; omega)]
      rfl
    | cons t ts =>
      rw [if_pos (by simp at hlen; omega), cut_cons_eq progress]
      have hfirst := hitem h
      generalize hx : item i = x at hfirst ⊢
      generalize hy : run (t :: ts) = y at hfirst ⊢
      cases hfirst with
      | error hp => rw [hp]; rfl
      | @ok x y hxy =>
        obtain ⟨a, next⟩ := x
        obtain ⟨b, rest⟩ := y
        obtain ⟨rfl, hrest⟩ := hxy
        have hlt := progress hy
        have hnext := hrest.length_eq
        rw [ok_bind]
        dsimp only
        rw [if_pos (by simp at hlt hlen hnext; omega), ih _ hlt hrest rfl]

/-! ### Sections -/

theorem sectionAt_located {t : Token} (h : RestAt tokens i (t :: ts)) :
    Matches Eq (Located tokens) (sectionAt fault tokens i)
      (readSection (endOf tokens) (t :: ts)) := by
  have hkind (kind : SectionKind) {ending : Except ParseError Nat}
      {outcome : Except ParseError (List Token × List Token)}
      (hend : Matches Eq (EndsAt i) ending outcome)
      (hrun : ∀ {run rest}, outcome = .ok (run, rest) → t :: ts = run ++ rest) :
      Matches Eq (Located tokens)
        (runThrough fault tokens i ending >>= fun x => pure (Section.mk kind x.1, x.2))
        (outcome >>= fun x => pure (Section.mk kind x.1, x.2)) :=
    (runThrough_located h hend hrun).bind fun _ _ _ hx => .ok ⟨by rw [hx.fst_eq], hx.rest⟩
  have hstatement {run rest : List Token}
      (hs : statement (endOf tokens) (t :: ts) = .ok (run, rest)) : t :: ts = run ++ rest := by
    obtain ⟨body, semi, hts, rfl, -⟩ := statement_eq_ok.mp hs
    simpa using hts
  rw [sectionAt, tokenAt_eq_ok h, ok_bind, readSection]
  dsimp only
  split
  · exact hkind .moduleName (statementEnd_statement h) hstatement
  · split
    · exact hkind .typeImport (statementEnd_statement h) hstatement
    · split
      · exact hkind .localProtocol (blockSection_ends h) fun hb => (blockSection_eq_ok.mp hb).1
      · exact .error rfl

theorem splitSections_eq (fault : ParseError) (tokens : List Token) :
    splitSections fault tokens = Grammar.splitSections tokens :=
  cutFrom_eq_cut sectionAt_located length_readSection (restAt_zero tokens)

/-! ### Steps -/

theorem blockRun_lead {stop : Position} {lead us : List Token} {brace : Token}
    (hlead : lead = [] ∨ ∃ t, lead = [t] ∧ t.text ≠ openBrace) (hbrace : brace.text = openBrace) :
    blockRun stop (lead ++ brace :: us) =
      block brace us >>= fun x => pure (lead ++ brace :: x.1.inner ++ [x.1.close], x.2) := by
  rcases hlead with rfl | ⟨t, rfl, ht⟩
  · simp [blockRun, Token.is, hbrace]
  · simp [blockRun, Token.is, ht]

/-- What stands behind a block that has been closed. -/
theorem ClosesAt.behind {close : Nat} {x : Block × List Token} (h : ClosesAt tokens i close x) :
    RestAt tokens (close + 1) x.2 := by
  rw [h.close_eq]
  exact h.rest.append.tail

theorem ClosesAt.slice_eq {close : Nat} {x : Block × List Token} (h : ClosesAt tokens i close x) :
    slice fault tokens (i + 1) close = .ok x.1.inner := by
  rw [h.close_eq]
  exact slice_eq_ok h.rest

/-- A row goes on at the brace behind a separator. -/
structure GoesOn (tokens : List Token) (sep? : Option String) (rest : List Token) (next : Nat)
    (ts : List Token) : Prop where
  eq_rest : ts = rest
  exists_brace : ∃ t brace us, rest = t :: brace :: us ∧ t.text ∈ sep? ∧ brace.text = openBrace ∧
    RestAt tokens next (brace :: us)

theorem blockBehind?_nextBlock? {sep? : Option String} {close : Nat} {rest : List Token}
    (h : RestAt tokens (close + 1) rest) :
    Matches Eq (Option.Rel (GoesOn tokens sep? rest)) (blockBehind? tokens sep? close)
      (nextBlock? sep? (endOf tokens) rest) := by
  have hafter : tokens[close + 2]? = rest[1]? := h.getElem?_eq 1
  rw [blockBehind?.eq_def, h.getElem?_first, hafter, nextBlock?.eq_def]
  cases sep? with
  | none => exact .ok .none
  | some sep =>
    cases rest with
    | nil => exact .ok .none
    | cons t rest =>
      dsimp only [List.getElem?_cons_zero]
      split
      · rename_i ht
        cases rest with
        | nil => exact .error rfl
        | cons brace us =>
          dsimp only [List.getElem?_cons_succ, List.getElem?_cons_zero]
          split
          · rename_i hb
            have ht : t.text = sep := by simpa [Token.is] using ht
            have hb : brace.text = openBrace := by simpa [Token.is] using hb
            exact .ok (.some ⟨rfl, t, brace, us, rfl, congrArg some ht.symm, hb, h.tail⟩)
          · exact .error rfl
      · exact .ok .none

/-- A row of blocks ends with the last of them. The chain may have a separator to read before it. -/
theorem rowEnd_chain {sep? : Option String} (hsep : ∀ sep ∈ sep?, sep ≠ openBrace)
    {lead us : List Token} {brace : Token} (h : RestAt tokens i (brace :: us))
    (hbrace : brace.text = openBrace) (hlead : lead = [] ∨ ∃ t, lead = [t] ∧ t.text ≠ openBrace) :
    Matches Eq (fun last x => last + 1 + lead.length = i + x.1.flatten.length)
      (rowEnd fault tokens sep? i)
      (chain (blockRun (endOf tokens)) (nextBlock? sep? (endOf tokens)) (lead ++ brace :: us)) := by
  induction hk : us.length using Nat.strongRecOn generalizing i lead us brace with
  | ind k ih =>
    subst hk
    have progress {run mid next : List Token}
        (hi : blockRun (endOf tokens) (lead ++ brace :: us) = .ok (run, mid))
        (hm : nextBlock? sep? (endOf tokens) mid = .ok (some next)) :
        next.length < (lead ++ brace :: us).length := by
      obtain ⟨rfl, -⟩ := nextBlock?_eq_some.mp hm
      exact length_blockRun hi
    rw [rowEnd, chain_eq_bind progress, blockRun_lead hlead hbrace, bind_assoc]
    refine (closeOf_block h hbrace).bind fun close x hx hc => ?_
    obtain ⟨b, rest⟩ := x
    have hclose : close = i + 1 + b.inner.length := hc.close_eq
    rw [pure_bind]
    refine (blockBehind?_nextBlock? hc.behind).bind fun next? rest? _ hnext => ?_
    cases hnext with
    | none =>
      refine .ok ?_
      simp only [List.flatten_singleton, List.length_append, List.length_cons, List.length_nil]
      omega
    | some hon =>
      obtain ⟨rfl, t, brace', us', rfl, hmem, hbrace', hnext⟩ := hon
      have hus : us = b.inner ++ b.close :: t :: brace' :: us' :=
        h.tail.drop_eq.symm.trans hc.rest.drop_eq
      have hlen := hnext.length_eq
      have hlen' := hc.behind.length_eq
      simp only [List.length_cons] at hlen hlen'
      dsimp only
      rw [if_pos (by omega), ← id_map (rowEnd fault tokens sep? _)]
      have hrest := @ih us'.length (by simp [hus]; omega) _ [t] us' brace' hnext hbrace'
        (.inr ⟨t, rfl, hsep _ hmem⟩) rfl
      refine hrest.map fun last y hlast => ?_
      simp only [id, List.flatten_cons, List.length_append, List.length_cons, List.length_nil]
        at hlast ⊢
      omega

theorem blockStep_ends {sep? : Option String} (hsep : ∀ sep ∈ sep?, sep ≠ openBrace)
    {keyword : Token} (hkey : Plain keyword.text) (h : RestAt tokens i (keyword :: ts)) :
    Matches Eq (EndsAt i) (blockStepEnd fault tokens sep? i)
      (blockStep sep? (endOf tokens) keyword ts) := by
  rw [blockStepEnd, tokenAt_eq_ok h, ok_bind]
  have hcons {head rest : List Token} (hh : header ts = (head, rest)) :
      header (keyword :: ts) = (keyword :: head, rest) := by
    obtain ⟨rfl, hhead, hrest⟩ := header_eq.mp hh
    exact header_eq.mpr ⟨rfl, List.forall_mem_cons.mpr ⟨hkey, hhead⟩, hrest⟩
  rcases hh : header ts with ⟨head, _ | ⟨brace, rest⟩⟩
  · rw [blockFrom_nil h (hcons hh), blockStep, hh]
    exact .error rfl
  · rw [blockFrom_cons h (hcons hh), blockStep, hh]
    obtain ⟨rfl, -⟩ := header_eq.mp hh
    dsimp only
    split
    · rename_i hopen
      have hbrace : brace.text = openBrace := by simpa [Token.is] using hopen
      have hrow : RestAt tokens (i + (keyword :: head).length) (brace :: rest) := h.append
      rw [ok_bind, ← bind_pure (rowEnd fault tokens sep? _)]
      refine (rowEnd_chain hsep hrow hbrace (.inl rfl)).bind fun last x _ hlast => .ok ?_
      simp only [EndsAt, List.length_append, List.length_cons, List.length_nil] at hlast ⊢
      omega
    · exact .error rfl

theorem stepRun_ends {t : Token} (h : RestAt tokens i (t :: ts)) :
    Matches Eq (EndsAt i) (stepEnd fault tokens i) (stepRun (endOf tokens) (t :: ts)) := by
  have hblock {keyword : String} {sep? : Option String} (ht : t.is keyword = true)
      (hmem : (keyword, sep?) ∈ blockKeywords) : Matches Eq (EndsAt i) (blockStepEnd fault tokens sep? i)
        (blockStep sep? (endOf tokens) t ts) := by
    obtain rfl : t.text = keyword := by simpa [Token.is] using ht
    have hsep := plain_of_mem_blockKeywords hmem
    have hkey := plain_of_mem_map_blockKeywords (List.mem_map.mpr ⟨_, hmem, rfl⟩)
    exact blockStep_ends (fun sep hs => (hsep sep hs).1) hkey h
  rw [stepEnd, tokenAt_eq_ok h, ok_bind, stepRun]
  split
  · exact hblock ‹_› (by simp [blockKeywords])
  · split
    · exact hblock ‹_› (by simp [blockKeywords])
    · split
      · exact hblock ‹_› (by simp [blockKeywords])
      · split
        · exact .error rfl
        · exact statementEnd_statement h

theorem splitSteps_eq (fault : ParseError) (tokens : List Token) :
    splitSteps fault tokens = Grammar.splitSteps tokens :=
  cutFrom_eq_cut (fun h => runThrough_located h (stepRun_ends h) fun hr => (stepRun_eq_ok.mp hr).1)
    length_stepRun (restAt_zero tokens)

/-! ### Branches -/

theorem branchBehind?_nextBranch? {sep : String} {close : Nat} {rest : List Token}
    (h : RestAt tokens (close + 1) rest) :
    Matches Eq (Option.Rel (RestAt tokens)) (branchBehind? tokens sep close)
      (nextBranch? sep rest) := by
  rw [branchBehind?, h.getElem?_first]
  cases rest with
  | nil => exact .ok .none
  | cons t rest =>
    rw [nextBranch?]
    dsimp only [List.getElem?_cons_zero]
    split
    · exact .ok (.some h.tail)
    · exact .error rfl

theorem branchBehind?_eq_some {sep : String} {close next : Nat}
    (h : branchBehind? tokens sep close = .ok (some next)) : next = close + 2 := by
  rw [branchBehind?] at h
  split at h
  · cases h
  · split at h <;> cases h
    rfl

theorem branchesFrom_chain {sep : String} (h : RestAt tokens i ts) :
    branchesFrom fault tokens sep i =
      (·.1) <$> chain (branch (endOf tokens)) (nextBranch? sep) ts := by
  induction hk : ts.length using Nat.strongRecOn generalizing i ts with
  | ind k ih =>
    subst hk
    have progress {inner mid next : List Token} (hi : branch (endOf tokens) ts = .ok (inner, mid))
        (hm : nextBranch? sep mid = .ok (some next)) : next.length < ts.length := by
      obtain ⟨brace, close, rfl, -⟩ := branch_eq_ok.mp hi
      have hlen := (nextBranch?_eq_some.mp hm).length_eq
      simp only [List.length_append, List.length_cons, List.length_nil] at hlen ⊢
      omega
    rw [branchesFrom, h.getElem?_first, chain_eq_bind progress]
    cases ts with
    | nil => rfl
    | cons t us =>
      dsimp only [List.getElem?_cons_zero]
      rw [branch]
      split
      · rename_i ht
        have ht : t.text = openBrace := by simpa [Token.is] using ht
        rw [bind_assoc, map_bind]
        apply eq_of_matches
        refine (closeOf_block h ht).bind fun close x _ hc => ?_
        obtain ⟨b, rest⟩ := x
        have hclose : close = i + 1 + b.inner.length := hc.close_eq
        rw [pure_bind, hc.slice_eq, ok_bind, map_bind]
        refine (branchBehind?_nextBranch? hc.behind).bind fun next? rest? hbehind hnext => ?_
        cases hnext with
        | none => exact .ok rfl
        | @some next rest' hrest =>
          obtain rfl := branchBehind?_eq_some hbehind
          have hlen := h.length_eq
          have hlen' := hrest.length_eq
          have hle := hrest.le_length
          simp only [List.length_cons] at hlen
          dsimp only
          rw [if_pos (by omega), ih rest'.length (by simp; omega) hrest rfl]
          cases chain (branch (endOf tokens)) (nextBranch? sep) rest' with
          | error e => exact .error rfl
          | ok y => exact .ok rfl
      · rfl

theorem splitBranches_eq (fault : ParseError) (tokens : List Token) (sep : String) :
    splitBranches fault tokens sep = Grammar.splitBranches sep tokens :=
  branchesFrom_chain (restAt_zero tokens)

theorem branchBlocks_eq (fault : ParseError) (tokens : List Token) (sep : String) :
    branchBlocks fault tokens sep = Grammar.branchBlocks sep tokens := by
  rw [branchBlocks, Grammar.branchBlocks, splitBranches_eq]
  refine congrArg _ (funext fun branches => ?_)
  -- the second cut is made in one case only
  rcases branches with _ | ⟨_ | ⟨t, ts⟩, _ | ⟨b, bs⟩⟩
  · rfl
  · rfl
  · rfl
  · show (if t.is openBrace then splitBranches fault (t :: ts) sep else _) = _
    rw [splitBranches_eq]
  · rfl

end Runs

/-! ### The closing brace -/

/-- No brace is open any more behind the token at an index, of those from another index on. -/
def ReturnsAt (tokens : List Token) (i j : Nat) : Prop :=
  i ≤ j ∧ j < tokens.length ∧ braceDepth? 0 (texts (tokens.extract i (j + 1))) = some 0

theorem exists_closeBrace {depth : Nat} {us : List Token}
    (h : braceDepth? (depth + 1) (texts us) = some 0) : ∃ inner close more,
      us = inner ++ close :: more ∧ close.text = closeBrace ∧
        braceDepth? depth (texts inner) = some 0 := by
  induction us generalizing depth with
  | nil => cases h
  | cons t us ih =>
    rw [texts_cons] at h
    -- the token is part of the block unless it is the brace that is looked for
    have hstep {depth' : Nat} (hus : braceDepth? (depth' + 1) (texts us) = some 0)
        (hdepth : ∀ ws, braceDepth? depth (t.text :: ws) = braceDepth? depth' ws) :
        ∃ inner close more, t :: us = inner ++ close :: more ∧ close.text = closeBrace ∧
          braceDepth? depth (texts inner) = some 0 := by
      obtain ⟨inner, close, more, rfl, hclose, hinner⟩ := ih hus
      exact ⟨t :: inner, close, more, rfl, hclose, (hdepth _).trans hinner⟩
    by_cases ho : t.text = openBrace
    · rw [ho, braceDepth?_open] at h
      exact hstep h fun ws => by rw [ho, braceDepth?_open]
    · by_cases hc : t.text = closeBrace
      · rw [hc, braceDepth?_close_succ] at h
        cases depth with
        | zero => exact ⟨[], t, us, rfl, hc, rfl⟩
        | succ depth => exact hstep h fun ws => by rw [hc, braceDepth?_close_succ]
      · rw [braceDepth?_cons ho hc] at h
        exact hstep h fun ws => braceDepth?_cons ho hc depth ws

section Close

variable {fault : ParseError} {tokens ts : List Token} {brace : Token} {i j : Nat}

theorem returnsAt_iff (h : RestAt tokens i (brace :: ts)) (hbrace : brace.text = openBrace) :
    ReturnsAt tokens i j ↔ ∃ us rest, ts = us ++ rest ∧ j = i + us.length ∧
      braceDepth? 1 (texts us) = some 0 := by
  have hlen := h.length_eq
  rw [List.length_cons] at hlen
  constructor
  · rintro ⟨hij, hj, hdepth⟩
    refine ⟨ts.take (j - i), ts.drop (j - i), (List.take_append_drop _ _).symm, ?_, ?_⟩
    · rw [List.length_take]
      omega
    · have hsub : j + 1 - i = j - i + 1 := by omega
      rwa [List.extract_eq_take_drop, h.drop_eq, hsub, List.take_succ_cons, texts_cons, hbrace,
        braceDepth?_open] at hdepth
  · rintro ⟨us, rest, rfl, rfl, hdepth⟩
    rw [List.length_append] at hlen
    refine ⟨by omega, by omega, ?_⟩
    have hsub : i + us.length + 1 - i = us.length + 1 := by omega
    rw [List.extract_eq_take_drop, h.drop_eq, hsub, List.take_succ_cons, List.take_left, texts_cons,
      hbrace, braceDepth?_open]
    exact hdepth

theorem block_of_returnsAt (h : RestAt tokens i (brace :: ts)) (hbrace : brace.text = openBrace)
    (hj : ReturnsAt tokens i j) :
    ∃ b rest, block brace ts = .ok (b, rest) ∧ i + 1 + b.inner.length ≤ j := by
  obtain ⟨us, rest, rfl, rfl, hdepth⟩ := (returnsAt_iff h hbrace).mp hj
  obtain ⟨inner, close, more, rfl, hclose, hinner⟩ := exists_closeBrace hdepth
  refine ⟨⟨inner, close⟩, more ++ rest, block_eq_ok.mpr ⟨by simp, hclose, hinner⟩, ?_⟩
  simp only [List.length_append, List.length_cons]
  omega

theorem returnsAt_of_block (h : RestAt tokens i (brace :: ts)) (hbrace : brace.text = openBrace)
    {b : Block} {rest : List Token} (hb : block brace ts = .ok (b, rest)) :
    ReturnsAt tokens i (i + 1 + b.inner.length) := by
  obtain ⟨rfl, hclose, hinner⟩ := block_eq_ok.mp hb
  refine (returnsAt_iff h hbrace).mpr ⟨b.inner ++ [b.close], rest, by simp, ?_, ?_⟩
  · rw [List.length_append, List.length_singleton]
    omega
  · rw [texts_append, braceDepth?_append, hinner.depth_eq 1, texts_cons, hclose]
    exact braceDepth?_close_succ 0 []

/-- The brace that closes another is the first behind which none is open any more. -/
theorem closeOf_eq_ok_iff (h : RestAt tokens i (brace :: ts)) (hbrace : brace.text = openBrace) :
    closeOf fault tokens i = .ok j ↔
      ReturnsAt tokens i j ∧ ∀ k, ReturnsAt tokens i k → j ≤ k := by
  rw [closeOf_eq h hbrace, map_eq_ok]
  constructor
  · rintro ⟨⟨b, rest⟩, hb, rfl⟩
    refine ⟨returnsAt_of_block h hbrace hb, fun k hk => ?_⟩
    obtain ⟨b', rest', hb', hle⟩ := block_of_returnsAt h hbrace hk
    cases hb.symm.trans hb'
    exact hle
  · rintro ⟨hj, hleast⟩
    obtain ⟨b, rest, hb, hle⟩ := block_of_returnsAt h hbrace hj
    exact ⟨_, hb, Nat.le_antisymm hle (hleast _ (returnsAt_of_block h hbrace hb))⟩

theorem closeOf_eq_unclosed_iff (h : RestAt tokens i (brace :: ts))
    (hbrace : brace.text = openBrace) :
    closeOf fault tokens i = .error ⟨.unclosed, brace.start⟩ ↔ ∀ j, ¬ ReturnsAt tokens i j := by
  rw [closeOf_eq h hbrace]
  cases hb : block brace ts with
  | ok x =>
    constructor
    · intro he
      cases he
    · intro hno
      exact absurd (returnsAt_of_block h hbrace hb) (hno _)
  | error e =>
    have he : e = ⟨.unclosed, brace.start⟩ := by
      rw [block] at hb
      split at hb <;> cases hb
      rfl
    refine ⟨fun _ j hj => ?_, fun _ => congrArg _ he⟩
    obtain ⟨b, rest, hok, -⟩ := block_of_returnsAt h hbrace hj
    cases hb.symm.trans hok

end Close

end Parley.Grammar.Indexed
