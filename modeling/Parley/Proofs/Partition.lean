import Parley.Proofs.Acceptance

/-! What the cuts into sections, steps and branches leave of a token list: all of it, in order. Each run
ends where its first word says, and no brace has its partner in another run. -/

namespace Parley.Grammar

/-- The texts of a run through its first semicolon, with no brace in it. -/
def EndsStatement (ws : List String) : Prop := ∃ body, ws = body ++ [";"] ∧ ∀ w ∈ body, Plain w

/-- The texts of a run that ends with a closing brace, just where one brace is open. -/
def EndsBlock (ws : List String) : Prop :=
  ∃ front, ws = front ++ [closeBrace] ∧ braceDepth? 0 front = some 1

section Ends

variable {us ws : List String}

theorem EndsStatement.balanced (h : EndsStatement ws) : Balanced ws := by
  obtain ⟨body, rfl, hbody⟩ := h
  exact (balanced_of_plain hbody).append rfl

theorem EndsBlock.balanced (h : EndsBlock ws) : Balanced ws := by
  obtain ⟨front, rfl, hfront⟩ := h
  rw [Balanced, braceDepth?_append, hfront]
  exact braceDepth?_close_succ 0 []

theorem Balanced.endsBlock (h : Balanced ws) : EndsBlock (openBrace :: ws ++ [closeBrace]) := by
  refine ⟨openBrace :: ws, rfl, ?_⟩
  rw [braceDepth?_open]
  exact h.depth_eq 1

theorem EndsBlock.append (h : EndsBlock ws) (hus : Balanced us) : EndsBlock (us ++ ws) := by
  obtain ⟨front, rfl, hfront⟩ := h
  refine ⟨us ++ front, (List.append_assoc ..).symm, ?_⟩
  rw [braceDepth?_append, hus]
  exact hfront

theorem BlockRow.endsBlock {sep? : Option String} (hsep : ∀ sep ∈ sep?, Plain sep)
    (h : BlockRow sep? ws) : EndsBlock ws := by
  induction h with
  | last hus => exact hus.endsBlock
  | more hus hmem _ ih =>
    have hblock := ih.append (hus.block.append (balanced_nil.cons (hsep _ hmem)))
    simpa using hblock

end Ends

/-- A run ends as its first word says: some words begin a run that ends with a block, all others a
statement. -/
def EndsInKind (blockWords ws : List String) : Prop :=
  ∃ w ∈ ws.head?, if w ∈ blockWords then EndsBlock ws else EndsStatement ws

theorem EndsInKind.balanced {blockWords ws : List String} (h : EndsInKind blockWords ws) :
    Balanced ws := by
  obtain ⟨w, -, hend⟩ := h
  split at hend
  · exact hend.balanced
  · exact hend.balanced

theorem EndsInKind.ne_nil {blockWords : List String} {run : List Token}
    (h : EndsInKind blockWords (texts run)) : run ≠ [] := by
  rintro rfl
  obtain ⟨w, hw, -⟩ := h
  cases hw

/-- The runs are what a token list is cut into. -/
structure Parted (blockWords : List String) (tokens : List Token) (runs : List (List Token)) :
    Prop where
  flatten_eq : runs.flatten = tokens
  ne_nil : ∀ run ∈ runs, run ≠ []
  balanced : ∀ run ∈ runs, Balanced (texts run)
  ends : ∀ run ∈ runs, EndsInKind blockWords (texts run)

theorem Cuts.parted {α : Type} {item : Reader α} {runOf : α → List Token} {blockWords : List String}
    (hitem : ∀ {ts rest a}, item ts = .ok (a, rest) →
      ts = runOf a ++ rest ∧ EndsInKind blockWords (texts (runOf a)))
    {ts : List Token} {as : List α} (h : Cuts item ts as) :
    Parted blockWords ts (as.map runOf) := by
  have hflat : (as.map runOf).flatten = ts := by
    induction h with
    | nil => rfl
    | cons hi _ ih => rw [List.map_cons, List.flatten_cons, ih, (hitem hi).1]
  have hends : ∀ run ∈ as.map runOf, EndsInKind blockWords (texts run) := by
    clear hflat
    induction h with
    | nil => simp
    | cons hi _ ih => exact List.forall_mem_cons.mpr ⟨(hitem hi).2, ih⟩
  exact ⟨hflat, fun run hrun => (hends run hrun).ne_nil, fun run hrun => (hends run hrun).balanced,
    hends⟩

/-! ### Sections -/

theorem SectionRun.head?_eq {kind : SectionKind} {ws : List String} (h : SectionRun kind ws) :
    ws.head? = some kind.keyword := by
  cases h with
  | statement _ hfirst _ => simp [hfirst]
  | block hfirst _ _ => simp [hfirst, SectionKind.keyword]

theorem SectionRun.ends {kind : SectionKind} {ws : List String} (h : SectionRun kind ws) :
    EndsInKind [SectionKind.localProtocol.keyword] ws := by
  refine ⟨kind.keyword, h.head?_eq, ?_⟩
  cases h with
  | statement hkind _ hbody =>
    rw [if_neg (by cases kind <;> simp_all [SectionKind.keyword])]
    exact ⟨_, rfl, hbody⟩
  | block _ hhead hws =>
    rw [if_pos (List.mem_singleton.mpr rfl), List.append_assoc]
    exact hws.endsBlock.append (balanced_of_plain hhead)

theorem parted_of_splitSections {tokens : List Token} {secs : List Section}
    (h : splitSections tokens = .ok secs) :
    Parted [SectionKind.localProtocol.keyword] tokens (secs.map (·.run)) :=
  (splitSections_eq_ok.mp h).parted fun hi =>
    ⟨(readSection_eq_ok.mp hi).1, (readSection_eq_ok.mp hi).2.ends⟩

theorem head?_of_splitSections {tokens : List Token} {secs : List Section}
    (h : splitSections tokens = .ok secs) :
    ∀ sec ∈ secs, (texts sec.run).head? = some sec.kind.keyword := by
  have hcuts := splitSections_eq_ok.mp h
  generalize endOf tokens = stop at hcuts
  clear h
  induction hcuts with
  | nil => simp
  | cons hi _ ih => exact List.forall_mem_cons.mpr ⟨(readSection_eq_ok.mp hi).2.head?_eq, ih⟩

/-! ### Steps -/

theorem plain_of_mem_map_blockKeywords {keyword : String} (h : keyword ∈ blockKeywords.map (·.1)) :
    Plain keyword := by
  simp only [blockKeywords, List.map_cons, List.map_nil, List.mem_cons, List.not_mem_nil,
    or_false] at h
  rcases h with rfl | rfl | rfl <;> decide

theorem Run.ends {sep? : Option String} {ws : List String} (h : Run sep? ws) :
    EndsInKind (blockKeywords.map (·.1)) ws := by
  cases h with
  | @statement body hbody hfirst =>
    have hend : EndsStatement (body ++ [";"]) := ⟨body, rfl, hbody⟩
    cases body with
    | nil =>
      refine ⟨";", rfl, ?_⟩
      rwa [if_neg (by decide)]
    | cons w body =>
      refine ⟨w, rfl, ?_⟩
      rwa [if_neg (hfirst w rfl)]
  | @blocks keyword _ head row hmem hhead hrow =>
    have hkey : keyword ∈ blockKeywords.map (·.1) := List.mem_map.mpr ⟨_, hmem, rfl⟩
    refine ⟨keyword, rfl, ?_⟩
    rw [if_pos hkey]
    have hlead := (balanced_of_plain hhead).cons (plain_of_mem_map_blockKeywords hkey)
    exact (hrow.endsBlock (plain_of_mem_blockKeywords hmem)).append hlead

theorem parted_of_splitSteps {tokens : List Token} {runs : List (List Token)}
    (h : splitSteps tokens = .ok runs) : Parted (blockKeywords.map (·.1)) tokens runs := by
  have hparted : Parted (blockKeywords.map (·.1)) tokens (runs.map id) := by
    refine (splitSteps_eq_ok.mp h).parted fun hi => ?_
    obtain ⟨hts, sep?, hrun, -⟩ := stepRun_eq_ok.mp hi
    exact ⟨hts, hrun.ends⟩
  rwa [List.map_id] at hparted

/-! ### Branches -/

/-- Blocks with their braces put back around them and the separator between them. -/
inductive Rejoined (sep : String) : List (List Token) → List Token → Prop where
  | last {brace close : Token} {inner : List Token} : brace.text = openBrace →
      close.text = closeBrace → Rejoined sep [inner] (brace :: inner ++ [close])
  | more {brace close t : Token} {inner ts : List Token} {bs : List (List Token)} :
      brace.text = openBrace → close.text = closeBrace → t.text = sep → Rejoined sep bs ts →
      Rejoined sep (inner :: bs) (brace :: inner ++ close :: t :: ts)

theorem rejoined_of_splitBranches {sep : String} {tokens : List Token} {bs : List (List Token)}
    (h : splitBranches sep tokens = .ok bs) :
    Rejoined sep bs tokens ∧ ∀ b ∈ bs, Balanced (texts b) := by
  have hchain := splitBranches_eq_ok.mp h
  generalize endOf tokens = stop at hchain
  generalize hrest : ([] : List Token) = rest at hchain
  clear h
  induction hchain with
  | last hi _ =>
    subst hrest
    obtain ⟨brace, close, rfl, hbrace, hclose, hinner⟩ := branch_eq_ok.mp hi
    exact ⟨.last hbrace hclose, List.forall_mem_singleton.mpr hinner⟩
  | more hi hm _ ih =>
    obtain ⟨brace, close, rfl, hbrace, hclose, hinner⟩ := branch_eq_ok.mp hi
    obtain ⟨t, rfl, ht⟩ := takes_singleton.mp (nextBranch?_eq_some.mp hm)
    obtain ⟨hts, hbs⟩ := ih hrest
    exact ⟨.more hbrace hclose ht hts, List.forall_mem_cons.mpr ⟨hinner, hbs⟩⟩

end Parley.Grammar
