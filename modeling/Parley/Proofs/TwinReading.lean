import Parley.Proofs.Acceptance
import Parley.Proofs.Schedule
import Parley.Proofs.Twin

/-! Sections, steps and whole protocols of token lists with the same texts. No error takes its place from
an empty list: steps have at least one token, and where the branches of a step are looked for there is a
brace. -/

namespace Parley.Grammar

variable {P : Position → Position → Prop}

/-! ### Sections -/

section Sections

variable {ts us : List Token} {stop stop' : Position}

structure Section.Twin (P : Position → Position → Prop) (sec sec' : Section) : Prop where
  kind_eq : sec.kind = sec'.kind
  run : Twins P sec.run sec'.run

theorem blockSection_twin (hstop : P stop stop') (h : Twins P ts us) :
    Matches P (Leaves P (Twins P)) (blockSection stop ts) (blockSection stop' us) := by
  obtain ⟨hhead, hrest⟩ := header_twin h
  rw [blockSection, blockSection]
  generalize header ts = x at hhead hrest ⊢
  generalize header us = y at hhead hrest ⊢
  obtain ⟨head, rest⟩ := x
  obtain ⟨head', rest'⟩ := y
  cases hrest with
  | nil => exact .error hstop
  | @cons brace brace' rest rest' hbrace hrest =>
    dsimp only
    rw [hbrace.is_eq]
    split
    · refine (block_twin hbrace hrest).bind fun x y _ hxy => .ok ⟨?_, hxy.2⟩
      simpa using List.rel_append hhead (hxy.1.run hbrace)
    · exact unexpected_twin hbrace

theorem readSection_twin (hstop : P stop stop') (h : Twins P ts us) :
    Matches P (Leaves P (Section.Twin P)) (readSection stop ts) (readSection stop' us) := by
  cases h with
  | nil => exact .error hstop
  | @cons t u ts us ht hts =>
    have hsection (kind : SectionKind) {x y : Except ParseError (List Token × List Token)}
        (hxy : Matches P (Leaves P (Twins P)) x y) :
        Matches P (Leaves P (Section.Twin P))
          (x >>= fun r => pure (⟨kind, r.1⟩, r.2)) (y >>= fun r => pure (⟨kind, r.1⟩, r.2)) :=
      hxy.bind fun _ _ _ hr => .ok ⟨⟨rfl, hr.1⟩, hr.2⟩
    rw [readSection, readSection, ht.is_eq, ht.is_eq, ht.is_eq]
    split
    · exact hsection .moduleName (statement_twin hstop (.cons ht hts))
    · split
      · exact hsection .typeImport (statement_twin hstop (.cons ht hts))
      · split
        · exact hsection .localProtocol (blockSection_twin hstop (.cons ht hts))
        · exact unexpected_twin ht

theorem splitSections_twin (hend : P (endOf ts) (endOf us)) (h : Twins P ts us) :
    Matches P (List.Forall₂ fun sec sec' => sec.Twin P sec' ∧ sec.run ≠ [])
      (splitSections ts) (splitSections us) :=
  cut_twin (fun h => (readSection_twin hend h).imp fun _ _ hsec hr =>
    ⟨⟨hr.1, (readSection_eq_ok.mp hsec).2.ne_nil⟩, hr.2⟩) h

theorem runsOf_twin (kind : SectionKind) {secs secs' : List Section}
    (h : List.Forall₂ (fun sec sec' => sec.Twin P sec' ∧ sec.run ≠ []) secs secs') :
    List.Forall₂ (fun run run' => Twins P run run' ∧ run ≠ [])
      (runsOf kind secs) (runsOf kind secs') := by
  induction h with
  | nil => exact .nil
  | @cons sec sec' secs secs' hsec _ ih =>
    obtain ⟨⟨hkind, hrun⟩, hne⟩ := hsec
    by_cases hk : sec.kind = kind
    · have hk' : sec'.kind = kind := hkind.symm.trans hk
      simpa [runsOf, hk, hk'] using List.Forall₂.cons ⟨hrun, hne⟩ ih
    · have hk' : sec'.kind ≠ kind := hkind ▸ hk
      simpa [runsOf, hk, hk'] using ih

theorem readModule_twin (hne : ts ≠ []) (h : Twins P ts us) :
    Matches P Eq (readModule ts) (readModule us) := by
  have hstop := h.endOf hne
  unfold readModule
  refine (expectWord_twin _ hstop h).bind fun rest rest' _ h => ?_
  have hdot {ts us : List Token} (h : Twins P ts us) : Matches P (Option.Rel (Twins P))
      (.ok (eat? "." ts)) (.ok (eat? "." us)) := .ok (eat?_twin _ h)
  have hnames := chain_twin (expectText_twin .identifier hstop) hdot h
  refine (hnames.imp fun _ _ _ hr => hr.of_forall₂_eq).bind ?_
  rintro ⟨names, rest⟩ ⟨_, rest'⟩ - ⟨rfl, h⟩
  refine (expectWord_twin _ hstop h).bind fun rest rest' _ h => ?_
  exact (expectEnd_twin h).bind fun _ _ _ _ => .ok rfl

theorem readModules_twin {runs runs' : List (List Token)}
    (h : List.Forall₂ (fun run run' => Twins P run run' ∧ run ≠ []) runs runs') :
    Matches P Eq (readModules runs) (readModules runs') := by
  cases h with
  | nil => exact .ok rfl
  | cons hrun hruns =>
    have hfirst := readModule_twin hrun.2 hrun.1
    cases hruns with
    | nil => exact hfirst.map fun _ _ hname => congrArg some hname
    | cons hagain _ => exact hfirst.bind fun _ _ _ _ => .error (hagain.1.startOf hagain.2)

theorem quoted_twin (hstop : P stop stop') (h : Twins P ts us) :
    Matches P (Leaves P Eq) (quoted stop ts) (quoted stop' us) := by
  unfold quoted
  refine (expect_twin _ hstop h).bind fun x y _ hxy => ?_
  have htext := textUntil_twin "\"" hxy.2
  refine (expect_twin _ hstop htext.2).bind fun x y _ hxy => ?_
  exact .ok ⟨htext.1, hxy.2⟩

theorem schemaName_twin (hstop : P stop stop') (h : Twins P ts us) :
    Matches P (Leaves P Eq) (schemaName stop ts) (schemaName stop' us) := by
  unfold schemaName
  refine (expectWord_twin _ hstop h).bind fun rest rest' _ h => ?_
  obtain ⟨htext, hrest⟩ := textUntil_twin ">" h
  dsimp only
  rw [← htext]
  split
  · exact (expect_twin _ hstop hrest).bind fun _ _ _ hr => unexpected_twin hr.1
  · exact (expectWord_twin _ hstop hrest).bind fun _ _ _ h => .ok ⟨rfl, h⟩

theorem typeAlias_twin (hstop : P stop stop') (h : Twins P ts us) :
    Matches P (Leaves P Eq) (typeAlias stop ts) (typeAlias stop' us) := by
  have heat := eat?_twin "as" h
  rw [typeAlias, typeAlias]
  generalize eat? "as" ts = x at heat ⊢
  generalize eat? "as" us = y at heat ⊢
  cases heat with
  | none => exact .ok ⟨rfl, h⟩
  | some hrest =>
    exact (expectText_twin _ hstop hrest).map fun _ _ hr => ⟨congrArg some hr.1, hr.2⟩

theorem readType_twin (hne : ts ≠ []) (h : Twins P ts us) :
    Matches P Eq (readType ts) (readType us) := by
  have hstop := h.endOf hne
  unfold readType
  refine (expectWord_twin _ hstop h).bind fun rest rest' _ h => ?_
  refine (schemaName_twin hstop h).bind ?_
  rintro ⟨schema, rest⟩ ⟨_, rest'⟩ - ⟨rfl, h⟩
  refine (quoted_twin hstop h).bind ?_
  rintro ⟨source, rest⟩ ⟨_, rest'⟩ - ⟨rfl, h⟩
  refine (expectWord_twin _ hstop h).bind fun rest rest' _ h => ?_
  refine (quoted_twin hstop h).bind ?_
  rintro ⟨fileName, rest⟩ ⟨_, rest'⟩ - ⟨rfl, h⟩
  refine (typeAlias_twin hstop h).bind ?_
  rintro ⟨alias?, rest⟩ ⟨_, rest'⟩ - ⟨rfl, h⟩
  refine (expectWord_twin _ hstop h).bind fun rest rest' _ h => ?_
  exact (expectEnd_twin h).bind fun _ _ _ _ => .ok rfl

theorem declaredRole_twin (hstop : P stop stop') (h : Twins P ts us) :
    Matches P (Leaves P Eq) (declaredRole stop ts) (declaredRole stop' us) :=
  (expectWord_twin _ hstop h).bind fun _ _ _ h => expectText_twin _ hstop h

end Sections

/-! ### Runs and branches -/

section Runs

variable {ts us : List Token} {stop stop' : Position}

theorem blockRun_twin (hstop : P stop stop') (h : Twins P ts us) :
    Matches P (Leaves P (Twins P)) (blockRun stop ts) (blockRun stop' us) := by
  cases h with
  | nil => exact .error hstop
  | @cons t u ts us ht hts =>
    simp only [blockRun, ht.is_eq]
    split
    · exact (block_twin ht hts).bind fun _ _ _ hxy => .ok ⟨hxy.1.run ht, hxy.2⟩
    · cases hts with
      | nil => exact .error hstop
      | cons hbrace hts =>
        exact (block_twin hbrace hts).bind fun _ _ _ hxy => .ok ⟨.cons ht (hxy.1.run hbrace), hxy.2⟩

theorem nextBlock?_twin (sep? : Option String) (hstop : P stop stop') (h : Twins P ts us) :
    Matches P (Option.Rel (Twins P)) (nextBlock? sep? stop ts) (nextBlock? sep? stop' us) := by
  cases sep? with
  | none => exact .ok .none
  | some sep =>
    cases h with
    | nil => exact .ok .none
    | @cons t u ts us ht hts =>
      simp only [nextBlock?, ht.is_eq]
      split
      · cases hts with
        | nil => exact .error hstop
        | @cons brace brace' ts us hbrace hts =>
          simp only [hbrace.is_eq]
          split
          · exact .ok (.some (.cons ht (.cons hbrace hts)))
          · exact unexpected_twin hbrace
      · exact .ok .none

theorem blockStep_twin (sep? : Option String) (hstop : P stop stop') {t u : Token}
    (ht : t.Twin P u) (h : Twins P ts us) :
    Matches P (Leaves P (Twins P)) (blockStep sep? stop t ts) (blockStep sep? stop' u us) := by
  obtain ⟨hhead, hrest⟩ := header_twin h
  rw [blockStep, blockStep]
  generalize header ts = x at hhead hrest ⊢
  generalize header us = y at hhead hrest ⊢
  obtain ⟨head, rest⟩ := x
  obtain ⟨head', rest'⟩ := y
  cases hrest with
  | nil => exact .error hstop
  | @cons brace brace' rest rest' hbrace hrest =>
    dsimp only
    rw [hbrace.is_eq]
    split
    · have hrow : Twins P (brace :: rest) (brace' :: rest') := .cons hbrace hrest
      have hblocks := chain_twin (blockRun_twin hstop) (nextBlock?_twin sep? hstop) hrow
      refine hblocks.bind fun x y _ hxy => .ok ⟨?_, hxy.2⟩
      exact .cons ht (List.rel_append hhead (List.rel_flatten hxy.1))
    · rw [ht.text_eq, hbrace.text_eq]
      exact .error hbrace.start

theorem stepRun_twin (hstop : P stop stop') (h : Twins P ts us) :
    Matches P (Leaves P (Twins P)) (stepRun stop ts) (stepRun stop' us) := by
  cases h with
  | nil => exact .error hstop
  | @cons t u ts us ht hts =>
    simp only [stepRun, ht.is_eq]
    split
    · exact blockStep_twin _ hstop ht hts
    · split
      · exact blockStep_twin _ hstop ht hts
      · split
        · exact blockStep_twin _ hstop ht hts
        · split
          · exact unexpected_twin ht
          · exact statement_twin hstop (.cons ht hts)

/-- In an empty block there is nothing to fail. -/
theorem splitSteps_twin (h : Twins P ts us) :
    Matches P (List.Forall₂ fun run run' => Twins P run run' ∧ ∃ sep?, Run sep? (texts run))
      (splitSteps ts) (splitSteps us) := by
  by_cases hne : ts = []
  · subst hne
    cases h
    exact .ok .nil
  · refine cut_twin (fun h' => (stepRun_twin (h.endOf hne) h').imp fun _ _ hrun hr => ?_) h
    obtain ⟨-, sep?, hshape, -⟩ := stepRun_eq_ok.mp hrun
    exact ⟨⟨hr.1, sep?, hshape⟩, hr.2⟩

theorem branch_twin (hstop : P stop stop') (h : Twins P ts us) :
    Matches P (Leaves P (Twins P)) (branch stop ts) (branch stop' us) := by
  cases h with
  | nil => exact .error hstop
  | @cons t u ts us ht hts =>
    rw [branch, branch, ht.is_eq]
    split
    · exact (block_twin ht hts).bind fun _ _ _ hxy => .ok ⟨hxy.1.inner, hxy.2⟩
    · exact unexpected_twin ht

theorem nextBranch?_twin (sep : String) (h : Twins P ts us) :
    Matches P (Option.Rel (Twins P)) (nextBranch? sep ts) (nextBranch? sep us) := by
  cases h with
  | nil => exact .ok .none
  | @cons t u ts us ht hts =>
    rw [nextBranch?, nextBranch?, ht.is_eq]
    split
    · exact .ok (.some hts)
    · exact unexpected_twin ht

theorem splitBranches_twin (sep : String) (hne : ts ≠ []) (h : Twins P ts us) :
    Matches P (List.Forall₂ (Twins P)) (splitBranches sep ts) (splitBranches sep us) :=
  (chain_twin (branch_twin (h.endOf hne)) (nextBranch?_twin sep) h).map fun _ _ hxy => hxy.1

theorem branchBlocks_twin (sep : String) (hne : ts ≠ []) (h : Twins P ts us) :
    Matches P (List.Forall₂ (Twins P)) (branchBlocks sep ts) (branchBlocks sep us) := by
  refine (splitBranches_twin sep hne h).bind fun bs bs' _ hbs => ?_
  cases hbs with
  | nil => exact .ok .nil
  | cons hb hbs =>
    cases hb with
    | nil => exact .ok (.cons .nil hbs)
    | @cons t u ts us ht hts =>
      cases hbs with
      | cons hb' hbs => exact .ok (.cons (.cons ht hts) (.cons hb' hbs))
      | nil =>
        dsimp only
        rw [ht.is_eq]
        split
        · exact splitBranches_twin sep (List.cons_ne_nil _ _) (.cons ht hts)
        · exact .ok (.cons (.cons ht hts) .nil)

end Runs

/-! ### Steps that are statements -/

section Statements

variable {ts us : List Token} {stop stop' : Position}

theorem payload_twin (h : Twins P ts us) (depth : Nat) :
    Matches P (Leaves P Eq) (payload depth ts) (payload depth us) := by
  induction h generalizing depth with
  | nil => exact .ok ⟨rfl, .nil⟩
  | @cons t u ts us ht hts ih =>
    simp only [payload, ht.is_eq, ht.text_eq]
    split
    · exact .ok ⟨rfl, .cons ht hts⟩
    · split
      · exact unexpected_twin ht
      · rename_i depth _
        have hrest := ih depth
        generalize payload depth ts = x at hrest ⊢
        generalize payload depth us = y at hrest ⊢
        cases hrest with
        | error hp => exact .error hp
        | ok hxy => exact .ok ⟨congrArg (u.text ++ ·) hxy.1, hxy.2⟩

theorem messagePayload_twin (name : String) (hstop : P stop stop') (h : Twins P ts us) :
    Matches P (Leaves P Eq) (messagePayload name stop ts) (messagePayload name stop' us) := by
  refine (payload_twin h 0).bind ?_
  rintro ⟨text, rest⟩ ⟨_, rest'⟩ - ⟨rfl, hrest⟩
  dsimp only
  split
  · cases h with
    | nil => exact .error hstop
    | cons ht _ => exact .error ht.start
  · exact .ok ⟨rfl, hrest⟩

theorem direction_twin (protagonist : String) (hstop : P stop stop') (h : Twins P ts us) :
    Matches P (Leaves P Eq) (direction protagonist stop ts) (direction protagonist stop' us) := by
  have hfrom := eat?_twin "from" h
  have hto := eat?_twin "to" h
  unfold direction
  generalize eat? "from" ts = x at hfrom ⊢
  generalize eat? "from" us = y at hfrom ⊢
  generalize eat? "to" ts = x' at hto ⊢
  generalize eat? "to" us = y' at hto ⊢
  cases hfrom with
  | some hrest =>
    refine (expectText_twin _ hstop hrest).bind fun x y _ hxy => .ok ⟨?_, hxy.2⟩
    exact congrArg (·, protagonist) hxy.1
  | none =>
    cases hto with
    | some hrest =>
      refine (expectText_twin _ hstop hrest).bind fun x y _ hxy => .ok ⟨?_, hxy.2⟩
      exact congrArg (protagonist, ·) hxy.1
    | none =>
      cases h with
      | nil => exact .error hstop
      | cons ht _ =>
        dsimp only
        rw [ht.text_eq]
        exact .error ht.start

theorem callRole_twin (hstop : P stop stop') (h : Twins P ts us) :
    Matches P (Leaves P Eq) (callRole stop ts) (callRole stop' us) := by
  have heat := eat?_twin "role" h
  rw [callRole, callRole]
  generalize eat? "role" ts = x at heat ⊢
  generalize eat? "role" us = y at heat ⊢
  cases heat with
  | none => exact expectText_twin _ hstop h
  | some hrest => exact expectText_twin _ hstop hrest

theorem readCall_twin (hstop : P stop stop') (h : Twins P ts us) :
    Matches P Eq (readCall stop ts) (readCall stop' us) := by
  unfold readCall
  refine (expectText_twin _ hstop h).bind ?_
  rintro ⟨name, rest⟩ ⟨_, rest'⟩ - ⟨rfl, h⟩
  refine (expectWord_twin _ hstop h).bind fun rest rest' _ h => ?_
  refine (commaItems_twin _ hstop (callRole_twin hstop) h).bind ?_
  rintro ⟨roles, rest⟩ ⟨_, rest'⟩ - ⟨rfl, h⟩
  refine (expectWord_twin _ hstop h).bind fun rest rest' _ h => ?_
  exact (expectEnd_twin h).bind fun _ _ _ _ => .ok rfl

end Statements

/-! ### Readings -/

/-- Readings that draw the same identifiers and have the same results, with errors of the same cause in
places that `P` relates. -/
inductive Reading.Twin (P : Position → Position → Prop) :
    {α : Type} → Reading α → Reading α → Prop where
  | ok {α : Type} {a : α} : Twin P (.done (.ok a)) (.done (.ok a))
  | error {α : Type} {cause : Cause} {p q : Position} : P p q →
      Twin (α := α) P (.done (.error ⟨cause, p⟩)) (.done (.error ⟨cause, q⟩))
  | draw {α : Type} {label : String} {next next' : NodeId → Reading α} :
      (∀ id, Twin P (next id) (next' id)) → Twin P (.draw label next) (.draw label next')
  | both {α β γ : Type} {l l' : Reading β} {r r' : Reading γ} {next next' : β → γ → Reading α} :
      Twin P l l' → Twin P r r' → (∀ b c, Twin P (next b c) (next' b c)) →
      Twin P (.both l r next) (.both l' r' next')
  | within {α β : Type} {own : IdSource} {t t' : Reading β} {next next' : β → Reading α} :
      Twin P t t' → (∀ b, Twin P (next b) (next' b)) →
      Twin P (.within own t next) (.within own t' next')

namespace Reading

variable {α β γ δ : Type} {R : γ → δ → Prop}

theorem Twin.bind {t t' : Reading α} {f f' : α → Reading β} (h : Twin P t t')
    (hf : ∀ a, Twin P (f a) (f' a)) : Twin P (t >>= f) (t' >>= f') := by
  show Twin P (t.bind f) (t'.bind f')
  induction h with
  | ok => exact hf _
  | error hp => exact .error hp
  | draw _ ih => exact .draw fun id => ih id hf
  | both hl hr _ _ _ ih => exact .both hl hr fun b c => ih b c hf
  | within ht _ _ ih => exact .within ht fun b => ih b hf

theorem twin_done {x y : Except ParseError α} (h : Matches P Eq x y) :
    Twin P (.done x) (.done y) := by
  cases h with
  | ok hr =>
    subst hr
    exact .ok
  | error hp => exact .error hp

theorem Twin.eq_done {x : Except ParseError α} {u : Reading α} (h : Twin P (.done x) u) :
    ∃ y, u = .done y ∧ Matches P Eq x y := by
  cases h with
  | ok => exact ⟨_, rfl, .ok rfl⟩
  | error hp => exact ⟨_, rfl, .error hp⟩

theorem twin_lift_bind {x : Except ParseError γ} {y : Except ParseError δ} {f : γ → Reading α}
    {g : δ → Reading α} (h : Matches P R x y)
    (hf : ∀ a b, x = .ok a → R a b → Twin P (f a) (g b)) :
    Twin P (liftM x >>= f) (liftM y >>= g) := by
  cases h with
  | ok hr => exact hf _ _ rfl hr
  | error hp => exact .error hp

theorem twin_issue_bind {label : String} {f g : NodeId → Reading α}
    (h : ∀ id, Twin P (f id) (g id)) : Twin P (issue label >>= f) (issue label >>= g) :=
  .draw h

theorem twin_mapM {f : γ → Reading α} {g : δ → Reading α} {as : List γ} {bs : List δ}
    (h : List.Forall₂ (fun a b => Twin P (f a) (g b)) as bs) :
    Twin P (as.mapM f) (bs.mapM g) := by
  induction h with
  | nil => exact .ok
  | cons hab _ ih =>
    rw [List.mapM_cons, List.mapM_cons]
    exact hab.bind fun _ => ih.bind fun _ => .ok

theorem twin_all {f : γ → Reading α} {g : δ → Reading α} {as : List γ} {bs : List δ}
    (h : List.Forall₂ (fun a b => Twin P (f a) (g b)) as bs) :
    Twin P (all (as.map f)) (all (bs.map g)) := by
  induction h with
  | nil => exact .ok
  | cons hab _ ih => exact .both hab ih fun _ _ => .ok

/-- Part by part, twins come to the same. -/
theorem Twin.run {t t' : Reading α} (h : Twin P t t') (s : IdSource) :
    Matches P Eq (t.run s) (t'.run s) := by
  induction h generalizing s with
  | ok => exact .ok rfl
  | error hp => exact .error hp
  | draw _ ih => exact ih _ _
  | @both _ _ _ l l' r r' _ _ _ _ _ ihl ihr ih =>
    have hl := ihl s
    rw [Reading.run, Reading.run]
    generalize l.run s = x at hl ⊢
    generalize l'.run s = y at hl ⊢
    cases hl with
    | error hp => exact .error hp
    | @ok x _ hxy =>
      subst hxy
      obtain ⟨b, s₁⟩ := x
      have hr := ihr s₁
      dsimp only
      generalize r.run s₁ = x at hr ⊢
      generalize r'.run s₁ = y at hr ⊢
      cases hr with
      | error hp => exact .error hp
      | ok hxy =>
        subst hxy
        exact ih _ _ _
  | @within _ _ own t t' _ _ _ _ iht ih =>
    have ht := iht own
    rw [Reading.run, Reading.run]
    generalize t.run own = x at ht ⊢
    generalize t'.run own = y at ht ⊢
    cases ht with
    | error hp => exact .error hp
    | ok hxy =>
      subst hxy
      exact ih _ _

/-- Whatever step one of two twins makes, the other can make it too. -/
theorem Twin.step {t t' u : Reading α} {s s' : IdSource} (h : Twin P t u) (hstep : Step t s t' s') :
    ∃ u', Step u s u' s' ∧ Twin P t' u' := by
  induction hstep with
  | draw =>
    cases h with
    | draw hnext => exact ⟨_, .draw, hnext _⟩
  | left _ ih =>
    cases h with
    | both hl hr hnext =>
      obtain ⟨l', hstep, hl'⟩ := ih hl
      exact ⟨_, .left hstep, .both hl' hr hnext⟩
  | right _ ih =>
    cases h with
    | both hl hr hnext =>
      obtain ⟨r', hstep, hr'⟩ := ih hr
      exact ⟨_, .right hstep, .both hl hr' hnext⟩
  | join =>
    cases h with
    | both hl hr hnext =>
      cases hl
      cases hr
      exact ⟨_, .join, hnext _ _⟩
  | failLeft =>
    cases h with
    | both hl hr hnext =>
      cases hl with
      | error hp => exact ⟨_, .failLeft, .error hp⟩
  | failRight =>
    cases h with
    | both hl hr hnext =>
      cases hr with
      | error hp => exact ⟨_, .failRight, .error hp⟩
  | part _ ih =>
    cases h with
    | within ht hnext =>
      obtain ⟨t', hstep, ht'⟩ := ih ht
      exact ⟨_, .part hstep, .within ht' hnext⟩
  | leave =>
    cases h with
    | within ht hnext =>
      cases ht
      exact ⟨_, .leave, hnext _⟩
  | failPart =>
    cases h with
    | within ht hnext =>
      cases ht with
      | error hp => exact ⟨_, .failPart, .error hp⟩

theorem Twin.reaches {t t' u : Reading α} {s s' : IdSource} (h : Twin P t u)
    (hreach : Reaches t s t' s') : ∃ u', Reaches u s u' s' ∧ Twin P t' u' := by
  induction hreach generalizing u with
  | refl => exact ⟨u, .refl, h⟩
  | cons hstep _ ih =>
    obtain ⟨u₁, hstep', h₁⟩ := h.step hstep
    obtain ⟨u', hreach, h'⟩ := ih h₁
    exact ⟨u', .cons hstep' hreach, h'⟩

end Reading

/-! ### Steps and conversations -/

section Steps

open Reading

variable {protagonist : String} {ts us : List Token} {stop stop' : Position}
  {inner inner' : List Token → Reading Conversation}

theorem readMessage_twin (hstop : P stop stop') (h : Twins P ts us) :
    Reading.Twin P (readMessage protagonist stop ts) (readMessage protagonist stop' us) := by
  unfold readMessage
  refine twin_lift_bind (expectText_twin _ hstop h) ?_
  rintro ⟨name, rest⟩ ⟨_, rest'⟩ - ⟨rfl, h⟩
  refine twin_lift_bind (expectWord_twin _ hstop h) fun rest rest' _ h => ?_
  refine twin_lift_bind (commaItems_twin _ hstop (messagePayload_twin _ hstop) h) ?_
  rintro ⟨payloads, rest⟩ ⟨_, rest'⟩ - ⟨rfl, h⟩
  refine twin_lift_bind (direction_twin _ hstop h) ?_
  rintro ⟨⟨sender, receiver⟩, rest⟩ ⟨_, rest'⟩ - ⟨rfl, h⟩
  refine twin_lift_bind (expectWord_twin _ hstop h) fun rest rest' _ h => ?_
  refine twin_lift_bind (expectEnd_twin h) fun _ _ _ _ => ?_
  exact twin_issue_bind fun id => .ok

theorem readJump_twin (hstop : P stop stop') (h : Twins P ts us) :
    Reading.Twin P (readJump stop ts) (readJump stop' us) := by
  unfold readJump
  refine twin_lift_bind (expectText_twin _ hstop h) ?_
  rintro ⟨label, rest⟩ ⟨_, rest'⟩ - ⟨rfl, h⟩
  refine twin_lift_bind (expectWord_twin _ hstop h) fun rest rest' _ h => ?_
  refine twin_lift_bind (expectEnd_twin h) fun _ _ _ _ => ?_
  exact twin_issue_bind fun id => .ok

/-- `inner` and `inner'` read blocks of less than `bound` tokens alike. -/
def TwinsWithin (P : Position → Position → Prop) (inner inner' : List Token → Reading Conversation)
    (bound : Nat) : Prop :=
  ∀ b b', Twins P b b' → b.length < bound → Reading.Twin P (inner b) (inner' b')

theorem TwinsWithin.mono {bound bound' : Nat} (h : TwinsWithin P inner inner' bound)
    (hle : bound' ≤ bound) : TwinsWithin P inner inner' bound' :=
  fun b b' hb hlen => h b b' hb (Nat.lt_of_lt_of_le hlen hle)

theorem readLoop_twin (hinner : TwinsWithin P inner inner' ts.length) (hstop : P stop stop')
    (h : Twins P ts us) : Reading.Twin P (readLoop inner stop ts) (readLoop inner' stop' us) := by
  unfold readLoop
  refine twin_lift_bind (expectText_twin _ hstop h) ?_
  rintro ⟨label, rest⟩ ⟨_, rest'⟩ hlabel ⟨rfl, h⟩
  refine twin_issue_bind fun id => ?_
  refine twin_lift_bind (expect_twin _ hstop h) ?_
  rintro ⟨brace, rest⟩ ⟨brace', rest'⟩ hbrace ⟨hbrace', h⟩
  refine twin_lift_bind (block_twin hbrace' h) ?_
  rintro ⟨b, rest⟩ ⟨b', rest'⟩ hb ⟨hb', h⟩
  refine twin_lift_bind (expectEnd_twin h) fun _ _ _ _ => ?_
  have hshort : b.inner.length < ts.length := by
    have hlen := (expectText_eq_ok.mp hlabel).1.length_eq
    obtain ⟨rfl, -⟩ := expect_eq_ok.mp hbrace
    obtain ⟨rfl, -, -⟩ := block_eq_ok.mp hb
    simp only [List.length_cons, List.length_append] at hlen
    omega
  exact (hinner _ _ hb'.inner hshort).bind fun body => .ok

/-- The branches of a step, which are looked for where there is something to read. -/
theorem readBranches_twin (sep : String) (hinner : TwinsWithin P inner inner' ts.length)
    (hne : ts ≠ []) (h : Twins P ts us) (f : List Conversation → Node) :
    Reading.Twin P
      (liftM (branchBlocks sep ts) >>= fun bs => Reading.all (bs.map inner) >>= fun cs => pure (f cs))
      (liftM (branchBlocks sep us) >>= fun bs =>
        Reading.all (bs.map inner') >>= fun cs => pure (f cs)) := by
  refine twin_lift_bind (branchBlocks_twin sep hne h) fun bs bs' hbs hpairs => ?_
  have hread := forall₂_imp_of_mem hpairs fun b hb b' htwin =>
    hinner b b' htwin (length_branchBlocks hbs b hb)
  exact (twin_all hread).bind fun cs => .ok

theorem readChoice_twin (hinner : TwinsWithin P inner inner' ts.length) (hstop : P stop stop')
    (hopen : openBrace ∈ texts ts) (h : Twins P ts us) :
    Reading.Twin P (readChoice inner stop ts) (readChoice inner' stop' us) := by
  unfold readChoice
  refine twin_lift_bind (expectWord_twin _ hstop h) fun rest rest' hat h => ?_
  refine twin_lift_bind (expectText_twin _ hstop h) ?_
  rintro ⟨chooser, rest⟩ ⟨_, rest'⟩ hchooser ⟨rfl, h⟩
  refine twin_issue_bind fun id => ?_
  have htakes := (expectWord_eq_ok.mp hat).trans (expectText_eq_ok.mp hchooser).1
  have hlen := htakes.length_eq
  have hne : rest ≠ [] := by
    -- neither of the words read is the brace, so it is still to come
    rintro rfl
    have hid := plain_of_isIdentifier (expectText_eq_ok.mp hchooser).2
    rw [takes_all.mp htakes] at hopen
    simp only [List.singleton_append, List.mem_cons, List.not_mem_nil, or_false] at hopen
    rcases hopen with hopen | hopen
    · exact absurd hopen (by decide)
    · exact hid.1 hopen.symm
  exact readBranches_twin "or" (hinner.mono (by omega)) hne h _

theorem readPar_twin (hinner : TwinsWithin P inner inner' ts.length) (hne : ts ≠ [])
    (h : Twins P ts us) : Reading.Twin P (readPar inner ts) (readPar inner' us) := by
  unfold readPar
  refine twin_issue_bind fun id => ?_
  exact readBranches_twin "and" hinner hne h _

theorem readStep_twin {run run' : List Token} (hinner : TwinsWithin P inner inner' run.length)
    {sep? : Option String} (hrun : Run sep? (texts run)) (h : Twins P run run') :
    Reading.Twin P (readStep protagonist inner run) (readStep protagonist inner' run') := by
  have hstop := h.endOf hrun.ne_nil
  cases h with
  | nil => exact absurd rfl hrun.ne_nil
  | @cons t u ts us ht hts =>
    have hwithin : TwinsWithin P inner inner' ts.length := hinner.mono (by simp)
    have hopen (hk : t.text ∈ blockKeywords.map (·.1)) : openBrace ∈ texts ts :=
      hrun.openBrace_mem hk
    rw [readStep, readStep]
    simp only [← ht.is_eq]
    simp only [Token.is, beq_iff_eq]
    split
    · exact readLoop_twin hwithin hstop hts
    · split
      · rename_i hk
        exact readChoice_twin hwithin hstop (hopen (by simp [hk, blockKeywords])) hts
      · split
        · rename_i hk
          refine readPar_twin hwithin ?_ hts
          rintro rfl
          cases hopen (by simp [hk, blockKeywords])
        · split
          · exact readJump_twin hstop hts
          · split
            · exact twin_done (readCall_twin hstop hts)
            · exact readMessage_twin hstop (.cons ht hts)

theorem readConversation_twin (h : Twins P ts us) :
    Reading.Twin P (readConversation protagonist ts) (readConversation protagonist us) := by
  -- by the number of tokens, as a block has fewer than what it stands in
  induction hk : ts.length using Nat.strongRecOn generalizing ts us with
  | ind k ih =>
    subst hk
    have hinner : TwinsWithin P
        (fun inner => if inner.length < ts.length then readConversation protagonist inner
          else .done (.error ⟨.unclosed, startOf inner⟩))
        (fun inner => if inner.length < us.length then readConversation protagonist inner
          else .done (.error ⟨.unclosed, startOf inner⟩)) ts.length := by
      intro b b' hb hlen
      have hlen' : b'.length < us.length := by rwa [← hb.length_eq, ← h.length_eq]
      simp only [if_pos hlen, if_pos hlen']
      exact ih b.length hlen hb rfl
    rw [readConversation, readConversation]
    refine twin_lift_bind (splitSteps_twin h) fun runs runs' hruns hpairs => ?_
    refine twin_mapM (forall₂_imp_of_mem hpairs ?_)
    rintro run hmem run' ⟨hrun, sep?, hshape⟩
    exact readStep_twin (hinner.mono (length_splitSteps hruns run hmem)) hshape hrun

theorem readLocal_twin (concurrent : Bool) (hne : ts ≠ []) (h : Twins P ts us) :
    Reading.Twin P (readLocal concurrent ts) (readLocal concurrent us) := by
  have hstop := h.endOf hne
  unfold readLocal
  refine twin_lift_bind (expectWord_twin _ hstop h) fun rest rest' _ h => ?_
  refine twin_lift_bind (expectWord_twin _ hstop h) fun rest rest' _ h => ?_
  refine twin_lift_bind (expectText_twin _ hstop h) ?_
  rintro ⟨name, rest⟩ ⟨_, rest'⟩ - ⟨rfl, h⟩
  refine twin_lift_bind (expectWord_twin _ hstop h) fun rest rest' _ h => ?_
  refine twin_lift_bind (expectText_twin _ hstop h) ?_
  rintro ⟨protagonist, rest⟩ ⟨_, rest'⟩ - ⟨rfl, h⟩
  refine twin_lift_bind (expectWord_twin _ hstop h) fun rest rest' _ h => ?_
  refine twin_lift_bind (commaItems_twin _ hstop (declaredRole_twin hstop) h) ?_
  rintro ⟨roles, rest⟩ ⟨_, rest'⟩ - ⟨rfl, h⟩
  refine twin_lift_bind (expect_twin _ hstop h) ?_
  rintro ⟨brace, rest⟩ ⟨brace', rest'⟩ - ⟨hbrace, h⟩
  refine twin_lift_bind (block_twin hbrace h) ?_
  rintro ⟨b, rest⟩ ⟨b', rest'⟩ - ⟨hb, h⟩
  refine twin_lift_bind (expectEnd_twin h) fun _ _ _ _ => ?_
  have hbody : Reading.Twin P
      (.within (IdSource.ofScope name) (readConversation protagonist b.inner) pure)
      (.within (IdSource.ofScope name) (readConversation protagonist b'.inner) pure) :=
    .within (readConversation_twin hb.inner) fun _ => .ok
  exact hbody.bind fun c => .ok

/-- Whole protocols. Only the end of the whole list may be that of an empty one. -/
theorem protocolReading_twin (concurrent : Bool) (hend : P (endOf ts) (endOf us))
    (h : Twins P ts us) :
    Reading.Twin P (protocolReading concurrent ts) (protocolReading concurrent us) := by
  unfold protocolReading
  refine twin_lift_bind (splitSections_twin hend h) fun secs secs' _ hsecs => ?_
  refine twin_lift_bind (readModules_twin (runsOf_twin _ hsecs)) ?_
  rintro moduleName? _ - rfl
  have htypes := (runsOf_twin .typeImport hsecs).imp fun run run' hrun =>
    twin_done (readType_twin hrun.2 hrun.1)
  refine (twin_all htypes).bind fun types => ?_
  have hlocals := (runsOf_twin .localProtocol hsecs).imp fun run run' hrun =>
    readLocal_twin concurrent hrun.2 hrun.1
  refine (twin_all hlocals).bind fun locals => ?_
  split
  · exact .error hend
  · exact .ok

end Steps

end Parley.Grammar
