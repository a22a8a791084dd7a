import Parley.Proofs.Reading

/-! Schedules of a reading. A step is made anywhere in a reading where one can be made, so that parts
side by side draw their identifiers in any order that keeps the order within each part. Every schedule
comes to an end, and reading part by part is one of them. -/

namespace Parley.Grammar.Reading

/-- One step of some part of a reading. A part that fails ends what it is a part of, and then the part
beside it is left as it is. -/
inductive Step : {α : Type} → Reading α → IdSource → Reading α → IdSource → Prop where
  | draw {α : Type} {label : String} {next : NodeId → Reading α} {s : IdSource} :
      Step (.draw label next) s (next (s.next label).1) (s.next label).2
  | left {α β γ : Type} {l l' : Reading β} {r : Reading γ} {next : β → γ → Reading α}
      {s s' : IdSource} : Step l s l' s' → Step (.both l r next) s (.both l' r next) s'
  | right {α β γ : Type} {l : Reading β} {r r' : Reading γ} {next : β → γ → Reading α}
      {s s' : IdSource} : Step r s r' s' → Step (.both l r next) s (.both l r' next) s'
  | join {α β γ : Type} {b : β} {c : γ} {next : β → γ → Reading α} {s : IdSource} :
      Step (.both (.done (.ok b)) (.done (.ok c)) next) s (next b c) s
  | failLeft {α β γ : Type} {e : ParseError} {r : Reading γ} {next : β → γ → Reading α}
      {s : IdSource} : Step (.both (.done (.error e)) r next) s (.done (.error e)) s
  | failRight {α β γ : Type} {e : ParseError} {l : Reading β} {next : β → γ → Reading α}
      {s : IdSource} : Step (.both l (.done (.error e)) next) s (.done (.error e)) s
  | part {α β : Type} {own own' : IdSource} {t t' : Reading β} {next : β → Reading α}
      {s : IdSource} : Step t own t' own' → Step (.within own t next) s (.within own' t' next) s
  | leave {α β : Type} {own : IdSource} {b : β} {next : β → Reading α} {s : IdSource} :
      Step (.within own (.done (.ok b)) next) s (next b) s
  | failPart {α β : Type} {own : IdSource} {e : ParseError} {next : β → Reading α} {s : IdSource} :
      Step (.within own (.done (.error e)) next) s (.done (.error e)) s

/-- What a schedule leads to. -/
inductive Reaches {α : Type} : Reading α → IdSource → Reading α → IdSource → Prop where
  | refl {t : Reading α} {s : IdSource} : Reaches t s t s
  | cons {t t₁ t' : Reading α} {s s₁ s' : IdSource} : Step t s t₁ s₁ → Reaches t₁ s₁ t' s' →
      Reaches t s t' s'

section Reaches

variable {α β γ : Type} {s s' s₁ : IdSource}

theorem Reaches.single {t t' : Reading α} (h : Step t s t' s') : Reaches t s t' s' := .cons h .refl

theorem Reaches.trans {t t₁ t' : Reading α} (h : Reaches t s t₁ s₁) (h' : Reaches t₁ s₁ t' s') :
    Reaches t s t' s' := by
  induction h with
  | refl => exact h'
  | cons hstep _ ih => exact .cons hstep (ih h')

theorem Reaches.left {l l' : Reading β} {r : Reading γ} {next : β → γ → Reading α}
    (h : Reaches l s l' s') : Reaches (.both l r next) s (.both l' r next) s' := by
  induction h with
  | refl => exact .refl
  | cons hstep _ ih => exact .cons (.left hstep) ih

theorem Reaches.right {l : Reading β} {r r' : Reading γ} {next : β → γ → Reading α}
    (h : Reaches r s r' s') : Reaches (.both l r next) s (.both l r' next) s' := by
  induction h with
  | refl => exact .refl
  | cons hstep _ ih => exact .cons (.right hstep) ih

theorem Reaches.part {own own' : IdSource} {t t' : Reading β} {next : β → Reading α}
    (h : Reaches t own t' own') : Reaches (.within own t next) s (.within own' t' next) s := by
  induction h with
  | refl => exact .refl
  | cons hstep _ ih => exact .cons (.part hstep) ih

end Reaches

theorem reaches_of_run_ok {α : Type} {t : Reading α} {s s' : IdSource} {a : α}
    (h : t.run s = .ok (a, s')) : Reaches t s (.done (.ok a)) s' := by
  induction t generalizing s s' with
  | done outcome =>
    obtain ⟨rfl, rfl⟩ := run_done_eq_ok.mp h
    exact .refl
  | draw label next ih => exact .cons .draw (ih _ h)
  | both left right next ihl ihr ih =>
    obtain ⟨b, c, s₁, s₂, hl, hr, hn⟩ := run_both_eq_ok.mp h
    exact (ihl hl).left.trans ((ihr hr).right.trans (.cons .join (ih b c hn)))
  | within own part next ihp ih =>
    obtain ⟨b, own', hp, hn⟩ := run_within_eq_ok.mp h
    exact (ihp hp).part.trans (.cons .leave (ih b hn))

theorem reaches_of_run_error {α : Type} {t : Reading α} {s : IdSource} {e : ParseError}
    (h : t.run s = .error e) : ∃ s', Reaches t s (.done (.error e)) s' := by
  induction t generalizing s with
  | done outcome =>
    cases outcome <;> cases h
    exact ⟨s, .refl⟩
  | draw label next ih =>
    obtain ⟨s', hr⟩ := ih _ h
    exact ⟨s', .cons .draw hr⟩
  | both left right next ihl ihr ih =>
    rw [run] at h
    cases hl : left.run s with
    | error e' =>
      simp only [hl] at h
      cases h
      obtain ⟨s', hs⟩ := ihl hl
      exact ⟨s', hs.left.trans (.single .failLeft)⟩
    | ok p =>
      obtain ⟨b, s₁⟩ := p
      have hleft : Reaches (both left right next) s (both (.done (.ok b)) right next) s₁ :=
        (reaches_of_run_ok hl).left
      simp only [hl] at h
      cases hr : right.run s₁ with
      | error e' =>
        simp only [hr] at h
        cases h
        obtain ⟨s', hs⟩ := ihr hr
        exact ⟨s', hleft.trans (hs.right.trans (.single .failRight))⟩
      | ok q =>
        obtain ⟨c, s₂⟩ := q
        simp only [hr] at h
        obtain ⟨s', hs⟩ := ih b c h
        exact ⟨s', hleft.trans ((reaches_of_run_ok hr).right.trans (.cons .join hs))⟩
  | within own part next ihp ih =>
    rw [run] at h
    cases hp : part.run own with
    | error e' =>
      simp only [hp] at h
      cases h
      obtain ⟨own', hs⟩ := ihp hp
      exact ⟨s, hs.part.trans (.single .failPart)⟩
    | ok p =>
      obtain ⟨b, own'⟩ := p
      simp only [hp] at h
      obtain ⟨s', hs⟩ := ih b h
      exact ⟨s', (reaches_of_run_ok hp).part.trans (.cons .leave hs)⟩

/-- Reading part by part is a schedule. -/
theorem reaches_run {α : Type} (t : Reading α) (s : IdSource) :
    ∃ s', Reaches t s (.done ((·.1) <$> t.run s)) s' := by
  cases h : t.run s with
  | error e => exact reaches_of_run_error h
  | ok p => exact ⟨p.2, reaches_of_run_ok h⟩

/-- A reading that is not done can go on. -/
theorem exists_step {α : Type} (t : Reading α) (s : IdSource) :
    (∃ outcome, t = .done outcome) ∨ ∃ t' s', Step t s t' s' := by
  induction t generalizing s with
  | done outcome => exact .inl ⟨outcome, rfl⟩
  | draw label next _ => exact .inr ⟨_, _, .draw⟩
  | both left right next ihl ihr _ =>
    refine .inr ?_
    rcases ihl s with ⟨outcome | b, rfl⟩ | ⟨l', s', hstep⟩
    · exact ⟨_, _, .failLeft⟩
    · rcases ihr s with ⟨outcome | c, rfl⟩ | ⟨r', s', hstep⟩
      · exact ⟨_, _, .failRight⟩
      · exact ⟨_, _, .join⟩
      · exact ⟨_, _, .right hstep⟩
    · exact ⟨_, _, .left hstep⟩
  | within own part next ihp _ =>
    refine .inr ?_
    rcases ihp own with ⟨outcome | b, rfl⟩ | ⟨t', own', hstep⟩
    · exact ⟨_, _, .failPart⟩
    · exact ⟨_, _, .leave⟩
    · exact ⟨_, _, .part hstep⟩

/-- Goes on from `t`, whatever has been drawn elsewhere. -/
def Goes {α : Type} (t' t : Reading α) : Prop := ∃ s s', Step t s t' s'

theorem acc_done {α : Type} (outcome : Except ParseError α) : Acc Goes (done outcome) :=
  ⟨_, by rintro _ ⟨s, s', ⟨⟩⟩⟩

theorem acc_both {α β γ : Type} {left : Reading β} {right : Reading γ} {next : β → γ → Reading α}
    (hl : Acc Goes left) (hr : Acc Goes right) (hn : ∀ b c, Acc Goes (next b c)) :
    Acc Goes (both left right next) := by
  induction hl generalizing right with
  | intro left hleft ihl =>
    induction hr with
    | intro right hright ihr =>
      constructor
      rintro t ⟨s, s', hstep⟩
      cases hstep with
      | left h => exact ihl _ ⟨_, _, h⟩ ⟨right, hright⟩
      | right h => exact ihr _ ⟨_, _, h⟩
      | join => exact hn _ _
      | failLeft => exact acc_done _
      | failRight => exact acc_done _

theorem acc_within {α β : Type} {part : Reading β} {next : β → Reading α} (hp : Acc Goes part)
    (hn : ∀ b, Acc Goes (next b)) (own : IdSource) : Acc Goes (within own part next) := by
  induction hp generalizing own with
  | intro part _ ih =>
    constructor
    rintro t ⟨s, s', hstep⟩
    cases hstep with
    | part h => exact ih _ ⟨_, _, h⟩ _
    | leave => exact hn _
    | failPart => exact acc_done _

/-- Every schedule comes to an end. -/
theorem acc_goes {α : Type} (t : Reading α) : Acc Goes t := by
  induction t with
  | done outcome => exact acc_done outcome
  | draw label next ih =>
    constructor
    rintro t ⟨s, s', ⟨⟩⟩
    exact ih _
  | both left right next ihl ihr ih => exact acc_both ihl ihr ih
  | within own part next ihp ih => exact acc_within ihp ih own

/-! ### Outcomes -/

/-- What a reading can come to when it draws identifiers of one scope with any numbers. -/
inductive Ends : {α : Type} → String → Reading α → Except ParseError α → Prop where
  | done {α : Type} {scope : String} {outcome : Except ParseError α} :
      Ends scope (.done outcome) outcome
  | draw {α : Type} {scope label : String} {next : NodeId → Reading α}
      {outcome : Except ParseError α} (seq : UInt32) : Ends scope (next ⟨scope, label, seq⟩) outcome →
      Ends scope (.draw label next) outcome
  | both {α β γ : Type} {scope : String} {l : Reading β} {r : Reading γ} {next : β → γ → Reading α}
      {b : β} {c : γ} {outcome : Except ParseError α} : Ends scope l (.ok b) → Ends scope r (.ok c) →
      Ends scope (next b c) outcome → Ends scope (.both l r next) outcome
  | failLeft {α β γ : Type} {scope : String} {l : Reading β} {r : Reading γ}
      {next : β → γ → Reading α} {e : ParseError} : Ends scope l (.error e) →
      Ends scope (.both l r next) (.error e)
  | failRight {α β γ : Type} {scope : String} {l : Reading β} {r : Reading γ}
      {next : β → γ → Reading α} {e : ParseError} : Ends scope r (.error e) →
      Ends scope (.both l r next) (.error e)
  | within {α β : Type} {scope : String} {own : IdSource} {t : Reading β} {next : β → Reading α}
      {b : β} {outcome : Except ParseError α} : Ends own.scope t (.ok b) →
      Ends scope (next b) outcome → Ends scope (.within own t next) outcome
  | failPart {α β : Type} {scope : String} {own : IdSource} {t : Reading β} {next : β → Reading α}
      {e : ParseError} : Ends own.scope t (.error e) → Ends scope (.within own t next) (.error e)

theorem Step.scope_eq {α : Type} {t t' : Reading α} {s s' : IdSource} (h : Step t s t' s') :
    s'.scope = s.scope := by
  induction h with
  | draw => rfl
  | left _ ih => exact ih
  | right _ ih => exact ih
  | _ => rfl

/-- A step takes no outcome away that was not there before it. -/
theorem Step.ends {α : Type} {t t' : Reading α} {s s' : IdSource} {outcome : Except ParseError α}
    (h : Step t s t' s') (h' : Ends s.scope t' outcome) : Ends s.scope t outcome := by
  induction h with
  | draw => exact .draw _ h'
  | left _ ih =>
    cases h' with
    | both hl hr hn => exact .both (ih hl) hr hn
    | failLeft hl => exact .failLeft (ih hl)
    | failRight hr => exact .failRight hr
  | right _ ih =>
    cases h' with
    | both hl hr hn => exact .both hl (ih hr) hn
    | failLeft hl => exact .failLeft hl
    | failRight hr => exact .failRight (ih hr)
  | join => exact .both .done .done h'
  | failLeft =>
    cases h'
    exact .failLeft .done
  | failRight =>
    cases h'
    exact .failRight .done
  | part hstep ih =>
    have hscope := hstep.scope_eq
    cases h' with
    | within ht hn =>
      rw [hscope] at ht
      exact .within (ih ht) hn
    | failPart ht =>
      rw [hscope] at ht
      exact .failPart (ih ht)
  | leave => exact .within .done h'
  | failPart =>
    cases h'
    exact .failPart .done

theorem Reaches.ends {α : Type} {t : Reading α} {s s' : IdSource} {outcome : Except ParseError α}
    (h : Reaches t s (.done outcome) s') : Ends s.scope t outcome := by
  generalize hd : done outcome = t' at h
  induction h with
  | refl =>
    subst hd
    exact .done
  | cons hstep _ ih =>
    have hends := ih hd
    rw [hstep.scope_eq] at hends
    exact hstep.ends hends

/-- Two readings that do the same apart from the numbers of the identifiers drawn; `R` relates their
results. -/
inductive Alike : {α : Type} → (α → α → Prop) → Reading α → Reading α → Prop where
  | ok {α : Type} {R : α → α → Prop} {a a' : α} : R a a' → Alike R (.done (.ok a)) (.done (.ok a'))
  | error {α : Type} {R : α → α → Prop} {e e' : ParseError} :
      Alike R (.done (.error e)) (.done (.error e'))
  | draw {α : Type} {R : α → α → Prop} {label : String} {next next' : NodeId → Reading α} :
      (∀ scope n n', Alike R (next ⟨scope, label, n⟩) (next' ⟨scope, label, n'⟩)) →
      Alike R (.draw label next) (.draw label next')
  | both {α β γ : Type} {R : α → α → Prop} {Q : β → β → Prop} {T : γ → γ → Prop} {l l' : Reading β}
      {r r' : Reading γ} {next next' : β → γ → Reading α} : Alike Q l l' → Alike T r r' →
      (∀ b b' c c', Q b b' → T c c' → Alike R (next b c) (next' b' c')) →
      Alike R (.both l r next) (.both l' r' next')
  | within {α β : Type} {R : α → α → Prop} {Q : β → β → Prop} {own own' : IdSource}
      {t t' : Reading β} {next next' : β → Reading α} : own.scope = own'.scope → Alike Q t t' →
      (∀ b b', Q b b' → Alike R (next b) (next' b')) →
      Alike R (.within own t next) (.within own' t' next')

/-- Both outcomes are errors, or both are results that `R` relates. -/
inductive Agree {α : Type} (R : α → α → Prop) : Except ParseError α → Except ParseError α → Prop where
  | ok {a a' : α} : R a a' → Agree R (.ok a) (.ok a')
  | error {e e' : ParseError} : Agree R (.error e) (.error e')

theorem Alike.agree {α : Type} {R : α → α → Prop} {t t' : Reading α} (h : Alike R t t')
    {scope : String} {outcome outcome' : Except ParseError α} (ht : Ends scope t outcome)
    (ht' : Ends scope t' outcome') : Agree R outcome outcome' := by
  induction h generalizing scope with
  | ok hr =>
    cases ht
    cases ht'
    exact .ok hr
  | error =>
    cases ht
    cases ht'
    exact .error
  | draw _ ih =>
    cases ht with
    | draw n hn =>
      cases ht' with
      | draw n' hn' => exact ih scope n n' hn hn'
  | both _ _ _ ihl ihr ih =>
    cases ht with
    | both hl hr hn =>
      cases ht' with
      | both hl' hr' hn' =>
        cases ihl hl hl' with
        | ok hb =>
          cases ihr hr hr' with
          | ok hc => exact ih _ _ _ _ hb hc hn hn'
      | failLeft hl' => cases ihl hl hl'
      | failRight hr' => cases ihr hr hr'
    | failLeft hl =>
      cases ht' with
      | both hl' _ _ => cases ihl hl hl'
      | failLeft _ => exact .error
      | failRight _ => exact .error
    | failRight hr =>
      cases ht' with
      | both _ hr' _ => cases ihr hr hr'
      | failLeft _ => exact .error
      | failRight _ => exact .error
  | within hscope _ _ iht ih =>
    cases ht with
    | within ht hn =>
      cases ht' with
      | within ht' hn' =>
        rw [← hscope] at ht'
        cases iht ht ht' with
        | ok hb => exact ih _ _ hb hn hn'
      | failPart ht' =>
        rw [← hscope] at ht'
        cases iht ht ht'
    | failPart ht =>
      cases ht' with
      | within ht' hn' =>
        rw [← hscope] at ht'
        cases iht ht ht'
      | failPart _ => exact .error

theorem Alike.bind {α β : Type} {R : α → α → Prop} {Q : β → β → Prop} {t t' : Reading α}
    {f f' : α → Reading β} (h : Alike R t t') (hf : ∀ a a', R a a' → Alike Q (f a) (f' a')) :
    Alike Q (t >>= f) (t' >>= f') := by
  show Alike Q (t.bind f) (t'.bind f')
  induction h with
  | ok hr => exact hf _ _ hr
  | error => exact .error
  | draw _ ih => exact .draw fun scope n n' => ih scope n n' hf
  | both hl hr _ _ _ ih => exact .both hl hr fun b b' c c' hb hc => ih b b' c c' hb hc hf
  | within hscope ht _ _ ih => exact .within hscope ht fun b b' hb => ih b b' hb hf

end Parley.Grammar.Reading
