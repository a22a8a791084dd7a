import Parley.Grammar.Reading
import Parley.Proofs.Outcome

/-! What the success of a reading says of its parts, when they are read one after the other. -/

namespace Parley.Grammar.Reading

variable {α β : Type} {s s' : IdSource}

theorem bind_pure_ok (t : Reading α) : t.bind (fun a => .done (.ok a)) = t := by
  induction t with
  | done outcome => cases outcome <;> rfl
  | draw label next ih => exact congrArg (draw label) (funext ih)
  | both left right next _ _ ih =>
    exact congrArg (both left right) (funext fun b => funext fun c => ih b c)
  | within source part next _ ih => exact congrArg (within source part) (funext ih)

theorem bind_bind {γ : Type} (t : Reading α) (f : α → Reading β) (g : β → Reading γ) :
    (t.bind f).bind g = t.bind fun a => (f a).bind g := by
  induction t with
  | done outcome => cases outcome <;> rfl
  | draw label next ih => exact congrArg (draw label) (funext fun id => ih id f)
  | both left right next _ _ ih =>
    exact congrArg (both left right) (funext fun b => funext fun c => ih b c f)
  | within source part next _ ih => exact congrArg (within source part) (funext fun b => ih b f)

instance : LawfulMonad Reading :=
  LawfulMonad.mk' Reading bind_pure_ok (fun _ _ => rfl) bind_bind

theorem run_both_eq_ok {γ : Type} {left : Reading α} {right : Reading β} {next : α → β → Reading γ}
    {c : γ} : (both left right next).run s = .ok (c, s') ↔
      ∃ a b s₁ s₂, left.run s = .ok (a, s₁) ∧ right.run s₁ = .ok (b, s₂) ∧
        (next a b).run s₂ = .ok (c, s') := by
  rw [run]
  cases left.run s with
  | error e => simp
  | ok p =>
    obtain ⟨a, s₁⟩ := p
    cases hr : right.run s₁ with
    | error e => simp [hr]
    | ok q =>
      obtain ⟨b, s₂⟩ := q
      simp [hr]

theorem run_within_eq_ok {own : IdSource} {part : Reading α} {next : α → Reading β} {b : β} :
    (within own part next).run s = .ok (b, s') ↔
      ∃ a own', part.run own = .ok (a, own') ∧ (next a).run s = .ok (b, s') := by
  rw [run]
  cases part.run own with
  | error e => simp
  | ok p =>
    obtain ⟨a, own'⟩ := p
    simp

theorem run_bind_eq_ok {t : Reading α} {f : α → Reading β} {b : β} :
    (t >>= f).run s = .ok (b, s') ↔
      ∃ a s₁, t.run s = .ok (a, s₁) ∧ (f a).run s₁ = .ok (b, s') := by
  show (t.bind f).run s = _ ↔ _
  induction t generalizing s with
  | done outcome => cases outcome <;> simp [bind, run]
  | draw label next ih =>
    rw [bind, run, ih]
    rfl
  | both left right next _ _ ih =>
    simp only [bind, run_both_eq_ok, ih]
    constructor
    · rintro ⟨x, y, s₁, s₂, hl, hr, a, s₃, hn, hf⟩
      exact ⟨a, s₃, ⟨x, y, s₁, s₂, hl, hr, hn⟩, hf⟩
    · rintro ⟨a, s₃, ⟨x, y, s₁, s₂, hl, hr, hn⟩, hf⟩
      exact ⟨x, y, s₁, s₂, hl, hr, a, s₃, hn, hf⟩
  | within source part next _ ih =>
    simp only [bind, run_within_eq_ok, ih]
    constructor
    · rintro ⟨x, own, hp, a, s₁, hn, hf⟩
      exact ⟨a, s₁, ⟨x, own, hp, hn⟩, hf⟩
    · rintro ⟨a, s₁, ⟨x, own, hp, hn⟩, hf⟩
      exact ⟨x, own, hp, a, s₁, hn, hf⟩

theorem run_pure_eq_ok {a b : α} :
    (pure a : Reading α).run s = .ok (b, s') ↔ a = b ∧ s = s' := by
  show (done (.ok a)).run s = _ ↔ _
  simp [run]

theorem run_done_eq_ok {x : Except ParseError α} {a : α} :
    (done x).run s = .ok (a, s') ↔ x = .ok a ∧ s = s' := by
  cases x <;> simp [run]

theorem run_lift_eq_ok {x : Except ParseError α} {a : α} :
    (liftM x : Reading α).run s = .ok (a, s') ↔ x = .ok a ∧ s = s' :=
  run_done_eq_ok

theorem run_lift_bind_eq_ok {x : Except ParseError α} {f : α → Reading β} {b : β} :
    ((liftM x : Reading α) >>= f).run s = .ok (b, s') ↔
      ∃ a, x = .ok a ∧ (f a).run s = .ok (b, s') := by
  rw [run_bind_eq_ok]
  constructor
  · rintro ⟨a, _, h, hf⟩
    obtain ⟨rfl, rfl⟩ := run_lift_eq_ok.mp h
    exact ⟨a, rfl, hf⟩
  · rintro ⟨a, rfl, hf⟩
    exact ⟨a, s, rfl, hf⟩

theorem run_issue_eq_ok {label : String} {id : NodeId} :
    (issue label).run s = .ok (id, s') ↔ s.next label = (id, s') := by
  show (done (.ok (s.next label).1)).run (s.next label).2 = _ ↔ _
  simp [run, Prod.ext_iff]

theorem run_issue_bind_eq_ok {label : String} {f : NodeId → Reading β} {b : β} :
    (issue label >>= f).run s = .ok (b, s') ↔
      ∃ id s₁, s.next label = (id, s₁) ∧ (f id).run s₁ = .ok (b, s') := by
  simp only [run_bind_eq_ok, run_issue_eq_ok]

/-- Something is done for one element after the other, each with what the one before left. -/
inductive Threads (P : α → IdSource → β → IdSource → Prop) :
    List α → IdSource → List β → IdSource → Prop where
  | nil {s : IdSource} : Threads P [] s [] s
  | cons {a : α} {as : List α} {b : β} {bs : List β} {s s₁ s' : IdSource} :
      P a s b s₁ → Threads P as s₁ bs s' → Threads P (a :: as) s (b :: bs) s'

theorem threads_congr {P Q : α → IdSource → β → IdSource → Prop} {as : List α} {bs : List β}
    (h : ∀ a ∈ as, ∀ s b s', P a s b s' ↔ Q a s b s') :
    Threads P as s bs s' ↔ Threads Q as s bs s' := by
  have hforth {P Q : α → IdSource → β → IdSource → Prop}
      (hpq : ∀ a ∈ as, ∀ s b s', P a s b s' → Q a s b s') (ht : Threads P as s bs s') :
      Threads Q as s bs s' := by
    clear h
    induction ht with
    | nil => exact .nil
    | cons hb _ ih =>
      refine .cons (hpq _ List.mem_cons_self _ _ _ hb) (ih fun a ha => ?_)
      exact hpq a (List.mem_cons_of_mem _ ha)
  exact ⟨hforth fun a ha s b s' => (h a ha s b s').mp, hforth fun a ha s b s' => (h a ha s b s').mpr⟩

theorem run_mapM_eq_ok {f : α → Reading β} {as : List α} {bs : List β} :
    (as.mapM f).run s = .ok (bs, s') ↔
      Threads (fun a s b s' => (f a).run s = .ok (b, s')) as s bs s' := by
  induction as generalizing bs s s' with
  | nil =>
    rw [List.mapM_nil, run_pure_eq_ok]
    constructor
    · rintro ⟨rfl, rfl⟩
      exact .nil
    · rintro ⟨⟩
      exact ⟨rfl, rfl⟩
  | cons a as ih =>
    simp only [List.mapM_cons, run_bind_eq_ok, run_pure_eq_ok, ih]
    constructor
    · rintro ⟨b, s₁, hb, bs, s₂, hbs, rfl, rfl⟩
      exact .cons hb hbs
    · intro h
      cases h with
      | cons hb hbs => exact ⟨_, _, hb, _, _, hbs, rfl, rfl⟩

theorem run_all_eq_ok {f : α → Reading β} {as : List α} {bs : List β} :
    (all (as.map f)).run s = .ok (bs, s') ↔
      Threads (fun a s b s' => (f a).run s = .ok (b, s')) as s bs s' := by
  induction as generalizing bs s s' with
  | nil =>
    have hnil : ((([] : List α).mapM f).run s = .ok (bs, s')) ↔ _ := run_mapM_eq_ok
    exact hnil
  | cons a as ih =>
    simp only [List.map_cons, all, run_both_eq_ok, run_pure_eq_ok]
    constructor
    · rintro ⟨b, bs, s₁, s₂, hb, hbs, rfl, rfl⟩
      exact .cons hb (ih.mp hbs)
    · intro h
      cases h with
      | cons hb hbs => exact ⟨_, _, _, _, hb, ih.mpr hbs, rfl, rfl⟩

end Parley.Grammar.Reading
