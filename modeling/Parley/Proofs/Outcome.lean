import Mathlib.Data.List.Forall2

/-! What the outcome of a computation that may fail says of its parts. -/

namespace Parley.Outcome

universe u v

variable {ε : Type u} {α β : Type v}

theorem bind_eq_ok {x : Except ε α} {f : α → Except ε β} {b : β} :
    (x >>= f) = .ok b ↔ ∃ a, x = .ok a ∧ f a = .ok b := by
  cases x with
  | error e => simp [bind, Except.bind]
  | ok a => simp [bind, Except.bind]

theorem bind_eq_error {x : Except ε α} {f : α → Except ε β} {e : ε} :
    (x >>= f) = .error e ↔ x = .error e ∨ ∃ a, x = .ok a ∧ f a = .error e := by
  cases x with
  | error e' => simp [bind, Except.bind]
  | ok a => simp [bind, Except.bind]

theorem pure_eq_ok {a b : α} : (pure a : Except ε α) = .ok b ↔ a = b := by
  simp [pure, Except.pure]

theorem throw_ne_ok {e : ε} {b : α} : (throw e : Except ε α) ≠ .ok b := by
  simp [throw, throwThe, MonadExceptOf.throw]

theorem throw_bind_ne_ok {e : ε} {f : α → Except ε β} {b : β} :
    ((throw e : Except ε α) >>= f) ≠ .ok b := by
  intro h
  obtain ⟨_, he, _⟩ := bind_eq_ok.mp h
  exact throw_ne_ok he

theorem ite_throw_eq_ok {c : Prop} [Decidable c] {e : ε} {f : α → Except ε β} {x : Except ε β}
    {b : β} : (if c then (throw e : Except ε α) >>= f else x) = .ok b ↔ ¬ c ∧ x = .ok b := by
  by_cases hc : c
  · simp [hc, throw_bind_ne_ok]
  · simp [hc]

theorem map_eq_ok {x : Except ε α} {f : α → β} {b : β} :
    (f <$> x) = .ok b ↔ ∃ a, x = .ok a ∧ f a = b := by
  cases x with
  | error e => simp [Functor.map, Except.map]
  | ok a => simp [Functor.map, Except.map]

theorem mapError_eq_ok {ε' : Type u} {x : Except ε α} {f : ε → ε'} {a : α} :
    x.mapError f = .ok a ↔ x = .ok a := by
  cases x <;> simp [Except.mapError]

theorem mapError_eq_error {ε' : Type u} {x : Except ε α} {f : ε → ε'} {e' : ε'} :
    x.mapError f = .error e' ↔ ∃ e, x = .error e ∧ f e = e' := by
  cases x <;> simp [Except.mapError]

theorem exists_ok_of_toBool {x : Except ε α} (h : x.toBool = true) : ∃ a, x = .ok a := by
  cases x with
  | error e => cases h
  | ok a => exact ⟨a, rfl⟩

theorem exists_error_of_toBool {x : Except ε α} (h : x.toBool = false) : ∃ e, x = .error e := by
  cases x with
  | error e => exact ⟨e, rfl⟩
  | ok a => cases h

theorem exists_ok_of_any {x : Except ε α} {f : α → Bool} (h : x.toOption.any f = true) :
    ∃ a, x = .ok a ∧ f a = true := by
  cases x with
  | error e => cases h
  | ok a => exact ⟨a, rfl, h⟩

theorem mapM_eq_ok {f : α → Except ε β} {xs : List α} {ys : List β} :
    xs.mapM f = .ok ys ↔ List.Forall₂ (fun x y => f x = .ok y) xs ys := by
  induction xs generalizing ys with
  | nil => cases ys <;> simp [pure_eq_ok]
  | cons x xs ih =>
    simp only [List.mapM_cons, bind_eq_ok, pure_eq_ok, ih]
    constructor
    · rintro ⟨y, hy, zs, hzs, rfl⟩
      exact .cons hy hzs
    · intro h
      cases h with
      | cons hy hzs => exact ⟨_, hy, _, hzs, rfl⟩

theorem eq_filterMap_of_mapM_eq_ok {f : α → Except ε β} {xs : List α} {ys : List β}
    (h : xs.mapM f = .ok ys) : ys = xs.filterMap fun x => (f x).toOption := by
  have hf := mapM_eq_ok.mp h
  clear h
  induction hf with
  | nil => rfl
  | @cons x y xs ys hy _ ih =>
    rw [List.filterMap_cons, hy, ← ih]
    rfl

theorem exists_right_of_forall₂ {R : α → β → Prop} {xs : List α} {ys : List β}
    (h : List.Forall₂ R xs ys) {x : α} (hx : x ∈ xs) : ∃ y ∈ ys, R x y := by
  induction h with
  | nil => simp at hx
  | cons hy _ ih =>
    rcases List.mem_cons.mp hx with rfl | hx
    · exact ⟨_, List.mem_cons_self, hy⟩
    · obtain ⟨y, hm, hy⟩ := ih hx
      exact ⟨y, List.mem_cons_of_mem _ hm, hy⟩

theorem exists_left_of_forall₂ {R : α → β → Prop} {xs : List α} {ys : List β}
    (h : List.Forall₂ R xs ys) {y : β} (hy : y ∈ ys) : ∃ x ∈ xs, R x y :=
  exists_right_of_forall₂ h.flip hy

theorem exists_ok_of_mapM_eq_ok {f : α → Except ε β} {xs : List α} {ys : List β}
    (h : xs.mapM f = .ok ys) {x : α} (hx : x ∈ xs) : ∃ y ∈ ys, f x = .ok y :=
  exists_right_of_forall₂ (mapM_eq_ok.mp h) hx

theorem exists_of_mem_mapM {f : α → Except ε β} {xs : List α} {ys : List β}
    (h : xs.mapM f = .ok ys) {y : β} (hy : y ∈ ys) : ∃ x ∈ xs, f x = .ok y :=
  exists_left_of_forall₂ (mapM_eq_ok.mp h) hy

theorem forM_eq_ok {f : α → Except ε PUnit} {xs : List α} :
    xs.forM f = .ok ⟨⟩ ↔ ∀ x ∈ xs, f x = .ok ⟨⟩ := by
  induction xs with
  | nil => simp [List.forM, pure_eq_ok]
  | cons x xs ih =>
    rw [List.forM, bind_eq_ok]
    simp only [List.mem_cons, forall_eq_or_imp, ← ih]
    constructor
    · rintro ⟨_, hx, hxs⟩
      exact ⟨hx, hxs⟩
    · rintro ⟨hx, hxs⟩
      exact ⟨_, hx, hxs⟩

theorem exists_mapM_eq_ok {f : α → Except ε β} {xs : List α} (h : ∀ x ∈ xs, ∃ y, f x = .ok y) :
    ∃ ys, xs.mapM f = .ok ys := by
  induction xs with
  | nil => exact ⟨[], rfl⟩
  | cons x xs ih =>
    obtain ⟨y, hy⟩ := h x List.mem_cons_self
    obtain ⟨ys, hys⟩ := ih fun x hx => h x (List.mem_cons_of_mem _ hx)
    exact ⟨y :: ys, mapM_eq_ok.mpr (.cons hy (mapM_eq_ok.mp hys))⟩

theorem getElem?_of_forall₂ {R : α → β → Prop} {xs : List α} {ys : List β}
    (h : List.Forall₂ R xs ys) {k : Nat} {x : α} {y : β} (hx : xs[k]? = some x)
    (hy : ys[k]? = some y) : R x y := by
  induction h generalizing k with
  | nil => simp at hx
  | cons hr _ ih =>
    cases k with
    | zero =>
      cases hx
      cases hy
      exact hr
    | succ k => exact ih (by simpa using hx) (by simpa using hy)

theorem getElem?_of_mapM_eq_ok {f : α → Except ε β} {xs : List α} {ys : List β}
    (h : xs.mapM f = .ok ys) {k : Nat} {x : α} {y : β} (hx : xs[k]? = some x)
    (hy : ys[k]? = some y) : f x = .ok y :=
  getElem?_of_forall₂ (mapM_eq_ok.mp h) hx hy

theorem exists_getElem?_of_length_eq {as : List α} {bs : List β} (h : as.length = bs.length)
    {k : Nat} {a : α} (ha : as[k]? = some a) : ∃ b, bs[k]? = some b := by
  obtain ⟨hk, _⟩ := List.getElem?_eq_some_iff.mp ha
  rw [h] at hk
  exact ⟨_, List.getElem?_eq_getElem hk⟩

theorem length_of_mapM_eq_ok {f : α → Except ε β} {xs : List α} {ys : List β}
    (h : xs.mapM f = .ok ys) : ys.length = xs.length :=
  (mapM_eq_ok.mp h).length_eq.symm

/-- A computation that succeeds just if a condition holds, and otherwise fails in a known way. -/
def Settles (x : Except ε α) (holds : Prop) (known : ε → Prop) : Prop :=
  (holds ∧ ∃ a, x = .ok a) ∨ (¬ holds ∧ ∃ e, x = .error e ∧ known e)

namespace Settles

variable {P Q : Prop} {known : ε → Prop} {x : Except ε α}

theorem of_ok {a : α} (h : x = .ok a) : Settles x True known := .inl ⟨trivial, a, h⟩

theorem exists_ok_iff (h : Settles x P known) : (∃ a, x = .ok a) ↔ P := by
  rcases h with ⟨hp, hx⟩ | ⟨hp, e, rfl, _⟩
  · exact ⟨fun _ => hp, fun _ => hx⟩
  · simp [hp]

theorem known_of_eq_error (h : Settles x P known) {e : ε} (he : x = .error e) : known e := by
  rcases h with ⟨_, a, rfl⟩ | ⟨_, e', hx, hk⟩
  · cases he
  · obtain rfl := Except.error.inj (hx.symm.trans he)
    exact hk

theorem congr (h : Settles x P known) (hpq : P ↔ Q) : Settles x Q known := by
  unfold Settles
  rw [← hpq]
  exact h

theorem bind {f : α → Except ε β} (hx : Settles x P known)
    (hf : ∀ a, x = .ok a → Settles (f a) Q known) : Settles (x >>= f) (P ∧ Q) known := by
  rcases hx with ⟨hp, a, ha⟩ | ⟨hp, e, he, hk⟩
  · have hbind : (x >>= f) = f a := by
      rw [ha]
      rfl
    rw [hbind]
    exact (hf a ha).congr ⟨fun hq => ⟨hp, hq⟩, And.right⟩
  · refine .inr ⟨fun h => hp h.1, e, ?_, hk⟩
    rw [he]
    rfl

theorem bind_ok {f : α → Except ε β} {a : α} (hx : x = .ok a) (hf : Settles (f a) Q known) :
    Settles (x >>= f) Q known := by
  rw [hx]
  exact hf

theorem bind_done {f : α → Except ε β} (hx : Settles x P known)
    (hf : ∀ a, x = .ok a → ∃ b, f a = .ok b) : Settles (x >>= f) P known := by
  refine (hx.bind (Q := True) fun a ha => ?_).congr (by simp)
  obtain ⟨b, hb⟩ := hf a ha
  exact of_ok hb

theorem mapM {f : α → Except ε β} {R : α → Prop} {xs : List α}
    (h : ∀ a ∈ xs, Settles (f a) (R a) known) : Settles (xs.mapM f) (∀ a ∈ xs, R a) known := by
  induction xs with
  | nil => exact (of_ok rfl).congr (by simp)
  | cons a xs ih =>
    obtain ⟨ha, hxs⟩ := List.forall_mem_cons.mp h
    rw [List.mapM_cons, List.forall_mem_cons]
    refine ha.bind fun b _ => (ih hxs).bind_done fun bs _ => ?_
    exact ⟨b :: bs, rfl⟩

end Settles

end Parley.Outcome
