import Mathlib.Data.List.Basic
import Parley.Grammar.Run
import Parley.Proofs.Outcome

/-! What readers take off the front of a token list, by the texts of the tokens. Each reader is given
by the texts with which it succeeds, whatever comes behind them. -/

namespace Parley.Grammar

open Outcome

def texts (ts : List Token) : List String := ts.map (·.text)

@[simp] theorem texts_nil : texts [] = [] := rfl

@[simp] theorem texts_cons (t : Token) (ts : List Token) : texts (t :: ts) = t.text :: texts ts := rfl

@[simp] theorem texts_append (ts us : List Token) : texts (ts ++ us) = texts ts ++ texts us :=
  List.map_append

@[simp] theorem length_texts (ts : List Token) : (texts ts).length = ts.length := List.length_map ..

theorem texts_eq_nil {ts : List Token} : texts ts = [] ↔ ts = [] := List.map_eq_nil_iff

theorem texts_eq_cons {ts : List Token} {w : String} {ws : List String} :
    texts ts = w :: ws ↔ ∃ t us, ts = t :: us ∧ t.text = w ∧ texts us = ws := List.map_eq_cons_iff

theorem texts_eq_singleton {ts : List Token} {w : String} :
    texts ts = [w] ↔ ∃ t, ts = [t] ∧ t.text = w := List.map_eq_singleton_iff

theorem texts_eq_append {ts : List Token} {us ws : List String} :
    texts ts = us ++ ws ↔ ∃ front back, ts = front ++ back ∧ texts front = us ∧ texts back = ws :=
  List.map_eq_append_iff

/-- Tokens with these texts stand before `rest`. -/
def Takes (ws : List String) (ts rest : List Token) : Prop :=
  ∃ taken, ts = taken ++ rest ∧ texts taken = ws

section Takes

variable {us ws : List String} {w : String} {ts mid rest rest' : List Token}

@[simp] theorem takes_nil : Takes [] ts rest ↔ ts = rest := by
  constructor
  · rintro ⟨taken, rfl, h⟩
    obtain rfl := texts_eq_nil.mp h
    rfl
  · rintro rfl
    exact ⟨[], rfl, rfl⟩

theorem takes_append : Takes (us ++ ws) ts rest ↔ ∃ mid, Takes us ts mid ∧ Takes ws mid rest := by
  constructor
  · rintro ⟨taken, rfl, h⟩
    obtain ⟨first, last, rfl, hf, hl⟩ := texts_eq_append.mp h
    exact ⟨last ++ rest, ⟨first, List.append_assoc .., hf⟩, last, rfl, hl⟩
  · rintro ⟨mid, ⟨first, rfl, rfl⟩, last, rfl, rfl⟩
    exact ⟨first ++ last, (List.append_assoc ..).symm, texts_append ..⟩

theorem takes_singleton : Takes [w] ts rest ↔ ∃ t : Token, ts = t :: rest ∧ t.text = w := by
  constructor
  · rintro ⟨taken, rfl, h⟩
    obtain ⟨t, rfl, rfl⟩ := texts_eq_singleton.mp h
    exact ⟨t, rfl, rfl⟩
  · rintro ⟨t, rfl, rfl⟩
    exact ⟨[t], rfl, rfl⟩

theorem takes_cons : Takes (w :: ws) ts rest ↔ ∃ mid, Takes [w] ts mid ∧ Takes ws mid rest := by
  rw [← takes_append, List.singleton_append]

theorem takes_all : Takes ws ts [] ↔ texts ts = ws := by
  simp [Takes]

theorem Takes.trans (h : Takes us ts mid) (h' : Takes ws mid rest) : Takes (us ++ ws) ts rest :=
  takes_append.mpr ⟨mid, h, h'⟩

theorem Takes.texts_eq (h : Takes ws ts rest) : texts ts = ws ++ texts rest := by
  obtain ⟨taken, rfl, rfl⟩ := h
  exact texts_append ..

theorem Takes.length_eq (h : Takes ws ts rest) : ts.length = ws.length + rest.length := by
  simpa using congrArg List.length h.texts_eq

theorem Takes.unique (h : Takes ws ts rest) (h' : Takes ws ts rest') : rest = rest' := by
  obtain ⟨taken, rfl, ht⟩ := h
  obtain ⟨taken', he, ht'⟩ := h'
  have hlen : taken.length = taken'.length := by
    rw [← length_texts, ← length_texts, ht, ht']
  exact (List.append_inj he hlen).2

end Takes

section Basic

variable {w : String} {wanted : Wanted} {stop : Position} {ts rest : List Token} {t : Token}

theorem expect_eq_ok : expect wanted stop ts = .ok (t, rest) ↔
    ts = t :: rest ∧ wanted.admits t.text = true := by
  cases ts with
  | nil => simp [expect]
  | cons u us =>
    by_cases hu : wanted.admits u.text = true
    · simp only [expect, hu, if_true, Except.ok.injEq, Prod.mk.injEq, List.cons.injEq]
      constructor
      · rintro ⟨rfl, rfl⟩
        exact ⟨⟨rfl, rfl⟩, hu⟩
      · exact fun h => h.1
    · simp only [expect, hu, List.cons.injEq]
      constructor
      · intro h
        cases h
      · rintro ⟨⟨rfl, rfl⟩, h⟩
        exact absurd h hu

theorem expectText_eq_ok : expectText wanted stop ts = .ok (w, rest) ↔
    Takes [w] ts rest ∧ wanted.admits w = true := by
  simp only [expectText, map_eq_ok, Prod.exists, expect_eq_ok, takes_singleton]
  constructor
  · rintro ⟨t, us, ⟨rfl, ht⟩, he⟩
    cases he
    exact ⟨⟨t, rfl, rfl⟩, ht⟩
  · rintro ⟨⟨t, rfl, rfl⟩, ht⟩
    exact ⟨t, rest, ⟨rfl, ht⟩, rfl⟩

theorem expectWord_eq_ok : expectWord w stop ts = .ok rest ↔ Takes [w] ts rest := by
  simp only [expectWord, map_eq_ok, Prod.exists, expect_eq_ok, takes_singleton, Wanted.admits,
    beq_iff_eq]
  constructor
  · rintro ⟨t, us, h, rfl⟩
    exact ⟨t, h⟩
  · rintro ⟨t, h⟩
    exact ⟨t, rest, h, rfl⟩

theorem expectEnd_eq_ok {u : Unit} : expectEnd ts = .ok u ↔ ts = [] := by
  cases ts <;> simp [expectEnd]

theorem eat?_eq_some : eat? w ts = some rest ↔ Takes [w] ts rest := by
  cases ts with
  | nil => simp [eat?, takes_singleton]
  | cons u us =>
    simp only [eat?, Token.is, beq_iff_eq, takes_singleton, List.cons.injEq]
    constructor
    · intro h
      split at h <;> cases h
      exact ⟨u, ⟨rfl, rfl⟩, ‹_›⟩
    · rintro ⟨t, ⟨rfl, rfl⟩, ht⟩
      rw [if_pos ht]

theorem eat?_eq_none : eat? w ts = none ↔ (texts ts).head? ≠ some w := by
  cases ts with
  | nil => simp [eat?]
  | cons u us => simp [eat?, Token.is]

/-- Where a token list is cut at the first text without a property. -/
theorem takeWhile_dropWhile_eq {p : String → Bool} {before : List Token} :
    (ts.takeWhile (p ·.text) = before ∧ ts.dropWhile (p ·.text) = rest) ↔
      ts = before ++ rest ∧ (∀ v ∈ texts before, p v = true) ∧
        ∀ v ∈ (texts rest).head?, p v = false := by
  induction ts generalizing before with
  | nil =>
    simp only [List.takeWhile_nil, List.dropWhile_nil, List.nil_eq_append_iff]
    constructor
    · rintro ⟨rfl, rfl⟩
      simp
    · rintro ⟨⟨rfl, rfl⟩, -⟩
      simp
  | cons t ts ih =>
    by_cases ht : p t.text = true
    · simp only [List.takeWhile_cons, List.dropWhile_cons, ht, if_true]
      constructor
      · rintro ⟨rfl, hd⟩
        obtain ⟨he, hall, hhead⟩ := ih.mp ⟨rfl, hd⟩
        refine ⟨by rw [List.cons_append, ← he], ?_, hhead⟩
        simpa [ht] using hall
      · rintro ⟨he, hall, hhead⟩
        cases before with
        | nil =>
          rw [List.nil_append] at he
          subst he
          simp [ht] at hhead
        | cons u before =>
          cases he
          have hall' : ∀ v ∈ texts before, p v = true := fun v hv => hall v (List.mem_cons_of_mem _ hv)
          obtain ⟨hb, hd⟩ := ih.mpr ⟨rfl, hall', hhead⟩
          exact ⟨by rw [hb], hd⟩
    · simp only [List.takeWhile_cons, List.dropWhile_cons, ht]
      constructor
      · rintro ⟨rfl, rfl⟩
        simpa using ht
      · rintro ⟨he, hall, -⟩
        cases before with
        | nil => exact ⟨rfl, he⟩
        | cons u before =>
          cases he
          exact absurd (hall t.text List.mem_cons_self) ht

theorem textUntil_eq {text : String} : textUntil w ts = (text, rest) ↔
    ∃ ws, Takes ws ts rest ∧ w ∉ ws ∧ text = String.join ws ∧ ∀ v ∈ (texts rest).head?, v = w := by
  have hcut (before : List Token) : (ts.takeWhile (fun t => !t.is w) = before ∧
      ts.dropWhile (fun t => !t.is w) = rest) ↔ _ :=
    takeWhile_dropWhile_eq (p := fun v => !(v == w))
  have hnot (ws : List String) : (∀ v ∈ ws, (!(v == w)) = true) ↔ w ∉ ws := by
    simp only [Bool.not_eq_true', beq_eq_false_iff_ne]
    exact ⟨fun h hw => h w hw rfl, fun h v hv he => h (he ▸ hv)⟩
  simp only [hnot, Bool.not_eq_false', beq_iff_eq] at hcut
  simp only [textUntil, Prod.mk.injEq]
  constructor
  · rintro ⟨rfl, hd⟩
    obtain ⟨he, hw, hhead⟩ := (hcut _).mp ⟨rfl, hd⟩
    exact ⟨_, ⟨_, he, rfl⟩, hw, rfl, hhead⟩
  · rintro ⟨ws, ⟨taken, he, rfl⟩, hw, rfl, hhead⟩
    obtain ⟨ht, hd⟩ := (hcut taken).mpr ⟨he, hw, hhead⟩
    exact ⟨by rw [ht, texts], hd⟩

end Basic

/-! ### Chains -/

section Chains

variable {α : Type} {item : Reader α}

/-- How a chain of items comes about. -/
inductive Chain (item : Reader α) (more? : List Token → Except ParseError (Option (List Token))) :
    List Token → List α → List Token → Prop where
  | last {ts rest : List Token} {a : α} : item ts = .ok (a, rest) → more? rest = .ok none →
      Chain item more? ts [a] rest
  | more {ts mid next rest : List Token} {a : α} {as : List α} : item ts = .ok (a, mid) →
      more? mid = .ok (some next) → Chain item more? next as rest →
      Chain item more? ts (a :: as) rest

theorem chain_eq_ok {more? : List Token → Except ParseError (Option (List Token))}
    (progress : ∀ {ts a mid next}, item ts = .ok (a, mid) → more? mid = .ok (some next) →
      next.length < ts.length) {ts rest : List Token} {as : List α} :
    chain item more? ts = .ok (as, rest) ↔ Chain item more? ts as rest := by
  constructor
  · intro h
    fun_induction chain item more? ts generalizing as with
    | case1 => cases h
    | case2 => cases h
    | case3 ts a mid hi hm =>
      cases h
      exact .last hi hm
    | case4 => cases h
    | case5 ts a mid hi next hm hlt as' rest' hc ih =>
      cases h
      exact .more hi hm (ih hc)
    | case6 ts a mid hi next hm hlt => exact absurd (progress hi hm) hlt
  · intro h
    induction h with
    | last hi hm =>
      rw [chain]
      simp only [hi, hm]
    | more hi hm _ ih =>
      rw [chain]
      simp only [hi, hm, if_pos (progress hi hm), ih]

theorem Chain.more?_eq_none {more? : List Token → Except ParseError (Option (List Token))}
    {ts rest : List Token} {as : List α} (h : Chain item more? ts as rest) :
    more? rest = .ok none := by
  induction h with
  | last _ hm => exact hm
  | more _ _ _ ih => exact ih

/-- How a token list is cut into runs. -/
inductive Cuts (run : Reader α) : List Token → List α → Prop where
  | nil : Cuts run [] []
  | cons {ts rest : List Token} {a : α} {as : List α} : run ts = .ok (a, rest) →
      Cuts run rest as → Cuts run ts (a :: as)

theorem nextRun?_eq_some {ts next : List Token} (h : nextRun? ts = .ok (some next)) : next = ts := by
  obtain ⟨-, rfl⟩ : ts ≠ [] ∧ ts = next := by simpa [nextRun?] using h
  rfl

theorem Chain.cuts {ts rest : List Token} {as : List α} (h : Chain item nextRun? ts as rest) :
    Cuts item ts as := by
  induction h with
  | @last ts rest a hi hm =>
    obtain rfl : rest = [] := by simpa [nextRun?] using hm
    exact .cons hi .nil
  | more hi hm _ ih => exact .cons hi (nextRun?_eq_some hm ▸ ih)

theorem Cuts.chain (hnil : ∀ p, item [] ≠ .ok p) {ts : List Token} {as : List α}
    (h : Cuts item ts as) (hne : ts ≠ []) : Chain item nextRun? ts as [] := by
  induction h with
  | nil => exact absurd rfl hne
  | @cons ts rest a as hi hrest ih =>
    cases rest with
    | nil =>
      cases hrest with
      | nil => exact .last hi rfl
      | cons hi _ => exact absurd hi (hnil _)
    | cons u rest => exact .more hi rfl (ih (List.cons_ne_nil u rest))

theorem cut_eq_ok (hnil : ∀ p, item [] ≠ .ok p)
    (progress : ∀ {ts a rest}, item ts = .ok (a, rest) → rest.length < ts.length)
    {ts : List Token} {as : List α} : cut item ts = .ok as ↔ Cuts item ts as := by
  cases ts with
  | nil =>
    constructor
    · intro h
      cases h
      exact .nil
    · intro h
      cases h with
      | nil => rfl
      | cons hi _ => exact absurd hi (hnil _)
  | cons t ts =>
    have hchain (rest : List Token) :
        chain item nextRun? (t :: ts) = .ok (as, rest) ↔ Chain item nextRun? (t :: ts) as rest :=
      chain_eq_ok fun hi hm => nextRun?_eq_some hm ▸ progress hi
    rw [cut, map_eq_ok]
    constructor
    · rintro ⟨⟨as, rest⟩, h, rfl⟩
      exact ((hchain rest).mp h).cuts
    · intro h
      exact ⟨(as, []), (hchain []).mpr (h.chain hnil (List.cons_ne_nil t ts)), rfl⟩

/-- Items with commas between them, through the closing parenthesis. -/
inductive Listed (P : List String → α → Prop) : List String → List α → Prop where
  | last {ws : List String} {a : α} : P ws a → Listed P (ws ++ [")"]) [a]
  | more {us ws : List String} {a : α} {as : List α} : P us a → Listed P ws as →
      Listed P (us ++ "," :: ws) (a :: as)

/-- Items in an opened pair of parentheses, if any. -/
inductive Bracketed (P : List String → α → Prop) : List String → List α → Prop where
  | none : Bracketed P [")"] []
  | some {ws : List String} {as : List α} : Listed P ws as → Bracketed P ws as

/-- A reader of items is given by the texts of an item before a comma or a parenthesis. An item does
not begin with the parenthesis. -/
structure ReadsItems (item : Reader α) (P : List String → α → Prop) : Prop where
  eq_ok : ∀ {ts rest a}, (texts rest).head? = some "," ∨ (texts rest).head? = some ")" →
    (item ts = .ok (a, rest) ↔ ∃ ws, Takes ws ts rest ∧ P ws a)
  head_ne : ∀ {ws a}, P ws a → ∃ w us, ws = w :: us ∧ w ≠ ")"

section Commas

variable {comma : Wanted} {stop : Position}

theorem admits_comma (w : String) : (Wanted.word ",").admits w = true ↔ w = "," := beq_iff_eq

theorem admits_payloadEnd (w : String) : Wanted.payloadEnd.admits w = true ↔ w = "," := beq_iff_eq

theorem nextItem?_eq_none {ts : List Token} : nextItem? comma stop ts = .ok none ↔
    (texts ts).head? = some ")" := by
  rw [nextItem?]
  cases he : eat? ")" ts with
  | none => simpa [map_eq_ok] using eat?_eq_none.mp he
  | some rest =>
    obtain ⟨t, rfl, ht⟩ := takes_singleton.mp (eat?_eq_some.mp he)
    simp [ht]

theorem nextItem?_eq_some (hcomma : ∀ w, comma.admits w = true ↔ w = ",") {ts next : List Token} :
    nextItem? comma stop ts = .ok (some next) ↔ Takes [","] ts next := by
  rw [nextItem?]
  cases he : eat? ")" ts with
  | none =>
    simp only [map_eq_ok, Prod.exists, expect_eq_ok, hcomma, takes_singleton, Option.some.injEq]
    constructor
    · rintro ⟨t, rest, ⟨rfl, ht⟩, rfl⟩
      exact ⟨t, rfl, ht⟩
    · rintro ⟨t, rfl, ht⟩
      exact ⟨t, next, ⟨rfl, ht⟩, rfl⟩
  | some rest =>
    obtain ⟨t, rfl, ht⟩ := takes_singleton.mp (eat?_eq_some.mp he)
    simp [takes_singleton, ht]

theorem Takes.head?_eq {w : String} {ws : List String} {ts rest : List Token}
    (h : Takes (w :: ws) ts rest) : (texts ts).head? = some w := by
  rw [h.texts_eq]
  rfl

theorem ReadsItems.takes {P : List String → α → Prop} (hitem : ReadsItems item P)
    {w : String} (hw : w = "," ∨ w = ")") {ts mid rest : List Token} {a : α}
    (h : Takes [w] mid rest) : item ts = .ok (a, mid) ↔ ∃ ws, Takes ws ts mid ∧ P ws a := by
  apply hitem.eq_ok
  rw [h.head?_eq]
  rcases hw with rfl | rfl <;> simp

theorem ReadsItems.length_lt {P : List String → α → Prop} (hitem : ReadsItems item P)
    (hcomma : ∀ w, comma.admits w = true ↔ w = ",") {ts mid next : List Token} {a : α}
    (hi : item ts = .ok (a, mid)) (hm : nextItem? comma stop mid = .ok (some next)) :
    next.length < ts.length := by
  have hnext := (nextItem?_eq_some hcomma).mp hm
  obtain ⟨ws, hws, -⟩ := (hitem.takes (.inl rfl) hnext).mp hi
  have h₁ := hws.length_eq
  have h₂ := hnext.length_eq
  simp only [List.length_singleton] at h₂
  omega

theorem chain_nextItem?_eq_ok {P : List String → α → Prop} (hitem : ReadsItems item P)
    (hcomma : ∀ w, comma.admits w = true ↔ w = ",") {ts rest : List Token} {as : List α} :
    (∃ last, chain item (nextItem? comma stop) ts = .ok (as, last) ∧ last.tail = rest) ↔
      ∃ ws, Takes ws ts rest ∧ Listed P ws as := by
  simp only [chain_eq_ok (hitem.length_lt hcomma)]
  constructor
  · rintro ⟨last, hc, rfl⟩
    have hlast : Takes [")"] last last.tail := by
      have hhead := nextItem?_eq_none.mp hc.more?_eq_none
      cases last with
      | nil => simp at hhead
      | cons t last => exact takes_singleton.mpr ⟨t, rfl, by simpa using hhead⟩
    induction hc with
    | last hi hm =>
      obtain ⟨ws, hws, ha⟩ := (hitem.takes (.inr rfl) hlast).mp hi
      exact ⟨_, hws.trans hlast, .last ha⟩
    | more hi hm _ ih =>
      have hnext := (nextItem?_eq_some hcomma).mp hm
      obtain ⟨us, hus, ha⟩ := (hitem.takes (.inl rfl) hnext).mp hi
      obtain ⟨ws, hws, has⟩ := ih hlast
      exact ⟨_, hus.trans (hnext.trans hws), .more ha has⟩
  · rintro ⟨ws, hws, h⟩
    induction h generalizing ts with
    | last ha =>
      obtain ⟨last, hus, hlast⟩ := takes_append.mp hws
      have hi := (hitem.takes (.inr rfl) hlast).mpr ⟨_, hus, ha⟩
      refine ⟨last, .last hi (nextItem?_eq_none.mpr hlast.head?_eq), ?_⟩
      obtain ⟨t, rfl, -⟩ := takes_singleton.mp hlast
      rfl
    | more ha _ ih =>
      obtain ⟨mid, hus, hmid⟩ := takes_append.mp hws
      obtain ⟨next, hnext, hrest⟩ := takes_cons.mp hmid
      obtain ⟨last, hc, hlast⟩ := ih hrest
      have hi := (hitem.takes (.inl rfl) hnext).mpr ⟨_, hus, ha⟩
      exact ⟨last, .more hi ((nextItem?_eq_some hcomma).mpr hnext) hc, hlast⟩

theorem Listed.head_ne {P : List String → α → Prop} (hitem : ReadsItems item P) {ws : List String}
    {as : List α} (h : Listed P ws as) : ∃ w us, ws = w :: us ∧ w ≠ ")" := by
  cases h with
  | last ha =>
    obtain ⟨w, us, rfl, hw⟩ := hitem.head_ne ha
    exact ⟨w, _, rfl, hw⟩
  | more ha _ =>
    obtain ⟨w, us, rfl, hw⟩ := hitem.head_ne ha
    exact ⟨w, _, rfl, hw⟩

theorem commaItems_eq_ok {P : List String → α → Prop} (hitem : ReadsItems item P)
    (hcomma : ∀ w, comma.admits w = true ↔ w = ",") {ts rest : List Token} {as : List α} :
    commaItems item comma stop ts = .ok (as, rest) ↔
      ∃ ws, Takes ws ts rest ∧ Bracketed P ws as := by
  have hlisted : (∃ last, chain item (nextItem? comma stop) ts = .ok (as, last) ∧
      last.tail = rest) ↔ _ := chain_nextItem?_eq_ok hitem hcomma
  rw [commaItems]
  cases he : eat? ")" ts with
  | some rest' =>
    have hclose := eat?_eq_some.mp he
    simp only [Except.ok.injEq, Prod.mk.injEq]
    constructor
    · rintro ⟨rfl, rfl⟩
      exact ⟨_, hclose, .none⟩
    · rintro ⟨ws, hws, h⟩
      cases h with
      | none => exact ⟨rfl, hclose.unique hws⟩
      | some h =>
        obtain ⟨w, us, rfl, hw⟩ := h.head_ne hitem
        have hhead := hws.head?_eq.symm.trans hclose.head?_eq
        exact absurd (Option.some.inj hhead) hw
  | none =>
    have hopen := eat?_eq_none.mp he
    simp only [bind_eq_ok, pure_eq_ok, Prod.mk.injEq, Prod.exists]
    constructor
    · rintro ⟨as, last, hc, rfl, hr⟩
      obtain ⟨ws, hws, h⟩ := hlisted.mp ⟨last, hc, hr⟩
      exact ⟨ws, hws, .some h⟩
    · rintro ⟨ws, hws, h⟩
      cases h with
      | none => exact absurd hws.head?_eq hopen
      | some h =>
        obtain ⟨last, hc, hr⟩ := hlisted.mpr ⟨ws, hws, h⟩
        exact ⟨as, last, hc, rfl, hr⟩

end Commas

end Chains

end Parley.Grammar
