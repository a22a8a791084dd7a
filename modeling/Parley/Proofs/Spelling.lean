import Mathlib.Data.List.Basic
import Mathlib.Tactic.MkIffOfInductiveProp
import Parley.Api.Code
import Parley.Grammar.Error
import Parley.Proofs.Naming
import Parley.Proofs.Scanning

/-! Names that the target language takes, and what the two changes of case do to an identifier. One
sets its words together, so that little is left if there is no letter in it. The other keeps it an
identifier, but may turn it into a word that is reserved. -/

namespace Parley

namespace Text

/-! ### Letters of identifiers -/

/-- Letters, digits and underscores, as there are in identifiers. -/
def Parts (cs : List Char) : Prop := ∀ c ∈ cs, c.isAlphanum = true ∨ c = '_'

instance (cs : List Char) : Decidable (Parts cs) :=
  List.decidableBAll (fun c : Char => c.isAlphanum = true ∨ c = '_') cs

theorem parts_cons {c : Char} {cs : List Char} :
    Parts (c :: cs) ↔ (c.isAlphanum = true ∨ c = '_') ∧ Parts cs :=
  List.forall_mem_cons

theorem parts_append {cs ds : List Char} : Parts (cs ++ ds) ↔ Parts cs ∧ Parts ds :=
  List.forall_mem_append

theorem Parts.newline_not_mem {cs : List Char} (h : Parts cs) : '\n' ∉ cs := by
  intro hmem
  exact absurd (h _ hmem) (by decide)

theorem toNat_lt_of_isAlphanum {c : Char} (h : c.isAlphanum = true) : c.toNat < 128 := by
  have hcode := Token.toNat_of_isAlphanum (c := c) (by simp [h])
  omega

/-- What holds of the first characters of all holds of letters and digits. -/
theorem of_isAlphanum {P : Char → Prop} (hall : ∀ n < 128, P (Char.ofNat n)) {c : Char}
    (h : c.isAlphanum = true) : P c := by
  have hc := hall c.toNat (toNat_lt_of_isAlphanum h)
  rwa [Char.ofNat_toNat] at hc

/-- Of the tables of a change of case, the first characters of all meet the first entry only. -/
theorem caseForm_of_lt {expansions : List (Nat × List Nat)} {s : Shift} {shifts : List Shift}
    (hexpansions : ∀ e ∈ expansions, 128 ≤ e.1) (hshifts : ∀ t ∈ shifts, 128 ≤ t.first) {c : Char}
    (hc : c.toNat < 128) : caseForm expansions (s :: shifts) c = caseForm [] [s] c := by
  have hlookup : expansions.lookup c.toNat = none := by
    rw [List.lookup_eq_none_iff]
    intro e he
    have hkey := hexpansions e he
    have hne : c.toNat ≠ e.1 := by omega
    simpa using hne
  have hrest : shifts.findSome? (·.moved? c.toNat) = none := by
    rw [List.findSome?_eq_none_iff]
    intro t ht
    have hfirst := hshifts t ht
    have hout : Stride.contains ⟨t.first, t.last, t.step⟩ c.toNat = false := by
      simp only [Stride.contains, Bool.and_eq_false_iff, decide_eq_false_iff_not]
      omega
    rw [Shift.moved?, hout]
    rfl
  unfold caseForm
  rw [hlookup, List.findSome?_cons, hrest]
  cases hs : s.moved? c.toNat <;> simp [hs]

theorem upperForm_of_isAlphanum {c : Char} (h : c.isAlphanum = true) : upperForm c = [c.toUpper] := by
  have hshifts : ∀ t ∈ upperShifts.tail, 128 ≤ t.first := by decide +kernel
  have htable : upperForm c = caseForm [] [⟨0x61, 0x7A, 1, -32⟩] c :=
    caseForm_of_lt (by decide +kernel) hshifts (toNat_lt_of_isAlphanum h)
  rw [htable]
  exact of_isAlphanum (P := fun c => caseForm [] [⟨0x61, 0x7A, 1, -32⟩] c = [c.toUpper])
    (by decide +kernel) h

theorem lowerForm_of_isAlphanum {c : Char} (h : c.isAlphanum = true) : lowerForm c = [c.toLower] := by
  have hshifts : ∀ t ∈ lowerShifts.tail, 128 ≤ t.first := by decide +kernel
  have htable : lowerForm c = caseForm [] [⟨0x41, 0x5A, 1, 32⟩] c :=
    caseForm_of_lt (by decide +kernel) hshifts (toNat_lt_of_isAlphanum h)
  rw [htable]
  exact of_isAlphanum (P := fun c => caseForm [] [⟨0x41, 0x5A, 1, 32⟩] c = [c.toLower])
    (by decide +kernel) h

theorem toUpper_of_isAlphanum {c : Char} (h : c.isAlphanum = true) :
    c.toUpper.isAlphanum = true ∧ c.toUpper.isAlpha = c.isAlpha ∧ c.toUpper.isLower = false := by
  have hupper : c.toUpper.isAlphanum = c.isAlphanum ∧ c.toUpper.isAlpha = c.isAlpha ∧
      c.toUpper.isLower = false :=
    of_isAlphanum (P := fun c => c.toUpper.isAlphanum = c.isAlphanum ∧
      c.toUpper.isAlpha = c.isAlpha ∧ c.toUpper.isLower = false) (by decide +kernel) h
  rwa [h] at hupper

theorem toLower_of_isAlphanum {c : Char} (h : c.isAlphanum = true) :
    c.toLower.isAlphanum = true ∧ c.toLower.isAlpha = c.isAlpha ∧ c.toLower.isUpper = false := by
  have hlower : c.toLower.isAlphanum = c.isAlphanum ∧ c.toLower.isAlpha = c.isAlpha ∧
      c.toLower.isUpper = false :=
    of_isAlphanum (P := fun c => c.toLower.isAlphanum = c.isAlphanum ∧
      c.toLower.isAlpha = c.isAlpha ∧ c.toLower.isUpper = false) (by decide +kernel) h
  rwa [h] at hlower

theorem isUpper_of_isAlphanum {c : Char} (h : c.isAlphanum = true) (hc : c.isUpper = true) :
    isUpper c = true :=
  of_isAlphanum (P := fun c => c.isUpper = true → isUpper c = true) (by decide +kernel) h hc

theorem toUpper_eq_S {c : Char} (h : c.isAlphanum = true) (hs : c.toUpper = 'S') :
    c = 's' ∨ c = 'S' :=
  of_isAlphanum (P := fun c => c.toUpper = 'S' → c = 's' ∨ c = 'S') (by decide +kernel) h hs

/-! ### Words -/

/-- The words of a name, which underscores set apart. -/
def words (name : String) : List (List Char) := (name.toList.splitOn '_').filter (· ≠ [])

/-- A word with its first letter raised. -/
def raised : List Char → List Char
  | [] => []
  | c :: cs => upperForm c ++ cs

theorem splitOn_cons (a c : Char) (cs : List Char) : (c :: cs).splitOn a =
    if c = a then [] :: cs.splitOn a else (cs.splitOn a).modifyHead (c :: ·) := by
  simp only [List.splitOn_eq_splitOnP, List.splitOnP_cons_eq_if_modifyHead, beq_iff_eq]

theorem exists_splitOn (a : Char) (cs : List Char) : ∃ w ws, cs.splitOn a = w :: ws := by
  apply List.exists_cons_of_ne_nil
  rw [List.splitOn_eq_splitOnP]
  exact List.splitOnP_ne_nil _ _

theorem pascalChars_eq_splitOn (cs : List Char) :
    pascalChars true cs = (cs.splitOn '_').flatMap raised ∧
      ∀ w ws, cs.splitOn '_' = w :: ws → pascalChars false cs = w ++ ws.flatMap raised := by
  induction cs with
  | nil =>
    refine ⟨rfl, ?_⟩
    intro w ws h
    cases h
    rfl
  | cons c cs ih =>
    obtain ⟨htrue, hfalse⟩ := ih
    obtain ⟨v, vs, hv⟩ := exists_splitOn '_' cs
    rw [splitOn_cons, pascalChars, pascalChars]
    by_cases hc : c = '_'
    · simp only [if_pos hc]
      refine ⟨htrue, ?_⟩
      intro w ws h
      cases h
      exact htrue
    · simp only [if_neg hc, hv, List.modifyHead_cons, hfalse v vs hv]
      refine ⟨by simp [raised], ?_⟩
      intro w ws h
      cases h
      rfl

theorem toList_pascalCase (name : String) :
    (pascalCase name).toList = (words name).flatMap raised := by
  have hfilter (ws : List (List Char)) : (ws.filter (· ≠ [])).flatMap raised = ws.flatMap raised := by
    induction ws with
    | nil => rfl
    | cons w ws ih =>
      cases w with
      | nil => exact ih
      | cons c cs => simpa using ih
  rw [pascalCase, String.toList_ofList, (pascalChars_eq_splitOn _).1, words, hfilter]

theorem mem_of_mem_splitOn {a c : Char} {cs w : List Char} (hw : w ∈ cs.splitOn a) (hc : c ∈ w) :
    c ∈ cs ∧ c ≠ a := by
  induction cs generalizing w with
  | nil =>
    cases List.mem_singleton.mp hw
    cases hc
  | cons d cs ih =>
    obtain ⟨v, vs, hv⟩ := exists_splitOn a cs
    rw [splitOn_cons] at hw
    split at hw
    · rcases List.mem_cons.mp hw with rfl | hw
      · cases hc
      · exact ⟨List.mem_cons_of_mem d (ih hw hc).1, (ih hw hc).2⟩
    · rename_i hd
      rw [hv] at hw ih
      rcases List.mem_cons.mp hw with rfl | hw
      · rcases List.mem_cons.mp hc with rfl | hc
        · exact ⟨List.mem_cons_self, hd⟩
        · have hmem := ih List.mem_cons_self hc
          exact ⟨List.mem_cons_of_mem d hmem.1, hmem.2⟩
      · have hmem := ih (List.mem_cons_of_mem v hw) hc
        exact ⟨List.mem_cons_of_mem d hmem.1, hmem.2⟩

end Text

open Text

namespace Api

/-! ### Names -/

/-- The words that the target language uses or keeps for later use. -/
def keywords : List String :=
  ["abstract", "as", "async", "await", "become", "box", "break", "const", "continue", "crate", "do",
    "dyn", "else", "enum", "extern", "false", "final", "fn", "for", "if", "impl", "in", "let", "loop",
    "macro", "match", "mod", "move", "mut", "override", "priv", "pub", "ref", "return", "self", "Self",
    "static", "struct", "super", "trait", "true", "try", "type", "typeof", "unsafe", "unsized", "use",
    "virtual", "where", "while", "yield"]

/-- Those that are kept for later use. -/
def futureWords : List String :=
  ["abstract", "become", "box", "do", "final", "macro", "override", "priv", "try", "typeof", "unsized",
    "virtual", "yield"]

/-- A name that the target language takes. -/
structure IsName (name : String) : Prop where
  identifier : Grammar.isIdentifier name = true
  ne_underscore : name ≠ "_"
  not_keyword : name ∉ keywords

theorem mem_keywords {name : String} :
    name ∈ keywords ↔ name ∈ reservedWords ∨ name ∈ futureWords := by
  have hsplit : ∀ word ∈ keywords, word ∈ reservedWords ∨ word ∈ futureWords := by decide +kernel
  have hreserved : ∀ word ∈ reservedWords, word ∈ keywords := by decide +kernel
  have hfuture : ∀ word ∈ futureWords, word ∈ keywords := by decide +kernel
  constructor
  · exact hsplit name
  · intro h
    rcases h with h | h
    · exact hreserved name h
    · exact hfuture name h

theorem isIdentifier_iff {name : String} : Grammar.isIdentifier name = true ↔
    ∃ c cs, name.toList = c :: cs ∧ (c.isAlpha = true ∨ c = '_') ∧ Parts cs := by
  unfold Grammar.isIdentifier Parts
  cases name.toList with
  | nil => simp
  | cons c cs => simp

theorem parts_of_isIdentifier {name : String} (h : Grammar.isIdentifier name = true) :
    Parts name.toList := by
  obtain ⟨c, cs, hname, hc, hcs⟩ := isIdentifier_iff.mp h
  rw [hname, parts_cons]
  refine ⟨?_, hcs⟩
  rcases hc with hc | hc
  · exact .inl (by simp [Char.isAlphanum, hc])
  · exact .inr hc

/-! ### Words set together -/

/-- A name whose first word begins with a letter, and which is not one word that is reserved once its
first letter is raised. -/
@[mk_iff] structure WellSpelled (name : String) : Prop where
  letter : ((words name).head?.bind List.head?).any Char.isAlpha = true
  ne_self : words name ≠ ["self".toList] ∧ words name ≠ ["Self".toList]

instance (name : String) : Decidable (WellSpelled name) :=
  decidable_of_iff _ (wellSpelled_iff name).symm

section Pascal

variable {name : String} (h : Parts name.toList)

include h

theorem isAlphanum_of_mem_words {w : List Char} (hw : w ∈ words name) :
    w ≠ [] ∧ ∀ c ∈ w, c.isAlphanum = true := by
  obtain ⟨hw, hne⟩ := List.mem_filter.mp hw
  refine ⟨by simpa using hne, ?_⟩
  intro c hc
  obtain ⟨hmem, hunderscore⟩ := mem_of_mem_splitOn hw hc
  exact (h c hmem).resolve_right hunderscore

/-- The first word with its first letter, which is raised. -/
theorem exists_word {w : List Char} {ws : List (List Char)} (hw : words name = w :: ws) :
    ∃ c cs, w = c :: cs ∧ c.isAlphanum = true ∧
      (pascalCase name).toList = c.toUpper :: (cs ++ ws.flatMap raised) := by
  obtain ⟨hne, hall⟩ := isAlphanum_of_mem_words h (hw ▸ List.mem_cons_self)
  obtain ⟨c, cs, rfl⟩ := List.exists_cons_of_ne_nil hne
  have hc := hall c List.mem_cons_self
  refine ⟨c, cs, rfl, hc, ?_⟩
  rw [toList_pascalCase, hw]
  simp [raised, upperForm_of_isAlphanum hc]

theorem isAlphanum_of_mem_pascalCase : ∀ c ∈ (pascalCase name).toList, c.isAlphanum = true := by
  intro c hc
  rw [toList_pascalCase] at hc
  obtain ⟨w, hw, hc⟩ := List.mem_flatMap.mp hc
  obtain ⟨hne, hall⟩ := isAlphanum_of_mem_words h hw
  obtain ⟨d, ds, rfl⟩ := List.exists_cons_of_ne_nil hne
  obtain ⟨hd, hds⟩ := List.forall_mem_cons.mp hall
  rw [raised, upperForm_of_isAlphanum hd] at hc
  rcases List.mem_cons.mp hc with rfl | hc
  · exact (toUpper_of_isAlphanum hd).1
  · exact hds c hc

theorem isIdentifier_pascalCase_iff : Grammar.isIdentifier (pascalCase name) = true ↔
    ((words name).head?.bind List.head?).any Char.isAlpha = true := by
  cases hw : words name with
  | nil =>
    have hempty : (pascalCase name).toList = [] := by rw [toList_pascalCase, hw]; rfl
    simp [isIdentifier_iff, hempty]
  | cons w ws =>
    obtain ⟨c, cs, rfl, hc, htext⟩ := exists_word h hw
    obtain ⟨hpart, halpha, _⟩ := toUpper_of_isAlphanum hc
    have hall := isAlphanum_of_mem_pascalCase h
    rw [htext, List.forall_mem_cons] at hall
    have hunderscore : c.toUpper ≠ '_' := by
      intro he
      rw [he] at hpart
      cases hpart
    rw [isIdentifier_iff, htext]
    constructor
    · rintro ⟨_, _, ⟨⟩, hfirst, _⟩
      exact halpha.symm.trans (hfirst.resolve_right hunderscore)
    · intro hfirst
      exact ⟨_, _, rfl, .inl (halpha.trans hfirst), fun d hd => .inl (hall.2 d hd)⟩

/-- Only a name of one word has no letter raised behind the first. -/
theorem eq_nil_of_isLower {w : List Char} {ws : List (List Char)} (hw : words name = w :: ws)
    {cs ds : List Char} (htext : cs ++ ws.flatMap raised = ds) (hds : ∀ d ∈ ds, d.isLower = true) :
    ws = [] := by
  cases ws with
  | nil => rfl
  | cons v ws =>
    obtain ⟨hne, hall⟩ := isAlphanum_of_mem_words h (w := v) (by simp [hw])
    obtain ⟨d, v, rfl⟩ := List.exists_cons_of_ne_nil hne
    have hd := hall d List.mem_cons_self
    have hmem : d.toUpper ∈ ds := by
      rw [← htext]
      simp [raised, upperForm_of_isAlphanum hd]
    have hlower := hds _ hmem
    rw [(toUpper_of_isAlphanum hd).2.2] at hlower
    cases hlower

theorem pascalCase_eq_self_iff :
    pascalCase name = "Self" ↔ words name = ["self".toList] ∨ words name = ["Self".toList] := by
  constructor
  · intro hself
    have htext : (pascalCase name).toList = ['S', 'e', 'l', 'f'] := by
      rw [hself]
      decide
    cases hw : words name with
    | nil =>
      rw [toList_pascalCase, hw] at htext
      cases htext
    | cons w ws =>
      obtain ⟨c, cs, rfl, hc, hchars⟩ := exists_word h hw
      obtain ⟨hfirst, hrest⟩ := List.cons.inj (hchars.symm.trans htext)
      obtain rfl := eq_nil_of_isLower h hw hrest (List.all_eq_true.mp (by decide))
      rw [List.flatMap_nil, List.append_nil] at hrest
      rw [hrest]
      rcases toUpper_eq_S hc hfirst with rfl | rfl
      · exact .inl (by decide)
      · exact .inr (by decide)
  · intro hw
    apply String.toList_injective
    rw [toList_pascalCase]
    rcases hw with hw | hw
    · rw [hw]
      decide +kernel
    · rw [hw]
      decide +kernel

theorem isName_pascalCase_iff : IsName (pascalCase name) ↔ WellSpelled name := by
  have hidentifier := isIdentifier_pascalCase_iff h
  have hself := pascalCase_eq_self_iff h
  constructor
  · intro hname
    refine ⟨hidentifier.mp hname.identifier, ?_⟩
    have hne : pascalCase name ≠ "Self" := by
      intro he
      exact hname.not_keyword (he ▸ by decide)
    rw [Ne, hself, not_or] at hne
    exact hne
  · intro hspelled
    refine ⟨hidentifier.mpr hspelled.letter, ?_, ?_⟩
    · intro he
      have hpart := isAlphanum_of_mem_pascalCase h '_' (by rw [he]; decide)
      cases hpart
    · -- of the words that are reserved, one only begins with a letter that is raised
      intro hmem
      have hall : ∀ word ∈ keywords, word ≠ "Self" → word.toList.head?.any Char.isLower = true := by
        decide +kernel
      have hne : pascalCase name ≠ "Self" := by
        rw [Ne, hself, not_or]
        exact hspelled.ne_self
      have hlower := hall _ hmem hne
      cases hw : words name with
      | nil =>
        rw [toList_pascalCase, hw] at hlower
        cases hlower
      | cons w ws =>
        obtain ⟨c, cs, rfl, hc, htext⟩ := exists_word h hw
        rw [htext, List.head?_cons, Option.any_some, (toUpper_of_isAlphanum hc).2.2] at hlower
        cases hlower

end Pascal

/-! ### Words set apart -/

/-- Each character of an identifier stays what it is, with an underscore before it where a word
starts. -/
theorem exists_snakeChars_cons {c : Char} (hc : c.isAlphanum = true ∨ c = '_')
    (before? : Option Char) (cs : List Char) : ∃ d,
      (c.isAlphanum = true ∧ d.isAlphanum = true ∧ d.isAlpha = c.isAlpha ∨ c = '_' ∧ d = '_') ∧
      d.isUpper = false ∧ (snakeChars before? (c :: cs) = d :: snakeChars (some c) cs ∨
        before? ≠ none ∧ snakeChars before? (c :: cs) = '_' :: d :: snakeChars (some c) cs) := by
  rw [snakeChars]
  rcases hc with hc | rfl
  · rw [lowerForm_of_isAlphanum hc]
    by_cases hupper : isUpper c = true
    · obtain ⟨hpart, halpha, hlower⟩ := toLower_of_isAlphanum hc
      refine ⟨c.toLower, .inl ⟨hc, hpart, halpha⟩, hlower, ?_⟩
      rw [if_pos hupper]
      by_cases hword : startsWord before? cs = true
      · rw [if_pos hword]
        refine .inr ⟨?_, rfl⟩
        rintro rfl
        cases hword
      · rw [if_neg hword]
        exact .inl rfl
    · have hlower : c.isUpper = false := by
        rw [Bool.eq_false_iff]
        exact mt (isUpper_of_isAlphanum hc) hupper
      rw [if_neg hupper]
      exact ⟨c, .inl ⟨hc, hc, rfl⟩, hlower, .inl rfl⟩
  · rw [caseless_underscore.1]
    exact ⟨'_', .inr ⟨rfl, rfl⟩, rfl, .inl rfl⟩

theorem parts_snakeChars {cs : List Char} (h : Parts cs) (before? : Option Char) :
    Parts (snakeChars before? cs) := by
  induction cs generalizing before? with
  | nil => exact h
  | cons c cs ih =>
    obtain ⟨hc, hcs⟩ := parts_cons.mp h
    obtain ⟨d, hd, _, htext⟩ := exists_snakeChars_cons hc before? cs
    have hrest : Parts (d :: snakeChars (some c) cs) :=
      parts_cons.mpr ⟨hd.imp (·.2.1) (·.2), ih hcs (some c)⟩
    rcases htext with htext | ⟨_, htext⟩
    · rw [htext]
      exact hrest
    · rw [htext]
      exact parts_cons.mpr ⟨.inr rfl, hrest⟩

section Snake

variable {name : String} (h : Grammar.isIdentifier name = true)

include h

/-- No underscore comes before the first letter. -/
theorem exists_snakeCase : ∃ c cs d, name.toList = c :: cs ∧
    (snakeCase name).toList = d :: snakeChars (some c) cs ∧ d.isUpper = false ∧
    (c.isAlpha = true ∧ d.isAlpha = true ∨ c = '_' ∧ d = '_') := by
  obtain ⟨c, cs, hname, hc, _⟩ := isIdentifier_iff.mp h
  have hpart := parts_of_isIdentifier h c (hname ▸ List.mem_cons_self)
  obtain ⟨d, hd, hlower, htext⟩ := exists_snakeChars_cons hpart none cs
  refine ⟨c, cs, d, hname, ?_, hlower, ?_⟩
  · rw [snakeCase, String.toList_ofList, hname]
    exact htext.resolve_right fun hword => hword.1 rfl
  · rcases hd with ⟨hc', _, halpha⟩ | hd
    · have hletter : c.isAlpha = true := by
        rcases hc with hc | rfl
        · exact hc
        · cases hc'
      exact .inl ⟨hletter, halpha.trans hletter⟩
    · exact .inr hd

theorem isIdentifier_snakeCase : Grammar.isIdentifier (snakeCase name) = true := by
  obtain ⟨c, cs, d, hname, htext, _, hd⟩ := exists_snakeCase h
  have hparts := parts_of_isIdentifier h
  rw [hname, parts_cons] at hparts
  refine isIdentifier_iff.mpr ⟨d, _, htext, ?_, parts_snakeChars hparts.2 (some c)⟩
  exact hd.imp (·.2) (·.2)

theorem snakeCase_eq_underscore_iff : snakeCase name = "_" ↔ name = "_" := by
  constructor
  · intro he
    obtain ⟨c, cs, d, hname, htext, _, hd⟩ := exists_snakeCase h
    have hsingle : "_".toList = ['_'] := by decide
    rw [he, hsingle] at htext
    obtain ⟨rfl, hrest⟩ := List.cons.inj htext
    rcases hd with ⟨_, hd⟩ | ⟨rfl, _⟩
    · cases hd
    cases cs with
    | nil => exact String.toList_injective (hname.trans hsingle.symm)
    | cons e es =>
      have hpart := parts_of_isIdentifier h e (by simp [hname])
      obtain ⟨f, _, _, hchars⟩ := exists_snakeChars_cons hpart (some '_') es
      rw [← hrest] at hchars
      rcases hchars with hchars | ⟨_, hchars⟩ <;> cases hchars
  · intro he
    rw [he]
    decide +kernel

theorem isIdentifier_unreserved : Grammar.isIdentifier (unreserved name) = true := by
  unfold unreserved
  split
  · obtain ⟨c, cs, hname, hc, hcs⟩ := isIdentifier_iff.mp h
    have htext : (name ++ "_").toList = c :: (cs ++ ['_']) := by simp [hname]
    refine isIdentifier_iff.mpr ⟨c, _, htext, hc, ?_⟩
    exact parts_append.mpr ⟨hcs, parts_cons.mpr ⟨.inr rfl, List.forall_mem_nil _⟩⟩
  · exact h

/-- A name that is lowered does not begin with a capital letter. -/
theorem head?_unreserved_snakeCase :
    (unreserved (snakeCase name)).toList.head?.any Char.isUpper = false := by
  obtain ⟨c, cs, d, _, htext, hlower, _⟩ := exists_snakeCase h
  unfold unreserved
  split
  · rw [String.toList_append, htext]
    exact hlower
  · rw [htext]
    exact hlower

theorem isName_unreserved_snakeCase_iff : IsName (unreserved (snakeCase name)) ↔
    name ≠ "_" ∧ snakeCase name ∉ futureWords := by
  have hidentifier := isIdentifier_unreserved (isIdentifier_snakeCase h)
  have hunderscore := snakeCase_eq_underscore_iff h
  by_cases hmem : snakeCase name ∈ reservedWords
  · have hnames : ∀ word ∈ reservedWords, word ≠ "_" ∧ word ∉ futureWords ∧
        word ++ "_" ≠ "_" ∧ word ++ "_" ∉ keywords := by
      decide +kernel
    obtain ⟨hne, hfuture, hname, hkeyword⟩ := hnames _ hmem
    rw [unreserved, if_pos (by simpa using hmem)] at hidentifier ⊢
    exact iff_of_true ⟨hidentifier, hname, hkeyword⟩ ⟨mt hunderscore.mpr hne, hfuture⟩
  · rw [unreserved, if_neg (by simpa using hmem)]
    constructor
    · intro hname
      refine ⟨mt hunderscore.mpr hname.ne_underscore, ?_⟩
      intro hfuture
      exact hname.not_keyword (mem_keywords.mpr (.inr hfuture))
    · intro hname
      obtain ⟨hne, hfuture⟩ := hname
      refine ⟨isIdentifier_snakeCase h, mt hunderscore.mp hne, ?_⟩
      rw [mem_keywords]
      exact not_or.mpr ⟨hmem, hfuture⟩

end Snake

end Api

end Parley
