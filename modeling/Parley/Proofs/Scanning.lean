import Mathlib.Data.List.Induction
import Mathlib.Data.List.SplitBy
import Parley.Proofs.Reader
import Parley.Token.Scan

/-! Tokens with single blanks between them are scanned as they are. -/

namespace Parley.Token

/-- Whether a text stays one token when blanks stand on both sides of it. -/
def isTokenText (w : String) : Bool :=
  isPunctuation w || (w != "" && w.toList.all isWordChar)

theorem isTokenText_cases {w : String} (h : isTokenText w = true) :
    (∃ c, w.toList = [c] ∧ isMark c = true) ∨
      ∃ c cs, w.toList = c :: cs ∧ isWordChar c = true ∧ ∀ d ∈ cs, isWordChar d = true := by
  rw [isTokenText, Bool.or_eq_true] at h
  rcases h with h | h
  · left
    rw [isPunctuation] at h
    split at h
    · rename_i c hw
      exact ⟨c, hw, h⟩
    · cases h
  · right
    simp only [Bool.and_eq_true, bne_iff_ne, List.all_eq_true] at h
    obtain ⟨hne, hall⟩ := h
    cases hw : w.toList with
    | nil => exact absurd (String.toList_eq_nil_iff.mp hw) hne
    | cons c cs =>
      rw [hw] at hall
      exact ⟨c, cs, rfl, hall c List.mem_cons_self, fun d hd => hall d (List.mem_cons_of_mem _ hd)⟩

section Lexemes

variable {c : Char} {cs rest : List Char} {p : Position}

theorem of_isMark {p : Char → Bool} (hp : punctuation.all p = true) (h : isMark c = true) :
    p c = true :=
  List.all_eq_true.mp hp c (by simpa [isMark] using h)

theorem isBlank_of_isMark (h : isMark c = true) : Text.isBlank c = false := by
  have hc : (!Text.isBlank c) = true := of_isMark (p := fun c => !Text.isBlank c) (by decide) h
  simpa using hc

theorem toNat_of_isAlphanum (h : (c.isAlphanum || c == '_') = true) :
    48 ≤ c.toNat ∧ c.toNat ≤ 122 := by
  delta Char.isAlphanum Char.isAlpha Char.isUpper Char.isLower Char.isDigit at h
  simp only [Bool.or_eq_true, Bool.and_eq_true, decide_eq_true_eq, beq_iff_eq,
    UInt32.le_iff_toNat_le, ge_iff_le] at h
  rcases h with ((h | h) | h) | rfl
  · exact ⟨Nat.le_trans (by decide) h.1, Nat.le_trans h.2 (by decide)⟩
  · exact ⟨Nat.le_trans (by decide) h.1, Nat.le_trans h.2 (by decide)⟩
  · exact ⟨Nat.le_trans (by decide) h.1, Nat.le_trans h.2 (by decide)⟩
  · decide

theorem isWordChar_of_isAlphanum (h : (c.isAlphanum || c == '_') = true) : isWordChar c = true := by
  have hcode := toNat_of_isAlphanum h
  have hblank : Text.isBlank c = false := by
    simp only [Text.isBlank, Text.inSpans, Text.blankSpans, List.any_cons, List.any_nil,
      Bool.or_eq_false_iff, Bool.and_eq_false_iff, decide_eq_false_iff_not, and_true]
    omega
  have hmark : isMark c = false := by
    rw [← Bool.not_eq_true]
    intro hc
    have hn := of_isMark (p := fun c => !(c.isAlphanum || c == '_')) (by decide) hc
    simp [h] at hn
  simp [isWordChar, hblank, hmark]

theorem lexeme_mark (hc : isMark c = true) (hrest : ∀ d ∈ rest.head?, d = ' ') :
    lexeme c rest = ⟨[c], true, rest⟩ := by
  unfold lexeme
  split
  · simp at hrest
  · simp at hrest
  · rw [if_neg (by simp [isBlank_of_isMark hc]), if_pos hc]

theorem lexeme_word (hc : isWordChar c = true) (hcs : ∀ d ∈ cs, isWordChar d = true)
    (hrest : ∀ d ∈ rest.head?, d = ' ') : lexeme c (cs ++ rest) = ⟨c :: cs, true, rest⟩ := by
  have hstop : rest.takeWhile isWordChar = [] ∧ rest.dropWhile isWordChar = rest := by
    cases rest with
    | nil => exact ⟨rfl, rfl⟩
    | cons d rest =>
      obtain rfl := hrest d rfl
      exact ⟨rfl, rfl⟩
  unfold lexeme
  split
  · cases hc
  · cases hc
  · simp only [isWordChar, Bool.and_eq_true, Bool.not_eq_true'] at hc
    rw [if_neg (by simp [hc.1]), if_neg (by simp [hc.2]), List.takeWhile_append_of_pos hcs,
      List.dropWhile_append_of_pos hcs, hstop.1, hstop.2, List.append_nil]

theorem lexeme_blank (hrest : ∀ d ∈ rest.head?, Text.isBlank d = false) :
    lexeme ' ' rest = ⟨[' '], false, rest⟩ := by
  have hstop : rest.takeWhile Text.isBlank = [] ∧ rest.dropWhile Text.isBlank = rest := by
    cases rest with
    | nil => exact ⟨rfl, rfl⟩
    | cons d rest =>
      have hd := hrest d rfl
      simp [hd]
  have hblank : Text.isBlank ' ' = true := by decide
  simp [lexeme, hblank, hstop]

theorem scanFrom_tokenText {w : String} (hw : isTokenText w = true)
    (hrest : ∀ d ∈ rest.head?, d = ' ') :
    scanFrom p (w.toList ++ rest) = ⟨w, p⟩ :: scanFrom (p.advance w.toList) rest := by
  have hl : ∃ c cs, w.toList = c :: cs ∧ lexeme c (cs ++ rest) = ⟨w.toList, true, rest⟩ := by
    rcases isTokenText_cases hw with ⟨c, he, hc⟩ | ⟨c, cs, he, hc, hcs⟩
    · exact ⟨c, [], he, by rw [he]; exact lexeme_mark hc hrest⟩
    · exact ⟨c, cs, he, by rw [he]; exact lexeme_word hc hcs hrest⟩
  obtain ⟨c, cs, he, hl⟩ := hl
  conv => lhs; rw [he, List.cons_append, scanFrom]
  simp only [hl, if_true, String.ofList_toList]

theorem head_of_isTokenText {w : String} (hw : isTokenText w = true) :
    ∃ c cs, w.toList = c :: cs ∧ Text.isBlank c = false := by
  rcases isTokenText_cases hw with ⟨c, he, hc⟩ | ⟨c, cs, he, hc, -⟩
  · exact ⟨c, [], he, isBlank_of_isMark hc⟩
  · simp only [isWordChar, Bool.and_eq_true, Bool.not_eq_true'] at hc
    exact ⟨c, cs, he, hc.1⟩

end Lexemes

open Grammar

/-- Scanning undoes the joining of token texts. -/
theorem texts_scan_intercalate {words : List String} (h : ∀ w ∈ words, isTokenText w = true) :
    texts (scan (" ".intercalate words)) = words := by
  have hfrom (p : Position) :
      texts (scanFrom p ([' '].intercalate (words.map String.toList))) = words := by
    induction words using List.twoStepInduction generalizing p with
    | nil => simp [List.intercalate, scanFrom]
    | singleton w =>
      have hw := h w List.mem_cons_self
      have hscan : scanFrom p (w.toList ++ []) = ⟨w, p⟩ :: scanFrom (p.advance w.toList) [] :=
        scanFrom_tokenText hw (by simp)
      rw [List.append_nil] at hscan
      simp [List.intercalate, hscan, scanFrom]
    | cons_cons w v words _ ih =>
      obtain ⟨hw, hrest⟩ := List.forall_mem_cons.mp h
      obtain ⟨c, cs, hv, hblank⟩ := head_of_isTokenText (hrest v List.mem_cons_self)
      -- what stands behind the blank begins with a token, so the blank run is the one blank
      have hhead : ∀ d ∈ ([' '].intercalate ((v :: words).map String.toList)).head?,
          Text.isBlank d = false := by
        cases words <;> simp [List.intercalate, hv, hblank]
      have hsplit : [' '].intercalate ((w :: v :: words).map String.toList) =
          w.toList ++ ' ' :: [' '].intercalate ((v :: words).map String.toList) := by
        simp [List.intercalate]
      rw [hsplit, scanFrom_tokenText hw (by simp), scanFrom, lexeme_blank hhead]
      simpa using ih v hrest _
  rw [scan, String.toList_intercalate]
  exact hfrom Position.origin

/-- The tokens of a text without blanks: its marks, and the runs of other characters. -/
def pieces (text : String) : List String :=
  (text.toList.splitBy fun c d => !isMark c && !isMark d).map String.ofList

theorem join_pieces (text : String) : String.join (pieces text) = text := by
  apply String.toList_injective
  rw [String.toList_join, pieces, List.flatMap_map]
  simp only [String.toList_ofList]
  rw [List.flatMap_id', List.flatten_splitBy]

theorem mem_of_mem_pieces {text w : String} {c : Char} (hw : w ∈ pieces text) (hc : c ∈ w.toList) :
    c ∈ text.toList := by
  conv => rw [← join_pieces text, String.toList_join]
  exact List.mem_flatMap.mpr ⟨w, hw, hc⟩

theorem isMark_of_isChain {c : Char} {cs : List Char}
    (h : (c :: cs).IsChain fun c d => (!isMark c && !isMark d) = true) :
    (isMark c = true → cs = []) ∧ ∀ d ∈ cs, isMark d = false := by
  induction cs generalizing c with
  | nil => simp
  | cons d cs ih =>
    obtain ⟨hcd, hchain⟩ := List.isChain_cons_cons.mp h
    simp only [Bool.and_eq_true, Bool.not_eq_true'] at hcd
    refine ⟨fun hc => ?_, List.forall_mem_cons.mpr ⟨hcd.2, (ih hchain).2⟩⟩
    rw [hcd.1] at hc
    cases hc

theorem isTokenText_of_mem_pieces {text w : String}
    (h : ∀ c ∈ text.toList, Text.isBlank c = false) (hw : w ∈ pieces text) :
    isTokenText w = true := by
  have hblank (c : Char) (hc : c ∈ w.toList) : Text.isBlank c = false := h c (mem_of_mem_pieces hw hc)
  obtain ⟨m, hm, rfl⟩ := List.mem_map.mp hw
  rw [String.toList_ofList] at hblank
  cases m with
  | nil => exact absurd hm (List.nil_notMem_splitBy _ _)
  | cons c cs =>
    obtain ⟨hmark, hcs⟩ := isMark_of_isChain (List.isChain_of_mem_splitBy hm)
    rw [isTokenText, Bool.or_eq_true]
    cases hc : isMark c with
    | true =>
      obtain rfl := hmark hc
      exact .inl (by simp [isPunctuation, hc])
    | false =>
      refine .inr ?_
      have hall : ∀ d ∈ c :: cs, isMark d = false := List.forall_mem_cons.mpr ⟨hc, hcs⟩
      have hword : ∀ d ∈ c :: cs, isWordChar d = true := by
        intro d hd
        simp [isWordChar, hblank d hd, hall d hd]
      have hne : String.ofList (c :: cs) ≠ "" := by simp
      simp only [Bool.and_eq_true, bne_iff_ne, List.all_eq_true, String.toList_ofList]
      exact ⟨hne, hword⟩

theorem pieces_append {s t : String}
    (h : ∀ c ∈ s.toList.getLast?, ∀ d ∈ t.toList.head?, (!isMark c && !isMark d) = false) :
    pieces (s ++ t) = pieces s ++ pieces t := by
  rw [pieces, String.toList_append, List.splitBy_append h, List.map_append]
  rfl

theorem pieces_eq_singleton {s : String} (hne : s ≠ "") (h : ∀ c ∈ s.toList, isMark c = false) :
    pieces s = [s] := by
  have hpairs : s.toList.Pairwise fun c d => (!isMark c && !isMark d) = true :=
    List.pairwise_of_forall_mem_list fun c hc d hd => by simp [h c hc, h d hd]
  rw [pieces, List.splitBy_of_isChain (by simpa using hne) hpairs.isChain]
  simp

theorem pieces_intercalate_dot {names : List String}
    (h : ∀ name ∈ names, name ≠ "" ∧ ∀ c ∈ name.toList, isMark c = false) :
    pieces (".".intercalate names) = names.intersperse "." := by
  induction names using List.twoStepInduction with
  | nil => rfl
  | singleton name =>
    obtain ⟨hne, hmark⟩ := h name List.mem_cons_self
    rw [String.intercalate_singleton]
    exact pieces_eq_singleton hne hmark
  | cons_cons name name' names _ ih =>
    obtain ⟨⟨hne, hmark⟩, hrest⟩ := List.forall_mem_cons.mp h
    -- a dot stays apart from what stands before and behind it
    have hdot (s : String) : pieces ("." ++ s) = "." :: pieces s :=
      pieces_append (s := ".") (by simp [isMark, punctuation])
    have hname : pieces (name ++ ("." ++ ".".intercalate (name' :: names))) =
        pieces name ++ pieces ("." ++ ".".intercalate (name' :: names)) :=
      pieces_append (by simp [isMark, punctuation])
    rw [String.intercalate_cons_cons, String.append_assoc, hname, pieces_eq_singleton hne hmark, hdot,
      ih name' hrest]
    rfl

end Parley.Token
