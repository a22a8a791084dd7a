import Mathlib.Order.Defs.PartialOrder
import Parley.Proofs.Passes

/-! Where the tokens of a text stand. Line and column of a token lead to its characters, tokens stand one
behind the other, and they leave out nothing but blanks and comments. Put side by side with a blank
between them, they are scanned once more as they are. -/

namespace Parley

namespace Position

/-- Places are compared by their lines first. -/
instance : Preorder Position where
  le p q := p.line < q.line ∨ p.line = q.line ∧ p.column ≤ q.column
  lt p q := p.line < q.line ∨ p.line = q.line ∧ p.column < q.column
  le_refl _ := .inr ⟨rfl, Nat.le_refl _⟩
  le_trans p q r h h' := by omega
  lt_iff_le_not_ge p q := by omega

theorem lt_iff {p q : Position} :
    p < q ↔ p.line < q.line ∨ p.line = q.line ∧ p.column < q.column := Iff.rfl

theorem lt_next (p : Position) (c : Char) : p < p.next c := by
  rw [next, lt_iff]
  split
  · exact .inl (Nat.lt_succ_self _)
  · exact .inr ⟨rfl, Nat.lt_succ_self _⟩

theorem advance_append (p : Position) (cs ds : List Char) :
    p.advance (cs ++ ds) = (p.advance cs).advance ds := List.foldl_append ..

theorem le_advance (p : Position) (cs : List Char) : p ≤ p.advance cs := by
  induction cs generalizing p with
  | nil => exact le_refl p
  | cons c cs ih => exact le_trans (le_of_lt (p.lt_next c)) (ih (p.next c))

theorem lt_advance (p : Position) {cs : List Char} (h : cs ≠ []) : p < p.advance cs := by
  cases cs with
  | nil => exact absurd rfl h
  | cons c cs => exact lt_of_lt_of_le (p.lt_next c) ((p.next c).le_advance cs)

theorem advance_of_not_mem {cs : List Char} (h : '\n' ∉ cs) (p : Position) :
    p.advance cs = ⟨p.line, p.column + cs.length⟩ := by
  induction cs generalizing p with
  | nil => rfl
  | cons c cs ih =>
    obtain ⟨hc, hcs⟩ : '\n' ≠ c ∧ '\n' ∉ cs := by simpa using h
    have hnext : p.next c = ⟨p.line, p.column + 1⟩ := if_neg (Ne.symm hc)
    show (p.next c).advance cs = _
    rw [hnext, ih hcs, List.length_cons, Nat.add_assoc, Nat.add_comm 1]

end Position

namespace Token

open Grammar

/-! ### Token by token -/

section Lexemes

variable {c : Char} {cs : List Char} {t : Token} {p : Position}

theorem isBlank_of_isTokenText {w : String} (hw : isTokenText w = true) :
    ∀ c ∈ w.toList, Text.isBlank c = false := by
  rcases isTokenText_cases hw with ⟨c, he, hc⟩ | ⟨c, cs, he, hc, hcs⟩
  · simpa [he] using isBlank_of_isMark hc
  · have hword : ∀ d ∈ c :: cs, isWordChar d = true := List.forall_mem_cons.mpr ⟨hc, hcs⟩
    intro d hd
    rw [he] at hd
    have hd := hword d hd
    simp only [isWordChar, Bool.and_eq_true, Bool.not_eq_true'] at hd
    exact hd.1

theorem newline_not_mem {w : String} (hw : isTokenText w = true) : '\n' ∉ w.toList := by
  intro h
  cases isBlank_of_isTokenText hw _ h

theorem isTokenText_lexeme (h : (lexeme c cs).kept = true) :
    isTokenText (String.ofList (lexeme c cs).chars) = true := by
  unfold lexeme at h ⊢
  split at h
  · cases h
  · cases h
  · by_cases hblank : Text.isBlank c = true
    · rw [if_pos hblank] at h
      cases h
    · rw [if_neg hblank]
      by_cases hmark : isMark c = true
      · rw [if_pos hmark]
        simp [isTokenText, isPunctuation, hmark]
      · have hc : isWordChar c = true := by simp [isWordChar, hblank, hmark]
        have htail : (cs.takeWhile isWordChar).all isWordChar = true := List.all_takeWhile
        rw [if_neg hmark]
        simp [isTokenText, hc, htail]

theorem stop_eq_advance (ht : isTokenText t.text = true) :
    t.stop = t.start.advance t.text.toList := by
  rw [Position.advance_of_not_mem (newline_not_mem ht), stop, String.length_toList]

theorem stop_lexeme (h : (lexeme c cs).kept = true) (p : Position) :
    (⟨String.ofList (lexeme c cs).chars, p⟩ : Token).stop = p.advance (lexeme c cs).chars := by
  have hw : isTokenText (String.ofList (lexeme c cs).chars) = true := isTokenText_lexeme h
  generalize (lexeme c cs).chars = w at hw ⊢
  rw [stop_eq_advance (t := ⟨String.ofList w, p⟩) hw, String.toList_ofList]

theorem cons_eq_of_lexeme_rest {before w after : List Char}
    (h : (lexeme c cs).rest = before ++ w ++ after) :
    c :: cs = (lexeme c cs).chars ++ before ++ w ++ after := by
  rw [← lexeme_append c cs, h]
  simp

/-- Every token is a stretch of the text, and starts where the characters before it lead to. -/
theorem exists_append_of_mem_scanFrom (h : t ∈ scanFrom p cs) :
    isTokenText t.text = true ∧
      ∃ before after, cs = before ++ t.text.toList ++ after ∧ t.start = p.advance before := by
  fun_induction scanFrom p cs with
  | case1 => cases h
  | case2 p c cs l rest hkept ih =>
    rcases List.mem_cons.mp h with rfl | h
    · refine ⟨isTokenText_lexeme hkept, [], l.rest, ?_, rfl⟩
      rw [List.nil_append, String.toList_ofList, lexeme_append]
    · obtain ⟨ht, before, after, he, hstart⟩ := ih h
      refine ⟨ht, l.chars ++ before, after, cons_eq_of_lexeme_rest he, ?_⟩
      rw [hstart, Position.advance_append]
  | case3 p c cs l rest hkept ih =>
    obtain ⟨ht, before, after, he, hstart⟩ := ih h
    refine ⟨ht, l.chars ++ before, after, cons_eq_of_lexeme_rest he, ?_⟩
    rw [hstart, Position.advance_append]

theorem le_start_of_mem_scanFrom (h : t ∈ scanFrom p cs) : p ≤ t.start := by
  obtain ⟨-, before, -, -, hstart⟩ := exists_append_of_mem_scanFrom h
  rw [hstart]
  exact p.le_advance before

theorem start_lt_stop (ht : isTokenText t.text = true) : t.start < t.stop := by
  obtain ⟨c, cs, hne, -⟩ := head_of_isTokenText ht
  rw [stop_eq_advance ht]
  exact t.start.lt_advance (by simp [hne])

/-- Tokens stand one behind the other. -/
theorem pairwise_scanFrom (p : Position) (cs : List Char) :
    (scanFrom p cs).Pairwise fun t u => t.stop ≤ u.start := by
  fun_induction scanFrom p cs with
  | case1 => exact .nil
  | case2 p c cs l rest hkept ih =>
    refine .cons (fun u hu => ?_) ih
    rw [stop_lexeme hkept]
    exact le_start_of_mem_scanFrom hu
  | case3 p c cs l rest hkept ih => exact ih

end Lexemes

/-! ### Lines and columns -/

/-- Some characters stand in a line of a text and from a column on, both counted from one. Lines are cut
at line feeds and nowhere else. -/
def StandsAt (cs w : List Char) (p : Position) : Prop :=
  ∃ i before after, (cs.splitOn '\n')[i]? = some (before ++ w ++ after) ∧
    p = ⟨i + 1, before.length + 1⟩

/-- Where one comes to from column `lead.length` of a line, and what the line there begins with. -/
theorem exists_line {w : List Char} (hw : '\n' ∉ w) (rest front : List Char) (i : Nat)
    {lead : List Char} (hlead : '\n' ∉ lead) :
    ∃ j before after, ((lead ++ (front ++ (w ++ rest))).splitOn '\n')[j]? =
        some (before ++ w ++ after) ∧
      (⟨i + 1, lead.length + 1⟩ : Position).advance front = ⟨i + j + 1, before.length + 1⟩ := by
  simp only [List.splitOn_eq_splitOnP]
  induction front generalizing i lead with
  | nil =>
    obtain ⟨line, lines, hrest⟩ := List.exists_cons_of_ne_nil (List.splitOnP_ne_nil (· == '\n') rest)
    have hrun : ∀ c ∈ lead ++ w, (c == '\n') = false := by
      simp only [List.mem_append, beq_eq_false_iff_ne]
      rintro c (hc | hc) rfl
      · exact hlead hc
      · exact hw hc
    refine ⟨0, lead, line, ?_, rfl⟩
    rw [List.nil_append, ← List.append_assoc, splitOnP_append_of_not hrun hrest]
    rfl
  | cons c front ih =>
    by_cases hc : c = '\n'
    · subst hc
      obtain ⟨j, before, after, hline, hplace⟩ := ih (i + 1) List.not_mem_nil
      have hsplit : List.splitOnP (· == '\n') lead = [lead] :=
        List.splitOnP_eq_singleton fun c hc => by
          simpa using fun he : c = '\n' => hlead (he ▸ hc)
      refine ⟨j + 1, before, after, ?_, ?_⟩
      · rw [List.cons_append, List.splitOnP_append_cons _ _ rfl, hsplit]
        exact hline
      · rw [Nat.add_comm j 1, ← Nat.add_assoc]
        exact hplace
    · have hlead' : '\n' ∉ lead ++ [c] := by simpa [hlead] using Ne.symm hc
      obtain ⟨j, before, after, hline, hplace⟩ := ih i hlead'
      refine ⟨j, before, after, by simpa using hline, ?_⟩
      have hnext : (⟨i + 1, lead.length + 1⟩ : Position).next c =
          ⟨i + 1, (lead ++ [c]).length + 1⟩ := by simp [Position.next, hc]
      show Position.advance (Position.next _ c) front = _
      rw [hnext, hplace]

/-- What stands on one line is found at the place to which the characters before it lead. -/
theorem standsAt_advance {w : List Char} (hw : '\n' ∉ w) (front rest : List Char) :
    StandsAt (front ++ w ++ rest) w (Position.origin.advance front) := by
  obtain ⟨i, before, after, hline, hplace⟩ := exists_line hw rest front 0 List.not_mem_nil
  refine ⟨i, before, after, ?_, ?_⟩
  · rw [List.append_assoc]
    exact hline
  · rw [← Nat.zero_add i]
    exact hplace

theorem standsAt_of_getElem? {cs : List Char} {k : Nat} {d : Char} (h : cs[k]? = some d)
    (hd : d ≠ '\n') : StandsAt cs [d] (Position.origin.advance (cs.take k)) := by
  have hsplit : cs = cs.take k ++ [d] ++ cs.drop (k + 1) := by
    obtain ⟨hk, rfl⟩ := List.getElem?_eq_some_iff.mp h
    rw [List.append_assoc, List.singleton_append, List.getElem_cons_drop, List.take_append_drop]
  have hline : '\n' ∉ [d] := by simpa using Ne.symm hd
  have hstands := standsAt_advance hline (cs.take k) (cs.drop (k + 1))
  rwa [← hsplit] at hstands

theorem standsAt_of_mem_scan {text : String} {t : Token} (h : t ∈ scan text) :
    StandsAt text.toList t.text.toList t.start := by
  obtain ⟨ht, before, after, he, hstart⟩ := exists_append_of_mem_scanFrom h
  rw [he, hstart]
  exact standsAt_advance (newline_not_mem ht) before after

/-! ### Blanks and comments -/

/-- For each character of a text, whether it belongs to a comment. The line feed behind one does not. -/
def inComment : Region → List Char → List Bool
  | _, [] => []
  | .code, '/' :: '/' :: cs => true :: true :: inComment .line cs
  | .code, '/' :: '*' :: cs => true :: true :: inComment .block cs
  | .code, _ :: cs => false :: inComment .code cs
  | .line, '\n' :: cs => false :: inComment .code cs
  | .line, _ :: cs => true :: inComment .line cs
  | .block, '*' :: '/' :: cs => true :: true :: inComment .code cs
  | .block, _ :: cs => true :: inComment .block cs

section InComment

variable {c d : Char} {cs : List Char} {k : Nat}

theorem inComment_line (cs : List Char) : inComment .line cs =
    (cs.takeWhile (· != '\n')).map (fun _ => true) ++
      inComment .code (cs.dropWhile (· != '\n')) := by
  induction cs with
  | nil => rfl
  | cons c cs ih =>
    by_cases hc : c = '\n'
    · rw [hc]
      rfl
    · rw [inComment, ih, List.takeWhile_cons_of_pos (by simpa using hc),
        List.dropWhile_cons_of_pos (by simpa using hc)]
      · rfl
      · exact hc

theorem inComment_block (cs : List Char) : inComment .block cs =
    (cutComment cs).1.map (fun _ => true) ++ inComment .code (cutComment cs).2 := by
  fun_induction cutComment cs with
  | case1 => rfl
  | case2 cs => rfl
  | case3 c cs hc comment rest h ih =>
    rw [h] at ih
    rw [inComment, ih]
    · rfl
    · exact hc

theorem inComment_append {run : List Char} (h : ∀ c ∈ run, c ≠ '/') (rest : List Char) :
    inComment .code (run ++ rest) = run.map (fun _ => false) ++ inComment .code rest := by
  induction run with
  | nil => rfl
  | cons c run ih =>
    obtain ⟨hc, hrun⟩ := List.forall_mem_cons.mp h
    rw [List.cons_append, inComment, ih hrun]
    · rfl
    all_goals simp [hc]

/-- A lexeme is in a comment as a whole or not at all, and it is kept unless it is blank or in one. -/
theorem exists_inComment_lexeme (c : Char) (cs : List Char) : ∃ b,
    inComment .code (c :: cs) =
      (lexeme c cs).chars.map (fun _ => b) ++ inComment .code (lexeme c cs).rest ∧
    ∀ d ∈ (lexeme c cs).chars, (!Text.isBlank d && !b) = (lexeme c cs).kept := by
  have hrun {p : Char → Bool} (hp : ∀ d, p d = true → d ≠ '/') (hc : p c = true) :
      inComment .code (c :: cs) =
        (c :: cs.takeWhile p).map (fun _ => false) ++ inComment .code (cs.dropWhile p) := by
    have hall : ∀ d ∈ c :: cs.takeWhile p, p d = true :=
      List.forall_mem_cons.mpr ⟨hc, List.all_eq_true.mp List.all_takeWhile⟩
    rw [← inComment_append fun d hd => hp d (hall d hd), List.cons_append,
      List.takeWhile_append_dropWhile]
  unfold lexeme
  split
  · refine ⟨true, ?_, by simp⟩
    rw [inComment, inComment_line]
    rfl
  · refine ⟨true, ?_, by simp⟩
    rw [inComment, inComment_block]
    rfl
  · rename_i hline hblock
    refine ⟨false, ?_⟩
    by_cases hblank : Text.isBlank c = true
    · rw [if_pos hblank]
      refine ⟨hrun (fun d => ne_slash_of_isBlank) hblank, ?_⟩
      have hall : ∀ d ∈ cs.takeWhile Text.isBlank, Text.isBlank d = true :=
        List.all_eq_true.mp List.all_takeWhile
      simpa [hblank] using hall
    rw [if_neg hblank]
    by_cases hmark : isMark c = true
    · rw [if_pos hmark]
      refine ⟨?_, by simpa using hblank⟩
      rw [inComment]
      · rfl
      · exact hline
      · exact hblock
    · rw [if_neg hmark]
      have hword : isWordChar c = true := by simp [isWordChar, hblank, hmark]
      refine ⟨hrun (fun d => ne_slash_of_isWordChar) hword, ?_⟩
      have hall : ∀ d ∈ cs.takeWhile isWordChar, isWordChar d = true :=
        List.all_eq_true.mp List.all_takeWhile
      have hplain : ∀ d ∈ cs.takeWhile isWordChar, Text.isBlank d = false := by
        intro d hd
        have hd := hall d hd
        simp only [isWordChar, Bool.and_eq_true, Bool.not_eq_true'] at hd
        exact hd.1
      simpa [hblank] using hplain

/-- A token reaches over a place. -/
def Covers (t : Token) (p : Position) : Prop := t.start ≤ p ∧ p < t.stop

theorem not_covers_of_lt {p q : Position} (h : q < p) :
    ¬ ∃ t ∈ scanFrom p cs, t.Covers q := by
  rintro ⟨t, ht, hstart, -⟩
  exact lt_irrefl q (lt_of_lt_of_le h (le_trans (le_start_of_mem_scanFrom ht) hstart))

theorem kept_lexeme_iff (hk : k < (lexeme c cs).chars.length) (h : (c :: cs)[k]? = some d) :
    (lexeme c cs).kept = true ↔
      Text.isBlank d = false ∧ (inComment .code (c :: cs))[k]? = some false := by
  obtain ⟨b, hmarks, hkept⟩ := exists_inComment_lexeme c cs
  rw [← lexeme_append c cs, List.getElem?_append_left hk] at h
  rw [← hkept d (List.mem_of_getElem? h), hmarks, List.getElem?_append_left (by simpa using hk),
    List.getElem?_map, h]
  simp

theorem getElem?_lexeme_rest (c : Char) (cs : List Char) (j : Nat) :
    (c :: cs)[(lexeme c cs).chars.length + j]? = (lexeme c cs).rest[j]? := by
  rw [← lexeme_append c cs, List.getElem?_append_right (Nat.le_add_right _ _),
    Nat.add_sub_cancel_left]

theorem inComment_lexeme_rest (c : Char) (cs : List Char) (j : Nat) :
    (inComment .code (c :: cs))[(lexeme c cs).chars.length + j]? =
      (inComment .code (lexeme c cs).rest)[j]? := by
  obtain ⟨b, hmarks, -⟩ := exists_inComment_lexeme c cs
  rw [hmarks, List.getElem?_append_right (by simp), List.length_map, Nat.add_sub_cancel_left]

theorem advance_take_lexeme_lt (p : Position) (hk : k < (lexeme c cs).chars.length) :
    p.advance ((c :: cs).take k) < p.advance (lexeme c cs).chars := by
  have hsplit : (lexeme c cs).chars = (c :: cs).take k ++ (lexeme c cs).chars.drop k := by
    rw [← lexeme_append c cs, List.take_append_of_le_length (Nat.le_of_lt hk),
      List.take_append_drop]
  rw [hsplit, Position.advance_append]
  exact Position.lt_advance _ (by simpa using hk)

theorem advance_take_lexeme_rest (p : Position) (c : Char) (cs : List Char) (j : Nat) :
    p.advance ((c :: cs).take ((lexeme c cs).chars.length + j)) =
      (p.advance (lexeme c cs).chars).advance ((lexeme c cs).rest.take j) := by
  rw [← lexeme_append c cs, List.take_length_add_append, Position.advance_append]

/-- A character belongs to a token unless it is blank or in a comment. -/
theorem covers_scanFrom_iff (p : Position) (cs : List Char) : ∀ k d, cs[k]? = some d →
    ((∃ t ∈ scanFrom p cs, t.Covers (p.advance (cs.take k))) ↔
      Text.isBlank d = false ∧ (inComment .code cs)[k]? = some false) := by
  fun_induction scanFrom p cs with
  | case1 => simp
  | case2 p c cs l rest hkept ih =>
    intro k d h
    by_cases hk : k < l.chars.length
    · -- the character is one of the token that the lexeme is
      rw [← kept_lexeme_iff hk h]
      refine iff_of_true ⟨_, List.mem_cons_self, p.le_advance _, ?_⟩ hkept
      rw [stop_lexeme hkept]
      exact advance_take_lexeme_lt p hk
    · obtain ⟨j, rfl⟩ := Nat.exists_eq_add_of_le (Nat.le_of_not_lt hk)
      rw [getElem?_lexeme_rest] at h
      rw [inComment_lexeme_rest, advance_take_lexeme_rest, ← ih j d h]
      simp only [List.mem_cons, exists_eq_or_imp]
      refine or_iff_right fun hcovers => ?_
      rw [Covers, stop_lexeme hkept] at hcovers
      exact not_lt_of_ge (Position.le_advance _ _) hcovers.2
  | case3 p c cs l rest hkept ih =>
    intro k d h
    by_cases hk : k < l.chars.length
    · rw [← kept_lexeme_iff hk h]
      exact iff_of_false (not_covers_of_lt (advance_take_lexeme_lt p hk)) hkept
    · obtain ⟨j, rfl⟩ := Nat.exists_eq_add_of_le (Nat.le_of_not_lt hk)
      rw [getElem?_lexeme_rest] at h
      rw [inComment_lexeme_rest, advance_take_lexeme_rest, ← ih j d h]

end InComment

/-! ### The tokens of a text -/

/-- Tokens in their text. The place of a character is the one to which those before it lead. -/
structure Placed (cs : List Char) (ts : List Token) : Prop where
  /-- Line and column of a token lead to its characters. -/
  stands : ∀ t ∈ ts, StandsAt cs t.text.toList t.start
  occupies : ∀ t ∈ ts, t.start < t.stop
  /-- A token ends before the next one starts. -/
  apart : ts.Pairwise fun t u => t.stop ≤ u.start
  found : ∀ k d, cs[k]? = some d → d ≠ '\n' →
    StandsAt cs [d] (Position.origin.advance (cs.take k))
  /-- The characters that belong to no token are those that are blank or in a comment. -/
  covers : ∀ k d, cs[k]? = some d →
    ((∃ t ∈ ts, t.Covers (Position.origin.advance (cs.take k))) ↔
      Text.isBlank d = false ∧ (inComment .code cs)[k]? = some false)

/-- The tokens of a text stand where they say, one behind the other, and between them is nothing but
blanks and comments. -/
theorem placed_scan (text : String) : Placed text.toList (scan text) where
  stands _ h := standsAt_of_mem_scan h
  occupies _ h := start_lt_stop (exists_append_of_mem_scanFrom h).1
  apart := pairwise_scanFrom _ _
  found _ _ h hd := standsAt_of_getElem? h hd
  covers := covers_scanFrom_iff _ _

-- a comment over two lines, a blank behind a carriage return, and a slash that opens no comment
example : scanFrom Position.origin "a/*\n*/b\r/\u00a0c".toList =
    [⟨"a", ⟨1, 1⟩⟩, ⟨"b", ⟨2, 3⟩⟩, ⟨"/", ⟨2, 5⟩⟩, ⟨"c", ⟨2, 7⟩⟩] := by decide +kernel

/-- Scanning once more changes nothing. -/
theorem texts_scan_intercalate_texts (text : String) :
    texts (scan (" ".intercalate (texts (scan text)))) = texts (scan text) := by
  apply texts_scan_intercalate
  intro w hw
  obtain ⟨t, ht, rfl⟩ := List.mem_map.mp hw
  exact (exists_append_of_mem_scanFrom ht).1

end Token

end Parley
