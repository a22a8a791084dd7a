import Parley.Proofs.Scanning

/-! Scanning in three passes: comments give way to blanks, the text is split at blanks, and each word is
cut at its marks. The passes know nothing of lexemes; that one walk over the text does all three is the
main statement. -/

namespace Parley.Token

open Grammar

/-- Where in a text one stands: in no comment, in one to the end of the line, or in one to `*/`. -/
inductive Region where
  | code
  | line
  | block

/-- A text with a blank in place of each comment. The line feed behind a comment stays. -/
def uncomment : Region → List Char → List Char
  | _, [] => []
  | .code, '/' :: '/' :: cs => ' ' :: uncomment .line cs
  | .code, '/' :: '*' :: cs => ' ' :: uncomment .block cs
  | .code, c :: cs => c :: uncomment .code cs
  | .line, '\n' :: cs => '\n' :: uncomment .code cs
  | .line, _ :: cs => uncomment .line cs
  | .block, '*' :: '/' :: cs => uncomment .code cs
  | .block, _ :: cs => uncomment .block cs

-- the slash that opens a comment does not close it, and `*/` by itself is nothing but two characters
example : uncomment .code "a/*/b*/c//d\n*/e/".toList = "a c \n*/e/".toList := by decide

/-- The words of a text, each cut at its marks. -/
def wordPieces (cs : List Char) : List String :=
  ((cs.splitOnP Text.isBlank).map String.ofList).flatMap pieces

/-! ### Comments -/

section Uncomment

variable {c : Char} {cs : List Char}

theorem uncomment_line (cs : List Char) :
    uncomment .line cs = uncomment .code (cs.dropWhile (· != '\n')) := by
  induction cs with
  | nil => rfl
  | cons c cs ih =>
    by_cases hc : c = '\n'
    · rw [hc]
      rfl
    · rw [uncomment, ih, List.dropWhile_cons_of_pos (by simpa using hc)]
      exact hc

theorem uncomment_block (cs : List Char) :
    uncomment .block cs = uncomment .code (cutComment cs).2 := by
  fun_induction cutComment cs with
  | case1 => rfl
  | case2 cs => rfl
  | case3 c cs hc comment rest h ih =>
    rw [h] at ih
    rw [uncomment, ih]
    exact hc

theorem uncomment_cons (h : c ≠ '/') : uncomment .code (c :: cs) = c :: uncomment .code cs := by
  rw [uncomment]
  all_goals simp [h]

theorem uncomment_append {run : List Char} (h : ∀ c ∈ run, c ≠ '/') (rest : List Char) :
    uncomment .code (run ++ rest) = run ++ uncomment .code rest := by
  induction run with
  | nil => rfl
  | cons c run ih =>
    obtain ⟨hc, hrun⟩ := List.forall_mem_cons.mp h
    rw [List.cons_append, uncomment_cons hc, ih hrun, List.cons_append]

theorem isWordChar_head?_uncomment (h : ∀ d ∈ cs.head?, isWordChar d = false) :
    ∀ d ∈ (uncomment .code cs).head?, isWordChar d = false := by
  generalize hr : Region.code = region
  fun_cases uncomment region cs with
  | case1 => simp
  | case2 | case3 =>
    rintro d ⟨⟩
    decide
  | case4 c cs _ _ => exact h
  | case5 | case6 | case7 | case8 => cases hr

end Uncomment

/-! ### Words -/

section Words

variable {run cs word : List Char} {words : List (List Char)}

theorem splitOnP_append_of_not {p : Char → Bool} (hrun : ∀ c ∈ run, p c = false)
    (hcs : cs.splitOnP p = word :: words) : (run ++ cs).splitOnP p = (run ++ word) :: words := by
  induction run with
  | nil => exact hcs
  | cons c run ih =>
    obtain ⟨hc, hrun⟩ := List.forall_mem_cons.mp hrun
    rw [List.cons_append, List.splitOnP_cons_eq_if_modifyHead, if_neg (by simp [hc]), ih hrun]
    rfl

theorem mem_head?_of_splitOnP (hcs : cs.splitOnP Text.isBlank = word :: words) {d : Char}
    (hd : d ∈ word.head?) : d ∈ cs.head? ∧ Text.isBlank d = false := by
  cases cs with
  | nil =>
    cases hcs
    cases hd
  | cons c cs =>
    rw [List.splitOnP_cons_eq_if_modifyHead] at hcs
    by_cases hc : Text.isBlank c = true
    · rw [if_pos hc] at hcs
      cases hcs
      cases hd
    · obtain ⟨rest, words', hrest⟩ :=
        List.exists_cons_of_ne_nil (List.splitOnP_ne_nil Text.isBlank cs)
      rw [if_neg hc, hrest] at hcs
      cases hcs
      cases hd
      exact ⟨rfl, by simpa using hc⟩

theorem wordPieces_blanks (hrun : ∀ c ∈ run, Text.isBlank c = true) :
    wordPieces (run ++ cs) = wordPieces cs := by
  induction run with
  | nil => rfl
  | cons c run ih =>
    obtain ⟨hc, hrun⟩ := List.forall_mem_cons.mp hrun
    rw [List.cons_append, wordPieces, List.splitOnP_cons_eq_if_modifyHead, if_pos hc]
    exact ih hrun

/-- A run without blanks stays apart from what follows it unless two characters of one word meet. -/
theorem wordPieces_append (hrun : ∀ c ∈ run, Text.isBlank c = false)
    (h : ∀ c ∈ run.getLast?, ∀ d ∈ cs.head?, (isWordChar c && isWordChar d) = false) :
    wordPieces (run ++ cs) = pieces (String.ofList run) ++ wordPieces cs := by
  obtain ⟨word, words, hcs⟩ := List.exists_cons_of_ne_nil (List.splitOnP_ne_nil Text.isBlank cs)
  have hpieces : pieces (String.ofList (run ++ word)) =
      pieces (String.ofList run) ++ pieces (String.ofList word) := by
    rw [String.ofList_append]
    refine pieces_append fun c hc d hd => ?_
    rw [String.toList_ofList] at hc hd
    obtain ⟨hd, hblank⟩ := mem_head?_of_splitOnP hcs hd
    have hmeet := h c hc d hd
    rwa [isWordChar, isWordChar, hrun c (List.mem_of_getLast? hc), hblank] at hmeet
  rw [wordPieces, wordPieces, splitOnP_append_of_not hrun hcs, hcs, List.map_cons, List.map_cons,
    List.flatMap_cons, List.flatMap_cons, hpieces, List.append_assoc]

end Words

/-! ### Lexemes -/

section Lexemes

variable {c : Char} {cs : List Char}

theorem ne_slash_of_isBlank (h : Text.isBlank c = true) : c ≠ '/' := by
  rintro rfl
  cases h

theorem ne_slash_of_isWordChar (h : isWordChar c = true) : c ≠ '/' := by
  rintro rfl
  cases h

theorem wordPieces_blank_lexeme (hc : Text.isBlank c = true) :
    wordPieces (uncomment .code (c :: cs)) =
      wordPieces (uncomment .code (cs.dropWhile Text.isBlank)) := by
  have hrun : ∀ d ∈ c :: cs.takeWhile Text.isBlank, Text.isBlank d = true :=
    List.forall_mem_cons.mpr ⟨hc, List.all_eq_true.mp List.all_takeWhile⟩
  conv =>
    lhs
    rw [← List.takeWhile_append_dropWhile (p := Text.isBlank) (l := cs), ← List.cons_append]
  rw [uncomment_append fun d hd => ne_slash_of_isBlank (hrun d hd), wordPieces_blanks hrun]

theorem wordPieces_mark_lexeme (hc : isMark c = true)
    (hcons : uncomment .code (c :: cs) = c :: uncomment .code cs) :
    wordPieces (uncomment .code (c :: cs)) =
      String.ofList [c] :: wordPieces (uncomment .code cs) := by
  have hpieces : pieces (String.ofList [c]) = [String.ofList [c]] := by
    rw [pieces, String.toList_ofList]
    rfl
  have happend : wordPieces ([c] ++ uncomment .code cs) =
      pieces (String.ofList [c]) ++ wordPieces (uncomment .code cs) :=
    wordPieces_append (by simpa using isBlank_of_isMark hc) (by simp [isWordChar, hc])
  rw [hcons, ← List.singleton_append, happend, hpieces]
  rfl

theorem wordPieces_word_lexeme (hc : isWordChar c = true) :
    wordPieces (uncomment .code (c :: cs)) = String.ofList (c :: cs.takeWhile isWordChar) ::
      wordPieces (uncomment .code (cs.dropWhile isWordChar)) := by
  have hrun : ∀ d ∈ c :: cs.takeWhile isWordChar, isWordChar d = true :=
    List.forall_mem_cons.mpr ⟨hc, List.all_eq_true.mp List.all_takeWhile⟩
  have hplain (d : Char) (hd : d ∈ c :: cs.takeWhile isWordChar) :
      Text.isBlank d = false ∧ isMark d = false := by
    have hd := hrun d hd
    simpa [isWordChar] using hd
  have hstop : ∀ d ∈ (cs.dropWhile isWordChar).head?, isWordChar d = false := by
    intro d hd
    have hnot := List.head?_dropWhile_not isWordChar cs
    rwa [hd] at hnot
  have hpieces : pieces (String.ofList (c :: cs.takeWhile isWordChar)) =
      [String.ofList (c :: cs.takeWhile isWordChar)] := by
    refine pieces_eq_singleton (by simp) fun d hd => (hplain d ?_).2
    rwa [String.toList_ofList] at hd
  have happend : wordPieces ((c :: cs.takeWhile isWordChar) ++
      uncomment .code (cs.dropWhile isWordChar)) =
        pieces (String.ofList (c :: cs.takeWhile isWordChar)) ++
          wordPieces (uncomment .code (cs.dropWhile isWordChar)) := by
    refine wordPieces_append (fun d hd => (hplain d hd).1) fun d _ d' hd' => ?_
    rw [isWordChar_head?_uncomment hstop d' hd', Bool.and_false]
  conv =>
    lhs
    rw [← List.takeWhile_append_dropWhile (p := isWordChar) (l := cs), ← List.cons_append]
  rw [uncomment_append fun d hd => ne_slash_of_isWordChar (hrun d hd), happend, hpieces]
  rfl

/-- A lexeme that is kept is the next piece of the text, and any other leaves no trace. -/
theorem wordPieces_lexeme (c : Char) (cs : List Char) :
    wordPieces (uncomment .code (c :: cs)) =
      (if (lexeme c cs).kept then [String.ofList (lexeme c cs).chars] else []) ++
        wordPieces (uncomment .code (lexeme c cs).rest) := by
  have hblank : ∀ d ∈ [' '], Text.isBlank d = true := List.forall_mem_singleton.mpr rfl
  unfold lexeme
  split
  · rw [uncomment, uncomment_line]
    exact wordPieces_blanks hblank
  · rw [uncomment, uncomment_block]
    exact wordPieces_blanks hblank
  · rename_i hline hblock
    by_cases hc : Text.isBlank c = true
    · rw [if_pos hc]
      exact wordPieces_blank_lexeme hc
    rw [if_neg hc]
    by_cases hmark : isMark c = true
    · rw [if_pos hmark]
      exact wordPieces_mark_lexeme hmark (by rw [uncomment] <;> assumption)
    · rw [if_neg hmark]
      exact wordPieces_word_lexeme (by simp [isWordChar, hc, hmark])

theorem texts_scanFrom (p : Position) (cs : List Char) :
    texts (scanFrom p cs) = wordPieces (uncomment .code cs) := by
  fun_induction scanFrom p cs with
  | case1 p => rfl
  | case2 p c cs l rest hkept ih =>
    rw [wordPieces_lexeme, if_pos hkept, texts_cons, ih]
    rfl
  | case3 p c cs l rest hkept ih =>
    rw [wordPieces_lexeme, if_neg hkept, ih]
    rfl

end Lexemes

theorem not_mem_wordPieces (cs : List Char) : "" ∉ wordPieces cs := by
  intro h
  obtain ⟨word, -, hword⟩ := List.mem_flatMap.mp h
  obtain ⟨piece, hpiece, hnil⟩ := List.mem_map.mp hword
  rw [String.ofList_eq_empty_iff.mp hnil] at hpiece
  exact List.nil_notMem_splitBy _ _ hpiece

/-- The tokens of a text are the pieces of its words once the comments are gone; none is empty. -/
theorem texts_scan_eq_wordPieces (text : String) :
    texts (scan text) = wordPieces (uncomment .code text.toList) ∧ "" ∉ texts (scan text) := by
  have htexts : texts (scan text) = wordPieces (uncomment .code text.toList) := texts_scanFrom _ _
  refine ⟨htexts, ?_⟩
  rw [htexts]
  exact not_mem_wordPieces _

end Parley.Token
