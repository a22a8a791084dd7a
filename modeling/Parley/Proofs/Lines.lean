import Mathlib.Data.List.Basic
import Parley.Text.Lines

/-! Lines of a text. A line end starts the count afresh, so the lines of what stands behind it are
lines of the whole; hence whatever is joined into a text as a line is found again among its lines. -/

namespace Parley.Text

/-- What stands by itself as a line: it is not empty, and no line end is seen in it or begins at its
end. -/
structure IsLine (line : List Char) : Prop where
  ne_nil : line ≠ []
  newline_not_mem : '\n' ∉ line
  getLast?_ne : line.getLast? ≠ some '\r'

theorem splitLines_cons_of_ne {c : Char} {cs line : List Char} {lines : List (List Char)}
    (hc : c ≠ '\n') (hcr : ∀ ds, c = '\r' → cs ≠ '\n' :: ds) (h : splitLines cs = line :: lines) :
    splitLines (c :: cs) = (c :: line) :: lines := by
  rw [splitLines]
  · rw [h]
  · exact hc
  · intro ds hr hd
    exact hcr ds hr hd

/-- One more character changes the first line of a text or adds a line before it. -/
theorem exists_splitLines_cons (c : Char) {cs line : List Char} {lines : List (List Char)}
    (h : splitLines cs = line :: lines) :
    ∃ first more, splitLines (c :: cs) = first :: (more ++ lines) := by
  by_cases hc : c = '\n'
  · refine ⟨[], [line], ?_⟩
    rw [hc, splitLines, h]
    rfl
  by_cases hcr : ∃ ds, c = '\r' ∧ cs = '\n' :: ds
  · obtain ⟨ds, rfl, rfl⟩ := hcr
    rw [splitLines] at h
    refine ⟨[], [], ?_⟩
    rw [splitLines, (List.cons.inj h).2]
    rfl
  · refine ⟨c :: line, [], ?_⟩
    exact splitLines_cons_of_ne hc (fun ds hr hd => hcr ⟨ds, hr, hd⟩) h

theorem exists_splitLines_append (xs ys : List Char) :
    ∃ first more, splitLines (xs ++ '\n' :: ys) = first :: (more ++ splitLines ys) := by
  induction xs with
  | nil => exact ⟨[], [], by rw [List.nil_append, splitLines]; rfl⟩
  | cons x xs ih =>
    obtain ⟨first, more, h⟩ := ih
    obtain ⟨first', more', h'⟩ := exists_splitLines_cons x h
    exact ⟨first', more' ++ more, by rw [List.cons_append, h', List.append_assoc]⟩

theorem exists_splitLines_joinLines (before : List String) (line : String) (after : List String) :
    ∃ front, splitLines (joinLines (before ++ line :: after)).toList =
      front ++ splitLines (joinLines (line :: after)).toList := by
  by_cases hb : before = []
  · exact ⟨[], by rw [hb]; rfl⟩
  · have htext : (joinLines (before ++ line :: after)).toList =
        (joinLines before).toList ++ '\n' :: (joinLines (line :: after)).toList := by
      rw [joinLines, String.intercalate_append_of_ne_nil hb (List.cons_ne_nil _ _)]
      simp [joinLines]
    obtain ⟨first, more, hsplit⟩ := exists_splitLines_append (joinLines before).toList
      (joinLines (line :: after)).toList
    exact ⟨first :: more, by rw [htext, hsplit]; rfl⟩

theorem toList_joinLines_cons (line : String) (after : List String) :
    (joinLines (line :: after)).toList =
      line.toList ++ (if after = [] then [] else '\n' :: (joinLines after).toList) := by
  cases after with
  | nil => simp [joinLines]
  | cons next after => simp [joinLines, String.intercalate_cons_cons]

theorem IsLine.append {line : List Char} (h : IsLine line) {front : List Char}
    (hfront : '\n' ∉ front) : IsLine (front ++ line) := by
  refine ⟨by simp [h.ne_nil], by simp [hfront, h.newline_not_mem], ?_⟩
  rw [List.getLast?_append_of_ne_nil _ h.ne_nil]
  exact h.getLast?_ne

theorem IsLine.toList_indentLine {line : List Char} (h : IsLine line) :
    (indentLine line).toList = [' ', ' ', ' ', ' '] ++ line := by
  simp [indentLine, h.ne_nil]

theorem IsLine.indentLine {line : List Char} (h : IsLine line) :
    IsLine (indentLine line).toList := by
  rw [h.toList_indentLine]
  exact h.append (by decide)

/-! ### How lines begin -/

/-- Some line begins like this, whatever its indentation. -/
def Opens (lines : List (List Char)) (head : List Char) : Prop :=
  ∃ line ∈ lines, ∃ n, List.replicate n ' ' ++ head <+: line

theorem opens_of_mem {lines : List (List Char)} {line head : List Char} (hline : line ∈ lines)
    (h : head <+: line) : Opens lines head :=
  ⟨line, hline, 0, h⟩

theorem Opens.mono {lines lines' : List (List Char)} {head : List Char} (h : Opens lines head)
    (hsub : lines ⊆ lines') : Opens lines' head := by
  obtain ⟨line, hline, n, hhead⟩ := h
  exact ⟨line, hsub hline, n, hhead⟩

/-- What stands by itself as a line begins one, whatever follows it. -/
theorem IsLine.exists_splitLines_append {head : List Char} (h : IsLine head) (ys : List Char) :
    ∃ back lines, splitLines (head ++ ys) = (head ++ back) :: lines := by
  obtain ⟨hne, hn, hr⟩ := h
  induction head with
  | nil => exact absurd rfl hne
  | cons c cs ih =>
    obtain ⟨hc, hcs⟩ : '\n' ≠ c ∧ '\n' ∉ cs := by simpa using hn
    cases cs with
    | nil =>
      have hcr : c ≠ '\r' := by simpa using hr
      cases hys : splitLines ys with
      | nil =>
        refine ⟨[], [], ?_⟩
        rw [List.singleton_append, splitLines, hys]
        · rfl
        · exact hc.symm
        · intro ds hr' _
          exact hcr hr'
      | cons line lines =>
        exact ⟨line, lines, splitLines_cons_of_ne hc.symm (fun _ he => absurd he hcr) hys⟩
    | cons d cs =>
      have hlast : (d :: cs).getLast? ≠ some '\r' := by rwa [List.getLast?_cons_cons] at hr
      obtain ⟨back, lines, hsplit⟩ := ih (List.cons_ne_nil _ _) hcs hlast
      refine ⟨back, lines, splitLines_cons_of_ne hc.symm ?_ hsplit⟩
      intro ds _ hd
      exact hcs ((List.cons.inj hd).1 ▸ List.mem_cons_self)

theorem Opens.joinLines {lines : List String} {head : List Char}
    (h : Opens (lines.map String.toList) head) (hhead : IsLine head) :
    Opens (splitLines (joinLines lines).toList) head := by
  obtain ⟨_, hmapped, n, back, hline⟩ := h
  obtain ⟨line, hmem, rfl⟩ := List.mem_map.mp hmapped
  obtain ⟨before, after, rfl⟩ := List.append_of_mem hmem
  obtain ⟨front, hsplit⟩ := exists_splitLines_joinLines before line after
  have hindented : IsLine (List.replicate n ' ' ++ head) := hhead.append (by simp)
  rw [toList_joinLines_cons, ← hline, List.append_assoc] at hsplit
  obtain ⟨rest, more, hrest⟩ := hindented.exists_splitLines_append
    (back ++ if after = [] then [] else '\n' :: (Text.joinLines after).toList)
  rw [hsplit, hrest]
  exact ⟨_, List.mem_append_right front List.mem_cons_self, n, List.prefix_append _ _⟩

theorem Opens.indent {text : String} {head : List Char} (h : Opens (splitLines text.toList) head)
    (hhead : IsLine head) : Opens ((indent text).map String.toList) head := by
  obtain ⟨line, hline, n, back, rfl⟩ := h
  refine ⟨_, List.mem_map_of_mem (List.mem_map_of_mem hline), n + 4, back, ?_⟩
  simp [indentLine, hhead.ne_nil, List.replicate_succ]

end Parley.Text
