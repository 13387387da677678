import FlowSketch.Text.Blank
import Mathlib.Data.List.Basic

/-!
# Lines

A line feed is blank itself, so cutting a text into lines loses no character that is not. The lines
of two texts with a line feed between them are those of the one and those of the other, so they are
counted one text at a time; a text without a line feed is a single line, whatever else is in it.

Results:

* `Text.lines_blank_iff`: a text is blank exactly when each of its lines is.
* `Text.countLines_eq_zero_iff`: a text without a line to count is blank.
* `Text.countLines_append`: the lines of two texts on top of each other.
* `Text.countLines_le_one`: a text without a line feed.
* `Text.countLines_insert_blank`: other separators have no part in the count.
-/

namespace FlowSketch.Text

/-- Cutting at a character of a class keeps all others. -/
theorem all_splitOn_iff {sep : Char} {isIn : Char → Bool} (hsep : isIn sep = true)
    (cs : List Char) :
    (∀ piece ∈ cs.splitOn sep, piece.all isIn = true) ↔ cs.all isIn = true := by
  unfold List.splitOn
  induction cs with
  | nil => simp
  | cons c cs ih =>
    rw [List.splitOnP_cons_eq_if_modifyHead, List.all_cons]
    split_ifs with hc
    · rw [eq_of_beq hc, List.forall_mem_cons, ih, hsep]
      simp
    · -- the character is put in front of the first piece, and there always is one
      obtain ⟨piece, pieces, hpieces⟩ :=
        List.exists_cons_of_ne_nil (List.splitOnP_ne_nil (· == sep) cs)
      rw [hpieces, List.forall_mem_cons] at ih
      rw [hpieces, List.modifyHead_cons, List.forall_mem_cons, List.all_cons, Bool.and_eq_true,
        Bool.and_eq_true, ← ih, and_assoc]

/-- A text is blank exactly when each of its lines is. -/
theorem lines_blank_iff {s : String} :
    (∀ line ∈ lines s, line.all isBlank = true) ↔ blankOnly s = true :=
  all_splitOn_iff (by decide) s.toList

/-- A text without a line to count is blank. -/
theorem countLines_eq_zero_iff {s : String} : countLines s = 0 ↔ blankOnly s = true := by
  rw [← lines_blank_iff, countLines, List.countP_eq_zero]
  simp

/-- A line feed ends the last line of the text before it and begins the first of the next. -/
theorem lines_append (a b : String) : lines (a ++ "\n" ++ b) = lines a ++ lines b := by
  have hlist : (a ++ "\n" ++ b).toList = a.toList ++ '\n' :: b.toList := by simp
  rw [lines, hlist, List.splitOn_append_cons_self, lines, lines]

theorem countLines_append (a b : String) :
    countLines (a ++ "\n" ++ b) = countLines a + countLines b := by
  rw [countLines, lines_append, List.countP_append, countLines, countLines]

/-- Nothing but a line feed starts a new line. -/
theorem lines_of_not_mem {s : String} (h : '\n' ∉ s.toList) : lines s = [s.toList] :=
  List.splitOn_eq_singleton h

theorem countLines_le_one {s : String} (h : '\n' ∉ s.toList) : countLines s ≤ 1 := by
  rw [countLines, lines_of_not_mem h]
  exact List.countP_le_length

/-- A character in front of the first piece of several. -/
theorem map_all_modifyHead_cons (c : Char) (pieces : List (List Char)) :
    (pieces.modifyHead (c :: ·)).map (·.all isBlank) =
      (pieces.map (·.all isBlank)).modifyHead (isBlank c && ·) := by
  cases pieces <;> simp

/-- A blank that is no line feed only makes the line it stands in longer. -/
theorem map_all_splitOn_blank {c : Char} (hc : isBlank c = true) (hne : c ≠ '\n')
    (as bs : List Char) :
    ((as ++ c :: bs).splitOn '\n').map (·.all isBlank) =
      ((as ++ bs).splitOn '\n').map (·.all isBlank) := by
  unfold List.splitOn
  induction as with
  | nil =>
    rw [List.nil_append, List.nil_append, List.splitOnP_cons_eq_if_modifyHead,
      if_neg (by simpa using hne), map_all_modifyHead_cons, hc]
    simp only [Bool.true_and]
    exact congrFun List.modifyHead_id _
  | cons a as ih =>
    rw [List.cons_append, List.cons_append, List.splitOnP_cons_eq_if_modifyHead,
      List.splitOnP_cons_eq_if_modifyHead]
    split_ifs
    · rw [List.map_cons, ih, List.map_cons]
    · rw [map_all_modifyHead_cons, ih, map_all_modifyHead_cons]

theorem countLines_eq_count (s : String) :
    countLines s = ((lines s).map (·.all isBlank)).count false := by
  rw [List.count, List.countP_map, countLines]
  congr 1
  funext line
  simp

/-- No other separator has a part in the count. -/
theorem countLines_insert_blank {c : Char} (hc : isBlank c = true) (hne : c ≠ '\n') (a b : String) :
    countLines (a ++ String.singleton c ++ b) = countLines (a ++ b) := by
  have hlist : (a ++ String.singleton c ++ b).toList = a.toList ++ c :: b.toList := by simp
  rw [countLines_eq_count, lines, hlist, map_all_splitOn_blank hc hne, ← String.toList_append,
    countLines_eq_count, lines]

end FlowSketch.Text
