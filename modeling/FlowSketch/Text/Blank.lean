/-!
# Blank characters

The text rules that every label, name and line count rests on: which characters are blank, and
how text is trimmed and collapsed by them.

* `isBlank` — the white space of Unicode, together with the four ASCII separators.
* `trim`, `trimStart`, `trimEnd` — blanks taken off the ends.
* `collapse` — every run of blanks becomes one space and the ends lose theirs.
* `blankOnly` — nothing but blanks.

Results:

* `isBlank_of_isWhitespace`: the blanks include every ASCII white space character.
* `trimStart_eq_nil_iff`, `blankOnly_iff`: a text trims to nothing exactly when it is blank.
-/

namespace FlowSketch.Text

/-- A blank character: the ASCII controls U+0009 to U+000D and U+001C to U+001F, and the
    characters with the Unicode property `White_Space`. -/
def isBlank (c : Char) : Bool :=
  let n := c.toNat
  (0x9 ≤ n && n ≤ 0xD) || (0x1C ≤ n && n ≤ 0x20) || n == 0x85 || n == 0xA0 || n == 0x1680 ||
    (0x2000 ≤ n && n ≤ 0x200A) || n == 0x2028 || n == 0x2029 || n == 0x202F || n == 0x205F ||
    n == 0x3000

theorem isBlank_of_isWhitespace {c : Char} (h : c.isWhitespace = true) : isBlank c = true := by
  simp only [Char.isWhitespace, Bool.or_eq_true, decide_eq_true_eq] at h
  rcases h with ((rfl | rfl) | rfl) | rfl <;> decide

/-! ## Trimming -/

/-- The text without its leading blanks. -/
def trimStart (cs : List Char) : List Char := cs.dropWhile isBlank

/-- The text without its trailing blanks. -/
def trimEnd (cs : List Char) : List Char := (cs.reverse.dropWhile isBlank).reverse

/-- The text without blanks at either end. -/
def trim (cs : List Char) : List Char := trimEnd (trimStart cs)

theorem trimStart_eq_nil_iff {cs : List Char} :
    trimStart cs = [] ↔ ∀ c ∈ cs, isBlank c = true := by
  induction cs with
  | nil => simp [trimStart]
  | cons c cs ih =>
    rw [trimStart, List.forall_mem_cons]
    by_cases h : isBlank c = true
    · rw [List.dropWhile_cons_of_pos h, ← trimStart, ih]
      exact (and_iff_right h).symm
    · rw [List.dropWhile_cons_of_neg h]
      exact iff_of_false (List.cons_ne_nil c cs) (fun hall => h hall.1)

/-- Nothing but blanks. -/
def blankOnly (s : String) : Bool := s.toList.all isBlank

theorem blankOnly_iff {s : String} : blankOnly s = true ↔ trimStart s.toList = [] := by
  simp [blankOnly, trimStart_eq_nil_iff]

/-- `trim` on strings. -/
def strip (s : String) : String := String.ofList (trim s.toList)

/-! ## Collapsing -/

/-- The maximal runs of characters that are not blank. -/
def words (cs : List Char) : List (List Char) :=
  (cs.splitOnP isBlank).filter (fun w => !w.isEmpty)

/-- The words of the text with one space between neighbours, so that a statement spread over several
    lines reads as one label. Model of `_clean`. -/
def collapse (s : String) : String := String.ofList ([' '].intercalate (words s.toList))

/-! ## Lines -/

/-- The pieces between line feeds; no other separator starts a new line. -/
def lines (s : String) : List (List Char) := s.toList.splitOn '\n'

/-- The number of lines that hold at least one character that is not blank. Model of
    `count_source_lines`. -/
def countLines (s : String) : Nat := (lines s).countP (fun l => !l.all isBlank)

end FlowSketch.Text
