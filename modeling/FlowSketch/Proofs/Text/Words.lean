import FlowSketch.Text.Blank
import Mathlib.Data.List.Chain
import Mathlib.Data.List.DropRight
import Mathlib.Data.List.Pairwise
import Mathlib.Data.List.TakeWhile

/-!
# Words and normal text

A text is collapsed by taking its words and putting one space between neighbours. Whether a text is
of that form can be seen from its characters, without taking it apart: its only blanks are single
spaces between other characters. Such texts stay as they are when they are collapsed.

* `Text.IsNormal` — the only blanks are single spaces between other characters.

Results:

* `Text.isNormal_collapse`, `Text.collapse_eq_self_iff`: the normal texts are those that collapsing
  gives, and those that it leaves as they are.
* `Text.IsNormal.append`, `Text.IsNormal.append_space`: texts put together from normal ones.
* `Text.trimEnd_spec`: what is left of a text without the blanks at its end.
* `Text.IsNormal.trim_front`: what is left of a normal text when its end is cut off.
-/

namespace FlowSketch.Text

/-- The only blanks are spaces, no two of them are next to each other, and none is at an end. -/
structure IsNormal (cs : List Char) : Prop where
  spaces : ∀ c ∈ cs, isBlank c = true → c = ' '
  apart : cs.IsChain (fun a b => isBlank a = true → isBlank b = false)
  head : ∀ c ∈ cs.head?, isBlank c = false
  last : ∀ c ∈ cs.getLast?, isBlank c = false

variable {cs ds : List Char}

/-! ## Texts put together -/

theorem isNormal_nil : IsNormal [] := ⟨by simp, .nil, by simp, by simp⟩

/-- A text without blanks is normal. -/
theorem isNormal_of_solid (h : ∀ c ∈ cs, isBlank c = false) : IsNormal cs where
  spaces c hc hblank := by
    rw [h c hc] at hblank
    contradiction
  apart := List.Pairwise.isChain (List.pairwise_of_forall_mem_list fun _ _ b hb _ => h b hb)
  head c hc := h c (List.mem_of_mem_head? hc)
  last c hc := h c (List.mem_of_getLast? hc)

/-- Nothing comes together where two normal texts meet. -/
theorem IsNormal.append (hcs : IsNormal cs) (hds : IsNormal ds) : IsNormal (cs ++ ds) where
  spaces c hc := (List.mem_append.1 hc).elim (hcs.spaces c) (hds.spaces c)
  apart := List.isChain_append.2 ⟨hcs.apart, hds.apart, fun _ _ b hb _ => hds.head b hb⟩
  head c hc := by
    rw [List.head?_append, Option.mem_def, Option.or_eq_some_iff] at hc
    exact hc.elim (hcs.head c) fun hc => hds.head c hc.2
  last c hc := by
    rw [List.getLast?_append, Option.mem_def, Option.or_eq_some_iff] at hc
    exact hc.elim (hds.last c) fun hc => hcs.last c hc.2

/-- One space may stand between two normal texts that are not empty. -/
theorem IsNormal.append_space (hcs : IsNormal cs) (hds : IsNormal ds) (hne : cs ≠ [])
    (hne' : ds ≠ []) : IsNormal (cs ++ ' ' :: ds) where
  spaces c hc := by
    rcases List.mem_append.1 hc with hc | hc
    · exact hcs.spaces c hc
    · rcases List.mem_cons.1 hc with rfl | hc
      · exact fun _ => rfl
      · exact hds.spaces c hc
  apart := by
    refine List.isChain_append.2 ⟨hcs.apart, List.isChain_cons.2 ⟨fun b hb _ => hds.head b hb,
      hds.apart⟩, fun a ha _ _ hblank => ?_⟩
    rw [hcs.last a ha] at hblank
    contradiction
  head c hc := by
    rw [List.head?_append_of_ne_nil _ hne] at hc
    exact hcs.head c hc
  last c hc := by
    rw [List.getLast?_append_of_ne_nil _ (List.cons_ne_nil ' ' ds), List.getLast?_cons,
      List.getLast?_eq_some_getLast hne', Option.getD_some] at hc
    exact hds.last c (by rwa [List.getLast?_eq_some_getLast hne'])

/-- What stands behind a space of a normal text is normal. -/
theorem IsNormal.behind_space (h : IsNormal (cs ++ ' ' :: ds)) : IsNormal ds := by
  obtain ⟨-, hchain, -⟩ := List.isChain_append.1 h.apart
  obtain ⟨hhead, hchain⟩ := List.isChain_cons.1 hchain
  refine ⟨fun c hc => h.spaces c (by simp [hc]), hchain, fun c hc => hhead c hc (by decide),
    fun c hc => h.last c ?_⟩
  rw [Option.mem_def] at hc
  simp [List.getLast?_append, List.getLast?_cons, hc]

/-! ## Words -/

/-- A blank belongs to no word and ends the one before it. -/
theorem words_append_blank {b : Char} (hb : isBlank b = true) (cs ds : List Char) :
    words (cs ++ b :: ds) = words cs ++ words ds := by
  unfold words
  rw [List.splitOnP_append_cons cs ds hb, List.filter_append]

/-- A text without blanks is one word. -/
theorem words_of_solid (hne : cs ≠ []) (h : ∀ c ∈ cs, isBlank c = false) : words cs = [cs] := by
  rw [words, List.splitOnP_eq_singleton h]
  simp [hne]

theorem isBlank_of_mem_splitOnP {piece : List Char} (h : piece ∈ cs.splitOnP isBlank) :
    ∀ c ∈ piece, isBlank c = false := by
  induction cs generalizing piece with
  | nil =>
    rw [List.splitOnP_nil, List.mem_singleton] at h
    simp [h]
  | cons d cs ih =>
    rw [List.splitOnP_cons_eq_if_modifyHead] at h
    split_ifs at h with hd
    · rcases List.mem_cons.1 h with rfl | h
      · simp
      · exact ih h
    · -- the character is put in front of the first piece, and there always is one
      obtain ⟨first, rest, hpieces⟩ := List.exists_cons_of_ne_nil (List.splitOnP_ne_nil isBlank cs)
      rw [hpieces] at ih h
      rcases List.mem_cons.1 h with rfl | h
      · exact List.forall_mem_cons.2 ⟨by simpa using hd, ih List.mem_cons_self⟩
      · exact ih (List.mem_cons_of_mem first h)

/-- A word is not empty and holds no blank. -/
theorem solid_of_mem_words {w : List Char} (h : w ∈ words cs) :
    w ≠ [] ∧ ∀ c ∈ w, isBlank c = false := by
  obtain ⟨hw, hne⟩ := List.mem_filter.1 h
  exact ⟨by simpa using hne, isBlank_of_mem_splitOnP hw⟩

/-- Words with one space between neighbours are a normal text, which is empty only if there are
    none. -/
theorem isNormal_intercalate {ws : List (List Char)}
    (h : ∀ w ∈ ws, w ≠ [] ∧ ∀ c ∈ w, isBlank c = false) :
    IsNormal ([' '].intercalate ws) ∧ ([' '].intercalate ws = [] → ws = []) := by
  induction ws with
  | nil => exact ⟨isNormal_nil, fun _ => rfl⟩
  | cons w ws ih =>
    obtain ⟨⟨hne, hsolid⟩, hws⟩ := List.forall_mem_cons.1 h
    obtain ⟨hrest, hnil⟩ := ih hws
    cases ws with
    | nil =>
      rw [List.intercalate_singleton]
      exact ⟨isNormal_of_solid hsolid, fun hempty => absurd hempty hne⟩
    | cons v ws =>
      rw [List.intercalate_cons_cons, List.append_assoc, List.singleton_append]
      refine ⟨(isNormal_of_solid hsolid).append_space hrest hne fun hempty => ?_, by simp⟩
      exact List.cons_ne_nil v ws (hnil hempty)

/-- A text has no words exactly when it is blank. -/
theorem words_eq_nil_iff : words cs = [] ↔ ∀ c ∈ cs, isBlank c = true := by
  induction cs with
  | nil => simp [words]
  | cons c cs ih =>
    rw [words] at ih
    rw [words, List.splitOnP_cons_eq_if_modifyHead, List.forall_mem_cons]
    split_ifs with hc
    · simpa [hc] using ih
    · obtain ⟨first, rest, hpieces⟩ := List.exists_cons_of_ne_nil (List.splitOnP_ne_nil isBlank cs)
      simp [hpieces, hc]

/-! ## Collapsing -/

theorem toList_collapse (s : String) :
    (collapse s).toList = [' '].intercalate (words s.toList) := by
  rw [collapse, String.toList_ofList]

theorem isNormal_collapse (s : String) : IsNormal (collapse s).toList := by
  rw [toList_collapse]
  exact (isNormal_intercalate fun _ => solid_of_mem_words).1

/-- A normal text is its own words with one space between neighbours. -/
theorem intercalate_words (h : IsNormal cs) : [' '].intercalate (words cs) = cs := by
  -- the induction is on the words: the first is all that comes before the first space
  induction hlength : cs.length using Nat.strongRecOn generalizing cs with
  | ind length ih =>
    have hsplit := List.takeWhile_append_dropWhile (p := fun c => !isBlank c) (l := cs)
    have hsolid : ∀ c ∈ cs.takeWhile (fun c => !isBlank c), isBlank c = false := fun c hc => by
      simpa using List.mem_takeWhile_imp hc
    have hstop := List.head?_dropWhile_not (fun c => !isBlank c) cs
    generalize cs.takeWhile (fun c => !isBlank c) = w at hsplit hsolid
    generalize cs.dropWhile (fun c => !isBlank c) = rest at hsplit hstop
    subst hsplit
    cases rest with
    | nil =>
      rw [List.append_nil]
      cases w with
      | nil => rfl
      | cons c w =>
        rw [words_of_solid (List.cons_ne_nil c w) hsolid, List.intercalate_singleton]
    | cons b ds =>
      have hb : isBlank b = true := by simpa using hstop
      obtain rfl : b = ' ' := h.spaces b (by simp) hb
      have hne : w ≠ [] := by
        rintro rfl
        exact absurd (h.head ' ' rfl) (by decide)
      have hne' : ds ≠ [] := by
        rintro rfl
        exact absurd (h.last ' ' (by simp)) (by decide)
      have hrest : [' '].intercalate (words ds) = ds := by
        refine ih ds.length ?_ h.behind_space rfl
        rw [← hlength, List.length_append, List.length_cons]
        omega
      rw [words_append_blank hb, words_of_solid hne hsolid, List.singleton_append]
      cases hwords : words ds with
      | nil =>
        rw [hwords] at hrest
        exact absurd hrest.symm hne'
      | cons v vs =>
        rw [List.intercalate_cons_cons, ← hwords, hrest, List.append_assoc, List.singleton_append]

/-- Collapsing leaves the normal texts as they are, and no others. -/
theorem collapse_eq_self_iff {s : String} : collapse s = s ↔ IsNormal s.toList := by
  constructor
  · intro h
    rw [← h]
    exact isNormal_collapse s
  · intro h
    rw [← String.toList_inj, toList_collapse, intercalate_words h]

/-- A text collapses to nothing exactly when it is blank. -/
theorem collapse_eq_empty_iff {s : String} : collapse s = "" ↔ blankOnly s = true := by
  rw [← String.toList_inj, toList_collapse, String.toList_empty, blankOnly, List.all_eq_true,
    ← words_eq_nil_iff]
  constructor
  · exact (isNormal_intercalate fun _ => solid_of_mem_words).2
  · intro h
    rw [h]
    rfl

/-! ## Cutting off the end -/

theorem trim_sublist (cs : List Char) : (trim cs).Sublist cs :=
  (List.rdropWhile_prefix isBlank _).sublist.trans (List.dropWhile_suffix isBlank).sublist

/-- A text trims to nothing exactly when it is blank. -/
theorem trim_eq_nil_iff : trim cs = [] ↔ ∀ c ∈ cs, isBlank c = true := by
  have hend : trim cs = [] ↔ trimStart (trimStart cs).reverse = [] := List.reverse_eq_nil_iff
  have hstart : trimStart (trimStart cs) = trimStart cs := List.dropWhile_idempotent isBlank cs
  calc trim cs = []
      ↔ ∀ c ∈ (trimStart cs).reverse, isBlank c = true := by rw [hend, trimStart_eq_nil_iff]
    _ ↔ ∀ c ∈ trimStart cs, isBlank c = true := by simp only [List.mem_reverse]
    _ ↔ trimStart cs = [] := by rw [← trimStart_eq_nil_iff, hstart]
    _ ↔ ∀ c ∈ cs, isBlank c = true := trimStart_eq_nil_iff

theorem strip_eq_empty_iff {s : String} : strip s = "" ↔ blankOnly s = true := by
  rw [← String.toList_inj, strip, String.toList_ofList, String.toList_empty, trim_eq_nil_iff,
    blankOnly, List.all_eq_true]

/-- A text without the blanks at its end: only blanks are gone, and it ends with none. -/
theorem trimEnd_spec (cs : List Char) : ∃ blanks, trimEnd cs ++ blanks = cs ∧
    (∀ c ∈ blanks, isBlank c = true) ∧ ∀ c ∈ (trimEnd cs).getLast?, isBlank c = false := by
  refine ⟨cs.rtakeWhile isBlank, List.rdropWhile_append_rtakeWhile,
    fun c hc => List.mem_rtakeWhile_imp hc, fun c hc => ?_⟩
  rw [trimEnd, List.getLast?_reverse, Option.mem_def] at hc
  have hhead := List.head?_dropWhile_not isBlank cs.reverse
  rw [hc] at hhead
  exact hhead

/-- What is left of a normal text when its end is cut off, without blanks at the ends. -/
theorem IsNormal.trim_front (h : IsNormal cs) (hds : ds <+: cs) : IsNormal (trim ds) := by
  have hstart : trimStart ds = ds := by
    cases ds with
    | nil => rfl
    | cons d ds =>
      obtain ⟨rest, rfl⟩ := hds
      rw [trimStart, List.dropWhile_cons_of_neg]
      simp [h.head d rfl]
  obtain ⟨blanks, hcut, -, hlast⟩ := trimEnd_spec ds
  have hfront : trimEnd ds <+: cs := List.IsPrefix.trans ⟨blanks, hcut⟩ hds
  rw [trim, hstart]
  exact {
    spaces := fun c hc => h.spaces c (hfront.subset hc)
    apart := List.IsChain.prefix h.apart hfront
    head := fun c hc => h.head c (by
      obtain ⟨rest, rfl⟩ := hfront
      rw [Option.mem_def] at hc
      rw [Option.mem_def, List.head?_append, hc, Option.some_or])
    last := hlast }

end FlowSketch.Text
