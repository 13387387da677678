import FlowSketch.Proofs.Cst.Failing
import FlowSketch.Proofs.Cst.Nodes
import Mathlib.Tactic.SplitIfs

/-!
# The first fault of a source

The first fault is sought with a stack, and below those nodes only that say that they hold one. It
is the first in the order of the source among the faults that lie below such nodes and below no
other fault. Where the nodes say the truth, these are all that the search could come to, so that
nothing is missed.

* `Cst.seekFault` — the search with a stack.
* `Cst.placesBelow` — the nodes of a tree, each with the nodes above it.
* `Cst.isExposed` — a fault below no other one, that all nodes above it tell of.
* `Cst.MarksFaults` — every node says truly whether there is a fault at it or below.

Results:

* `Cst.seekFault_eq`: the search with a stack is the search by recursion.
* `Cst.map_snd_placesBelow`: the places are those of the nodes in the order of the source.
* `Cst.firstFault?_eq_exposed`: the search finds the first exposed fault.
* `Cst.firstFault?_eq_find?`: where the marks are true, the first fault of all.
* `Cst.first_fault`: so a source is refused exactly for a fault, at the place of the first.
-/

namespace FlowSketch.Cst

/-! ## The search with a stack -/

/-- The first fault, sought with a stack whose first node is looked at next. The children of a node
    take its place, so that they come before what was there already. -/
def seekFault : (stack : List Cst) → Option Cst
  | [] => none
  | n :: rest =>
    if n.isFault then some n
    else if n.faulty then seekFault (n.children ++ rest)
    else seekFault rest
termination_by stack => sizeAll stack
decreasing_by
  · have := size_eq n
    simp only [sizeAll_append, sizeAll]
    omega
  · have := size_eq n
    simp only [sizeAll]
    omega

/-- The search with a stack is the search by recursion in the nodes of the stack. -/
theorem seekFault_eq (stack : List Cst) : seekFault stack = stack.findSome? firstFault? := by
  induction stack using seekFault.induct with
  | case1 => rw [seekFault, List.findSome?_nil]
  | case2 n rest hfault =>
    rw [seekFault, if_pos hfault, List.findSome?_cons, firstFault?_eq, if_pos hfault]
  | case3 n rest hfault hfaulty ih =>
    rw [seekFault, if_neg hfault, if_pos hfaulty, ih, List.findSome?_append, List.findSome?_cons,
      firstFault?_eq, if_neg hfault, if_pos hfaulty]
    cases n.children.findSome? firstFault? <;> rfl
  | case4 n rest hfault hfaulty ih =>
    rw [seekFault, if_neg hfault, if_neg hfaulty, ih, List.findSome?_cons, firstFault?_eq,
      if_neg hfault, if_neg hfaulty]

/-! ## Places -/

/-- The nodes of a tree in the order of the source, each with the nodes above it, the nearest
    first; `above` holds those above the tree. -/
def placesBelow (above : List Cst) (n : Cst) : List (List Cst × Cst) :=
  (above, n) :: n.children.attach.flatMap fun c => placesBelow (n :: above) c.1
termination_by n.size
decreasing_by exact size_lt_of_mem c.2

/-- A node below which a fault is sought: it says that there is one, and is none itself. -/
def tellsOfFault (n : Cst) : Bool := n.faulty && !n.isFault

/-- A fault below no other one, that all nodes above it tell of. -/
def isExposed (p : List Cst × Cst) : Bool := p.2.isFault && p.1.all tellsOfFault

/-- Every node says truly whether there is a fault at it or below. -/
def MarksFaults (root : Cst) : Prop := ∀ n ∈ root.preorder, n.faulty = n.preorder.any isFault

theorem placesBelow_eq (above : List Cst) (n : Cst) : placesBelow above n =
    (above, n) :: n.children.flatMap (placesBelow (n :: above)) := by
  rw [placesBelow]
  congr 1
  exact List.flatMap_subtype (fun _ _ => rfl) |>.trans (by rw [List.unattach_attach])

/-- The places are those of the nodes in the order of the source. -/
theorem map_snd_placesBelow (above : List Cst) (n : Cst) :
    (placesBelow above n).map Prod.snd = n.preorder := by
  induction n using Cst.induction generalizing above with
  | node n ih =>
    rw [placesBelow_eq, List.map_cons, List.map_flatMap, preorder_eq]
    congr 1
    exact List.flatMap_congr fun c hc => ih c hc (n :: above)

/-! ## What the search finds -/

theorem findSome?_congr {α β : Type} {f g : α → Option β} {as : List α}
    (h : ∀ a ∈ as, f a = g a) : as.findSome? f = as.findSome? g := by
  induction as with
  | nil => rfl
  | cons a as ih =>
    rw [List.forall_mem_cons] at h
    rw [List.findSome?_cons, List.findSome?_cons, h.1, ih h.2]

/-- Below nodes that tell of a fault the search finds the first exposed one, and below others no
    fault is exposed. -/
theorem find?_isExposed (above : List Cst) (n : Cst) :
    ((placesBelow above n).find? isExposed).map Prod.snd =
      if above.all tellsOfFault then n.firstFault? else none := by
  induction n using Cst.induction generalizing above with
  | node n ih =>
    have hbelow : ((n.children.flatMap (placesBelow (n :: above))).find? isExposed).map Prod.snd =
        if (n :: above).all tellsOfFault then n.children.findSome? firstFault? else none := by
      rw [List.find?_flatMap, List.map_findSome?]
      refine (findSome?_congr fun c hc => ih c hc (n :: above)).trans ?_
      by_cases hall : (n :: above).all tellsOfFault = true
      · simp only [hall, if_true]
      · simp only [hall, Bool.false_eq_true, if_false]
        exact List.findSome?_eq_none_iff.2 fun _ _ => rfl
    rw [placesBelow_eq, List.find?_cons, firstFault?_eq]
    by_cases hexposed : isExposed (above, n) = true
    · rw [hexposed]
      rw [isExposed, Bool.and_eq_true] at hexposed
      rw [if_pos hexposed.2, if_pos hexposed.1]
      rfl
    · rw [Bool.eq_false_iff.2 hexposed]
      rw [isExposed, Bool.and_eq_true, not_and'] at hexposed
      by_cases habove : above.all tellsOfFault = true
      · have hfault : n.isFault = false := Bool.eq_false_iff.2 (hexposed habove)
        have htells : (n :: above).all tellsOfFault = n.faulty := by
          rw [List.all_cons, habove, Bool.and_true, tellsOfFault, hfault, Bool.not_false,
            Bool.and_true]
        rw [if_pos habove, hfault, if_neg Bool.false_ne_true]
        rw [htells] at hbelow
        exact hbelow
      · -- nothing below is exposed either
        rw [List.all_cons, Bool.eq_false_iff.2 habove, Bool.and_false] at hbelow
        rw [if_neg habove]
        exact hbelow

/-- The search finds the first exposed fault. -/
theorem firstFault?_eq_exposed (n : Cst) :
    n.firstFault? = ((placesBelow [] n).find? isExposed).map Prod.snd := by
  rw [find?_isExposed]
  rfl

/-! ## True marks -/

variable {n : Cst}

theorem MarksFaults.child {c : Cst} (h : n.MarksFaults) (hc : c ∈ n.children) : c.MarksFaults :=
  (forall_mem_preorder_iff.1 h).2 c hc

theorem MarksFaults.faulty_iff (h : n.MarksFaults) :
    n.faulty = true ↔ ∃ m ∈ n.preorder, m.isFault = true := by
  rw [h n (mem_preorder_self n), List.any_eq_true]

/-- Where the marks are true the search finds the first fault of all. -/
theorem firstFault?_eq_find? (h : n.MarksFaults) : n.firstFault? = n.preorder.find? isFault := by
  induction n using Cst.induction with
  | node n ih =>
    rw [firstFault?_eq, preorder_eq, List.find?_cons]
    by_cases hfault : n.isFault = true
    · rw [if_pos hfault, hfault]
    · rw [if_neg hfault, Bool.eq_false_iff.2 hfault]
      by_cases hfaulty : n.faulty = true
      · rw [if_pos hfaulty, List.find?_flatMap]
        exact findSome?_congr fun c hc => ih c hc (h.child hc)
      · -- a node that tells of no fault has none below
        rw [if_neg hfaulty, eq_comm, List.find?_eq_none]
        intro m hm hm'
        rw [h.faulty_iff, preorder_eq] at hfaulty
        exact hfaulty ⟨m, List.mem_cons_of_mem n hm, hm'⟩

/-! ## Refused sources -/

/-- The failure that a fault means. -/
def faultAt (bad : Cst) : Failure :=
  .faultySource (if bad.missing then some bad.type else none) (bad.row + 1) (bad.column + 1)

theorem failure?_eq (h : n.MarksFaults) : n.failure? = (n.preorder.find? isFault).map faultAt := by
  rw [failure?, firstFault?_eq_find? h]
  by_cases hfaulty : n.faulty = true
  · obtain ⟨m, hm, hfault⟩ := h.faulty_iff.1 hfaulty
    rw [if_pos hfaulty]
    cases hfind : n.preorder.find? isFault with
    | some bad => rfl
    | none => exact absurd hfault (List.find?_eq_none.1 hfind m hm)
  · rw [if_neg hfaulty, eq_comm, Option.map_eq_none_iff, List.find?_eq_none]
    exact fun m hm hfault => hfaulty (h.faulty_iff.2 ⟨m, hm, hfault⟩)

/-- A source is refused as faulty for what the faults of its tree mean, if they mean anything. -/
theorem outcome_parse_eq_faultySource_iff {grammar : String → Cst} {limit : Int} {source : String}
    {missing : Option String} {line column : Nat} :
    (parse grammar limit source).outcome = .error (.faultySource missing line column) ↔
      Text.blankOnly source = false ∧
        (grammar source).failure? = some (.faultySource missing line column) := by
  constructor
  · intro h
    have hblank : Text.blankOnly source = false := by
      by_contra hblank
      rw [Bool.not_eq_false] at hblank
      rw [parse, if_pos hblank] at h
      exact absurd h (by simp [Report.fail])
    rcases failsOnly_parse _ _ _ _ h with hnone | ⟨_, _, _, -, hfailure⟩ | ⟨_, hdeep⟩
    · contradiction
    · exact ⟨hblank, hfailure⟩
    · contradiction
  · rintro ⟨hblank, hfailure⟩
    rw [parse, hblank, if_neg Bool.false_ne_true]
    simp only [hfailure]
    rfl

/-- For every tree the search, with a stack or by recursion, finds the first fault in the order of
    the source that lies below no other fault, and below nodes only that say that they hold one.
    Where the nodes say the truth, it is the first fault of the whole tree, and there is one if the
    root says so. So a source is refused as faulty exactly if it is not blank and its tree has a
    fault, with the type of the first fault if it is a missing node, and with its line and column
    from one. -/
theorem first_fault (n : Cst) :
    seekFault [n] = ((placesBelow [] n).find? isExposed).map Prod.snd ∧
    n.firstFault? = seekFault [n] ∧
    (n.MarksFaults → n.firstFault? = n.preorder.find? isFault ∧
      (n.faulty = true → n.firstFault? ≠ none) ∧
      ∀ (grammar : String → Cst) (limit : Int) (source : String), grammar source = n →
        (∀ missing line column,
          (parse grammar limit source).outcome = .error (.faultySource missing line column) ↔
            Text.blankOnly source = false ∧ ∃ bad, n.preorder.find? isFault = some bad ∧
              missing = (if bad.missing then some bad.type else none) ∧
              line = bad.row + 1 ∧ column = bad.column + 1) ∧
        ((∃ missing line column,
          (parse grammar limit source).outcome = .error (.faultySource missing line column)) ↔
            Text.blankOnly source = false ∧ ∃ m ∈ n.preorder, m.isFault = true)) := by
  have hseek : seekFault [n] = n.firstFault? := by
    rw [seekFault_eq, List.findSome?_cons]
    cases n.firstFault? <;> rfl
  refine ⟨hseek.trans (firstFault?_eq_exposed n), hseek.symm, fun h => ?_⟩
  refine ⟨firstFault?_eq_find? h, fun hfaulty => ?_, ?_⟩
  · obtain ⟨m, hm, hfault⟩ := h.faulty_iff.1 hfaulty
    rw [firstFault?_eq_find? h]
    exact fun hnone => List.find?_eq_none.1 hnone m hm hfault
  · rintro grammar limit source rfl
    have hplace : ∀ missing line column,
        (parse grammar limit source).outcome = .error (.faultySource missing line column) ↔
          Text.blankOnly source = false ∧
            ∃ bad, (grammar source).preorder.find? isFault = some bad ∧
              missing = (if bad.missing then some bad.type else none) ∧
              line = bad.row + 1 ∧ column = bad.column + 1 := by
      intro missing line column
      rw [outcome_parse_eq_faultySource_iff, failure?_eq h, Option.map_eq_some_iff]
      simp only [faultAt, Failure.faultySource.injEq, eq_comm]
    refine ⟨hplace, ?_⟩
    simp only [hplace]
    constructor
    · rintro ⟨_, _, _, hblank, bad, hbad, -⟩
      exact ⟨hblank, bad, List.mem_of_find?_eq_some hbad, List.find?_some hbad⟩
    · rintro ⟨hblank, m, hm, hfault⟩
      obtain ⟨bad, hbad⟩ := Option.isSome_iff_exists.1 (List.find?_isSome.2 ⟨m, hm, hfault⟩)
      exact ⟨_, _, _, hblank, bad, hbad, rfl, rfl, rfl⟩

/-- The tree of `int f( { ?` with a parenthesis that is missing in front of the body, and in the
    body a node that does not belong. -/
def faultyFunction : Cst where
  type := "translation_unit"
  start := 0
  stop := 10
  row := 0
  column := 0
  faulty := true
  children := [
    { type := "primitive_type", start := 0, stop := 3, row := 0, column := 0 },
    { type := "identifier", start := 4, stop := 5, row := 0, column := 4 },
    { type := "parameter_list", start := 5, stop := 6, row := 0, column := 5, faulty := true
      children := [
        { type := "(", start := 5, stop := 6, row := 0, column := 5, named := false },
        { type := ")", start := 6, stop := 6, row := 0, column := 6, named := false
          missing := true, faulty := true }] },
    { type := "compound_statement", start := 7, stop := 10, row := 0, column := 7, faulty := true
      children := [
        { type := "ERROR", start := 9, stop := 10, row := 0, column := 9, faulty := true }] }]

/-- The parenthesis comes first: the source is refused with its place. -/
theorem first_fault_faultyFunction :
    faultyFunction.MarksFaults ∧
    faultyFunction.firstFault? = faultyFunction.preorder.find? isFault ∧
    (parse (fun _ => faultyFunction) 200 "int f( \x7b ?").outcome =
      .error (.faultySource (some ")") 1 7) := by
  have hmarks : faultyFunction.MarksFaults := by
    unfold MarksFaults
    decide
  obtain ⟨hfirst, -, hparse⟩ := (first_fault faultyFunction).2.2 hmarks
  refine ⟨hmarks, hfirst, ((hparse (fun _ => faultyFunction) 200 _ rfl).1 _ _ _).2 ⟨by decide, ?_⟩⟩
  exact ⟨_, rfl, rfl, rfl, rfl⟩

end FlowSketch.Cst
