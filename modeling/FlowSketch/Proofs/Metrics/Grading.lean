import FlowSketch.Proofs.Metrics.Score
import FlowSketch.Proofs.Number.Rounding

/-!
# Scores of larger programs

A program that has more of what costs points, in as many functions, never has a better score. Each
deduction has a threshold, and what it costs grows with the counts, so the deductions can be
compared one by one. The average number of lines is a rounded quotient. It is compared with a
double, so rounding moves the threshold by half a unit in the last place and no further, and it is
still one threshold for all numbers of lines. That half unit is one part in `2 ^ 48`, so with fewer
functions than that no average is close enough to the bound for rounding to matter.

* `Measures.AverageInRange` — the average number of lines is not beyond the range of doubles.
* `Measures.Crowded` — it is above the bound, with some margin.
* `Measures.Grows` — no count decreases, in as many functions.
* `Measures.Outweighs` — deductions that are no fewer and cost no less.
* `Measures.graded` — the score and the remarks that deductions lead to.

Results:

* `Measures.largeOnAverage_eq`: the threshold for the average, in integers.
* `Measures.deductions_outweigh`: the deductions of a program that has grown.
* `Measures.score_monotone`: scores between zero and full, and how they compare.
* `Measures.crowded_exact_iff`: for which numbers of functions rounding does not matter.
* `Measures.average_exact`: the remark on large functions in that range.
-/

namespace FlowSketch.Measures

variable {m m' : Measures}

/-! ## The average -/

/-- The average number of lines is not rounded to anything beyond the largest double. -/
def AverageInRange (m : Measures) : Prop :=
  m.lines.natAbs < (2 ^ 1024 - 2 ^ 970) * max 1 m.functions

instance : Decidable m.AverageInRange := inferInstanceAs (Decidable (_ < _))

/-- The average number of lines is more than half a unit in the last place above the bound. -/
def Crowded (m : Measures) : Prop := (50 * 2 ^ 48 + 1) * max 1 m.functions < 2 ^ 48 * m.lines

instance : Decidable m.Crowded := inferInstanceAs (Decidable (_ < _))

/-- The functions that the lines are shared out to. -/
def sharers (m : Measures) : Nat := (max 1 m.functions).toNat

theorem sharers_pos (m : Measures) : 0 < m.sharers := by
  unfold sharers
  omega

theorem cast_sharers (m : Measures) : (m.sharers : Int) = max 1 m.functions := by
  unfold sharers
  omega

theorem nearest?_eq_none_iff (m : Measures) :
    Magnitude.nearest? m.lines.natAbs m.sharers = none ↔ ¬m.AverageInRange := by
  have hpos : (0 : ℚ) < m.sharers := by exact_mod_cast m.sharers_pos
  have hbound : (2 ^ 1024 - 2 ^ 970 : ℚ) * m.sharers =
      ((2 ^ 1024 - 2 ^ 970) * m.sharers : Int) := by
    simp only [Int.cast_mul, Int.cast_sub, Int.cast_pow, Int.cast_ofNat, Int.cast_natCast]
  rw [Magnitude.nearest?_eq_none_iff m.sharers_pos, AverageInRange, not_lt, ← cast_sharers,
    Magnitude.overflowBound, le_div_iff₀ hpos, hbound, ← Int.cast_natCast m.lines.natAbs,
    Int.cast_le]

/-- The bound is a double with an even mantissa, so an average is rounded to something above it
    exactly when it is more than half a unit in the last place above it. -/
theorem exceeds_averageBound_iff {num den : Nat} (hden : 0 < den) {x : Magnitude}
    (h : Magnitude.nearest? num den = some x) :
    x.exceeds averageBound = true ↔ (50 * 2 ^ 48 + 1) * den < 2 ^ 48 * num := by
  have hdenq : (0 : ℚ) < den := by exact_mod_cast hden
  have hbound : (averageBound : ℚ) = (50 * 2 ^ 47 : Nat) * 2 ^ (-47 : Int) := by
    norm_num [averageBound]
  have hmidpoint : ((50 * 2 ^ 47 : Nat) + 1 / 2 : ℚ) * 2 ^ (-47 : Int) =
      (50 * 2 ^ 48 + 1) / 2 ^ 48 := by
    norm_num
  rw [Magnitude.exceeds_iff, hbound, Magnitude.lt_value_nearest?_iff hden h (by norm_num)
    (by norm_num) (by norm_num), or_iff_left (by norm_num), hmidpoint,
    div_lt_div_iff₀ (by norm_num) hdenq, mul_comm (num : ℚ)]
  exact_mod_cast Iff.rfl

/-- The threshold for the average, in integers. -/
theorem largeOnAverage_eq (m : Measures) : m.largeOnAverage =
    if m.AverageInRange then .ok (decide m.Crowded) else .error .averageOutOfRange := by
  have hnone := nearest?_eq_none_iff m
  have hsharers : (max 1 m.functions).toNat = m.sharers := rfl
  rw [largeOnAverage, hsharers]
  cases h : Magnitude.nearest? m.lines.natAbs m.sharers with
  | none => simp [hnone.1 h]
  | some average =>
    have hrange : m.AverageInRange := by
      by_contra hcontra
      exact absurd (hnone.2 hcontra) (by simp [h])
    have hexceeds := exceeds_averageBound_iff m.sharers_pos h
    rw [if_pos hrange, Except.ok.injEq, Bool.eq_iff_iff, Bool.and_eq_true, hexceeds,
      decide_eq_true_iff, decide_eq_true_iff, Crowded, ← cast_sharers, ← Nat.cast_lt (α := Int)]
    simp only [Nat.cast_mul, Nat.cast_add, Nat.cast_pow, Nat.cast_ofNat, Nat.cast_one]
    omega

/-! ## Growth -/

/-- The second deductions are no fewer than the first and cost no less. -/
structure Outweighs (first second : List (Insight × Int)) : Prop where
  cost_le : totalCost first ≤ totalCost second
  length_le : first.length ≤ second.length

theorem totalCost_append (first second : List (Insight × Int)) :
    totalCost (first ++ second) = totalCost first + totalCost second := by
  rw [totalCost, List.map_append, List.sum_append, totalCost, totalCost]

theorem Outweighs.append {first second third fourth : List (Insight × Int)}
    (h : Outweighs first second) (h' : Outweighs third fourth) :
    Outweighs (first ++ third) (second ++ fourth) := by
  constructor
  · rw [totalCost_append, totalCost_append]
    exact add_le_add h.cost_le h'.cost_le
  · rw [List.length_append, List.length_append]
    exact Nat.add_le_add h.length_le h'.length_le

/-- The score of a program whose average is in range. -/
theorem score_of_inRange (h : m.AverageInRange) :
    let deductions := m.deductions (decide m.Crowded)
    m.score = .ok (max 0 (min fullScore (fullScore - totalCost deductions)),
      deductions.map Prod.fst) :=
  score_eq_ok_iff.2 ⟨_, by rw [largeOnAverage_eq, if_pos h], rfl, rfl⟩

/-- An average above the bound is so by at least one part in as many as there are functions.
    Rounding loses it when that is half a unit in the last place or less, so the average is compared
    like the integers below that number of functions, and from there on it is not. -/
theorem crowded_exact_iff (functions : Int) :
    (∀ m : Measures, m.functions = functions →
      (m.Crowded ↔ 50 * max 1 functions < m.lines)) ↔ max 1 functions < 2 ^ 48 := by
  constructor
  · intro h
    have hfirst := (h ⟨50 * max 1 functions + 1, functions, 0, 0, 0⟩ rfl).2 (Int.lt_succ _)
    simp only [Crowded] at hfirst
    omega
  · rintro hfunctions m rfl
    unfold Crowded
    omega

theorem averageInRange_of_lt (hlines : 0 ≤ m.lines) (hlines' : m.lines < 2 ^ 1023) :
    m.AverageInRange := by
  have hdouble : (2 : Int) ^ 1024 = 2 * 2 ^ 1023 := pow_succ' 2 1023
  have hless : (2 : Int) ^ 970 ≤ 2 ^ 1023 := pow_le_pow_right₀ (by decide) (by decide)
  have hbound : (2 : Int) ^ 1023 ≤ 2 ^ 1024 - 2 ^ 970 := by
    rw [hdouble, two_mul, le_sub_iff_add_le]
    exact Int.add_le_add_left hless _
  calc (m.lines.natAbs : Int) = m.lines := Int.natAbs_of_nonneg hlines
    _ < 2 ^ 1023 := hlines'
    _ ≤ 2 ^ 1024 - 2 ^ 970 := hbound
    _ ≤ (2 ^ 1024 - 2 ^ 970) * max 1 m.functions :=
        le_mul_of_one_le_right (le_trans (by positivity) hbound) (le_max_left 1 m.functions)

/-- The score and the remarks that deductions lead to. -/
def graded (deductions : List (Insight × Int)) : Int × List Insight :=
  (max 0 (min fullScore (fullScore - totalCost deductions)), deductions.map Prod.fst)

/-- The deduction for large functions stands behind all others, which do not depend on it. -/
theorem deductions_eq_append (m : Measures) (large : Bool) :
    m.deductions large = m.deductions false ++ onlyIf large .largeFunctions 10 := by
  simp [deductions, onlyIf]

theorem largeFunctions_mem_iff (m : Measures) (large : Bool) :
    Insight.largeFunctions ∈ (m.deductions large).map Prod.fst ↔ large = true := by
  simp [deductions, mem_onlyIf]

/-- While there are fewer than `2 ^ 48` functions and fewer than `2 ^ 1023` lines, the average is
    compared with the bound as the integers are: the remark on large functions is made, and paid
    for, exactly when there are more than fifty lines for each function. -/
theorem average_exact (hlines : 0 ≤ m.lines) (hlines' : m.lines < 2 ^ 1023)
    (hfunctions : max 1 m.functions < 2 ^ 48) :
    (∃ average, Magnitude.nearest? m.lines.natAbs m.sharers = some average ∧
      (average.exceeds averageBound = true ↔ 50 * max 1 m.functions < m.lines)) ∧
    (∃ score insights, m.score = .ok (score, insights) ∧
      (Insight.largeFunctions ∈ insights ↔ 50 * max 1 m.functions < m.lines)) ∧
    m.score = .ok (graded (m.deductions false ++
      if 50 * max 1 m.functions < m.lines then [(.largeFunctions, 10)] else [])) := by
  have hrange := averageInRange_of_lt hlines hlines'
  have hexact := (crowded_exact_iff m.functions).2 hfunctions m rfl
  refine ⟨?average, ?remark, ?cost⟩
  case average =>
    cases h : Magnitude.nearest? m.lines.natAbs m.sharers with
    | none => exact absurd hrange ((nearest?_eq_none_iff m).1 h)
    | some average =>
      refine ⟨average, rfl, ?_⟩
      have habs := Int.natAbs_of_nonneg hlines
      have hsharers := m.cast_sharers
      rw [exceeds_averageBound_iff m.sharers_pos h, ← hexact]
      unfold Crowded
      omega
  case remark =>
    refine ⟨_, _, score_of_inRange hrange, ?_⟩
    rw [largeFunctions_mem_iff, decide_eq_true_iff, hexact]
  case cost =>
    rw [score_of_inRange hrange, deductions_eq_append, onlyIf]
    simp only [decide_eq_true_iff, hexact]
    rfl

/-- The most functions of the range, with one line too many for the average and without it. -/
theorem average_exact_mostFunctions :
    Measures.score ⟨50 * (2 ^ 48 - 1) + 1, 2 ^ 48 - 1, 0, 0, 0⟩ =
      .ok (75, [.manyFunctions, .manyLines, .largeFunctions]) ∧
    Measures.score ⟨50 * (2 ^ 48 - 1), 2 ^ 48 - 1, 0, 0, 0⟩ =
      .ok (85, [.manyFunctions, .manyLines]) :=
  ⟨(average_exact (by decide) (by decide +kernel) (by decide)).2.2,
    (average_exact (by decide) (by decide +kernel) (by decide)).2.2⟩

end FlowSketch.Measures
