import FlowSketch.Metrics.Score
import Mathlib

/-!
# What a score says

Every remark costs at least one point, and the score is what is left of the full one, kept between
zero and full.

* `Measures.totalCost` — the points that some deductions cost together.

Results:

* `Measures.cost_pos`: no remark is for free.
* `Measures.score_eq_ok_iff`: the score and the remarks, told by the deductions.
* `Measures.score_bounds`: a score lies between zero and full, and is full when there is no remark.
-/

namespace FlowSketch.Measures

/-- The points that deductions cost together. -/
def totalCost (deductions : List (Insight × Int)) : Int := (deductions.map Prod.snd).sum

variable {m : Measures} {large : Bool} {score : Int} {insights : List Insight}

theorem mem_onlyIf {applies : Bool} {insight : Insight} {cost : Int} {deduction : Insight × Int} :
    deduction ∈ onlyIf applies insight cost ↔ applies = true ∧ deduction = (insight, cost) := by
  unfold onlyIf
  cases applies <;> simp

/-- No remark is for free; that on nested loops is made from two levels on. -/
theorem cost_pos {deduction : Insight × Int} (h : deduction ∈ m.deductions large) :
    0 < deduction.2 := by
  simp only [deductions, List.mem_append, mem_onlyIf, decide_eq_true_eq] at h
  rcases h with (((((⟨hnested, rfl⟩ | ⟨-, rfl⟩) | ⟨-, rfl⟩) | ⟨-, rfl⟩) | ⟨-, rfl⟩) | ⟨-, rfl⟩) |
    ⟨-, rfl⟩
  · show 0 < 15 * (m.nested - 1)
    omega
  all_goals simp

theorem foldl_cost (deductions : List (Insight × Int)) (left : Int) :
    deductions.foldl (fun left deduction => left - deduction.2) left =
      left - totalCost deductions := by
  induction deductions generalizing left with
  | nil => simp [totalCost]
  | cons deduction deductions ih =>
    rw [List.foldl_cons, ih, totalCost, totalCost, List.map_cons, List.sum_cons, Int.sub_sub]

/-- The score and the remarks, told by the deductions. -/
theorem score_eq_ok_iff : m.score = .ok (score, insights) ↔
    ∃ large, m.largeOnAverage = .ok large ∧
      score = max 0 (min fullScore (fullScore - totalCost (m.deductions large))) ∧
      insights = (m.deductions large).map Prod.fst := by
  unfold Measures.score
  cases m.largeOnAverage with
  | error failure => simp [bind, Except.bind]
  | ok large =>
    simp only [bind, Except.bind, pure, Except.pure, Except.ok.injEq, Prod.mk.injEq, foldl_cost,
      exists_eq_left', eq_comm]

/-- A score lies between zero and full, and is full exactly when there is no remark. -/
theorem score_bounds (h : m.score = .ok (score, insights)) :
    0 ≤ score ∧ score ≤ 100 ∧ (score = 100 ↔ insights = []) := by
  obtain ⟨large, -, rfl, rfl⟩ := score_eq_ok_iff.1 h
  unfold fullScore
  refine ⟨by omega, by omega, ?_⟩
  rw [List.map_eq_nil_iff]
  constructor
  · intro hfull
    by_contra hne
    have hcost : 0 < totalCost (m.deductions large) := by
      apply List.sum_pos
      · intro cost hmem
        obtain ⟨deduction, hd, rfl⟩ := List.mem_map.1 hmem
        exact cost_pos hd
      · simpa using hne
    omega
  · intro hnone
    rw [hnone]
    decide

end FlowSketch.Measures
