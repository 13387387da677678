import FlowSketch.Proofs.Cst.Places

/-!
# Wrappers

Parentheses, casts and operators put nodes around an expression without being levels of their own. A
statement inside an expression is one level deeper than the expression, however many nodes lie
between. So the guard of the reader does not notice wrappers, wherever they are put.

* `Cst.Wraps` — a node with wrappers around it.

Results:

* `Cst.fits_of_wraps`: what is inside wrappers fits as it would without them.
* `Cst.fits_wrapped`: wrappers around an operand change nothing for the whole tree.
* `Cst.outcome_parse`: what becomes of a source without faults.
* `Cst.parse_guards_depth`: what the guard of the reader does.
-/

namespace FlowSketch.Cst

/-- A node with any number of wrappers around it: expressions other than calls, each with a single
    named child. -/
inductive Wraps (c : Cst) : Cst → Prop
  | none : Wraps c c
  | around {v w : Cst} : Wraps c v → w.named = true → w.isStatement = false →
    w.isSkipped = false → w.form ≠ .call → w.namedChildren = [v] → Wraps c w

variable {n m m' c e w : Cst} {path place : List Nat}

/-! ## Wrappers -/

section

variable {limit : Int} {depth : Nat}

theorem isInner_of_wraps (h : Wraps c w) (hc : c.isInner = true) : w.isInner = true := by
  cases h with
  | none => exact hc
  | around _ hnamed _ hskipped _ hchildren =>
    simp [isInner, isLeaf, hnamed, hskipped, hchildren]

theorem parts_of_wraps {v : Cst} (hv : v.isInner = true) (hs : w.isStatement = false)
    (hcall : w.form ≠ .call) (hchildren : w.namedChildren = [v]) : w.parts = [v] := by
  simp only [isInner, Bool.and_eq_true, Bool.not_eq_true'] at hv
  rw [parts_of_not_isStatement hs, operands_of_not_isCall (by simpa [isCall] using hcall), inner,
    content, hchildren]
  simp [hv]

/-- Wrappers are no levels: what is inside them fits as it would without them. -/
theorem fits_of_wraps (he : e.isStatement = false) (h : Wraps c w) (hc : c.isInner = true) :
    w.Fits limit (e.level depth w) ↔ c.Fits limit (e.level depth c) := by
  induction h with
  | none => rfl
  | @around v w hv _ hs _ hcall hchildren ih =>
    rw [fits_iff, parts_of_wraps (isInner_of_wraps hv hc) hs hcall hchildren, ← ih]
    simp [level, hs, he]

theorem isInner_of_below (he : e.isStatement = false) (h : e.Below place c) :
    c.isInner = true := by
  have hparts := exists_below_iff.1 ⟨place, h⟩
  rw [parts_of_not_isStatement he] at hparts
  obtain ⟨holder, -, hc⟩ := List.mem_flatMap.1 hparts
  rw [inner_eq_filter] at hc
  exact (List.mem_filter.1 hc).2

/-- A node that takes the place of a part and fits like it changes nothing. -/
theorem fits_replaceAt (h : n.Below place m) (hm : StandsIn n m m')
    (hfits : m.Fits limit (n.level depth m) ↔ m'.Fits limit (n.level depth m')) :
    (n.replaceAt place m').Fits limit depth ↔ n.Fits limit depth := by
  have hs : (n.replaceAt place m').isStatement = n.isStatement := by
    cases h <;> rfl
  have hlevel : ∀ c, (n.replaceAt place m').level depth c = n.level depth c := by
    intro c
    rw [level, level, hs]
  rw [fits_iff, fits_iff, hs]
  simp only [hlevel]
  exact and_congr_right' (forall_mem_parts_replaceAt h hm hfits)

/-- Wrappers around an operand of an expression that is read change nothing, wherever the expression
    is. The induction is on the way to it. -/
theorem fits_wrapped (h : Along n path e) (he : e.isStatement = false) (hc : e.Below place c)
    (hw : Wraps c w) : (∃ first m, n.Below first m) ∧ Alike n (n.replaceAt (path ++ place) w) ∧
      ∀ depth, (n.replaceAt (path ++ place) w).Fits limit depth ↔ n.Fits limit depth := by
  induction h with
  | here e =>
    have hinner := isInner_of_below he hc
    have hinner' := isInner_of_wraps hw hinner
    have hnamed : c.named = w.named := by
      simp only [isInner, Bool.and_eq_true] at hinner hinner'
      rw [hinner.2, hinner'.2]
    refine ⟨⟨place, c, hc⟩, alike_of_below hc hnamed, fun depth => ?_⟩
    exact fits_replaceAt hc ⟨by rw [hinner, hinner'], by simp [he], by simp [he]⟩
      (fits_of_wraps he hw hinner).symm
  | @further n m e first path hm _ ih =>
    obtain ⟨⟨_, _, hbelow⟩, halike, hfits⟩ := ih he hc
    rw [List.append_assoc, replaceAt_append hm]
    refine ⟨⟨first, m, hm⟩, alike_of_below hm halike.named, fun depth => ?_⟩
    refine fits_replaceAt hm
      ⟨halike.isInner, fun _ => halike, fun _ => wrapped?_ne_none_of_below hbelow⟩ ?_
    have hlevel : n.level depth (m.replaceAt (path ++ place) w) = n.level depth m := by
      rw [level, level, halike.isStatement]
    rw [hlevel, hfits]

end

/-! ## Sources -/

section

variable {grammar : String → Cst} {limit : Int} {source : String}

theorem faulty_replaceAt (h : Along n path e) (hc : e.Below place c) :
    (n.replaceAt (path ++ place) w).faulty = n.faulty := by
  cases h with
  | here => cases hc <;> rfl
  | further hm _ => rw [List.append_assoc, replaceAt_append hm]; cases hm <;> rfl

theorem outcome_parse (hfaulty : (grammar source).faulty = false) :
    (parse grammar limit source).outcome =
      if Text.blankOnly source then .error .noSource
      else (grammar source).astFrom (Utf8.encode source) limit 0 := by
  unfold parse
  split_ifs
  · rfl
  · simp only [failure?, hfaulty, Bool.false_eq_true, if_false]
    rw [Report.outcome_bind, Report.ofExcept, ast_eq_astFrom]
    cases (grammar source).astFrom (Utf8.encode source) limit 0 <;> rfl

theorem succeeds_parse_iff (hfaulty : (grammar source).faulty = false) :
    Succeeds (parse grammar limit source).outcome ↔
      Text.blankOnly source = false ∧ (grammar source).Fits limit 0 := by
  rw [outcome_parse hfaulty]
  split_ifs with h <;> simp [h, succeeds_astFrom_iff]

end

/-- The guard of the reader, for a source without faults. It gives up at the first level beyond the
    limit or at the second. A tree that it gives is the same under every larger limit. And
    expressions do not count: where an operand of an expression that is read gets any number of
    wrappers, the source is read exactly if it was before, however its text may differ. -/
theorem parse_guards_depth {grammar : String → Cst} {limit : Int} {source : String}
    (hlimit : 0 ≤ limit) (hfaulty : (grammar source).faulty = false) :
    (∀ depth bound, (parse grammar limit source).outcome = .error (.tooDeep depth bound) →
      bound = limit ∧ (depth = limit + 1 ∨ depth = limit + 2)) ∧
    (∀ tree, (parse grammar limit source).outcome = .ok tree → ∀ larger, limit ≤ larger →
      (parse grammar larger source).outcome = .ok tree) ∧
    (∀ path place e c w, (grammar source).Along path e → e.isStatement = false →
      e.Below place c → Wraps c w → ∀ (other : String → Cst) (text : String),
        other text = (grammar source).replaceAt (path ++ place) w →
        Text.blankOnly text = Text.blankOnly source →
        ((∃ failure, (parse other limit text).outcome = .error failure) ↔
          ∃ failure, (parse grammar limit source).outcome = .error failure)) := by
  refine ⟨fun depth bound h => ?_, fun tree h larger hle => ?_,
    fun path place e c w hlong he hc hw other text htree hblank => ?_⟩
  · rw [outcome_parse hfaulty] at h
    split_ifs at h
    · cases h
    · rcases failsOnly_astAt _ _ _ _ _ _ h with h | h
      · obtain ⟨rfl, rfl⟩ := Failure.tooDeep.inj h
        omega
      · obtain ⟨rfl, rfl⟩ := Failure.tooDeep.inj h
        omega
  · rw [outcome_parse hfaulty] at h ⊢
    split_ifs at h ⊢
    rw [astFrom_of_le hle (succeeds_astFrom_iff.1 ⟨tree, h⟩), h]
  · have hother : (other text).faulty = false := by
      rw [htree, faulty_replaceAt hlong hc, hfaulty]
    rw [← not_succeeds_iff, ← not_succeeds_iff, succeeds_parse_iff hother,
      succeeds_parse_iff hfaulty, hblank, htree, (fits_wrapped hlong he hc hw).2.2]

/-- The sum `[]{return;}+a` with parentheses around the lambda. -/
def wrappedSum : Cst :=
  lambdaSum.replaceAt [0]
    { type := "parenthesized_expression", start := 0, stop := 13, row := 0, column := 0,
      children := [returnLambda] }

/-- The `return` in the lambda is two levels below the sum. -/
theorem fits_lambdaSum {limit : Int} : lambdaSum.Fits limit 0 ↔ 2 ≤ limit := by
  let last : Cst := { type := "return_statement", start := 3, stop := 10, row := 0, column := 3 }
  have hsum : lambdaSum.parts = [returnLambda] := rfl
  have hlambda : returnLambda.parts = [returnBlock] := rfl
  have hblock : returnBlock.parts = [last] := rfl
  have hlast : last.parts = [] := rfl
  have hforms : lambdaSum.isStatement = false ∧ returnLambda.isStatement = false ∧
      returnBlock.isStatement = true ∧ last.isStatement = true := ⟨rfl, rfl, rfl, rfl⟩
  rw [fits_iff, hsum, List.forall_mem_singleton, fits_iff, hlambda, List.forall_mem_singleton,
    fits_iff, hblock, List.forall_mem_singleton, fits_iff, hlast]
  simp [level, hforms]
  omega

/-- The guard is the same with the parentheses. -/
theorem parse_guards_depth_wrappedSum :
    (∃ failure, (parse (fun _ => wrappedSum) 1 "([]{return;})+a").outcome = .error failure) ∧
      ∃ tree, (parse (fun _ => wrappedSum) 2 "([]{return;})+a").outcome = .ok tree := by
  have hblank : Text.blankOnly "[]{return;}+a" = false := rfl
  have hsum : lambdaSum.Below [0] returnLambda := .member (by
    show returnLambda ∈ [returnLambda]
    simp) rfl
  have hwraps : Wraps returnLambda
      { type := "parenthesized_expression", start := 0, stop := 13, row := 0, column := 0,
        children := [returnLambda] } :=
    .around .none rfl rfl rfl (by decide) rfl
  have hparse : ∀ limit, 0 ≤ limit →
      ((∃ failure, (parse (fun _ => wrappedSum) limit "([]{return;})+a").outcome = .error failure) ↔
        ∃ failure, (parse (fun _ => lambdaSum) limit "[]{return;}+a").outcome = .error failure) :=
    fun limit hlimit => (parse_guards_depth hlimit rfl).2.2 [] [0] lambdaSum _ _ (.here _) rfl hsum
      hwraps _ _ rfl rfl
  constructor
  · rw [hparse 1 (by decide), ← not_succeeds_iff, succeeds_parse_iff rfl, fits_lambdaSum]
    simp
  · have h : ¬∃ failure, (parse (fun _ => wrappedSum) 2 "([]{return;})+a").outcome =
        .error failure := by
      rw [hparse 2 (by decide), ← not_succeeds_iff, succeeds_parse_iff rfl, fits_lambdaSum]
      simp [hblank]
    rwa [← not_succeeds_iff, not_not] at h

end FlowSketch.Cst
