import FlowSketch.Number.Double
import Mathlib

/-!
# Rounding to the nearest double

A quotient is measured in units of the last place of its binade, and the number of units is rounded
to an integer. So whether the result lies above a given double is a matter of the quotient alone: it
does exactly when the quotient lies above the midpoint between that double and the next one, or on
the midpoint, if the double has an odd mantissa.

* `Magnitude.value` — the rational number that a magnitude stands for.
* `Magnitude.unit`, `Magnitude.units` — the exponent of the last place, and the number of units.

Results:

* `lt_roundQuotient_iff`: an integer lies below a rounded quotient when the quotient is above the
  midpoint to the next one.
* `Magnitude.binade_spec`: the binade of a quotient.
* `Magnitude.lt_scaled_units_iff`: a double of full precision lies below the rounded quotient when
  the quotient is above the midpoint to the next double.
* `Magnitude.lt_value_nearest?_iff`: the same of the nearest magnitude.
* `Magnitude.nearest?_eq_none_iff`: there is none from the midpoint behind the largest double on.
-/

namespace FlowSketch

/-! ## Integers -/

/-- An integer lies below a rounded quotient exactly when the quotient is above the midpoint to the
    next integer, or on it, if the integer is odd. -/
theorem lt_roundQuotient_iff (num : Nat) {den : Nat} (hden : 0 < den) (k : Nat) :
    k < roundQuotient num den ↔
      (k + 1 / 2 : ℚ) < num / den ∨ ((k + 1 / 2 : ℚ) = num / den ∧ k % 2 = 1) := by
  have hdenq : (0 : ℚ) < den := by exact_mod_cast hden
  have hlt : (k + 1 / 2 : ℚ) < num / den ↔ (2 * k + 1) * den < 2 * num := by
    rw [lt_div_iff₀ hdenq, ← Nat.cast_lt (α := ℚ)]
    push_cast
    constructor <;> intro h <;> linarith
  have heq : (k + 1 / 2 : ℚ) = num / den ↔ (2 * k + 1) * den = 2 * num := by
    rw [eq_div_iff hdenq.ne', ← Nat.cast_inj (R := ℚ)]
    push_cast
    constructor <;> intro h <;> linarith
  rw [hlt, heq]
  have hdiv := Nat.div_add_mod num den
  have hmod := Nat.mod_lt num hden
  simp only [roundQuotient]
  generalize num / den = q at *
  generalize num % den = r at *
  subst hdiv
  have hstep : ∀ a b : Nat, a < b → a * den + den ≤ b * den := by
    intro a b hab
    calc a * den + den = (a + 1) * den := by ring
      _ ≤ b * den := Nat.mul_le_mul_right den hab
  have hk : (2 * k + 1) * den = 2 * (k * den) + den := by ring
  have hq : 2 * (den * q + r) = 2 * (q * den) + 2 * r := by ring
  rw [hk, hq]
  rcases Nat.lt_trichotomy k q with h | h | h
  · have := hstep k q h
    split <;> omega
  · subst h
    split <;> omega
  · have := hstep q k h
    split <;> omega

theorem le_roundQuotient {num den k : Nat} (hden : 0 < den) (h : (k : ℚ) ≤ num / den) :
    k ≤ roundQuotient num den := by
  cases k with
  | zero => exact Nat.zero_le _
  | succ k =>
    refine (lt_roundQuotient_iff num hden k).2 (.inl ?_)
    push_cast at h
    linarith

theorem roundQuotient_le {num den k : Nat} (hden : 0 < den) (h : (num : ℚ) / den ≤ k) :
    roundQuotient num den ≤ k := by
  refine Nat.not_lt.1 fun hlt => ?_
  rcases (lt_roundQuotient_iff num hden k).1 hlt with hlt | ⟨heq, -⟩ <;> linarith

/-! ## Powers of two -/

theorem power_pos (k : Int) : 0 < power 2 k := Nat.pow_pos (by decide)

theorem power_div_power (k : Int) : (power 2 k : ℚ) / power 2 (-k) = 2 ^ k := by
  unfold power
  rcases Int.le_total 0 k with hk | hk
  · obtain ⟨n, rfl⟩ := Int.eq_ofNat_of_zero_le hk
    simp
  · obtain ⟨n, hn⟩ := Int.eq_ofNat_of_zero_le (Int.neg_nonneg_of_nonpos hk)
    obtain rfl : k = -n := by omega
    simp

/-- A quotient in units of `2 ^ k`, both of its parts taken as integers. -/
theorem scaled_quotient (num den : Nat) (k : Int) :
    ((num * power 2 (-k) : Nat) : ℚ) / (den * power 2 k : Nat) = num / den / 2 ^ k := by
  have hpos : (0 : ℚ) < power 2 (-k) := by exact_mod_cast power_pos (-k)
  rw [← power_div_power]
  push_cast
  field_simp

namespace Magnitude

/-! ## Values -/

/-- The number that a magnitude stands for. -/
def value (x : Magnitude) : ℚ := x.mantissa * 2 ^ x.exponent

theorem exceeds_iff (x : Magnitude) (bound : Nat) : x.exceeds bound = true ↔ bound < x.value := by
  have hden : (0 : ℚ) < x.den := by exact_mod_cast power_pos (-x.exponent)
  have hvalue : x.value = x.num / x.den := by
    rw [value, ← power_div_power, num, den]
    push_cast
    ring
  rw [exceeds, decide_eq_true_iff, hvalue, lt_div_iff₀ hden]
  exact_mod_cast Iff.rfl

theorem value_carry (x : Magnitude) : (carry x).value = x.value := by
  unfold carry value
  split
  · next h =>
    have htop : power 2 53 = 2 * power 2 52 := rfl
    rw [h, htop, zpow_add_one₀ two_ne_zero]
    push_cast
    ring
  · rfl

/-! ## Binades -/

/-- A quotient lies between the power of two that its binade tells and the next one. -/
theorem binade_spec {num den : Nat} (hnum : 0 < num) (hden : 0 < den) :
    (2 : ℚ) ^ binade num den ≤ num / den ∧ (num : ℚ) / den < 2 ^ (binade num den + 1) := by
  have hdenq : (0 : ℚ) < den := by exact_mod_cast hden
  have hnumLow : (2 : ℚ) ^ num.log2 ≤ num := by exact_mod_cast Nat.log2_self_le hnum.ne'
  have hnumHigh : (num : ℚ) < 2 ^ (num.log2 + 1) := by exact_mod_cast Nat.lt_log2_self
  have hdenLow : (2 : ℚ) ^ den.log2 ≤ den := by exact_mod_cast Nat.log2_self_le hden.ne'
  have hdenHigh : (den : ℚ) < 2 ^ (den.log2 + 1) := by exact_mod_cast Nat.lt_log2_self
  have hlow : (2 : ℚ) ^ ((num.log2 : Int) - den.log2 - 1) ≤ num / den := by
    rw [le_div_iff₀ hdenq]
    calc (2 : ℚ) ^ ((num.log2 : Int) - den.log2 - 1) * den
        ≤ 2 ^ ((num.log2 : Int) - den.log2 - 1) * 2 ^ (den.log2 + 1) := by gcongr
      _ = 2 ^ num.log2 := by
          rw [← zpow_natCast, ← zpow_natCast, ← zpow_add₀ two_ne_zero]
          congr 1
          push_cast
          ring
      _ ≤ num := hnumLow
  have hhigh : (num : ℚ) / den < 2 ^ ((num.log2 : Int) - den.log2 + 1) := by
    rw [div_lt_iff₀ hdenq]
    calc (num : ℚ) < 2 ^ (num.log2 + 1) := hnumHigh
      _ = 2 ^ ((num.log2 : Int) - den.log2 + 1) * 2 ^ den.log2 := by
          rw [← zpow_natCast, ← zpow_natCast, ← zpow_add₀ two_ne_zero]
          congr 1
          push_cast
          ring
      _ ≤ 2 ^ ((num.log2 : Int) - den.log2 + 1) * den := by gcongr
  -- the comparison in `binade` asks on which side of the power of two the quotient lies
  have hbelow : ∀ k : Int, num * power 2 (-k) < den * power 2 k ↔ (num : ℚ) / den < 2 ^ k := by
    intro k
    have hpos : (0 : ℚ) < power 2 (-k) := by exact_mod_cast power_pos (-k)
    rw [← power_div_power, div_lt_div_iff₀ hdenq hpos, mul_comm (power 2 k : ℚ)]
    exact_mod_cast Iff.rfl
  unfold binade
  simp only [hbelow]
  split
  · next h => exact ⟨hlow, by rwa [sub_add_cancel]⟩
  · next h => exact ⟨not_lt.1 h, hhigh⟩

/-! ## Units in the last place -/

/-- The exponent of the last place of a quotient of that binade. -/
def unit (num den : Nat) : Int := max (binade num den - 52) (-1074)

/-- The quotient in units of its last place, rounded to an integer. -/
def units (num den : Nat) : Nat :=
  roundQuotient (num * power 2 (-unit num den)) (den * power 2 (unit num den))

section

variable {num den : Nat}

theorem nearest?_eq (hnum : 0 < num) : nearest? num den =
    if 971 < (carry ⟨units num den, unit num den⟩).exponent then none
    else some (carry ⟨units num den, unit num den⟩) := by
  rw [nearest?, if_neg hnum.ne']
  rfl

theorem units_le (hnum : 0 < num) (hden : 0 < den) : units num den ≤ 2 ^ 53 := by
  refine roundQuotient_le (Nat.mul_pos hden (power_pos _)) ?_
  rw [scaled_quotient, div_le_iff₀ (by positivity)]
  refine (binade_spec hnum hden).2.le.trans ?_
  calc (2 : ℚ) ^ (binade num den + 1) ≤ 2 ^ (53 + unit num den) :=
        zpow_le_zpow_right₀ (by norm_num) (by unfold unit; omega)
    _ = (2 ^ 53 : Nat) * 2 ^ unit num den := by
        rw [zpow_add₀ two_ne_zero]
        norm_num

theorem le_units (hnum : 0 < num) (hden : 0 < den) (hunit : -1074 < unit num den) :
    2 ^ 52 ≤ units num den := by
  refine le_roundQuotient (Nat.mul_pos hden (power_pos _)) ?_
  rw [scaled_quotient, le_div_iff₀ (by positivity)]
  refine le_trans ?_ (binade_spec hnum hden).1
  have hbinade : binade num den = 52 + unit num den := by
    unfold unit at *
    omega
  rw [hbinade, zpow_add₀ two_ne_zero]
  norm_num

/-- A double of full precision lies below the rounded quotient exactly when the quotient is above
    the midpoint to the next double, or on it, if the mantissa of the double is odd. -/
theorem lt_scaled_units_iff (hnum : 0 < num) (hden : 0 < den) {k : Nat} {e : Int}
    (hk : 2 ^ 52 ≤ k) (hk' : k < 2 ^ 53) (he : -1074 ≤ e) :
    (k * 2 ^ e : ℚ) < units num den * 2 ^ unit num den ↔
      ((k + 1 / 2) * 2 ^ e : ℚ) < num / den ∨
        (((k + 1 / 2) * 2 ^ e : ℚ) = num / den ∧ k % 2 = 1) := by
  obtain ⟨hlow, hhigh⟩ := binade_spec hnum hden
  have hepos : (0 : ℚ) < 2 ^ e := by positivity
  have hkq : (2 ^ 52 : ℚ) ≤ k := by exact_mod_cast hk
  have hkq' : (k + 1 : ℚ) ≤ 2 ^ 53 := by exact_mod_cast hk'
  rcases lt_trichotomy (unit num den) e with hunit | hunit | hunit
  · -- the quotient and what it is rounded to lie below the binade of the double
    have hle : (2 : ℚ) ^ (53 + unit num den) ≤ 2 ^ 52 * 2 ^ e := by
      rw [← zpow_natCast, ← zpow_add₀ two_ne_zero]
      exact zpow_le_zpow_right₀ (by norm_num) (by push_cast; omega)
    have hunits : (units num den : ℚ) * 2 ^ unit num den ≤ k * 2 ^ e := by
      calc (units num den : ℚ) * 2 ^ unit num den ≤ 2 ^ 53 * 2 ^ unit num den := by
            gcongr
            exact_mod_cast units_le hnum hden
        _ = 2 ^ (53 + unit num den) := by
            rw [zpow_add₀ two_ne_zero]
            norm_num
        _ ≤ 2 ^ 52 * 2 ^ e := hle
        _ ≤ k * 2 ^ e := by gcongr
    have hquot : (num : ℚ) / den < (k + 1 / 2) * 2 ^ e := by
      calc (num : ℚ) / den < 2 ^ (binade num den + 1) := hhigh
        _ ≤ 2 ^ (53 + unit num den) :=
            zpow_le_zpow_right₀ (by norm_num) (by unfold unit; omega)
        _ ≤ 2 ^ 52 * 2 ^ e := hle
        _ ≤ (k + 1 / 2) * 2 ^ e := by gcongr; linarith
    constructor
    · intro h
      exact absurd h (not_lt.2 hunits)
    · rintro (h | ⟨h, -⟩) <;> linarith
  · -- both are counted in the same units
    subst hunit
    rw [mul_lt_mul_iff_left₀ hepos, Nat.cast_lt, units,
      lt_roundQuotient_iff _ (Nat.mul_pos hden (power_pos _)), scaled_quotient,
      lt_div_iff₀ hepos, eq_div_iff hepos.ne']
  · -- the quotient and what it is rounded to lie above the binade of the double
    have hle : (k + 1 / 2 : ℚ) * 2 ^ e < 2 ^ 52 * 2 ^ unit num den := by
      calc (k + 1 / 2 : ℚ) * 2 ^ e < 2 ^ 53 * 2 ^ e := by gcongr; linarith
        _ = 2 ^ 52 * 2 ^ (e + 1) := by
            rw [zpow_add_one₀ two_ne_zero]
            ring
        _ ≤ 2 ^ 52 * 2 ^ unit num den := by
            gcongr
            · norm_num
            · omega
    have hunits : (2 ^ 52 : ℚ) * 2 ^ unit num den ≤ units num den * 2 ^ unit num den := by
      gcongr
      exact_mod_cast le_units hnum hden (by omega)
    have hquot : (2 ^ 52 : ℚ) * 2 ^ unit num den ≤ num / den := by
      have hbinade : (52 : Int) + unit num den = binade num den := by
        unfold unit at *
        omega
      refine le_trans (le_of_eq ?_) hlow
      rw [← hbinade, zpow_add₀ two_ne_zero]
      norm_num
    refine iff_of_true ?_ (.inl (hle.trans_le hquot))
    calc (k * 2 ^ e : ℚ) ≤ (k + 1 / 2) * 2 ^ e := by gcongr; linarith
      _ < 2 ^ 52 * 2 ^ unit num den := hle
      _ ≤ units num den * 2 ^ unit num den := hunits

/-! ## The nearest magnitude -/

/-- A double of full precision lies below the nearest magnitude of a quotient exactly when the
    quotient is above the midpoint to the next double, or on it, if the mantissa of the double is
    odd. -/
theorem lt_value_nearest?_iff (hden : 0 < den) {x : Magnitude} (h : nearest? num den = some x)
    {k : Nat} {e : Int} (hk : 2 ^ 52 ≤ k) (hk' : k < 2 ^ 53) (he : -1074 ≤ e) :
    (k * 2 ^ e : ℚ) < x.value ↔ ((k + 1 / 2) * 2 ^ e : ℚ) < num / den ∨
      (((k + 1 / 2) * 2 ^ e : ℚ) = num / den ∧ k % 2 = 1) := by
  rcases Nat.eq_zero_or_pos num with rfl | hnum
  · obtain rfl : ⟨0, 0⟩ = x := Option.some.inj h
    have hmid : (0 : ℚ) < (k + 1 / 2) * 2 ^ e := by positivity
    have hdouble : (0 : ℚ) ≤ k * 2 ^ e := by positivity
    rw [value, Nat.cast_zero, zero_mul, zero_div]
    exact iff_of_false hdouble.not_gt (by rintro (h | ⟨h, -⟩) <;> linarith)
  · rw [nearest?_eq hnum] at h
    split at h
    · exact absurd h (by simp)
    · obtain rfl := Option.some.inj h
      rw [value_carry]
      exact lt_scaled_units_iff hnum hden hk hk' he

/-- The first quotient that is rounded up beyond the largest double: the midpoint between it and
    `2 ^ 1024`. -/
def overflowBound : ℚ := 2 ^ 1024 - 2 ^ 970

theorem overflowBound_eq : overflowBound = ((2 ^ 53 - 1 : Nat) + 1 / 2) * 2 ^ (971 : Int) := by
  have hsplit : (2 : ℚ) ^ 1024 = 2 ^ 54 * 2 ^ 970 := by rw [← pow_add]
  have hhalf : (2 : ℚ) ^ (971 : Int) = 2 * 2 ^ 970 := by
    rw [← pow_succ', ← zpow_natCast]
    rfl
  have hcast : ((2 ^ 53 - 1 : Nat) : ℚ) = 2 ^ 53 - 1 := by norm_num
  rw [overflowBound, hsplit, hhalf, hcast]
  generalize (2 : ℚ) ^ 970 = x
  ring

/-- A mantissa and exponent stand for more than the largest double of an exponent exactly when the
    exponent is larger, or the mantissa has been carried. -/
theorem largest_lt_iff {m : Nat} {e top : Int} (hle : m ≤ 2 ^ 53) (hge : top < e → 2 ^ 52 ≤ m) :
    ((2 ^ 53 - 1 : Nat) * 2 ^ top : ℚ) < m * 2 ^ e ↔ top < e ∨ (e = top ∧ m = 2 ^ 53) := by
  have hcast : ((2 ^ 53 - 1 : Nat) : ℚ) = 2 ^ 53 - 1 := by norm_num
  have hnext : ∀ k : Int, (2 ^ 53 : ℚ) * 2 ^ k = 2 ^ 52 * 2 ^ (k + 1) := by
    intro k
    rw [zpow_add_one₀ two_ne_zero]
    ring
  have hunit : (0 : ℚ) < 2 ^ top := by positivity
  rw [hcast]
  rcases lt_trichotomy e top with he | rfl | he
  · have hm : (m : ℚ) ≤ 2 ^ 53 := by exact_mod_cast hle
    have hbound : (m : ℚ) * 2 ^ e ≤ (2 ^ 53 - 1) * 2 ^ top := by
      calc (m : ℚ) * 2 ^ e ≤ 2 ^ 53 * 2 ^ e := by gcongr
        _ = 2 ^ 52 * 2 ^ (e + 1) := hnext e
        _ ≤ 2 ^ 52 * 2 ^ top := by
            gcongr
            · norm_num
            · omega
        _ ≤ (2 ^ 53 - 1) * 2 ^ top := by gcongr; norm_num
    exact iff_of_false (not_lt.2 hbound) (by omega)
  · rw [mul_lt_mul_iff_left₀ hunit, ← hcast, Nat.cast_lt]
    omega
  · refine iff_of_true ?_ (.inl he)
    have hm : (2 ^ 52 : ℚ) ≤ m := by exact_mod_cast hge he
    calc (2 ^ 53 - 1 : ℚ) * 2 ^ top < 2 ^ 53 * 2 ^ top := by gcongr; linarith
      _ = 2 ^ 52 * 2 ^ (top + 1) := hnext top
      _ ≤ m * 2 ^ e := by
          gcongr
          · norm_num
          · omega

theorem lt_exponent_carry_iff (m : Nat) (e : Int) :
    971 < (carry ⟨m, e⟩).exponent ↔ 971 < e ∨ (e = 971 ∧ m = 2 ^ 53) := by
  have htop : power 2 53 = 2 ^ 53 := rfl
  unfold carry
  split <;> simp only [htop] at * <;> omega

/-- There is no nearest magnitude from the midpoint behind the largest double on. -/
theorem nearest?_eq_none_iff (hden : 0 < den) :
    nearest? num den = none ↔ overflowBound ≤ num / den := by
  rcases Nat.eq_zero_or_pos num with rfl | hnum
  · have hpos : 0 < overflowBound := by
      rw [overflowBound_eq]
      positivity
    simp [nearest?, hpos]
  have hlargest : overflowBound ≤ num / den ↔
      ((2 ^ 53 - 1 : Nat) * 2 ^ (971 : Int) : ℚ) < units num den * 2 ^ unit num den := by
    rw [lt_scaled_units_iff hnum hden (by norm_num) (by norm_num) (by norm_num), ← overflowBound_eq,
      and_iff_left (by norm_num), le_iff_lt_or_eq]
  have hge : 971 < unit num den → 2 ^ 52 ≤ units num den :=
    fun h => le_units hnum hden (by omega)
  rw [hlargest, largest_lt_iff (units_le hnum hden) hge, ← lt_exponent_carry_iff, nearest?_eq hnum]
  split <;> simp_all

end

end Magnitude

end FlowSketch
