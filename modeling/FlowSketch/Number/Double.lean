/-!
# Doubles

The real numbers of the program: binary64, held exactly as `mantissa * 2 ^ exponent`.

* `power` — a power that is one for a negative exponent.
* `roundQuotient` — a quotient of naturals rounded to the nearest integer, ties to even.
* `Magnitude.nearest?` — a quotient of naturals rounded to the nearest magnitude of binary64,
  ties to even; none beyond the largest.
* `Double.ofDecimal` — the double nearest to a decimal number.
* `Double.truncate?` — the integer part.

Results:

* `roundQuotient_mul`: a quotient that is an integer is kept.
-/

namespace FlowSketch

/-- The power `base ^ k`, and one for negative `k`: a factor `base ^ k` of a fraction is
    `power base k` in its numerator and `power base (-k)` in its denominator. -/
def power (base : Nat) (k : Int) : Nat := base.pow k.toNat

/-- The integer nearest to `num / den`, the even one of two. -/
def roundQuotient (num den : Nat) : Nat :=
  let q := num / den
  let r := num % den
  if 2 * r < den ∨ (2 * r = den ∧ q % 2 = 0) then q else q + 1

theorem roundQuotient_mul (n : Nat) {den : Nat} (h : 0 < den) :
    roundQuotient (n * den) den = n := by
  simp [roundQuotient, Nat.mul_div_cancel n h, h]

/-- The finite number `mantissa * 2 ^ exponent`, not negative. -/
structure Magnitude where
  mantissa : Nat
  exponent : Int
  deriving DecidableEq, Repr

namespace Magnitude

/-- The numerator of the value as a fraction. -/
def num (x : Magnitude) : Nat := x.mantissa * power 2 x.exponent

/-- The denominator of the value as a fraction. -/
def den (x : Magnitude) : Nat := power 2 (-x.exponent)

/-- The exponent of the power of two just below or at `num / den`. -/
def binade (num den : Nat) : Int :=
  let k : Int := (num.log2 : Int) - den.log2
  if num * power 2 (-k) < den * power 2 k then k - 1 else k

/-- A mantissa that rounding has carried to 2 ^ 53 is written with the next exponent. -/
def carry (x : Magnitude) : Magnitude :=
  if x.mantissa = power 2 53 then ⟨power 2 52, x.exponent + 1⟩ else x

/-- The magnitude of binary64 nearest to `num / den`: 53 significant bits, fewer only below the
    exponent -1022, and the even mantissa of two. None when the quotient rounds to 2 ^ 1024 or
    more. -/
def nearest? (num den : Nat) : Option Magnitude :=
  if num = 0 then some ⟨0, 0⟩
  else
    let exponent := max (binade num den - 52) (-1074)
    let mantissa := roundQuotient (num * power 2 (-exponent)) (den * power 2 exponent)
    let rounded := carry ⟨mantissa, exponent⟩
    if 971 < rounded.exponent then none else some rounded

/-- Greater than a natural number. -/
def exceeds (x : Magnitude) (bound : Nat) : Bool := bound * x.den < x.num

end Magnitude

/-- A double with a sign; no operation of the program makes a number that is not one. -/
inductive Double where
  | finite (negative : Bool) (magnitude : Magnitude)
  | infinite (negative : Bool)
  deriving DecidableEq, Repr

namespace Double

/-- The double nearest to `digits * 10 ^ exponent`, infinite beyond the largest. An exponent that
    is out of all proportion to the digits is not multiplied out. -/
def ofDecimal (negative : Bool) (digits : Nat) (exponent : Int) : Double :=
  let size : Int := (digits.log2 : Int) + 1
  if digits = 0 ∨ size + 3 * exponent < -1200 ∧ exponent < 0 then .finite negative ⟨0, 0⟩
  else if 400 < exponent then .infinite negative
  else
    match Magnitude.nearest? (digits * power 10 exponent) (power 10 (-exponent)) with
    | some x => .finite negative x
    | none => .infinite negative

/-- The integer part, toward zero. -/
def truncate? : Double → Option Int
  | .finite negative x =>
    let n : Int := (x.num / x.den : Nat)
    some (if negative then -n else n)
  | .infinite _ => none

/-- Zero of either sign. -/
def isZero : Double → Bool
  | .finite _ x => x.mantissa == 0
  | .infinite _ => false

end Double

end FlowSketch
