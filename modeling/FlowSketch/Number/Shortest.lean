import FlowSketch.Number.Double

/-!
# The shortest decimal of a double

The decimal text of a double: the fewest digits that read back as the same double and, of these,
the ones nearest to it.

* `Decimal` — digits with the place of the decimal point.
* `Magnitude.shortest` — the shortest decimal of a magnitude.
* `Decimal.text` — positional from 10 ^ -4 up to 10 ^ 16, with an exponent elsewhere.
* `Double.text` — the same with a sign.
-/

namespace FlowSketch

/-- The number `digits * 10 ^ exponent`. -/
structure Decimal where
  digits : Nat
  exponent : Int
  deriving DecidableEq, Repr

namespace Decimal

/-- The nearest magnitude of a decimal. -/
def magnitude? (x : Decimal) : Option Magnitude :=
  Magnitude.nearest? (x.digits * power 10 x.exponent) (power 10 (-x.exponent))

/-- The decimal without zeros at its end; `fuel` bounds their number. -/
def trimZeros : (fuel : Nat) → Decimal → Decimal
  | 0, x => x
  | fuel + 1, x =>
    if x.digits ≠ 0 ∧ x.digits % 10 = 0 then trimZeros fuel ⟨x.digits / 10, x.exponent + 1⟩ else x

end Decimal

namespace Magnitude

/-- The exponent of the power of ten just below or at the value, by search upward from `k`. -/
def decade (x : Magnitude) : (fuel : Nat) → (k : Int) → Int
  | 0, k => k
  | fuel + 1, k =>
    if x.num * power 10 (-(k + 1)) < x.den * power 10 (k + 1) then k
    else decade x fuel (k + 1)

/-- The two neighbours of the value among the multiples of `10 ^ k`, the nearer one first; of two
    equally near the even one. -/
def neighbours (x : Magnitude) (k : Int) : List Decimal :=
  let num := x.num * power 10 (-k)
  let den := x.den * power 10 k
  let low : Decimal := ⟨num / den, k⟩
  let high : Decimal := ⟨num / den + 1, k⟩
  if roundQuotient num den = low.digits then [low, high] else [high, low]

/-- The first neighbour that reads back, on ever finer grids. -/
def search (x : Magnitude) : (fuel : Nat) → (k : Int) → Decimal
  | 0, k => (x.neighbours k).headD ⟨0, 0⟩
  | fuel + 1, k =>
    match (x.neighbours k).find? (fun d => d.magnitude? == some x) with
    | some d => d
    | none => search x fuel (k - 1)

/-- The fewest digits that read back as the magnitude; seventeen are always enough. -/
def shortest (x : Magnitude) : Decimal :=
  if x.mantissa = 0 then ⟨0, 0⟩ else (search x 16 (x.decade 700 (-330))).trimZeros 20

end Magnitude

namespace Decimal

/-- An exponent with its sign and at least two digits. -/
def exponentText (n : Int) : String :=
  let size := toString n.natAbs
  (if n < 0 then "-" else "+") ++ (if size.length < 2 then "0" ++ size else size)

/-- The text of a decimal: a point with at least one digit on either side, or one digit before the
    point and an exponent. -/
def text (x : Decimal) : String :=
  let ds := toString x.digits
  let point : Int := ds.length + x.exponent
  if x.digits = 0 then "0.0"
  else if -4 < point ∧ point ≤ 16 then
    if point ≤ 0 then "0." ++ String.ofList (List.replicate (-point).toNat '0') ++ ds
    else if ds.length ≤ point.toNat then
      ds ++ String.ofList (List.replicate (point.toNat - ds.length) '0') ++ ".0"
    else String.ofList (ds.toList.take point.toNat) ++ "." ++
      String.ofList (ds.toList.drop point.toNat)
  else
    let rest := String.ofList (ds.toList.drop 1)
    String.ofList (ds.toList.take 1) ++ (if rest = "" then "" else "." ++ rest) ++ "e" ++
      exponentText (point - 1)

end Decimal

/-- The text of a double. -/
def Double.text : Double → String
  | .finite negative x => (if negative then "-" else "") ++ x.shortest.text
  | .infinite negative => if negative then "-inf" else "inf"

end FlowSketch
