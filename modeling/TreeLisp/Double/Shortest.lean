import TreeLisp.Double.Exact
import TreeLisp.Text.Digits

/-!
# Shortest decimals

The fewest decimal digits that read back as a given double. The reals that round to a finite
double form an interval around it, whose ends belong to it when the mantissa is even. For one
digit, two digits, and so on, the two decimals next to the double are tested against that interval;
the first precision with a hit wins, and of two hits the nearer one, the even one in a tie.
-/
namespace TreeLisp.Double

/-- The decimal `digits · 10 ^ scale`. -/
structure Decimal where
  digits : Nat
  scale : Int
deriving DecidableEq

/-- How many decimal digits a number has; zero has one. -/
def digitCount (n : Nat) : Nat :=
  (Text.digits n).length

/-- The exponent `k` with `10 ^ k ≤ units · 2⁻¹⁰⁷⁴ < 10 ^ (k + 1)`, for a positive count of
units. -/
def leadingExponent (units : Nat) : Int :=
  if unitsOfOne ≤ units then (digitCount (units / unitsOfOne) : Int) - 1
  else -((digitCount ((unitsOfOne - 1) / units) : Int))

structure Ratio where
  num : Nat
  den : Nat

/-- `units · 2⁻¹⁰⁷⁴` counted in steps of `10 ^ scale`, as a ratio. -/
def stepsOf (units : Nat) (scale : Int) : Ratio :=
  ⟨units * Nat.pow 10 (-scale).toNat, unitsOfOne * Nat.pow 10 scale.toNat⟩

/-- The interval of reals that round to a finite double, in quarters of its unit. The gap below a
power of two is half as wide as the gap above it. -/
def roundingQuarters (mantissa exponent : Nat) : Nat × Nat :=
  let below := if mantissa = Nat.pow 2 52 ∧ 0 < exponent then 1 else 2
  ((4 * mantissa - below) * Nat.pow 2 exponent, (4 * mantissa + 2) * Nat.pow 2 exponent)

/-- Whether `n · 10 ^ scale` rounds to the double `mantissa · 2 ^ exponent`. -/
def readsBack (mantissa exponent : Nat) (scale : Int) (n : Nat) : Bool :=
  let (low, high) := roundingQuarters mantissa exponent
  let value := 4 * n * (unitsOfOne * Nat.pow 10 scale.toNat)
  let low := low * Nat.pow 10 (-scale).toNat
  let high := high * Nat.pow 10 (-scale).toNat
  if mantissa % 2 = 0 then low ≤ value && value ≤ high else low < value && value < high

/-- The decimal on the grid of `10 ^ scale` that reads back and is nearest, if there is one. -/
def onGrid? (mantissa exponent : Nat) (scale : Int) : Option Nat :=
  let r := stepsOf (mantissa * Nat.pow 2 exponent) scale
  let n := r.num / r.den
  match readsBack mantissa exponent scale n, readsBack mantissa exponent scale (n + 1) with
  | false, false => none
  | true, false => some n
  | false, true => some (n + 1)
  | true, true =>
    let twice := 2 * (r.num % r.den)
    if twice < r.den then some n
    else if r.den < twice then some (n + 1)
    else if n % 2 = 0 then some n
    else some (n + 1)

/-- Drop the zeros at the end of the digits, at most `fuel` of them. -/
def Decimal.strip : Nat → Decimal → Decimal
  | 0, d => d
  | fuel + 1, d =>
    if d.digits % 10 = 0 ∧ d.digits ≠ 0 then strip fuel ⟨d.digits / 10, d.scale + 1⟩ else d

/-- Seventeen digits tell any two doubles apart, so the search by precision ends there. -/
def shortestFrom (mantissa exponent : Nat) (leading : Int) : Nat → Nat → Decimal
  | 0, precision => ⟨mantissa, leading - precision⟩
  | fuel + 1, precision =>
    match onGrid? mantissa exponent (leading - precision) with
    | some n => Decimal.strip (precision + 2) ⟨n, leading - precision⟩
    | none => shortestFrom mantissa exponent leading fuel (precision + 1)

/-- The shortest decimal of the double with the given mantissa and exponent, zero for zero. -/
def shortest (mantissa exponent : Nat) : Decimal :=
  if mantissa = 0 then ⟨0, 0⟩
  else shortestFrom mantissa exponent (leadingExponent (mantissa * Nat.pow 2 exponent)) 17 0

end TreeLisp.Double
