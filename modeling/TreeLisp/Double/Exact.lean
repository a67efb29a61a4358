/-!
# Exact values of doubles

A finite double is a whole number of units of 2⁻¹⁰⁷⁴, the smallest positive double: its mantissa
times a power of two. Integers are whole numbers of the same unit, so integers and doubles are
compared through one count of units and no rounding enters.
-/
namespace TreeLisp.Double

/-- What the 64 bits of a double say. A finite one is `mantissa · 2 ^ exponent` units. -/
inductive Exact where
  | nan
  | infinite (negative : Bool)
  | finite (negative : Bool) (mantissa exponent : Nat)
deriving DecidableEq

def infinity : Float := Float.ofBits 0x7FF0000000000000

def notANumber : Float := Float.ofBits 0x7FF8000000000000

/-- A word is a sign bit, eleven bits of exponent and 52 bits of fraction. The least exponent
leaves the fraction as it is, the greatest marks the infinities and NaN. -/
def decode (word : Nat) : Exact :=
  let negative := word / Nat.pow 2 63 % 2 == 1
  let exponent := word / Nat.pow 2 52 % Nat.pow 2 11
  let fraction := word % Nat.pow 2 52
  if exponent = Nat.pow 2 11 - 1 then
    if fraction = 0 then .infinite negative else .nan
  else if exponent = 0 then .finite negative fraction 0
  else .finite negative (Nat.pow 2 52 + fraction) (exponent - 1)

def exact (x : Float) : Exact :=
  decode x.toBits.toNat

/-- Units of the smallest positive double in the number one. -/
def unitsOfOne : Nat := Nat.pow 2 1074

/-- An extended integer, counting units. -/
inductive Units where
  | below
  | count (units : Int)
  | above
deriving DecidableEq

def Units.lt : Units → Units → Bool
  | .below, .below => false
  | .below, _ => true
  | .count _, .below => false
  | .count a, .count b => a < b
  | .count _, .above => true
  | .above, _ => false

def Exact.units? : Exact → Option Units
  | .nan => none
  | .infinite true => some .below
  | .infinite false => some .above
  | .finite true m e => some (.count (-(m * Nat.pow 2 e : Nat)))
  | .finite false m e => some (.count (m * Nat.pow 2 e : Nat))

def units? (x : Float) : Option Units :=
  (exact x).units?

def unitsOfInt (n : Int) : Units :=
  .count (n * unitsOfOne)

end TreeLisp.Double
