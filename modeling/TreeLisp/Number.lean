import TreeLisp.Double.Exact
import TreeLisp.Value

/-!
# Numbers

Integers and doubles mix in arithmetic and in comparisons. Arithmetic on two integers is exact;
otherwise an integer operand is first converted to the nearest double. Comparisons never convert:
they compare the exact values, and NaN is neither equal to, below nor above any number.
-/
namespace TreeLisp

inductive Number where
  | int (n : Int)
  | float (x : Float)

namespace Number

def toValue : Number → Value
  | int n => .int n
  | float x => .float x

def units? : Number → Option Double.Units
  | int n => some (Double.unitsOfInt n)
  | float x => Double.units? x

def equal (a b : Number) : Bool :=
  match a.units?, b.units? with
  | some x, some y => x == y
  | _, _ => false

def less (a b : Number) : Bool :=
  match a.units?, b.units? with
  | some x, some y => x.lt y
  | _, _ => false

def lessEqual (a b : Number) : Bool :=
  a.less b || a.equal b

def isZero (a : Number) : Bool :=
  a.units? == some (.count 0)

/-- The first natural that is nearer to 2¹⁰²⁴ than to the largest double. -/
def floatLimit : Nat := Nat.pow 2 1024 - Nat.pow 2 970

/-- The nearest double, none for an integer that lies beyond the largest one. -/
def toFloat? : Number → Option Float
  | int n => if n.natAbs < floatLimit then some (Float.ofInt n) else none
  | float x => some x

/-- Combine two numbers, exactly when both are integers and as doubles otherwise. -/
def combine? (onInts : Int → Int → Int) (onFloats : Float → Float → Float) :
    Number → Number → Option Number
  | int a, int b => some (int (onInts a b))
  | a, b => do
    let x ← a.toFloat?
    let y ← b.toFloat?
    some (float (onFloats x y))

def add? : Number → Number → Option Number := combine? (· + ·) (· + ·)

def sub? : Number → Number → Option Number := combine? (· - ·) (· - ·)

def mul? : Number → Number → Option Number := combine? (· * ·) (· * ·)

/-- Division of two integers drops the fraction. -/
def div? : Number → Number → Option Number := combine? Int.tdiv (· / ·)

def neg : Number → Number
  | int n => int (-n)
  | float x => float (-x)

def leastInt : Int := -Int.pow 2 63

def greatestInt : Int := Int.pow 2 63 - 1

/-- An integer is in range when it fits 64 bits; every double is. -/
def inRange : Number → Bool
  | int n => leastInt ≤ n && n ≤ greatestInt
  | float _ => true

end Number

def Value.number? : Value → Option Number
  | .int n => some (.int n)
  | .float x => some (.float x)
  | _ => none

end TreeLisp
