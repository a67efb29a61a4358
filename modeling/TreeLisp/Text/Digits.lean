/-!
# Decimal digits

Naturals and integers as runs of decimal digits, written without leading zeros and read with any
number of them.
-/
namespace TreeLisp.Text

def digits (n : Nat) : List Char :=
  Nat.toDigits 10 n

def signed (negative : Bool) (text : List Char) : List Char :=
  if negative then '-' :: text else text

def natText (n : Nat) : String :=
  String.ofList (digits n)

def intText (n : Int) : String :=
  String.ofList (signed (decide (n < 0)) (digits n.natAbs))

def digitValue (c : Char) : Nat :=
  c.toNat - '0'.toNat

def natOfDigits (text : List Char) : Nat :=
  text.foldl (fun n c => 10 * n + digitValue c) 0

/-- Take an optional sign off the front; true stands for the minus sign. -/
def splitSign : List Char → Bool × List Char
  | '-' :: rest => (true, rest)
  | '+' :: rest => (false, rest)
  | rest => (false, rest)

/-- The integer written as an optional sign and at least one digit, and nothing else. -/
def intOfText? (text : List Char) : Option Int :=
  let (negative, unsigned) := splitSign text
  if unsigned ≠ [] ∧ unsigned.all Char.isDigit then
    let n : Int := natOfDigits unsigned
    some (if negative then -n else n)
  else none

end TreeLisp.Text
