import TreeLisp.Double.Shortest

/-!
# Text of doubles

Doubles are written with their shortest digits. The notation is positional while the leading digit
stands between the fourth place after the point and the sixteenth before it, and then always has a
point with a digit on both sides; outside that range it is scientific, with a sign and at least two
digits in the exponent.
-/
namespace TreeLisp.Double

/-- The exponents of the leading digit that are written positionally: `least ≤ e < limit`. -/
structure Positional where
  least : Int
  limit : Int

def positional : Positional := ⟨-4, 16⟩

def zeros (n : Nat) : List Char :=
  List.replicate n '0'

/-- Digits with the point after the digit of weight one; `leading` is the weight of the first. -/
def positionalText (digits : List Char) (leading : Int) : List Char :=
  if leading < 0 then '0' :: '.' :: zeros (-leading - 1).toNat ++ digits
  else
    let whole := leading.toNat + 1
    if digits.length ≤ whole then digits ++ zeros (whole - digits.length) ++ ['.', '0']
    else digits.take whole ++ '.' :: digits.drop whole

def exponentText (e : Int) : List Char :=
  let digits := Text.digits e.natAbs
  (if e < 0 then '-' else '+') :: zeros (2 - digits.length) ++ digits

def scientificText (digits : List Char) (leading : Int) : List Char :=
  let mantissa := match digits with
    | first :: second :: rest => first :: '.' :: second :: rest
    | digits => digits
  mantissa ++ 'e' :: exponentText leading

def decimalText (d : Decimal) : List Char :=
  let digits := Text.digits d.digits
  let leading := d.scale + digits.length - 1
  if positional.least ≤ leading ∧ leading < positional.limit then positionalText digits leading
  else scientificText digits leading

def Exact.text : Exact → List Char
  | .nan => "nan".toList
  | .infinite negative => Text.signed negative "inf".toList
  | .finite negative m e => Text.signed negative (decimalText (shortest m e))

def text (x : Float) : String :=
  String.ofList (exact x).text

end TreeLisp.Double
