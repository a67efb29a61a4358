import TreeLisp.Double.Shortest

/-!
# Numerals of doubles

A numeral is an optional sign, then digits with an optional point and an optional exponent, or one
of the words for infinity and for NaN. Its value is the nearest double, and an infinity when the
numeral is beyond the largest one.
-/
namespace TreeLisp.Double

/-- The exponent part of a numeral: nothing, or the letter e and an integer. -/
def exponentOf? : List Char → Option Int
  | [] => some 0
  | c :: rest => if c = 'e' ∨ c = 'E' then Text.intOfText? rest else none

/-- Digits with an optional point, at least one digit on one of its sides, and an exponent. -/
def decimalOf? (text : List Char) : Option Decimal :=
  let whole := text.takeWhile Char.isDigit
  let (fraction, rest) := match text.dropWhile Char.isDigit with
    | '.' :: rest => (rest.takeWhile Char.isDigit, rest.dropWhile Char.isDigit)
    | rest => ([], rest)
  if whole = [] ∧ fraction = [] then none
  else (exponentOf? rest).map fun e => ⟨Text.natOfDigits (whole ++ fraction), e - fraction.length⟩

/-- The double nearest to a decimal. Every positive double lies between 10⁻⁴⁰⁰ and 10⁴⁰⁰, so
decimals outside that range are settled by their leading digit's place alone. -/
def nearest (d : Decimal) : Float :=
  let place := d.scale + digitCount d.digits
  if d.digits = 0 ∨ place < -400 then Float.ofBits 0
  else if 400 < place then infinity
  else Float.ofScientific d.digits (decide (d.scale < 0)) d.scale.natAbs

/-- A word in one of its spellings, without regard to ASCII case. -/
def wordValue? (word : List Char) : Option Float :=
  let word := word.map Char.toLower
  if word = "inf".toList ∨ word = "infinity".toList then some infinity
  else if word = "nan".toList then some notANumber
  else none

def ofNumeral? (text : List Char) : Option Float :=
  let (negative, unsigned) := Text.splitSign text
  let magnitude := match decimalOf? unsigned with
    | some d => some (nearest d)
    | none => wordValue? unsigned
  magnitude.map fun x => if negative then -x else x

end TreeLisp.Double
