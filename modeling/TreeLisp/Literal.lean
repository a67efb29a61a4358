import TreeLisp.Double.Numeral
import TreeLisp.Fault
import TreeLisp.Number
import TreeLisp.Problem

/-!
# Literals

The values of symbols that no frame binds, and of string tokens. An integer beyond 64 bits is read
as a double. In a string only the backslash with the letter n is an escape.
-/
namespace TreeLisp.Literal

/-- The dotless small i and the dotted capital I count as the letter i. -/
def foldLetter (c : Char) : Char :=
  if c = 'ı' ∨ c = 'İ' then 'i' else c

/-- A text that spells a word for a special number, possibly with a letter outside ASCII. -/
def spellsNumeral (text : List Char) : Bool :=
  (Double.wordValue? ((Text.splitSign text).2.map foldLetter)).isSome

def mostDigits : Nat := 19

/-- The natural that a run of digits stands for. The run must be neither empty nor too long. -/
def natural (digits : List Char) : Except Fault Nat :=
  if 0 < digits.length ∧ digits.length ≤ mostDigits then .ok (Text.natOfDigits digits)
  else .error .digits

/-- The digits without leading zeros; one zero stays if there is nothing else. -/
def significant (digits : List Char) : List Char :=
  match digits.dropWhile (· = '0') with
  | [] => ['0']
  | first :: rest => first :: rest

/-- The integer that a text stands for, none when it is not an integer of 64 bits. Too many digits
are not converted at all. -/
def integer? (text : List Char) : Except Fault (Option Int) :=
  let (negative, unsigned) := Text.splitSign text
  if unsigned ≠ [] ∧ unsigned.all Char.isDigit ∧ (significant unsigned).length ≤ mostDigits then
    match natural (significant unsigned) with
    | .error f => .error f
    | .ok magnitude =>
      let n : Int := if negative then -magnitude else magnitude
      .ok (if (Number.int n).inRange then some n else none)
  else .ok none

/-- The value of a symbol's text. A word for a special number that is not spelled in ASCII has
none. -/
def read (text : String) : Except Fault Value :=
  let chars := text.toList
  if text = "nil" then .ok .nil
  else if text = "true" then .ok (.bool true)
  else if text = "false" then .ok (.bool false)
  else match integer? chars with
    | .error f => .error f
    | .ok (some n) => .ok (.int n)
    | .ok none =>
      match Double.ofNumeral? chars with
      | some x => .ok (.float x)
      | none =>
        if spellsNumeral chars then .error (.numeral text)
        else .ok (Problem.noLiteral text).toValue

def unescape : List Char → List Char
  | '\\' :: 'n' :: rest => '\n' :: unescape rest
  | c :: rest => c :: unescape rest
  | [] => []

/-- The value of a string token's text, quotes included. -/
def readString (text : String) : Value :=
  match text.toList with
  | '"' :: rest =>
    if rest.getLast? = some '"' then .string (String.ofList (unescape rest.dropLast))
    else Problem.malformedString.toValue
  | _ => Problem.malformedString.toValue

end TreeLisp.Literal
