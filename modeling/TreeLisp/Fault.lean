import TreeLisp.Text.Quoted

/-!
# Faults

What stops an evaluation without giving a value. Only the first two can arise from a program. The
others are those of operations that do not work on everything, and every use of such an operation
comes behind a check that rules its fault out.
-/
namespace TreeLisp

inductive Fault where
  /-- Evaluations are nested deeper than the bound allows. -/
  | nesting
  /-- A text is spelled like a numeral and has no value. -/
  | numeral (text : String)
  /-- A native is run on a number of arguments that it does not take. -/
  | miscount
  /-- An integer lies beyond the largest double. -/
  | magnitude
  /-- A number is divided by zero. -/
  | zeroDivisor
  /-- A list has no item at a position. -/
  | position
  /-- A run of digits is empty or longer than any integer of 64 bits. -/
  | digits
deriving DecidableEq, Repr

def Fault.message? : Fault → Option String
  | nesting => none
  | numeral text => some ("could not convert string to float: " ++ Text.quoted text)
  | magnitude => some "int too large to convert to float"
  | miscount | zeroDivisor | position | digits => none

end TreeLisp
