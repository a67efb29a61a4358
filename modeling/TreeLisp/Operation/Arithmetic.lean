import TreeLisp.Fault
import TreeLisp.Number
import TreeLisp.Problem

/-!
# Arithmetic

Sums, differences and quotients are computed without bounds and checked once, at the end; a product
is checked after every factor. A single argument of a difference is negated, and one of a quotient
is inverted.
-/
namespace TreeLisp

/-- A computation on values, which may find a problem or run into a fault. -/
abbrev Compute := ExceptT Problem (Except Fault)

namespace Arithmetic

def numbers (op : Operation) : List Value → Compute (List Number)
  | [] => pure []
  | v :: rest =>
    match v.number? with
    | none => throw (.expects op.name .numbers v)
    | some x => do
      let xs ← numbers op rest
      pure (x :: xs)

/-- Numbers of any size combine, except that an integer may be too large to meet a double. -/
def combined (result : Option Number) : Compute Number :=
  match result with
  | some x => pure x
  | none => (throw Fault.magnitude : Except Fault Number)

def checked (x : Number) : Compute Number :=
  if x.inRange then pure x else throw .overflow

def sum (xs : List Number) : Compute Number := do
  checked (← xs.foldlM (fun acc x => combined (acc.add? x)) (.int 0))

def difference : List Number → Compute Number
  | [] => (throw Fault.miscount : Except Fault Number)
  | [x] => checked x.neg
  | x :: rest => do checked (← rest.foldlM (fun acc y => combined (acc.sub? y)) x)

def product (xs : List Number) : Compute Number :=
  xs.foldlM (fun acc x => do checked (← combined (acc.mul? x))) (.int 1)

def divided (a b : Number) : Compute Number :=
  if b.isZero then (throw Fault.zeroDivisor : Except Fault Number) else combined (a.div? b)

def divideBy (acc x : Number) : Compute Number :=
  if x.isZero then throw .divisionByZero else divided acc x

def quotient : List Number → Compute Number
  | [] => (throw Fault.miscount : Except Fault Number)
  | [x] => do checked (← divideBy (.int 1) x)
  | x :: rest => do checked (← rest.foldlM divideBy x)

/-- The remainder of a division that drops the fraction; it has the sign of the numerator. There is
none by zero. -/
def modulo (n d : Int) : Compute Int :=
  if d = 0 then (throw Fault.zeroDivisor : Except Fault Int) else pure (n.tmod d)

def remainder : Value → Value → Compute Value
  | .int n, .int d =>
    if d = 0 then throw .divisionByZero else return .int (← modulo n d)
  | n, d => throw (.notIntegers n d)

def chained {α : Type} (related : α → α → Bool) : List α → Bool
  | x :: y :: rest => related x y && chained related (y :: rest)
  | _ => true

end Arithmetic

end TreeLisp
