/-!
# Positions from either end

A position counts from the front when it is not negative and from the back when it is. A slice
takes every `step`-th item from a start up to, and not including, a stop; a negative step walks
backwards, and a bound that is left out is the end of the list on its side. A position has to fit in
64 bits, while a bound may be any integer.
-/
namespace TreeLisp.Slice

inductive PositionError where
  | outOfRange
  /-- The position does not fit in 64 bits. -/
  | tooWide
  | zeroStep
deriving DecidableEq, Repr

def PositionError.message : PositionError → String
  | outOfRange => "tuple index out of range"
  | tooWide => "cannot fit 'int' into an index-sized integer"
  | zeroStep => "slice step cannot be zero"

def fitsWord (position : Int) : Bool :=
  -Int.pow 2 63 ≤ position ∧ position < Int.pow 2 63

def item {α : Type} (items : List α) (position : Int) : Except PositionError α :=
  let i := if position < 0 then position + items.length else position
  if !fitsWord position then .error .tooWide
  else if i < 0 then .error .outOfRange
  else
    match items[i.toNat]? with
    | some a => .ok a
    | none => .error .outOfRange

/-- A bound as a position from the front, moved into the range from `low` to `high`. -/
def clamp (length low high bound : Int) : Int :=
  let i := if bound < 0 then bound + length else bound
  max low (min high i)

/-- The positions from `start` to before `stop`, in steps that are not zero. -/
def positions (start stop step : Int) : List Int :=
  let distance := if 0 < step then stop - start else start - stop
  let count := (distance + step.natAbs - 1) / step.natAbs
  (List.range count.toNat).map fun (k : Nat) => start + k * step

def slice {α : Type} (items : List α) (start stop : Option Int) (step : Int) :
    Except PositionError (List α) :=
  let length : Int := items.length
  if step = 0 then .error .zeroStep
  else
    let low := if 0 < step then 0 else -1
    let high := if 0 < step then length else length - 1
    let first := match start with
      | some b => clamp length low high b
      | none => if 0 < step then low else high
    let last := match stop with
      | some b => clamp length low high b
      | none => if 0 < step then high else low
    .ok ((positions first last step).filterMap fun (i : Int) => items[i.toNat]?)

end TreeLisp.Slice
