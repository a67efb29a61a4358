import TreeLisp.Operation.Arithmetic
import TreeLisp.Slice
import TreeLisp.Value.Equality

/-!
# Operations

What the operations make of their evaluated arguments. Nil stands for the empty list wherever a
list is taken.
-/
namespace TreeLisp

def itemsFor (name : String) : Value → Except Problem (List Value)
  | .list items => .ok items
  | .nil => .ok []
  | v => .error (.expects name .list v)

namespace Operation

def one : List Value → Compute Value
  | [v] => pure v
  | _ => (throw Fault.miscount : Except Fault Value)

def two : List Value → Compute (Value × Value)
  | [v, w] => pure (v, w)
  | _ => (throw Fault.miscount : Except Fault (Value × Value))

def items (op : Operation) (v : Value) : Compute (List Value) :=
  ExceptT.mk (pure (itemsFor op.name v))

def comparison (op : Operation) (related : Number → Number → Bool) (args : List Value) :
    Compute Value := do
  return .bool (Arithmetic.chained related (← Arithmetic.numbers op args))

def arithmetic (op : Operation) (f : List Number → Compute Number) (args : List Value) :
    Compute Value := do
  return (← f (← Arithmetic.numbers op args)).toValue

def test (args : List Value) (holds : Value → Bool) : Compute Value := do
  return .bool (holds (← one args))

def itemAt (xs : List Value) (i : Int) : Compute Value :=
  match Slice.item xs i with
  | .ok v => pure v
  | .error _ => (throw Fault.position : Except Fault Value)

def nthItem (sequence index : Value) (xs : List Value) : Compute Value :=
  match index with
  | .int i => if 0 ≤ i ∧ i < xs.length then itemAt xs i else throw (.outOfRange i sequence)
  | v => throw (.expects nth.name .index v)

def joined (op : Operation) : List Value → Compute (List Value)
  | [] => pure []
  | v :: others => do
    let front ← op.items v
    let back ← joined op others
    pure (front ++ back)

def displayed (args : List Value) : String :=
  String.join (args.map Value.display)

def compute (op : Operation) (args : List Value) : Compute Value :=
  match op with
  | add => op.arithmetic Arithmetic.sum args
  | sub => op.arithmetic Arithmetic.difference args
  | mul => op.arithmetic Arithmetic.product args
  | div => op.arithmetic Arithmetic.quotient args
  | mod => do
    let (n, d) ← two args
    Arithmetic.remainder n d
  | equal => pure (.bool (Arithmetic.chained Value.equal args))
  | less => op.comparison Number.less args
  | lessEqual => op.comparison Number.lessEqual args
  | greater => op.comparison (fun a b => b.less a) args
  | greaterEqual => op.comparison (fun a b => b.lessEqual a) args
  | not => test args fun v => !v.truthy
  | list => pure (.list args)
  | cons => do
    let (head, tail) ← two args
    return .list (head :: (← op.items tail))
  | first => do
    return (← op.items (← one args)).headD .nil
  | rest => do
    return .list (← op.items (← one args)).tail
  | nth => do
    let (sequence, index) ← two args
    nthItem sequence index (← op.items sequence)
  | count => do
    match ← one args with
    | .string text => return .int text.length
    | v => return .int (← op.items v).length
  | isEmpty => do
    return .bool (← op.items (← one args)).isEmpty
  | concat => do
    return .list (← op.joined args)
  | isNil => test args (· matches .nil)
  | isList => test args (· matches .list _)
  | isSymbol => test args (· matches .atom _)
  | isString => test args (· matches .string _)
  | isNumber => test args fun v => v.number?.isSome
  | isFunction => test args Value.isFunction
  | isExpander => test args Value.isExpander
  | isError => test args Value.isError
  | str => pure (.string (displayed args))
  | error => pure (.error (displayed args))
  | errorMessage => do
    match ← one args with
    | .error message => return .string message
    | v => throw (.expects op.name .error v)

end Operation

end TreeLisp
