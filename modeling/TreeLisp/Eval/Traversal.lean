import TreeLisp.Eval.Basic
import TreeLisp.Operation.Compute

/-!
# Traversals

Calling a function on the elements of a list. The function sees an ordinary call: its arguments are
names that no source text can contain, bound to the element values in a new frame below the calling
one. The first error that a call gives is the result.
-/
namespace TreeLisp

def argumentName (i : Nat) : String :=
  " arg" ++ Text.natText i

def argumentNames (args : List Value) : List String :=
  (List.range args.length).map argumentName

def callFunction (call : Caller) (f : Value) (args : List Value) (scope : FrameId) :
    Run Value := do
  let names := argumentNames args
  let frame ← Run.newFrame scope (names.zip args)
  call f (f :: names.map Value.symbol) frame

namespace Traversal

/-- The items to visit, once the callee is known to be a function. -/
def items (t : Traversal) (f sequence : Value) : Strict (List Value) :=
  if f.isFunction then
    match itemsFor t.name sequence with
    | .ok xs => pure xs
    | .error p => Strict.fail p
  else Strict.fail (.expects t.name .function f)

def mapItems (call : Caller) (f : Value) (scope : FrameId) : List Value → Strict (List Value)
  | [] => pure []
  | x :: later => do
    let v ← Strict.need (callFunction call f [x] scope)
    let vs ← mapItems call f scope later
    pure (v :: vs)

def filterItems (call : Caller) (f : Value) (scope : FrameId) : List Value → Strict (List Value)
  | [] => pure []
  | x :: later => do
    let keep ← Strict.need (callFunction call f [x] scope)
    let kept ← filterItems call f scope later
    pure (if keep.truthy then x :: kept else kept)

def foldItems (call : Caller) (f : Value) (scope : FrameId) (acc : Value) :
    List Value → Strict Value
  | [] => pure acc
  | x :: later => do
    let v ← Strict.need (callFunction call f [acc, x] scope)
    foldItems call f scope v later

def run (call : Caller) (t : Traversal) (args : List Value) (scope : FrameId) : Strict Value :=
  match t, args with
  | map, [f, sequence] => do
    return .list (← mapItems call f scope (← items map f sequence))
  | filter, [f, sequence] => do
    return .list (← filterItems call f scope (← items filter f sequence))
  | reduce, [f, initial, sequence] => do
    foldItems call f scope initial (← items reduce f sequence)
  | _, _ => Strict.fault .miscount

end Traversal

end TreeLisp
