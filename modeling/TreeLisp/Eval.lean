import TreeLisp.Eval.Forms
import TreeLisp.Eval.Sugar
import TreeLisp.Eval.Traversal
import TreeLisp.Literal

/-!
# Evaluation

To evaluate a list is to evaluate its head and to hand the whole list, unevaluated, to the function
found there; before that, a list whose head names sugar or an expander is replaced by its expansion.
Every evaluation inside another one is a level deeper, and the number of levels is bounded.
-/
namespace TreeLisp

def evalAtom (token : Token) (scope : FrameId) : Run Value := do
  if token.kind = .string then return Literal.readString token.text
  match ← Run.getName? scope token.text with
  | some v => return v
  | none =>
    match Literal.read token.text with
    | .ok v => return v
    | .error f => throw f

def Compute.toStrict (c : Compute Value) : Strict Value :=
  match c.run with
  | .ok (.ok v) => pure v
  | .ok (.error p) => Strict.fail p
  | .error f => Strict.fault f

def checkArity (n : Native) (call : List Value) : Strict Unit :=
  match n.arity.problem? n.name call with
  | some p => Strict.fail p
  | none => pure ()

def runNative (ev : Evaluator) (call : Caller) (n : Native) (args : List Value)
    (scope : FrameId) : Strict Value :=
  match n with
  | .form f => f.run ev args scope
  | .operation op => do
    let vs ← if op.takesErrors then evalEach ev scope args else evalArgs ev scope args
    (op.compute vs).toStrict
  | .traversal t => do
    let vs ← evalArgs ev scope args
    t.run call vs scope

/-- Call a function with a whole call list; the calls that a traversal makes go to `call`. -/
def callWith (ev : Evaluator) (call : Caller) : Caller := fun f items scope =>
  match f with
  | .native n => Strict.settle do
    checkArity n items
    runNative ev call n items.tail scope
  | .function _ _ c => Strict.settle (c.call ev items.tail scope)
  | _ => pure (Problem.notCallable items).toValue

/-- Calls of call lists with fewer than `bound` items. A traversal that takes a list of some length
calls with a list that is shorter by one. -/
def callBelow (ev : Evaluator) : Nat → Caller
  | 0 => fun _ _ _ => throw .miscount
  | bound + 1 => callWith ev (callBelow ev bound)

def call (ev : Evaluator) : Caller := fun f items scope =>
  callBelow ev (items.length + 1) f items scope

/-- Apply the function at the head to the whole list. The empty list is nil. -/
def evalList (ev : Evaluator) (items : List Value) (scope : FrameId) : Run Value :=
  match items with
  | [] => pure .nil
  | head :: _ => Strict.settle do
    let f ← Strict.need (ev head scope)
    call ev f items scope

/-- The name at the head of a list and its value, if that takes unevaluated arguments. -/
def headExpander? (s : Store) (scope : FrameId) (items : List Value) : Option (String × Value) := do
  let name ← Value.headName? items
  let f ← s.get? scope name
  if f.isExpander then some (name, f) else none

def expand (ev : Evaluator) (f : Value) (items : List Value) : Run Value :=
  match f with
  | .sugar s =>
    match s.expand items with
    | .ok form => return form
    | .error f => throw f
  | .expander _ _ c => Strict.settle (c.invoke ev items.tail)
  | _ => pure (Problem.notCallable items).toValue

/-- One level of evaluation, with `ev` for the levels below. -/
def evalStep (ev : Evaluator) : Evaluator := fun v scope =>
  match v with
  | .list items => do
    match headExpander? (← get) scope items with
    | some (name, f) =>
      Run.record (.expanding name items)
      let form ← expand ev f items
      ev form scope
    | none => evalList ev items scope
  | .atom token => evalAtom token scope
  | v => pure v

def eval : Nat → Evaluator
  | 0 => fun _ _ => throw .nesting
  | bound + 1 => evalStep (eval bound)

def nestingBound : Nat := 1000

end TreeLisp
