import TreeLisp.Eval.Basic

/-!
# Closures

A closure is invoked on argument values: they are bound in a new frame whose parent is the frame
the closure was made in, and the body is evaluated there as a sequence. Nothing is bound when their
number does not fit.
-/
namespace TreeLisp.Closure

def countProblem? (c : Closure Value) (count : Nat) : Option Problem :=
  match c.rest with
  | none =>
    if count = c.params.length then none else some (.wrongCount c.name c.params.length count)
  | some _ =>
    if count < c.params.length then some (.tooFew c.name c.params.length count) else none

def bindPositional : List String → List Value → Bindings → Bindings
  | name :: names, v :: vs, bindings => bindPositional names vs (bindings.insert name v)
  | _, _, bindings => bindings

/-- The bindings of an invocation: a parameter that is named twice has its last argument. -/
def argumentBindings (c : Closure Value) (args : List Value) : Bindings :=
  let positional := bindPositional c.params args []
  match c.rest with
  | none => positional
  | some name => positional.insert name (.list (args.drop c.params.length))

def bind (c : Closure Value) (args : List Value) : Strict FrameId :=
  match c.countProblem? args.length with
  | some p => Strict.fail p
  | none => Run.newFrame c.scope (c.argumentBindings args)

def invoke (ev : Evaluator) (c : Closure Value) (args : List Value) : Strict Value := do
  let frame ← c.bind args
  evalSequence ev frame c.body

def call (ev : Evaluator) (c : Closure Value) (forms : List Value) (scope : FrameId) :
    Strict Value := do
  let args ← evalArgs ev scope forms
  Run.record (.calling c.name args.length)
  c.invoke ev args

def renamed (c : Closure Value) (name : String) : Closure Value :=
  { c with name }

end TreeLisp.Closure
