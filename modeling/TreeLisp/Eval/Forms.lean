import TreeLisp.Eval.Closure
import TreeLisp.Eval.Template
import TreeLisp.Params

/-!
# Special forms

Each special form takes the unevaluated arguments of its call and decides what to evaluate, where
and in which order.
-/
namespace TreeLisp.SpecialForm

/-- An anonymous callable takes a name: the result is a new callable, and the old one keeps its
own. -/
def named (name : String) : Value → Run Value
  | .function serial old c =>
    if old = anonymous then return .function (← Run.newSerial) name (c.renamed name)
    else return .function serial old c
  | .expander serial old c =>
    if old = anonymous then return .expander (← Run.newSerial) name (c.renamed name)
    else return .expander serial old c
  | v => return v

/-- Bind a name in the current frame. The value is not bound when it is an error. -/
def runDefine (ev : Evaluator) (target form : Value) (scope : FrameId) : Strict Value :=
  match target.name? with
  | none => Strict.fail (.definedNotName target)
  | some name => do
    let v ← Strict.need (ev form scope)
    let v ← named name v
    Run.setName scope name v
    pure v

def runBranch (ev : Evaluator) (test whenTrue : Value) (whenFalse : Option Value)
    (scope : FrameId) : Strict Value := do
  let v ← Strict.need (ev test scope)
  if v.truthy then ev whenTrue scope
  else
    match whenFalse with
    | some form => ev form scope
    | none => pure .nil

/-- Make bindings one at a time; each value is evaluated in the frame of the earlier ones. -/
def bindEach (ev : Evaluator) (frame : FrameId) : List Value → Strict Unit
  | [] => pure ()
  | .list [target, form] :: later =>
    match target.name? with
    | none => Strict.fail (.boundNotName target)
    | some name => do
      let v ← Strict.need (ev form frame)
      Run.setName frame name v
      bindEach ev frame later
  | binding :: _ => Strict.fail (.bindingNotPair binding)

def runBind (ev : Evaluator) (bindings : Value) (body : List Value) (scope : FrameId) :
    Strict Value :=
  match bindings with
  | .list pairs => do
    let frame ← Run.newFrame scope []
    bindEach ev frame pairs
    evalSequence ev frame body
  | v => Strict.fail (.bindingsNotList v)

def closure (params : Value) (body : List Value) (scope : FrameId) : Strict (Closure Value) :=
  match Params.ofValue params with
  | .error p => Strict.fail p
  | .ok p => pure ⟨p.names, p.rest, body, scope, anonymous⟩

/-- The last of the values up to the first one that is false. -/
def conjunctionFrom (ev : Evaluator) (scope : FrameId) (last : Value) : List Value → Strict Value
  | [] => pure last
  | form :: later => do
    let v ← Strict.need (ev form scope)
    if v.truthy then conjunctionFrom ev scope v later else pure v

/-- The first value that is not false. -/
def disjunctionFrom (ev : Evaluator) (scope : FrameId) : List Value → Strict Value
  | [] => pure (.bool false)
  | form :: later => do
    let v ← Strict.need (ev form scope)
    if v.truthy then pure v else disjunctionFrom ev scope later

def run (ev : Evaluator) (f : SpecialForm) (args : List Value) (scope : FrameId) : Strict Value :=
  match f, args with
  | define, [target, form] => runDefine ev target form scope
  | branch, [test, whenTrue] => runBranch ev test whenTrue none scope
  | branch, [test, whenTrue, whenFalse] => runBranch ev test whenTrue (some whenFalse) scope
  | sequence, forms => evalSequence ev scope forms
  | bind, bindings :: body => runBind ev bindings body scope
  | function, params :: body => do
    let c ← closure params body scope
    return .function (← Run.newSerial) anonymous c
  | expander, params :: body => do
    let c ← closure params body scope
    return .expander (← Run.newSerial) anonymous c
  | quote, [form] => pure form
  | quasiquote, [template] => Template.fill ev scope template
  | unquote, _ => Strict.fail .unquoteOutside
  | splice, _ => Strict.fail .spliceOutside
  | conjunction, forms => conjunctionFrom ev scope (.bool true) forms
  | disjunction, forms => disjunctionFrom ev scope forms
  | eval, [form] => do
    let v ← Strict.need (ev form scope)
    ev v scope
  | _, _ => Strict.fault .miscount

end TreeLisp.SpecialForm
