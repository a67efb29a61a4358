import Mathlib.Logic.Relation
import TreeLisp.Proofs.Stopping
import TreeLisp.Proofs.World

/-!
# Errors are terminal

A focus is something that is about to be evaluated in a given store. The evaluation of a focus
enters another focus when it comes to evaluate that one and cannot do without its value: the forms
in strict positions whose earlier neighbours have given values, the calls that a traversal makes and
the parts of a template. An error in a focus is then the error of every focus around it, and the
store is left as it was at the error: nothing behind it is evaluated or bound.
-/
namespace TreeLisp

open Strict

inductive Task where
  | form (e : Value)
  /-- A call of a function with a whole call list. -/
  | call (f : Value) (items : List Value)
  /-- A call of a function on values. -/
  | apply (f : Value) (args : List Value)
  /-- A template to be copied. -/
  | fill (template : Value)

/-- A task in a frame of a store, with the number of levels left for it. -/
structure Focus where
  task : Task
  levels : Nat
  scope : FrameId
  store : Store

def Focus.outcome : Focus → EStateM.Result Fault Store Value
  | ⟨.form e, n, scope, s⟩ => (eval n e scope).run s
  | ⟨.call f items, n, scope, s⟩ => (call (eval n) f items scope).run s
  | ⟨.apply f args, n, scope, s⟩ => (callFunction (call (eval n)) f args scope).run s
  | ⟨.fill template, n, scope, s⟩ => (settle (Template.fill (eval n) scope template)).run s

/-- The function evaluates the arguments of the call in order and takes no errors for them. -/
def Value.takesValues (items : List Value) : Value → Bool
  | .function _ _ _ => true
  | .native (.operation op) => !op.takesErrors && (op.arity.problem? op.name items).isNone
  | .native (.traversal t) => (t.arity.problem? t.name items).isNone
  | _ => false

/-- The evaluation of the first focus comes to the second and needs its value. -/
inductive Enters : Focus → Focus → Prop where
  /-- The head of a call. -/
  | head {n : Nat} {scope : FrameId} {s : Store} {e : Value} {args : List Value}
      (h : headExpander? s scope (e :: args) = none) :
      Enters ⟨.form (.list (e :: args)), n + 1, scope, s⟩ ⟨.form e, n, scope, s⟩
  /-- The call itself, once the head has given a function. -/
  | call {n : Nat} {scope : FrameId} {s t : Store} {head f : Value} {args : List Value}
      (h : headExpander? s scope (head :: args) = none)
      (hhead : Passes (need (eval n head scope)) s f t) :
      Enters ⟨.form (.list (head :: args)), n + 1, scope, s⟩ ⟨.call f (head :: args), n, scope, t⟩
  /-- An argument of a function. -/
  | argument {n : Nat} {scope : FrameId} {s t : Store} {f head e : Value}
      {before after vs : List Value}
      (h : f.takesValues (head :: (before ++ e :: after)) = true)
      (hbefore : Passes (evalArgs (eval n) scope before) s vs t) :
      Enters ⟨.call f (head :: (before ++ e :: after)), n, scope, s⟩ ⟨.form e, n, scope, t⟩
  /-- A form of a function's body, in the frame in which the arguments are bound. -/
  | body {n : Nat} {scope frame : FrameId} {s t u r : Store} {serial : Nat} {name : String}
      {c : Closure Value} {head e : Value} {forms args before after vs : List Value}
      (hargs : Passes (evalArgs (eval n) scope forms) s args t)
      (hbind : Passes (c.bind args) (t.addRecord (.calling c.name args.length)) frame u)
      (hbody : c.body = before ++ e :: after)
      (hbefore : Passes (evalArgs (eval n) frame before) u vs r) :
      Enters ⟨.call (.function serial name c) (head :: forms), n, scope, s⟩ ⟨.form e, n, frame, r⟩
  /-- The value of a definition. -/
  | define {n : Nat} {scope : FrameId} {s : Store} {head target e : Value} {name : String}
      (h : target.name? = some name) :
      Enters ⟨.call (.native (.form .define)) [head, target, e], n, scope, s⟩
        ⟨.form e, n, scope, s⟩
  /-- The condition of a branch. -/
  | condition {n : Nat} {scope : FrameId} {s : Store} {head e whenTrue : Value}
      {whenFalse : List Value} (h : whenFalse.length ≤ 1) :
      Enters ⟨.call (.native (.form .branch)) (head :: e :: whenTrue :: whenFalse), n, scope, s⟩
        ⟨.form e, n, scope, s⟩
  | whenTrue {n : Nat} {scope : FrameId} {s t : Store} {head test e v : Value}
      {whenFalse : List Value} (h : whenFalse.length ≤ 1)
      (htest : Passes (need (eval n test scope)) s v t) (hv : v.truthy = true) :
      Enters ⟨.call (.native (.form .branch)) (head :: test :: e :: whenFalse), n, scope, s⟩
        ⟨.form e, n, scope, t⟩
  | whenFalse {n : Nat} {scope : FrameId} {s t : Store} {head test whenTrue e v : Value}
      (htest : Passes (need (eval n test scope)) s v t) (hv : v.truthy = false) :
      Enters ⟨.call (.native (.form .branch)) [head, test, whenTrue, e], n, scope, s⟩
        ⟨.form e, n, scope, t⟩
  /-- A form of a sequence. -/
  | sequence {n : Nat} {scope : FrameId} {s t : Store} {head e : Value}
      {before after vs : List Value} (hbefore : Passes (evalArgs (eval n) scope before) s vs t) :
      Enters ⟨.call (.native (.form .sequence)) (head :: (before ++ e :: after)), n, scope, s⟩
        ⟨.form e, n, scope, t⟩
  /-- The value of a binding, in the new frame that holds the bindings before it. -/
  | binding {n : Nat} {scope : FrameId} {s t : Store} {head target e : Value} {name : String}
      {before after body : List Value}
      (hbefore : Passes (SpecialForm.bindEach (eval n) s.frames.size before)
        (s.addFrame (some scope) []).2 () t)
      (h : target.name? = some name) :
      Enters ⟨.call (.native (.form .bind))
          (head :: .list (before ++ .list [target, e] :: after) :: body), n, scope, s⟩
        ⟨.form e, n, s.frames.size, t⟩
  /-- A form under bindings. -/
  | bound {n : Nat} {scope : FrameId} {s t u : Store} {head e : Value}
      {pairs before after vs : List Value}
      (hpairs : Passes (SpecialForm.bindEach (eval n) s.frames.size pairs)
        (s.addFrame (some scope) []).2 () t)
      (hbefore : Passes (evalArgs (eval n) s.frames.size before) t vs u) :
      Enters ⟨.call (.native (.form .bind)) (head :: .list pairs :: (before ++ e :: after)),
          n, scope, s⟩
        ⟨.form e, n, s.frames.size, u⟩
  /-- An operand behind operands that are all true. -/
  | conjunct {n : Nat} {scope : FrameId} {s t : Store} {head e : Value}
      {before after vs : List Value} (hbefore : Passes (evalArgs (eval n) scope before) s vs t)
      (hvs : ∀ v ∈ vs, v.truthy = true) :
      Enters ⟨.call (.native (.form .conjunction)) (head :: (before ++ e :: after)), n, scope, s⟩
        ⟨.form e, n, scope, t⟩
  /-- An operand behind operands that are all false. -/
  | disjunct {n : Nat} {scope : FrameId} {s t : Store} {head e : Value}
      {before after vs : List Value} (hbefore : Passes (evalArgs (eval n) scope before) s vs t)
      (hvs : ∀ v ∈ vs, v.truthy = false) :
      Enters ⟨.call (.native (.form .disjunction)) (head :: (before ++ e :: after)), n, scope, s⟩
        ⟨.form e, n, scope, t⟩
  /-- The form whose value is to be evaluated in its turn. -/
  | evaluated {n : Nat} {scope : FrameId} {s : Store} {head e : Value} :
      Enters ⟨.call (.native (.form .eval)) [head, e], n, scope, s⟩ ⟨.form e, n, scope, s⟩
  | template {n : Nat} {scope : FrameId} {s : Store} {head template : Value} :
      Enters ⟨.call (.native (.form .quasiquote)) [head, template], n, scope, s⟩
        ⟨.fill template, n, scope, s⟩
  | unquote {n : Nat} {scope : FrameId} {s : Store} {mark e : Value}
      (h : mark.name? = some Mark.unquote.head) :
      Enters ⟨.fill (.list [mark, e]), n, scope, s⟩ ⟨.form e, n, scope, s⟩
  | splice {n : Nat} {scope : FrameId} {s t : Store} {mark e : Value} {before after vs : List Value}
      (h : Value.headName? (before ++ .list [mark, e] :: after) ≠ some Mark.unquote.head)
      (hmark : mark.name? = some Mark.splice.head)
      (hbefore : Passes (Template.fillItems (eval n) scope before) s vs t) :
      Enters ⟨.fill (.list (before ++ .list [mark, e] :: after)), n, scope, s⟩
        ⟨.form e, n, scope, t⟩
  /-- An item of a template that is no splice. -/
  | item {n : Nat} {scope : FrameId} {s t : Store} {item : Value} {before after vs : List Value}
      (h : Value.headName? (before ++ item :: after) ≠ some Mark.unquote.head)
      (hitem : Template.argument? .splice item = none)
      (hbefore : Passes (Template.fillItems (eval n) scope before) s vs t) :
      Enters ⟨.fill (.list (before ++ item :: after)), n, scope, s⟩ ⟨.fill item, n, scope, t⟩
  /-- The call on an element, once the calls on the elements before it have given values. -/
  | element {n : Nat} {scope : FrameId} {s t u : Store} {tr : Traversal}
      {head function list f sequence x : Value} {before after vs : List Value}
      (htr : tr = .map ∨ tr = .filter)
      (hargs : Passes (evalArgs (eval n) scope [function, list]) s [f, sequence] t)
      (hf : f.isFunction = true) (hitems : itemsFor tr.name sequence = .ok (before ++ x :: after))
      (hbefore : Passes (Traversal.mapItems (call (eval n)) f scope before) t vs u) :
      Enters ⟨.call (.native (.traversal tr)) [head, function, list], n, scope, s⟩
        ⟨.apply f [x], n, scope, u⟩
  /-- The call on an element and what the calls on the elements before it have come to. -/
  | folded {n : Nat} {scope : FrameId} {s t u : Store}
      {head function start list f initial sequence x acc : Value} {before after : List Value}
      (hargs : Passes (evalArgs (eval n) scope [function, start, list]) s
        [f, initial, sequence] t)
      (hf : f.isFunction = true)
      (hitems : itemsFor Traversal.reduce.name sequence = .ok (before ++ x :: after))
      (hbefore : Passes (Traversal.foldItems (call (eval n)) f scope initial before) t acc u) :
      Enters ⟨.call (.native (.traversal .reduce)) [head, function, start, list], n, scope, s⟩
        ⟨.apply f [acc, x], n, scope, u⟩
  /-- A call on values is a call with names that are bound to them in a new frame. -/
  | apply {n : Nat} {scope : FrameId} {s : Store} {f : Value} {args : List Value} :
      Enters ⟨.apply f args, n, scope, s⟩
        ⟨.call f (f :: (argumentNames args).map Value.symbol), n, s.frames.size,
          (s.addFrame (some scope) ((argumentNames args).zip args)).2⟩

section

variable {n : Nat} {scope : FrameId} {s t u : Store} {message : String} {e : Value}
  {items : List Value}

theorem call_native_fails {f : Native} (harity : f.arity.problem? f.name items = none)
    (h : Fails (runNative (eval n) (call (eval n)) f items.tail scope) s message t) :
    (call (eval n) (.native f) items scope).run s = .ok (.error message) t := by
  rw [call_eq_callWith]
  simp only [callWith, checkArity, harity, pure_bind]
  exact h

theorem call_argument_error {f head : Value} {before after vs : List Value}
    (h : f.takesValues (head :: (before ++ e :: after)) = true)
    (hbefore : Passes (evalArgs (eval n) scope before) s vs t)
    (he : (eval n e scope).run t = .ok (.error message) u) :
    (call (eval n) f (head :: (before ++ e :: after)) scope).run s = .ok (.error message) u := by
  have hargs := evalArgs_stops hbefore he after
  match f with
  | .function _ _ c => exact (hargs.bind _).fails
  | .native (.operation op) =>
    simp only [Value.takesValues, Bool.and_eq_true, Bool.not_eq_true', Option.isNone_iff_eq_none] at h
    refine call_native_fails h.2 ?_
    simp only [runNative, h.1, Bool.false_eq_true, if_false]
    exact (hargs.bind _).fails
  | .native (.traversal tr) =>
    simp only [Value.takesValues, Option.isNone_iff_eq_none] at h
    exact call_native_fails h (hargs.bind _).fails

theorem branch_arity {test whenTrue head : Value} {whenFalse : List Value}
    (h : whenFalse.length ≤ 1) :
    (Native.form .branch).arity.problem? (Native.form .branch).name
      (head :: test :: whenTrue :: whenFalse) = none := by
  match whenFalse with
  | [] => rfl
  | [_] => rfl

theorem problem_eq_none_of_atLeast_one {f : Native} (hf : f.arity = .atLeast 1)
    (head first : Value) (later : List Value) :
    f.arity.problem? f.name (head :: first :: later) = none := by
  have hcount : ¬ argumentCount (head :: first :: later) < 1 := by
    simp only [argumentCount, List.length_cons]
    omega
  rw [hf]
  exact if_neg hcount

theorem runNative_branch {test whenTrue : Value} {whenFalse : List Value}
    (h : whenFalse.length ≤ 1) (ev : Evaluator) (caller : Caller) :
    runNative ev caller (.form .branch) (test :: whenTrue :: whenFalse) scope =
      SpecialForm.runBranch ev test whenTrue whenFalse.head? scope := by
  match whenFalse with
  | [] => rfl
  | [_] => rfl

theorem passes_newFrame (parent : FrameId) (bindings : Bindings) (s : Store) :
    Passes (liftM (Run.newFrame parent bindings)) s s.frames.size
      (s.addFrame (some parent) bindings).2 :=
  passes_lift rfl

theorem items_eq_pure {tr : Traversal} {f sequence : Value} (hf : f.isFunction = true)
    (h : itemsFor tr.name sequence = .ok items) : tr.items f sequence = pure items := by
  rw [Traversal.items, if_pos hf, h]

end

theorem Enters.error {a b : Focus} (h : Enters a b) {message : String} {t : Store}
    (hb : b.outcome = .ok (.error message) t) : a.outcome = .ok (.error message) t := by
  cases h with
  | head h =>
    refine (evalStep_list h).trans ?_
    exact ((stops_need hb).bind _).fails
  | call h hhead =>
    refine (evalStep_list h).trans ?_
    exact hhead.bind_fails (fails_lift hb)
  | argument h hbefore => exact call_argument_error h hbefore hb
  | body hargs hbind hbody hbefore =>
    refine hargs.bind_fails ((passes_lift rfl).bind_fails (hbind.bind_fails ?_))
    rw [hbody]
    exact (evalSequence_stops hbefore hb _).fails
  | define h =>
    refine call_native_fails rfl ?_
    simp only [runNative, List.tail_cons, SpecialForm.run, SpecialForm.runDefine, h]
    exact ((stops_need hb).bind _).fails
  | condition h =>
    refine call_native_fails (branch_arity h) ?_
    rw [List.tail_cons, runNative_branch h]
    exact ((stops_need hb).bind _).fails
  | whenTrue h htest hv =>
    refine call_native_fails (branch_arity h) ?_
    rw [List.tail_cons, runNative_branch h]
    refine htest.bind_fails ?_
    rw [if_pos hv]
    exact fails_lift hb
  | whenFalse htest hv =>
    refine call_native_fails rfl ?_
    refine htest.bind_fails ?_
    rw [if_neg (Bool.eq_false_iff.mp hv)]
    exact fails_lift hb
  | sequence hbefore => exact call_native_fails rfl (evalSequence_stops hbefore hb _).fails
  | binding hbefore h =>
    refine call_native_fails (problem_eq_none_of_atLeast_one rfl _ _ _) ((passes_newFrame _ _ _).bind_fails ?_)
    exact ((bindEach_stops hbefore h hb _).bind _).fails
  | bound hpairs hbefore =>
    refine call_native_fails (problem_eq_none_of_atLeast_one rfl _ _ _) ((passes_newFrame _ _ _).bind_fails ?_)
    exact hpairs.bind_fails (evalSequence_stops hbefore hb _).fails
  | conjunct hbefore hvs =>
    exact call_native_fails rfl (conjunctionFrom_stops hbefore hvs hb _ _).fails
  | disjunct hbefore hvs =>
    exact call_native_fails rfl (disjunctionFrom_stops hbefore hvs hb _).fails
  | evaluated => exact call_native_fails rfl ((stops_need hb).bind _).fails
  | template => exact call_native_fails rfl hb
  | unquote h => exact fill_unquote_fails h hb
  | splice h hmark hbefore => exact fill_splice_fails h hmark hbefore hb
  | item h hitem hbefore => exact fill_item_fails h hitem hbefore hb
  | element htr hargs hf hitems hbefore =>
    rcases htr with rfl | rfl
    · refine call_native_fails rfl (hargs.bind_fails ?_)
      simp only [Traversal.run, items_eq_pure hf hitems, pure_bind]
      exact ((mapItems_stops hbefore hb _).bind _).fails
    · refine call_native_fails rfl (hargs.bind_fails ?_)
      simp only [Traversal.run, items_eq_pure hf hitems, pure_bind]
      exact ((filterItems_stops hbefore hb _).bind _).fails
  | folded hargs hf hitems hbefore =>
    refine call_native_fails rfl (hargs.bind_fails ?_)
    simp only [Traversal.run, items_eq_pure hf hitems, pure_bind]
    exact (foldItems_stops hbefore hb _).fails
  | apply => exact hb

/-- An error is terminal: where the evaluation of a focus enters another one, through any number of
strict positions, and this gives an error, the whole gives the same error and leaves the store as
it was at the error. -/
theorem error_terminal {a b : Focus} (h : Relation.ReflTransGen Enters a b) {message : String}
    {t : Store} (hb : b.outcome = .ok (.error message) t) :
    a.outcome = .ok (.error message) t := by
  induction h using Relation.ReflTransGen.head_induction_on with
  | refl => exact hb
  | head hstep _ ih => exact hstep.error ih

/-- An argument fails in the second form of a sequence. The definition in the first form stays, and
the third form is not evaluated. -/
theorem error_terminal_nested :
    let s := (World.initial.run [.start]).store
    let t := s.set 1 "y" (.int 1)
    let hole : Value := .list [.symbol "first"]
    let define (n : Int) : Value := .list [.symbol "def", .symbol "y", .int n]
    let second : Value := .list [.symbol "list", .symbol "y", hole]
    let form : Value := .list [.symbol "do", define 1, second, define 2]
    Relation.ReflTransGen Enters ⟨.form form, 4, 1, s⟩ ⟨.form hole, 2, 1, t⟩ ∧
      (eval 2 hole 1).run t = .ok (.error "first takes 1 args, got 0") t ∧
      (eval 4 form 1).run s = .ok (.error "first takes 1 args, got 0") t := by
  intro s t hole define second form
  have hsequence : Enters ⟨.form form, 4, 1, s⟩
      ⟨.call (.native (.form .sequence)) [.symbol "do", define 1, second, define 2], 3, 1, s⟩ :=
    .call rfl (passes_need rfl rfl)
  have hfirst : Passes (evalArgs (eval 3) 1 [define 1]) s [.int 1] t := rfl
  have hsecond : Enters
      ⟨.call (.native (.form .sequence)) [.symbol "do", define 1, second, define 2], 3, 1, s⟩
      ⟨.form second, 3, 1, t⟩ := .sequence hfirst
  have hlist : Enters ⟨.form second, 3, 1, t⟩
      ⟨.call (.native (.operation .list)) [.symbol "list", .symbol "y", hole], 2, 1, t⟩ :=
    .call rfl (passes_need rfl rfl)
  have hname : Passes (evalArgs (eval 2) 1 [.symbol "y"]) t [.int 1] t := rfl
  have hargument : Enters
      ⟨.call (.native (.operation .list)) [.symbol "list", .symbol "y", hole], 2, 1, t⟩
      ⟨.form hole, 2, 1, t⟩ := .argument rfl hname
  have hpath := Relation.ReflTransGen.head hsequence (.head hsecond (.head hlist (.single hargument)))
  have hhole : (eval 2 hole 1).run t = .ok (.error "first takes 1 args, got 0") t := rfl
  exact ⟨hpath, hhole, error_terminal hpath hhole⟩

end TreeLisp
