import TreeLisp.Proofs.Run

/-!
# Calls of a known function

The head of a call stands for a function when it is that function or a name bound to it. Evaluating
such a head does nothing else than find the function, so the call is the function applied to the
whole list. One level of evaluation does not suffice for it.
-/
namespace TreeLisp

/-- The head of a call in a frame stands for the value: it is the value or a name bound to it. -/
def Store.denotes (s : Store) (scope : FrameId) (head f : Value) : Prop :=
  head = f ∨ ∃ name, head = .symbol name ∧ s.get? scope name = some f

theorem Value.not_expander_of_isFunction {f : Value} (hf : f.isFunction = true) :
    f.isExpander = false := by
  cases f <;> simp [isFunction, isExpander] at hf ⊢

theorem Value.not_error_of_isFunction {f : Value} (hf : f.isFunction = true) :
    f.isError = false := by
  cases f <;> simp [isFunction, isError] at hf ⊢

theorem Value.eq_error_of_isError {v : Value} (h : v.isError = true) :
    ∃ message, v = .error message := by
  cases v with
  | error message => exact ⟨message, rfl⟩
  | _ => cases h

theorem Value.name?_eq_some_iff {v : Value} {name : String} :
    v.name? = some name ↔ v = .symbol name := by
  constructor
  · intro h
    cases v with
    | atom token =>
      obtain ⟨kind, text⟩ := token
      cases kind <;> simp only [Value.name?, Option.some.injEq, reduceCtorEq] at h
      rw [h]
      rfl
    | _ => cases h
  · rintro rfl
    rfl

theorem headExpander_eq_none {s : Store} {scope : FrameId} {head f : Value}
    (h : s.denotes scope head f) (hf : f.isFunction = true) (args : List Value) :
    headExpander? s scope (head :: args) = none := by
  have hx := Value.not_expander_of_isFunction hf
  rcases h with rfl | ⟨name, rfl, hget⟩
  · cases head <;> first | rfl | simp [Value.isFunction] at hf
  · simp [headExpander?, Value.headName?, Value.symbol, Value.name?, Token.ofName, hget, hx]

theorem eval_name {s : Store} {scope : FrameId} {name : String} {v : Value}
    (h : s.get? scope name = some v) (bound : Nat) :
    (eval (bound + 1) (.symbol name) scope).run s = .ok v s := by
  have hkind : (Token.ofName name).kind ≠ .string := by simp [Token.ofName]
  have hname : s.get? scope (Token.ofName name).text = some v := h
  change (evalAtom (Token.ofName name) scope).run s = _
  simp only [evalAtom, if_neg hkind, EStateM.run_bind, Run.getName_apply, hname]
  rfl

theorem eval_denoted {s : Store} {scope : FrameId} {head f : Value}
    (h : s.denotes scope head f) (hf : f.isFunction = true) (bound : Nat) :
    (eval (bound + 1) head scope).run s = .ok f s := by
  rcases h with rfl | ⟨name, rfl, hget⟩
  · cases head <;> first | rfl | simp [Value.isFunction] at hf
  · exact eval_name hget bound

theorem evalStep_list {ev : Evaluator} {s : Store} {scope : FrameId} {items : List Value}
    (h : headExpander? s scope items = none) :
    (evalStep ev (.list items) scope).run s = (evalList ev items scope).run s := by
  have hget : (get : Run Store).run s = .ok s s := rfl
  simp only [evalStep, EStateM.run_bind, hget, h]

theorem eval_call {s : Store} {scope : FrameId} {head f : Value}
    (h : s.denotes scope head f) (hf : f.isFunction = true) (args : List Value) (bound : Nat) :
    (eval (bound + 2) (.list (head :: args)) scope).run s =
      (call (eval (bound + 1)) f (head :: args) scope).run s := by
  rw [eval, evalStep_list (headExpander_eq_none h hf args), evalList,
    Strict.settle_need_bind (eval_denoted h hf bound) (Value.not_error_of_isFunction hf),
    Strict.settle_lift]

theorem eval_call_one {s : Store} {scope : FrameId} {head f : Value}
    (h : s.denotes scope head f) (hf : f.isFunction = true) (args : List Value) :
    (eval 1 (.list (head :: args)) scope).run s = .error .nesting s := by
  rw [eval, evalStep_list (headExpander_eq_none h hf args), evalList]
  exact Strict.settle_need_fault rfl

section

variable {ev : Evaluator} {c c' : Caller}

theorem mapItems_congr {f : Value} {scope : FrameId}
    (h : ∀ x, callFunction c f [x] scope = callFunction c' f [x] scope) (xs : List Value) :
    Traversal.mapItems c f scope xs = Traversal.mapItems c' f scope xs := by
  induction xs with
  | nil => rfl
  | cons x xs ih => simp only [Traversal.mapItems, h, ih]

theorem filterItems_congr {f : Value} {scope : FrameId}
    (h : ∀ x, callFunction c f [x] scope = callFunction c' f [x] scope) (xs : List Value) :
    Traversal.filterItems c f scope xs = Traversal.filterItems c' f scope xs := by
  induction xs with
  | nil => rfl
  | cons x xs ih => simp only [Traversal.filterItems, h, ih]

theorem foldItems_congr {f : Value} {scope : FrameId}
    (h : ∀ acc x, callFunction c f [acc, x] scope = callFunction c' f [acc, x] scope)
    (xs : List Value) (acc : Value) :
    Traversal.foldItems c f scope acc xs = Traversal.foldItems c' f scope acc xs := by
  induction xs generalizing acc with
  | nil => rfl
  | cons x xs ih => simp only [Traversal.foldItems, h, ih]

theorem callFunction_congr {count : Nat}
    (h : ∀ f items scope, items.length ≤ count → c f items scope = c' f items scope) (f : Value)
    (args : List Value) (hargs : args.length < count) (scope : FrameId) :
    callFunction c f args scope = callFunction c' f args scope := by
  unfold callFunction
  refine bind_congr fun frame => h _ _ _ ?_
  simp only [argumentNames, List.length_cons, List.length_map, List.length_range]
  exact hargs

theorem length_of_exactly {count : Nat} {name : String} {items : List Value}
    (h : (Arity.exactly count).problem? name items = none) : items.length = count + 1 := by
  have hcount : argumentCount items = count := by simpa [Arity.problem?] using h
  unfold argumentCount at hcount
  omega

/-- A traversal calls with lists that are shorter than the one it has been called with. -/
theorem traversal_congr (t : Traversal) {items : List Value}
    (harity : t.arity.problem? t.name items = none)
    (h : ∀ f items' scope, items'.length < items.length → c f items' scope = c' f items' scope)
    (args : List Value) (scope : FrameId) : t.run c args scope = t.run c' args scope := by
  have hcall {count : Nat} (hlength : items.length = count + 1) (f : Value) (vs : List Value)
      (hvs : vs.length < count) : callFunction c f vs scope = callFunction c' f vs scope := by
    refine callFunction_congr (fun g items' frame hle => h g items' frame ?_) f vs hvs scope
    omega
  unfold Traversal.run
  split
  · next f sequence =>
    have hlength : items.length = 2 + 1 := length_of_exactly harity
    simp only [mapItems_congr fun x => hcall hlength f [x] (by simp)]
  · next f sequence =>
    have hlength : items.length = 2 + 1 := length_of_exactly harity
    simp only [filterItems_congr fun x => hcall hlength f [x] (by simp)]
  · next f initial sequence =>
    have hlength : items.length = 3 + 1 := length_of_exactly harity
    simp only [foldItems_congr fun acc x => hcall hlength f [acc, x] (by simp)]
  · rfl

theorem callWith_congr (f : Value) (items : List Value)
    (h : ∀ g items' frame, items'.length < items.length → c g items' frame = c' g items' frame)
    (scope : FrameId) : callWith ev c f items scope = callWith ev c' f items scope := by
  match f with
  | .native (.traversal t) =>
    simp only [callWith, checkArity]
    cases harity : (Native.traversal t).arity.problem? (Native.traversal t).name items with
    | some p => simp only [Strict.fail_bind]
    | none => simp only [runNative, traversal_congr t harity h]
  | .native (.form _) => simp only [callWith, runNative]
  | .native (.operation _) => simp only [callWith, runNative]
  | .function _ _ _ | .nil | .bool _ | .int _ | .float _ | .string _ | .atom _ | .list _
  | .sugar _ | .expander _ _ _ | .error _ => rfl

theorem callBelow_eq_call (f : Value) (items : List Value) (scope : FrameId) (bound : Nat)
    (hbound : items.length < bound) : callBelow ev bound f items scope = call ev f items scope := by
  -- Both sides make their calls with shorter lists, where both are calls by the hypothesis.
  induction hn : items.length using Nat.strongRecOn generalizing f items scope bound with
  | _ n ih =>
    obtain ⟨bound, rfl⟩ := Nat.exists_eq_succ_of_ne_zero (Nat.ne_zero_of_lt hbound)
    refine callWith_congr f items (fun g items' frame hlt => ?_) scope
    have hlt' : items'.length < n := hn ▸ hlt
    rw [ih items'.length hlt' g items' frame bound (by omega) rfl,
      ih items'.length hlt' g items' frame items.length hlt rfl]

theorem call_eq_callWith (f : Value) (items : List Value) (scope : FrameId) :
    call ev f items scope = callWith ev (call ev) f items scope :=
  callWith_congr f items (fun g items' frame hlt => callBelow_eq_call g items' frame _ hlt) scope

end

end TreeLisp
