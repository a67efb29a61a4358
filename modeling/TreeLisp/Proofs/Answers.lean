import Mathlib.Data.List.Chain
import TreeLisp.Proofs.Stopping

/-!
# What operations answer

An operation gets the values of its arguments and answers with a value: what it computes, or the
error that tells its problem. A call evaluates the arguments and returns the answer for their
values, so statements about answers are statements about calls.

Comparisons look at neighbours only. A chain of neighbours says something about all pairs as soon as
the relation is transitive.
-/
namespace TreeLisp

/-- The value that a computation comes to. An error tells its problem. -/
def Compute.answer (c : Compute Value) : Except Fault Value :=
  match c.run with
  | .ok (.ok v) => .ok v
  | .ok (.error p) => .ok p.toValue
  | .error f => .error f

@[simp] theorem Compute.answer_pure (v : Value) : Compute.answer (pure v) = .ok v := rfl

namespace Operation

/-- The value that the operation returns for the values of its arguments. -/
def answer (op : Operation) (args : List Value) : Except Fault Value :=
  (op.compute args).answer

/-- The operation answers with true. -/
def Affirms (op : Operation) (args : List Value) : Prop :=
  op.answer args = .ok (.bool true)

/-- The operation answers with true where the condition holds and with false where it does not. -/
def Decides (op : Operation) (args : List Value) (condition : Prop) : Prop :=
  ∃ b, op.answer args = .ok (.bool b) ∧ (b = true ↔ condition)

variable {op : Operation} {args : List Value} {condition : Prop}

theorem Decides.affirms_iff (h : op.Decides args condition) : op.Affirms args ↔ condition := by
  obtain ⟨b, hanswer, hb⟩ := h
  rw [Affirms, hanswer, ← hb]
  simp

theorem Decides.congr {condition' : Prop} (h : op.Decides args condition)
    (hiff : condition ↔ condition') : op.Decides args condition' := by
  obtain ⟨b, hanswer, hb⟩ := h
  exact ⟨b, hanswer, hb.trans hiff⟩

end Operation

theorem settle_toStrict {c : Compute Value} {v : Value} (h : c.answer = .ok v) (s : Store) :
    (Strict.settle c.toStrict).run s = .ok v s := by
  cases c with
  | error f => cases h
  | ok r =>
    cases r with
    | ok w =>
      cases h
      rfl
    | error p =>
      cases h
      rfl

open Strict in
/-- A call of an operation returns its answer for the values of the arguments, and leaves the store
as their evaluation left it. -/
theorem call_operation {op : Operation} {ev : Evaluator} {scope : FrameId} {s t : Store}
    {head v : Value} {forms args : List Value} (htakes : op.takesErrors = false)
    (harity : op.arity.problem? op.name (head :: forms) = none)
    (hargs : Passes (evalArgs ev scope forms) s args t) (hanswer : op.answer args = .ok v) :
    (call ev (.native (.operation op)) (head :: forms) scope).run s = .ok v t := by
  have harity' : (Native.operation op).arity.problem? (Native.operation op).name (head :: forms) =
      none := harity
  rw [call_eq_callWith]
  simp only [callWith, checkArity, harity', pure_bind, runNative, htakes, Bool.false_eq_true,
    if_false, List.tail_cons]
  rw [settle_apply, hargs.bind_apply, ← settle_apply, settle_toStrict hanswer]

namespace Arithmetic

variable {α : Type} {related : α → α → Bool}

theorem chained_iff_isChain (xs : List α) :
    chained related xs = true ↔ xs.IsChain fun x y => related x y = true := by
  induction xs with
  | nil => simp [chained]
  | cons x rest ih =>
    cases rest with
    | nil => simp [chained]
    | cons y rest => rw [chained, Bool.and_eq_true, ih, List.isChain_cons_cons]

/-- Between neighbours a transitive relation holds only if it holds between all. -/
theorem chained_iff_pairwise
    (htrans : ∀ x y z : α, related x y = true → related y z = true → related x z = true)
    (xs : List α) : chained related xs = true ↔ xs.Pairwise fun x y => related x y = true := by
  have : Trans (fun x y => related x y = true) (fun x y => related x y = true)
      (fun x y => related x y = true) := ⟨htrans _ _ _⟩
  rw [chained_iff_isChain, List.isChain_iff_pairwise]

@[simp] theorem numbers_map_toValue (op : Operation) (xs : List Number) :
    numbers op (xs.map Number.toValue) = pure xs := by
  induction xs with
  | nil => rfl
  | cons x xs ih => cases x <;> simp [numbers, Number.toValue, Value.number?, ih]

end Arithmetic

end TreeLisp
