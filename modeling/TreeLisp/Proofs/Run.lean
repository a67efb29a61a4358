import TreeLisp.Eval

/-!
# Runs on a given store

What the ways of combining runs do on a given store. A strict run has three endings: a value, the
message of an error value, or a fault.
-/
namespace TreeLisp

variable {α β : Type}

/-- The store that a run leaves behind, whether it gives a value or a fault. -/
def Store.after {ε α : Type} (s : Store) (m : EStateM ε Store α) : Store :=
  match m.run s with
  | .ok _ t => t
  | .error _ t => t

/-- How a run ends, whatever store it leaves behind. -/
def Store.outcome {ε α : Type} (s : Store) (m : EStateM ε Store α) : Except ε α :=
  match m.run s with
  | .ok a _ => .ok a
  | .error e _ => .error e

theorem Store.after_of_ok {ε α : Type} {s t : Store} {m : EStateM ε Store α} {a : α}
    (h : m.run s = .ok a t) : s.after m = t := by
  rw [Store.after, h]

theorem Store.outcome_of_ok {ε α : Type} {s t : Store} {m : EStateM ε Store α} {a : α}
    (h : m.run s = .ok a t) : s.outcome m = .ok a := by
  rw [Store.outcome, h]

theorem Run.getName_apply (frame : FrameId) (name : String) (s : Store) :
    (Run.getName? frame name).run s = .ok (s.get? frame name) s := rfl

namespace Strict

theorem bind_apply (m : Strict α) (k : α → Strict β) (s : Store) :
    (m >>= k).run.run s = match m.run.run s with
      | .ok (.ok a) t => (k a).run.run t
      | .ok (.error message) t => .ok (.error message) t
      | .error f t => .error f t := by
  rw [ExceptT.run_bind, EStateM.run_bind]
  cases m.run.run s with
  | ok r t => cases r <;> rfl
  | error f t => rfl

theorem fail_bind (p : Problem) (k : α → Strict β) : fail p >>= k = fail p := rfl

theorem lift_apply (m : Run α) (s : Store) :
    (liftM m : Strict α).run.run s = match m.run s with
      | .ok a t => .ok (.ok a) t
      | .error f t => .error f t := by
  change (m >>= fun a => pure (.ok a) : Run (Except String α)).run s = _
  rw [EStateM.run_bind]
  cases m.run s <;> rfl

theorem need_apply (m : Run Value) (s : Store) :
    (need m).run.run s = match m.run s with
      | .ok v t => (accept v).run.run t
      | .error f t => .error f t := by
  rw [need, bind_apply, lift_apply]
  cases m.run s <;> rfl

theorem settle_apply (m : Strict Value) (s : Store) :
    (settle m).run s = match m.run.run s with
      | .ok (.ok v) t => .ok v t
      | .ok (.error message) t => .ok (.error message) t
      | .error f t => .error f t := by
  rw [settle, EStateM.run_bind]
  cases m.run.run s with
  | ok r t => cases r <;> rfl
  | error f t => rfl

theorem settle_lift (m : Run Value) (s : Store) : (settle (liftM m)).run s = m.run s := by
  rw [settle_apply, lift_apply]
  cases m.run s <;> rfl

theorem accept_eq_pure {v : Value} (hv : v.isError = false) : accept v = pure v := by
  cases v <;> first | rfl | simp [Value.isError] at hv

theorem settle_need_bind {m : Run Value} {k : Value → Strict Value} {s t : Store} {v : Value}
    (hm : m.run s = .ok v t) (hv : v.isError = false) :
    (settle (need m >>= k)).run s = (settle (k v)).run t := by
  have hneed : (need m).run.run s = .ok (.ok v) t := by
    simp only [need_apply, hm, accept_eq_pure hv]
    rfl
  simp only [settle_apply, bind_apply, hneed]

theorem settle_need_fault {m : Run Value} {k : Value → Strict Value} {s t : Store} {f : Fault}
    (hm : m.run s = .error f t) : (settle (need m >>= k)).run s = .error f t := by
  simp only [settle_apply, bind_apply, need_apply, hm]

end Strict

end TreeLisp
