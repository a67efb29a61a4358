import TreeLisp.Proofs.LawfulSession
import TreeLisp.Proofs.Nesting

/-!
# Guarded evaluations

A guard looks at every form that an evaluation comes to and at every value that it gives on the way,
and may object with a fault. A guarded evaluation ensures a sound law when the guard lets only those
lawful values pass that have room and objects to the others with faults that are allowed. Two guards
that agree about all values lead to the same outcome.
-/
namespace TreeLisp

def Run.pass (guard : Value → Option Fault) (v : Value) : Run Unit :=
  match guard v with
  | none => pure ()
  | some f => throw f

/-- Evaluate, and fault at the first form or value that the guard objects to. -/
def evalGuarded (guard : Value → Option Fault) : Nat → Evaluator
  | 0 => fun _ _ => throw .nesting
  | bound + 1 => fun form scope => do
    Run.pass guard form
    let v ← evalStep (evalGuarded guard bound) form scope
    Run.pass guard v
    pure v

/-- The guard that objects with the fault to values without the property. -/
def insist (property : Value → Bool) (f : Fault) (v : Value) : Option Fault :=
  if property v then none else some f

theorem insist_cases (property : Value → Bool) (f : Fault) (v : Value) :
    insist property f v = none ∧ property v = true ∨
      insist property f v = some f ∧ property v = false := by
  unfold insist
  cases property v with
  | true => exact .inl ⟨rfl, rfl⟩
  | false => exact .inr ⟨rfl, rfl⟩

theorem pass_insist_bind {α : Type} (property : Value → Bool) (f : Fault) (v : Value)
    (k : Unit → Run α) :
    Run.pass (insist property f) v >>= k = if property v then k () else throw f := by
  unfold Run.pass insist
  by_cases hv : property v = true
  · rw [if_pos hv, if_pos hv]
    rfl
  · rw [if_neg hv, if_neg hv]
    rfl

namespace Law

variable {L : Law} {guard : Value → Option Fault}

/-- What passes the guard has room, and the objections of the guard are faults that may come up. -/
def Heeds (L : Law) (guard : Value → Option Fault) : Prop :=
  ∀ v, L.Lawful v →
    match guard v with
    | none => L.room v.extent
    | some f => L.fault f

theorem pass_ensures (h : L.Heeds guard) {v : Value} (hv : L.Lawful v) :
    L.Ensures (fun _ => L.Given v) (Run.pass guard v) := by
  have hguard := h v hv
  unfold Run.pass
  generalize guard v = objection at hguard ⊢
  cases objection with
  | none => exact .result ⟨hv, hguard⟩
  | some f => exact .fault hguard

theorem Sound.evalGuarded_governs (sound : L.Sound) (h : L.Heeds guard) (bound : Nat) :
    L.Governs (evalGuarded guard bound) := by
  induction bound with
  | zero => exact fun _ _ _ => .fault sound.nesting
  | succ bound ih =>
    intro form scope hform
    refine (pass_ensures h hform).bind fun _ hgiven => ?_
    refine (sound.evalStep_ensures ih hgiven).bind fun v hv => ?_
    exact (pass_ensures h hv).bind fun _ hgiven => .result hgiven

end Law

/-- The guards agree about every value, unless an objection of the first is excused. -/
def Agree (excused : Fault → Prop) (guard guard' : Value → Option Fault) : Prop :=
  ∀ v, guard v = guard' v ∨ ∃ f, guard v = some f ∧ excused f

section Agree

variable {guard guard' : Value → Option Fault} {excused : Fault → Prop}

theorem pass_parallel (h : Agree excused guard guard') {π : Pairing} {v w : Value}
    (hvw : Alike anything π v w) :
    Parallel SameStore excused π (fun _ _ _ => True) (Run.pass guard v) (Run.pass guard' w) := by
  rintro s _ ⟨rfl, rfl⟩
  obtain rfl : v = w := hvw.eq_of_identity
  unfold Run.pass
  rcases h v with heq | ⟨f, hf, hexcused⟩
  · rw [heq]
    cases guard' v with
    | none => exact .result le_rfl ⟨rfl, rfl⟩ trivial
    | some f => exact .fault f le_rfl ⟨rfl, rfl⟩
  · rw [hf]
    exact .excused hexcused

theorem evalGuarded_together (h : Agree excused guard guard') (bound : Nat) :
    Together anything SameStore excused (evalGuarded guard bound) (evalGuarded guard' bound) := by
  induction bound with
  | zero => exact fun π v w i j _ _ => .fault _
  | succ bound ih =>
    intro π v w i j hvw hframe
    refine (pass_parallel h hvw).bind fun ρ _ _ hle _ => ?_
    have hframe' := Pairing.frame_mono hle hframe
    refine (evalStep_together sameStore_simulation ih ρ v w i j (hvw.mono hle) hframe').bind
      fun σ a b hle' hab => ?_
    exact (pass_parallel h hab).bind fun τ _ _ hle'' _ => .result (hab.mono hle'')

/-- A run that comes to no excused fault is the same under the other guard. -/
theorem evalGuarded_congr (h : Agree excused guard guard') {bound : Nat} {form : Value}
    {scope : FrameId} {s : Store}
    (hrun : ∀ f t, (evalGuarded guard bound form scope).run s = .error f t → ¬ excused f) :
    (evalGuarded guard' bound form scope).run s = (evalGuarded guard bound form scope).run s := by
  have houtcomes := evalGuarded_together h bound .identity form form scope scope (.refl form) rfl
    s s ⟨rfl, rfl⟩
  generalize (evalGuarded guard bound form scope).run s = r,
    (evalGuarded guard' bound form scope).run s = r' at houtcomes hrun ⊢
  cases houtcomes with
  | result _ hstore hpost =>
    obtain ⟨rfl, rfl⟩ := hstore
    rw [hpost.eq_of_identity]
  | fault f _ hstore => rw [hstore.2]
  | excused hf => exact absurd hf (hrun _ _ rfl)

end Agree

end TreeLisp
