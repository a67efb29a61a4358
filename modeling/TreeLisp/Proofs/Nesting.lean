import TreeLisp.Proofs.AlikeSelf
import TreeLisp.Proofs.ReadFirst
import TreeLisp.Proofs.SessionParallel
import TreeLisp.Proofs.World

/-!
# The bound on nesting

How deep evaluations may be nested decides whether an evaluation comes to an end, and nothing else.
An evaluation with few levels and one with more run in parallel in the same store, step by step the
same, until the first one has no level left. If it never gets there, the outcomes are equal.
-/
namespace TreeLisp

theorem Value.admitted_identity (v : Value) : v.Admitted anything .identity := by
  cases v with
  | function serial name c => exact ⟨rfl, .self (fun _ => trivial) rfl⟩
  | expander serial name c => exact ⟨rfl, .self (fun _ => trivial) rfl⟩
  | _ => trivial

theorem Alike.refl (v : Value) : Alike anything .identity v v :=
  .self trivial fun w _ => w.admitted_identity

theorem AllStored.refl (vs : List Value) : AllStored anything .identity vs vs :=
  List.forall₂_same.mpr fun v _ => .mk (fun _ => trivial) (.refl v)

/-- Every frame and serial number stands for itself, in one store. -/
def SameStore : Correspondence := fun π s t => π = .identity ∧ s = t

theorem sameStore_simulation : Simulation anything SameStore where
  inserted _ _ := trivial
  argument _ := trivial
  distinct := by
    rintro _ _ _ ⟨rfl, -⟩ m n m' n' rfl rfl
    rfl
  get := by
    rintro _ s _ ⟨rfl, rfl⟩ i _ rfl name -
    cases s.get? i name with
    | none => exact .none
    | some v => exact .some (.mk (fun _ => trivial) (.refl v))
  set := by
    rintro _ s _ ⟨rfl, rfl⟩ i _ rfl name - v w hvw
    have hvalue : v = w := hvw.alike.eq_of_identity
    exact ⟨rfl, by rw [hvalue]⟩
  addFrame := by
    rintro _ s _ ⟨rfl, rfl⟩ i _ rfl b c hbc
    have hbindings : b = c := hbc.eq_of_le le_rfl
    exact ⟨.identity, le_rfl, rfl, rfl, by rw [hbindings]⟩
  newSerial := by
    rintro _ s _ ⟨rfl, rfl⟩
    exact ⟨.identity, le_rfl, rfl, rfl, rfl⟩
  record := by
    rintro _ s _ ⟨rfl, rfl⟩ r r' hr
    have hrecord : r = r' := hr.eq_of_le le_rfl
    exact ⟨rfl, by rw [hrecord]⟩

/-- Only the lack of levels in the first of two evaluations is excused. -/
def lacksLevels (f : Fault) : Prop := f = .nesting

-- Both evaluations take their levels one by one, so the induction is on the smaller number.
theorem eval_together_of_le {bound bound' : Nat} (h : bound ≤ bound') :
    Together anything SameStore lacksLevels (eval bound) (eval bound') := by
  induction bound generalizing bound' with
  | zero => exact fun π v w i j _ _ s t _ => .excused rfl
  | succ bound ih =>
    obtain ⟨more, rfl⟩ : ∃ more, bound' = more + 1 := ⟨bound' - 1, by omega⟩
    have hbelow : bound ≤ more := by omega
    exact evalStep_together sameStore_simulation (ih hbelow)

/-- When a source text is evaluated to its end, or up to an error in it or a fault of another kind,
then more levels of nesting change neither the outcome nor the store that is left. -/
theorem evalAll_of_more_levels (scope : FrameId) (code : String) (s : Store) {bound bound' : Nat}
    (hle : bound ≤ bound')
    (hdone : ∀ t, (Session.evalAll ⟨scope, bound⟩ code).run s ≠ .error (.fault .nesting) t) :
    (Session.evalAll ⟨scope, bound'⟩ code).run s = (Session.evalAll ⟨scope, bound⟩ code).run s := by
  have hparallel := evalAll_parallel (π := .identity) (i := scope) (j := scope)
    (eval_together_of_le hle) (fun _ => trivial) rfl code
  have houtcomes := hparallel s s ⟨rfl, rfl⟩
  generalize (Session.evalAll ⟨scope, bound⟩ code).run s = r,
    (Session.evalAll ⟨scope, bound'⟩ code).run s = r' at houtcomes hdone ⊢
  cases houtcomes with
  | result _ hstore hpost =>
    obtain ⟨rfl, rfl⟩ := hstore
    have hresults := hpost.imp fun v w hvw => hvw.eq_of_identity
    rw [List.forall₂_eq_eq_eq] at hresults
    rw [hresults]
  | fault e _ hstore => rw [hstore.2]
  | @excused e t _ he =>
    cases e with
    | unreadable _ => exact absurd he id
    | fault f =>
      obtain rfl : f = .nesting := he
      exact absurd rfl (hdone t)

/-- A recursion that five levels suffice for gives with a thousand what it gives with five. -/
theorem evalAll_of_more_levels_recursion :
    let s := (World.initial.run [.start]).store
    let code := "(def f (fn (n) (if n (f nil) n))) (f true)"
    (∀ t, (Session.evalAll ⟨1, 5⟩ code).run s ≠ .error (.fault .nesting) t) ∧
      (Session.evalAll ⟨1, nestingBound⟩ code).run s = (Session.evalAll ⟨1, 5⟩ code).run s := by
  intro s code
  let body : Value :=
    .list [.symbol "if", .symbol "n", .list [.symbol "f", .symbol "nil"], .symbol "n"]
  let f : Value := .function 1 "f" ⟨["n"], none, [body], 1, "f"⟩
  let t : Store := { s.set 1 "f" f with serial := 2 }
  have hread : read code = .ok [.list [.symbol "def", .symbol "f",
      .list [.symbol "fn", .list [.symbol "n"], body]], .list [.symbol "f", .symbol "true"]] := by
    unfold code body
    rfl
  have hdefinition : (eval 5 (.list [.symbol "def", .symbol "f",
      .list [.symbol "fn", .list [.symbol "n"], body]]) 1).run s = .ok f t := rfl
  have hcall : ∃ u, (eval 5 (.list [.symbol "f", .symbol "true"]) 1).run t = .ok .nil u := ⟨_, rfl⟩
  obtain ⟨u, hcall⟩ := hcall
  have hrun := Session.evalAll_of_evaluates ⟨1, 5⟩ hread
    (.next hdefinition (.next hcall (.finish u)))
  have hdone : ∀ t, (Session.evalAll ⟨1, 5⟩ code).run s ≠ .error (.fault .nesting) t := by
    intro t ht
    rw [hrun] at ht
    cases ht
  exact ⟨hdone, evalAll_of_more_levels 1 code s (by decide) hdone⟩

end TreeLisp
