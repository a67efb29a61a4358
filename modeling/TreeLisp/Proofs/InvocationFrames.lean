import TreeLisp.Proofs.Grounded
import TreeLisp.Proofs.OneName
import TreeLisp.Proofs.Stopping

/-!
# The frame of an invocation

A closure binds its arguments one after the other, and the list of those that are left over last. A
name that stands for several of them has in the end what it was bound to last. All other names mean
in the new frame what they mean where the closure was made. A closure that does not take the number
of arguments makes no frame.
-/
namespace TreeLisp

open Strict

namespace Closure

variable {c : Closure Value} {names : List String} {args : List Value} {b : Bindings} {x : String}
  {s : Store}

theorem countProblem_of_takes {count : Nat} (h : c.Takes count) : c.countProblem? count = none := by
  unfold Takes at h
  unfold countProblem?
  cases hrest : c.rest with
  | none =>
    simp only [hrest] at h
    exact if_pos h
  | some name =>
    simp only [hrest] at h
    exact if_neg (Nat.not_lt.mpr h)

theorem takes_iff (c : Closure Value) {count : Nat} :
    c.Takes count ↔ (c.rest = none ∧ count = c.params.length) ∨
      (c.rest ≠ none ∧ c.params.length ≤ count) := by
  unfold Takes
  cases c.rest <;> simp

theorem Takes.length_le {count : Nat} (h : c.Takes count) : c.params.length ≤ count := by
  rcases c.takes_iff.mp h with ⟨-, heq⟩ | ⟨-, hle⟩
  · exact Nat.le_of_eq heq.symm
  · exact hle

theorem lookup_bindPositional_of_notMem (h : x ∉ names) :
    (bindPositional names args b).lookup x = b.lookup x := by
  induction names generalizing args b with
  | nil => rfl
  | cons name names ih =>
    obtain ⟨hname, hothers⟩ := List.ne_and_not_mem_of_not_mem_cons h
    cases args with
    | nil => rfl
    | cons v vs => rw [bindPositional, ih hothers, Bindings.lookup_insert_of_ne hname.symm]

theorem lookup_bindPositional_of_last {i : Nat} (hi : names[i]? = some x)
    (hlast : ∀ j, i < j → names[j]? ≠ some x) (hargs : i < args.length) :
    (bindPositional names args b).lookup x = args[i]? := by
  induction names generalizing args b i with
  | nil => cases hi
  | cons name names ih =>
    obtain ⟨v, vs, rfl⟩ := List.exists_cons_of_length_pos (Nat.zero_lt_of_lt hargs)
    rw [bindPositional]
    cases i with
    | zero =>
      obtain rfl : name = x := Option.some.inj hi
      have hlater : name ∉ names := by
        intro hmem
        obtain ⟨j, hj⟩ := List.mem_iff_getElem?.mp hmem
        exact hlast (j + 1) (Nat.succ_pos j) hj
      rw [lookup_bindPositional_of_notMem hlater, Bindings.lookup_insert_self]
      rfl
    | succ i =>
      exact ih hi (fun j hj => hlast (j + 1) (Nat.succ_lt_succ hj)) (Nat.lt_of_succ_lt_succ hargs)

theorem lookup_argumentBindings_rest (h : c.rest = some x) :
    (c.argumentBindings args).lookup x = some (.list (args.drop c.params.length)) := by
  simp only [argumentBindings, h, Bindings.lookup_insert_self]

theorem lookup_argumentBindings_of_ne (h : c.rest ≠ some x) :
    (c.argumentBindings args).lookup x = (bindPositional c.params args []).lookup x := by
  unfold argumentBindings
  cases hrest : c.rest with
  | none => rfl
  | some name =>
    have hname : name ≠ x := fun hname => h (hname ▸ hrest)
    exact Bindings.lookup_insert_of_ne hname _ _

theorem bind_passes (h : c.Takes args.length) (s : Store) :
    Passes (c.bind args) s s.frames.size
      (s.addFrame (some c.scope) (c.argumentBindings args)).2 := by
  rw [bind, countProblem_of_takes h]
  exact passes_lift rfl

theorem bind_stops (h : ¬ c.Takes args.length) (s : Store) :
    Stops (c.bind args) s (c.refusal args.length) s := by
  obtain ⟨p, hp, hmessage⟩ := countProblem_of_not_takes h
  rw [bind, hp, ← hmessage]
  rfl

/-- The second store is the first one with one more frame, and this is what the names mean there. -/
structure Opens (c : Closure Value) (args : List Value) (s t : Store) : Prop where
  added : ∃ bindings, t = (s.addFrame (some c.scope) bindings).2
  rest (x : String) (h : c.rest = some x) :
    t.get? s.frames.size x = some (.list (args.drop c.params.length))
  positional (x : String) (h : c.rest ≠ some x) (i : Nat) (hi : c.params[i]? = some x)
    (hlast : ∀ j, i < j → c.params[j]? ≠ some x) :
    ∃ v, args[i]? = some v ∧ t.get? s.frames.size x = some v
  outside (x : String) (h : c.rest ≠ some x) (hx : x ∉ c.params) :
    t.get? s.frames.size x = s.get? c.scope x

theorem opens (h : c.Takes args.length) (hs : s.ParentsOlder) (hscope : c.scope < s.frames.size) :
    c.Opens args s (s.addFrame (some c.scope) (c.argumentBindings args)).2 := by
  have hget := hs.get?_addFrame hscope (c.argumentBindings args)
  refine ⟨⟨_, rfl⟩, ?_, ?_, ?_⟩
  · intro x hx
    rw [hget, lookup_argumentBindings_rest hx]
    rfl
  · intro x hx i hi hlast
    have hlt : i < args.length :=
      Nat.lt_of_lt_of_le (List.getElem?_eq_some_iff.mp hi).1 h.length_le
    refine ⟨args[i], List.getElem?_eq_getElem hlt, ?_⟩
    rw [hget, lookup_argumentBindings_of_ne hx, lookup_bindPositional_of_last hi hlast hlt,
      List.getElem?_eq_getElem hlt]
    rfl
  · intro x hx hmem
    rw [hget, lookup_argumentBindings_of_ne hx, lookup_bindPositional_of_notMem hmem]
    rfl

end Closure

/-- A closure opens a new frame for the arguments exactly when it takes their number, and otherwise
refuses it and leaves the store as it was. In the frame the name of the further arguments means
their list, a parameter means the argument at its last place, and any other name means what it means
where the closure was made. -/
theorem arguments_bound_exactly (c : Closure Value) (args : List Value) (s : Store) :
    ((∃ frame t, Passes (c.bind args) s frame t) ↔
      (c.rest = none ∧ args.length = c.params.length) ∨
        (c.rest ≠ none ∧ c.params.length ≤ args.length)) ∧
    ((¬ ∃ frame t, Passes (c.bind args) s frame t) →
      Stops (c.bind args) s (c.refusal args.length) s) ∧
    (s.ParentsOlder → c.scope < s.frames.size → ∀ frame t, Passes (c.bind args) s frame t →
      frame = s.frames.size ∧ c.Opens args s t) := by
  have hpasses (h : c.Takes args.length) := Closure.bind_passes h s
  have htakes : (∃ frame t, Passes (c.bind args) s frame t) ↔ c.Takes args.length := by
    refine ⟨fun ⟨frame, t, hrun⟩ => ?_, fun h => ⟨_, _, hpasses h⟩⟩
    by_contra hrefused
    cases hrun.symm.trans (Closure.bind_stops hrefused s)
  refine ⟨htakes.trans c.takes_iff, fun h => ?_, fun hs hscope frame t hrun => ?_⟩
  · exact Closure.bind_stops (fun h' => h (htakes.mpr h')) s
  · have h := htakes.mp ⟨frame, t, hrun⟩
    cases hrun.symm.trans (hpasses h)
    exact ⟨rfl, Closure.opens h hs hscope⟩

/-- The first name is that of the last parameter too, and the second one that of the further
arguments too. The third is not a parameter, and means what it means outside. One argument is too
little. -/
theorem arguments_bound_exactly_repeated :
    let s : Store := ⟨#[⟨none, [("z", .bool true)]⟩], 0, #[]⟩
    let c : Closure Value := ⟨["x", "y", "x"], some "y", [], 0, "f"⟩
    let args : List Value := [.string "a", .string "b", .string "c", .string "d"]
    (s.ParentsOlder ∧ c.scope < s.frames.size) ∧
      (∃ t, Passes (c.bind args) s 1 t ∧ t.get? 1 "x" = some (.string "c") ∧
        t.get? 1 "y" = some (.list [.string "d"]) ∧ t.get? 1 "z" = some (.bool true)) ∧
      Stops (c.bind [.nil]) s "f takes at least 3 args, got 1" s := by
  intro s c args
  have hs : s.ParentsOlder := (Store.grounded_singleton (by simp)).parent
  obtain ⟨htakes, -, hopens⟩ := arguments_bound_exactly c args s
  obtain ⟨htakes', hstops, -⟩ := arguments_bound_exactly c [.nil] s
  obtain ⟨frame, t, hrun⟩ := htakes.mpr (.inr ⟨nofun, by decide⟩)
  obtain ⟨rfl, hopen⟩ := hopens hs (by decide) frame t hrun
  have hrefusal : c.refusal 1 = "f takes at least 3 args, got 1" := by decide
  have hlast (j : Nat) (hj : 2 < j) : c.params[j]? ≠ some "x" := by
    have hnone : c.params[j]? = none := List.getElem?_eq_none hj
    rw [hnone]
    exact nofun
  refine ⟨⟨hs, by decide⟩, ⟨t, hrun, ?_, hopen.rest "y" rfl, ?_⟩, ?_⟩
  · obtain ⟨v, hv, hget⟩ := hopen.positional "x" (by decide) 2 rfl hlast
    cases hv
    exact hget
  · exact hopen.outside "z" (by decide) (by decide)
  · rw [← hrefusal]
    apply hstops
    rw [htakes']
    decide

end TreeLisp
