import Mathlib.Data.List.Nodup
import TreeLisp.Proofs.Levels
import TreeLisp.Proofs.Terminal

/-!
# Traversals and direct invocation

A traversal passes an element on as an argument of a call: it binds the element to a name in a frame
of its own and has the function evaluate that name there. The frame is new and binds the name, so
the name means the element, whatever it means elsewhere, and the element is not evaluated. Nothing
refers to the frame once the arguments are evaluated. So the calls are invocations of the closure on
the elements, one after the other until one of them gives an error, and the traversals are the
monadic map, filter and left fold of these invocations.
-/
namespace TreeLisp

open Strict

section

variable {m : Type → Type} [Monad m] [LawfulMonad m] {α : Type}

theorem filterAuxM_eq (p : α → m Bool) (xs kept : List α) :
    xs.filterAuxM p kept = do return (← xs.filterAuxM p []) ++ kept := by
  induction xs generalizing kept with
  | nil => simp [List.filterAuxM]
  | cons x xs ih =>
    simp only [List.filterAuxM, bind_assoc]
    refine bind_congr fun keep => ?_
    rw [ih (bif keep then x :: kept else kept), ih (bif keep then [x] else [])]
    cases keep <;> simp

theorem filterM_cons (p : α → m Bool) (x : α) (xs : List α) :
    (x :: xs).filterM p = do
      let keep ← p x
      let kept ← xs.filterM p
      return if keep then x :: kept else kept := by
  simp only [List.filterM, List.filterAuxM, bind_assoc, pure_bind]
  refine bind_congr fun keep => ?_
  rw [filterAuxM_eq]
  cases keep <;> simp

end

namespace StrictParallel

variable {α β γ δ : Type} {R : Correspondence} {excused : Fault → Prop} {π : Pairing}
  {post : Pairing → γ → δ → Prop} {xs : List α} {ys : List β}

theorem mapM {k : α → Strict γ} {k' : β → Strict δ}
    (hmono : ∀ ρ σ a b, ρ ≤ σ → post ρ a b → post σ a b)
    (h : List.Forall₂ (fun x y => ∀ ρ, π ≤ ρ →
      StrictParallel R excused ρ post (k x) (k' y)) xs ys) :
    StrictParallel R excused π (fun ρ => List.Forall₂ (post ρ)) (xs.mapM k) (ys.mapM k') := by
  induction xs generalizing ys π with
  | nil =>
    cases h
    exact .value .nil
  | cons x xs ih =>
    cases h with
    | cons hx hxs =>
      rw [List.mapM_cons, List.mapM_cons]
      refine (hx π le_rfl).bind fun ρ a b hle hab => ?_
      have hlater := hxs.imp fun x y hxy σ hσ => hxy σ (le_trans hle hσ)
      refine (ih hlater).bind fun σ as bs hle' hs => ?_
      exact .value (.cons (hmono ρ σ a b hle' hab) hs)

theorem filterM {k : γ → Strict Bool} {k' : δ → Strict Bool} {xs : List γ} {ys : List δ}
    (hmono : ∀ ρ σ a b, ρ ≤ σ → post ρ a b → post σ a b)
    (h : List.Forall₂ (fun x y => post π x y ∧
      ∀ ρ, π ≤ ρ → StrictParallel R excused ρ (fun _ => Eq) (k x) (k' y)) xs ys) :
    StrictParallel R excused π (fun ρ => List.Forall₂ (post ρ)) (xs.filterM k) (ys.filterM k') := by
  induction xs generalizing ys π with
  | nil =>
    cases h
    exact .value .nil
  | @cons x xs ih =>
    cases h with
    | @cons _ y _ _ hx hxs =>
      rw [filterM_cons, filterM_cons]
      refine (hx.2 π le_rfl).bind fun ρ keep keep' hle hkeep => ?_
      obtain rfl : keep = keep' := hkeep
      have hlater := hxs.imp fun x y hxy =>
        And.intro (hmono π ρ x y hle hxy.1) fun σ hσ => hxy.2 σ (le_trans hle hσ)
      refine (ih hlater).bind fun σ kept kept' hle' hs => ?_
      cases keep with
      | true => exact .value (.cons (hmono π σ x y (le_trans hle hle') hx.1) hs)
      | false => exact .value hs

theorem foldlM {k : γ → α → Strict γ} {k' : δ → β → Strict δ} {a : γ} {b : δ} (hacc : post π a b)
    (h : List.Forall₂ (fun x y => ∀ ρ a b, π ≤ ρ → post ρ a b →
      StrictParallel R excused ρ post (k a x) (k' b y)) xs ys) :
    StrictParallel R excused π post (xs.foldlM k a) (ys.foldlM k' b) := by
  induction xs generalizing ys π a b with
  | nil =>
    cases h
    exact .value hacc
  | cons x xs ih =>
    cases h with
    | cons hx hxs =>
      rw [List.foldlM_cons, List.foldlM_cons]
      refine (hx π a b le_rfl hacc).bind fun ρ a b hle hab => ?_
      exact ih hab (hxs.imp fun x y hxy σ a b hσ => hxy σ a b (le_trans hle hσ))

end StrictParallel

namespace Traversal

/-- The map, filter or left fold over the elements of what is done to argument values. -/
def loop (apply : List Value → Strict Value) (initial : Value) (xs : List Value) :
    Traversal → Strict Value
  | map => do return .list (← xs.mapM fun x => apply [x])
  | filter => do return .list (← xs.filterM fun x => do return (← apply [x]).truthy)
  | reduce => xs.foldlM (fun acc x => apply [acc, x]) initial

/-- The arguments of a traversal, of which only reducing takes an initial value. -/
def arguments (f initial sequence : Value) : Traversal → List Value
  | map | filter => [f, sequence]
  | reduce => [f, initial, sequence]

variable {call : Caller} {f : Value} {scope : FrameId}

theorem mapItems_eq_mapM (xs : List Value) :
    mapItems call f scope xs = xs.mapM fun x => need (callFunction call f [x] scope) := by
  induction xs with
  | nil => rfl
  | cons x xs ih => rw [mapItems, List.mapM_cons, ih]

theorem filterItems_eq_filterM (xs : List Value) :
    filterItems call f scope xs =
      xs.filterM fun x => do return (← need (callFunction call f [x] scope)).truthy := by
  induction xs with
  | nil => rfl
  | cons x xs ih =>
    rw [filterItems, filterM_cons, ih]
    simp only [bind_assoc, pure_bind]

theorem foldItems_eq_foldlM (xs : List Value) (acc : Value) :
    foldItems call f scope acc xs =
      xs.foldlM (fun acc x => need (callFunction call f [acc, x] scope)) acc := by
  induction xs generalizing acc with
  | nil => rfl
  | cons x xs ih => simp only [foldItems, List.foldlM_cons, ih]

theorem run_eq_loop {initial sequence : Value} {xs : List Value} (hf : f.isFunction = true)
    (tr : Traversal) (hitems : itemsFor tr.name sequence = .ok xs) :
    tr.run call (tr.arguments f initial sequence) scope =
      tr.loop (fun args => need (callFunction call f args scope)) initial xs := by
  have hpure : tr.items f sequence = pure xs := items_eq_pure hf hitems
  cases tr with
  | map => simp only [run, arguments, loop, hpure, pure_bind, mapItems_eq_mapM]
  | filter => simp only [run, arguments, loop, hpure, pure_bind, filterItems_eq_filterM]
  | reduce => simp only [run, arguments, loop, hpure, pure_bind, foldItems_eq_foldlM]

end Traversal

/-- Alike and not an error, as what a strict run goes on with. -/
def Passed (π : Pairing) (v w : Value) : Prop :=
  Alike anything π v w ∧ v.isError = false

namespace Passed

variable {π ρ : Pairing} {v w : Value} {xs ys : List Value}

theorem mono (hle : π ≤ ρ) (h : Passed π v w) : Passed ρ v w :=
  ⟨h.1.mono hle, h.2⟩

theorem allStored (h : List.Forall₂ (Passed π) xs ys) : AllStored anything π xs ys :=
  h.imp fun _ _ hvw => hvw.1.stored hvw.2

theorem allNot_error (h : List.Forall₂ (Passed π) xs ys) : ∀ v ∈ xs, v.isError = false := by
  induction h with
  | nil => simp
  | cons hx _ ih => exact List.forall_mem_cons.mpr ⟨hx.2, ih⟩

end Passed

theorem Traversal.loop_parallel {R : Correspondence} {excused : Fault → Prop} {π : Pairing}
    {apply apply' : List Value → Strict Value} {initial initial' : Value} {xs ys : List Value}
    (happly : ∀ ρ args args', π ≤ ρ → List.Forall₂ (Passed ρ) args args' →
      StrictParallel R excused ρ Passed (apply args) (apply' args'))
    (hinitial : Passed π initial initial') (h : List.Forall₂ (Passed π) xs ys) (tr : Traversal) :
    StrictParallel R excused π (Alike anything) (tr.loop apply initial xs)
      (tr.loop apply' initial' ys) := by
  have hmono : ∀ ρ σ v w, ρ ≤ σ → Passed ρ v w → Passed σ v w := fun _ _ _ _ => Passed.mono
  cases tr with
  | map =>
    have hcalls := h.imp fun x y hxy ρ hle => happly ρ [x] [y] hle (.cons (hxy.mono hle) .nil)
    refine (StrictParallel.mapM hmono hcalls).bind fun ρ vs ws _ hvs => ?_
    exact .value (.list (Passed.allStored hvs))
  | filter =>
    have hkeep (x y : Value) (hxy : Passed π x y) (ρ : Pairing) (hle : π ≤ ρ) :
        StrictParallel R excused ρ (fun _ => Eq) (do return (← apply [x]).truthy)
          (do return (← apply' [y]).truthy) := by
      refine (happly ρ [x] [y] hle (.cons (hxy.mono hle) .nil)).bind fun σ v w _ hvw => ?_
      exact .value hvw.1.truthy_eq
    have hcalls := h.imp fun x y hxy => And.intro hxy (hkeep x y hxy)
    refine (StrictParallel.filterM hmono hcalls).bind fun ρ vs ws _ hvs => ?_
    exact .value (.list (Passed.allStored hvs))
  | reduce =>
    have hcalls := h.imp fun x y hxy ρ a b (hle : π ≤ ρ) (hab : Passed ρ a b) =>
      happly ρ [a, x] [b, y] hle (.cons hab (.cons (hxy.mono hle) .nil))
    exact (StrictParallel.foldlM hinitial hcalls).imp fun _ _ _ hvw => hvw.1

theorem argumentName_injective : Function.Injective argumentName := by
  intro i j h
  have htext : Text.natText i = Text.natText j := by simpa [argumentName] using h
  have hdigits : Nat.toDigits 10 i = Nat.toDigits 10 j := String.ofList_injective htext
  rw [← Nat.ofDigitChars_ten_toDigits (n := i), hdigits, Nat.ofDigitChars_ten_toDigits]

theorem argumentNames_nodup (args : List Value) : (argumentNames args).Nodup :=
  List.Nodup.map argumentName_injective List.nodup_range

variable {s t : Store} {n : Nat} {c : Closure Value} {args : List Value}

theorem evalArgs_names {names : List String} {frame : FrameId}
    (h : List.Forall₂ (fun name v => s.get? frame name = some v) names args)
    (hargs : ∀ v ∈ args, v.isError = false) :
    Passes (evalArgs (eval (n + 1)) frame (names.map Value.symbol)) s args s := by
  induction h with
  | nil => exact passes_evalArgs_nil.mpr ⟨rfl, rfl⟩
  | @cons name v names args hname _ ih =>
    obtain ⟨hv, hlater⟩ := List.forall_mem_cons.mp hargs
    exact passes_evalArgs_cons.mpr ⟨v, s, args, passes_need (eval_name hname n) hv, ih hlater, rfl⟩

theorem get?_argumentNames (args : List Value) (scope : FrameId) (s : Store) :
    List.Forall₂ (fun name v => (s.addFrame (some scope) ((argumentNames args).zip args)).2.get?
      s.frames.size name = some v) (argumentNames args) args := by
  have hlength : (argumentNames args).length = args.length := by simp [argumentNames]
  have hkeys : ((argumentNames args).zip args).map Prod.fst = argumentNames args :=
    List.map_fst_zip (Nat.le_of_eq hlength)
  have hframe : (s.addFrame (some scope) ((argumentNames args).zip args)).2.frames[s.frames.size]? =
      some ⟨some scope, (argumentNames args).zip args⟩ := by simp [Store.addFrame]
  rw [List.forall₂_iff_zip]
  refine ⟨hlength, fun {name v} hmem => Store.get?_of_own hframe ?_⟩
  exact Bindings.lookup_of_mem (hkeys.symm ▸ argumentNames_nodup args) hmem

/-- The store in which a closure called on values is invoked. -/
def Store.calledFrom (s : Store) (c : Closure Value) (args : List Value) (scope : FrameId) :
    Store :=
  (s.addFrame (some scope) ((argumentNames args).zip args)).2.addRecord
    (.calling c.name args.length)

theorem Store.Mirrored.calledFrom {π : Pairing} (h : Store.Mirrored nowhere π s t)
    (c : Closure Value) (args : List Value) (scope : FrameId) :
    Store.Mirrored nowhere π (s.calledFrom c args scope) t := by
  have hadded := (h.addFrame_apart (some scope) ((argumentNames args).zip args)).apart_mono
    fun i (hi : nowhere i) => .inl hi
  exact ⟨hadded.frames, hadded.oneToOne, hadded.distinct, hadded.serials, hadded.apart⟩

theorem callFunction_function (hargs : ∀ v ∈ args, v.isError = false) (serial : Nat)
    (name : String) (scope : FrameId) :
    (callFunction (call (eval (n + 1))) (.function serial name c) args scope).run s =
      (settle (c.invoke (eval (n + 1)) args)).run (s.calledFrom c args scope) := by
  have hpasses : Passes (evalArgs (eval (n + 1)) s.frames.size ((argumentNames args).map .symbol))
      (s.addFrame (some scope) ((argumentNames args).zip args)).2 args _ :=
    evalArgs_names (get?_argumentNames args scope s) hargs
  have hframe : (Run.newFrame scope ((argumentNames args).zip args)).run s =
      .ok s.frames.size (s.addFrame (some scope) ((argumentNames args).zip args)).2 := rfl
  rw [callFunction, EStateM.run_bind, hframe]
  simp only [call_eq_callWith, callWith, List.tail_cons, Closure.call, settle_apply,
    hpasses.bind_apply]
  rfl

/-- An invocation never has an error as its value: it is stopped by it. -/
theorem invoke_passes_value {ev : Evaluator} {v : Value} (h : Passes (c.invoke ev args) s v t) :
    v.isError = false := by
  obtain ⟨frame, r, -, hbody⟩ := passes_bind_iff.mp h
  exact evalAfter_passes_value rfl hbody

section

variable {R : Correspondence} {excused : Fault → Prop} {π : Pairing} {d : Closure Value}
  {args' : List Value}

theorem invoke_passed {ev ev' : Evaluator} (sim : Simulation anything R)
    (hev : Together anything R excused ev ev') (hclosure : c.Aligned anything π d)
    (hbody : AllStored anything π c.body d.body) (hargs : List.Forall₂ (Passed π) args args') :
    StrictParallel R excused π Passed (c.invoke ev args) (d.invoke ev' args') := by
  intro s t hst
  have houtcomes := hev.invoke_parallel sim hclosure hbody (Passed.allStored hargs) s t hst
  rw [← bind_pure (c.invoke ev args), ← bind_pure (d.invoke ev' args')]
  refine houtcomes.strict_bind fun ρ v w s' t' _ hst' hvw hrun => ?_
  exact .result le_rfl hst' (.value ⟨hvw, invoke_passes_value hrun⟩)

/-- A call on values goes in parallel with the invocation on them: the frame that it makes is paired
with none. -/
theorem callFunction_invokes (hclosure : c.Aligned anything π d)
    (hbody : AllStored anything π c.body d.body) (hargs : List.Forall₂ (Passed π) args args')
    (n serial : Nat) (name : String) (scope : FrameId) :
    StrictParallel (Store.Mirrored nowhere) never π Passed
      (need (callFunction (call (eval (n + 1))) (.function serial name c) args scope))
      (d.invoke (eval (n + 1)) args') := by
  intro s t hst
  have hev : Together anything (Store.Mirrored nowhere) never (eval (n + 1)) (eval (n + 1)) :=
    eval_together (mirrored_simulation nowhere) (n + 1)
  have hinvoked := invoke_passed (mirrored_simulation nowhere) hev hclosure hbody hargs
    (s.calledFrom c args scope) t (hst.calledFrom c args scope)
  rw [← need_settle fun _ _ h => invoke_passes_value h, need_apply,
    ← callFunction_function (Passed.allNot_error hargs) serial name scope, ← need_apply] at hinvoked
  exact hinvoked

end

theorem traversal_levelled (tr : Traversal) (args : List Value) (scope : FrameId) :
    Levelled fun n => settle (tr.run (call (eval n)) args scope) := by
  apply levelled_settle
  intro m n hle
  have hcalls := call_parallel sameStore_simulation (eval_together_of_le hle)
  exact hcalls.traversal_parallel sameStore_simulation tr (AllStored.refl args) rfl

theorem direct_levelled {initial : Value} {xs : List Value} (hinitial : initial.isError = false)
    (hxs : ∀ x ∈ xs, x.isError = false) (tr : Traversal) (c : Closure Value) :
    Levelled fun n => settle (tr.loop (c.invoke (eval n)) initial xs) := by
  apply levelled_settle
  intro m n hle
  have hclosure : c.Aligned anything .identity c := .self (fun _ => trivial) rfl
  refine Traversal.loop_parallel (fun ρ args args' hle' hargs => ?_) ⟨.refl initial, hinitial⟩
    (List.forall₂_same.mpr fun x hx => ⟨.refl x, hxs x hx⟩) tr
  exact invoke_passed sameStore_simulation (eval_together_of_le hle) (hclosure.mono hle')
    (AllStored.mono hle' (AllStored.refl c.body)) hargs

/-- A traversal with a function made from a closure agrees with the monadic map, filter or left fold
of the invocations of the closure on the elements, whatever the frame that it is called from binds.
The elements and the initial value may be anything but errors, and nil is read as no elements. -/
theorem traversal_invokes_directly {s : Store} {serial : Nat} {name : String} {c : Closure Value}
    {initial sequence : Value} {xs : List Value} (hs : s.Grounded)
    (hf : s.Holds (.function serial name c)) (hinitial : s.Holds initial ∧ initial.isError = false)
    (hxs : ∀ x ∈ xs, s.Holds x ∧ x.isError = false)
    (hsequence : sequence = .list xs ∨ sequence = .nil ∧ xs = []) (tr : Traversal)
    (scope : FrameId) :
    s.Agree (.ofStore s)
      (fun n => settle (tr.run (call (eval n))
        (tr.arguments (.function serial name c) initial sequence) scope))
      (fun n => settle (tr.loop (c.invoke (eval n)) initial xs)) := by
  have hitems : itemsFor tr.name sequence = .ok xs := by
    rcases hsequence with rfl | ⟨rfl, rfl⟩ <;> rfl
  apply (traversal_levelled tr _ scope).agree_of_alike
    (direct_levelled hinitial.2 (fun x hx => (hxs x hx).2) tr c)
  intro n
  obtain ⟨hclosure, hbody⟩ : c.Aligned anything (.ofStore s) c ∧
      AllStored anything (.ofStore s) c.body c.body := by
    cases hf.alike with
    | function _ _ hclosure hbody => exact ⟨hclosure, hbody⟩
  have hparallel := Traversal.loop_parallel
    (fun ρ args args' hle hargs => callFunction_invokes (hclosure.mono hle)
      (AllStored.mono hle hbody) hargs n serial name scope)
    ⟨hinitial.1.alike, hinitial.2⟩
    (List.forall₂_same.mpr fun x hx => ⟨(hxs x hx).1.alike, (hxs x hx).2⟩) tr
  have houtcomes := hparallel.settle s s (hs.mirrored (fun _ _ => rfl) (Nat.le_refl _))
  rwa [← Traversal.run_eq_loop rfl tr hitems] at houtcomes

/-- The frame binds the name under which a first argument is passed, and the elements are this name
and a call. They reach the function as they are. -/
theorem traversal_invokes_directly_quoted :
    let s : Store :=
      ⟨#[⟨none, [("list", .native (.operation .list)), (" arg0", .bool true)]⟩], 1, #[]⟩
    let c : Closure Value := ⟨["x"], none, [.list [.symbol "list", .symbol "x"]], 0, "f"⟩
    let xs : List Value := [.symbol " arg0", .list [.symbol "list", .bool false]]
    (s.Grounded ∧ s.Holds (.function 0 "f" c) ∧ (s.Holds .nil ∧ Value.nil.isError = false) ∧
        ∀ x ∈ xs, s.Holds x ∧ x.isError = false) ∧
      (∀ tr : Traversal, s.Agree (.ofStore s)
        (fun n => settle (tr.run (call (eval n))
          (tr.arguments (.function 0 "f" c) .nil (.list xs)) 0))
        (fun n => settle (tr.loop (c.invoke (eval n)) .nil xs))) ∧
      ∃ t, s.EndsWith
        (fun n => settle (Traversal.map.run (call (eval n)) [.function 0 "f" c, .list xs] 0))
        (.ok (.list (xs.map fun x => .list [x])) t) := by
  intro s c xs
  have hs : s.Grounded := Store.grounded_singleton (by simp)
  have hf : s.Holds (.function 0 "f" c) := by simp [s, c]
  have hnil : s.Holds .nil ∧ Value.nil.isError = false := ⟨by simp, rfl⟩
  have hxs : ∀ x ∈ xs, s.Holds x ∧ x.isError = false := by
    intro x hx
    rcases List.mem_pair.mp hx with rfl | rfl
    · exact ⟨by simp, rfl⟩
    · exact ⟨by simp, rfl⟩
  refine ⟨⟨hs, hf, hnil, hxs⟩, fun tr => ?_, ?_⟩
  · exact traversal_invokes_directly hs hf hnil hxs (.inl rfl) tr 0
  · have hlevelled := traversal_levelled .map [.function 0 "f" c, .list xs] 0
    exact ⟨_, hlevelled.endsWith (s := s) (n := 3) nofun⟩

end TreeLisp
