import TreeLisp.Proofs.Call

/-!
# Runs that stop at an error

A strict run passes when it meets no error, and stops at the first one it does meet. Each part of
the evaluator that goes through a list passes the items at its front and stops at the first item
that gives an error: what is behind that item is not evaluated, and the store is left as the item
left it.
-/
namespace TreeLisp

namespace Strict

variable {α β : Type} {s t u : Store} {a : α} {b : β} {message : String}

/-- The run meets no error and no fault and gives the value. -/
def Passes (m : Strict α) (s : Store) (a : α) (t : Store) : Prop :=
  m.run.run s = .ok (.ok a) t

/-- The run is stopped by an error with the message. -/
def Stops (m : Strict α) (s : Store) (message : String) (t : Store) : Prop :=
  m.run.run s = .ok (.error message) t

/-- The run is stopped by the error or has it as its value. -/
def Fails (m : Strict Value) (s : Store) (message : String) (t : Store) : Prop :=
  (settle m).run s = .ok (.error message) t

theorem passes_pure_iff {a' : α} : Passes (pure a) s a' t ↔ a = a' ∧ s = t := by
  change EStateM.Result.ok (Except.ok a) s = .ok (.ok a') t ↔ _
  simp

theorem passes_bind_iff {m : Strict α} {k : α → Strict β} :
    Passes (m >>= k) s b u ↔ ∃ a t, Passes m s a t ∧ Passes (k a) t b u := by
  unfold Passes
  rw [bind_apply]
  constructor
  · intro h
    split at h
    · next a t hm => exact ⟨a, t, hm, h⟩
    · simp at h
    · simp at h
  · rintro ⟨a, t, hm, hk⟩
    rw [hm]
    exact hk

theorem Passes.bind_apply {m : Strict α} (h : Passes m s a t) (k : α → Strict β) :
    (m >>= k).run.run s = (k a).run.run t := by
  rw [Strict.bind_apply, h]

theorem Passes.bind_stops {m : Strict α} {k : α → Strict β} (h : Passes m s a t)
    (hk : Stops (k a) t message u) : Stops (m >>= k) s message u :=
  (h.bind_apply k).trans hk

theorem Passes.bind_fails {m : Strict α} {k : α → Strict Value} (h : Passes m s a t)
    (hk : Fails (k a) t message u) : Fails (m >>= k) s message u := by
  unfold Fails at hk ⊢
  rw [settle_apply, h.bind_apply k, ← settle_apply, hk]

theorem Stops.bind {m : Strict α} (h : Stops m s message t) (k : α → Strict β) :
    Stops (m >>= k) s message t := by
  unfold Stops
  rw [bind_apply, h]

theorem Stops.fails {m : Strict Value} (h : Stops m s message t) : Fails m s message t := by
  unfold Fails
  rw [settle_apply, h]

theorem passes_lift {m : Run α} (h : m.run s = .ok a t) : Passes (liftM m) s a t := by
  unfold Passes
  rw [lift_apply, h]

theorem fails_lift {m : Run Value} (h : m.run s = .ok (.error message) t) :
    Fails (liftM m) s message t := by
  unfold Fails
  rw [settle_lift, h]

theorem stops_need {m : Run Value} (h : m.run s = .ok (.error message) t) :
    Stops (need m) s message t := by
  unfold Stops
  rw [need_apply, h]
  rfl

theorem passes_need {m : Run Value} {v : Value} (h : m.run s = .ok v t) (hv : v.isError = false) :
    Passes (need m) s v t := by
  unfold Passes
  rw [need_apply, h]
  simp only [accept_eq_pure hv]
  rfl

theorem Fails.accept {m : Strict Value} (h : Fails m s message t) :
    Stops (m >>= accept) s message t := by
  unfold Fails at h
  unfold Stops
  rw [settle_apply] at h
  rw [bind_apply]
  cases hm : m.run.run s with
  | error f u => simp [hm] at h
  | ok r u =>
    cases r with
    | error other => simpa [hm] using h
    | ok v =>
      simp only [hm, EStateM.Result.ok.injEq] at h
      obtain ⟨rfl, rfl⟩ := h
      rfl

theorem passes_of_settle {m : Strict Value} {v : Value} (h : (settle m).run s = .ok v t)
    (hv : v.isError = false) : Passes m s v t := by
  unfold Passes
  rw [settle_apply] at h
  cases hm : m.run.run s with
  | error f r => simp [hm] at h
  | ok result r =>
    cases result with
    | ok a =>
      simp only [hm, EStateM.Result.ok.injEq] at h
      rw [h.1, h.2]
    | error message =>
      simp only [hm, EStateM.Result.ok.injEq] at h
      obtain ⟨rfl, -⟩ := h
      simp [Value.isError] at hv

theorem passes_lift_iff {m : Run α} : Passes (liftM m) s a t ↔ m.run s = .ok a t := by
  refine ⟨fun h => ?_, passes_lift⟩
  unfold Passes at h
  rw [lift_apply] at h
  cases hm : m.run s with
  | error f r => simp [hm] at h
  | ok b r => simpa [hm] using h

theorem passes_accept_iff {v w : Value} :
    Passes (accept v) s w t ↔ v.isError = false ∧ v = w ∧ s = t := by
  by_cases hv : v.isError = false
  · rw [accept_eq_pure hv, passes_pure_iff]
    simp [hv]
  · obtain ⟨message, rfl⟩ := Value.eq_error_of_isError (Bool.of_not_eq_false hv)
    refine iff_of_false (fun h => ?_) fun h => hv h.1
    unfold Passes at h
    cases h

theorem passes_need_iff {m : Run Value} {v : Value} :
    Passes (need m) s v t ↔ m.run s = .ok v t ∧ v.isError = false := by
  unfold need
  simp only [passes_bind_iff, passes_lift_iff, passes_accept_iff]
  grind

/-- A run that has no error as its value stops where it is needed as where it stands. -/
theorem need_settle {m : Strict Value} (hm : ∀ v t, Passes m s v t → v.isError = false) :
    (need (settle m)).run.run s = m.run.run s := by
  rw [need_apply, settle_apply]
  cases hrun : m.run.run s with
  | error f t => rfl
  | ok result t =>
    cases result with
    | error message => rfl
    | ok v =>
      simp only [accept_eq_pure (hm v t hrun)]
      rfl

theorem not_passes_fail {p : Problem} : ¬ Passes (fail p) s a t := by
  intro h
  unfold Passes at h
  cases h

end Strict

open Strict

variable {ev : Evaluator} {scope : FrameId} {s t u : Store} {message : String} {e : Value}
  {before after vs : List Value}

theorem passes_evalArgs_nil : Passes (evalArgs ev scope []) s vs t ↔ [] = vs ∧ s = t :=
  passes_pure_iff

theorem passes_evalArgs_cons {form : Value} {later : List Value} :
    Passes (evalArgs ev scope (form :: later)) s vs u ↔
      ∃ v t vs', Passes (need (ev form scope)) s v t ∧
        Passes (evalArgs ev scope later) t vs' u ∧ v :: vs' = vs := by
  simp only [evalArgs, passes_bind_iff, passes_pure_iff]
  grind

theorem evalArgs_stops (h : Passes (evalArgs ev scope before) s vs t)
    (he : (ev e scope).run t = .ok (.error message) u) (after : List Value) :
    Stops (evalArgs ev scope (before ++ e :: after)) s message u := by
  induction before generalizing s vs with
  | nil =>
    obtain ⟨-, rfl⟩ := passes_evalArgs_nil.mp h
    exact (stops_need he).bind _
  | cons form later ih =>
    obtain ⟨v, r, vs', hv, hlater, -⟩ := passes_evalArgs_cons.mp h
    exact hv.bind_stops ((ih hlater).bind _)

theorem evalAfter_append (ev : Evaluator) (frame : FrameId) (before later : List Value)
    (last : Value) :
    evalAfter ev frame last (before ++ later) =
      (do evalAfter ev frame (← evalAfter ev frame last before) later) := by
  induction before generalizing last with
  | nil => exact (pure_bind _ _).symm
  | cons form before ih => simp only [List.cons_append, evalAfter, ih, bind_assoc]

theorem evalAfter_passes_value {forms : List Value} {last v : Value} (hlast : last.isError = false)
    (h : Passes (evalAfter ev scope last forms) s v t) : v.isError = false := by
  induction forms generalizing s last with
  | nil =>
    obtain ⟨rfl, -⟩ := passes_pure_iff.mp h
    exact hlast
  | cons form later ih =>
    obtain ⟨w, r, hform, hlater⟩ := passes_bind_iff.mp h
    exact ih (passes_need_iff.mp hform).2 hlater

theorem evalAfter_stops (h : Passes (evalArgs ev scope before) s vs t)
    (he : (ev e scope).run t = .ok (.error message) u) (last : Value) (after : List Value) :
    Stops (evalAfter ev scope last (before ++ e :: after)) s message u := by
  induction before generalizing s vs last with
  | nil =>
    obtain ⟨-, rfl⟩ := passes_evalArgs_nil.mp h
    exact (stops_need he).bind _
  | cons form later ih =>
    obtain ⟨v, r, vs', hv, hlater, -⟩ := passes_evalArgs_cons.mp h
    exact hv.bind_stops (ih hlater v)

theorem evalSequence_stops (h : Passes (evalArgs ev scope before) s vs t)
    (he : (ev e scope).run t = .ok (.error message) u) (after : List Value) :
    Stops (evalSequence ev scope (before ++ e :: after)) s message u :=
  evalAfter_stops h he .nil after

theorem conjunctionFrom_stops (h : Passes (evalArgs ev scope before) s vs t)
    (htrue : ∀ v ∈ vs, v.truthy = true) (he : (ev e scope).run t = .ok (.error message) u)
    (last : Value) (after : List Value) :
    Stops (SpecialForm.conjunctionFrom ev scope last (before ++ e :: after)) s message u := by
  induction before generalizing s vs last with
  | nil =>
    obtain ⟨-, rfl⟩ := passes_evalArgs_nil.mp h
    exact (stops_need he).bind _
  | cons form later ih =>
    obtain ⟨v, r, vs', hv, hlater, rfl⟩ := passes_evalArgs_cons.mp h
    obtain ⟨hfirst, hothers⟩ := List.forall_mem_cons.mp htrue
    refine hv.bind_stops ?_
    rw [if_pos hfirst]
    exact ih hlater hothers v

theorem disjunctionFrom_stops (h : Passes (evalArgs ev scope before) s vs t)
    (hfalse : ∀ v ∈ vs, v.truthy = false) (he : (ev e scope).run t = .ok (.error message) u)
    (after : List Value) :
    Stops (SpecialForm.disjunctionFrom ev scope (before ++ e :: after)) s message u := by
  induction before generalizing s vs with
  | nil =>
    obtain ⟨-, rfl⟩ := passes_evalArgs_nil.mp h
    exact (stops_need he).bind _
  | cons form later ih =>
    obtain ⟨v, r, vs', hv, hlater, rfl⟩ := passes_evalArgs_cons.mp h
    obtain ⟨hfirst, hothers⟩ := List.forall_mem_cons.mp hfalse
    refine hv.bind_stops ?_
    rw [if_neg (Bool.eq_false_iff.mp hfirst)]
    exact ih hlater hothers

theorem bindEach_append (ev : Evaluator) (frame : FrameId) (before later : List Value) :
    SpecialForm.bindEach ev frame (before ++ later) =
      (do SpecialForm.bindEach ev frame before; SpecialForm.bindEach ev frame later) := by
  induction before with
  | nil => exact (pure_bind _ _).symm
  | cons binding rest ih =>
    match binding with
    | .list [target, form] =>
      rw [List.cons_append, SpecialForm.bindEach, SpecialForm.bindEach]
      cases target.name? with
      | none => rfl
      | some name => simp only [ih, bind_assoc]
    | .list [] | .list [_] | .list (_ :: _ :: _ :: _) | .nil | .bool _ | .int _ | .float _
    | .string _ | .atom _ | .native _ | .sugar _ | .function _ _ _ | .expander _ _ _
    | .error _ => rfl

theorem bindEach_stops {frame : FrameId} {target : Value} {name : String}
    (h : Passes (SpecialForm.bindEach ev frame before) s () t) (hname : target.name? = some name)
    (he : (ev e frame).run t = .ok (.error message) u) (after : List Value) :
    Stops (SpecialForm.bindEach ev frame (before ++ .list [target, e] :: after)) s message u := by
  rw [bindEach_append]
  refine h.bind_stops ?_
  simp only [SpecialForm.bindEach, hname]
  exact (stops_need he).bind _

theorem fillItems_append (ev : Evaluator) (scope : FrameId) (before later : List Value) :
    Template.fillItems ev scope (before ++ later) =
      (do
        let front ← Template.fillItems ev scope before
        let back ← Template.fillItems ev scope later
        pure (front ++ back)) := by
  induction before with
  | nil => simp [Template.fillItems]
  | cons item rest ih =>
    rw [List.cons_append, Template.fillItems, Template.fillItems, ih]
    cases Template.argument? .splice item with
    | none => simp only [bind_assoc, pure_bind, List.cons_append]
    | some argument =>
      cases argument with
      | error p => simp only [fail_bind]
      | ok form =>
        simp only [bind_assoc]
        refine bind_congr fun v => ?_
        cases v with
        | list spliced => simp only [bind_assoc, pure_bind, List.append_assoc]
        | _ => simp only [fail_bind]

theorem fill_unquote_fails {mark : Value} (hmark : mark.name? = some Mark.unquote.head)
    (he : (ev e scope).run s = .ok (.error message) t) :
    Fails (Template.fill ev scope (.list [mark, e])) s message t := by
  have hargument : Template.argument? .unquote (.list [mark, e]) = some (.ok e) := by
    simp [Template.argument?, Value.headName?, hmark]
  simp only [Template.fill, hargument]
  exact fails_lift he

theorem fill_fails {items : List Value} (h : Value.headName? items ≠ some Mark.unquote.head)
    (hitems : Stops (Template.fillItems ev scope items) s message t) :
    Fails (Template.fill ev scope (.list items)) s message t := by
  have hargument : Template.argument? .unquote (.list items) = none := if_neg h
  rw [Template.fill, hargument]
  exact (hitems.bind _).fails

theorem fill_splice_fails {mark : Value}
    (h : Value.headName? (before ++ .list [mark, e] :: after) ≠ some Mark.unquote.head)
    (hmark : mark.name? = some Mark.splice.head)
    (hbefore : Passes (Template.fillItems ev scope before) s vs t)
    (he : (ev e scope).run t = .ok (.error message) u) :
    Fails (Template.fill ev scope (.list (before ++ .list [mark, e] :: after))) s message u := by
  have hargument : Template.argument? .splice (.list [mark, e]) = some (.ok e) := by
    simp [Template.argument?, Value.headName?, hmark]
  refine fill_fails h ?_
  rw [fillItems_append]
  refine hbefore.bind_stops ?_
  simp only [Template.fillItems, hargument]
  exact ((stops_need he).bind _).bind _

theorem fill_item_fails {item : Value}
    (h : Value.headName? (before ++ item :: after) ≠ some Mark.unquote.head)
    (hitem : Template.argument? .splice item = none)
    (hbefore : Passes (Template.fillItems ev scope before) s vs t)
    (he : Fails (Template.fill ev scope item) t message u) :
    Fails (Template.fill ev scope (.list (before ++ item :: after))) s message u := by
  refine fill_fails h ?_
  rw [fillItems_append]
  refine hbefore.bind_stops ?_
  simp only [Template.fillItems, hitem]
  rw [← bind_assoc]
  exact (he.accept.bind _).bind _

section

variable {call : Caller} {f : Value}

theorem passes_mapItems_nil : Passes (Traversal.mapItems call f scope []) s vs t ↔ [] = vs ∧ s = t :=
  passes_pure_iff

theorem passes_mapItems_cons {x : Value} {later : List Value} :
    Passes (Traversal.mapItems call f scope (x :: later)) s vs u ↔
      ∃ v t vs', Passes (need (callFunction call f [x] scope)) s v t ∧
        Passes (Traversal.mapItems call f scope later) t vs' u ∧ v :: vs' = vs := by
  simp only [Traversal.mapItems, passes_bind_iff, passes_pure_iff]
  grind

theorem mapItems_stops (h : Passes (Traversal.mapItems call f scope before) s vs t)
    (he : (callFunction call f [e] scope).run t = .ok (.error message) u) (after : List Value) :
    Stops (Traversal.mapItems call f scope (before ++ e :: after)) s message u := by
  induction before generalizing s vs with
  | nil =>
    obtain ⟨-, rfl⟩ := passes_mapItems_nil.mp h
    exact (stops_need he).bind _
  | cons x later ih =>
    obtain ⟨v, r, vs', hv, hlater, -⟩ := passes_mapItems_cons.mp h
    exact hv.bind_stops ((ih hlater).bind _)

theorem filterItems_stops (h : Passes (Traversal.mapItems call f scope before) s vs t)
    (he : (callFunction call f [e] scope).run t = .ok (.error message) u) (after : List Value) :
    Stops (Traversal.filterItems call f scope (before ++ e :: after)) s message u := by
  induction before generalizing s vs with
  | nil =>
    obtain ⟨-, rfl⟩ := passes_mapItems_nil.mp h
    exact (stops_need he).bind _
  | cons x later ih =>
    obtain ⟨v, r, vs', hv, hlater, -⟩ := passes_mapItems_cons.mp h
    exact hv.bind_stops ((ih hlater).bind _)

theorem foldItems_stops {acc acc' : Value}
    (h : Passes (Traversal.foldItems call f scope acc before) s acc' t)
    (he : (callFunction call f [acc', e] scope).run t = .ok (.error message) u)
    (after : List Value) :
    Stops (Traversal.foldItems call f scope acc (before ++ e :: after)) s message u := by
  induction before generalizing s acc with
  | nil =>
    obtain ⟨rfl, rfl⟩ := passes_pure_iff.mp h
    exact (stops_need he).bind _
  | cons x later ih =>
    obtain ⟨v, r, hv, hlater⟩ := passes_bind_iff.mp h
    exact hv.bind_stops (ih hlater)

end

end TreeLisp
