import TreeLisp.Proofs.Answers
import TreeLisp.Proofs.Levels

/-!
# Templates and the forms that build them

A template can be written as a form that builds the same list with natives: parts that are only
copied are quoted, and a list is put together from one segment for each item, either the list of the
one value or the list that is spliced in. Where filling a template gives a value, evaluating the
form gives it too, with the same unquoted forms evaluated in the same order. The two differ where
filling ends with an error: natives join nil as an empty list, and a template does not.
-/
namespace TreeLisp

namespace Template

mutual

/-- The form that builds the template from natives. -/
def expansion : Value → Value
  | .list items =>
    match argument? .unquote (.list items) with
    | some (.ok form) => form
    | _ => .list (.native (.operation .concat) :: segments items)
  | v => .list [.native (.form .quote), v]

/-- One form for each item, whose value is the list of what the item stands for. -/
def segments : List Value → List Value
  | [] => []
  | item :: later =>
    (match argument? .splice item with
      | some (.ok form) => form
      | _ => .list [.native (.operation .list), expansion item]) :: segments later

end

mutual

/-- No list in the template is headed by unquote, and no item of a list is an error or headed by
unquote-splicing. -/
def inert : Value → Bool
  | .list items => (argument? .unquote (.list items)).isNone && inertItems items
  | _ => true

def inertItems : List Value → Bool
  | [] => true
  | item :: later =>
    (argument? .splice item).isNone && !item.isError && inert item && inertItems later

end

end Template

open Strict Template

variable {scope : FrameId} {s t u : Store} {v w : Value} {forms vs : List Value} {n : Nat}

theorem evalArgs_of_more_levels (h : Passes (evalArgs (eval n) scope forms) s vs t) {m : Nat}
    (hle : n ≤ m) : Passes (evalArgs (eval m) scope forms) s vs t := by
  induction forms generalizing s vs with
  | nil => exact h
  | cons form later ih =>
    obtain ⟨v, r, vs', hform, hlater, rfl⟩ := passes_evalArgs_cons.mp h
    obtain ⟨hrun, hv⟩ := passes_need_iff.mp hform
    have hform' : Passes (need (eval m form scope)) s v r :=
      passes_need (eval_of_more_levels hrun hle) hv
    exact passes_evalArgs_cons.mpr ⟨v, r, vs', hform', ih hlater, rfl⟩

/-- Arguments that have values one by one, each with enough levels, have them together. -/
theorem exists_evalArgs_cons {form : Value} (hform : ∃ n, (eval n form scope).run s = .ok v t)
    (hv : v.isError = false) (hlater : ∃ n, Passes (evalArgs (eval n) scope forms) t vs u) :
    ∃ n, Passes (evalArgs (eval n) scope (form :: forms)) s (v :: vs) u := by
  obtain ⟨m, hform⟩ := hform
  obtain ⟨n, hlater⟩ := hlater
  refine ⟨max m n, passes_evalArgs_cons.mpr ⟨v, t, vs, ?_, ?_, rfl⟩⟩
  · exact passes_need (eval_of_more_levels hform (Nat.le_max_left m n)) hv
  · exact evalArgs_of_more_levels hlater (Nat.le_max_right m n)

theorem eval_quote (v : Value) (scope : FrameId) (s : Store) :
    (eval 2 (.list [.native (.form .quote), v]) scope).run s = .ok v s := by
  rw [eval_call (.inl rfl) rfl, call_eq_callWith]
  rfl

theorem eval_operation {op : Operation} (hany : op.arity = .any) (htakes : op.takesErrors = false)
    (hargs : ∃ n, Passes (evalArgs (eval n) scope forms) s vs t)
    (hcompute : op.compute vs = pure w) :
    ∃ n, (eval n (.list (.native (.operation op) :: forms)) scope).run s = .ok w t := by
  obtain ⟨n, hargs⟩ := hargs
  have harity : op.arity.problem? op.name (.native (.operation op) :: forms) = none := by
    simp only [hany, Arity.problem?]
  have hanswer : op.answer vs = .ok w := by rw [Operation.answer, hcompute, Compute.answer_pure]
  refine ⟨n + 2, ?_⟩
  rw [eval_call (.inl rfl) rfl]
  exact call_operation htakes harity (evalArgs_of_more_levels hargs (Nat.le_succ n)) hanswer

theorem joined_list (op : Operation) {xs : List Value} (h : op.joined vs = pure forms) :
    op.joined (.list xs :: vs) = pure (xs ++ forms) := by
  rw [Operation.joined, h]
  rfl

mutual

theorem exists_eval_expansion : (template : Value) → {s t : Store} → {v : Value} →
    Passes (fill (eval n) scope template) s v t → v.isError = false →
    ∃ m, (eval m (expansion template) scope).run s = .ok v t
  | .list items, s, t, v, h, hv => by
    rw [fill] at h
    rw [expansion]
    cases hargument : argument? .unquote (.list items) with
    | some argument =>
      rw [hargument] at h
      cases argument with
      | error p => exact absurd h not_passes_fail
      | ok form => exact ⟨n, passes_lift_iff.mp h⟩
    | none =>
      simp only [hargument, passes_bind_iff, passes_pure_iff] at h
      obtain ⟨filled, r, hitems, rfl, rfl⟩ := h
      obtain ⟨parts, hparts, hjoined⟩ := exists_evalArgs_segments items hitems
      apply eval_operation rfl rfl hparts
      rw [Operation.compute, hjoined]
      rfl
  | .nil, s, t, v, h, _ | .bool _, s, t, v, h, _ | .int _, s, t, v, h, _ | .float _, s, t, v, h, _
  | .string _, s, t, v, h, _ | .atom _, s, t, v, h, _ | .native _, s, t, v, h, _
  | .sugar _, s, t, v, h, _ | .function _ _ _, s, t, v, h, _ | .expander _ _ _, s, t, v, h, _
  | .error _, s, t, v, h, _ => by
    rw [fill, passes_pure_iff] at h
    · obtain ⟨rfl, rfl⟩ := h
      exact ⟨2, eval_quote _ scope s⟩
    · exact nofun

theorem exists_evalArgs_segments : (items : List Value) → {s t : Store} → {filled : List Value} →
    Passes (fillItems (eval n) scope items) s filled t →
    ∃ parts, (∃ m, Passes (evalArgs (eval m) scope (segments items)) s parts t) ∧
      Operation.concat.joined parts = pure filled
  | [], s, t, filled, h => by
    rw [fillItems, passes_pure_iff] at h
    obtain ⟨rfl, rfl⟩ := h
    exact ⟨[], ⟨n, passes_evalArgs_nil.mpr ⟨rfl, rfl⟩⟩, rfl⟩
  | item :: later, s, t, filled, h => by
    rw [fillItems] at h
    rw [segments]
    cases hargument : argument? .splice item with
    | some argument =>
      rw [hargument] at h
      cases argument with
      | error p => exact absurd h not_passes_fail
      | ok form =>
        simp only [passes_bind_iff, passes_need_iff] at h
        obtain ⟨v, r, ⟨hform, hv⟩, hspliced⟩ := h
        cases v with
        | list spliced =>
          simp only [passes_bind_iff, passes_pure_iff] at hspliced
          obtain ⟨back, r', hlater, rfl, rfl⟩ := hspliced
          obtain ⟨parts, hparts, hjoined⟩ := exists_evalArgs_segments later hlater
          exact ⟨.list spliced :: parts, exists_evalArgs_cons ⟨n, hform⟩ hv hparts,
            joined_list _ hjoined⟩
        | _ => exact absurd hspliced not_passes_fail
    | none =>
      simp only [hargument, passes_bind_iff, passes_accept_iff, passes_pure_iff] at h
      obtain ⟨v, r, hitem, _, _, ⟨hv, rfl, rfl⟩, back, r', hlater, rfl, rfl⟩ := h
      obtain ⟨parts, hparts, hjoined⟩ := exists_evalArgs_segments later hlater
      have hnone : ∃ m, Passes (evalArgs (eval m) scope []) r [] r :=
        ⟨n, passes_evalArgs_nil.mpr ⟨rfl, rfl⟩⟩
      have hvalue := exists_evalArgs_cons (exists_eval_expansion item hitem hv) hv hnone
      have hsegment : ∃ m,
          (eval m (.list [.native (.operation .list), expansion item]) scope).run s =
            .ok (.list [v]) r :=
        eval_operation rfl rfl hvalue rfl
      exact ⟨.list [v] :: parts, exists_evalArgs_cons hsegment rfl hparts, joined_list _ hjoined⟩

end

mutual

theorem fill_inert (ev : Evaluator) (scope : FrameId) : (template : Value) →
    inert template = true → fill ev scope template = pure template
  | .list items, h => by
    rw [inert, Bool.and_eq_true, Option.isNone_iff_eq_none] at h
    rw [fill, h.1, fillItems_inert ev scope items h.2]
    rfl
  | .nil, _ | .bool _, _ | .int _, _ | .float _, _ | .string _, _ | .atom _, _ | .native _, _
  | .sugar _, _ | .function _ _ _, _ | .expander _ _ _, _ | .error _, _ => by
    rw [fill]
    exact nofun

theorem fillItems_inert (ev : Evaluator) (scope : FrameId) : (items : List Value) →
    inertItems items = true → fillItems ev scope items = pure items
  | [], _ => by rw [fillItems]
  | item :: later, h => by
    simp only [inertItems, Bool.and_eq_true, Option.isNone_iff_eq_none, Bool.not_eq_true'] at h
    obtain ⟨⟨⟨hsplice, herror⟩, hitem⟩, hlater⟩ := h
    rw [fillItems, hsplice, fill_inert ev scope item hitem, fillItems_inert ev scope later hlater]
    simp only [pure_bind, accept_eq_pure herror]

end

/-- When a template is filled with a value that is not an error, then evaluating its expansion in
the same store gives that value and leaves the same store. A template with nothing to evaluate and
no error in it is its own filling, whatever evaluator there is. -/
theorem template_expansion_agrees :
    (∀ (template v : Value) (scope : FrameId) (s t : Store) (levels : Nat),
      (settle (fill (eval levels) scope template)).run s = .ok v t → v.isError = false →
        s.EndsWith (fun n => eval n (expansion template) scope) (.ok v t)) ∧
    (∀ (template : Value) (ev : Evaluator) (scope : FrameId), inert template = true →
      fill ev scope template = pure template) := by
  constructor
  · intro template v scope s t levels h hv
    obtain ⟨m, hm⟩ := exists_eval_expansion template (passes_of_settle h hv) hv
    exact endsWith_eval hm
  · intro template ev scope h
    exact fill_inert ev scope template h

/-- The template defines a name in its first unquoted part and splices it in twice afterwards. The
value of the name looks like an unquoted part and is not filled again. As the template itself, a
list headed by unquote-splicing is only copied. -/
theorem template_expansion_agrees_nested :
    let s := (World.initial.run [.start]).store
    let inserted : Value := .list [.symbol "unquote", .symbol "b"]
    let definition : Value := .list [.symbol "def", .symbol "x", .list [.symbol "quote", inserted]]
    let twice : Value := .list [.symbol "list", .symbol "x", .symbol "x"]
    let template : Value :=
      .list [.symbol "a", .list [.symbol "unquote", definition],
        .list [.list [.symbol "unquote-splicing", twice]]]
    let v : Value := .list [.symbol "a", inserted, .list [inserted, inserted]]
    let t := s.set 1 "x" inserted
    let copied : Value := .list [.symbol "unquote-splicing", .symbol "a"]
    ((settle (fill (eval 3) 1 template)).run s = .ok v t ∧ v.isError = false ∧
        inert copied = true) ∧
      s.EndsWith (fun n => eval n (expansion template) 1) (.ok v t) ∧
      fill (eval 3) 1 copied = pure copied := by
  intro s inserted definition twice template v t copied
  have hfill : (settle (fill (eval 3) 1 template)).run s = .ok v t := rfl
  have hcopied : inert copied = true := rfl
  exact ⟨⟨hfill, rfl, hcopied⟩, template_expansion_agrees.1 template v 1 s t 3 hfill rfl,
    template_expansion_agrees.2 copied (eval 3) 1 hcopied⟩

end TreeLisp
