import TreeLisp.Proofs.Levels
import TreeLisp.Proofs.Terminal

/-!
# The clauses of a conditional

A call of cond is replaced by a branch on its first test, with a call of cond on the later clauses
for the other side. So the tests are evaluated in order, each in the store that the one before it
has left, until one of them is true or gives an error. All depends on two names, cond and if: a test
that gives one of them another meaning changes what the later clauses are.
-/
namespace TreeLisp

open Strict SpecialForm

/-- A call of cond with these tests and forms in turn. -/
def condForm (forms : List Value) : Value :=
  .list (.symbol "cond" :: forms)

namespace Store

/-- The store once the expansion of the call is in the journal. -/
def expanding (s : Store) (forms : List Value) : Store :=
  s.addRecord (.expanding "cond" (.symbol "cond" :: forms))

/-- The names that clauses are expanded by mean the natives. -/
structure KnowsClauses (s : Store) (scope : FrameId) : Prop where
  cond : s.get? scope "cond" = some (.sugar .cond)
  branch : s.get? scope "if" = some (.native (.form .branch))

end Store

/-- The names mean the natives at the start, and still do after every test that is evaluated and
false. -/
def ClausesKept (scope : FrameId) : List Value → Store → Prop
  | test :: form :: more, s => s.KnowsClauses scope ∧
      ∀ n v t, (eval n test scope).run (s.expanding (test :: form :: more)) = .ok v t →
        v.truthy = false → ClausesKept scope more t
  | _, s => s.KnowsClauses scope

/-- What the clauses come to. Of the tests only those are evaluated up to the first that is not
false, and of the forms at most the one that belongs to it. -/
inductive Selects (scope : FrameId) :
    List Value → Store → EStateM.Result Fault Store Value → Prop where
  | none (s : Store) : Selects scope [] s (.ok .nil (s.expanding []))
  | fault {test form : Value} {more : List Value} {s t : Store} {f : Fault}
      (htest : (s.expanding (test :: form :: more)).EndsWith (fun n => eval n test scope)
        (.error f t)) : Selects scope (test :: form :: more) s (.error f t)
  | error {test form : Value} {more : List Value} {s t : Store} {message : String}
      (htest : (s.expanding (test :: form :: more)).EndsWith (fun n => eval n test scope)
        (.ok (.error message) t)) :
      Selects scope (test :: form :: more) s (.ok (.error message) t)
  | chosen {test form v : Value} {more : List Value} {s t : Store}
      {r : EStateM.Result Fault Store Value}
      (htest : (s.expanding (test :: form :: more)).EndsWith (fun n => eval n test scope)
        (.ok v t)) (hv : v.isError = false) (htrue : v.truthy = true)
      (hform : t.EndsWith (fun n => eval n form scope) r) :
      Selects scope (test :: form :: more) s r
  | next {test form v : Value} {more : List Value} {s t : Store}
      {r : EStateM.Result Fault Store Value}
      (htest : (s.expanding (test :: form :: more)).EndsWith (fun n => eval n test scope)
        (.ok v t)) (hfalse : v.truthy = false) (hmore : Selects scope more t r) :
      Selects scope (test :: form :: more) s r

variable {scope : FrameId} {s t : Store} {test form v : Value} {forms more : List Value} {n : Nat}
  {r : EStateM.Result Fault Store Value}

theorem Value.isError_of_not_truthy (h : v.truthy = false) : v.isError = false := by
  cases v with
  | error message => cases h
  | _ => rfl

theorem eval_condForm (h : s.get? scope "cond" = some (.sugar .cond))
    (hform : Sugar.clauses forms = .ok form) (n : Nat) :
    (eval (n + 1) (condForm forms) scope).run s = (eval n form scope).run (s.expanding forms) := by
  have hhead : headExpander? s scope (.symbol "cond" :: forms) = some ("cond", .sugar .cond) := by
    simp [headExpander?, Value.headName?, Value.symbol, Value.name?, Token.ofName, h,
      Value.isExpander]
  have hexpand : Sugar.cond.expand (.symbol "cond" :: forms) = .ok form := hform
  have hget : (get : Run Store).run s = .ok s s := rfl
  have hrecord : (Run.record (.expanding "cond" (.symbol "cond" :: forms))).run s =
      .ok () (s.expanding forms) := rfl
  simp only [condForm, eval, evalStep, EStateM.run_bind, hget, hhead, hrecord, expand, hexpand]
  rfl

theorem clauses_odd (h : forms.length % 2 = 1) :
    Sugar.clauses forms = .ok (.error "cond requires an even number of forms") :=
  if_neg (by omega)

theorem clauses_cons (h : (test :: form :: more).length % 2 = 0) :
    Sugar.clauses (test :: form :: more) =
      .ok (.list [.symbol "if", test, form, condForm more]) :=
  if_pos h

theorem eval_clause (h : s.KnowsClauses scope) (heven : (test :: form :: more).length % 2 = 0)
    (n : Nat) :
    (eval (n + 3) (condForm (test :: form :: more)) scope).run s =
      (settle (runBranch (eval (n + 1)) test form (some (condForm more)) scope)).run
        (s.expanding (test :: form :: more)) := by
  have hhead : (s.expanding (test :: form :: more)).denotes scope (.symbol "if")
      (.native (.form .branch)) := .inr ⟨"if", rfl, h.branch⟩
  rw [eval_condForm h.cond (clauses_cons heven), eval_call hhead rfl, call_eq_callWith]
  rfl

section Branch

variable {ev : Evaluator} {other : Value}

theorem runBranch_error {message : String} (h : (ev test scope).run s = .ok (.error message) t) :
    (settle (runBranch ev test form (some other) scope)).run s = .ok (.error message) t :=
  ((stops_need h).bind _).fails

theorem runBranch_true (h : (ev test scope).run s = .ok v t) (hv : v.isError = false)
    (htrue : v.truthy = true) :
    (settle (runBranch ev test form (some other) scope)).run s = (ev form scope).run t := by
  rw [runBranch, settle_need_bind h hv, if_pos htrue, settle_lift]

theorem runBranch_false (h : (ev test scope).run s = .ok v t) (hfalse : v.truthy = false) :
    (settle (runBranch ev test form (some other) scope)).run s = (ev other scope).run t := by
  rw [runBranch, settle_need_bind h (Value.isError_of_not_truthy hfalse),
    if_neg (Bool.eq_false_iff.mp hfalse), settle_lift]

end Branch

theorem ClausesKept.knows (h : ClausesKept scope forms s) : s.KnowsClauses scope := by
  match forms with
  | [] | [_] => exact h
  | _ :: _ :: _ => exact h.1

theorem even_of_clause (h : (test :: form :: more).length % 2 = 0) : more.length % 2 = 0 := by
  simp only [List.length_cons] at h
  omega

theorem eval_condForm_nil (h : s.KnowsClauses scope) (n : Nat) :
    (eval (n + 2) (condForm []) scope).run s = .ok .nil (s.expanding []) := by
  have hnone : Sugar.clauses [] = .ok .nil := rfl
  rw [eval_condForm h.cond hnone]
  rfl

theorem endsWith_clause (h : s.KnowsClauses scope)
    (heven : (test :: form :: more).length % 2 = 0)
    (hrun : (settle (runBranch (eval (n + 1)) test form (some (condForm more)) scope)).run
      (s.expanding (test :: form :: more)) = r) (henough : ∀ t, r ≠ .error .nesting t) :
    s.EndsWith (fun n => eval n (condForm (test :: form :: more)) scope) r :=
  (eval_levelled _ scope).endsWith_of_eq ((eval_clause h heven n).trans hrun) henough

theorem endsWith_of_selects (hselects : Selects scope forms s r) (heven : forms.length % 2 = 0)
    (hkept : ClausesKept scope forms s) :
    s.EndsWith (fun n => eval n (condForm forms) scope) r := by
  induction hselects with
  | none s => exact endsWith_eval (eval_condForm_nil hkept.knows 0)
  | fault htest =>
    obtain ⟨m, hm⟩ := (eval_levelled _ scope).exists_enough htest
    have hrun := hm (m + 1) (Nat.le_succ m)
    exact endsWith_clause hkept.knows heven (settle_need_fault hrun) htest.enough
  | error htest =>
    obtain ⟨m, hm⟩ := (eval_levelled _ scope).exists_enough htest
    have hrun := hm (m + 1) (Nat.le_succ m)
    exact endsWith_clause hkept.knows heven (runBranch_error hrun) htest.enough
  | chosen htest hv htrue hform =>
    obtain ⟨m, hm⟩ := (eval_levelled _ scope).exists_enough htest
    obtain ⟨k, hk⟩ := (eval_levelled _ scope).exists_enough hform
    have hrun := hm (max m k + 1) (by omega)
    have hrun' := hk (max m k + 1) (by omega)
    exact endsWith_clause hkept.knows heven ((runBranch_true hrun hv htrue).trans hrun')
      hform.enough
  | next htest hfalse _ ih =>
    obtain ⟨m, hm⟩ := (eval_levelled _ scope).exists_enough htest
    have hmore := ih (even_of_clause heven) (hkept.2 m _ _ (hm m (Nat.le_refl m)) hfalse)
    obtain ⟨k, hk⟩ := (eval_levelled _ scope).exists_enough hmore
    have hrun := hm (max m k + 1) (by omega)
    have hrun' := hk (max m k + 1) (by omega)
    exact endsWith_clause hkept.knows heven ((runBranch_false hrun hfalse).trans hrun')
      hmore.enough

theorem selects_of_endsWith (forms : List Value) (s : Store) (heven : forms.length % 2 = 0)
    (hkept : ClausesKept scope forms s)
    (hends : s.EndsWith (fun n => eval n (condForm forms) scope) r) : Selects scope forms s r := by
  match forms with
  | [] =>
    rw [hends.unique (endsWith_eval (eval_condForm_nil hkept.knows 0))]
    exact .none s
  | [_] => cases heven
  | test :: form :: more =>
    have hmore := even_of_clause heven
    obtain ⟨m, hm⟩ := (eval_levelled (condForm (test :: form :: more)) scope).exists_enough hends
    have hclause := hm (m + 3) (by omega)
    rw [eval_clause hkept.knows heven] at hclause
    have hlevelled := eval_levelled test scope
    -- The way the clause goes is the way its test ends with the levels that the call had for it.
    cases htest : (eval (m + 1) test scope).run (s.expanding (test :: form :: more)) with
    | error f t =>
      obtain rfl : .error f t = r := (settle_need_fault htest).symm.trans hclause
      exact .fault (hlevelled.endsWith_of_eq htest hends.enough)
    | ok v t =>
      have hends' := endsWith_eval htest
      by_cases herror : v.isError = true
      · obtain ⟨message, rfl⟩ := Value.eq_error_of_isError herror
        obtain rfl := (runBranch_error htest).symm.trans hclause
        exact .error hends'
      · have hv := Bool.eq_false_iff.mpr herror
        by_cases htrue : v.truthy = true
        · rw [runBranch_true htest hv htrue] at hclause
          exact .chosen hends' hv htrue
            ((eval_levelled form scope).endsWith_of_eq hclause hends.enough)
        · have hfalse := Bool.eq_false_iff.mpr htrue
          rw [runBranch_false htest hfalse] at hclause
          exact .next hends' hfalse (selects_of_endsWith more t hmore
            (hkept.2 (m + 1) v t htest hfalse)
            ((eval_levelled _ scope).endsWith_of_eq hclause hends.enough))

/-- A conditional comes to what its clauses select, if the names that they are expanded by keep
their meaning. With a form left without a partner it comes to an error, and evaluates nothing. -/
theorem cond_selects_first_true (scope : FrameId) (forms : List Value) (s : Store) :
    (forms.length % 2 = 0 → ClausesKept scope forms s → ∀ r,
      s.EndsWith (fun n => eval n (condForm forms) scope) r ↔ Selects scope forms s r) ∧
    (forms.length % 2 = 1 → s.get? scope "cond" = some (.sugar .cond) →
      s.EndsWith (fun n => eval n (condForm forms) scope)
        (.ok (.error "cond requires an even number of forms") (s.expanding forms))) := by
  refine ⟨fun heven hkept r => ⟨selects_of_endsWith forms s heven hkept, fun hselects =>
    endsWith_of_selects hselects heven hkept⟩, fun hodd hcond => ?_⟩
  have hrun := eval_condForm hcond (clauses_odd hodd) 1
  exact endsWith_eval (hrun.trans rfl)

/-- The first test defines the name that the second one reads. The names of the forms that are not
selected, and of the last test, mean nothing. -/
theorem cond_selects_first_true_second :
    let s := (World.initial.run [.start]).store
    let define : Value := .list [.symbol "def", .symbol "x", .bool false]
    let negate : Value := .list [.symbol "not", .symbol "x"]
    let later : List Value := [negate, .symbol "x", .symbol "b", .symbol "c"]
    let forms : List Value := define :: .symbol "a" :: later
    let t := (s.expanding forms).set 1 "x" (.bool false)
    (ClausesKept 1 forms s ∧ s.get? 1 "cond" = some (.sugar .cond)) ∧
      s.EndsWith (fun n => eval n (condForm forms) 1) (.ok (.bool false) (t.expanding later)) ∧
      s.EndsWith (fun n => eval n (condForm [define]) 1)
        (.ok (.error "cond requires an even number of forms") (s.expanding [define])) := by
  intro s define negate later forms t
  have hdefine : (eval 3 define 1).run (s.expanding forms) = .ok (.bool false) t := rfl
  have hnegate : (eval 3 negate 1).run (t.expanding later) =
      .ok (.bool true) (t.expanding later) := rfl
  have hx : (eval 3 (.symbol "x") 1).run (t.expanding later) =
      .ok (.bool false) (t.expanding later) := rfl
  have hlater : ClausesKept 1 later t := by
    refine ⟨⟨rfl, rfl⟩, fun n v t' hrun hfalse => ?_⟩
    cases (endsWith_eval hrun).unique (endsWith_eval hnegate)
    cases hfalse
  have hforms : ClausesKept 1 forms s := by
    refine ⟨⟨rfl, rfl⟩, fun n v t' hrun _ => ?_⟩
    cases (endsWith_eval hrun).unique (endsWith_eval hdefine)
    exact hlater
  have hselects : Selects 1 forms s (.ok (.bool false) (t.expanding later)) :=
    .next (endsWith_eval hdefine) rfl
      (.chosen (endsWith_eval hnegate) rfl rfl (endsWith_eval hx))
  have heven : forms.length % 2 = 0 := by simp [forms, later]
  exact ⟨⟨hforms, rfl⟩, ((cond_selects_first_true 1 forms s).1 heven hforms _).mpr hselects,
    (cond_selects_first_true 1 [define] s).2 rfl rfl⟩

end TreeLisp
