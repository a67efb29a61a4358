import TreeLisp.Proofs.Levels
import TreeLisp.Proofs.OneName
import TreeLisp.Proofs.Terminal

/-!
# Bindings and definitions

A let makes a frame, binds its names there one by one and evaluates its body there. A function of no
arguments that is applied where it stands does the same when its body starts with definitions. Each
definition needs a level more than the binding that it stands for, and the body of the function one
more than the body of the let, so the two are compared through a run that gives the additional level
to the definitions only.

A definition also gives a name to an anonymous callable, which a binding does not. Where no value is
one, the two runs have the same value and do the same to all frames, with the frames that they make
standing for each other.
-/
namespace TreeLisp

open Strict SpecialForm

def bindingForms (pairs : List (String × Value)) : List Value :=
  pairs.map fun pair => .list [.symbol pair.1, pair.2]

def definitionForms (pairs : List (String × Value)) : List Value :=
  pairs.map fun pair => .list [define, .symbol pair.1, pair.2]

/-- The names bound one by one in a new frame, and the body evaluated there. -/
def letForm (pairs : List (String × Value)) (body : List Value) : Value :=
  .list (.native (.form .bind) :: .list (bindingForms pairs) :: body)

/-- A function without parameters, applied where it stands, that defines the names before its
body. -/
def appliedForm (pairs : List (String × Value)) (body : List Value) : Value :=
  .list [.list (.native (.form .function) :: .list [] :: (definitionForms pairs ++ body))]

/-- The store in which the body of a function that has just been made and applied is evaluated. -/
def Store.applied (s : Store) (scope : FrameId) : Store :=
  (({ s with serial := s.serial + 1 }.addRecord (.calling anonymous 0)).addFrame (some scope) []).2

variable {s t : Store} {scope frame : FrameId} {pairs : List (String × Value)} {body : List Value}
  {n : Nat}

theorem eval_letForm (pairs : List (String × Value)) (body : List Value) (scope : FrameId)
    (s : Store) (n : Nat) :
    (eval (n + 2) (letForm pairs body) scope).run s =
      (settle do
        bindEach (eval (n + 1)) s.frames.size (bindingForms pairs)
        evalSequence (eval (n + 1)) s.frames.size body).run (s.addFrame (some scope) []).2 := by
  have harity := problem_eq_none_of_atLeast_one (f := .form .bind) rfl (.native (.form .bind))
    (.list (bindingForms pairs)) body
  rw [letForm, eval_call (.inl rfl) rfl, call_eq_callWith]
  simp only [callWith, checkArity, harity, pure_bind, runNative, List.tail_cons, SpecialForm.run,
    runBind, settle_apply, (passes_newFrame scope [] s).bind_apply]

theorem eval_function (forms : List Value) (scope : FrameId) (s : Store) (n : Nat) :
    (eval (n + 2) (.list (.native (.form .function) :: .list [] :: forms)) scope).run s =
      .ok (.function s.serial anonymous ⟨[], none, forms, scope, anonymous⟩)
        { s with serial := s.serial + 1 } := by
  have harity := problem_eq_none_of_atLeast_one (f := .form .function) rfl
    (.native (.form .function)) (.list []) forms
  rw [eval_call (.inl rfl) rfl, call_eq_callWith]
  simp only [callWith, checkArity, harity, pure_bind, runNative, List.tail_cons, SpecialForm.run]
  rfl

theorem eval_appliedForm (pairs : List (String × Value)) (body : List Value) (scope : FrameId)
    (s : Store) (n : Nat) :
    (eval (n + 3) (appliedForm pairs body) scope).run s =
      (settle (evalSequence (eval (n + 2)) s.frames.size (definitionForms pairs ++ body))).run
        (s.applied scope) := by
  have hhead : headExpander? s scope
      [.list (.native (.form .function) :: .list [] :: (definitionForms pairs ++ body))] = none := rfl
  rw [appliedForm, eval, evalStep_list hhead, evalList,
    settle_need_bind (eval_function _ scope s n) rfl, settle_lift, call_eq_callWith]
  rfl

theorem evalAfter_of_ne_nil (ev : Evaluator) (frame : FrameId) (h : body ≠ []) (last : Value) :
    evalAfter ev frame last body = evalSequence ev frame body := by
  cases body with
  | nil => exact absurd rfl h
  | cons form later => rfl

/-- The definitions in a frame, and then a body there with an evaluator of its own. -/
def defineThen (ev ev' : Evaluator) (frame : FrameId) (pairs : List (String × Value))
    (body : List Value) : Strict Value := do
  let _ ← evalSequence ev frame (definitionForms pairs)
  evalSequence ev' frame body

theorem evalSequence_definitions (ev : Evaluator) (frame : FrameId) (pairs : List (String × Value))
    (h : body ≠ []) :
    evalSequence ev frame (definitionForms pairs ++ body) = defineThen ev ev frame pairs body := by
  rw [evalSequence, evalAfter_append]
  simp only [evalAfter_of_ne_nil ev frame h]
  rfl

def Value.isAnonymous : Value → Bool
  | .function _ name _ | .expander _ name _ => name = anonymous
  | _ => false

theorem Alike.isAnonymous_eq {P : Permit} {π : Pairing} {v w : Value} (h : Alike P π v w) :
    v.isAnonymous = w.isAnonymous := by
  cases h <;> rfl

theorem named_eq_pure {v : Value} (hv : v.isAnonymous = false) (name : String) :
    named name v = pure v := by
  cases v with
  | function serial own c => exact if_neg (of_decide_eq_false hv)
  | expander serial own c => exact if_neg (of_decide_eq_false hv)
  | _ => rfl

/-- No value of a binding is an anonymous callable, each evaluated with the earlier ones bound. What
is behind an error is not evaluated. -/
def NoneAnonymous (frame : FrameId) : List (String × Value) → Store → Prop
  | [], _ => True
  | (name, form) :: later, s => ∀ n v t, (eval n form frame).run s = .ok v t →
      v.isAnonymous = false ∧
        (v.isError = false → NoneAnonymous frame later (t.set frame name v))

theorem noneAnonymous_cons {name : String} {form v : Value}
    (h : (eval n form frame).run s = .ok v t) (hv : v.isAnonymous = false)
    (hlater : NoneAnonymous frame pairs (t.set frame name v)) :
    NoneAnonymous frame ((name, form) :: pairs) s := by
  intro m w u hw
  have heq := (endsWith_eval h).unique (endsWith_eval hw)
  obtain ⟨rfl, rfl⟩ : v = w ∧ t = u := by simpa using heq
  exact ⟨hv, fun _ => hlater⟩

theorem runDefine_passes_value {ev : Evaluator} {target form v : Value}
    (h : Passes (runDefine ev target form frame) s v t) : v.isError = false := by
  unfold runDefine at h
  cases hname : target.name? with
  | none =>
    rw [hname] at h
    exact absurd h not_passes_fail
  | some name =>
    simp only [hname, passes_bind_iff, passes_need_iff, passes_lift_iff, passes_pure_iff] at h
    obtain ⟨u, r, ⟨-, hu⟩, w, r', hnamed, -, -, -, rfl, rfl⟩ := h
    obtain ⟨w', serial, hrun, hdefined⟩ := named_definedAs name u r
    obtain ⟨rfl, -⟩ : w = w' ∧ _ := by simpa [hrun] using hnamed.symm
    cases hdefined with
    | function old c => rfl
    | expander old c => rfl
    | same _ _ => exact hu

theorem need_definition (name : String) (form : Value) (frame : FrameId) (n : Nat) (s : Store) :
    (need (eval (n + 2) (.list [define, .symbol name, form]) frame)).run.run s =
      (runDefine (eval (n + 1)) (.symbol name) form frame).run.run s := by
  rw [need_apply, eval_call (.inl rfl) rfl, call_define, ← need_apply]
  exact need_settle fun _ _ h => runDefine_passes_value h

theorem evalAfter_definitions_cons (name : String) (form : Value) (pairs : List (String × Value))
    (frame : FrameId) (last : Value) (n : Nat) (s : Store) :
    (evalAfter (eval (n + 2)) frame last (definitionForms ((name, form) :: pairs))).run.run s =
      (do
        let v ← need (eval (n + 1) form frame)
        let v ← named name v
        Run.setName frame name v
        evalAfter (eval (n + 2)) frame v (definitionForms pairs) : Strict Value).run.run s := by
  have hdefine : runDefine (eval (n + 1)) (.symbol name) form frame =
      (do
        let v ← need (eval (n + 1) form frame)
        let v ← named name v
        Run.setName frame name v
        pure v) := rfl
  rw [definitionForms, List.map_cons, evalAfter, bind_apply, need_definition, ← bind_apply, hdefine]
  simp only [bind_assoc, pure_bind]
  rfl

/-- Bindings and definitions of the same names go in parallel from stores that mirror each other. -/
theorem bindEach_definitions {π : Pairing} {i j : FrameId} (hnames : NoneAnonymous i pairs s)
    (hst : Store.Mirrored nowhere π s t) (hframe : π.frame i j)
    (hforms : ∀ pair ∈ pairs, Alike anything π pair.2 pair.2) (last : Value) (n : Nat) :
    Outcomes (Store.Mirrored nowhere) never π (fun _ => Settled fun _ _ => True)
      ((bindEach (eval (n + 1)) i (bindingForms pairs)).run.run s)
      ((evalAfter (eval (n + 2)) j last (definitionForms pairs)).run.run t) := by
  -- What is known of the names is known of the store that the first run has come to. So this is an
  -- induction over one pair of runs, and not a composition of steps that go in parallel anywhere.
  induction pairs generalizing s t π last with
  | nil => exact .result le_rfl hst (.value trivial)
  | cons pair later ih =>
    obtain ⟨name, form⟩ := pair
    obtain ⟨hform, hlater⟩ := List.forall_mem_cons.mp hforms
    have heval : Together anything (Store.Mirrored nowhere) never (eval (n + 1)) (eval (n + 1)) :=
      eval_together (mirrored_simulation nowhere) (n + 1)
    have hneed := StrictParallel.need (heval π form form i j hform hframe) s t hst
    rw [evalAfter_definitions_cons]
    refine hneed.strict_bind fun ρ v w s' t' hle hst' hvw hpasses => ?_
    obtain ⟨hrun, hv⟩ := passes_need_iff.mp hpasses
    obtain ⟨hkept, hnames'⟩ := hnames (n + 1) v s' hrun
    have hkept' : w.isAnonymous = false := hvw.alike.isAnonymous_eq ▸ hkept
    have hset := hst'.set (Pairing.frame_mono hle hframe) name hvw
    rw [named_eq_pure hkept']
    exact ih (hnames' hv) hset (Pairing.frame_mono hle hframe)
      (fun pair hpair => (hlater pair hpair).mono hle) w

theorem Store.Grounded.mirrored_applied (hs : s.Grounded) (hscope : scope < s.frames.size) :
    Store.Mirrored nowhere ((Pairing.ofStore s).link s.frames.size s.frames.size)
      (s.addFrame (some scope) []).2 (s.applied scope) := by
  have hmirrored : Store.Mirrored nowhere (.ofStore s) s
      ({ s with serial := s.serial + 1 }.addRecord (.calling anonymous 0)) :=
    hs.mirrored (fun _ _ => rfl) (Nat.le_succ s.serial)
  exact hmirrored.addFrame ⟨rfl, hscope⟩ .nil

theorem eval_letForm_alike (hs : s.Grounded) (hscope : scope < s.frames.size)
    (hforms : ∀ pair ∈ pairs, s.Holds pair.2) (hbody : ∀ form ∈ body, s.Holds form)
    (hnames : NoneAnonymous s.frames.size pairs (s.addFrame (some scope) []).2) (n : Nat) :
    EndAlike ((Pairing.ofStore s).link s.frames.size s.frames.size)
      ((eval (n + 2) (letForm pairs body) scope).run s)
      ((settle (defineThen (eval (n + 2)) (eval (n + 1)) s.frames.size pairs body)).run
        (s.applied scope)) := by
  let π := (Pairing.ofStore s).link s.frames.size s.frames.size
  have hle : .ofStore s ≤ π := Pairing.le_link _ _ _
  have hframe : π.frame s.frames.size s.frames.size := .inr ⟨rfl, rfl⟩
  have hstored : AllStored anything (.ofStore s) body body :=
    List.forall₂_same.mpr fun form hform => (hbody form hform).stored
  have heval : Together anything (Store.Mirrored nowhere) never (eval (n + 1)) (eval (n + 1)) :=
    eval_together (mirrored_simulation nowhere) (n + 1)
  rw [eval_letForm]
  apply Outcomes.settle
  have hbound := bindEach_definitions hnames (hs.mirrored_applied hscope) hframe
    (fun pair hpair => (hforms pair hpair).alike.mono hle) .nil n
  refine hbound.strict_bind fun ρ _ _ s' t' hle' hst' _ _ => ?_
  exact heval.evalSequence_parallel (AllStored.mono (le_trans hle hle') hstored)
    (Pairing.frame_mono hle' hframe) s' t' hst'

theorem defineThen_nests_or_eq {a a' b b' : Nat} (ha : a ≤ a') (hb : b ≤ b') (frame : FrameId)
    (pairs : List (String × Value)) (body : List Value) (s : Store) :
    (∃ t, (settle (defineThen (eval a) (eval b) frame pairs body)).run s = .error .nesting t) ∨
      (settle (defineThen (eval a') (eval b') frame pairs body)).run s =
        (settle (defineThen (eval a) (eval b) frame pairs body)).run s := by
  have hframe : Pairing.identity.frame frame frame := rfl
  have hdefine := (eval_together_of_le ha).evalSequence_parallel
    (AllStored.refl (definitionForms pairs)) hframe
  have hboth := hdefine.bind fun ρ _ _ hle _ => (eval_together_of_le hb).evalSequence_parallel
    (AllStored.mono hle (AllStored.refl body)) (Pairing.frame_mono hle hframe)
  exact hboth.settle.nests_or_eq (fun _ _ => Alike.eq_of_identity) s

/-- A let with a body agrees with the function of its definitions and its body that is applied where
it stands, as long as no value that is bound is an anonymous callable. The frames that the two make
stand for each other, and everything that there is at the start stands for itself. -/
theorem let_agrees_with_definitions (hs : s.Grounded) (hscope : scope < s.frames.size)
    (hforms : ∀ pair ∈ pairs, s.Holds pair.2) (hbody : ∀ form ∈ body, s.Holds form)
    (hne : body ≠ []) (hnames : NoneAnonymous s.frames.size pairs (s.addFrame (some scope) []).2) :
    s.Agree ((Pairing.ofStore s).link s.frames.size s.frames.size)
      (fun n => eval n (letForm pairs body) scope)
      (fun n => eval n (appliedForm pairs body) scope) := by
  have halike := eval_letForm_alike hs hscope hforms hbody hnames
  have happlied (n : Nat) : (eval (n + 3) (appliedForm pairs body) scope).run s =
      (settle (defineThen (eval (n + 2)) (eval (n + 2)) s.frames.size pairs body)).run
        (s.applied scope) := by
    rw [eval_appliedForm, evalSequence_definitions _ _ _ hne]
  have hmore {a a' b b' : Nat} (ha : a ≤ a') (hb : b ≤ b') :=
    defineThen_nests_or_eq ha hb s.frames.size pairs body (s.applied scope)
  have hlet := eval_levelled (letForm pairs body) scope
  have hfunction := eval_levelled (appliedForm pairs body) scope
  apply hlet.agree hfunction
  -- A run that has ended has no use for the level that its counterpart has more: that of the body in
  -- the one direction, that of the definitions in the other.
  · intro n hn
    have hends := halike n
    rw [hlet.eq_of_enough hn (Nat.le_add_right n 2)] at hends
    have heq := (hmore (Nat.le_refl (n + 2)) (Nat.le_succ (n + 1))).resolve_left
      fun ⟨t, ht⟩ => hends.enough_iff.mp hn t ht
    refine ⟨n + 3, ?_⟩
    rwa [happlied, heq]
  · intro n hn
    have hends := happlied n
    rw [hfunction.eq_of_enough hn (Nat.le_add_right n 3)] at hends
    have heq := (hmore (Nat.le_succ (n + 2)) (Nat.le_refl (n + 2))).resolve_left
      fun ⟨t, ht⟩ => hn t (hends.trans ht)
    refine ⟨n + 3, ?_⟩
    rw [hends, ← heq]
    exact halike (n + 1)

/-- A function inside of a list sees a name that is bound after it is made, and the later value of a
name that is bound twice. -/
theorem let_agrees_with_definitions_later :
    let s : Store := ⟨#[⟨none, []⟩], 0, #[]⟩
    let list : Value := .native (.operation .list)
    let inner : List Value := [.list [list, .symbol "x", .symbol "y"]]
    let pairs : List (String × Value) :=
      [("x", .bool true),
        ("f", .list [list, .list (.native (.form .function) :: .list [] :: inner)]),
        ("y", .symbol "x"), ("x", .bool false)]
    let body : List Value := [.list [.list [.native (.operation .first), .symbol "f"]]]
    (s.Grounded ∧ 0 < s.frames.size ∧ (∀ pair ∈ pairs, s.Holds pair.2) ∧
        (∀ form ∈ body, s.Holds form) ∧ body ≠ [] ∧
        NoneAnonymous s.frames.size pairs (s.addFrame (some 0) []).2) ∧
      s.Agree ((Pairing.ofStore s).link s.frames.size s.frames.size)
        (fun n => eval n (letForm pairs body) 0) (fun n => eval n (appliedForm pairs body) 0) ∧
      ∃ t, s.EndsWith (fun n => eval n (letForm pairs body) 0)
        (.ok (.list [.bool false, .bool true]) t) := by
  intro s list inner pairs body
  have hs : s.Grounded := Store.grounded_singleton (by simp)
  have hforms : ∀ pair ∈ pairs, s.Holds pair.2 := by simp [pairs, list, inner]
  have hbody : ∀ form ∈ body, s.Holds form := by simp [body]
  -- The store with the frame of the let at its different stages.
  let stage (bindings : Bindings) (serial : Nat) : Store :=
    ⟨#[⟨none, []⟩, ⟨some 0, bindings⟩], serial, #[]⟩
  let f : Value := .list [.function 0 anonymous ⟨[], none, inner, 1, anonymous⟩]
  have hx : (eval 2 (.bool true) 1).run (stage [] 0) = .ok (.bool true) (stage [] 0) := rfl
  have hf : (eval 3 (.list [list, .list (.native (.form .function) :: .list [] :: inner)]) 1).run
      (stage [("x", .bool true)] 0) = .ok f (stage [("x", .bool true)] 1) := rfl
  have hy : (eval 2 (.symbol "x") 1).run (stage [("x", .bool true), ("f", f)] 1) =
      .ok (.bool true) (stage [("x", .bool true), ("f", f)] 1) := rfl
  have hx' : (eval 2 (.bool false) 1).run (stage [("x", .bool true), ("f", f), ("y", .bool true)] 1) =
      .ok (.bool false) (stage [("x", .bool true), ("f", f), ("y", .bool true)] 1) := rfl
  have hnames : NoneAnonymous 1 pairs (stage [] 0) :=
    noneAnonymous_cons hx rfl <| noneAnonymous_cons hf rfl <| noneAnonymous_cons hy rfl <|
      noneAnonymous_cons hx' rfl trivial
  let last := stage [("x", .bool false), ("f", f), ("y", .bool true)] 1
  have hbind : Passes (bindEach (eval 5) s.frames.size (bindingForms pairs))
      (s.addFrame (some 0) []).2 () last := rfl
  have hcall : ∃ t, (settle (evalSequence (eval 5) s.frames.size body)).run last =
      .ok (.list [.bool false, .bool true]) t := ⟨_, rfl⟩
  obtain ⟨t, hcall⟩ := hcall
  have ht : (eval 6 (letForm pairs body) 0).run s = .ok (.list [.bool false, .bool true]) t := by
    rw [eval_letForm, settle_apply, hbind.bind_apply, ← settle_apply, hcall]
  exact ⟨⟨hs, by decide, hforms, hbody, nofun, hnames⟩,
    let_agrees_with_definitions hs (by decide) hforms hbody nofun hnames, t, endsWith_eval ht⟩

end TreeLisp
