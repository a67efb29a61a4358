import TreeLisp.Proofs.Call
import TreeLisp.Proofs.LawfulSession

/-!
# The name of a callable

A callable made by the program carries a name twice: it prints under the one, and its closure
refuses a wrong number of arguments under the other. The two are the same for every callable that
comes up in a session.

A definition gives its name to an anonymous callable by making a new one. What was there before
stays as it is, so a callable that is shared keeps its old name everywhere else.
-/
namespace TreeLisp

namespace Closure

def Takes (c : Closure Value) (count : Nat) : Prop :=
  match c.rest with
  | none => count = c.params.length
  | some _ => c.params.length ≤ count

/-- How the closure refuses a number of arguments that it does not take. -/
def refusal (c : Closure Value) (count : Nat) : String :=
  c.name ++ (if c.rest.isSome then " takes at least " else " takes ") ++
    Text.intText c.params.length ++ " args, got " ++ Text.intText count

variable {c : Closure Value} {ev : Evaluator}

theorem countProblem_of_not_takes {count : Nat} (h : ¬ c.Takes count) :
    ∃ p, c.countProblem? count = some p ∧ p.message = c.refusal count := by
  unfold Takes at h
  unfold countProblem? refusal
  cases hrest : c.rest with
  | none =>
    simp only [hrest] at h
    exact ⟨_, if_neg h, rfl⟩
  | some name =>
    simp only [hrest] at h
    exact ⟨_, if_pos (by omega), rfl⟩

theorem invoke_refused {args : List Value} (h : ¬ c.Takes args.length) (s : Store) :
    (c.invoke ev args).run.run s = .ok (.error (c.refusal args.length)) s := by
  obtain ⟨p, hp, hmessage⟩ := countProblem_of_not_takes h
  rw [← hmessage]
  simp only [invoke, bind, hp, Strict.fail_bind]
  rfl

end Closure

/-- A callable made by the program has the name of its closure. What is inside of the value does not
count. -/
def Value.NamedAlike : Value → Prop
  | .function _ name c | .expander _ name c => name = c.name
  | _ => True

/-- The value prints under the name of its closure, and so it does when it refuses arguments: those
of a call are evaluated before they are counted, those of an expansion are not. -/
structure Value.GoesByName (v : Value) (c : Closure Value) : Prop where
  text : v.text = if v.isFunction then functionText c.name else expanderText c.name
  call (ev : Evaluator) (items : List Value) (scope : FrameId) (s t : Store) (args : List Value)
    (hfunction : v.isFunction = true)
    (hargs : (evalArgs ev scope items.tail).run.run s = .ok (.ok args) t)
    (hcount : ¬ c.Takes args.length) :
    (call ev v items scope).run s =
      .ok (.error (c.refusal args.length)) (t.addRecord (.calling c.name args.length))
  expand (ev : Evaluator) (items : List Value) (s : Store) (hexpander : v.isExpander = true)
    (hcount : ¬ c.Takes items.tail.length) :
    (expand ev v items).run s = .ok (.error (c.refusal items.tail.length)) s

namespace Value.NamedAlike

variable {serial : Nat} {name : String} {c : Closure Value}

theorem function_goesByName (h : (Value.function serial name c).NamedAlike) :
    (Value.function serial name c).GoesByName c where
  text := by
    obtain rfl : name = c.name := h
    rw [Value.text]
    rfl
  call ev items scope s t args _ hargs hcount := by
    have hrecord : (liftM (Run.record (.calling c.name args.length)) : Strict Unit).run.run t =
        .ok (.ok ()) (t.addRecord (.calling c.name args.length)) := rfl
    rw [call_eq_callWith, callWith, Strict.settle_apply, Closure.call]
    simp only [Strict.bind_apply, hargs, hrecord, Closure.invoke_refused hcount]
  expand _ _ _ hexpander := Bool.noConfusion hexpander

theorem expander_goesByName (h : (Value.expander serial name c).NamedAlike) :
    (Value.expander serial name c).GoesByName c where
  text := by
    obtain rfl : name = c.name := h
    rw [Value.text]
    rfl
  call _ _ _ _ _ _ hfunction := Bool.noConfusion hfunction
  expand ev items s _ hcount := by
    rw [TreeLisp.expand, Strict.settle_apply, Closure.invoke_refused hcount]

theorem goesByName {v : Value} (h : v.NamedAlike) (hc : v.closure? = some c) : v.GoesByName c := by
  cases v with
  | function serial name d =>
    cases hc
    exact h.function_goesByName
  | expander serial name d =>
    cases hc
    exact h.expander_goesByName
  | _ => cases hc

end Value.NamedAlike

/-- Callables have one name. Lists and strings may be of any length, and any fault may come up. -/
def nameLaw : Law where
  value := Value.NamedAlike
  room _ := True
  fault _ := True

theorem nameLaw_unlimited : nameLaw.Unlimited := fun _ => trivial

theorem nameLaw_sound : nameLaw.Sound where
  ordinary := by
    intro v _ hclosure
    cases v with
    | function | expander => cases hclosure
    | _ => trivial
  int _ := trivial
  remainder _ _ := trivial
  count _ := trivial
  function _ _ h := h.symm
  expander _ _ h := h.symm
  renamedFunction _ _ _ := rfl
  renamedExpander _ _ _ := rfl
  few _ := trivial
  nesting := trivial
  literal _ := trivial
  operation _ _ _ _ _ := trivial

/-- The value that a definition binds to a name: an anonymous callable gets the name and a serial
number of its own and is otherwise copied, and any other value is taken as it is. -/
inductive Value.DefinedAs (name : String) (serial : Nat) : Value → Value → Prop where
  | function (old : Nat) (c : Closure Value) :
      DefinedAs name serial (.function old anonymous c)
        (.function serial name ⟨c.params, c.rest, c.body, c.scope, name⟩)
  | expander (old : Nat) (c : Closure Value) :
      DefinedAs name serial (.expander old anonymous c)
        (.expander serial name ⟨c.params, c.rest, c.body, c.scope, name⟩)
  | same (v : Value) (hfunction : ∀ old c, v ≠ .function old anonymous c)
      (hexpander : ∀ old c, v ≠ .expander old anonymous c) : DefinedAs name serial v v

theorem Value.DefinedAs.eq_of_anonymous {name : String} {serial old : Nat} {c : Closure Value}
    {w : Value} (h : (Value.function old anonymous c).DefinedAs name serial w) :
    w = .function serial name ⟨c.params, c.rest, c.body, c.scope, name⟩ := by
  cases h with
  | function => rfl
  | same _ hfunction => exact absurd rfl (hfunction old c)

namespace Store

/-- The stores are the same but for serial numbers and for what one frame binds some names to. -/
structure SameOutside (scope : FrameId) (names : List String) (s t : Store) : Prop where
  parents (i : FrameId) : t.frames[i]?.map Frame.parent = s.frames[i]?.map Frame.parent
  bindings (i : FrameId) (name : String) (h : i ≠ scope ∨ name ∉ names) :
    t.own? i name = s.own? i name
  journal : t.journal = s.journal

namespace SameOutside

variable {s t u : Store} {scope : FrameId} {names : List String} {name : String}

theorem refl (s : Store) : s.SameOutside scope names s :=
  ⟨fun _ => rfl, fun _ _ _ => rfl, rfl⟩

theorem trans (h : s.SameOutside scope names t) (k : t.SameOutside scope names u) :
    s.SameOutside scope names u where
  parents i := (k.parents i).trans (h.parents i)
  bindings i name hi := (k.bindings i name hi).trans (h.bindings i name hi)
  journal := k.journal.trans h.journal

theorem mono {more : List String} (h : s.SameOutside scope names t) (hmore : names ⊆ more) :
    s.SameOutside scope more t where
  parents := h.parents
  bindings i name hi := h.bindings i name (hi.imp id fun hname hmem => hname (hmore hmem))
  journal := h.journal

theorem set (s : Store) (scope : FrameId) (name : String) (v : Value) (serial : Nat) :
    s.SameOutside scope [name] ({ s with serial }.set scope name v) where
  parents i := by
    by_cases hi : scope = i
    · simp only [Store.set, Array.getElem?_modify, if_pos hi, Option.map_map]
      rfl
    · simp only [Store.set, Array.getElem?_modify, if_neg hi]
  bindings i other h := by
    by_cases hi : scope = i
    · have hname : name ≠ other := by
        rintro rfl
        rcases h with hne | hmem
        · exact hne hi.symm
        · exact hmem List.mem_cons_self
      exact own?_set hname _ i scope v
    · exact own?_set_of_ne hi _ name other v
  journal := rfl

theorem size_eq (h : s.SameOutside scope names t) : t.frames.size = s.frames.size := by
  have hiff (i : FrameId) : t.frames.size ≤ i ↔ s.frames.size ≤ i := by
    rw [← Array.getElem?_eq_none_iff, ← Array.getElem?_eq_none_iff,
      ← Option.map_eq_none_iff (f := Frame.parent), h.parents i, Option.map_eq_none_iff]
  have hleft := hiff t.frames.size
  have hright := hiff s.frames.size
  omega

theorem get?_eq (h : s.SameOutside scope names t) (hname : name ∉ names) (i : FrameId) :
    t.get? i name = s.get? i name := by
  apply get?_congr
  intro j
  have hparent := h.parents j
  have hown := h.bindings j name (.inr hname)
  unfold own? at hown
  generalize t.frames[j]? = new, s.frames[j]? = old at hparent hown ⊢
  cases new with
  | none =>
    cases old with
    | none => exact .none
    | some frame => cases hparent
  | some frame =>
    cases old with
    | none => cases hparent
    | some frame' => exact .some ⟨Option.some.inj hparent, hown⟩

end SameOutside

end Store

section Define

variable {ev : Evaluator} {scope : FrameId} {s t : Store} {target form v : Value} {name : String}

abbrev define : Value := .native (.form .define)

theorem named_definedAs (name : String) (v : Value) (t : Store) :
    ∃ w serial, (SpecialForm.named name v).run t = .ok w { t with serial } ∧
      v.DefinedAs name t.serial w := by
  have hkept (hfunction : ∀ old c, v ≠ .function old anonymous c)
      (hexpander : ∀ old c, v ≠ .expander old anonymous c)
      (hrun : (SpecialForm.named name v).run t = .ok v t) :
      ∃ w serial, (SpecialForm.named name v).run t = .ok w { t with serial } ∧
        v.DefinedAs name t.serial w :=
    ⟨v, t.serial, hrun, .same v hfunction hexpander⟩
  cases v with
  | function old own c =>
    by_cases hown : own = anonymous
    · subst hown
      exact ⟨_, t.serial + 1, rfl, .function old c⟩
    · refine hkept (by rintro _ _ ⟨⟩; exact hown rfl) nofun ?_
      rw [SpecialForm.named, if_neg hown]
      rfl
  | expander old own c =>
    by_cases hown : own = anonymous
    · subst hown
      exact ⟨_, t.serial + 1, rfl, .expander old c⟩
    · refine hkept nofun (by rintro _ _ ⟨⟩; exact hown rfl) ?_
      rw [SpecialForm.named, if_neg hown]
      rfl
  | _ => exact hkept nofun nofun rfl

theorem call_define (head target form : Value) (scope : FrameId) :
    call ev define [head, target, form] scope =
      Strict.settle (SpecialForm.runDefine ev target form scope) := by
  rw [call_eq_callWith]
  rfl

theorem call_define_of_value (head : Value) (htarget : target.name? = some name)
    (hform : (ev form scope).run s = .ok v t) (hv : v.isError = false) :
    ∃ w serial, (call ev define [head, target, form] scope).run s =
        .ok w ({ t with serial }.set scope name w) ∧ v.DefinedAs name t.serial w := by
  obtain ⟨w, serial, hnamed, hdefined⟩ := named_definedAs name v t
  refine ⟨w, serial, ?_, hdefined⟩
  have hset : (liftM (Run.setName scope name w) : Strict Unit).run.run { t with serial } =
      .ok (.ok ()) ({ t with serial }.set scope name w) := rfl
  rw [call_define, SpecialForm.runDefine]
  simp only [htarget]
  rw [Strict.settle_need_bind hform hv]
  simp only [Strict.settle_apply, Strict.bind_apply, Strict.lift_apply, hnamed]
  rfl

/-- However a definition ends, it changes nothing but what the name is bound to in its own frame. -/
theorem call_define_sameOutside (head : Value) (htarget : target.name? = some name) :
    (s.after (ev form scope)).SameOutside scope [name]
      (s.after (call ev define [head, target, form] scope)) := by
  cases hform : (ev form scope).run s with
  | error f t =>
    have hcall : (call ev define [head, target, form] scope).run s = .error f t := by
      rw [call_define, SpecialForm.runDefine]
      simp only [htarget]
      exact Strict.settle_need_fault hform
    simp only [Store.after, hform, hcall]
    exact .refl t
  | ok v t =>
    by_cases hv : v.isError = true
    · obtain ⟨message, rfl⟩ := Value.eq_error_of_isError hv
      have hcall : (call ev define [head, target, form] scope).run s = .ok (.error message) t := by
        rw [call_define, SpecialForm.runDefine]
        simp only [htarget, Strict.settle_apply, Strict.bind_apply, Strict.need_apply, hform]
        rfl
      simp only [Store.after, hform, hcall]
      exact .refl t
    · obtain ⟨w, serial, hcall, -⟩ :=
        call_define_of_value head htarget hform (Bool.eq_false_iff.mpr hv)
      simp only [Store.after, hform, hcall]
      exact .set t scope name w serial

theorem call_define_ill_formed {items : List Value}
    (h : ∀ head target form, items = [head, target, form] → target.name? = none) :
    s.after (call ev define items scope) = s := by
  by_cases hlength : items.length = 3
  · obtain ⟨head, target, form, rfl⟩ := List.length_eq_three.mp hlength
    have htarget := h head target form rfl
    rw [call_define, SpecialForm.runDefine]
    simp only [htarget]
    rfl
  · have hcount : argumentCount items ≠ 2 := by
      unfold argumentCount
      omega
    have hproblem : (Native.form .define).arity.problem? (Native.form .define).name items =
        some (.wrongCount "def" 2 (argumentCount items)) := if_neg hcount
    rw [call_eq_callWith, define, callWith]
    simp only [checkArity, hproblem, Strict.fail_bind]
    rfl

end Define

/-- Definitions of all names as the value of one form. -/
def definitions (form : Value) (names : List String) : List Value :=
  names.map fun name => .list [.symbol "def", .symbol name, form]

theorem definitions_evaluate {scope : FrameId} {levels : Nat} {form v : Value}
    {names : List String} {s : Store} (hdef : "def" ∉ names)
    (hdefine : s.get? scope "def" = some define) (hscope : scope < s.frames.size)
    (hform : ∀ t, s.SameOutside scope names t → (eval (levels + 1) form scope).run t = .ok v t)
    (hv : v.isError = false) :
    ∃ results t, Session.Evaluates ⟨scope, levels + 2⟩ (definitions form names) s results none t ∧
      s.SameOutside scope names t ∧
      ∀ name ∈ names, ∃ w serial, v.DefinedAs name serial w ∧ w ∈ results ∧
        t.own? scope name = some w := by
  induction names generalizing s with
  | nil => exact ⟨[], s, .finish s, .refl s, fun _ hname => absurd hname List.not_mem_nil⟩
  | cons name later ih =>
    have htarget : (Value.symbol name).name? = some name := rfl
    obtain ⟨w, serial, hcall, hdefined⟩ :=
      call_define_of_value (.symbol "def") htarget (hform s (.refl s)) hv
    rw [← eval_call (.inr ⟨"def", rfl, hdefine⟩) rfl] at hcall
    let next := { s with serial }.set scope name w
    have hsame : s.SameOutside scope [name] next := .set s scope name w serial
    have hwhole {t : Store} (h : next.SameOutside scope later t) :
        s.SameOutside scope (name :: later) t :=
      (hsame.mono (by simp)).trans (h.mono (List.subset_cons_self name later))
    have hdef' : "def" ∉ later := fun hmem => hdef (List.mem_cons_of_mem _ hmem)
    have hdefine' : next.get? scope "def" = some define := by
      rw [(hwhole (.refl next)).get?_eq hdef, hdefine]
    have hscope' : scope < next.frames.size := hsame.size_eq ▸ hscope
    obtain ⟨results, t, hevaluates, hlater, hnames⟩ :=
      ih hdef' hdefine' hscope' fun t ht => hform t (hwhole ht)
    refine ⟨w :: results, t, .next hcall hevaluates, hwhole hlater, ?_⟩
    intro other hother
    by_cases hmem : other ∈ later
    · obtain ⟨w', serial', hdefined', hresults, hown⟩ := hnames other hmem
      exact ⟨w', serial', hdefined', List.mem_cons_of_mem _ hresults, hown⟩
    · -- the name is not defined again, so it keeps the value that it has got here
      obtain rfl : other = name := (List.mem_cons.mp hother).resolve_right hmem
      refine ⟨w, s.serial, hdefined, List.mem_cons_self, ?_⟩
      rw [hlater.bindings scope other (.inr hmem)]
      exact Store.own?_set_self hscope w

/-- A callable made by the program has one name, under which it prints and refuses arguments. -/
def Value.OneName (v : Value) : Prop :=
  v.NamedAlike ∧ ∀ c, v.closure? = some c → v.GoesByName c

/-- After any events of any sessions, every callable that is bound or recorded anywhere, or that is
in the results of a further source text, has one name. A definition gives its name to a copy of an
anonymous callable, with the same parameters, body and frame, and changes nothing else. So a value
that is defined under several names stays what it is everywhere but under these names. -/
theorem callables_keep_one_name (events : List Event) :
    let s := (World.initial.run events).store
    s.Throughout Value.OneName ∧
    (∀ (session : Session) (code : String) (results : List Value),
      s.outcome (session.evalAll code) = .ok results → ∀ v ∈ results, v.Throughout Value.OneName) ∧
    (∀ (bound : Nat) (head target form : Value) (scope : FrameId) (name : String) (t : Store),
      target.name? = some name →
        (t.after (eval bound form scope)).SameOutside scope [name]
          (t.after (call (eval bound) define [head, target, form] scope)) ∧
        ∀ v u, (eval bound form scope).run t = .ok v u → v.isError = false →
          ∃ w serial, (call (eval bound) define [head, target, form] scope).run t =
            .ok w ({ u with serial }.set scope name w) ∧ v.DefinedAs name u.serial w) ∧
    (∀ (bound : Nat) (items : List Value) (scope : FrameId) (t : Store),
      (∀ head target form, items = [head, target, form] → target.name? = none) →
        t.after (call (eval bound) define items scope) = t) ∧
    (∀ (scope : FrameId) (levels : Nat) (form v : Value) (names : List String) (t : Store),
      "def" ∉ names → t.get? scope "def" = some define → scope < t.frames.size →
        (∀ u, t.SameOutside scope names u → (eval (levels + 1) form scope).run u = .ok v u) →
        v.isError = false →
        ∃ results u,
          Session.Evaluates ⟨scope, levels + 2⟩ (definitions form names) t results none u ∧
          t.SameOutside scope names u ∧
          ∀ name ∈ names, ∃ w serial, v.DefinedAs name serial w ∧ w ∈ results ∧
            u.own? scope name = some w) := by
  intro s
  have hone (v : Value) (h : v.NamedAlike) : v.OneName := ⟨h, fun _ hc => h.goesByName hc⟩
  have hs : s.Throughout Value.NamedAlike :=
    nameLaw_sound.run_of_unlimited nameLaw_unlimited events
  refine ⟨hs.imp hone, ?_, ?_, ?_, ?_⟩
  · intro session code results hresults v hv
    have hobeys := nameLaw_sound.obeys nameLaw_unlimited session
      (nameLaw_sound.lawful_written code) hs
    have hlawful := (Law.evalAll_of_obeys hobeys hs).2 results hresults v hv
    exact hlawful.imp hone
  · intro bound head target form scope name t htarget
    exact ⟨call_define_sameOutside head htarget, fun _ _ => call_define_of_value head htarget⟩
  · intro bound items scope t
    exact call_define_ill_formed
  · intro scope levels form v names t
    exact definitions_evaluate

/-- An anonymous function is in a list twice and is then defined under two names. -/
theorem callables_keep_one_name_shared :
    let events : List Event := [.start, .eval 0 9 "(def pair (let ((f (fn (x) x))) (list f f)))"]
    let s := (World.initial.run events).store
    let f : Value := .function 0 anonymous ⟨["x"], none, [.symbol "x"], 2, anonymous⟩
    let form : Value := .list [.symbol "first", .symbol "pair"]
    s.Throughout Value.OneName ∧
      (s.outcome (Session.evalAll ⟨1, 9⟩ "pair") = .ok [.list [f, f]] ∧
        (Value.list [f, f]).Throughout Value.OneName) ∧
      ((eval 8 form 1).run s = .ok f s ∧
        ∃ w serial, (call (eval 8) define [.symbol "def", .symbol "a", form] 1).run s =
          .ok w ({ s with serial }.set 1 "a" w) ∧ f.DefinedAs "a" s.serial w) ∧
      s.after (call (eval 8) define [.symbol "def"] 1) = s ∧
      ∃ results u, Session.Evaluates ⟨1, 9⟩ (definitions form ["a", "b"]) s results none u ∧
        u.own? 1 "pair" = some (.list [f, f]) ∧
        (∃ serial, u.own? 1 "a" =
          some (.function serial "a" ⟨["x"], none, [.symbol "x"], 2, "a"⟩)) ∧
        ∃ serial, u.own? 1 "b" =
          some (.function serial "b" ⟨["x"], none, [.symbol "x"], 2, "b"⟩) := by
  intro events s f form
  let session : Session := ⟨1, 9⟩
  let before := (World.initial.run [.start]).store
  let lambda : Value := .list [.symbol "fn", .list [.symbol "x"], .symbol "x"]
  let definition : Value := .list [.symbol "def", .symbol "pair", .list [.symbol "let",
    .list [.list [.symbol "f", lambda]], .list [.symbol "list", .symbol "f", .symbol "f"]]]
  let after : Store := ⟨(before.frames.push ⟨some 1, [("f", f)]⟩).set! 1
    ⟨some 0, [("pair", .list [f, f])]⟩, 1, #[]⟩
  have hread : read "(def pair (let ((f (fn (x) x))) (list f f)))" = .ok [definition] := rfl
  have hdefinition : (eval 9 definition 1).run before = .ok (.list [f, f]) after := rfl
  have hstore : s = after :=
    World.store_eval_after_start hread (.next hdefinition (.finish after))
  have hread' : read "pair" = .ok [.symbol "pair"] := rfl
  have hpair : (eval 9 (.symbol "pair") 1).run after = .ok (.list [f, f]) after := rfl
  have hresults : s.outcome (session.evalAll "pair") = .ok [.list [f, f]] :=
    hstore ▸ Session.outcome_evalAll hread' (.next hpair (.finish after))
  have hdef : s.get? 1 "def" = some define := hstore ▸ rfl
  have hscope : 1 < s.frames.size := hstore ▸ by decide
  have hform (u : Store) (hu : s.SameOutside 1 ["a", "b"] u) :
      (eval 8 form 1).run u = .ok f u := by
    have hfirst : u.get? 1 "first" = some (.native (.operation .first)) := by
      rw [hu.get?_eq (by decide), hstore]
      rfl
    have hlist : (eval 7 (.symbol "pair") 1).run u = .ok (.list [f, f]) u := by
      apply eval_name
      rw [hu.get?_eq (by decide), hstore]
      rfl
    have hargs : (evalArgs (eval 7) 1 [.symbol "pair"]).run.run u = .ok (.ok [.list [f, f]]) u := by
      simp only [evalArgs, Strict.bind_apply, Strict.need_apply, hlist]
      rfl
    rw [eval_call (.inr ⟨"first", rfl, hfirst⟩) rfl, call_eq_callWith]
    change (Strict.settle (evalArgs (eval 7) 1 [.symbol "pair"] >>=
      fun vs => (Operation.first.compute vs).toStrict)).run u = _
    rw [Strict.settle_apply, Strict.bind_apply, hargs]
    rfl
  obtain ⟨hone, hfurther, hdefinitions, hother, hseveral⟩ := callables_keep_one_name events
  have hf := hform s (.refl s)
  obtain ⟨results, u, hevaluates, hsame, hnames⟩ :=
    hseveral 1 7 form f ["a", "b"] s (by decide) hdef hscope hform rfl
  have hown : u.own? 1 "pair" = some (.list [f, f]) := by
    rw [hsame.bindings 1 "pair" (.inr (by decide)), hstore]
    rfl
  have hcopy {name : String} (hname : name ∈ ["a", "b"]) : ∃ serial, u.own? 1 name =
      some (.function serial name ⟨["x"], none, [.symbol "x"], 2, name⟩) := by
    obtain ⟨w, serial, hdefined, -, hw⟩ := hnames name hname
    exact ⟨serial, hdefined.eq_of_anonymous ▸ hw⟩
  refine ⟨hone, ⟨hresults, hfurther session "pair" _ hresults _ List.mem_cons_self⟩, ?_, ?_, ?_⟩
  · have htarget : (Value.symbol "a").name? = some "a" := rfl
    exact ⟨hf, (hdefinitions 8 (.symbol "def") _ form 1 "a" s htarget).2 f s hf rfl⟩
  · exact hother 8 [.symbol "def"] 1 s nofun
  · exact ⟨results, u, hevaluates, hown, hcopy (by simp), hcopy (by simp)⟩

end TreeLisp
