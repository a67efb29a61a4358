import TreeLisp.Proofs.AlikeCompute
import TreeLisp.Proofs.Parallel

/-!
# Evaluations in parallel

Each part of the evaluator runs in parallel with itself on values that are alike, in frames that are
paired, as long as the evaluators that the two are given do. By induction on the number of levels,
evaluations of values that are alike run in parallel, whatever simulation the stores are in.
-/
namespace TreeLisp

/-- Evaluations of values that are alike run in parallel. -/
def Together (P : Permit) (R : Correspondence) (excused : Fault → Prop)
    (ev ev' : Evaluator) : Prop :=
  ∀ (π : Pairing) (v w : Value) (i j : FrameId), Alike P π v w → π.frame i j →
    Parallel R excused π (Alike P) (ev v i) (ev' w j)

def CallsTogether (P : Permit) (R : Correspondence) (excused : Fault → Prop)
    (call call' : Caller) : Prop :=
  ∀ (π : Pairing) (f g : Value) (xs ys : List Value) (i j : FrameId), Alike P π f g →
    AllStored P π xs ys → π.frame i j →
    Parallel R excused π (Alike P) (call f xs i) (call' g ys j)

namespace Together

variable {P : Permit} {R : Correspondence} {excused : Fault → Prop} {ev ev' : Evaluator}
  {π : Pairing} {i j : FrameId} {v w : Value} {xs ys : List Value}

theorem need (hev : Together P R excused ev ev') (h : Stored P π v w) (hframe : π.frame i j) :
    StrictParallel R excused π (Stored P) (Strict.need (ev v i)) (Strict.need (ev' w j)) :=
  .need (hev π v w i j h.alike hframe)

-- The pairing grows from one form to the next, so these inductions are on the list of forms and not
-- on the relation between the two lists.

theorem evalArgs_parallel (hev : Together P R excused ev ev') (h : AllStored P π xs ys)
    (hframe : π.frame i j) :
    StrictParallel R excused π (AllStored P) (evalArgs ev i xs) (evalArgs ev' j ys) := by
  induction xs generalizing ys π with
  | nil =>
    cases h
    exact .value .nil
  | cons x xs ih =>
    cases h with
    | cons h hs =>
      refine (hev.need h hframe).bind fun ρ v w hle hvw => ?_
      refine (ih (AllStored.mono hle hs) (Pairing.frame_mono hle hframe)).bind
        fun σ vs ws hle' hvs => ?_
      exact .value (.cons (hvw.mono hle') hvs)

theorem evalEach_parallel (hev : Together P R excused ev ev') (h : AllStored P π xs ys)
    (hframe : π.frame i j) :
    Parallel R excused π (fun ρ => List.Forall₂ (Alike P ρ)) (evalEach ev i xs)
      (evalEach ev' j ys) := by
  induction xs generalizing ys π with
  | nil =>
    cases h
    exact .result .nil
  | cons x xs ih =>
    cases h with
    | cons h hs =>
      refine (hev π _ _ i j h.alike hframe).bind fun ρ v w hle hvw => ?_
      refine (ih (AllStored.mono hle hs) (Pairing.frame_mono hle hframe)).bind
        fun σ vs ws hle' hvs => ?_
      exact .result (.cons (hvw.mono hle') hvs)

theorem evalAfter_parallel (hev : Together P R excused ev ev') (hlast : Alike P π v w)
    (h : AllStored P π xs ys) (hframe : π.frame i j) :
    StrictParallel R excused π (Alike P) (evalAfter ev i v xs) (evalAfter ev' j w ys) := by
  induction xs generalizing ys π v w with
  | nil =>
    cases h
    exact .value hlast
  | cons x xs ih =>
    cases h with
    | cons h hs =>
      refine (hev.need h hframe).bind fun ρ v w hle hvw => ?_
      exact ih hvw.alike (AllStored.mono hle hs) (Pairing.frame_mono hle hframe)

theorem evalSequence_parallel (hev : Together P R excused ev ev') (h : AllStored P π xs ys)
    (hframe : π.frame i j) :
    StrictParallel R excused π (Alike P) (evalSequence ev i xs) (evalSequence ev' j ys) :=
  hev.evalAfter_parallel .nil h hframe

theorem invoke_parallel (sim : Simulation P R) (hev : Together P R excused ev ev')
    {c d : Closure Value} (hclosure : c.Aligned P π d) (hbody : AllStored P π c.body d.body)
    (hargs : AllStored P π xs ys) :
    StrictParallel R excused π (Alike P) (c.invoke ev xs) (d.invoke ev' ys) := by
  unfold Closure.invoke Closure.bind
  rw [hclosure.countProblem_eq hargs]
  cases d.countProblem? ys.length with
  | some p => exact .fail rfl
  | none =>
    have hbindings := hclosure.argumentBindings hargs
    refine StrictParallel.bind (.lift (sim.newFrame_parallel hclosure.scope hbindings))
      fun ρ i j hle hframe => ?_
    exact hev.evalSequence_parallel (AllStored.mono hle hbody) hframe

theorem closureCall_parallel (sim : Simulation P R) (hev : Together P R excused ev ev')
    {c d : Closure Value} (hclosure : c.Aligned P π d) (hbody : AllStored P π c.body d.body)
    (h : AllStored P π xs ys) (hframe : π.frame i j) :
    StrictParallel R excused π (Alike P) (c.call ev xs i) (d.call ev' ys j) := by
  refine (hev.evalArgs_parallel h hframe).bind fun ρ args args' hle hargs => ?_
  rw [hclosure.name, hargs.length_eq]
  refine StrictParallel.bind (.lift (sim.record_parallel (.calling _ _))) fun σ _ _ hle' _ => ?_
  have hle'' : π ≤ σ := le_trans hle hle'
  exact hev.invoke_parallel sim (hclosure.mono hle'') (AllStored.mono hle'' hbody)
    (AllStored.mono hle' hargs)

mutual

theorem fill_parallel (hev : Together P R excused ev ev') :
    {v w : Value} → {π : Pairing} → Alike P π v w → π.frame i j →
    StrictParallel R excused π (Alike P) (Template.fill ev i v) (Template.fill ev' j w)
  | .list xs, _, π, h, hframe => by
    cases h with
    | @list _ ys h =>
      rw [Template.fill, Template.fill]
      rcases argument_alike .unquote (.list h) with
        ⟨hv, hw⟩ | ⟨p, hv, hw⟩ | ⟨form, form', hv, hw, hform⟩
      · rw [hv, hw]
        refine (fillItems_parallel hev h hframe).bind fun ρ vs ws hle hvs => ?_
        exact .value (.list hvs)
      · rw [hv, hw]
        exact .fail rfl
      · rw [hv, hw]
        exact .lift (hev π form form' i j hform.alike hframe)
  | .nil, _, _, h, _ | .bool _, _, _, h, _ | .int _, _, _, h, _ | .float _, _, _, h, _
  | .string _, _, _, h, _ | .atom _, _, _, h, _ | .native _, _, _, h, _ | .sugar _, _, _, h, _
  | .function _ _ _, _, _, h, _ | .expander _ _ _, _, _, h, _ | .error _, _, _, h, _ => by
    have hvalue := h
    cases h
    exact .value hvalue

theorem fillItems_parallel (hev : Together P R excused ev ev') :
    {xs ys : List Value} → {π : Pairing} → AllStored P π xs ys → π.frame i j →
    StrictParallel R excused π (AllStored P) (Template.fillItems ev i xs)
      (Template.fillItems ev' j ys)
  | [], _, π, h, hframe => by
    cases h
    exact .value .nil
  | x :: xs, _, π, h, hframe => by
    cases h with
    | @cons _ y _ ys h hs =>
      rw [Template.fillItems, Template.fillItems]
      rcases argument_alike .splice h.alike with
        ⟨hv, hw⟩ | ⟨p, hv, hw⟩ | ⟨form, form', hv, hw, hform⟩
      · rw [hv, hw]
        refine (fill_parallel hev h.alike hframe).bind fun ρ v w hle hvw => ?_
        refine (StrictParallel.accept hvw).bind fun σ v w hle' hvw => ?_
        have hle'' := le_trans hle hle'
        refine (fillItems_parallel hev (AllStored.mono hle'' hs)
          (Pairing.frame_mono hle'' hframe)).bind fun τ vs ws hle hvs => ?_
        exact .value (.cons (hvw.mono hle) hvs)
      · rw [hv, hw]
        exact .fail rfl
      · rw [hv, hw]
        refine (hev.need hform hframe).bind fun ρ v w hle hvw => ?_
        have hproblem := hvw.alike.expects_eq Mark.splice.head .list
        cases hvw.alike with
        | list hitems =>
          refine (fillItems_parallel hev (AllStored.mono hle hs)
            (Pairing.frame_mono hle hframe)).bind fun σ vs ws hle' hvs => ?_
          exact .value (List.rel_append (AllStored.mono hle' hitems) hvs)
        | _ => exact .fail hproblem

end

theorem takeName_parallel (sim : Simulation P R) {make : Nat → String → Closure Value → Value}
    (hmake : ∀ {ρ : Pairing} {m n : Nat} {c d : Closure Value} (name : String), ρ.serial m n →
      c.Aligned P ρ d → AllStored P ρ c.body d.body → Stored P ρ (make m name c) (make n name d))
    {m n : Nat} {c d : Closure Value} (name old : String) (hserial : π.serial m n)
    (hclosure : c.Aligned P π d) (hbody : AllStored P π c.body d.body) :
    Parallel R excused π (Stored P)
      (if old = anonymous then return make (← Run.newSerial) name (c.renamed name)
        else return make m old c : Run Value)
      (if old = anonymous then return make (← Run.newSerial) name (d.renamed name)
        else return make n old d : Run Value) := by
  by_cases hold : old = anonymous
  · rw [if_pos hold, if_pos hold]
    refine sim.newSerial_parallel.bind fun ρ m n hle hserial => ?_
    have hrenamed : (c.renamed name).Aligned P ρ (d.renamed name) :=
      { hclosure.mono hle with name := rfl }
    exact .result (hmake name hserial hrenamed (AllStored.mono hle hbody))
  · rw [if_neg hold, if_neg hold]
    exact .result (hmake old hserial hclosure hbody)

theorem named_parallel (sim : Simulation P R) {name : String} (h : Stored P π v w) :
    Parallel R excused π (Stored P) (SpecialForm.named name v) (SpecialForm.named name w) := by
  have hkept := h
  cases h with
  | mk herror h =>
    cases h with
    | function old hserial hclosure hbody =>
      exact takeName_parallel sim (fun name hserial hclosure hbody =>
        (Alike.function name hserial hclosure hbody).stored rfl) name old hserial hclosure hbody
    | expander old hserial hclosure hbody =>
      exact takeName_parallel sim (fun name hserial hclosure hbody =>
        (Alike.expander name hserial hclosure hbody).stored rfl) name old hserial hclosure hbody
    | _ => exact .result hkept

theorem runDefine_parallel (sim : Simulation P R) (hev : Together P R excused ev ev')
    {target target' form form' : Value} (htarget : Stored P π target target')
    (hform : Stored P π form form') (hframe : π.frame i j) :
    StrictParallel R excused π (Alike P) (SpecialForm.runDefine ev target form i)
      (SpecialForm.runDefine ev' target' form' j) := by
  unfold SpecialForm.runDefine
  rw [← htarget.alike.name_eq]
  cases hname : target.name? with
  | none =>
    exact .fail (congrArg ("def first argument must be a symbol, got " ++ ·) htarget.alike.text_eq)
  | some name =>
    have hpermit : P.name name := htarget.alike.permitted_name hname
    refine (hev.need hform hframe).bind fun ρ v w hle hvw => ?_
    refine StrictParallel.bind (.lift (named_parallel sim hvw)) fun σ v w hle' hvw => ?_
    have hframe' := Pairing.frame_mono (le_trans hle hle') hframe
    refine StrictParallel.bind (.lift (sim.setName_parallel hframe' hpermit hvw))
      fun τ _ _ hle _ => ?_
    exact .value (hvw.alike.mono hle)

theorem runBranch_parallel (hev : Together P R excused ev ev') {test test' form form' : Value}
    {other other' : Option Value} (htest : Stored P π test test') (hform : Stored P π form form')
    (hother : Option.Rel (Stored P π) other other') (hframe : π.frame i j) :
    StrictParallel R excused π (Alike P) (SpecialForm.runBranch ev test form other i)
      (SpecialForm.runBranch ev' test' form' other' j) := by
  refine (hev.need htest hframe).bind fun ρ v w hle hvw => ?_
  have hframe' := Pairing.frame_mono hle hframe
  rw [hvw.alike.truthy_eq]
  cases w.truthy with
  | true => exact .lift (hev ρ _ _ i j (hform.alike.mono hle) hframe')
  | false =>
    cases hother with
    | none => exact .value .nil
    | some hother => exact .lift (hev ρ _ _ i j (hother.alike.mono hle) hframe')

theorem bindEach_parallel (sim : Simulation P R) (hev : Together P R excused ev ev')
    (h : AllStored P π xs ys) (hframe : π.frame i j) :
    StrictParallel R excused π (fun _ _ _ => True) (SpecialForm.bindEach ev i xs)
      (SpecialForm.bindEach ev' j ys) := by
  induction xs generalizing ys π with
  | nil =>
    cases h
    exact .value trivial
  | cons x xs ih =>
    cases h with
    | @cons _ y _ ys h hs =>
      have hproblem : (Problem.bindingNotPair x).message = (Problem.bindingNotPair y).message :=
        congrArg ("let binding must be a list of two elements, got " ++ ·) h.alike.text_eq
      cases h.alike with
      | list hitems =>
        cases hitems with
        | nil => exact .fail hproblem
        | @cons target target' _ _ htarget hforms =>
          cases hforms with
          | nil => exact .fail hproblem
          | cons hform hmore =>
            cases hmore with
            | cons _ _ => exact .fail hproblem
            | nil =>
              rw [SpecialForm.bindEach, SpecialForm.bindEach, ← htarget.alike.name_eq]
              cases hname : target.name? with
              | none =>
                exact .fail
                  (congrArg ("let binding name must be a symbol, got " ++ ·) htarget.alike.text_eq)
              | some name =>
                have hpermit : P.name name := htarget.alike.permitted_name hname
                refine (hev.need hform hframe).bind fun ρ v w hle hvw => ?_
                have hframe' := Pairing.frame_mono hle hframe
                refine StrictParallel.bind (.lift (sim.setName_parallel hframe' hpermit hvw))
                  fun σ _ _ hle' _ => ?_
                exact ih (AllStored.mono (le_trans hle hle') hs) (Pairing.frame_mono hle' hframe')
      | _ => exact .fail hproblem

theorem runBind_parallel (sim : Simulation P R) (hev : Together P R excused ev ev')
    (hbindings : Stored P π v w) (hbody : AllStored P π xs ys) (hframe : π.frame i j) :
    StrictParallel R excused π (Alike P) (SpecialForm.runBind ev v xs i)
      (SpecialForm.runBind ev' w ys j) := by
  have hproblem : (Problem.bindingsNotList v).message = (Problem.bindingsNotList w).message :=
    congrArg ("let bindings must be a list, got " ++ ·) hbindings.alike.text_eq
  cases hbindings.alike with
  | list hpairs =>
    refine StrictParallel.bind (.lift (sim.newFrame_parallel hframe .nil))
      fun ρ i j hle hframe => ?_
    refine (hev.bindEach_parallel sim (AllStored.mono hle hpairs) hframe).bind
      fun σ _ _ hle' _ => ?_
    exact hev.evalSequence_parallel (AllStored.mono (le_trans hle hle') hbody)
      (Pairing.frame_mono hle' hframe)
  | _ => exact .fail hproblem

theorem closure_parallel (hparams : Stored P π v w) (hbody : AllStored P π xs ys)
    (hframe : π.frame i j) :
    StrictParallel R excused π (fun ρ c d => c.Aligned P ρ d ∧ AllStored P ρ c.body d.body)
      (SpecialForm.closure v xs i) (SpecialForm.closure w ys j) := by
  unfold SpecialForm.closure
  rcases paramsOfValue_alike hparams.alike with ⟨p, hv, hw, hnames, hrest⟩ | ⟨p, q, hv, hw, h⟩
  · rw [hv, hw]
    exact .value ⟨⟨rfl, rfl, rfl, hframe, hnames, hrest⟩, hbody⟩
  · rw [hv, hw]
    exact .fail h

theorem conjunctionFrom_parallel (hev : Together P R excused ev ev') (hlast : Alike P π v w)
    (h : AllStored P π xs ys) (hframe : π.frame i j) :
    StrictParallel R excused π (Alike P) (SpecialForm.conjunctionFrom ev i v xs)
      (SpecialForm.conjunctionFrom ev' j w ys) := by
  induction xs generalizing ys π v w with
  | nil =>
    cases h
    exact .value hlast
  | cons x xs ih =>
    cases h with
    | cons h hs =>
      refine (hev.need h hframe).bind fun ρ v w hle hvw => ?_
      rw [hvw.alike.truthy_eq]
      cases w.truthy with
      | true => exact ih hvw.alike (AllStored.mono hle hs) (Pairing.frame_mono hle hframe)
      | false => exact .value hvw.alike

theorem disjunctionFrom_parallel (hev : Together P R excused ev ev')
    (h : AllStored P π xs ys) (hframe : π.frame i j) :
    StrictParallel R excused π (Alike P) (SpecialForm.disjunctionFrom ev i xs)
      (SpecialForm.disjunctionFrom ev' j ys) := by
  induction xs generalizing ys π with
  | nil =>
    cases h
    exact .value (.bool false)
  | cons x xs ih =>
    cases h with
    | cons h hs =>
      refine (hev.need h hframe).bind fun ρ v w hle hvw => ?_
      rw [hvw.alike.truthy_eq]
      cases w.truthy with
      | true => exact .value hvw.alike
      | false => exact ih (AllStored.mono hle hs) (Pairing.frame_mono hle hframe)

theorem makeCallable_parallel (sim : Simulation P R) {make : Nat → Closure Value → Value}
    (hmake : ∀ {ρ : Pairing} {m n : Nat} {c d : Closure Value}, ρ.serial m n → c.Aligned P ρ d →
      AllStored P ρ c.body d.body → Alike P ρ (make m c) (make n d))
    (hparams : Stored P π v w) (hbody : AllStored P π xs ys) (hframe : π.frame i j) :
    StrictParallel R excused π (Alike P)
      (do let c ← SpecialForm.closure v xs i; return make (← Run.newSerial) c)
      (do let c ← SpecialForm.closure w ys j; return make (← Run.newSerial) c) := by
  refine (closure_parallel hparams hbody hframe).bind fun ρ c d hle hclosure => ?_
  refine StrictParallel.bind (.lift sim.newSerial_parallel) fun σ m n hle' hserial => ?_
  exact .value (hmake hserial (hclosure.1.mono hle') (AllStored.mono hle' hclosure.2))

theorem form_parallel (sim : Simulation P R) (hev : Together P R excused ev ev')
    (f : SpecialForm) (h : AllStored P π xs ys) (hframe : π.frame i j) :
    StrictParallel R excused π (Alike P) (f.run ev xs i) (f.run ev' ys j) := by
  cases f with
  | define =>
    match h with
    | .nil => exact .fault _
    | .cons _ .nil => exact .fault _
    | .cons htarget (.cons hform .nil) => exact hev.runDefine_parallel sim htarget hform hframe
    | .cons _ (.cons _ (.cons _ _)) => exact .fault _
  | branch =>
    match h with
    | .nil => exact .fault _
    | .cons _ .nil => exact .fault _
    | .cons htest (.cons hform .nil) => exact hev.runBranch_parallel htest hform .none hframe
    | .cons htest (.cons hform (.cons hother .nil)) =>
      exact hev.runBranch_parallel htest hform (.some hother) hframe
    | .cons _ (.cons _ (.cons _ (.cons _ _))) => exact .fault _
  | sequence => exact hev.evalSequence_parallel h hframe
  | bind =>
    match h with
    | .nil => exact .fault _
    | .cons hbindings hbody => exact hev.runBind_parallel sim hbindings hbody hframe
  | function =>
    match h with
    | .nil => exact .fault _
    | .cons hparams hbody => exact makeCallable_parallel sim (.function anonymous) hparams hbody hframe
  | expander =>
    match h with
    | .nil => exact .fault _
    | .cons hparams hbody => exact makeCallable_parallel sim (.expander anonymous) hparams hbody hframe
  | quote =>
    match h with
    | .nil => exact .fault _
    | .cons hform .nil => exact .value hform.alike
    | .cons _ (.cons _ _) => exact .fault _
  | quasiquote =>
    match h with
    | .nil => exact .fault _
    | .cons htemplate .nil => exact hev.fill_parallel htemplate.alike hframe
    | .cons _ (.cons _ _) => exact .fault _
  | unquote => exact .fail rfl
  | splice => exact .fail rfl
  | conjunction => exact hev.conjunctionFrom_parallel (.bool true) h hframe
  | disjunction => exact hev.disjunctionFrom_parallel h hframe
  | eval =>
    match h with
    | .nil => exact .fault _
    | .cons hform .nil =>
      refine (hev.need hform hframe).bind fun ρ v w hle hvw => ?_
      exact .lift (hev ρ v w i j hvw.alike (Pairing.frame_mono hle hframe))
    | .cons _ (.cons _ _) => exact .fault _

end Together

namespace CallsTogether

variable {P : Permit} {R : Correspondence} {excused : Fault → Prop} {call call' : Caller}
  {π : Pairing} {i j : FrameId} {f g v w : Value} {xs ys : List Value}

theorem argumentNames_eq (h : AllStored P π xs ys) : argumentNames xs = argumentNames ys := by
  rw [argumentNames, argumentNames, h.length_eq]

theorem argumentNames_permitted (sim : Simulation P R) (xs : List Value) :
    ∀ name ∈ argumentNames xs, P.name name := by
  intro name hname
  obtain ⟨k, -, rfl⟩ := List.mem_map.mp hname
  exact sim.argument k

theorem zip_bound {names : List String} (hnames : ∀ x ∈ names, P.name x)
    (h : AllStored P π xs ys) : AllBound P π (names.zip xs) (names.zip ys) := by
  induction names generalizing xs ys with
  | nil => exact .nil
  | cons name names ih =>
    cases h with
    | nil => exact .nil
    | cons h hs =>
      have hname : P.name name := hnames name List.mem_cons_self
      exact .cons ⟨rfl, hname, h⟩ (ih (fun x hx => hnames x (List.mem_cons_of_mem name hx)) hs)

theorem symbols_stored {names : List String} (hnames : ∀ x ∈ names, P.name x) :
    AllStored P π (names.map Value.symbol) (names.map Value.symbol) := by
  induction names with
  | nil => exact .nil
  | cons name names ih =>
    have hname : P.name name := hnames name List.mem_cons_self
    have hsymbol : Alike P π (.symbol name) (.symbol name) := .atom (Token.ofName name) hname
    exact .cons (hsymbol.stored rfl) (ih fun x hx => hnames x (List.mem_cons_of_mem name hx))

theorem callFunction_parallel (sim : Simulation P R) (hcall : CallsTogether P R excused call call')
    (hf : Stored P π f g) (hargs : AllStored P π xs ys) (hframe : π.frame i j) :
    Parallel R excused π (Alike P) (callFunction call f xs i) (callFunction call' g ys j) := by
  unfold callFunction
  rw [argumentNames_eq hargs]
  have hnames := argumentNames_permitted sim ys
  refine (sim.newFrame_parallel hframe (zip_bound hnames hargs)).bind fun ρ i j hle hframe => ?_
  have hf' := hf.mono hle
  exact hcall ρ f g _ _ i j hf'.alike (.cons hf' (symbols_stored hnames)) hframe

theorem items_parallel (t : Traversal) (hf : Stored P π f g) (h : Stored P π v w) :
    StrictParallel R excused π (AllStored P) (t.items f v) (t.items g w) := by
  unfold Traversal.items
  rw [hf.alike.isFunction_eq]
  cases g.isFunction with
  | false => exact .fail (hf.alike.expects_eq t.name .function)
  | true =>
    rcases itemsFor_alike t.name h.alike with ⟨xs, ys, hv, hw, hitems⟩ | ⟨p, q, hv, hw, hmessage⟩
    · rw [hv, hw]
      exact .value hitems
    · rw [hv, hw]
      exact .fail hmessage

theorem mapItems_parallel (sim : Simulation P R) (hcall : CallsTogether P R excused call call')
    (hf : Stored P π f g) (h : AllStored P π xs ys) (hframe : π.frame i j) :
    StrictParallel R excused π (AllStored P) (Traversal.mapItems call f i xs)
      (Traversal.mapItems call' g j ys) := by
  induction xs generalizing ys π with
  | nil =>
    cases h
    exact .value .nil
  | cons x xs ih =>
    cases h with
    | cons h hs =>
      have hx := hcall.callFunction_parallel sim hf (.cons h .nil) hframe
      refine (StrictParallel.need hx).bind fun ρ v w hle hvw => ?_
      refine (ih (hf.mono hle) (AllStored.mono hle hs) (Pairing.frame_mono hle hframe)).bind
        fun σ vs ws hle' hvs => ?_
      exact .value (.cons (hvw.mono hle') hvs)

theorem filterItems_parallel (sim : Simulation P R) (hcall : CallsTogether P R excused call call')
    (hf : Stored P π f g) (h : AllStored P π xs ys) (hframe : π.frame i j) :
    StrictParallel R excused π (AllStored P) (Traversal.filterItems call f i xs)
      (Traversal.filterItems call' g j ys) := by
  induction xs generalizing ys π with
  | nil =>
    cases h
    exact .value .nil
  | cons x xs ih =>
    cases h with
    | cons h hs =>
      have hx := hcall.callFunction_parallel sim hf (.cons h .nil) hframe
      refine (StrictParallel.need hx).bind fun ρ v w hle hvw => ?_
      refine (ih (hf.mono hle) (AllStored.mono hle hs) (Pairing.frame_mono hle hframe)).bind
        fun σ vs ws hle' hvs => ?_
      rw [hvw.alike.truthy_eq]
      cases w.truthy with
      | true => exact .value (.cons (h.mono (le_trans hle hle')) hvs)
      | false => exact .value hvs

theorem foldItems_parallel (sim : Simulation P R) (hcall : CallsTogether P R excused call call')
    (hf : Stored P π f g) (hacc : Stored P π v w) (h : AllStored P π xs ys)
    (hframe : π.frame i j) :
    StrictParallel R excused π (Alike P) (Traversal.foldItems call f i v xs)
      (Traversal.foldItems call' g j w ys) := by
  induction xs generalizing ys π v w with
  | nil =>
    cases h
    exact .value hacc.alike
  | cons x xs ih =>
    cases h with
    | cons h hs =>
      have hx := hcall.callFunction_parallel sim hf (.cons hacc (.cons h .nil)) hframe
      refine (StrictParallel.need hx).bind fun ρ v w hle hvw => ?_
      exact ih (hf.mono hle) hvw (AllStored.mono hle hs) (Pairing.frame_mono hle hframe)

theorem traversal_parallel (sim : Simulation P R) (hcall : CallsTogether P R excused call call')
    (t : Traversal) (h : AllStored P π xs ys) (hframe : π.frame i j) :
    StrictParallel R excused π (Alike P) (t.run call xs i) (t.run call' ys j) := by
  cases t with
  | map =>
    match h with
    | .nil => exact .fault _
    | .cons _ .nil => exact .fault _
    | .cons hf (.cons hsequence .nil) =>
      refine (items_parallel .map hf hsequence).bind fun ρ xs ys hle hitems => ?_
      refine (hcall.mapItems_parallel sim (hf.mono hle) hitems
        (Pairing.frame_mono hle hframe)).bind fun σ vs ws _ hvs => ?_
      exact .value (.list hvs)
    | .cons _ (.cons _ (.cons _ _)) => exact .fault _
  | filter =>
    match h with
    | .nil => exact .fault _
    | .cons _ .nil => exact .fault _
    | .cons hf (.cons hsequence .nil) =>
      refine (items_parallel .filter hf hsequence).bind fun ρ xs ys hle hitems => ?_
      refine (hcall.filterItems_parallel sim (hf.mono hle) hitems
        (Pairing.frame_mono hle hframe)).bind fun σ vs ws _ hvs => ?_
      exact .value (.list hvs)
    | .cons _ (.cons _ (.cons _ _)) => exact .fault _
  | reduce =>
    match h with
    | .nil => exact .fault _
    | .cons _ .nil => exact .fault _
    | .cons _ (.cons _ .nil) => exact .fault _
    | .cons hf (.cons hinitial (.cons hsequence .nil)) =>
      refine (items_parallel .reduce hf hsequence).bind fun ρ xs ys hle hitems => ?_
      exact hcall.foldItems_parallel sim (hf.mono hle) (hinitial.mono hle) hitems
        (Pairing.frame_mono hle hframe)
    | .cons _ (.cons _ (.cons _ (.cons _ _))) => exact .fault _

end CallsTogether

section

variable {P : Permit} {R : Correspondence} {excused : Fault → Prop} {ev ev' : Evaluator}
  {call call' : Caller} {π : Pairing} {i j : FrameId} {f g v w : Value} {xs ys : List Value}

theorem toStrict_parallel {c d : Compute Value} (h : ComputesAlike (Alike P π) c d) :
    StrictParallel R excused π (Alike P) (Compute.toStrict c) (Compute.toStrict d) := by
  match c, d, h with
  | .ok (.ok _), .ok (.ok _), h => exact .value h
  | .ok (.error _), .ok (.error _), h => exact .fail h
  | .error f, .error _, rfl => exact .fault f

theorem checkArity_parallel (n : Native) (h : AllStored P π xs ys) :
    StrictParallel R excused π (fun _ _ _ => True) (checkArity n xs) (checkArity n ys) := by
  unfold checkArity
  rw [arityProblem_eq n.arity n.name h]
  cases n.arity.problem? n.name ys with
  | some p => exact .fail rfl
  | none => exact .value trivial

theorem runNative_parallel (sim : Simulation P R) (hev : Together P R excused ev ev')
    (hcall : CallsTogether P R excused call call') (n : Native) (h : AllStored P π xs ys)
    (hframe : π.frame i j) :
    StrictParallel R excused π (Alike P) (runNative ev call n xs i)
      (runNative ev' call' n ys j) := by
  cases n with
  | form f => exact hev.form_parallel sim f h hframe
  | operation op =>
    dsimp only [runNative]
    cases hop : op.takesErrors with
    | true =>
      refine StrictParallel.bind (.lift (hev.evalEach_parallel h hframe)) fun ρ vs ws _ hvs => ?_
      exact toStrict_parallel (Operation.compute_alike_of_takesErrors hop hvs)
    | false =>
      refine (hev.evalArgs_parallel h hframe).bind fun ρ vs ws _ hvs => ?_
      intro s t hst
      exact toStrict_parallel (Operation.compute_alike (sim.distinct hst) op hvs) s t hst
  | traversal t =>
    refine (hev.evalArgs_parallel h hframe).bind fun ρ vs ws hle hvs => ?_
    exact hcall.traversal_parallel sim t hvs (Pairing.frame_mono hle hframe)

theorem notCallable_alike (h : AllStored P π xs ys) :
    Alike P π (Problem.notCallable xs).toValue (Problem.notCallable ys).toValue := by
  have hmessage : (Problem.notCallable xs).message = (Problem.notCallable ys).message :=
    congrArg ("cannot evaluate list: " ++ ·) (Alike.list h).text_eq
  rw [Problem.toValue, hmessage]
  exact .error _

theorem callWith_parallel (sim : Simulation P R) (hev : Together P R excused ev ev')
    (hcall : CallsTogether P R excused call call') :
    CallsTogether P R excused (callWith ev call) (callWith ev' call') := by
  intro π f g xs ys i j hf h hframe
  have htail : AllStored P π xs.tail ys.tail := h.tail
  cases hf with
  | native n =>
    refine StrictParallel.settle ((checkArity_parallel n h).bind fun ρ _ _ hle _ => ?_)
    exact runNative_parallel sim hev hcall n (AllStored.mono hle htail)
      (Pairing.frame_mono hle hframe)
  | function name hserial hclosure hbody =>
    exact StrictParallel.settle (hev.closureCall_parallel sim hclosure hbody htail hframe)
  | _ => exact .result (notCallable_alike h)

theorem callBelow_parallel (sim : Simulation P R) (hev : Together P R excused ev ev')
    (bound : Nat) : CallsTogether P R excused (callBelow ev bound) (callBelow ev' bound) := by
  induction bound with
  | zero => exact fun π f g xs ys i j _ _ _ => .fault _
  | succ bound ih => exact callWith_parallel sim hev ih

theorem call_parallel (sim : Simulation P R) (hev : Together P R excused ev ev') :
    CallsTogether P R excused (TreeLisp.call ev) (TreeLisp.call ev') := by
  intro π f g xs ys i j hf h hframe
  unfold TreeLisp.call
  rw [h.length_eq]
  exact callBelow_parallel sim hev _ π f g xs ys i j hf h hframe

theorem evalAtom_parallel (sim : Simulation P R) (token : Token) (hname : P.name token.text)
    (hframe : π.frame i j) :
    Parallel R excused π (Alike P) (evalAtom token i) (evalAtom token j) := by
  unfold evalAtom
  by_cases hkind : token.kind = .string
  · rw [if_pos hkind, if_pos hkind]
    exact .result (readString_alike token.text)
  · rw [if_neg hkind, if_neg hkind]
    refine (sim.getName_parallel hframe hname).bind fun ρ found found' _ hfound => ?_
    cases hfound with
    | some hvw => exact .result hvw.alike
    | none =>
      dsimp only
      cases hread : Literal.read token.text with
      | ok v => exact .result (literal_alike hread)
      | error f => exact .fault f

theorem evalList_parallel (sim : Simulation P R) (hev : Together P R excused ev ev')
    (h : AllStored P π xs ys) (hframe : π.frame i j) :
    Parallel R excused π (Alike P) (evalList ev xs i) (evalList ev' ys j) := by
  have hitems := h
  cases h with
  | nil => exact .result .nil
  | cons hhead hs =>
    refine StrictParallel.settle ((hev.need hhead hframe).bind fun ρ f g hle hf => ?_)
    exact .lift (call_parallel sim hev ρ f g _ _ i j hf.alike (AllStored.mono hle hitems)
      (Pairing.frame_mono hle hframe))

theorem headExpander_alike (sim : Simulation P R) {s t : Store} (hst : R π s t)
    (h : AllStored P π xs ys) (hframe : π.frame i j) :
    Option.Rel (fun a b => a.1 = b.1 ∧ Alike P π a.2 b.2) (headExpander? s i xs)
      (headExpander? t j ys) := by
  unfold headExpander?
  rw [← AllStored.headName_eq h]
  cases hname : Value.headName? xs with
  | none => exact .none
  | some name =>
    have hget := sim.get hst hframe (AllStored.permitted_headName h hname)
    simp only [Option.bind_eq_bind, Option.bind_some]
    generalize s.get? i name = found, t.get? j name = found' at hget ⊢
    cases hget with
    | none => exact .none
    | some hf =>
      simp only [Option.bind_some, hf.alike.isExpander_eq]
      split
      · exact .some ⟨rfl, hf.alike⟩
      · exact .none

theorem expand_parallel (sim : Simulation P R) (hev : Together P R excused ev ev')
    (hf : Alike P π f g) (h : AllStored P π xs ys) :
    Parallel R excused π (Alike P) (expand ev f xs) (expand ev' g ys) := by
  have htail : AllStored P π xs.tail ys.tail := h.tail
  cases hf with
  | sugar s =>
    have hexpand := sugar_alike sim.inserted s h
    dsimp only [expand]
    generalize s.expand xs = r, s.expand ys = r' at hexpand ⊢
    cases hexpand with
    | form hform => exact .result hform
    | fault f => exact .fault f
  | expander name hserial hclosure hbody =>
    exact StrictParallel.settle (hev.invoke_parallel sim hclosure hbody htail)
  | _ => exact .result (notCallable_alike h)

theorem evalStep_together (sim : Simulation P R) (hev : Together P R excused ev ev') :
    Together P R excused (evalStep ev) (evalStep ev') := by
  intro π v w i j h hframe
  have hvalue := h
  cases h with
  | list h =>
    refine Parallel.get_bind fun s t hst => ?_
    have hhead := headExpander_alike sim hst h hframe
    generalize headExpander? s i _ = found, headExpander? t j _ = found' at hhead ⊢
    cases hhead with
    | none => exact evalList_parallel sim hev h hframe
    | @some a b hab =>
      obtain ⟨name, f⟩ := a
      obtain ⟨name', g⟩ := b
      obtain ⟨rfl, hf⟩ := hab
      refine (sim.record_parallel (.expanding _ h)).bind fun ρ _ _ hle _ => ?_
      refine (expand_parallel sim hev (hf.mono hle) (AllStored.mono hle h)).bind
        fun σ form form' hle' hform => ?_
      exact hev σ form form' i j hform (Pairing.frame_mono (le_trans hle hle') hframe)
  | atom token hname => exact evalAtom_parallel sim token hname hframe
  | _ => exact .result hvalue

theorem eval_together (sim : Simulation P R) (bound : Nat) :
    Together P R excused (eval bound) (eval bound) := by
  induction bound with
  | zero => exact fun π v w i j _ _ => .fault _
  | succ bound ih => exact evalStep_together sim ih

end

end TreeLisp
