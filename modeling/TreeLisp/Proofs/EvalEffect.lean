import TreeLisp.Proofs.Effect
import TreeLisp.Session

/-!
# The effect of an evaluation

Each part of the evaluator stays within an effect as long as the evaluator it is given does. A part
that works in a frame of its own making does so for whatever frame the effect is taken at. By
induction on the number of levels, every evaluation stays within the effect at the frame it runs in.
-/
namespace TreeLisp

/-- Every evaluation stays within the relation at the frame it runs in. -/
def Respects (R : FrameId → Store → Store → Prop) (ev : Evaluator) : Prop :=
  ∀ v scope, Keeps (R scope) (ev v scope)

namespace Effect

variable {R : FrameId → Store → Store → Prop} {ev : Evaluator}

theorem evalArgs_keeps (h : Effect R) (hev : Respects R ev) (scope : FrameId)
    (forms : List Value) : Keeps (R scope) (evalArgs ev scope forms).run := by
  induction forms with
  | nil => exact h.strict_pure scope _
  | cons form later ih =>
    refine h.strict_bind (h.strict_need (hev form scope)) fun v => ?_
    exact h.strict_bind ih fun vs => h.strict_pure scope _

theorem evalEach_keeps (h : Effect R) (hev : Respects R ev) (scope : FrameId)
    (forms : List Value) : Keeps (R scope) (evalEach ev scope forms) := by
  induction forms with
  | nil => exact h.keeps_pure scope _
  | cons form later ih =>
    refine h.keeps_bind (hev form scope) fun v => ?_
    exact h.keeps_bind ih fun vs => h.keeps_pure scope _

theorem evalAfter_keeps (h : Effect R) (hev : Respects R ev) (scope : FrameId) (last : Value)
    (forms : List Value) : Keeps (R scope) (evalAfter ev scope last forms).run := by
  induction forms generalizing last with
  | nil => exact h.strict_pure scope _
  | cons form later ih => exact h.strict_bind (h.strict_need (hev form scope)) fun v => ih v

theorem evalSequence_keeps (h : Effect R) (hev : Respects R ev) (scope : FrameId)
    (forms : List Value) : Keeps (R scope) (evalSequence ev scope forms).run :=
  h.evalAfter_keeps hev scope .nil forms

/-- The body runs in a frame of its own, so the frame of the call does not matter. -/
theorem invoke_keeps (h : Effect R) (hev : Respects R ev) (scope : FrameId) (c : Closure Value)
    (args : List Value) : Keeps (R scope) (c.invoke ev args).run := by
  unfold Closure.invoke Closure.bind
  cases c.countProblem? args.length with
  | some p => exact h.strict_fail scope p
  | none =>
    refine h.strict_newFrame_bind scope _ _ fun frame => ?_
    exact h.evalSequence_keeps hev frame c.body

theorem closureCall_keeps (h : Effect R) (hev : Respects R ev) (scope : FrameId)
    (c : Closure Value) (forms : List Value) : Keeps (R scope) (c.call ev forms scope).run := by
  refine h.strict_bind (h.evalArgs_keeps hev scope forms) fun args => ?_
  refine h.strict_bind (h.strict_lift (h.keeps_record scope _)) fun _ => ?_
  exact h.invoke_keeps hev scope c args

mutual

theorem fill_keeps (h : Effect R) (hev : Respects R ev) (scope : FrameId) :
    (template : Value) → Keeps (R scope) (Template.fill ev scope template).run
  | .list items => by
    rw [Template.fill]
    split
    · exact h.strict_fail scope _
    · exact h.strict_lift (hev _ scope)
    · exact h.strict_bind (h.fillItems_keeps hev scope items) fun filled => h.strict_pure scope _
  | .nil | .bool _ | .int _ | .float _ | .string _ | .atom _ | .native _ | .sugar _
  | .function _ _ _ | .expander _ _ _ | .error _ => h.strict_pure scope _

theorem fillItems_keeps (h : Effect R) (hev : Respects R ev) (scope : FrameId) :
    (items : List Value) → Keeps (R scope) (Template.fillItems ev scope items).run
  | [] => h.strict_pure scope _
  | item :: later => by
    rw [Template.fillItems]
    split
    · exact h.strict_fail scope _
    · refine h.strict_bind (h.strict_need (hev _ scope)) fun v => ?_
      split
      · exact h.strict_bind (h.fillItems_keeps hev scope later) fun filled => h.strict_pure scope _
      · exact h.strict_fail scope _
    · refine h.strict_bind (h.fill_keeps hev scope item) fun v => ?_
      refine h.strict_bind (h.strict_accept scope v) fun w => ?_
      exact h.strict_bind (h.fillItems_keeps hev scope later) fun filled => h.strict_pure scope _

end

theorem named_keeps (h : Effect R) (scope : FrameId) (name : String) (v : Value) :
    Keeps (R scope) (SpecialForm.named name v) := by
  have hserial (f : Nat → Value) : Keeps (R scope) (Run.newSerial >>= fun n => pure (f n)) :=
    h.keeps_bind (h.keeps_newSerial scope) fun n => h.keeps_pure scope _
  unfold SpecialForm.named
  split
  · split
    · exact hserial _
    · exact h.keeps_pure scope _
  · split
    · exact hserial _
    · exact h.keeps_pure scope _
  · exact h.keeps_pure scope _

theorem runDefine_keeps (h : Effect R) (hev : Respects R ev) (scope : FrameId)
    (target form : Value) : Keeps (R scope) (SpecialForm.runDefine ev target form scope).run := by
  unfold SpecialForm.runDefine
  split
  · exact h.strict_fail scope _
  · refine h.strict_bind (h.strict_need (hev form scope)) fun v => ?_
    refine h.strict_bind (h.strict_lift (h.named_keeps scope _ v)) fun w => ?_
    refine h.strict_bind (h.strict_lift (h.keeps_setName scope _ w)) fun _ => ?_
    exact h.strict_pure scope w

theorem runBranch_keeps (h : Effect R) (hev : Respects R ev) (scope : FrameId)
    (test whenTrue : Value) (whenFalse : Option Value) :
    Keeps (R scope) (SpecialForm.runBranch ev test whenTrue whenFalse scope).run := by
  refine h.strict_bind (h.strict_need (hev test scope)) fun v => ?_
  split
  · exact h.strict_lift (hev whenTrue scope)
  · cases whenFalse with
    | some form => exact h.strict_lift (hev form scope)
    | none => exact h.strict_pure scope _

theorem bindEach_keeps (h : Effect R) (hev : Respects R ev) (frame : FrameId)
    (pairs : List Value) : Keeps (R frame) (SpecialForm.bindEach ev frame pairs).run := by
  fun_induction SpecialForm.bindEach ev frame pairs with
  | case1 => exact h.strict_pure frame _
  | case2 target form later hname => exact h.strict_fail frame _
  | case3 target form later name hname ih =>
    refine h.strict_bind (h.strict_need (hev form frame)) fun v => ?_
    exact h.strict_bind (h.strict_lift (h.keeps_setName frame name v)) fun _ => ih
  | case4 binding later hshape => exact h.strict_fail frame _

theorem runBind_keeps (h : Effect R) (hev : Respects R ev) (scope parent : FrameId)
    (bindings : Value) (body : List Value) :
    Keeps (R scope) (SpecialForm.runBind ev bindings body parent).run := by
  unfold SpecialForm.runBind
  split
  · refine h.strict_newFrame_bind scope _ _ fun frame => ?_
    refine h.strict_bind (h.bindEach_keeps hev frame _) fun _ => ?_
    exact h.evalSequence_keeps hev frame body
  · exact h.strict_fail scope _

theorem closure_keeps (h : Effect R) (scope frame : FrameId) (params : Value)
    (body : List Value) : Keeps (R scope) (SpecialForm.closure params body frame).run := by
  unfold SpecialForm.closure
  split
  · exact h.strict_fail scope _
  · exact h.strict_pure scope _

theorem conjunctionFrom_keeps (h : Effect R) (hev : Respects R ev) (scope : FrameId)
    (last : Value) (forms : List Value) :
    Keeps (R scope) (SpecialForm.conjunctionFrom ev scope last forms).run := by
  induction forms generalizing last with
  | nil => exact h.strict_pure scope _
  | cons form later ih =>
    refine h.strict_bind (h.strict_need (hev form scope)) fun v => ?_
    split
    · exact ih v
    · exact h.strict_pure scope v

theorem disjunctionFrom_keeps (h : Effect R) (hev : Respects R ev) (scope : FrameId)
    (forms : List Value) : Keeps (R scope) (SpecialForm.disjunctionFrom ev scope forms).run := by
  induction forms with
  | nil => exact h.strict_pure scope _
  | cons form later ih =>
    refine h.strict_bind (h.strict_need (hev form scope)) fun v => ?_
    split
    · exact h.strict_pure scope v
    · exact ih

theorem makeCallable_keeps (h : Effect R) (scope frame : FrameId) (params : Value)
    (body : List Value) (make : Nat → Closure Value → Value) :
    Keeps (R scope) (do
      let c ← SpecialForm.closure params body frame
      return make (← Run.newSerial) c : Strict Value).run := by
  refine h.strict_bind (h.closure_keeps scope frame params body) fun c => ?_
  exact h.strict_bind (h.strict_lift (h.keeps_newSerial scope)) fun n => h.strict_pure scope _

theorem form_keeps (h : Effect R) (hev : Respects R ev) (scope : FrameId) (f : SpecialForm)
    (args : List Value) : Keeps (R scope) (f.run ev args scope).run := by
  unfold SpecialForm.run
  split
  · exact h.runDefine_keeps hev scope _ _
  · exact h.runBranch_keeps hev scope _ _ _
  · exact h.runBranch_keeps hev scope _ _ _
  · exact h.evalSequence_keeps hev scope _
  · exact h.runBind_keeps hev scope scope _ _
  · exact h.makeCallable_keeps scope scope _ _ fun n c => .function n anonymous c
  · exact h.makeCallable_keeps scope scope _ _ fun n c => .expander n anonymous c
  · exact h.strict_pure scope _
  · exact h.fill_keeps hev scope _
  · exact h.strict_fail scope _
  · exact h.strict_fail scope _
  · exact h.conjunctionFrom_keeps hev scope _ _
  · exact h.disjunctionFrom_keeps hev scope _
  · refine h.strict_bind (h.strict_need (hev _ scope)) fun v => ?_
    exact h.strict_lift (hev v scope)
  · exact h.strict_fault scope _

theorem callFunction_keeps (h : Effect R) {call : Caller}
    (hcall : ∀ f items scope, Keeps (R scope) (call f items scope)) (scope parent : FrameId)
    (f : Value) (args : List Value) : Keeps (R scope) (callFunction call f args parent) :=
  h.keeps_newFrame_bind scope parent _ fun frame => hcall f _ frame

theorem items_keeps (h : Effect R) (scope : FrameId) (t : Traversal) (f sequence : Value) :
    Keeps (R scope) (t.items f sequence).run := by
  unfold Traversal.items
  split
  · split
    · exact h.strict_pure scope _
    · exact h.strict_fail scope _
  · exact h.strict_fail scope _

theorem mapItems_keeps (h : Effect R) {call : Caller}
    (hcall : ∀ f items scope, Keeps (R scope) (call f items scope)) (scope parent : FrameId)
    (f : Value) (xs : List Value) :
    Keeps (R scope) (Traversal.mapItems call f parent xs).run := by
  induction xs with
  | nil => exact h.strict_pure scope _
  | cons x later ih =>
    refine h.strict_bind (h.strict_need (h.callFunction_keeps hcall scope parent f _)) fun v => ?_
    exact h.strict_bind ih fun vs => h.strict_pure scope _

theorem filterItems_keeps (h : Effect R) {call : Caller}
    (hcall : ∀ f items scope, Keeps (R scope) (call f items scope)) (scope parent : FrameId)
    (f : Value) (xs : List Value) :
    Keeps (R scope) (Traversal.filterItems call f parent xs).run := by
  induction xs with
  | nil => exact h.strict_pure scope _
  | cons x later ih =>
    refine h.strict_bind (h.strict_need (h.callFunction_keeps hcall scope parent f _)) fun v => ?_
    exact h.strict_bind ih fun vs => h.strict_pure scope _

theorem foldItems_keeps (h : Effect R) {call : Caller}
    (hcall : ∀ f items scope, Keeps (R scope) (call f items scope)) (scope parent : FrameId)
    (f acc : Value) (xs : List Value) :
    Keeps (R scope) (Traversal.foldItems call f parent acc xs).run := by
  induction xs generalizing acc with
  | nil => exact h.strict_pure scope _
  | cons x later ih =>
    refine h.strict_bind (h.strict_need (h.callFunction_keeps hcall scope parent f _)) fun v => ?_
    exact ih v

theorem traversal_keeps (h : Effect R) {call : Caller}
    (hcall : ∀ f items scope, Keeps (R scope) (call f items scope)) (scope parent : FrameId)
    (t : Traversal) (args : List Value) : Keeps (R scope) (t.run call args parent).run := by
  unfold Traversal.run
  split
  · refine h.strict_bind (h.items_keeps scope _ _ _) fun xs => ?_
    refine h.strict_bind (h.mapItems_keeps hcall scope parent _ xs) fun vs => ?_
    exact h.strict_pure scope _
  · refine h.strict_bind (h.items_keeps scope _ _ _) fun xs => ?_
    refine h.strict_bind (h.filterItems_keeps hcall scope parent _ xs) fun vs => ?_
    exact h.strict_pure scope _
  · refine h.strict_bind (h.items_keeps scope _ _ _) fun xs => ?_
    exact h.foldItems_keeps hcall scope parent _ _ xs
  · exact h.strict_fault scope _

theorem toStrict_keeps (h : Effect R) (scope : FrameId) (c : Compute Value) :
    Keeps (R scope) (Compute.toStrict c).run := by
  unfold Compute.toStrict
  split
  · exact h.strict_pure scope _
  · exact h.strict_fail scope _
  · exact h.strict_fault scope _

theorem checkArity_keeps (h : Effect R) (scope : FrameId) (n : Native) (items : List Value) :
    Keeps (R scope) (checkArity n items).run := by
  unfold checkArity
  split
  · exact h.strict_fail scope _
  · exact h.strict_pure scope _

theorem runNative_keeps (h : Effect R) (hev : Respects R ev) {call : Caller}
    (hcall : ∀ f items scope, Keeps (R scope) (call f items scope)) (scope : FrameId)
    (n : Native) (args : List Value) : Keeps (R scope) (runNative ev call n args scope).run := by
  cases n with
  | form f => exact h.form_keeps hev scope f args
  | operation op =>
    dsimp only [runNative]
    split
    · exact h.strict_bind (h.strict_lift (h.evalEach_keeps hev scope args)) fun vs =>
        h.toStrict_keeps scope _
    · exact h.strict_bind (h.evalArgs_keeps hev scope args) fun vs => h.toStrict_keeps scope _
  | traversal t =>
    exact h.strict_bind (h.evalArgs_keeps hev scope args) fun vs =>
      h.traversal_keeps hcall scope scope t vs

theorem callWith_keeps (h : Effect R) (hev : Respects R ev) {call : Caller}
    (hcall : ∀ f items scope, Keeps (R scope) (call f items scope)) (f : Value)
    (items : List Value) (scope : FrameId) :
    Keeps (R scope) (callWith ev call f items scope) := by
  unfold callWith
  split
  · refine h.keeps_settle (h.strict_bind (h.checkArity_keeps scope _ items) fun _ => ?_)
    exact h.runNative_keeps hev hcall scope _ _
  · exact h.keeps_settle (h.closureCall_keeps hev scope _ _)
  · exact h.keeps_pure scope _

theorem callBelow_keeps (h : Effect R) (hev : Respects R ev) (bound : Nat) (f : Value)
    (items : List Value) (scope : FrameId) :
    Keeps (R scope) (callBelow ev bound f items scope) := by
  induction bound generalizing f items scope with
  | zero => exact h.keeps_throw scope _
  | succ bound ih => exact h.callWith_keeps hev ih f items scope

theorem call_keeps (h : Effect R) (hev : Respects R ev) (f : Value) (items : List Value)
    (scope : FrameId) : Keeps (R scope) (call ev f items scope) :=
  h.callBelow_keeps hev _ f items scope

theorem evalAtom_keeps (h : Effect R) (scope : FrameId) (token : Token) :
    Keeps (R scope) (evalAtom token scope) := by
  unfold evalAtom
  split
  · exact h.keeps_pure scope _
  · refine h.keeps_bind (h.keeps_getName scope scope _) fun found => ?_
    cases found with
    | some v => exact h.keeps_pure scope v
    | none =>
      dsimp only
      split
      · exact h.keeps_pure scope _
      · exact h.keeps_throw scope _

theorem evalList_keeps (h : Effect R) (hev : Respects R ev) (scope : FrameId)
    (items : List Value) : Keeps (R scope) (evalList ev items scope) := by
  cases items with
  | nil => exact h.keeps_pure scope _
  | cons head rest =>
    refine h.keeps_settle (h.strict_bind (h.strict_need (hev head scope)) fun f => ?_)
    exact h.strict_lift (h.call_keeps hev f _ scope)

theorem expand_keeps (h : Effect R) (hev : Respects R ev) (scope : FrameId) (f : Value)
    (items : List Value) : Keeps (R scope) (expand ev f items) := by
  unfold expand
  split
  · split
    · exact h.keeps_pure scope _
    · exact h.keeps_throw scope _
  · exact h.keeps_settle (h.invoke_keeps hev scope _ _)
  · exact h.keeps_pure scope _

theorem evalStep_keeps (h : Effect R) (hev : Respects R ev) : Respects R (evalStep ev) := by
  intro v scope
  unfold evalStep
  split
  · refine h.keeps_bind (fun s => h.refl scope s) fun s => ?_
    split
    · refine h.keeps_bind (h.keeps_record scope _) fun _ => ?_
      exact h.keeps_bind (h.expand_keeps hev scope _ _) fun form => hev form scope
    · exact h.evalList_keeps hev scope _
  · exact h.evalAtom_keeps scope _
  · exact h.keeps_pure scope _

theorem eval_keeps (h : Effect R) (bound : Nat) : Respects R (eval bound) := by
  induction bound with
  | zero => exact fun v scope => h.keeps_throw scope _
  | succ bound ih => exact h.evalStep_keeps ih

theorem ofRun_keeps {α : Type} {scope : FrameId} {m : Run α} (hm : Keeps (R scope) m) :
    Keeps (R scope) (Action.ofRun m) := by
  intro s
  have heq : s.after (Action.ofRun m) = s.after m := by
    cases hr : m s <;> simp only [Store.after, Action.ofRun, EStateM.run, hr]
  rw [heq]
  exact hm s

theorem evalUpTo_keeps (h : Effect R) (session : Session) (fuel : Nat) (stream : TokenStream) :
    Keeps (R session.scope) (session.evalUpTo fuel stream) := by
  induction fuel generalizing stream with
  | zero => exact h.keeps_pure session.scope _
  | succ fuel ih =>
    rw [Session.evalUpTo]
    split
    · exact h.keeps_throw session.scope _
    · exact h.keeps_pure session.scope _
    · refine h.keeps_bind (ofRun_keeps (h.eval_keeps session.bound _ session.scope)) fun v => ?_
      exact h.keeps_bind (ih _) fun vs => h.keeps_pure session.scope _

theorem evalAll_keeps (h : Effect R) (session : Session) (code : String) :
    Keeps (R session.scope) (session.evalAll code) :=
  h.evalUpTo_keeps session _ _

theorem recordFailures_keeps (h : Effect R) (scope : FrameId) (results : List Value) :
    Keeps (R scope) (Session.recordFailures results) := by
  induction results with
  | nil => exact h.keeps_pure scope _
  | cons v rest ih =>
    rw [Session.recordFailures]
    split
    · exact h.keeps_bind (h.keeps_record scope _) fun _ => ih
    · exact ih

theorem evalPrelude_keeps (h : Effect R) (session : Session) (code : String) :
    Keeps (R session.scope) (session.evalPrelude code) := by
  refine h.keeps_bind (h.evalAll_keeps session code) fun results => ?_
  exact ofRun_keeps (h.recordFailures_keeps session.scope results)

end Effect

end TreeLisp
