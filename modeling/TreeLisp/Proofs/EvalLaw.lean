import TreeLisp.Proofs.Call
import TreeLisp.Proofs.Law
import TreeLisp.Session

/-!
# Evaluation under a law

Each part of the evaluator ensures a sound law as long as the evaluator that it is given does. The
natives check the number of their arguments before they run, so that no call ends in a miscount.
-/
namespace TreeLisp

variable {α β : Type}

section Arity

variable {name : String} {call : List Value}

theorem tail_of_exactly_one (h : (Arity.exactly 1).problem? name call = none) :
    ∃ v, call.tail = [v] := by
  have hlength : call.length = 1 + 1 := length_of_exactly h
  apply List.length_eq_one_iff.mp
  rw [List.length_tail]
  omega

theorem tail_of_exactly_two (h : (Arity.exactly 2).problem? name call = none) :
    ∃ v w, call.tail = [v, w] := by
  have hlength : call.length = 2 + 1 := length_of_exactly h
  apply List.length_eq_two.mp
  rw [List.length_tail]
  omega

theorem tail_of_atLeast_one (h : (Arity.atLeast 1).problem? name call = none) :
    ∃ v vs, call.tail = v :: vs := by
  obtain ⟨head, v, vs, rfl⟩ := call_of_atLeast_one h
  exact ⟨v, vs, rfl⟩

theorem tail_of_two_or_three (h : (Arity.between 2 3).problem? name call = none) :
    (∃ v w, call.tail = [v, w]) ∨ ∃ u v w, call.tail = [u, v, w] := by
  have hleast : ¬ argumentCount call < 2 := by
    intro hlt
    simp [Arity.problem?, hlt] at h
  have hmost : ¬ 3 < argumentCount call := by
    intro hlt
    simp [Arity.problem?, hleast, hlt] at h
  unfold argumentCount at hleast hmost
  have hlength : call.tail.length = 2 ∨ call.tail.length = 3 := by
    rw [List.length_tail]
    omega
  exact hlength.imp List.length_eq_two.mp List.length_eq_three.mp

end Arity

namespace Law

inductive Ends (L : Law) (post : α → Prop) : EStateM.Result Fault Store α → Prop where
  | result {a : α} {t : Store} (hstore : t.Throughout L.value) (h : post a) :
      L.Ends post (.ok a t)
  | fault {f : Fault} {t : Store} (hstore : t.Throughout L.value) (h : L.fault f) :
      L.Ends post (.error f t)

theorem Ends.fault_of_error {L : Law} {post : α → Prop} {f : Fault} {t : Store}
    (h : L.Ends post (.error f t)) : L.fault f := by
  cases h with
  | fault _ hf => exact hf

/-- In a lawful store the run has a lawful ending. -/
def Ensures (L : Law) (post : α → Prop) (m : Run α) : Prop :=
  ∀ s, s.Throughout L.value → L.Ends post (m.run s)

/-- What holds of a strict run that comes to a value. -/
def Reached (post : α → Prop) : Except String α → Prop
  | .ok a => post a
  | .error _ => True

abbrev StrictEnsures (L : Law) (post : α → Prop) (m : Strict α) : Prop :=
  L.Ensures (Reached post) m.run

variable {L : Law} {post : α → Prop} {post' : β → Prop}

namespace Ensures

theorem result {a : α} (h : post a) : L.Ensures post (pure a) :=
  fun _ hs => .result hs h

theorem fault {f : Fault} (h : L.fault f) : L.Ensures post (throw f) :=
  fun _ hs => .fault hs h

theorem bind {m : Run α} {k : α → Run β} (hm : L.Ensures post m)
    (hk : ∀ a, post a → L.Ensures post' (k a)) : L.Ensures post' (m >>= k) := by
  intro s hs
  have hends := hm s hs
  rw [EStateM.run_bind]
  generalize m.run s = r at hends ⊢
  cases hends with
  | result hstore h => exact hk _ h _ hstore
  | fault hstore h => exact .fault hstore h

theorem get_bind {k : Store → Run α} (hk : ∀ s, s.Throughout L.value → L.Ensures post (k s)) :
    L.Ensures post (get >>= k) :=
  fun s hs => hk s hs s hs

theorem imp {post' : α → Prop} {m : Run α} (hm : L.Ensures post m) (h : ∀ a, post a → post' a) :
    L.Ensures post' m := by
  intro s hs
  have hends := hm s hs
  generalize m.run s = r at hends ⊢
  cases hends with
  | result hstore ha => exact .result hstore (h _ ha)
  | fault hstore hf => exact .fault hstore hf

theorem record {r : Record} (hr : r.Throughout L.value) :
    L.Ensures (fun _ => True) (Run.record r) :=
  fun _ hs => .result (hs.addRecord hr) trivial

theorem newSerial : L.Ensures (fun _ => True) Run.newSerial :=
  fun _ hs => .result ⟨hs.frames, hs.journal⟩ trivial

theorem setName (frame : FrameId) (name : String) {v : Value} (hv : L.Lawful v) :
    L.Ensures (fun _ => True) (Run.setName frame name v) :=
  fun _ hs => .result (hs.set hv) trivial

theorem newFrame (parent : FrameId) {bindings : Bindings}
    (hbindings : bindings.Throughout L.value) :
    L.Ensures (fun _ => True) (Run.newFrame parent bindings) :=
  fun _ hs => .result (hs.addFrame (some parent) hbindings) trivial

theorem getName (frame : FrameId) (name : String) :
    L.Ensures (fun found => ∀ v, found = some v → L.Lawful v) (Run.getName? frame name) :=
  fun _ hs => .result hs fun _ hv => hs.get hv

end Ensures

namespace StrictEnsures

theorem value {a : α} (h : post a) : L.StrictEnsures post (pure a) :=
  Ensures.result h

theorem fail (p : Problem) : L.StrictEnsures post (Strict.fail p) :=
  Ensures.result trivial

theorem bind {m : Strict α} {k : α → Strict β} (hm : L.StrictEnsures post m)
    (hk : ∀ a, post a → L.StrictEnsures post' (k a)) : L.StrictEnsures post' (m >>= k) := by
  unfold StrictEnsures
  rw [ExceptT.run_bind]
  refine Ensures.bind hm fun r hr => ?_
  cases r with
  | ok a => exact hk a hr
  | error message => exact Ensures.result trivial

theorem lift {m : Run α} (hm : L.Ensures post m) : L.StrictEnsures post (liftM m) :=
  Ensures.bind hm fun _ h => Ensures.result h

theorem accept {p : Value → Prop} {v : Value} (h : p v) : L.StrictEnsures p (Strict.accept v) := by
  unfold Strict.accept
  split
  · exact Ensures.result trivial
  · exact value h

theorem need {p : Value → Prop} {m : Run Value} (hm : L.Ensures p m) :
    L.StrictEnsures p (Strict.need m) :=
  bind (lift hm) fun _ h => accept h

end StrictEnsures

def Governs (L : Law) (ev : Evaluator) : Prop :=
  ∀ v scope, L.Lawful v → L.Ensures L.Given (ev v scope)

theorem Governs.lift {ev : Evaluator} (hev : L.Governs ev) {v : Value} (h : L.Lawful v)
    (scope : FrameId) : L.StrictEnsures L.Lawful (liftM (ev v scope)) :=
  .lift ((hev v scope h).imp fun _ hw => hw.lawful)

theorem Governs.need {ev : Evaluator} (hev : L.Governs ev) {v : Value} (h : L.Lawful v)
    (scope : FrameId) : L.StrictEnsures L.Given (Strict.need (ev v scope)) :=
  .need (hev v scope h)

/-- Calls of call lists with fewer than `bound` items ensure the law. -/
def GovernsCalls (L : Law) (bound : Nat) (call : Caller) : Prop :=
  ∀ f items scope, L.Lawful f → L.AllLawful items → L.room items.length → items.length < bound →
    L.Ensures L.Lawful (call f items scope)

namespace Sound

variable {ev : Evaluator} {scope : FrameId} {v : Value} {vs : List Value}

theorem settle (sound : L.Sound) {m : Strict Value} (hm : L.StrictEnsures L.Lawful m) :
    L.Ensures L.Lawful (Strict.settle m) := by
  refine Ensures.bind hm fun r hr => ?_
  cases r with
  | ok v => exact .result hr
  | error message => exact .result (sound.error message)

theorem evalArgs_ensures (hev : L.Governs ev) (h : L.AllLawful vs) :
    L.StrictEnsures (fun ws => (∀ w ∈ ws, L.Given w) ∧ ws.length = vs.length)
      (evalArgs ev scope vs) := by
  induction vs with
  | nil => exact .value ⟨by simp, rfl⟩
  | cons v vs ih =>
    refine (hev.need h.head scope).bind fun w hw => ?_
    refine (ih h.of_cons).bind fun ws hws => ?_
    exact .value ⟨List.forall_mem_cons.mpr ⟨hw, hws.1⟩, congrArg (· + 1) hws.2⟩

theorem evalEach_ensures (hev : L.Governs ev) (h : L.AllLawful vs) :
    L.Ensures (fun ws => (∀ w ∈ ws, L.Given w) ∧ ws.length = vs.length)
      (evalEach ev scope vs) := by
  induction vs with
  | nil => exact .result ⟨by simp, rfl⟩
  | cons v vs ih =>
    refine (hev v scope h.head).bind fun w hw => ?_
    refine (ih h.of_cons).bind fun ws hws => ?_
    exact .result ⟨List.forall_mem_cons.mpr ⟨hw, hws.1⟩, congrArg (· + 1) hws.2⟩

theorem evalAfter_ensures (hev : L.Governs ev) (hlast : L.Lawful v) (h : L.AllLawful vs) :
    L.StrictEnsures L.Lawful (evalAfter ev scope v vs) := by
  induction vs generalizing v with
  | nil => exact .value hlast
  | cons form later ih =>
    refine (hev.need h.head scope).bind fun w hw => ?_
    exact ih hw.lawful h.of_cons

theorem evalSequence_ensures (sound : L.Sound) (hev : L.Governs ev) (h : L.AllLawful vs) :
    L.StrictEnsures L.Lawful (evalSequence ev scope vs) :=
  evalAfter_ensures hev sound.nil h

theorem invoke_ensures (sound : L.Sound) (hev : L.Governs ev) {c : Closure Value}
    (hbody : L.AllLawful c.body) (h : L.AllLawful vs) :
    L.StrictEnsures L.Lawful (c.invoke ev vs) := by
  unfold Closure.invoke Closure.bind
  split
  · exact .fail _
  · have hbindings := sound.lawful_argumentBindings c h
    refine (StrictEnsures.lift (.newFrame c.scope hbindings)).bind fun frame _ => ?_
    exact sound.evalSequence_ensures hev hbody

theorem closureCall_ensures (sound : L.Sound) (hev : L.Governs ev) {c : Closure Value}
    (hbody : L.AllLawful c.body) (h : L.AllLawful vs) :
    L.StrictEnsures L.Lawful (c.call ev vs scope) := by
  refine (evalArgs_ensures hev h).bind fun args hargs => ?_
  have hrecord : (Record.calling c.name args.length).Throughout L.value := trivial
  refine (StrictEnsures.lift (.record hrecord)).bind fun _ _ => ?_
  exact sound.invoke_ensures hev hbody fun w hw => (hargs.1 w hw).lawful

theorem lawful_argument {m : Mark} {form : Value} (h : L.Lawful v)
    (hform : Template.argument? m v = some (.ok form)) : L.Lawful form := by
  unfold Template.argument? at hform
  split at hform
  · split at hform
    · split at hform
      · cases hform
        exact h.items.of_cons.head
      · cases hform
    · cases hform
  · cases hform

mutual

theorem fill_ensures (sound : L.Sound) (hev : L.Governs ev) :
    (template : Value) → L.Lawful template →
      L.StrictEnsures L.Lawful (Template.fill ev scope template)
  | .list items, h => by
    rw [Template.fill]
    split
    · exact .fail _
    · next form hform =>
      exact hev.lift (lawful_argument h hform) scope
    · refine (sound.fillItems_ensures hev items h.items).bind fun filled hfilled => ?_
      exact .value (sound.list hfilled)
  | .nil, h | .bool _, h | .int _, h | .float _, h | .string _, h | .atom _, h | .native _, h
  | .sugar _, h | .function _ _ _, h | .expander _ _ _, h | .error _, h => .value h

theorem fillItems_ensures (sound : L.Sound) (hev : L.Governs ev) :
    (items : List Value) → L.AllLawful items →
      L.StrictEnsures L.AllLawful (Template.fillItems ev scope items)
  | [], _ => .value .nil
  | item :: later, h => by
    rw [Template.fillItems]
    split
    · exact .fail _
    · next form hform =>
      have hlawful : L.Lawful form := lawful_argument h.head hform
      refine (hev.need hlawful scope).bind fun w hw => ?_
      split
      · refine (sound.fillItems_ensures hev later h.of_cons).bind fun filled hfilled => ?_
        exact .value (hw.lawful.items.append hfilled)
      · exact .fail _
    · refine (sound.fill_ensures hev item h.head).bind fun w hw => ?_
      refine (StrictEnsures.accept hw).bind fun w hw => ?_
      refine (sound.fillItems_ensures hev later h.of_cons).bind fun filled hfilled => ?_
      exact .value (.cons hw hfilled)

end

theorem named_ensures (sound : L.Sound) (name : String) (h : L.Lawful v) :
    L.Ensures L.Lawful (SpecialForm.named name v) := by
  unfold SpecialForm.named
  split
  · next serial old c =>
    split
    · refine Ensures.newSerial.bind fun n _ => .result ?_
      exact Value.throughout_function.mpr ⟨sound.renamedFunction n c name, h.functionBody⟩
    · exact .result h
  · next serial old c =>
    split
    · refine Ensures.newSerial.bind fun n _ => .result ?_
      exact Value.throughout_expander.mpr ⟨sound.renamedExpander n c name, h.expanderBody⟩
    · exact .result h
  · exact .result h

theorem runDefine_ensures (sound : L.Sound) (hev : L.Governs ev) (target : Value) {form : Value}
    (h : L.Lawful form) :
    L.StrictEnsures L.Lawful (SpecialForm.runDefine ev target form scope) := by
  unfold SpecialForm.runDefine
  split
  · exact .fail _
  · next name _ =>
    refine (hev.need h scope).bind fun v hv => ?_
    refine (StrictEnsures.lift (sound.named_ensures name hv.lawful)).bind fun w hw => ?_
    refine (StrictEnsures.lift (.setName scope name hw)).bind fun _ _ => ?_
    exact .value hw

theorem runBranch_ensures (sound : L.Sound) (hev : L.Governs ev) {test whenTrue : Value}
    (whenFalse : Option Value) (htest : L.Lawful test) (htrue : L.Lawful whenTrue)
    (hfalse : ∀ form, whenFalse = some form → L.Lawful form) :
    L.StrictEnsures L.Lawful (SpecialForm.runBranch ev test whenTrue whenFalse scope) := by
  refine (hev.need htest scope).bind fun v _ => ?_
  split
  · exact hev.lift htrue scope
  · cases whenFalse with
    | some form =>
      exact hev.lift (hfalse form rfl) scope
    | none => exact .value sound.nil

theorem bindEach_ensures (hev : L.Governs ev) (frame : FrameId) (pairs : List Value)
    (h : L.AllLawful pairs) :
    L.StrictEnsures (fun _ => True) (SpecialForm.bindEach ev frame pairs) := by
  induction pairs with
  | nil => exact .value trivial
  | cons binding later ih =>
    by_cases hpair : ∃ target form, binding = .list [target, form]
    · obtain ⟨target, form, rfl⟩ := hpair
      rw [SpecialForm.bindEach]
      split
      · exact .fail _
      · next name _ =>
        have hform : L.Lawful form := h.head.items.of_cons.head
        refine (hev.need hform frame).bind fun v hv => ?_
        exact (StrictEnsures.lift (.setName frame name hv.lawful)).bind fun _ _ => ih h.of_cons
    · rw [SpecialForm.bindEach]
      · exact .fail _
      · intro target form heq
        exact hpair ⟨target, form, heq⟩

theorem runBind_ensures (sound : L.Sound) (hev : L.Governs ev) {bindings : Value}
    (hbindings : L.Lawful bindings) (hbody : L.AllLawful vs) :
    L.StrictEnsures L.Lawful (SpecialForm.runBind ev bindings vs scope) := by
  unfold SpecialForm.runBind
  split
  · next pairs =>
    have hempty : Bindings.Throughout L.value [] := fun _ hb => absurd hb List.not_mem_nil
    refine (StrictEnsures.lift (.newFrame scope hempty)).bind fun frame _ => ?_
    refine (bindEach_ensures hev frame pairs hbindings.items).bind fun _ _ => ?_
    exact sound.evalSequence_ensures hev hbody
  · exact .fail _

theorem closure_ensures (params : Value) (hbody : L.AllLawful vs) :
    L.StrictEnsures (fun c => c.name = anonymous ∧ L.AllLawful c.body)
      (SpecialForm.closure params vs scope) := by
  unfold SpecialForm.closure
  split
  · exact .fail _
  · exact .value ⟨rfl, hbody⟩

theorem conjunctionFrom_ensures (hev : L.Governs ev) (hlast : L.Lawful v) (h : L.AllLawful vs) :
    L.StrictEnsures L.Lawful (SpecialForm.conjunctionFrom ev scope v vs) := by
  induction vs generalizing v with
  | nil => exact .value hlast
  | cons form later ih =>
    refine (hev.need h.head scope).bind fun w hw => ?_
    split
    · exact ih hw.lawful h.of_cons
    · exact .value hw.lawful

theorem disjunctionFrom_ensures (sound : L.Sound) (hev : L.Governs ev) (h : L.AllLawful vs) :
    L.StrictEnsures L.Lawful (SpecialForm.disjunctionFrom ev scope vs) := by
  induction vs with
  | nil => exact .value (sound.bool false)
  | cons form later ih =>
    refine (hev.need h.head scope).bind fun w hw => ?_
    split
    · exact .value hw.lawful
    · exact ih h.of_cons

/-- The arguments of a special form are as many as its arity says, so that it has a case for
them. -/
theorem form_ensures (sound : L.Sound) (hev : L.Governs ev) (f : SpecialForm) {items : List Value}
    (harity : f.arity.problem? f.name items = none) (h : L.AllLawful items) :
    L.StrictEnsures L.Lawful (f.run ev items.tail scope) := by
  have hargs : L.AllLawful items.tail := h.tail
  cases f with
  | define =>
    obtain ⟨target, form, heq⟩ := tail_of_exactly_two harity
    rw [heq] at hargs ⊢
    exact sound.runDefine_ensures hev target hargs.of_cons.head
  | branch =>
    rcases tail_of_two_or_three harity with ⟨test, whenTrue, heq⟩ | ⟨test, whenTrue, whenFalse, heq⟩
    · rw [heq] at hargs ⊢
      exact sound.runBranch_ensures hev none hargs.head hargs.of_cons.head nofun
    · rw [heq] at hargs ⊢
      apply sound.runBranch_ensures hev (some whenFalse) hargs.head hargs.of_cons.head
      intro form hform
      exact Option.some.inj hform ▸ hargs.of_cons.of_cons.head
  | sequence => exact sound.evalSequence_ensures hev hargs
  | bind =>
    obtain ⟨bindings, body, heq⟩ := tail_of_atLeast_one harity
    rw [heq] at hargs ⊢
    exact sound.runBind_ensures hev hargs.head hargs.of_cons
  | function =>
    obtain ⟨params, body, heq⟩ := tail_of_atLeast_one harity
    rw [heq] at hargs ⊢
    refine (closure_ensures params hargs.of_cons).bind fun c hc => ?_
    refine (StrictEnsures.lift .newSerial).bind fun n _ => .value ?_
    exact Value.throughout_function.mpr ⟨sound.function n hc.1, hc.2⟩
  | expander =>
    obtain ⟨params, body, heq⟩ := tail_of_atLeast_one harity
    rw [heq] at hargs ⊢
    refine (closure_ensures params hargs.of_cons).bind fun c hc => ?_
    refine (StrictEnsures.lift .newSerial).bind fun n _ => .value ?_
    exact Value.throughout_expander.mpr ⟨sound.expander n hc.1, hc.2⟩
  | quote =>
    obtain ⟨form, heq⟩ := tail_of_exactly_one harity
    rw [heq] at hargs ⊢
    exact .value hargs.head
  | quasiquote =>
    obtain ⟨template, heq⟩ := tail_of_exactly_one harity
    rw [heq] at hargs ⊢
    exact sound.fill_ensures hev template hargs.head
  | unquote | splice => exact .fail _
  | conjunction => exact conjunctionFrom_ensures hev (sound.bool true) hargs
  | disjunction => exact sound.disjunctionFrom_ensures hev hargs
  | eval =>
    obtain ⟨form, heq⟩ := tail_of_exactly_one harity
    rw [heq] at hargs ⊢
    refine (hev.need hargs.head scope).bind fun v hv => ?_
    exact hev.lift hv.lawful scope

theorem callFunction_ensures (sound : L.Sound) {call : Caller} {bound : Nat}
    (hcall : L.GovernsCalls bound call) {f : Value} (hf : L.Lawful f) (h : L.AllLawful vs)
    (hfew : vs.length ≤ 2) (hbound : vs.length + 1 < bound) :
    L.Ensures L.Lawful (callFunction call f vs scope) := by
  have hbindings : Bindings.Throughout L.value ((argumentNames vs).zip vs) :=
    fun b hb => h b.2 (List.of_mem_zip hb).2
  refine (Ensures.newFrame scope hbindings).bind fun frame _ => ?_
  have hlength : (f :: (argumentNames vs).map Value.symbol).length = vs.length + 1 := by
    simp [argumentNames]
  have hnames : L.AllLawful ((argumentNames vs).map Value.symbol) := by
    intro v hv
    obtain ⟨name, -, rfl⟩ := List.mem_map.mp hv
    exact sound.symbol name
  apply hcall f _ frame hf (.cons hf hnames)
  · rw [hlength]
    exact sound.few (by omega)
  · rw [hlength]
    exact hbound

theorem items_ensures (t : Traversal) (f : Value) {sequence : Value} (h : L.Lawful sequence) :
    L.StrictEnsures L.AllLawful (t.items f sequence) := by
  unfold Traversal.items
  split
  · cases sequence with
    | nil => exact .value .nil
    | list items => exact .value h.items
    | _ => exact .fail _
  · exact .fail _

section

variable {call : Caller} {bound : Nat} {f : Value}

theorem mapItems_ensures (sound : L.Sound) (hcall : L.GovernsCalls bound call)
    (hbound : 2 < bound) (hf : L.Lawful f) (h : L.AllLawful vs) :
    L.StrictEnsures L.AllLawful (Traversal.mapItems call f scope vs) := by
  induction vs with
  | nil => exact .value .nil
  | cons x later ih =>
    have hx : L.Ensures L.Lawful (callFunction call f [x] scope) :=
      sound.callFunction_ensures hcall hf (.cons h.head .nil) (by simp) hbound
    refine (StrictEnsures.need hx).bind fun w hw => ?_
    exact (ih h.of_cons).bind fun ws hws => .value (.cons hw hws)

theorem filterItems_ensures (sound : L.Sound) (hcall : L.GovernsCalls bound call)
    (hbound : 2 < bound) (hf : L.Lawful f) (h : L.AllLawful vs) :
    L.StrictEnsures L.AllLawful (Traversal.filterItems call f scope vs) := by
  induction vs with
  | nil => exact .value .nil
  | cons x later ih =>
    have hx : L.Ensures L.Lawful (callFunction call f [x] scope) :=
      sound.callFunction_ensures hcall hf (.cons h.head .nil) (by simp) hbound
    refine (StrictEnsures.need hx).bind fun keep _ => ?_
    refine (ih h.of_cons).bind fun kept hkept => ?_
    split
    · exact .value (.cons h.head hkept)
    · exact .value hkept

theorem foldItems_ensures (sound : L.Sound) (hcall : L.GovernsCalls bound call)
    (hbound : 3 < bound) (hf : L.Lawful f) {acc : Value} (hacc : L.Lawful acc)
    (h : L.AllLawful vs) : L.StrictEnsures L.Lawful (Traversal.foldItems call f scope acc vs) := by
  induction vs generalizing acc with
  | nil => exact .value hacc
  | cons x later ih =>
    have hx : L.Ensures L.Lawful (callFunction call f [acc, x] scope) :=
      sound.callFunction_ensures hcall hf (.cons hacc (.cons h.head .nil)) (by simp) hbound
    exact (StrictEnsures.need hx).bind fun w hw => ih hw h.of_cons

end

/-- A traversal calls with lists that are shorter than the one it has been called with. -/
theorem traversal_ensures (sound : L.Sound) {call : Caller} {items : List Value}
    (hcall : L.GovernsCalls items.length call) (t : Traversal)
    (harity : t.arity.problem? t.name items = none) (h : L.AllLawful vs)
    (hlength : vs.length = items.tail.length) :
    L.StrictEnsures L.Lawful (t.run call vs scope) := by
  cases t with
  | map =>
    have hitems : items.length = 2 + 1 := length_of_exactly harity
    obtain ⟨f, sequence, rfl⟩ : ∃ f sequence, vs = [f, sequence] := by
      apply List.length_eq_two.mp
      rw [hlength, List.length_tail, hitems]
    refine (items_ensures .map f h.of_cons.head).bind fun xs hxs => ?_
    refine (sound.mapItems_ensures hcall (by omega) h.head hxs).bind fun ws hws => ?_
    exact .value (sound.list hws)
  | filter =>
    have hitems : items.length = 2 + 1 := length_of_exactly harity
    obtain ⟨f, sequence, rfl⟩ : ∃ f sequence, vs = [f, sequence] := by
      apply List.length_eq_two.mp
      rw [hlength, List.length_tail, hitems]
    refine (items_ensures .filter f h.of_cons.head).bind fun xs hxs => ?_
    refine (sound.filterItems_ensures hcall (by omega) h.head hxs).bind fun ws hws => ?_
    exact .value (sound.list hws)
  | reduce =>
    have hitems : items.length = 3 + 1 := length_of_exactly harity
    obtain ⟨f, initial, sequence, rfl⟩ : ∃ f initial sequence, vs = [f, initial, sequence] := by
      apply List.length_eq_three.mp
      rw [hlength, List.length_tail, hitems]
    refine (items_ensures .reduce f h.of_cons.of_cons.head).bind fun xs hxs => ?_
    exact sound.foldItems_ensures hcall (by omega) h.head h.of_cons.head hxs

theorem checkArity_ensures (n : Native) (items : List Value) :
    L.StrictEnsures (fun _ => n.arity.problem? n.name items = none) (checkArity n items) := by
  unfold checkArity
  split
  · exact .fail _
  · next harity => exact .value harity

theorem operation_ensures (sound : L.Sound) (op : Operation) {items args : List Value}
    (harity : op.arity.problem? op.name items = none) (hroom : L.room items.length)
    (hargs : (∀ v ∈ args, L.Given v) ∧ args.length = items.tail.length) :
    L.StrictEnsures L.Lawful (op.compute args).toStrict := by
  have hresult := sound.lawful_compute op hargs.1
  unfold Compute.toStrict
  split
  · next v hv => exact .value (hresult v hv)
  · exact .fail _
  · next f hf =>
    exact fun s hs => .fault hs (sound.operation harity hroom hargs.2 hargs.1 hf)

theorem runNative_ensures (sound : L.Sound) (hev : L.Governs ev) {call : Caller}
    {items : List Value} (hcall : L.GovernsCalls items.length call) (n : Native)
    (harity : n.arity.problem? n.name items = none) (h : L.AllLawful items)
    (hroom : L.room items.length) :
    L.StrictEnsures L.Lawful (runNative ev call n items.tail scope) := by
  cases n with
  | form f => exact sound.form_ensures hev f harity h
  | operation op =>
    dsimp only [runNative]
    split
    · refine (StrictEnsures.lift (evalEach_ensures hev h.tail)).bind fun args hargs => ?_
      exact sound.operation_ensures op harity hroom hargs
    · refine (evalArgs_ensures hev h.tail).bind fun args hargs => ?_
      exact sound.operation_ensures op harity hroom hargs
  | traversal t =>
    refine (evalArgs_ensures hev h.tail).bind fun args hargs => ?_
    exact sound.traversal_ensures hcall t harity (fun v hv => (hargs.1 v hv).lawful) hargs.2

theorem callWith_ensures (sound : L.Sound) (hev : L.Governs ev) {call : Caller} {bound : Nat}
    (hcall : L.GovernsCalls bound call) : L.GovernsCalls (bound + 1) (callWith ev call) := by
  intro f items scope hf hitems hroom hbound
  have hshorter : L.GovernsCalls items.length call := fun g items' frame hg hitems' hroom' hlt =>
    hcall g items' frame hg hitems' hroom' (by omega)
  unfold callWith
  split
  · next n =>
    refine sound.settle ((checkArity_ensures n items).bind fun _ harity => ?_)
    exact sound.runNative_ensures hev hshorter n harity hitems hroom
  · exact sound.settle (sound.closureCall_ensures hev hf.functionBody hitems.tail)
  · exact .result (sound.error _)

theorem callBelow_ensures (sound : L.Sound) (hev : L.Governs ev) (bound : Nat) :
    L.GovernsCalls bound (callBelow ev bound) := by
  induction bound with
  | zero => exact fun _ _ _ _ _ _ hlt => absurd hlt (Nat.not_lt_zero _)
  | succ bound ih => exact sound.callWith_ensures hev ih

theorem call_ensures (sound : L.Sound) (hev : L.Governs ev) {f : Value} {items : List Value}
    (hf : L.Lawful f) (h : L.AllLawful items) (hroom : L.room items.length) :
    L.Ensures L.Lawful (call ev f items scope) :=
  sound.callBelow_ensures hev _ f items scope hf h hroom (Nat.lt_succ_self _)

theorem evalAtom_ensures (sound : L.Sound) (token : Token) :
    L.Ensures L.Lawful (evalAtom token scope) := by
  unfold evalAtom
  split
  · exact .result (sound.lawful_readString _)
  · refine (Ensures.getName scope token.text).bind fun found hfound => ?_
    cases found with
    | some v => exact .result (hfound v rfl)
    | none =>
      dsimp only
      split
      · next v hv => exact .result (sound.lawful_literal hv)
      · next f hf => exact .fault (sound.literal hf)

theorem evalList_ensures (sound : L.Sound) (hev : L.Governs ev) {items : List Value}
    (h : L.AllLawful items) (hroom : L.room items.length) :
    L.Ensures L.Lawful (evalList ev items scope) := by
  cases items with
  | nil => exact .result sound.nil
  | cons head rest =>
    refine sound.settle ((hev.need h.head scope).bind fun f hf => ?_)
    exact StrictEnsures.lift (sound.call_ensures hev hf.lawful h hroom)

theorem expand_ensures (sound : L.Sound) (hev : L.Governs ev) {f : Value} {items : List Value}
    (hf : L.Lawful f) (h : L.AllLawful items) : L.Ensures L.Lawful (expand ev f items) := by
  unfold expand
  split
  · next s =>
    obtain ⟨form, hform, hlawful⟩ := sound.lawful_expand s h
    rw [hform]
    exact .result hlawful
  · exact sound.settle (sound.invoke_ensures hev hf.expanderBody h.tail)
  · exact .result (sound.error _)

theorem lawful_headExpander {s : Store} (hs : s.Throughout L.value) {items : List Value}
    {name : String} {f : Value} (h : headExpander? s scope items = some (name, f)) :
    L.Lawful f := by
  simp only [headExpander?, Option.bind_eq_bind, Option.bind_eq_some_iff] at h
  obtain ⟨head, -, g, hget, hg⟩ := h
  split at hg
  · cases hg
    exact hs.get hget
  · cases hg

/-- One level of evaluation. What it gives is lawful, but may be of any length. -/
theorem evalStep_ensures (sound : L.Sound) (hev : L.Governs ev) (h : L.Given v) :
    L.Ensures L.Lawful (evalStep ev v scope) := by
  unfold evalStep
  split
  · next items =>
    have hitems : L.AllLawful items := h.lawful.items
    refine Ensures.get_bind fun s hs => ?_
    split
    · next name f hf =>
      have hexpander : L.Lawful f := lawful_headExpander hs hf
      have hrecord : (Record.expanding name items).Throughout L.value := hitems
      refine (Ensures.record hrecord).bind fun _ _ => ?_
      refine (sound.expand_ensures hev hexpander hitems).bind fun form hform => ?_
      exact (hev form scope hform).imp fun _ hw => hw.lawful
    · exact sound.evalList_ensures hev hitems h.room
  · exact sound.evalAtom_ensures _
  · exact .result h.lawful

end Sound

end Law

end TreeLisp
