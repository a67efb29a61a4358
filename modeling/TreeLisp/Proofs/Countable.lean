import TreeLisp.Proofs.Guarded

/-!
# Evaluations that stay countable

A machine holds no list and no string with more elements than a signed word of 64 bits can count.
Evaluation itself knows no such limit. It is countable when it does not come across it, that is,
when it would go the same way if an alarm went off at every form and every value that is too long.
Countable evaluations ensure every sound law that relies on no other limit, and so do all events of
all sessions.
-/
namespace TreeLisp

/-- A list or a string has at most as many elements as the greatest integer says. -/
def Value.countable (v : Value) : Bool :=
  v.extent ≤ Number.greatestInt

/-- Evaluate, and raise the alarm over the first form or value that is not countable. -/
def evalCountable (alarm : Fault) : Nat → Evaluator
  | 0 => fun _ _ => throw .nesting
  | bound + 1 => fun form scope =>
    if form.countable then do
      let v ← evalStep (evalCountable alarm bound) form scope
      if v.countable then pure v else throw alarm
    else throw alarm

/-- All forms that the evaluation comes to and all values that it gives on the way are countable. No
alarm goes off, for otherwise the outcome would depend on the choice of the alarm. -/
def Store.Countable (s : Store) (bound : Nat) (form : Value) (scope : FrameId) : Prop :=
  ∀ alarm, (evalCountable alarm bound form scope).run s = (eval bound form scope).run s

/-- The evaluations of the forms, one after the other, are countable. Forms behind a fault are not
evaluated. -/
def Session.Countable (session : Session) : List Value → Store → Prop
  | [], _ => True
  | form :: later, s =>
    s.Countable session.bound form session.scope ∧
      match (eval session.bound form session.scope).run s with
      | .ok _ t => session.Countable later t
      | .error _ _ => True

namespace Session.Countable

variable {session : Session} {form v : Value} {later : List Value} {s t : Store}

theorem next (h : s.Countable session.bound form session.scope)
    (hform : (eval session.bound form session.scope).run s = .ok v t)
    (hlater : session.Countable later t) : session.Countable (form :: later) s := by
  refine ⟨h, ?_⟩
  rw [hform]
  exact hlater

theorem fault (h : s.Countable session.bound form session.scope) {f : Fault}
    (hform : (eval session.bound form session.scope).run s = .error f t) :
    session.Countable (form :: later) s := by
  refine ⟨h, ?_⟩
  rw [hform]
  trivial

end Session.Countable

theorem evalCountable_eq_evalGuarded (alarm : Fault) (bound : Nat) :
    evalCountable alarm bound = evalGuarded (insist Value.countable alarm) bound := by
  induction bound with
  | zero => rfl
  | succ bound ih =>
    funext form scope
    rw [evalCountable, evalGuarded, ih]
    simp only [pass_insist_bind]

namespace World

def CountableAt (w : World) : Event → Prop
  | .start => True
  | .prelude place levels code | .eval place levels code =>
    ∀ scope, w.sessions[place]? = some scope →
      Session.Countable ⟨scope, levels⟩ (written code) w.store

/-- The evaluations of all events, one after the other, are countable. -/
def Countable : World → List Event → Prop
  | _, [] => True
  | w, event :: later => w.CountableAt event ∧ (w.step event).Countable later

end World

namespace Law

variable {L : Law}

/-- The law relies on no other limit than that lists and strings are countable. -/
def Spacious (L : Law) : Prop :=
  ∀ v : Value, v.countable = true → L.room v.extent

theorem Sound.evalCountable_governs (sound : L.Sound) (hspacious : L.Spacious) {alarm : Fault}
    (halarm : L.fault alarm) (bound : Nat) : L.Governs (evalCountable alarm bound) := by
  rw [evalCountable_eq_evalGuarded]
  refine sound.evalGuarded_governs (fun v _ => ?_) bound
  rcases insist_cases Value.countable alarm v with ⟨h, hv⟩ | ⟨h, -⟩
  · rw [h]
    exact hspacious v hv
  · rw [h]
    exact halarm

theorem Sound.eval_ends (sound : L.Sound) (hspacious : L.Spacious) {s : Store}
    (hs : s.Throughout L.value) {bound : Nat} {form : Value} {scope : FrameId}
    (hform : L.Lawful form) (hcountable : s.Countable bound form scope) :
    L.Ends L.Given ((eval bound form scope).run s) := by
  rw [← hcountable .nesting]
  exact sound.evalCountable_governs hspacious sound.nesting bound form scope hform s hs

theorem Sound.obeys_of_countable (sound : L.Sound) (hspacious : L.Spacious) {session : Session}
    {forms : List Value} (hforms : L.AllLawful forms) {s : Store}
    (hcountable : session.Countable forms s) (hs : s.Throughout L.value) :
    session.Obeys L forms s := by
  induction forms generalizing s with
  | nil => trivial
  | cons form later ih =>
    have hends := sound.eval_ends hspacious hs hforms.head hcountable.1
    have hlater := hcountable.2
    refine ⟨hends, ?_⟩
    generalize (eval session.bound form session.scope).run s = r at hends hlater ⊢
    cases hends with
    | result hstore _ => exact ih hforms.of_cons hlater hstore
    | fault => trivial

theorem Sound.evalAll (sound : L.Sound) (hspacious : L.Spacious) {session : Session}
    {code : String} {s : Store} (hcountable : session.Countable (written code) s)
    (hs : s.Throughout L.value) :
    (s.after (session.evalAll code)).Throughout L.value ∧
      ∀ results, s.outcome (session.evalAll code) = .ok results → L.AllLawful results :=
  evalAll_of_obeys (sound.obeys_of_countable hspacious (sound.lawful_written code) hcountable hs) hs

theorem Sound.step (sound : L.Sound) (hspacious : L.Spacious) {w : World} {event : Event}
    (hcountable : w.CountableAt event) (hw : w.store.Throughout L.value) :
    (w.step event).store.Throughout L.value := by
  cases event with
  | start =>
    exact hw.addFrame (some registry) fun _ hb => absurd hb List.not_mem_nil
  | prelude place levels code =>
    simp only [World.step, World.act]
    split
    · exact hw
    · next scope hscope =>
      have hobeys := sound.obeys_of_countable hspacious (sound.lawful_written code)
        (hcountable scope hscope) hw
      exact evalPrelude_of_obeys hobeys hw
  | eval place levels code =>
    simp only [World.step, World.act]
    split
    · exact hw
    · next scope hscope => exact (sound.evalAll hspacious (hcountable scope hscope) hw).1

theorem Sound.run (sound : L.Sound) (hspacious : L.Spacious) {w : World} {events : List Event}
    (hcountable : w.Countable events) (hw : w.store.Throughout L.value) :
    (w.run events).store.Throughout L.value := by
  induction events generalizing w with
  | nil => exact hw
  | cons event later ih => exact ih hcountable.2 (sound.step hspacious hcountable.1 hw)

end Law

end TreeLisp
