import TreeLisp.Proofs.ReadFirst
import TreeLisp.Proofs.Run

/-!
# Any number of sessions over one store

A world holds the store and the frames of the sessions started so far. At each event a session is
started, or one of them evaluates a source text with the number of levels that are left to it at
that moment. An event that ends early keeps what it has done to the store.
-/
namespace TreeLisp

theorem Session.outcome_evalAll {session : Session} {code : String} {forms results : List Value}
    {s t : Store} (hread : read code = .ok forms)
    (h : session.Evaluates forms s results none t) :
    s.outcome (session.evalAll code) = .ok results :=
  Store.outcome_of_ok (session.evalAll_of_evaluates hread h)

inductive Event where
  | start
  /-- The session at this place evaluates a prelude. -/
  | prelude (place levels : Nat) (code : String)
  /-- The session at this place evaluates a source text. -/
  | eval (place levels : Nat) (code : String)
deriving DecidableEq

structure World where
  store : Store
  /-- The frames of the sessions, in the order in which they were started. -/
  sessions : List FrameId

namespace World

/-- Only the natives are known and no session has been started. -/
def initial : World := ⟨Store.initial, []⟩

def act {α : Type} (w : World) (place levels : Nat) (action : Session → Action α) : World :=
  match w.sessions[place]? with
  | none => w
  | some scope => { w with store := w.store.after (action ⟨scope, levels⟩) }

def step (w : World) : Event → World
  | .start =>
    match Session.create.run w.store with
    | .ok session s => ⟨s, w.sessions ++ [session.scope]⟩
    | .error _ s => { w with store := s }
  | .prelude place levels code => w.act place levels fun session => session.evalPrelude code
  | .eval place levels code => w.act place levels fun session => session.evalAll code

def run (w : World) (events : List Event) : World :=
  events.foldl step w

theorem store_step_eval {w : World} {place : Nat} {scope : FrameId}
    (h : w.sessions[place]? = some scope) (levels : Nat) (code : String) :
    (w.step (.eval place levels code)).store =
      w.store.after (Session.evalAll ⟨scope, levels⟩ code) := by
  simp only [step, act, h]

theorem store_step_eval_of_evaluates {w : World} {place levels : Nat} {scope : FrameId}
    {code : String} {forms results : List Value} {t : Store}
    (hplace : w.sessions[place]? = some scope) (hread : read code = .ok forms)
    (h : Session.Evaluates ⟨scope, levels⟩ forms w.store results none t) :
    (w.step (.eval place levels code)).store = t := by
  rw [store_step_eval hplace]
  exact Store.after_of_ok (Session.evalAll_of_evaluates _ hread h)

/-- The first session has the first frame over the natives. -/
theorem store_eval_after_start {levels : Nat} {code : String} {forms results : List Value}
    {t : Store} (hread : read code = .ok forms)
    (h : Session.Evaluates ⟨1, levels⟩ forms (initial.run [.start]).store results none t) :
    (initial.run [.start, .eval 0 levels code]).store = t := by
  have hplace : (initial.run [.start]).sessions[0]? = some 1 := rfl
  have hstep := store_step_eval_of_evaluates hplace hread h
  have hrun : (initial.run [.start, .eval 0 levels code]).store =
      ((initial.run [.start]).step (.eval 0 levels code)).store := rfl
  exact hrun.trans hstep

section

variable {p : Store → Prop}

theorem store_act {α : Type} {w : World} (h : p w.store) (place levels : Nat)
    {action : Session → Action α}
    (haction : ∀ (session : Session) (s : Store), p s → p (s.after (action session))) :
    p (w.act place levels action).store := by
  unfold act
  split
  · exact h
  · exact haction _ _ h

/-- What a new frame over the natives, a prelude and a source text leave true of the store is true
after every event. -/
theorem store_run (hstart : ∀ s : Store, p s → p (s.addFrame (some registry) []).2)
    (hprelude : ∀ (code : String) (session : Session) (s : Store), p s →
      p (s.after (session.evalPrelude code)))
    (heval : ∀ (code : String) (session : Session) (s : Store), p s →
      p (s.after (session.evalAll code)))
    {w : World} (h : p w.store) (events : List Event) : p (w.run events).store := by
  induction events generalizing w with
  | nil => exact h
  | cons event events ih =>
    refine ih (w := w.step event) ?_
    cases event with
    | start => exact hstart w.store h
    | prelude place levels code => exact store_act h place levels (hprelude code)
    | eval place levels code => exact store_act h place levels (heval code)

end

end World

end TreeLisp
