import TreeLisp.Proofs.Frames
import TreeLisp.Proofs.Mirror
import TreeLisp.Proofs.World

/-!
# Sessions do not interfere

What a session answers, and what it has bound, depends on its own events only. The world in which
it acts among other sessions and the world in which it acts alone mirror each other all the time:
the natives and the session's own frames are paired, and whatever the other sessions do is confined
to frames that are not.
-/
namespace TreeLisp

/-- The printed results of a source text, or what ended it early. -/
abbrev Answer := Except Stop (List String)

namespace World

/-- What the session at a place answers when it acts; nothing when there is no such session. -/
def answer {α : Type} (w : World) (place levels : Nat) (action : Session → Action α)
    (print : α → List String) : List Answer :=
  match w.sessions[place]? with
  | none => []
  | some scope =>
    match (action ⟨scope, levels⟩).run w.store with
    | .ok a _ => [.ok (print a)]
    | .error e _ => [.error e]

def hear (w : World) (place : Nat) : Event → List Answer
  | .start => []
  | .prelude actor levels code =>
    if actor = place then w.answer place levels (·.evalPrelude code) fun _ => [] else []
  | .eval actor levels code =>
    if actor = place then w.answer place levels (·.evalAll code) fun vs => vs.map Value.text else []

/-- All that the session at a place answers, in order. -/
def heard (place : Nat) : World → List Event → List Answer
  | _, [] => []
  | w, event :: later => w.hear place event ++ heard place (w.step event) later

/-- The bindings of the session at a place, as they print. -/
def shown (w : World) (place : Nat) : Option String :=
  (w.sessions[place]?).map w.store.frameText

end World

namespace Event

def starts : Event → Nat
  | .start => 1
  | _ => 0

/-- What the event is to the session at a place, when so many sessions have been started before.
That session is taken to be the first one. -/
def own (place started : Nat) : Event → List Event
  | .start => if started = place then [.start] else []
  | .prelude actor levels code => if actor = place then [.prelude 0 levels code] else []
  | .eval actor levels code => if actor = place then [.eval 0 levels code] else []

/-- The events without those of all other sessions. -/
def alone (place : Nat) : Nat → List Event → List Event
  | _, [] => []
  | started, event :: later =>
    event.own place started ++ alone place (started + event.starts) later

end Event

theorem serial_effect : Effect fun _ s t => s.serial ≤ t.serial where
  refl _ _ := Nat.le_refl _
  trans h k := Nat.le_trans h k
  record _ _ _ := Nat.le_refl _
  serial _ _ := Nat.le_succ _
  set _ _ _ _ := Nat.le_refl _
  child _ _ _ _ _ h := h

/-- What happens in a frame that is set apart does not show in the mirror. -/
theorem Store.Mirrored.confined {apart : FrameId → Prop} {π : Pairing} {s s' t : Store}
    (h : Mirrored apart π s t) {scope : FrameId} (hscope : apart scope)
    (hconfined : s.Confined scope s') (hserial : s.serial ≤ s'.serial) :
    Mirrored apart π s' t where
  frames {i j} hframe := by
    obtain ⟨f, g, hf, hg, hmirrored⟩ := h.frames hframe
    have hne : i ≠ scope := by
      rintro rfl
      exact (h.apart i hscope).2 j hframe
    refine ⟨f, g, ?_, hg, hmirrored⟩
    rw [hconfined.others i (h.lt_size hframe).1 hne, hf]
  oneToOne := h.oneToOne
  distinct := h.distinct
  serials hmn := ⟨Nat.lt_of_lt_of_le (h.serials hmn).1 hserial, (h.serials hmn).2⟩
  apart i hi := ⟨Nat.lt_of_lt_of_le (h.apart i hi).1 hconfined.size_le, (h.apart i hi).2⟩

theorem nativeBindings_bound (π : Pairing) : AllBound anything π nativeBindings nativeBindings := by
  refine List.forall₂_same.mpr fun b hb => ?_
  rcases mem_nativeBindings hb with ⟨n, rfl⟩ | ⟨s, rfl⟩
  · exact ⟨rfl, trivial, (Alike.native n).stored rfl⟩
  · exact ⟨rfl, trivial, (Alike.sugar s).stored rfl⟩

namespace World

def elsewhere (w : World) (place : Nat) (i : FrameId) : Prop :=
  ∃ k, k ≠ place ∧ w.sessions[k]? = some i

/-- The second world is what the first one is to the session at a place, which in the second has
place zero. -/
structure Twins (place : Nat) (π : Pairing) (w u : World) : Prop where
  stores : Store.Mirrored (w.elsewhere place) π w.store u.store
  natives : π.frame registry registry
  sessions : Option.Rel π.frame w.sessions[place]? u.sessions[0]?

theorem act_sessions {α : Type} (w : World) (place levels : Nat) (action : Session → Action α) :
    (w.act place levels action).sessions = w.sessions := by
  unfold act
  split <;> rfl

theorem step_start (w : World) : w.step .start =
    ⟨(w.store.addFrame (some registry) []).2, w.sessions ++ [w.store.frames.size]⟩ := rfl

theorem sessions_step (w : World) (event : Event) :
    (w.step event).sessions.length = w.sessions.length + event.starts := by
  cases event with
  | start =>
    rw [step_start, List.length_append]
    rfl
  | prelude actor levels code => exact congrArg List.length (w.act_sessions actor levels _)
  | eval actor levels code => exact congrArg List.length (w.act_sessions actor levels _)

theorem run_append (w : World) (events later : List Event) :
    w.run (events ++ later) = (w.run events).run later :=
  List.foldl_append

theorem heard_append (place : Nat) (w : World) (events later : List Event) :
    heard place w (events ++ later) = heard place w events ++ heard place (w.run events) later := by
  induction events generalizing w with
  | nil => rfl
  | cons event events ih =>
    rw [List.cons_append, heard, ih, heard, List.append_assoc]
    rfl

theorem getElem?_sessions_start {sessions : List FrameId} {k : Nat} (hk : k ≠ sessions.length)
    (scope : FrameId) : (sessions ++ [scope])[k]? = sessions[k]? := by
  rcases Nat.lt_or_gt_of_ne hk with hlt | hgt
  · exact List.getElem?_append_left hlt
  · have hlength : (sessions ++ [scope]).length ≤ k := by
      rw [List.length_append]
      exact hgt
    rw [List.getElem?_eq_none hlength, List.getElem?_eq_none (Nat.le_of_lt hgt)]

namespace Twins

variable {α : Type} {place : Nat} {π : Pairing} {w u : World}

theorem own (h : Twins place π w u) (levels : Nat) {action : Session → Action α}
    (post : Pairing → α → α → Prop) {print : α → List String}
    (haction : ∀ i j, π.frame i j →
      Parallel (Store.Mirrored (w.elsewhere place)) (Stop.Excused never) π post
        (action ⟨i, levels⟩) (action ⟨j, levels⟩))
    (hprint : ∀ ρ a b, post ρ a b → print a = print b) :
    w.answer place levels action print = u.answer 0 levels action print ∧
      ∃ ρ, Twins place ρ (w.act place levels action) (u.act 0 levels action) := by
  have hsessions := h.sessions
  cases hw : w.sessions[place]? with
  | none =>
    have hu : u.sessions[0]? = none := by
      rw [hw] at hsessions
      generalize u.sessions[0]? = found at hsessions ⊢
      cases hsessions
      rfl
    refine ⟨by simp only [answer, hw, hu], π, ?_⟩
    simp only [act, hw, hu]
    exact h
  | some i =>
    obtain ⟨j, hu, hframe⟩ : ∃ j, u.sessions[0]? = some j ∧ π.frame i j := by
      rw [hw] at hsessions
      generalize u.sessions[0]? = found at hsessions ⊢
      cases hsessions with
      | some hframe => exact ⟨_, rfl, hframe⟩
    have houtcomes := haction i j hframe w.store u.store h.stores
    simp only [answer, act, hw, hu, Store.after]
    generalize (action ⟨i, levels⟩).run w.store = r, (action ⟨j, levels⟩).run u.store = r'
      at houtcomes ⊢
    cases houtcomes with
    | @result ρ s t a b hle hstore hpost =>
      refine ⟨?_, ρ, hstore, Pairing.frame_mono hle h.natives, ?_⟩
      · simp only [hprint ρ a b hpost]
      simp only [hw, hu]
      exact .some (Pairing.frame_mono hle hframe)
    | @fault ρ s t e hle hstore =>
      refine ⟨rfl, ρ, hstore, Pairing.frame_mono hle h.natives, ?_⟩
      simp only [hw, hu]
      exact .some (Pairing.frame_mono hle hframe)
    | excused he => exact absurd he (Stop.not_excused _)

theorem other (h : Twins place π w u) {actor : Nat} (hactor : actor ≠ place) (levels : Nat)
    {action : Session → Action α}
    (hconfined : ∀ session, Keeps (Store.Confined session.scope) (action session))
    (hserial : ∀ session, Keeps (fun s t => s.serial ≤ t.serial) (action session)) :
    Twins place π (w.act actor levels action) u := by
  unfold act
  split
  · exact h
  · next scope hscope =>
    refine ⟨?_, h.natives, h.sessions⟩
    exact h.stores.confined ⟨actor, hactor, hscope⟩ (hconfined ⟨scope, levels⟩ w.store)
      (hserial ⟨scope, levels⟩ w.store)

theorem start_other (h : Twins place π w u) (hplace : place ≠ w.sessions.length) :
    Twins place π (w.step .start) u := by
  rw [step_start]
  refine ⟨(h.stores.addFrame_apart (some registry) []).apart_mono ?_, h.natives, ?_⟩
  · rintro i ⟨k, hk, hi⟩
    by_cases hlast : k = w.sessions.length
    · rw [hlast, List.getElem?_concat_length] at hi
      exact .inr (Option.some.inj hi).symm
    · rw [getElem?_sessions_start hlast] at hi
      exact .inl ⟨k, hk, hi⟩
  · rw [getElem?_sessions_start hplace]
    exact h.sessions

theorem start_own (h : Twins place π w u) (hplace : place = w.sessions.length) :
    ∃ ρ, Twins place ρ (w.step .start) (u.step .start) := by
  have hnone : w.sessions[place]? = none := by simp [hplace]
  have halone : u.sessions = [] := by
    have hsessions := h.sessions
    rw [hnone] at hsessions
    cases hu : u.sessions with
    | nil => rfl
    | cons scope rest =>
      rw [hu] at hsessions
      cases hsessions
  obtain ⟨ρ, hle, hframe, hstore⟩ :=
    (mirrored_simulation (w.elsewhere place)).addFrame h.stores h.natives (.nil)
  rw [step_start, step_start, halone]
  refine ⟨ρ, hstore.apart_mono ?_, Pairing.frame_mono hle h.natives, ?_⟩
  · rintro i ⟨k, hk, hi⟩
    rw [getElem?_sessions_start (hplace ▸ hk)] at hi
    exact ⟨k, hk, hi⟩
  · rw [hplace, List.getElem?_concat_length]
    exact .some hframe

theorem own_eval (h : Twins place π w u) (levels : Nat) (code : String) :
    w.answer place levels (·.evalAll code) (·.map Value.text) =
        u.answer 0 levels (·.evalAll code) (·.map Value.text) ∧
      ∃ ρ, Twins place ρ (w.act place levels (·.evalAll code))
        (u.act 0 levels (·.evalAll code)) := by
  refine h.own levels (fun ρ => List.Forall₂ (Alike anything ρ)) (fun i j hframe => ?_) ?_
  · exact evalAll_parallel (eval_together (mirrored_simulation _) levels) (fun _ => trivial)
      hframe code
  · intro ρ vs ws hvs
    induction hvs with
    | nil => rfl
    | cons hvw _ ih => rw [List.map_cons, List.map_cons, hvw.text_eq, ih]

theorem own_prelude (h : Twins place π w u) (levels : Nat) (code : String) :
    w.answer place levels (·.evalPrelude code) (fun _ => []) =
        u.answer 0 levels (·.evalPrelude code) (fun _ => []) ∧
      ∃ ρ, Twins place ρ (w.act place levels (·.evalPrelude code))
        (u.act 0 levels (·.evalPrelude code)) := by
  refine h.own levels (fun _ _ _ => True) (fun i j hframe => ?_) fun _ _ _ _ => rfl
  exact evalPrelude_parallel (mirrored_simulation _)
    (eval_together (mirrored_simulation _) levels) (fun _ => trivial) hframe code

/-- A step of the first world is nothing to the session or a step of the second. -/
theorem step (h : Twins place π w u) (event : Event) :
    w.hear place event = heard 0 u (event.own place w.sessions.length) ∧
      ∃ ρ, Twins place ρ (w.step event) (u.run (event.own place w.sessions.length)) := by
  cases event with
  | start =>
    by_cases hplace : w.sessions.length = place
    · simp only [Event.own, if_pos hplace]
      exact ⟨rfl, h.start_own hplace.symm⟩
    · simp only [Event.own, if_neg hplace]
      exact ⟨rfl, π, h.start_other (Ne.symm hplace)⟩
  | prelude actor levels code =>
    by_cases hactor : actor = place
    · subst hactor
      obtain ⟨hanswer, htwins⟩ := h.own_prelude levels code
      simp only [Event.own, if_true, heard, hear, hanswer, List.append_nil, true_and]
      exact htwins
    · simp only [Event.own, if_neg hactor, hear]
      exact ⟨rfl, π, h.other hactor levels (Store.confined_effect.evalPrelude_keeps · code)
        (serial_effect.evalPrelude_keeps · code)⟩
  | eval actor levels code =>
    by_cases hactor : actor = place
    · subst hactor
      obtain ⟨hanswer, htwins⟩ := h.own_eval levels code
      simp only [Event.own, if_true, heard, hear, hanswer, List.append_nil, true_and]
      exact htwins
    · simp only [Event.own, if_neg hactor, hear]
      exact ⟨rfl, π, h.other hactor levels (Store.confined_effect.evalAll_keeps · code)
        (serial_effect.evalAll_keeps · code)⟩

-- The number of sessions that the world has tells which start is the session's own.
theorem run (h : Twins place π w u) (events : List Event) :
    heard place w events = heard 0 u (Event.alone place w.sessions.length events) ∧
      ∃ ρ, Twins place ρ (w.run events) (u.run (Event.alone place w.sessions.length events)) := by
  induction events generalizing w u π with
  | nil => exact ⟨rfl, π, h⟩
  | cons event later ih =>
    obtain ⟨hhear, ρ, htwins⟩ := h.step event
    obtain ⟨hheard, hlater⟩ := ih htwins
    rw [sessions_step] at hheard hlater
    rw [Event.alone, heard_append, run_append, heard, hhear, hheard]
    exact ⟨rfl, hlater⟩

theorem initial (place : Nat) : ∃ ρ, Twins place ρ World.initial World.initial := by
  refine ⟨⟨fun i j => i = registry ∧ j = registry, fun _ _ => False⟩, ?_, ⟨rfl, rfl⟩, .none⟩
  constructor
  · rintro i j ⟨rfl, rfl⟩
    exact ⟨⟨none, nativeBindings⟩, ⟨none, nativeBindings⟩, rfl, rfl, nativeBindings_bound _, .none⟩
  · rintro i j i' j' ⟨rfl, rfl⟩ ⟨rfl, rfl⟩
    exact iff_of_true rfl rfl
  · exact fun h => h.elim
  · exact fun h => h.elim
  · rintro i ⟨k, -, hk⟩
    simp [World.initial] at hk

theorem shown_eq (h : Twins place π w u) : w.shown place = u.shown 0 := by
  have hsessions := h.sessions
  unfold shown
  generalize w.sessions[place]? = i, u.sessions[0]? = j at hsessions ⊢
  cases hsessions with
  | none => rfl
  | some hframe => exact congrArg some (h.stores.frameText_eq hframe)

end Twins

end World

/-- Among any other sessions, whatever these evaluate and define in between, a session gives the
answers that it gives alone, and has the bindings that it has alone. -/
theorem sessions_isolated (place : Nat) (events : List Event) :
    World.initial.heard place events = World.initial.heard 0 (Event.alone place 0 events) ∧
      (World.initial.run events).shown place =
        (World.initial.run (Event.alone place 0 events)).shown 0 := by
  obtain ⟨π, hinitial⟩ := World.Twins.initial place
  obtain ⟨hheard, ρ, htwins⟩ := hinitial.run events
  exact ⟨hheard, htwins.shown_eq⟩

end TreeLisp
