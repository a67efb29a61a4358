import TreeLisp.Proofs.Grounded
import TreeLisp.Proofs.Isolation

/-!
# Calls can be repeated

A call on values works in frames of its own, so all earlier frames are as they were when it is over.
The second of two equal calls therefore finds what the first one found. What the first one has left
behind, new frames and used serial numbers, is out of reach: a grounded store refers to nothing that
is not in it. So no function keeps anything from one call for the next.
-/
namespace TreeLisp

/-- What runs in parallel with itself leaves a grounded store grounded, and all frames in it. -/
theorem Parallel.grounded_after {ε α : Type} {excused : ε → Prop} {post : Pairing → α → α → Prop}
    {m : EStateM ε Store α} {s : Store} (hexcused : ∀ e, ¬ excused e) (hs : s.Grounded)
    (h : Parallel SameGrounded excused (.ofStore s) post m m) :
    (s.after m).Grounded ∧ s.frames.size ≤ (s.after m).frames.size := by
  have hself : Store.Mirrored nowhere (.ofStore s) s s :=
    hs.mirrored (fun _ _ => rfl) (Nat.le_refl _)
  have houtcomes := h s s ⟨rfl, rfl, hself⟩
  have hgrounded {ρ : Pairing} {t u : Store} (hle : .ofStore s ≤ ρ) (hstore : SameGrounded ρ t u) :
      t.Grounded ∧ s.frames.size ≤ t.frames.size := by
    obtain ⟨rfl, rfl, hmirrored⟩ := hstore
    refine ⟨Store.grounded_of_mirrored hmirrored, ?_⟩
    apply Nat.le_of_not_lt
    intro hlt
    exact Nat.lt_irrefl _ (hle.1 t.frames.size t.frames.size ⟨rfl, hlt⟩).2
  unfold Store.after
  generalize m.run s = r at houtcomes ⊢
  cases houtcomes with
  | result hle hstore _ => exact hgrounded hle hstore
  | fault _ hle hstore => exact hgrounded hle hstore
  | excused he => exact absurd he (hexcused _)

theorem Parallel.outcome_map {ε α β γ : Type} {R : Correspondence} {excused : ε → Prop}
    {π : Pairing} {post : Pairing → α → β → Prop} {m : EStateM ε Store α} {m' : EStateM ε Store β}
    (h : Parallel R excused π post m m') (hexcused : ∀ e, ¬ excused e) {f : α → γ} {g : β → γ}
    (hshow : ∀ ρ a b, post ρ a b → f a = g b) {s t : Store} (hst : R π s t) :
    (s.outcome m).map f = (t.outcome m').map g := by
  have houtcomes := h s t hst
  unfold Store.outcome
  generalize m.run s = r, m'.run t = r' at houtcomes ⊢
  cases houtcomes with
  | result _ _ hpost => exact congrArg Except.ok (hshow _ _ _ hpost)
  | fault _ _ _ => rfl
  | excused he => exact absurd he (hexcused _)

namespace World

/-- The store is grounded and has the frames of all sessions. -/
structure Grounded (w : World) : Prop where
  store : w.store.Grounded
  sessions (scope : FrameId) (h : scope ∈ w.sessions) : scope < w.store.frames.size

theorem Grounded.initial : World.initial.Grounded := by
  have hframe {i : FrameId} {frame : Frame} (h : Store.initial.frames[i]? = some frame) :
      frame = ⟨none, nativeBindings⟩ := by
    rw [Store.initial, List.getElem?_toArray] at h
    exact List.mem_singleton.mp (List.mem_of_getElem? h)
  refine ⟨⟨?_, ?_⟩, fun _ h => absurd h List.not_mem_nil⟩
  · intro i frame p h hp
    rw [hframe h] at hp
    cases hp
  · intro i frame h b hb
    rw [hframe h] at hb
    rcases mem_nativeBindings hb with ⟨n, rfl⟩ | ⟨n, rfl⟩
    · exact Value.throughout_native.mpr trivial
    · exact Value.throughout_sugar.mpr trivial

theorem Grounded.start {w : World} (h : w.Grounded) (hregistry : registry < w.store.frames.size) :
    (w.step .start).Grounded := by
  have hself : Store.Mirrored nowhere (.ofStore w.store) w.store w.store :=
    h.store.mirrored (fun _ _ => rfl) (Nat.le_refl _)
  obtain ⟨ρ, hle, hnew, hρ, -, hmirrored⟩ := sameGrounded_simulation.addFrame
    ⟨rfl, rfl, hself⟩ (i := registry) (j := registry) ⟨rfl, hregistry⟩ .nil
  rw [step_start]
  subst hρ
  refine ⟨Store.grounded_of_mirrored hmirrored, ?_⟩
  intro scope hscope
  rcases List.mem_append.mp hscope with hold | hlast
  · exact (hle.1 scope scope ⟨rfl, h.sessions scope hold⟩).2
  · exact List.mem_singleton.mp hlast ▸ hnew.2

theorem Grounded.act {α : Type} {w : World} (h : w.Grounded) (place levels : Nat)
    (action : Session → Action α) {post : Pairing → α → α → Prop}
    (haction : ∀ π session, π.frame session.scope session.scope →
      Parallel SameGrounded (Stop.Excused never) π post (action session) (action session)) :
    (w.act place levels action).Grounded := by
  unfold World.act
  split
  · exact h
  · next scope hscope =>
    have hthere : scope < w.store.frames.size := h.sessions scope (List.mem_of_getElem? hscope)
    obtain ⟨hgrounded, hsize⟩ := Parallel.grounded_after Stop.not_excused h.store
      (haction (.ofStore w.store) ⟨scope, levels⟩ ⟨rfl, hthere⟩)
    exact ⟨hgrounded, fun other hother => Nat.lt_of_lt_of_le (h.sessions other hother) hsize⟩

theorem Grounded.step {w : World} (h : w.Grounded) (hintact : w.Intact) (event : Event) :
    (w.step event).Grounded := by
  cases event with
  | start => exact h.start hintact.size_pos
  | prelude place levels code =>
    apply h.act place levels fun session => session.evalPrelude code
    intro π session hframe
    exact evalPrelude_parallel sameGrounded_simulation (eval_together sameGrounded_simulation _)
      (fun _ => trivial) hframe code
  | eval place levels code =>
    apply h.act place levels fun session => session.evalAll code
    intro π session hframe
    exact evalAll_parallel (eval_together sameGrounded_simulation _) (fun _ => trivial) hframe code

theorem Grounded.run {w : World} (h : w.Grounded) (hintact : w.Intact) (events : List Event) :
    (w.run events).Grounded := by
  induction events generalizing w with
  | nil => exact h
  | cons event events ih => exact ih (h.step hintact event) (hintact.step event)

end World

theorem callFunction_serial (bound : Nat) (f : Value) (args : List Value) (scope : FrameId)
    (s : Store) : s.serial ≤ (s.after (callFunction (call (eval bound)) f args scope)).serial :=
  serial_effect.callFunction_keeps
    (serial_effect.call_keeps (serial_effect.eval_keeps bound)) scope scope f args s

/-- Calling a function on values a second time ends as the first call did, with the same fault or
with a value that prints the same. This is so in every store that refers to nothing outside, for
all functions, values and frames that the store has, and all stores that any sessions come to are
such stores. -/
theorem calls_repeatable :
    (∀ events : List Event, (World.initial.run events).store.Grounded) ∧
    (∀ (s : Store) (bound : Nat) (f : Value) (args : List Value) (scope : FrameId),
      s.Grounded → s.Holds f → (∀ v ∈ args, s.Holds v) → scope < s.frames.size →
        let run := callFunction (call (eval bound)) f args scope
        ((s.after run).outcome run).map Value.text = (s.outcome run).map Value.text) := by
  constructor
  · intro events
    exact (World.Grounded.initial.run World.Intact.initial events).store
  · intro s bound f args scope hs hf hargs hscope run
    have hmirrored : Store.Mirrored nowhere (.ofStore s) s (s.after run) :=
      hs.mirrored (callFunction_untouched bound f args scope s)
        (callFunction_serial bound f args scope s)
    have hcalls : CallsTogether anything (Store.Mirrored nowhere) never (call (eval bound))
        (call (eval bound)) :=
      call_parallel (mirrored_simulation _) (eval_together (mirrored_simulation _) bound)
    have hargs' : AllStored anything (.ofStore s) args args :=
      List.forall₂_same.mpr fun v hv => (hargs v hv).stored
    have hframe : (Pairing.ofStore s).frame scope scope := ⟨rfl, hscope⟩
    have hrun : Parallel (Store.Mirrored nowhere) never (.ofStore s) (Alike anything) run run :=
      hcalls.callFunction_parallel (mirrored_simulation _) hf.stored hargs' hframe
    exact (hrun.outcome_map (fun e he => he) (fun _ _ _ h => h.text_eq) hmirrored).symm

/-- The second call makes a function of its own, which again defines a name and looks it up. -/
theorem calls_repeatable_inner_definition :
    let form : Value :=
      .list [.list [.symbol "fn", .list [.symbol "x"],
        .list [.symbol "do", .list [.symbol "def", .symbol "y", .symbol "x"], .symbol "y"]],
        .symbol "true"]
    let s := (World.initial.run [.start]).store
    let run := callFunction (call (eval 9)) (.native (.form .eval)) [form] 1
    (s.Grounded ∧ s.Holds (.native (.form .eval)) ∧ (∀ v ∈ [form], s.Holds v) ∧
        1 < s.frames.size) ∧
      (s.outcome run).map Value.text = .ok "true" ∧
      ((s.after run).outcome run).map Value.text = .ok "true" := by
  intro form s run
  have hs : s.Grounded := calls_repeatable.1 [.start]
  have hf : s.Holds (.native (.form .eval)) := Value.throughout_native.mpr trivial
  have hargs : ∀ v ∈ [form], s.Holds v := by
    simp only [Store.Holds, form, Value.throughout_list, Value.throughout_symbol,
      List.forall_mem_cons]
    simp [Value.symbol, Value.Housed]
  have hscope : 1 < s.frames.size := by decide
  have hfirst : (s.outcome run).map Value.text = .ok "true" := rfl
  have hsecond := calls_repeatable.2 s 9 _ [form] 1 hs hf hargs hscope
  exact ⟨⟨hs, hf, hargs, hscope⟩, hfirst, hsecond.trans hfirst⟩

end TreeLisp
