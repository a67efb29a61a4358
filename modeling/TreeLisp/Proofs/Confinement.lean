import Mathlib.Tactic.Common
import TreeLisp.Proofs.Call
import TreeLisp.Proofs.EvalEffect
import TreeLisp.Proofs.World

/-!
# Evaluation writes to one frame only

An evaluation changes no frame that was there before except the one it runs in, and there it only
adds names and rebinds them. A part of the evaluator that works in a frame of its own therefore
changes no earlier frame at all, and the frame of the natives outlives every run of any number of
sessions unchanged.
-/
namespace TreeLisp

theorem Bindings.lookup_insert_isSome (bindings : Bindings) (name other : String) (v : Value)
    (h : (bindings.lookup other).isSome = true) :
    ((bindings.insert name v).lookup other).isSome = true := by
  induction bindings with
  | nil => simp at h
  | cons entry rest ih =>
    obtain ⟨key, old⟩ := entry
    by_cases hkey : key = name
    · subst hkey
      by_cases hother : other = key
      · simp [Bindings.insert, hother]
      · simpa [Bindings.insert, List.lookup_cons, beq_eq_false_iff_ne.mpr hother] using h
    · by_cases hother : other = key
      · simp [Bindings.insert, hkey, hother]
      · have hrest : (rest.lookup other).isSome = true := by
          simpa [List.lookup_cons, beq_eq_false_iff_ne.mpr hother] using h
        simpa [Bindings.insert, List.lookup_cons, hkey, beq_eq_false_iff_ne.mpr hother] using ih hrest

/-- The frames of the first store are in the second as they were, apart from one frame, which has
kept its parent and all its names. -/
structure Store.Confined (scope : FrameId) (s t : Store) : Prop where
  others (id : FrameId) (hid : id < s.frames.size) (hne : id ≠ scope) :
    t.frames[id]? = s.frames[id]?
  parents (id : FrameId) (hid : id < s.frames.size) :
    (t.frames[id]?).map Frame.parent = (s.frames[id]?).map Frame.parent
  names (name : String) (h : s.bindsOwn scope name = true) : t.bindsOwn scope name = true

/-- All frames of the first store are in the second as they were. -/
def Store.Untouched (s t : Store) : Prop :=
  ∀ id, id < s.frames.size → t.frames[id]? = s.frames[id]?

namespace Store

theorem lt_size_of_bindsOwn {s : Store} {id : FrameId} {name : String}
    (h : s.bindsOwn id name = true) : id < s.frames.size := by
  by_contra hid
  have hnone : s.frames[id]? = none := Array.getElem?_eq_none_iff.mpr (Nat.le_of_not_lt hid)
  simp [bindsOwn, hnone] at h

theorem bindsOwn_congr {s t : Store} {id : FrameId} (h : t.frames[id]? = s.frames[id]?)
    (name : String) : t.bindsOwn id name = s.bindsOwn id name := by
  simp only [bindsOwn, h]

namespace Confined

theorem refl (scope : FrameId) (s : Store) : Confined scope s s :=
  ⟨fun _ _ _ => rfl, fun _ _ => rfl, fun _ h => h⟩

theorem size_le {scope : FrameId} {s t : Store} (h : Confined scope s t) :
    s.frames.size ≤ t.frames.size := by
  by_contra hlt
  have hid : t.frames.size < s.frames.size := Nat.lt_of_not_le hlt
  have hp := h.parents t.frames.size hid
  simp [hid] at hp

theorem trans {scope : FrameId} {s t u : Store} (h : Confined scope s t)
    (k : Confined scope t u) : Confined scope s u where
  others id hid hne := by
    have hid' : id < t.frames.size := Nat.lt_of_lt_of_le hid h.size_le
    rw [k.others id hid' hne, h.others id hid hne]
  parents id hid := by
    have hid' : id < t.frames.size := Nat.lt_of_lt_of_le hid h.size_le
    rw [k.parents id hid', h.parents id hid]
  names name hs := k.names name (h.names name hs)

theorem of_frames_eq {scope : FrameId} {s t : Store} (h : t.frames = s.frames) :
    Confined scope s t where
  others _ _ _ := by rw [h]
  parents _ _ := by rw [h]
  names name hs := by simpa only [bindsOwn, h] using hs

theorem set (scope : FrameId) (s : Store) (name : String) (v : Value) :
    Confined scope s (s.set scope name v) where
  others id _ hne := by
    simp [Store.set, Array.getElem?_modify, hne.symm]
  parents id hid := by
    by_cases heq : scope = id
    · subst heq
      simp only [Store.set, Array.getElem?_modify, if_pos, Option.map_map]
      rfl
    · simp [Store.set, Array.getElem?_modify, heq]
  names other hs := by
    have hid := lt_size_of_bindsOwn hs
    simp only [bindsOwn, Store.set, Array.getElem?_modify, if_pos, Option.map,
      Array.getElem?_eq_getElem hid] at hs ⊢
    exact Bindings.lookup_insert_isSome _ name other v hs

end Confined

theorem getElem?_addFrame {s : Store} {id : FrameId} (hid : id < s.frames.size)
    (parent : Option FrameId) (bindings : Bindings) :
    (s.addFrame parent bindings).2.frames[id]? = s.frames[id]? := by
  simp [addFrame, Array.getElem?_push, hid, Nat.ne_of_lt hid]

theorem Confined.child (scope parent : FrameId) (bindings : Bindings) (s t : Store)
    (h : Confined s.frames.size (s.addFrame (some parent) bindings).2 t) : Confined scope s t := by
  have hsame (id : FrameId) (hid : id < s.frames.size) : t.frames[id]? = s.frames[id]? := by
    have hid' : id < (s.addFrame (some parent) bindings).2.frames.size := by
      simpa only [addFrame, Array.size_push] using Nat.lt_succ_of_lt hid
    rw [h.others id hid' (Nat.ne_of_lt hid), getElem?_addFrame hid]
  refine ⟨fun id hid _ => hsame id hid, fun id hid => by rw [hsame id hid], ?_⟩
  intro name hs
  rw [bindsOwn_congr (hsame scope (lt_size_of_bindsOwn hs))]
  exact hs

theorem confined_effect : Effect Confined where
  refl := Confined.refl
  trans := Confined.trans
  record _ _ _ := Confined.of_frames_eq rfl
  serial _ _ := Confined.of_frames_eq rfl
  set := Confined.set
  child := Confined.child

/-- A run that is confined to whatever frame one names touches none of those there are. -/
theorem untouched_of_keeps {ε α : Type} {m : EStateM ε Store α}
    (h : ∀ scope, Keeps (Confined scope) m) (s : Store) : s.Untouched (s.after m) := by
  intro id hid
  exact (h s.frames.size s).others id hid (Nat.ne_of_lt hid)

end Store

theorem bindCall_keeps {R : FrameId → Store → Store → Prop} (h : Effect R) {ev : Evaluator}
    (hev : Respects R ev) (scope parent : FrameId) (items : List Value) :
    Keeps (R scope) (call ev (.native (.form .bind)) items parent) := by
  refine h.keeps_settle (h.strict_bind (h.checkArity_keeps scope _ items) fun _ => ?_)
  dsimp only [runNative]
  cases items.tail with
  | nil => exact h.strict_fault scope _
  | cons bindings body => exact h.runBind_keeps hev scope parent bindings body

theorem bind_untouched (bound : Nat) (head : Value) (args : List Value) (scope : FrameId)
    (s : Store) (hhead : s.denotes scope head (.native (.form .bind))) :
    s.Untouched (s.after (eval bound (.list (head :: args)) scope)) := by
  have hstay : s.Untouched s := fun _ _ => rfl
  match bound with
  | 0 => exact hstay
  | 1 =>
    have heq : s.after (eval 1 (.list (head :: args)) scope) = s := by
      rw [Store.after, eval_call_one hhead rfl]
    rw [heq]
    exact hstay
  | bound + 2 =>
    have heq : s.after (eval (bound + 2) (.list (head :: args)) scope) =
        s.after (call (eval (bound + 1)) (.native (.form .bind)) (head :: args) scope) := by
      rw [Store.after, eval_call hhead rfl, Store.after]
    rw [heq]
    refine Store.untouched_of_keeps (fun other => ?_) s
    exact bindCall_keeps Store.confined_effect (Store.confined_effect.eval_keeps _) other scope _

theorem invoke_untouched (bound : Nat) (c : Closure Value) (args : List Value) (s : Store) :
    s.Untouched (s.after (c.invoke (eval bound) args).run) := by
  refine Store.untouched_of_keeps (fun other => ?_) s
  exact Store.confined_effect.invoke_keeps (Store.confined_effect.eval_keeps bound) other c args

theorem callFunction_untouched (bound : Nat) (f : Value) (args : List Value) (scope : FrameId)
    (s : Store) : s.Untouched (s.after (callFunction (call (eval bound)) f args scope)) := by
  refine Store.untouched_of_keeps (fun other => ?_) s
  refine Store.confined_effect.callFunction_keeps ?_ other scope f args
  exact Store.confined_effect.call_keeps (Store.confined_effect.eval_keeps bound)

namespace World

/-- The natives are bound as they were at first, and no session runs in their frame. -/
structure Intact (w : World) : Prop where
  natives : w.store.frames[registry]? = some ⟨none, nativeBindings⟩
  apart (scope : FrameId) (h : scope ∈ w.sessions) : scope ≠ registry

theorem Intact.size_pos {w : World} (h : w.Intact) : registry < w.store.frames.size :=
  (Array.getElem?_eq_some_iff.mp h.natives).1

theorem Intact.initial : World.initial.Intact :=
  ⟨rfl, fun _ h => absurd h List.not_mem_nil⟩

theorem Intact.act {α : Type} {w : World} (h : w.Intact) (place levels : Nat)
    {action : Session → Action α}
    (haction : ∀ session, Keeps (Store.Confined session.scope) (action session)) :
    (w.act place levels action).Intact := by
  unfold World.act
  split
  · exact h
  · next scope hscope =>
    have hne : registry ≠ scope := (h.apart scope (List.mem_of_getElem? hscope)).symm
    have hconf := haction ⟨scope, levels⟩ w.store
    exact ⟨(hconf.others registry h.size_pos hne).trans h.natives, h.apart⟩

theorem Intact.start {w : World} (h : w.Intact) : (w.step .start).Intact := by
  have hstep : w.step .start =
      ⟨(w.store.addFrame (some registry) []).2, w.sessions ++ [w.store.frames.size]⟩ := rfl
  rw [hstep]
  refine ⟨(Store.getElem?_addFrame h.size_pos _ _).trans h.natives, ?_⟩
  intro scope hscope
  rcases List.mem_append.mp hscope with hold | hnew
  · exact h.apart scope hold
  · rw [List.mem_singleton.mp hnew]
    exact (Nat.ne_of_lt h.size_pos).symm

theorem Intact.step {w : World} (h : w.Intact) (event : Event) : (w.step event).Intact := by
  cases event with
  | start => exact h.start
  | prelude place levels code =>
    exact h.act place levels fun session => Store.confined_effect.evalPrelude_keeps session code
  | eval place levels code =>
    exact h.act place levels fun session => Store.confined_effect.evalAll_keeps session code

theorem Intact.run {w : World} (h : w.Intact) (events : List Event) : (w.run events).Intact := by
  induction events generalizing w with
  | nil => exact h
  | cons event events ih => exact ih (h.step event)

end World

/-- An evaluation, however it ends, changes no earlier frame but the one it runs in, and unbinds
nothing there. A binding form, the body of a function or of an expander and a call on values change
no earlier frame at all, and no run of any number of sessions changes the natives. -/
theorem evaluation_confined :
    (∀ (bound : Nat) (v : Value) (scope : FrameId) (s : Store),
      s.Confined scope (s.after (eval bound v scope))) ∧
    (∀ (bound : Nat) (head : Value) (args : List Value) (scope : FrameId) (s : Store),
      s.denotes scope head (.native (.form .bind)) →
        s.Untouched (s.after (eval bound (.list (head :: args)) scope))) ∧
    (∀ (bound : Nat) (c : Closure Value) (args : List Value) (s : Store),
      s.Untouched (s.after (c.invoke (eval bound) args).run)) ∧
    (∀ (bound : Nat) (f : Value) (args : List Value) (scope : FrameId) (s : Store),
      s.Untouched (s.after (callFunction (call (eval bound)) f args scope))) ∧
    (∀ events : List Event,
      (World.initial.run events).store.frames[registry]? = some ⟨none, nativeBindings⟩) := by
  refine ⟨?_, bind_untouched, invoke_untouched, callFunction_untouched, ?_⟩
  · intro bound v scope s
    exact Store.confined_effect.eval_keeps bound v scope s
  · intro events
    exact (World.Intact.initial.run events).natives

/-- In a session, a definition inside a binding form stays inside. -/
theorem evaluation_confined_inner_definition :
    let s := (World.initial.run [.start]).store
    let args : List Value := [.list [.list [.symbol "x", .symbol "1"]],
      .list [.symbol "def", .symbol "x", .symbol "2"]]
    s.denotes 1 (.symbol "let") (.native (.form .bind)) ∧
      s.Untouched (s.after (eval 9 (.list (.symbol "let" :: args)) 1)) := by
  intro s args
  have hhead : s.denotes 1 (.symbol "let") (.native (.form .bind)) := .inr ⟨"let", rfl, rfl⟩
  exact ⟨hhead, evaluation_confined.2.1 9 _ args 1 s hhead⟩

end TreeLisp
