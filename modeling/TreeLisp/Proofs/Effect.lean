import TreeLisp.Proofs.Run

/-!
# What an evaluation can do to the store

An evaluation works on the store by five operations only: it writes to the journal, takes a serial
number, binds a name in the frame it runs in, makes a frame, and runs in a frame it has made. A
relation that allows for these five, and that can be chained, relates the store before every
evaluation to the store after it, however the evaluation ends.
-/
namespace TreeLisp

/-- Every run relates the store before it to the store after it. -/
def Keeps {ε α : Type} (R : Store → Store → Prop) (m : EStateM ε Store α) : Prop :=
  ∀ s, R s (s.after m)

/-- A relation between the stores before and after a run in a frame. -/
structure Effect (R : FrameId → Store → Store → Prop) : Prop where
  refl (scope : FrameId) (s : Store) : R scope s s
  trans {scope : FrameId} {s t u : Store} (h : R scope s t) (k : R scope t u) : R scope s u
  record (scope : FrameId) (s : Store) (r : Record) : R scope s (s.addRecord r)
  serial (scope : FrameId) (s : Store) : R scope s { s with serial := s.serial + 1 }
  set (scope : FrameId) (s : Store) (name : String) (v : Value) : R scope s (s.set scope name v)
  /-- A run in a new frame counts as a run in any other frame. -/
  child (scope parent : FrameId) (bindings : Bindings) (s t : Store)
    (h : R s.frames.size (s.addFrame (some parent) bindings).2 t) : R scope s t

namespace Effect

variable {R : FrameId → Store → Store → Prop} {ε α β : Type}

theorem keeps_pure (h : Effect R) (scope : FrameId) (a : α) :
    Keeps (R scope) (pure a : EStateM ε Store α) :=
  fun s => h.refl scope s

theorem keeps_throw (h : Effect R) (scope : FrameId) (e : ε) :
    Keeps (R scope) (throw e : EStateM ε Store α) :=
  fun s => h.refl scope s

theorem keeps_bind (h : Effect R) {scope : FrameId} {m : EStateM ε Store α}
    {k : α → EStateM ε Store β} (hm : Keeps (R scope) m) (hk : ∀ a, Keeps (R scope) (k a)) :
    Keeps (R scope) (m >>= k) := by
  intro s
  have hs := hm s
  cases hr : m.run s with
  | ok a t =>
    have hst : R scope s t := by simpa only [Store.after, hr] using hs
    have heq : s.after (m >>= k) = t.after (k a) := by
      simp only [Store.after, EStateM.run_bind, hr]
    rw [heq]
    exact h.trans hst (hk a t)
  | error f t =>
    have heq : s.after (m >>= k) = s.after m := by
      simp only [Store.after, EStateM.run_bind, hr]
    rw [heq]
    exact hs

theorem strict_pure (h : Effect R) (scope : FrameId) (a : α) :
    Keeps (R scope) (pure a : Strict α).run :=
  h.keeps_pure scope _

theorem strict_fail (h : Effect R) (scope : FrameId) (p : Problem) :
    Keeps (R scope) (Strict.fail p : Strict α).run :=
  h.keeps_pure scope _

theorem strict_fault (h : Effect R) (scope : FrameId) (f : Fault) :
    Keeps (R scope) (Strict.fault f : Strict α).run :=
  fun s => h.refl scope s

theorem strict_bind (h : Effect R) {scope : FrameId} {m : Strict α} {k : α → Strict β}
    (hm : Keeps (R scope) m.run) (hk : ∀ a, Keeps (R scope) (k a).run) :
    Keeps (R scope) (m >>= k).run := by
  rw [ExceptT.run_bind]
  refine h.keeps_bind hm ?_
  intro r
  cases r with
  | ok a => exact hk a
  | error message => exact h.keeps_pure scope _

theorem strict_lift (h : Effect R) {scope : FrameId} {m : Run α} (hm : Keeps (R scope) m) :
    Keeps (R scope) (liftM m : Strict α).run :=
  h.keeps_bind hm fun _ => h.keeps_pure scope _

theorem strict_accept (h : Effect R) (scope : FrameId) (v : Value) :
    Keeps (R scope) (Strict.accept v).run := by
  unfold Strict.accept
  split <;> exact h.keeps_pure scope _

theorem strict_need (h : Effect R) {scope : FrameId} {m : Run Value} (hm : Keeps (R scope) m) :
    Keeps (R scope) (Strict.need m).run :=
  h.strict_bind (h.strict_lift hm) fun v => h.strict_accept scope v

theorem keeps_settle (h : Effect R) {scope : FrameId} {m : Strict Value}
    (hm : Keeps (R scope) m.run) : Keeps (R scope) (Strict.settle m) := by
  refine h.keeps_bind hm ?_
  intro r
  cases r <;> exact h.keeps_pure scope _

theorem keeps_record (h : Effect R) (scope : FrameId) (r : Record) :
    Keeps (R scope) (Run.record r) :=
  fun s => h.record scope s r

theorem keeps_newSerial (h : Effect R) (scope : FrameId) : Keeps (R scope) Run.newSerial :=
  fun s => h.serial scope s

theorem keeps_setName (h : Effect R) (scope : FrameId) (name : String) (v : Value) :
    Keeps (R scope) (Run.setName scope name v) :=
  fun s => h.set scope s name v

theorem keeps_getName (h : Effect R) (scope frame : FrameId) (name : String) :
    Keeps (R scope) (Run.getName? frame name) :=
  fun s => h.refl scope s

/-- What happens in a new frame counts for every frame alike. -/
theorem keeps_newFrame_bind (h : Effect R) (scope parent : FrameId) (bindings : Bindings)
    {k : FrameId → Run α} (hk : ∀ frame, Keeps (R frame) (k frame)) :
    Keeps (R scope) (Run.newFrame parent bindings >>= k) :=
  fun s => h.child scope parent bindings s _ (hk s.frames.size _)

theorem strict_newFrame_bind (h : Effect R) (scope parent : FrameId) (bindings : Bindings)
    {k : FrameId → Strict α} (hk : ∀ frame, Keeps (R frame) (k frame).run) :
    Keeps (R scope) (liftM (Run.newFrame parent bindings) >>= k : Strict α).run :=
  h.keeps_newFrame_bind scope parent bindings hk

end Effect

end TreeLisp
