import TreeLisp.Proofs.AlikeParts
import TreeLisp.Proofs.Run

/-!
# Runs in parallel

Two runs go in parallel when, from stores that correspond under a pairing, they end in the same way:
both with results that are related, or both with the same fault, and in stores that correspond under
a later pairing. Some faults of the first run may be excused; nothing is then said about the second.

Which stores correspond is left open. A correspondence is a simulation when names of paired frames
have the same meaning, and when it outlasts each of the things that an evaluation does to a store.
-/
namespace TreeLisp

abbrev Correspondence := Pairing → Store → Store → Prop

/-- The endings of two runs that started under the pairing `π`. -/
inductive Outcomes {ε α β : Type} (R : Correspondence) (excused : ε → Prop) (π : Pairing)
    (post : Pairing → α → β → Prop) :
    EStateM.Result ε Store α → EStateM.Result ε Store β → Prop where
  | result {ρ : Pairing} {s t : Store} {a : α} {b : β} (hle : π ≤ ρ) (hstore : R ρ s t)
      (hpost : post ρ a b) : Outcomes R excused π post (.ok a s) (.ok b t)
  | fault {ρ : Pairing} {s t : Store} (e : ε) (hle : π ≤ ρ) (hstore : R ρ s t) :
      Outcomes R excused π post (.error e s) (.error e t)
  | excused {e : ε} {s : Store} {r : EStateM.Result ε Store β} (h : excused e) :
      Outcomes R excused π post (.error e s) r

def Parallel {ε α β : Type} (R : Correspondence) (excused : ε → Prop) (π : Pairing)
    (post : Pairing → α → β → Prop) (m : EStateM ε Store α) (m' : EStateM ε Store β) : Prop :=
  ∀ s t, R π s t → Outcomes R excused π post (m.run s) (m'.run t)

inductive Settled {α β : Type} (post : α → β → Prop) :
    Except String α → Except String β → Prop where
  | value {a : α} {b : β} (h : post a b) : Settled post (.ok a) (.ok b)
  | stopped (message : String) : Settled post (.error message) (.error message)

abbrev StrictParallel {α β : Type} (R : Correspondence) (excused : Fault → Prop) (π : Pairing)
    (post : Pairing → α → β → Prop) (m : Strict α) (m' : Strict β) : Prop :=
  Parallel R excused π (fun ρ => Settled (post ρ)) m.run m'.run

section Runs

variable {ε α β γ δ : Type} {R : Correspondence} {excused : ε → Prop} {π ρ : Pairing}
  {post : Pairing → α → β → Prop} {post' : Pairing → γ → δ → Prop}

theorem Outcomes.earlier {r : EStateM.Result ε Store α} {r' : EStateM.Result ε Store β}
    (h : Outcomes R excused ρ post r r') (hle : π ≤ ρ) : Outcomes R excused π post r r' := by
  cases h with
  | result hle' hstore hpost => exact .result (le_trans hle hle') hstore hpost
  | fault e hle' hstore => exact .fault e (le_trans hle hle') hstore
  | excused h => exact .excused h

/-- Two runs in succession, where it matters how the first one has gone. -/
theorem Outcomes.bind {s t : Store} {m : EStateM ε Store α} {m' : EStateM ε Store β}
    {k : α → EStateM ε Store γ} {k' : β → EStateM ε Store δ}
    (hm : Outcomes R excused π post (m.run s) (m'.run t))
    (hk : ∀ ρ a b s' t', π ≤ ρ → R ρ s' t' → post ρ a b → m.run s = .ok a s' →
      Outcomes R excused ρ post' ((k a).run s') ((k' b).run t')) :
    Outcomes R excused π post' ((m >>= k).run s) ((m' >>= k').run t) := by
  rw [EStateM.run_bind, EStateM.run_bind]
  generalize hr : m.run s = r, m'.run t = r' at hm ⊢
  cases hm with
  | result hle hstore hpost => exact (hk _ _ _ _ _ hle hstore hpost hr).earlier hle
  | fault e hle hstore => exact .fault e hle hstore
  | excused h => exact .excused h

namespace Parallel

theorem result {a : α} {b : β} (h : post π a b) :
    Parallel R excused π post (pure a : EStateM ε Store α) (pure b : EStateM ε Store β) :=
  fun _ _ hst => .result le_rfl hst h

theorem fault (e : ε) :
    Parallel R excused π post (throw e : EStateM ε Store α) (throw e : EStateM ε Store β) :=
  fun _ _ hst => .fault e le_rfl hst

theorem bind {m : EStateM ε Store α} {m' : EStateM ε Store β} {k : α → EStateM ε Store γ}
    {k' : β → EStateM ε Store δ} (hm : Parallel R excused π post m m')
    (hk : ∀ ρ a b, π ≤ ρ → post ρ a b → Parallel R excused ρ post' (k a) (k' b)) :
    Parallel R excused π post' (m >>= k) (m' >>= k') :=
  fun s t hst => (hm s t hst).bind fun ρ a b s' t' hle hst' hab _ => hk ρ a b hle hab s' t' hst'

theorem get_bind {k : Store → EStateM ε Store α} {k' : Store → EStateM ε Store β}
    (hk : ∀ s t, R π s t → Parallel R excused π post (k s) (k' t)) :
    Parallel R excused π post (get >>= k) (get >>= k') :=
  fun s t hst => hk s t hst s t hst

end Parallel

end Runs

section StrictRuns

variable {α β γ δ : Type} {R : Correspondence} {excused : Fault → Prop} {P : Permit} {π : Pairing}
  {post : Pairing → α → β → Prop} {post' : Pairing → γ → δ → Prop}

namespace Outcomes

variable {s t : Store}

theorem strict_bind {m : Strict α} {m' : Strict β} {k : α → Strict γ} {k' : β → Strict δ}
    (hm : Outcomes R excused π (fun ρ => Settled (post ρ)) (m.run.run s) (m'.run.run t))
    (hk : ∀ ρ a b s' t', π ≤ ρ → R ρ s' t' → post ρ a b → m.run.run s = .ok (.ok a) s' →
      Outcomes R excused ρ (fun σ => Settled (post' σ)) ((k a).run.run s') ((k' b).run.run t')) :
    Outcomes R excused π (fun σ => Settled (post' σ)) ((m >>= k).run.run s)
      ((m' >>= k').run.run t) := by
  rw [ExceptT.run_bind, ExceptT.run_bind]
  refine hm.bind fun ρ a b s' t' hle hst hab hrun => ?_
  cases hab with
  | value h => exact hk ρ _ _ s' t' hle hst h hrun
  | stopped message => exact .result le_rfl hst (.stopped message)

theorem settle {m m' : Strict Value}
    (hm : Outcomes R excused π (fun ρ => Settled (Alike P ρ)) (m.run.run s) (m'.run.run t)) :
    Outcomes R excused π (Alike P) ((Strict.settle m).run s) ((Strict.settle m').run t) := by
  refine hm.bind fun ρ a b s' t' _ hst hab _ => ?_
  cases hab with
  | value h => exact .result le_rfl hst h
  | stopped message => exact .result le_rfl hst (.error message)

end Outcomes

namespace StrictParallel

theorem value {a : α} {b : β} (h : post π a b) :
    StrictParallel R excused π post (pure a) (pure b) :=
  Parallel.result (.value h)

theorem stopped (message : String) :
    StrictParallel R excused π post (throw message : Strict α) (throw message : Strict β) :=
  Parallel.result (.stopped message)

theorem fail {p q : Problem} (h : p.message = q.message) :
    StrictParallel R excused π post (Strict.fail p) (Strict.fail q) := by
  unfold Strict.fail
  rw [h]
  exact stopped q.message

theorem fault (f : Fault) :
    StrictParallel R excused π post (Strict.fault f) (Strict.fault f) :=
  fun _ _ hst => .fault f le_rfl hst

theorem bind {m : Strict α} {m' : Strict β} {k : α → Strict γ} {k' : β → Strict δ}
    (hm : StrictParallel R excused π post m m')
    (hk : ∀ ρ a b, π ≤ ρ → post ρ a b → StrictParallel R excused ρ post' (k a) (k' b)) :
    StrictParallel R excused π post' (m >>= k) (m' >>= k') :=
  fun s t hst => (hm s t hst).strict_bind fun ρ a b s' t' hle hst' hab _ =>
    hk ρ a b hle hab s' t' hst'

theorem imp {m : Strict α} {m' : Strict β} {post' : Pairing → α → β → Prop}
    (hm : StrictParallel R excused π post m m') (himp : ∀ ρ a b, post ρ a b → post' ρ a b) :
    StrictParallel R excused π post' m m' := by
  rw [← bind_pure m, ← bind_pure m']
  exact hm.bind fun ρ a b _ hab => value (himp ρ a b hab)

theorem lift {m : Run α} {m' : Run β} (hm : Parallel R excused π post m m') :
    StrictParallel R excused π post (liftM m) (liftM m') :=
  Parallel.bind hm fun _ _ _ _ hab => Parallel.result (.value hab)

theorem accept {v w : Value} (h : Alike P π v w) :
    StrictParallel R excused π (Stored P) (Strict.accept v) (Strict.accept w) := by
  cases hv : v.isError with
  | false =>
    have hw : w.isError = false := h.isError_eq.symm.trans hv
    rw [Strict.accept_eq_pure hv, Strict.accept_eq_pure hw]
    exact value (h.stored hv)
  | true =>
    cases h with
    | error message => exact stopped message
    | _ => simp [Value.isError] at hv

theorem need {m m' : Run Value} (hm : Parallel R excused π (Alike P) m m') :
    StrictParallel R excused π (Stored P) (Strict.need m) (Strict.need m') :=
  bind (lift hm) fun _ _ _ _ h => accept h

theorem settle {m m' : Strict Value} (hm : StrictParallel R excused π (Alike P) m m') :
    Parallel R excused π (Alike P) (Strict.settle m) (Strict.settle m') :=
  fun s t hst => (hm s t hst).settle

end StrictParallel

end StrictRuns

inductive Record.Alike (P : Permit) (π : Pairing) : Record → Record → Prop where
  | expanding (name : String) {xs ys : List Value} (h : AllStored P π xs ys) :
      Record.Alike P π (.expanding name xs) (.expanding name ys)
  | calling (name : String) (count : Nat) :
      Record.Alike P π (.calling name count) (.calling name count)
  | preludeFailed {v w : Value} (h : TreeLisp.Alike P π v w) :
      Record.Alike P π (.preludeFailed v) (.preludeFailed w)

structure Simulation (P : Permit) (R : Correspondence) : Prop where
  inserted (name : String) (h : name ∈ Sugar.inserted) : P.name name
  argument (i : Nat) : P.name (argumentName i)
  distinct {π : Pairing} {s t : Store} (h : R π s t) : π.Distinct
  get {π : Pairing} {s t : Store} (h : R π s t) {i j : FrameId} (hframe : π.frame i j)
    {name : String} (hname : P.name name) :
    Option.Rel (Stored P π) (s.get? i name) (t.get? j name)
  set {π : Pairing} {s t : Store} (h : R π s t) {i j : FrameId} (hframe : π.frame i j)
    {name : String} (hname : P.name name) {v w : Value} (hvalue : Stored P π v w) :
    R π (s.set i name v) (t.set j name w)
  addFrame {π : Pairing} {s t : Store} (h : R π s t) {i j : FrameId} (hframe : π.frame i j)
    {b c : Bindings} (hbindings : AllBound P π b c) :
    ∃ ρ, π ≤ ρ ∧ ρ.frame s.frames.size t.frames.size ∧
      R ρ (s.addFrame (some i) b).2 (t.addFrame (some j) c).2
  newSerial {π : Pairing} {s t : Store} (h : R π s t) :
    ∃ ρ, π ≤ ρ ∧ ρ.serial s.serial t.serial ∧
      R ρ { s with serial := s.serial + 1 } { t with serial := t.serial + 1 }
  record {π : Pairing} {s t : Store} (h : R π s t) {r r' : Record} (hrecord : r.Alike P π r') :
    R π (s.addRecord r) (t.addRecord r')

namespace Simulation

variable {P : Permit} {R : Correspondence} {excused : Fault → Prop} {π : Pairing} {i j : FrameId}

theorem newFrame_parallel (sim : Simulation P R) (hframe : π.frame i j) {b c : Bindings}
    (hbindings : AllBound P π b c) :
    Parallel R excused π Pairing.frame (Run.newFrame i b) (Run.newFrame j c) := by
  intro s t hst
  obtain ⟨ρ, hle, hnew, hstore⟩ := sim.addFrame hst hframe hbindings
  exact .result hle hstore hnew

theorem setName_parallel (sim : Simulation P R) (hframe : π.frame i j) {name : String}
    (hname : P.name name) {v w : Value} (hvalue : Stored P π v w) :
    Parallel R excused π (fun _ _ _ => True) (Run.setName i name v) (Run.setName j name w) :=
  fun _ _ hst => .result le_rfl (sim.set hst hframe hname hvalue) trivial

theorem getName_parallel (sim : Simulation P R) (hframe : π.frame i j) {name : String}
    (hname : P.name name) :
    Parallel R excused π (fun ρ => Option.Rel (Stored P ρ)) (Run.getName? i name)
      (Run.getName? j name) :=
  fun _ _ hst => .result le_rfl hst (sim.get hst hframe hname)

theorem newSerial_parallel (sim : Simulation P R) :
    Parallel R excused π Pairing.serial Run.newSerial Run.newSerial := by
  intro s t hst
  obtain ⟨ρ, hle, hnew, hstore⟩ := sim.newSerial hst
  exact .result hle hstore hnew

theorem record_parallel (sim : Simulation P R) {r r' : Record} (hrecord : r.Alike P π r') :
    Parallel R excused π (fun _ _ _ => True) (Run.record r) (Run.record r') :=
  fun _ _ hst => .result le_rfl (sim.record hst hrecord) trivial

end Simulation

end TreeLisp
