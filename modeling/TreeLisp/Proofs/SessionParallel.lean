import TreeLisp.Proofs.EvalParallel
import TreeLisp.Proofs.Parsing
import TreeLisp.Session

/-!
# Sessions in parallel

The reader makes the same forms in both runs, and forms are like themselves. Source texts and
preludes therefore run in parallel in sessions whose frames are paired, as evaluations do.
-/
namespace TreeLisp

variable {P : Permit} {R : Correspondence} {excused : Fault → Prop} {π : Pairing} {i j : FrameId}
  {xs ys : List Value}

def Stop.Excused (excused : Fault → Prop) : Stop → Prop
  | .fault f => excused f
  | .unreadable _ => False

def never (_ : Fault) : Prop := False

theorem Stop.not_excused (e : Stop) : ¬ e.Excused never := by
  cases e <;> exact id

theorem ofRun_parallel {α β : Type} {post : Pairing → α → β → Prop} {m : Run α} {m' : Run β}
    (h : Parallel R excused π post m m') :
    Parallel R (Stop.Excused excused) π post (Action.ofRun m) (Action.ofRun m') := by
  intro s t hst
  have houtcomes := h s t hst
  simp only [EStateM.run, Action.ofRun] at houtcomes ⊢
  generalize m s = r, m' t = r' at houtcomes ⊢
  cases houtcomes with
  | result hle hstore hpost => exact .result hle hstore hpost
  | fault f hle hstore => exact .fault (Stop.fault f) hle hstore
  | excused hf => exact .excused hf

mutual

theorem ParseTree.form_alike (hname : ∀ name, P.name name) :
    (d : ParseTree) → Alike P π d.form d.form
  | .atom t _ => .atom t (hname t.text)
  | .mark _ m _ d => by
    have hhead : Alike P π (.symbol m.head) (.symbol m.head) := .atom _ (hname _)
    have hd : d.form.isError = false := by cases d <;> rfl
    exact .list (.cons (hhead.stored rfl) (.cons ((form_alike hname d).stored hd) .nil))
  | .list _ _ ds _ _ => .list (allForms_stored hname ds)

theorem ParseTree.allForms_stored (hname : ∀ name, P.name name) :
    (ds : List ParseTree) → AllStored P π (allForms ds) (allForms ds)
  | [] => .nil
  | d :: ds => by
    have hd : d.form.isError = false := by cases d <;> rfl
    exact .cons ((form_alike hname d).stored hd) (allForms_stored hname ds)

end

theorem evalUpTo_parallel {bound bound' : Nat}
    (hev : Together P R excused (eval bound) (eval bound')) (hname : ∀ name, P.name name)
    (hframe : π.frame i j) (fuel : Nat) (stream : TokenStream) :
    Parallel R (Stop.Excused excused) π (fun ρ => List.Forall₂ (Alike P ρ))
      (Session.evalUpTo ⟨i, bound⟩ fuel stream) (Session.evalUpTo ⟨j, bound'⟩ fuel stream) := by
  induction fuel generalizing π stream with
  | zero => exact .result .nil
  | succ fuel ih =>
    rw [Session.evalUpTo, Session.evalUpTo]
    match hparse : stream.parse with
    | (.error e, _) => exact Parallel.fault _
    | (.ok none, _) => exact Parallel.result .nil
    | (.ok (some form), next) =>
      obtain ⟨d, -, -, rfl, -⟩ := TokenStream.exists_tree_of_parse hparse
      have hform : Alike P π d.form d.form := d.form_alike hname
      refine (ofRun_parallel (hev π _ _ i j hform hframe)).bind fun ρ v w hle hvw => ?_
      refine (ih (Pairing.frame_mono hle hframe) next).bind fun σ vs ws hle' hvs => ?_
      exact .result (.cons (hvw.mono hle') hvs)

theorem evalAll_parallel {bound bound' : Nat}
    (hev : Together P R excused (eval bound) (eval bound')) (hname : ∀ name, P.name name)
    (hframe : π.frame i j) (code : String) :
    Parallel R (Stop.Excused excused) π (fun ρ => List.Forall₂ (Alike P ρ))
      (Session.evalAll ⟨i, bound⟩ code) (Session.evalAll ⟨j, bound'⟩ code) :=
  evalUpTo_parallel hev hname hframe _ _

theorem recordFailures_parallel (sim : Simulation P R) (h : List.Forall₂ (Alike P π) xs ys) :
    Parallel R excused π (fun _ _ _ => True) (Session.recordFailures xs)
      (Session.recordFailures ys) := by
  induction xs generalizing ys π with
  | nil =>
    cases h
    exact .result trivial
  | cons x xs ih =>
    cases h with
    | cons h hs =>
      rw [Session.recordFailures, Session.recordFailures, h.isError_eq]
      split
      · refine (sim.record_parallel (.preludeFailed h)).bind fun ρ _ _ hle _ => ?_
        exact ih (hs.imp fun _ _ hxy => hxy.mono hle)
      · exact ih hs

theorem evalPrelude_parallel (sim : Simulation P R) {bound bound' : Nat}
    (hev : Together P R excused (eval bound) (eval bound')) (hname : ∀ name, P.name name)
    (hframe : π.frame i j) (code : String) :
    Parallel R (Stop.Excused excused) π (fun _ _ _ => True)
      (Session.evalPrelude ⟨i, bound⟩ code) (Session.evalPrelude ⟨j, bound'⟩ code) := by
  refine (evalAll_parallel hev hname hframe code).bind fun ρ vs ws _ hvs => ?_
  exact ofRun_parallel (recordFailures_parallel sim hvs)

end TreeLisp
