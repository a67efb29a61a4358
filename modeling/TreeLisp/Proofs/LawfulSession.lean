import TreeLisp.Proofs.EvalLaw
import TreeLisp.Proofs.ReadFirst
import TreeLisp.Proofs.World

/-!
# Sessions under a law

What the reader makes is lawful under every sound law. A session that starts in a lawful store and
evaluates the forms of a source text one after the other ends in a lawful store, provided that each
of these evaluations has a lawful ending. They all have one when the law sets no limit to the length
of lists and strings.
-/
namespace TreeLisp

/-- The forms of a source text, those before the error in it if there is one. -/
def written (code : String) : List Value :=
  (TokenStream.ofSource code).parseAll.1

/-- The evaluations of the forms, one after the other, have lawful endings. Forms behind a fault are
not evaluated. -/
def Session.Obeys (session : Session) (L : Law) : List Value → Store → Prop
  | [], _ => True
  | form :: later, s =>
    L.Ends L.Given ((eval session.bound form session.scope).run s) ∧
      match (eval session.bound form session.scope).run s with
      | .ok _ t => session.Obeys L later t
      | .error _ _ => True

namespace Law

variable {L : Law}

mutual

theorem Sound.lawful_form (sound : L.Sound) : (d : ParseTree) → L.Lawful d.form
  | .atom _ _ => sound.lawful nofun rfl rfl
  | .mark _ m _ d => sound.list (.cons (sound.symbol m.head) (.cons (sound.lawful_form d) .nil))
  | .list _ _ ds _ _ => sound.list (sound.lawful_allForms ds)

theorem Sound.lawful_allForms (sound : L.Sound) :
    (ds : List ParseTree) → L.AllLawful (ParseTree.allForms ds)
  | [] => .nil
  | d :: ds => .cons (sound.lawful_form d) (sound.lawful_allForms ds)

end

theorem Sound.lawful_written (sound : L.Sound) (code : String) : L.AllLawful (written code) := by
  unfold written TokenStream.parseAll
  generalize (TokenStream.ofSource code).attempts = fuel
  generalize TokenStream.ofSource code = stream
  induction fuel generalizing stream with
  | zero => exact .nil
  | succ fuel ih =>
    rw [TokenStream.parseUpTo]
    rcases hparse : stream.parse with ⟨e | _ | form, next⟩
    · exact .nil
    · exact .nil
    · obtain ⟨d, -, -, rfl, -⟩ := TokenStream.exists_tree_of_parse hparse
      exact .cons (sound.lawful_form d) (ih next)

/-- What the evaluation of the forms leaves behind and what it gives is lawful, and so is the fault
that stops it if one does. -/
theorem evaluates_of_obeys {session : Session} {forms results : List Value} {s t : Store}
    {stop : Option Fault} (h : session.Evaluates forms s results stop t)
    (hobeys : session.Obeys L forms s) (hs : s.Throughout L.value) :
    t.Throughout L.value ∧ L.AllLawful results ∧ ∀ f, stop = some f → L.fault f := by
  induction h with
  | finish s => exact ⟨hs, .nil, nofun⟩
  | @next form v later vs s t u stop hform hlater ih =>
    obtain ⟨hends, hlater⟩ := hobeys
    rw [hform] at hends hlater
    cases hends with
    | result hstore hv =>
      obtain ⟨hstore', hvs, hstop⟩ := ih hlater hstore
      exact ⟨hstore', .cons hv.lawful hvs, hstop⟩
  | @fault form later s t f hform =>
    have hends := hobeys.1
    rw [hform] at hends
    cases hends with
    | fault hstore hf =>
      refine ⟨hstore, .nil, ?_⟩
      rintro _ ⟨⟩
      exact hf

theorem evalAll_of_obeys {session : Session} {code : String} {s : Store}
    (hobeys : session.Obeys L (written code) s) (hs : s.Throughout L.value) :
    (s.after (session.evalAll code)).Throughout L.value ∧
      ∀ results, s.outcome (session.evalAll code) = .ok results → L.AllLawful results := by
  obtain ⟨results, stop, t, hevaluates, hrun⟩ :=
    session.evalUpTo_evaluates (TokenStream.ofSource code).attempts (TokenStream.ofSource code) s
  obtain ⟨hstore, hresults, -⟩ := evaluates_of_obeys hevaluates hobeys hs
  rw [← Session.evalAll] at hrun
  unfold Store.after Store.outcome
  rw [hrun]
  match stop, ((TokenStream.ofSource code).parseUpTo _).2.1 with
  | some f, _ => exact ⟨hstore, nofun⟩
  | none, some e => exact ⟨hstore, nofun⟩
  | none, none =>
    refine ⟨hstore, ?_⟩
    rintro _ ⟨⟩
    exact hresults

theorem recordFailures_ensures {results : List Value} (h : L.AllLawful results) :
    L.Ensures (fun _ => True) (Session.recordFailures results) := by
  induction results with
  | nil => exact .result trivial
  | cons v rest ih =>
    rw [Session.recordFailures]
    split
    · exact (Ensures.record (r := .preludeFailed v) h.head).bind fun _ _ => ih h.of_cons
    · exact ih h.of_cons

theorem evalPrelude_of_obeys {session : Session} {code : String} {s : Store}
    (hobeys : session.Obeys L (written code) s) (hs : s.Throughout L.value) :
    (s.after (session.evalPrelude code)).Throughout L.value := by
  obtain ⟨hstore, hresults⟩ := evalAll_of_obeys hobeys hs
  unfold Session.evalPrelude
  unfold Store.after Store.outcome at *
  rw [EStateM.run_bind]
  cases hrun : (session.evalAll code).run s with
  | error e t =>
    rw [hrun] at hstore
    exact hstore
  | ok results t =>
    rw [hrun] at hstore hresults
    have hends := recordFailures_ensures (hresults results rfl) t hstore
    simp only [EStateM.run, Action.ofRun] at hends ⊢
    generalize Session.recordFailures results t = r at hends ⊢
    cases hends with
    | result hstore _ => exact hstore
    | fault hstore _ => exact hstore

theorem Sound.initial (sound : L.Sound) : Store.initial.Throughout L.value where
  frames i frame hframe := by
    rw [Store.initial, List.getElem?_toArray] at hframe
    obtain rfl := List.mem_singleton.mp (List.mem_of_getElem? hframe)
    intro b hb
    rcases mem_nativeBindings hb with ⟨n, rfl⟩ | ⟨n, rfl⟩
    · exact sound.lawful nofun rfl rfl
    · exact sound.lawful nofun rfl rfl
  journal _ hr := absurd hr (Array.not_mem_empty _)

def Unlimited (L : Law) : Prop :=
  ∀ n, L.room n

theorem Sound.eval_governs (sound : L.Sound) (hroom : L.Unlimited) (bound : Nat) :
    L.Governs (eval bound) := by
  induction bound with
  | zero => exact fun _ _ _ => .fault sound.nesting
  | succ bound ih =>
    intro form scope hform
    have hgiven : L.Given form := ⟨hform, hroom _⟩
    exact (sound.evalStep_ensures ih hgiven).imp fun v hv => ⟨hv, hroom _⟩

theorem Sound.obeys (sound : L.Sound) (hroom : L.Unlimited) (session : Session)
    {forms : List Value} (hforms : L.AllLawful forms) {s : Store} (hs : s.Throughout L.value) :
    session.Obeys L forms s := by
  induction forms generalizing s with
  | nil => trivial
  | cons form later ih =>
    have hends := sound.eval_governs hroom session.bound form session.scope hforms.head s hs
    refine ⟨hends, ?_⟩
    generalize (eval session.bound form session.scope).run s = r at hends ⊢
    cases hends with
    | result hstore _ => exact ih hforms.of_cons hstore
    | fault => trivial

/-- A law without a limit holds throughout the store after any events of any sessions. -/
theorem Sound.run_of_unlimited (sound : L.Sound) (hroom : L.Unlimited) (events : List Event) :
    (World.initial.run events).store.Throughout L.value := by
  apply World.store_run
  · exact fun s hs => hs.addFrame (some registry) fun _ hb => absurd hb List.not_mem_nil
  · intro code session s hs
    exact evalPrelude_of_obeys (sound.obeys hroom session (sound.lawful_written code) hs) hs
  · intro code session s hs
    exact (evalAll_of_obeys (sound.obeys hroom session (sound.lawful_written code) hs) hs).1
  · exact sound.initial

end Law

end TreeLisp
