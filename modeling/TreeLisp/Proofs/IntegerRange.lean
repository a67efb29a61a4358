import TreeLisp.Proofs.Countable

/-!
# Integers fit 64 bits

Sums, differences and quotients are checked at the end, products after every factor, and literals
when they are read. Remainders and lengths are not checked at all: a remainder is no larger than
what is divided, and a length fits as long as lists and strings are countable. So every integer
that comes up in a session fits 64 bits, wherever it occurs.
-/
namespace TreeLisp

/-- An integer fits 64 bits. What is inside of the value does not count. -/
def Value.FitsWord : Value → Prop
  | .int n => Number.leastInt ≤ n ∧ n ≤ Number.greatestInt
  | _ => True

theorem tmod_between (n d : Int) : min n 0 ≤ n.tmod d ∧ n.tmod d ≤ max n 0 := by
  have habs : (n.tmod d).natAbs ≤ n.natAbs := by
    rw [Int.natAbs_tmod]
    exact Nat.mod_le _ _
  by_cases hn : 0 ≤ n
  · have hsign : 0 ≤ n.tmod d := Int.tmod_nonneg d hn
    omega
  · have hsign : 0 ≤ (-n).tmod d := Int.tmod_nonneg d (by omega)
    rw [Int.neg_tmod] at hsign
    omega

/-- Integers fit 64 bits as long as lists and strings are countable. Any fault may come up. -/
def wordLaw : Law where
  value := Value.FitsWord
  room n := n ≤ Number.greatestInt
  fault _ := True

theorem wordLaw_sound : wordLaw.Sound := by
  have hleast : Number.leastInt ≤ 0 := by decide
  have hgreatest : 3 ≤ Number.greatestInt := by decide
  exact {
    ordinary := by
      intro v hint _
      cases v with
      | int n => exact absurd rfl (hint n)
      | _ => trivial
    int := by
      intro n h
      simp only [Number.inRange, Bool.and_eq_true, decide_eq_true_eq] at h
      exact h
    remainder := by
      intro n h d
      have hbetween := tmod_between n d
      change Number.leastInt ≤ n ∧ n ≤ Number.greatestInt at h
      change Number.leastInt ≤ n.tmod d ∧ n.tmod d ≤ Number.greatestInt
      omega
    count := by
      intro n h
      have hnonneg : Number.leastInt ≤ n := by omega
      exact ⟨hnonneg, h⟩
    few := by
      intro n h
      change (n : Int) ≤ Number.greatestInt
      omega
    function := fun _ _ _ => trivial
    expander := fun _ _ _ => trivial
    renamedFunction := fun _ _ _ => trivial
    renamedExpander := fun _ _ _ => trivial
    nesting := trivial
    literal := fun _ => trivial
    operation := fun _ _ _ _ _ => trivial }

theorem wordLaw_spacious : wordLaw.Spacious :=
  fun v h => (of_decide_eq_true h : (v.extent : Int) ≤ Number.greatestInt)

/-- All integers that are bound or recorded anywhere fit 64 bits, after any events of any sessions
whose evaluations are countable, and so do those in the results of a further source text, on their
own, in lists and in the bodies of callables. -/
theorem integers_fit_word (events : List Event) (hevents : World.initial.Countable events) :
    let s := (World.initial.run events).store
    s.Throughout Value.FitsWord ∧
      ∀ (session : Session) (code : String), session.Countable (written code) s →
        ∀ results, s.outcome (session.evalAll code) = .ok results →
          ∀ v ∈ results, v.Throughout Value.FitsWord := by
  intro s
  have hs : s.Throughout Value.FitsWord :=
    wordLaw_sound.run wordLaw_spacious hevents wordLaw_sound.initial
  refine ⟨hs, fun session code hcode => ?_⟩
  exact (wordLaw_sound.evalAll wordLaw_spacious hcode hs).2

/-- A length is bound in a session and comes back in a list. -/
theorem integers_fit_word_length :
    let events : List Event := [.start, .eval 0 9 "(def n (count (quote (a b))))"]
    let s := (World.initial.run events).store
    let session : Session := ⟨1, 9⟩
    (World.initial.Countable events ∧ session.Countable (written "(list n)") s) ∧
      s.Throughout Value.FitsWord ∧ s.get? 1 "n" = some (.int 2) ∧
      s.outcome (session.evalAll "(list n)") = .ok [.list [.int 2]] ∧
      (Value.list [.int 2]).Throughout Value.FitsWord := by
  intro events s session
  let definition : Value := .list [.symbol "def", .symbol "n", .list [.symbol "count",
    .list [.symbol "quote", .list [.symbol "a", .symbol "b"]]]]
  let list : Value := .list [.symbol "list", .symbol "n"]
  let before := (World.initial.run [.start]).store
  let after := before.set 1 "n" (.int 2)
  have hwritten : written "(def n (count (quote (a b))))" = [definition] := rfl
  have hevents : World.initial.Countable events := by
    refine ⟨trivial, ?_, trivial⟩
    rintro scope ⟨⟩
    rw [hwritten]
    exact ⟨fun _ => rfl, trivial⟩
  -- the store of the session is computed form by form, which is quicker than all at once
  have hread : read "(def n (count (quote (a b))))" = .ok [definition] := rfl
  have hdefinition : (eval 9 definition 1).run before = .ok (.int 2) after := rfl
  have hstore : s = after :=
    World.store_eval_after_start hread (.next hdefinition (.finish after))
  have hread' : read "(list n)" = .ok [list] := rfl
  have hlist : (eval 9 list 1).run after = .ok (.list [.int 2]) after := rfl
  have hresults : s.outcome (session.evalAll "(list n)") = .ok [.list [.int 2]] :=
    hstore ▸ Session.outcome_evalAll hread' (.next hlist (.finish after))
  have hcode : session.Countable (written "(list n)") s := by
    have hwritten' : written "(list n)" = [list] := rfl
    rw [hwritten', hstore]
    exact ⟨fun _ => rfl, trivial⟩
  have hget : s.get? 1 "n" = some (.int 2) := by
    rw [hstore]
    rfl
  obtain ⟨hfits, hfurther⟩ := integers_fit_word events hevents
  refine ⟨⟨hevents, hcode⟩, hfits, hget, hresults, ?_⟩
  exact hfurther session "(list n)" hcode _ hresults _ List.mem_cons_self

end TreeLisp
