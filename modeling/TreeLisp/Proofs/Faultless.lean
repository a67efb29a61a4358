import TreeLisp.Proofs.Nesting
import TreeLisp.Proofs.Settling

/-!
# Evaluations do not fault

Of the faults, a program can only bring about the lack of levels of nesting and the one of a numeral
with a letter outside ASCII. The law of integers that fit 64 bits remains sound when it allows no
other fault. Integers that fit 64 bits have few digits, so an evaluator that stops at the first
integer with more digits goes the same way as the plain one.
-/
namespace TreeLisp

/-- The faults that programs bring about. -/
def Fault.Expected : Fault → Prop
  | nesting => True
  | numeral text => 'ı' ∈ text.toList ∨ 'İ' ∈ text.toList
  | _ => False

/-- Integers fit 64 bits, and only faults come up that are expected or excused. -/
def faultLaw (excused : Fault → Prop) : Law :=
  { wordLaw with fault := fun f => f.Expected ∨ excused f }

theorem Value.fitsWord_of_lawful {v : Value} (h : wordLaw.Lawful v) : v.FitsWord :=
  (Value.throughout_iff.mp h).1

theorem faultLaw_sound (excused : Fault → Prop) : (faultLaw excused).Sound :=
  { wordLaw_sound with
    nesting := .inl trivial
    literal := by
      intro text f h
      obtain ⟨rfl, hletter⟩ := Literal.letter_of_read_error h
      exact .inl hletter
    operation := by
      intro op call args f harity hroom hlength hargs h
      have hcount : args.length ≤ wordSize := by
        have hgreatest : Number.greatestInt = 2 ^ 63 - 1 := rfl
        have hcall : (call.length : Int) ≤ Number.greatestInt := hroom
        rw [hlength, List.length_tail]
        change call.length - 1 ≤ 2 ^ 63
        omega
      have hfits : ∀ v ∈ args, v.FitsWord := fun v hv => v.fitsWord_of_lawful (hargs v hv).lawful
      have hsettles := op.compute_settles harity hlength hcount hfits
      exact absurd h (hsettles.run_ne_error f) }

theorem faultLaw_spacious (excused : Fault → Prop) : (faultLaw excused).Spacious :=
  wordLaw_spacious

mutual

/-- No integer in the value has more digits than the greatest integer. -/
def Value.legible : Value → Bool
  | .int n => (Text.digits n.natAbs).length ≤ Literal.mostDigits
  | .list items => itemsLegible items
  | .function _ _ ⟨_, _, body, _, _⟩ => itemsLegible body
  | .expander _ _ ⟨_, _, body, _, _⟩ => itemsLegible body
  | _ => true

def Value.itemsLegible : List Value → Bool
  | [] => true
  | v :: vs => v.legible && itemsLegible vs

end

theorem length_digits_le {n : Int} (h : (Value.int n).FitsWord) :
    (Text.digits n.natAbs).length ≤ Literal.mostDigits := by
  have hleast : Number.leastInt = -2 ^ 63 := rfl
  have hgreatest : Number.greatestInt = 2 ^ 63 - 1 := rfl
  obtain ⟨hlow, hhigh⟩ := h
  have hlt : n.natAbs < 10 ^ 19 := by omega
  exact (Nat.length_toDigits_le_iff (by decide) (by decide)).mpr hlt

theorem Value.itemsLegible_iff {vs : List Value} :
    itemsLegible vs = true ↔ ∀ v ∈ vs, v.legible = true := by
  induction vs with
  | nil => simp [itemsLegible]
  | cons v vs ih => rw [itemsLegible, Bool.and_eq_true, ih, List.forall_mem_cons]

theorem Value.legible_of_lawful {v : Value} (h : wordLaw.Lawful v) : v.legible = true := by
  induction v using Value.inner_induction with
  | h v ih =>
    obtain ⟨hv, hinner⟩ := Value.throughout_iff.mp h
    have hitems : ∀ u ∈ v.inner, u.legible = true := fun u hu => ih u hu (hinner u hu)
    cases v with
    | int n => exact decide_eq_true (length_digits_le hv)
    | list items => exact itemsLegible_iff.mpr hitems
    | function serial name c => exact itemsLegible_iff.mpr hitems
    | expander serial name c => exact itemsLegible_iff.mpr hitems
    | _ => rfl

/-- Evaluate, and fault at the first form or value with an integer of too many digits in it. -/
def evalLegible : Nat → Evaluator :=
  evalGuarded (insist Value.legible .digits)

/-- The evaluations of the forms, one after the other, come to no integer of too many digits: they
go the same way when such an integer is a fault. Forms behind a fault are not evaluated. -/
def Session.Legible (session : Session) : List Value → Store → Prop
  | [], _ => True
  | form :: later, s =>
    (evalLegible session.bound form session.scope).run s =
        (eval session.bound form session.scope).run s ∧
      match (eval session.bound form session.scope).run s with
      | .ok _ t => session.Legible later t
      | .error _ _ => True

def bothGuard (v : Value) : Option Fault :=
  (insist Value.countable .magnitude v).or (insist Value.legible .digits v)

theorem bothGuard_agree_countable :
    Agree (· = .digits) bothGuard (insist Value.countable .magnitude) := by
  intro v
  unfold bothGuard
  rcases insist_cases Value.countable .magnitude v with ⟨h, -⟩ | ⟨h, -⟩
  · rw [h, Option.none_or]
    rcases insist_cases Value.legible .digits v with ⟨h', -⟩ | ⟨h', -⟩
    · exact .inl h'
    · exact .inr ⟨.digits, h', rfl⟩
  · rw [h]
    exact .inl rfl

theorem bothGuard_agree_legible :
    Agree (· = .magnitude) bothGuard (insist Value.legible .digits) := by
  intro v
  unfold bothGuard
  rcases insist_cases Value.countable .magnitude v with ⟨h, -⟩ | ⟨h, -⟩
  · rw [h]
    exact .inl rfl
  · rw [h]
    exact .inr ⟨.magnitude, rfl, rfl⟩

theorem heeds_bothGuard : (faultLaw (· = .magnitude)).Heeds bothGuard := by
  intro v hv
  have hlegible : insist Value.legible .digits v = none := if_pos (Value.legible_of_lawful hv)
  unfold bothGuard
  rcases insist_cases Value.countable .magnitude v with ⟨h, hcountable⟩ | ⟨h, -⟩
  · rw [h, Option.none_or, hlegible]
    exact faultLaw_spacious _ v hcountable
  · rw [h]
    exact .inr rfl

section Countable

variable {s : Store} (hs : s.Throughout Value.FitsWord)
include hs

-- Both guards at once never object to digits, since the values are lawful as long as they are not
-- too long. They are not too long in the plain evaluation, so that one guard is as good as none.
theorem evalLegible_eq_eval {bound : Nat} {form : Value} {scope : FrameId}
    (hform : wordLaw.Lawful form) (hcountable : s.Countable bound form scope) :
    (evalLegible bound form scope).run s = (eval bound form scope).run s := by
  have hboth := (faultLaw_sound (· = .magnitude)).evalGuarded_governs heeds_bothGuard bound form
    scope hform s hs
  have hplain : (eval bound form scope).run s = (evalGuarded bothGuard bound form scope).run s := by
    rw [← hcountable .magnitude, evalCountable_eq_evalGuarded]
    refine evalGuarded_congr bothGuard_agree_countable fun f t hrun => ?_
    rintro rfl
    rw [hrun] at hboth
    rcases hboth.fault_of_error with hexpected | hexcused
    · exact hexpected
    · cases hexcused
  have hends := (faultLaw_sound never).eval_ends (faultLaw_spacious never) hs hform hcountable
  rw [hplain]
  refine evalGuarded_congr bothGuard_agree_legible fun f t hrun => ?_
  rintro rfl
  rw [hplain, hrun] at hends
  rcases hends.fault_of_error with hexpected | hexcused
  · exact hexpected
  · exact hexcused

theorem Session.legible_of_countable {session : Session} {forms : List Value}
    (hforms : wordLaw.AllLawful forms) (hcountable : session.Countable forms s) :
    session.Legible forms s := by
  induction forms generalizing s with
  | nil => trivial
  | cons form later ih =>
    have hends := wordLaw_sound.eval_ends wordLaw_spacious hs hforms.head hcountable.1
    have hlater := hcountable.2
    refine ⟨evalLegible_eq_eval hs hforms.head hcountable.1, ?_⟩
    generalize (eval session.bound form session.scope).run s = r at hends hlater ⊢
    cases hends with
    | result hstore _ => exact ih hstore hforms.of_cons hlater
    | fault => trivial

end Countable

/-- After any events of any sessions whose evaluations are countable, the evaluation of the forms of
a further source text gives a value for each of them, unless it is stopped by the lack of levels or
by a numeral with a letter outside ASCII. No other fault comes up: neither that of a list which is
taken apart and has another length, nor those of a position, a divisor, a run of digits or an
integer beyond the doubles. No integer of too many digits is come upon, so none has to be written,
and parameter lists are read without looking behind their end. -/
theorem evaluations_do_not_fault (events : List Event) (hevents : World.initial.Countable events)
    (session : Session) (code : String)
    (hcode : session.Countable (written code) (World.initial.run events).store) :
    let s := (World.initial.run events).store
    (∃ results stop t, session.Evaluates (written code) s results stop t ∧
        (session.evalAll code).run s =
          Session.ending (TokenStream.ofSource code).parseAll.2.1 results stop t ∧
        match stop with
        | none => results.length = (written code).length
        | some f => f.Expected) ∧
      session.Legible (written code) s ∧
      ∀ items : List Value, (Value.list items).countable = true →
        Params.ofPositions items 0 = ExceptT.mk (pure (Params.ofItems items)) := by
  intro s
  have hs : s.Throughout Value.FitsWord :=
    wordLaw_sound.run wordLaw_spacious hevents wordLaw_sound.initial
  have hforms : wordLaw.AllLawful (written code) := wordLaw_sound.lawful_written code
  refine ⟨?_, Session.legible_of_countable hs hforms hcode, fun items hitems => ?_⟩
  · obtain ⟨results, stop, t, hevaluates, hrun⟩ :=
      session.evalUpTo_evaluates (TokenStream.ofSource code).attempts (TokenStream.ofSource code) s
    refine ⟨results, stop, t, hevaluates, hrun, ?_⟩
    have hobeys := (faultLaw_sound never).obeys_of_countable (faultLaw_spacious never) hforms hcode
      hs
    obtain ⟨-, -, hfault⟩ := Law.evaluates_of_obeys hevaluates hobeys hs
    cases stop with
    | none => exact hevaluates.length_eq
    | some f => exact (hfault f rfl).resolve_right id
  · exact Params.ofPositions_eq (of_decide_eq_true hitems) 0

/-- An item is taken at a position that is a remainder, a remainder by zero is an error, and then a
word for infinity is spelled without a dot. -/
theorem evaluations_do_not_fault_numeral :
    let events : List Event := [.start, .eval 0 9 "(def n 3)"]
    let s := (World.initial.run events).store
    let session : Session := ⟨1, 9⟩
    let code := "(nth (quote (a b)) (mod 7 n)) (mod n 0) ınf"
    (World.initial.Countable events ∧ session.Countable (written code) s) ∧
      session.Evaluates (written code) s [.symbol "b", .error "division by zero"]
        (some (.numeral "ınf")) s ∧
      (Fault.numeral "ınf").Expected ∧ session.Legible (written code) s := by
  intro events s session code
  let definition : Value := .list [.symbol "def", .symbol "n", .symbol "3"]
  let item : Value := .list [.symbol "nth", .list [.symbol "quote", .list [.symbol "a",
    .symbol "b"]], .list [.symbol "mod", .symbol "7", .symbol "n"]]
  let division : Value := .list [.symbol "mod", .symbol "n", .symbol "0"]
  let before := (World.initial.run [.start]).store
  let after := before.set 1 "n" (.int 3)
  have hevents : World.initial.Countable events := by
    have hwritten : written "(def n 3)" = [definition] := rfl
    refine ⟨trivial, ?_, trivial⟩
    rintro scope ⟨⟩
    rw [hwritten]
    exact ⟨fun _ => rfl, trivial⟩
  -- the store of the session is computed form by form, which is quicker than all at once
  have hread : read "(def n 3)" = .ok [definition] := rfl
  have hdefinition : (eval 9 definition 1).run before = .ok (.int 3) after := rfl
  have hstore : s = after :=
    World.store_eval_after_start hread (.next hdefinition (.finish after))
  have hwritten : written "(nth (quote (a b)) (mod 7 n)) (mod n 0) ınf" =
      [item, division, .symbol "ınf"] := rfl
  have hitem : (eval 9 item 1).run after = .ok (.symbol "b") after := rfl
  have hdivision : (eval 9 division 1).run after = .ok (.error "division by zero") after := rfl
  have hnumeral : (eval 9 (.symbol "ınf") 1).run after = .error (.numeral "ınf") after := rfl
  have hevaluates : session.Evaluates (written code) s [.symbol "b", .error "division by zero"]
      (some (.numeral "ınf")) s := by
    rw [hwritten, hstore]
    exact .next hitem (.next hdivision (.fault [] hnumeral))
  have hcode : session.Countable (written code) s := by
    rw [hwritten, hstore]
    exact .next (fun _ => rfl) hitem
      (.next (fun _ => rfl) hdivision (.fault (fun _ => rfl) hnumeral))
  obtain ⟨⟨results, stop, t, hgeneral, -, hstop⟩, hlegible, -⟩ :=
    evaluations_do_not_fault events hevents session code hcode
  obtain ⟨-, rfl, -⟩ := hevaluates.unique hgeneral
  exact ⟨⟨hevents, hcode⟩, hevaluates, hstop, hlegible⟩

end TreeLisp
