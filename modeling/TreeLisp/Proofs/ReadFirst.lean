import TreeLisp.Proofs.Parsing
import TreeLisp.Session

/-!
# Evaluating while reading

A session reads a form, evaluates it, and only then reads on. The outcome is the one of reading the
whole text first and evaluating its forms afterwards: an error in the text is found behind all forms
that are complete before it, and a fault in one of these comes up before the error does.
-/
namespace TreeLisp

namespace Session

/-- The session evaluates the forms in order, from the first store to the second, with the results
that are listed. A fault keeps the forms behind it from being evaluated. -/
inductive Evaluates (session : Session) :
    List Value → Store → List Value → Option Fault → Store → Prop where
  | finish (s : Store) : Evaluates session [] s [] none s
  | next {form v : Value} {later vs : List Value} {s t u : Store} {stop : Option Fault}
      (h : (eval session.bound form session.scope).run s = .ok v t)
      (hlater : Evaluates session later t vs stop u) :
      Evaluates session (form :: later) s (v :: vs) stop u
  | fault {form : Value} (later : List Value) {s t : Store} {f : Fault}
      (h : (eval session.bound form session.scope).run s = .error f t) :
      Evaluates session (form :: later) s [] (some f) t

/-- How a text ends whose forms have been evaluated. A fault comes before an error in the text. -/
def ending (unread : Option ReadError) (results : List Value) (stop : Option Fault) (t : Store) :
    EStateM.Result Stop Store (List Value) :=
  match stop, unread with
  | some f, _ => .error (.fault f) t
  | none, some e => .error (.unreadable e) t
  | none, none => .ok results t

variable (session : Session)

theorem evalUpTo_error {stream next : TokenStream} {e : ReadError}
    (h : stream.parse = (.error e, next)) (fuel : Nat) (s : Store) :
    (session.evalUpTo (fuel + 1) stream).run s = .error (.unreadable e) s := by
  rw [evalUpTo, h]
  rfl

theorem evalUpTo_none {stream next : TokenStream} (h : stream.parse = (.ok none, next))
    (fuel : Nat) (s : Store) : (session.evalUpTo (fuel + 1) stream).run s = .ok [] s := by
  rw [evalUpTo, h]
  rfl

theorem evalUpTo_fault {stream next : TokenStream} {form : Value} {s t : Store} {f : Fault}
    (h : stream.parse = (.ok (some form), next))
    (hform : (eval session.bound form session.scope).run s = .error f t) (fuel : Nat) :
    (session.evalUpTo (fuel + 1) stream).run s = .error (.fault f) t := by
  have hact : (Action.ofRun (eval session.bound form session.scope)).run s =
      .error (.fault f) t := by
    simp only [EStateM.run, Action.ofRun] at hform ⊢
    rw [hform]
  simp only [evalUpTo, h, EStateM.run_bind, hact]

theorem evalUpTo_next {stream next : TokenStream} {form v : Value} {s t : Store}
    (h : stream.parse = (.ok (some form), next))
    (hform : (eval session.bound form session.scope).run s = .ok v t) (fuel : Nat) :
    (session.evalUpTo (fuel + 1) stream).run s =
      (session.evalUpTo fuel next >>= fun vs => pure (v :: vs)).run t := by
  have hact : (Action.ofRun (eval session.bound form session.scope)).run s = .ok v t := by
    simp only [EStateM.run, Action.ofRun] at hform ⊢
    rw [hform]
  simp only [evalUpTo, h, EStateM.run_bind, hact]

theorem evalUpTo_evaluates (fuel : Nat) (stream : TokenStream) (s : Store) :
    ∃ results stop t, session.Evaluates (stream.parseUpTo fuel).1 s results stop t ∧
      (session.evalUpTo fuel stream).run s =
        ending (stream.parseUpTo fuel).2.1 results stop t := by
  induction fuel generalizing stream s with
  | zero => exact ⟨[], none, s, .finish s, rfl⟩
  | succ fuel ih =>
    match hparse : stream.parse with
    | (.error e, next) =>
      have hread : stream.parseUpTo (fuel + 1) = ([], some e, next) := by
        rw [TokenStream.parseUpTo, hparse]
      rw [hread, evalUpTo_error session hparse]
      exact ⟨[], none, s, .finish s, rfl⟩
    | (.ok none, next) =>
      have hread : stream.parseUpTo (fuel + 1) = ([], none, next) := by
        rw [TokenStream.parseUpTo, hparse]
      rw [hread, evalUpTo_none session hparse]
      exact ⟨[], none, s, .finish s, rfl⟩
    | (.ok (some form), next) =>
      have hread : stream.parseUpTo (fuel + 1) =
          (form :: (next.parseUpTo fuel).1, (next.parseUpTo fuel).2) := by
        rw [TokenStream.parseUpTo, hparse]
      rw [hread]
      cases hform : (eval session.bound form session.scope).run s with
      | error f t =>
        rw [evalUpTo_fault session hparse hform]
        exact ⟨[], some f, t, .fault _ hform, rfl⟩
      | ok v t =>
        obtain ⟨results, stop, u, hlater, hrun⟩ := ih next t
        refine ⟨v :: results, stop, u, .next hform hlater, ?_⟩
        rw [evalUpTo_next session hparse hform, EStateM.run_bind, hrun]
        -- a result is put in front of the others, and the two other endings carry no results
        cases stop with
        | some f => rfl
        | none => cases (next.parseUpTo fuel).2.1 <;> rfl

theorem Evaluates.length_eq {session : Session} {forms results : List Value} {s t : Store}
    (h : session.Evaluates forms s results none t) : results.length = forms.length := by
  induction forms generalizing s results with
  | nil =>
    cases h
    rfl
  | cons form forms ih =>
    cases h with
    | next hform hlater => rw [List.length_cons, List.length_cons, ih hlater]

theorem Evaluates.unique {session : Session} {forms results results' : List Value}
    {s t t' : Store} {stop stop' : Option Fault} (h : session.Evaluates forms s results stop t)
    (h' : session.Evaluates forms s results' stop' t') :
    results = results' ∧ stop = stop' ∧ t = t' := by
  induction h generalizing results' stop' t' with
  | finish s =>
    cases h' with
    | finish => exact ⟨rfl, rfl, rfl⟩
  | next h hlater ih =>
    cases h' with
    | next h' hlater' =>
      obtain ⟨rfl, rfl⟩ := EStateM.Result.ok.inj (h.symm.trans h')
      obtain ⟨rfl, rfl, rfl⟩ := ih hlater'
      exact ⟨rfl, rfl, rfl⟩
    | fault _ h' => cases h.symm.trans h'
  | fault later h =>
    cases h' with
    | next h' hlater' => cases h.symm.trans h'
    | fault _ h' =>
      obtain ⟨rfl, rfl⟩ := EStateM.Result.error.inj (h.symm.trans h')
      exact ⟨rfl, rfl, rfl⟩

theorem evalAll_of_evaluates {code : String} {forms results : List Value} {s t : Store}
    {stop : Option Fault} (hread : read code = .ok forms)
    (h : session.Evaluates forms s results stop t) :
    (session.evalAll code).run s = ending none results stop t := by
  obtain ⟨results', stop', t', hevaluates, hrun⟩ :=
    session.evalUpTo_evaluates (TokenStream.ofSource code).attempts (TokenStream.ofSource code) s
  rw [← TokenStream.parseAll] at hevaluates hrun
  rcases hparse : (TokenStream.ofSource code).parseAll with ⟨forms', outcome, rest⟩
  rw [hparse] at hevaluates hrun
  rw [read, hparse] at hread
  cases outcome with
  | some e => cases hread
  | none =>
    obtain rfl : forms' = forms := Except.ok.inj hread
    obtain ⟨rfl, rfl, rfl⟩ := hevaluates.unique h
    exact hrun

end Session

/-- The forms read before an error are those of the longest beginning that derives any. -/
theorem TokenStream.front_of_parseAll {s t : TokenStream} {forms : List Value} {e : ReadError}
    (h : s.parseAll = (forms, some e, t)) :
    ∃ front back, s.remaining = front ++ back ∧ Derives front forms ∧
      ∀ other, other <+: s.remaining → (∃ forms', Derives other forms') → other <+: front := by
  obtain ⟨ds, rest, hfront, hstuck⟩ := ParseTree.exists_front s.remaining
  have hleft : rest = [] → s.failure ≠ none := by
    rintro rfl hfailure
    rw [List.append_nil] at hfront
    rw [parseAll_of_derived hfront hfailure] at h
    simp at h
  obtain ⟨e', t', herror⟩ := parseAll_of_stuck hfront hstuck hleft
  have hforms : ParseTree.allForms ds = forms := congrArg Prod.fst (herror.symm.trans h)
  refine ⟨ParseTree.allTokens ds, rest, hfront, ⟨ds, rfl, hforms⟩, ?_⟩
  rintro other ⟨tail, htail⟩ ⟨-, es, rfl, -⟩
  obtain ⟨more, rfl⟩ := ParseTree.prefix_of_stuck hstuck es tail (htail.trans hfront)
  exact ⟨ParseTree.allTokens more, (ParseTree.allTokens_append es more).symm⟩

/-- A session that reads and evaluates form by form does what one does that reads the whole text
and then evaluates its forms in order. When the text cannot be read, the forms evaluated are those
of the longest beginning of its tokens that can be, and the error is the one of reading, unless a
fault in one of the forms comes first. -/
theorem Session.evalAll_reads_first (session : Session) (code : String) (s : Store) :
    match read code with
    | .ok forms =>
      ∃ results stop t, session.Evaluates forms s results stop t ∧
        (session.evalAll code).run s = ending none results stop t
    | .error e =>
      ∃ front back forms, (Lexer.lex code).tokens = front ++ back ∧ Derives front forms ∧
        (∀ other, other <+: (Lexer.lex code).tokens → (∃ forms', Derives other forms') →
          other <+: front) ∧
        ∃ results stop t, session.Evaluates forms s results stop t ∧
          (session.evalAll code).run s = ending (some e) results stop t := by
  have hrun := session.evalUpTo_evaluates (TokenStream.ofSource code).attempts
    (TokenStream.ofSource code) s
  rw [← TokenStream.parseAll] at hrun
  rcases hparse : (TokenStream.ofSource code).parseAll with ⟨forms, outcome, rest⟩
  rw [hparse] at hrun
  cases outcome with
  | none =>
    have hread : read code = .ok forms := by rw [read, hparse]
    simp only [hread]
    exact hrun
  | some e =>
    have hread : read code = .error e := by rw [read, hparse]
    obtain ⟨front, back, htokens, hderives, hlongest⟩ := TokenStream.front_of_parseAll hparse
    simp only [hread]
    exact ⟨front, back, forms, htokens, hderives, hlongest, hrun⟩

end TreeLisp
