import TreeLisp.Proofs.Grammar

/-!
# The parser reads exactly the grammar

Reading in open contexts follows the parse tree of the next form and hands that form on. Conversely,
what open contexts still demand of the tokens is written down as a relation, and every form that is
read has met the demands. So the forms that come out of a stream are those of the longest sequence
of forms at its front, and an error comes up exactly when tokens are left behind it.
-/
namespace TreeLisp.TokenStream

open ParseTree

/-- How reading goes on once a form has been delivered. -/
def proceed (failure : Option ReadError) (rest : List Token) :
    Value ⊕ List Context → Except ReadError (Option Value) × TokenStream
  | .inl form => (.ok (some form), ⟨[], rest, failure⟩)
  | .inr contexts => parseIn failure contexts rest

/-- What one token does in open contexts: it completes the outermost form or leaves contexts open.
A closing parenthesis that no list awaits does neither. -/
def shift (contexts : List Context) (t : Token) : Option (Value ⊕ List Context) :=
  match t.kind, contexts with
  | .symbol, _ => some (deliver contexts (.atom t))
  | .string, _ => some (deliver contexts (.atom t))
  | .mark m, _ => some (.inr (.mark m t.text :: contexts))
  | .opening, _ => some (.inr (.list [] :: contexts))
  | .closing, .list before :: outer => some (deliver outer (.list before.reverse))
  | .closing, _ => none

theorem shift_atom (contexts : List Context) {t : Token}
    (h : t.kind = .symbol ∨ t.kind = .string) :
    shift contexts t = some (deliver contexts (.atom t)) := by
  rcases h with h | h <;> simp only [shift, h]

theorem shift_mark (contexts : List Context) {t : Token} {m : Mark} (h : t.kind = .mark m) :
    shift contexts t = some (.inr (.mark m t.text :: contexts)) := by
  simp only [shift, h]

theorem shift_opening (contexts : List Context) {t : Token} (h : t.kind = .opening) :
    shift contexts t = some (.inr (.list [] :: contexts)) := by
  simp only [shift, h]

theorem shift_closing (before : List Value) (outer : List Context) {t : Token}
    (h : t.kind = .closing) :
    shift (.list before :: outer) t = some (deliver outer (.list before.reverse)) := by
  simp only [shift, h]

/-- Reading on from a token is what the token does to the contexts, and then reading on in them. -/
theorem parseIn_cons (failure : Option ReadError) (contexts : List Context) (t : Token)
    (rest : List Token) :
    parseIn failure contexts (t :: rest) =
      ((shift contexts t).map (proceed failure rest)).getD
        (.error .unexpectedClosing, ⟨[t], rest, failure⟩) := by
  rw [parseIn.eq_def]
  cases hkind : t.kind with
  | symbol =>
    simp only [hkind, shift_atom contexts (.inl hkind)]
    cases deliver contexts (.atom t) <;> rfl
  | string =>
    simp only [hkind, shift_atom contexts (.inr hkind)]
    cases deliver contexts (.atom t) <;> rfl
  | mark m => simp only [hkind, shift_mark contexts hkind]; rfl
  | opening => simp only [hkind, shift_opening contexts hkind]; rfl
  | closing =>
    cases contexts with
    | nil => simp only [hkind, shift]; rfl
    | cons context outer =>
      cases context with
      | mark m text => simp only [hkind, shift]; rfl
      | list before =>
        simp only [hkind, shift_closing before outer hkind]
        cases deliver outer (.list before.reverse) <;> rfl

theorem parseIn_of_shift (failure : Option ReadError) {contexts : List Context} {t : Token}
    {next : Value ⊕ List Context} (h : shift contexts t = some next) (rest : List Token) :
    parseIn failure contexts (t :: rest) = proceed failure rest next := by
  rw [parseIn_cons, h]
  rfl

theorem parseIn_of_no_shift (failure : Option ReadError) {contexts : List Context} {t : Token}
    (h : shift contexts t = none) (rest : List Token) :
    parseIn failure contexts (t :: rest) =
      (.error .unexpectedClosing, ⟨[t], rest, failure⟩) := by
  rw [parseIn_cons, h]
  rfl

theorem parseIn_atom (failure : Option ReadError) (contexts : List Context) {t : Token}
    (h : t.kind = .symbol ∨ t.kind = .string) (rest : List Token) :
    parseIn failure contexts (t :: rest) = proceed failure rest (deliver contexts (.atom t)) :=
  parseIn_of_shift failure (shift_atom contexts h) rest

theorem parseIn_mark (failure : Option ReadError) (contexts : List Context) {t : Token} {m : Mark}
    (h : t.kind = .mark m) (rest : List Token) :
    parseIn failure contexts (t :: rest) = parseIn failure (.mark m t.text :: contexts) rest :=
  parseIn_of_shift failure (shift_mark contexts h) rest

theorem parseIn_opening (failure : Option ReadError) (contexts : List Context) {t : Token}
    (h : t.kind = .opening) (rest : List Token) :
    parseIn failure contexts (t :: rest) = parseIn failure (.list [] :: contexts) rest :=
  parseIn_of_shift failure (shift_opening contexts h) rest

theorem parseIn_closing (failure : Option ReadError) (before : List Value)
    (outer : List Context) {t : Token} (h : t.kind = .closing) (rest : List Token) :
    parseIn failure (.list before :: outer) (t :: rest) =
      proceed failure rest (deliver outer (.list before.reverse)) :=
  parseIn_of_shift failure (shift_closing before outer h) rest

mutual

theorem parseIn_tokens (failure : Option ReadError) : (d : ParseTree) →
    (contexts : List Context) → (rest : List Token) →
    parseIn failure contexts (d.tokens ++ rest) =
      proceed failure rest (deliver contexts d.form)
  | .atom t h, contexts, rest => parseIn_atom failure contexts h rest
  | .mark t m h d, contexts, rest => by
    rw [tokens, List.cons_append, parseIn_mark failure contexts h, parseIn_tokens failure d]
    rfl
  | .list first hfirst ds last hlast, contexts, rest => by
    rw [tokens, List.cons_append, List.append_assoc, parseIn_opening failure contexts hfirst,
      parseIn_allTokens failure ds, List.cons_append, List.nil_append,
      parseIn_closing failure _ contexts hlast]
    simp only [List.append_nil, List.reverse_reverse, form]

theorem parseIn_allTokens (failure : Option ReadError) : (ds : List ParseTree) →
    (before : List Value) → (outer : List Context) → (rest : List Token) →
    parseIn failure (.list before :: outer) (allTokens ds ++ rest) =
      parseIn failure (.list ((allForms ds).reverse ++ before) :: outer) rest
  | [], _, _, _ => rfl
  | d :: ds, before, outer, rest => by
    rw [allTokens, List.append_assoc, parseIn_tokens failure d]
    change parseIn failure (.list (d.form :: before) :: outer) (allTokens ds ++ rest) = _
    rw [parseIn_allTokens failure ds]
    simp only [allForms, List.reverse_cons, List.append_assoc, List.cons_append, List.nil_append]

end

/-- The contexts take the delivered value and then these tokens, and the outermost form is done. -/
def Closes : List Context → Value → List Token → Value → Prop
  | [], v, tail, form => tail = [] ∧ form = v
  | .list before :: outer, v, tail, form =>
    ∃ ds last rest, tail = allTokens ds ++ last :: rest ∧ last.kind = .closing ∧
      Closes outer (.list (before.reverse ++ v :: allForms ds)) rest form
  | .mark m _ :: outer, v, tail, form => Closes outer (.list [.symbol m.head, v]) tail form

/-- The contexts take these tokens, and the outermost form is done. -/
def Demands : List Context → List Token → Value → Prop
  | .list before :: outer, used, form =>
    ∃ ds last rest, used = allTokens ds ++ last :: rest ∧ last.kind = .closing ∧
      Closes outer (.list (before.reverse ++ allForms ds)) rest form
  | contexts, used, form =>
    ∃ (d : ParseTree) (rest : List Token), used = d.tokens ++ rest ∧
      Closes contexts d.form rest form

theorem demands_of_closes {contexts : List Context} {d : ParseTree} {tail : List Token}
    {form : Value} (h : Closes contexts d.form tail form) :
    Demands contexts (d.tokens ++ tail) form := by
  match contexts, h with
  | [], h => exact ⟨d, tail, rfl, h⟩
  | .mark m text :: outer, h => exact ⟨d, tail, rfl, h⟩
  | .list before :: outer, ⟨ds, last, rest, htail, hlast, hclose⟩ =>
    refine ⟨d :: ds, last, rest, ?_, hlast, hclose⟩
    rw [htail, allTokens, List.append_assoc]

theorem closes_of_done {contexts : List Context} {v form : Value}
    (h : deliver contexts v = .inl form) : Closes contexts v [] form := by
  induction contexts generalizing v with
  | nil => exact ⟨rfl, (Sum.inl.inj h).symm⟩
  | cons context outer ih =>
    cases context with
    | list before => simp [deliver] at h
    | mark m text => exact ih h

theorem closes_of_demands {contexts next : List Context} {v form : Value} {tail : List Token}
    (h : deliver contexts v = .inr next) (hnext : Demands next tail form) :
    Closes contexts v tail form := by
  induction contexts generalizing v with
  | nil => simp [deliver] at h
  | cons context outer ih =>
    cases context with
    | list before =>
      obtain rfl : .list (v :: before) :: outer = next := Sum.inr.inj h
      obtain ⟨ds, last, rest, htail, hlast, hclose⟩ := hnext
      refine ⟨ds, last, rest, htail, hlast, ?_⟩
      simpa only [List.reverse_cons, List.append_assoc, List.cons_append, List.nil_append]
        using hclose
    | mark m text => exact ih h

/-- Some of the tokens meet what the contexts demand, and the stream is left with the others. -/
def Reads (failure : Option ReadError) (contexts : List Context) (ts : List Token) (form : Value)
    (s : TokenStream) : Prop :=
  ∃ used rest, ts = used ++ rest ∧ s = ⟨[], rest, failure⟩ ∧ Demands contexts used form

theorem closes_of_proceed {failure : Option ReadError} {contexts : List Context} {v : Value}
    {ts : List Token} {form : Value} {s : TokenStream}
    (ih : ∀ next, parseIn failure next ts = (.ok (some form), s) → Reads failure next ts form s)
    (h : proceed failure ts (deliver contexts v) = (.ok (some form), s)) :
    ∃ used rest, ts = used ++ rest ∧ s = ⟨[], rest, failure⟩ ∧ Closes contexts v used form := by
  cases hd : deliver contexts v with
  | inl done =>
    rw [hd] at h
    simp only [proceed, Prod.mk.injEq, Except.ok.injEq, Option.some.injEq] at h
    obtain ⟨rfl, rfl⟩ := h
    exact ⟨[], ts, rfl, rfl, closes_of_done hd⟩
  | inr next =>
    rw [hd] at h
    obtain ⟨used, rest, hts, hs, hdemands⟩ := ih next h
    exact ⟨used, rest, hts, hs, closes_of_demands hd hdemands⟩

theorem reads_of_parseIn {failure : Option ReadError} (ts : List Token) (contexts : List Context)
    {form : Value} {s : TokenStream} (h : parseIn failure contexts ts = (.ok (some form), s)) :
    Reads failure contexts ts form s := by
  induction ts generalizing contexts with
  | nil =>
    rw [parseIn] at h
    split at h <;> simp at h
  | cons t ts ih =>
    -- Except at a closing parenthesis, the token starts a tree that the rest completes.
    cases hkind : t.kind with
    | symbol =>
      rw [parseIn_atom failure contexts (.inl hkind)] at h
      obtain ⟨used, rest, rfl, rfl, hclose⟩ := closes_of_proceed ih h
      exact ⟨t :: used, rest, rfl, rfl, demands_of_closes (d := .atom t (.inl hkind)) hclose⟩
    | string =>
      rw [parseIn_atom failure contexts (.inr hkind)] at h
      obtain ⟨used, rest, rfl, rfl, hclose⟩ := closes_of_proceed ih h
      exact ⟨t :: used, rest, rfl, rfl, demands_of_closes (d := .atom t (.inr hkind)) hclose⟩
    | mark m =>
      rw [parseIn_mark failure contexts hkind] at h
      obtain ⟨-, rest, rfl, rfl, d, tail, rfl, hclose⟩ := ih _ h
      exact ⟨_, rest, rfl, rfl, demands_of_closes (d := .mark t m hkind d) hclose⟩
    | opening =>
      rw [parseIn_opening failure contexts hkind] at h
      obtain ⟨-, rest, rfl, rfl, ds, last, tail, rfl, hlast, hclose⟩ := ih _ h
      have hdemands := demands_of_closes (d := .list t hkind ds last hlast) hclose
      refine ⟨_, rest, ?_, rfl, hdemands⟩
      simp [tokens]
    | closing =>
      match contexts, h with
      | [], h => simp [parseIn, hkind] at h
      | .mark m text :: outer, h => simp [parseIn, hkind] at h
      | .list before :: outer, h =>
        rw [parseIn_closing failure before outer hkind] at h
        obtain ⟨used, rest, rfl, rfl, hclose⟩ := closes_of_proceed ih h
        refine ⟨t :: used, rest, rfl, rfl, [], t, used, rfl, hkind, ?_⟩
        simpa only [allForms, List.append_nil] using hclose

theorem deliver_ne_inr_nil (contexts : List Context) (v : Value) :
    deliver contexts v ≠ .inr [] := by
  induction contexts generalizing v with
  | nil => simp [deliver]
  | cons context outer ih =>
    cases context with
    | list before => simp [deliver]
    | mark m text => exact ih _

theorem shift_ne_inr_nil (contexts : List Context) (t : Token) :
    shift contexts t ≠ some (.inr []) := by
  unfold shift
  split
  all_goals simp [deliver_ne_inr_nil]

theorem eq_nil_of_parseIn_none {failure : Option ReadError} (ts : List Token)
    (contexts : List Context) {s : TokenStream}
    (h : parseIn failure contexts ts = (.ok none, s)) :
    ts = [] ∧ contexts = [] ∧ failure = none := by
  induction ts generalizing contexts with
  | nil =>
    refine ⟨rfl, ?_⟩
    match contexts, h with
    | [], h => cases failure <;> simp [parseIn, endError?] at h ⊢
    | .list before :: outer, h => cases failure <;> simp [parseIn, endError?] at h
    | .mark m text :: outer, h => cases failure <;> simp [parseIn, endError?] at h
  | cons t ts ih =>
    exfalso
    cases hshift : shift contexts t with
    | none =>
      rw [parseIn_of_no_shift failure hshift] at h
      cases h
    | some next =>
      rw [parseIn_of_shift failure hshift] at h
      cases next with
      | inl form => cases h
      | inr next =>
        obtain ⟨-, rfl, -⟩ := ih next h
        exact shift_ne_inr_nil contexts t hshift

theorem parse_tokens {s : TokenStream} {d : ParseTree} {rest : List Token}
    (h : s.remaining = d.tokens ++ rest) :
    s.parse = (.ok (some d.form), ⟨[], rest, s.failure⟩) := by
  rw [parse, h, parseIn_tokens]
  rfl

theorem exists_tree_of_parse {s t : TokenStream} {form : Value}
    (h : s.parse = (.ok (some form), t)) :
    ∃ (d : ParseTree) (rest : List Token), s.remaining = d.tokens ++ rest ∧ d.form = form ∧
      t = ⟨[], rest, s.failure⟩ := by
  obtain ⟨-, rest, hts, hs, d, tail, rfl, rfl, hform⟩ := reads_of_parseIn _ _ h
  rw [List.append_nil] at hts
  exact ⟨d, rest, hts, hform.symm, hs⟩

theorem parse_nil {s : TokenStream} (hrest : s.remaining = []) (hfailure : s.failure = none) :
    s.parse = (.ok none, exhausted) := by
  rw [parse, hrest, hfailure]
  rfl

/-- Where no form stands at the front of the tokens that are left, reading is an error. -/
theorem exists_error_of_stuck {s : TokenStream} (hstuck : Stuck s.remaining)
    (hleft : s.remaining = [] → s.failure ≠ none) : ∃ e t, s.parse = (.error e, t) := by
  match hparse : s.parse with
  | (.error e, t) => exact ⟨e, t, rfl⟩
  | (.ok (some form), t) =>
    obtain ⟨d, rest, hd, -⟩ := exists_tree_of_parse hparse
    exact absurd hd (hstuck d rest)
  | (.ok none, t) =>
    obtain ⟨hnil, -, hfailure⟩ := eq_nil_of_parseIn_none _ _ hparse
    exact absurd hfailure (hleft hnil)

theorem parseUpTo_tokens {s : TokenStream} {d : ParseTree} {rest : List Token}
    (h : s.remaining = d.tokens ++ rest) (fuel : Nat) :
    s.parseUpTo (fuel + 1) =
      (d.form :: (parseUpTo fuel ⟨[], rest, s.failure⟩).1,
        (parseUpTo fuel ⟨[], rest, s.failure⟩).2) := by
  rw [parseUpTo, parse_tokens h]

theorem parseUpTo_allTokens {s : TokenStream} {ds : List ParseTree} {rest : List Token}
    (h : s.remaining = allTokens ds ++ rest) (fuel : Nat) :
    s.parseUpTo (ds.length + (fuel + 1)) =
      (allForms ds ++ (parseUpTo (fuel + 1) ⟨[], rest, s.failure⟩).1,
        (parseUpTo (fuel + 1) ⟨[], rest, s.failure⟩).2) := by
  induction ds generalizing s with
  | nil =>
    have hparse : s.parse = (⟨[], rest, s.failure⟩ : TokenStream).parse := by
      rw [parse, h]
      rfl
    have hsame : s.parseUpTo (fuel + 1) = parseUpTo (fuel + 1) ⟨[], rest, s.failure⟩ := by
      rw [parseUpTo, parseUpTo, hparse]
    rw [List.length_nil, Nat.zero_add, hsame]
    rfl
  | cons d ds ih =>
    rw [allTokens, List.append_assoc] at h
    have hlength : (d :: ds).length + (fuel + 1) = ds.length + (fuel + 1) + 1 := by
      simp only [List.length_cons]
      omega
    rw [hlength, parseUpTo_tokens h, ih rfl]
    rfl

/-- Reading stops by itself, so more attempts than there are tokens change nothing. -/
theorem parseUpTo_congr {s : TokenStream} {fuel more : Nat} (h : s.remaining.length < fuel)
    (k : s.remaining.length < more) : s.parseUpTo fuel = s.parseUpTo more := by
  induction fuel generalizing s more with
  | zero => exact absurd h (Nat.not_lt_zero _)
  | succ fuel ih =>
    obtain ⟨more, rfl⟩ := Nat.exists_eq_succ_of_ne_zero (Nat.ne_zero_of_lt k)
    rw [parseUpTo, parseUpTo]
    match hparse : s.parse with
    | (.error e, t) => rfl
    | (.ok none, t) => rfl
    | (.ok (some form), t) =>
      obtain ⟨d, rest, hd, -, rfl⟩ := exists_tree_of_parse hparse
      have hpos : 0 < d.tokens.length := List.length_pos_iff.mpr d.tokens_ne_nil
      have hlength : s.remaining.length = d.tokens.length + rest.length := by
        rw [hd, List.length_append]
      have hrest : (⟨[], rest, s.failure⟩ : TokenStream).remaining.length = rest.length := rfl
      have hlater : parseUpTo fuel ⟨[], rest, s.failure⟩ =
          parseUpTo more ⟨[], rest, s.failure⟩ := ih (by omega) (by omega)
      simp only [hlater]

theorem parseAll_append {s : TokenStream} {ds : List ParseTree} {rest : List Token}
    (h : s.remaining = allTokens ds ++ rest) :
    s.parseAll = (allForms ds ++ (⟨[], rest, s.failure⟩ : TokenStream).parseAll.1,
      (⟨[], rest, s.failure⟩ : TokenStream).parseAll.2) := by
  have hlength : s.remaining.length = (allTokens ds).length + rest.length := by
    rw [h, List.length_append]
  have hle : ds.length ≤ (allTokens ds).length := length_le_allTokens ds
  have henough : s.parseAll =
      s.parseUpTo (ds.length + (rest.length + (allTokens ds).length + 1)) :=
    parseUpTo_congr (Nat.lt_succ_self _) (by omega)
  have hrest : (⟨[], rest, s.failure⟩ : TokenStream).remaining.length = rest.length := rfl
  have hlater : parseUpTo (rest.length + (allTokens ds).length + 1) ⟨[], rest, s.failure⟩ =
      (⟨[], rest, s.failure⟩ : TokenStream).parseAll :=
    parseUpTo_congr (by omega) (Nat.lt_succ_self _)
  rw [henough, parseUpTo_allTokens h, hlater]

theorem parseAll_of_derived {s : TokenStream} {ds : List ParseTree}
    (h : s.remaining = allTokens ds) (hfailure : s.failure = none) :
    s.parseAll = (allForms ds, none, exhausted) := by
  have hend : (⟨[], [], s.failure⟩ : TokenStream).parse = (.ok none, exhausted) :=
    parse_nil rfl hfailure
  have hlast : (⟨[], [], s.failure⟩ : TokenStream).parseAll = ([], none, exhausted) := by
    rw [parseAll, attempts, parseUpTo, hend]
  rw [parseAll_append (h.trans (List.append_nil _).symm), hlast, List.append_nil]

theorem parseAll_of_stuck {s : TokenStream} {ds : List ParseTree} {rest : List Token}
    (h : s.remaining = allTokens ds ++ rest) (hstuck : Stuck rest)
    (hleft : rest = [] → s.failure ≠ none) : ∃ e t, s.parseAll = (allForms ds, some e, t) := by
  obtain ⟨e, t, herror⟩ :=
    exists_error_of_stuck (s := ⟨[], rest, s.failure⟩) hstuck hleft
  have hlast : (⟨[], rest, s.failure⟩ : TokenStream).parseAll = ([], some e, t) := by
    rw [parseAll, attempts, parseUpTo, herror]
  exact ⟨e, t, by rw [parseAll_append h, hlast, List.append_nil]⟩

theorem derives_of_parseAll {s t : TokenStream} {forms : List Value}
    (h : s.parseAll = (forms, none, t)) : s.failure = none ∧ Derives s.remaining forms := by
  obtain ⟨ds, rest, hfront, hstuck⟩ := exists_front s.remaining
  by_cases hleft : rest = [] → s.failure ≠ none
  · obtain ⟨e, u, herror⟩ := parseAll_of_stuck hfront hstuck hleft
    simp [herror] at h
  · push Not at hleft
    obtain ⟨rfl, hfailure⟩ := hleft
    rw [List.append_nil] at hfront
    rw [parseAll_of_derived hfront hfailure] at h
    exact ⟨hfailure, ds, hfront.symm, congrArg Prod.fst h⟩

/-- Reading a sequence of tokens succeeds exactly when the sequence derives forms, and with these
forms; there is one parse tree only. Otherwise it ends with an error, behind the forms of the
longest beginning that derives any. -/
theorem parseAll_accepts_grammar (ts : List Token) :
    (∀ forms, (∃ s, (ofTokens ts).parseAll = (forms, none, s)) ↔ Derives ts forms) ∧
    Subsingleton { ds : List ParseTree // allTokens ds = ts } ∧
    ((∀ forms, ¬ Derives ts forms) →
      ∃ forms e s, (ofTokens ts).parseAll = (forms, some e, s) ∧
        ∃ front back, ts = front ++ back ∧ Derives front forms ∧
          ∀ other, other <+: ts → (∃ forms', Derives other forms') → other <+: front) := by
  refine ⟨?_, ⟨fun a b => Subtype.ext (allTokens_inj (a.2.trans b.2.symm))⟩, ?_⟩
  · intro forms
    constructor
    · rintro ⟨s, hparse⟩
      exact (derives_of_parseAll hparse).2
    · rintro ⟨ds, hds, rfl⟩
      exact ⟨exhausted, parseAll_of_derived hds.symm rfl⟩
  · intro hnot
    obtain ⟨ds, rest, hfront, hstuck⟩ := exists_front ts
    have hrest : rest ≠ [] := by
      rintro rfl
      exact hnot (allForms ds) ⟨ds, (hfront.trans (List.append_nil _)).symm, rfl⟩
    obtain ⟨e, t, herror⟩ :=
      parseAll_of_stuck (s := ofTokens ts) hfront hstuck fun hnil => absurd hnil hrest
    refine ⟨allForms ds, e, t, herror, allTokens ds, rest, hfront, ⟨ds, rfl, rfl⟩, ?_⟩
    rintro other ⟨tail, htail⟩ ⟨-, es, rfl, -⟩
    obtain ⟨more, rfl⟩ := prefix_of_stuck hstuck es tail (htail.trans hfront)
    exact ⟨allTokens more, (allTokens_append es more).symm⟩

/-- Reading an atom and an unmatched parenthesis gives the atom and an error. -/
theorem parseAll_accepts_grammar_unmatched :
    let ts := [Token.ofName "a", Token.opening, Token.ofName "b"]
    (∀ forms, ¬ Derives ts forms) ∧
      ∃ forms e s, (ofTokens ts).parseAll = (forms, some e, s) ∧
        ∃ front back, ts = front ++ back ∧ Derives front forms ∧
          ∀ other, other <+: ts → (∃ forms', Derives other forms') → other <+: front := by
  intro ts
  have hnot : ∀ forms, ¬ Derives ts forms := by
    intro forms hderives
    obtain ⟨s, hs⟩ := ((parseAll_accepts_grammar ts).1 forms).mpr hderives
    have herror : (ofTokens ts).parseAll.2.1 = some .unmatchedOpening := rfl
    simp [hs] at herror
  exact ⟨hnot, (parseAll_accepts_grammar ts).2.2 hnot⟩

end TreeLisp.TokenStream
