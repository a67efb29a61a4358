import TreeLisp.Proofs.Parsing

/-!
# What a syntax error tells

The parser is a machine that takes one token at a time and keeps the contexts that are open. Between
two forms none is open. The machine stops at a closing parenthesis that no list awaits, and nothing
that follows can make forms of the tokens up to there. As long as it has not stopped, an atom and a
closing parenthesis for every open list complete the tokens to a sequence of forms. At the end of
the tokens the error is that of the innermost context, which the last token has opened or has left
open.
-/
namespace TreeLisp

/-- Some continuation makes a sequence of forms out of the tokens. -/
def Completable (ts : List Token) : Prop :=
  ∃ more forms, Derives (ts ++ more) forms

theorem Completable.of_front {front ts : List Token} (h : Completable ts) (k : front <+: ts) :
    Completable front := by
  obtain ⟨back, rfl⟩ := k
  obtain ⟨more, forms, hderives⟩ := h
  rw [List.append_assoc] at hderives
  exact ⟨back ++ more, forms, hderives⟩

namespace TokenStream

open ParseTree

/-- The contexts in which the next token is read; none is open behind a complete form. -/
def stillOpen : Value ⊕ List Context → List Context
  | .inl _ => []
  | .inr contexts => contexts

def openNext (contexts : List Context) (t : Token) : Option (List Context) :=
  (shift contexts t).map stillOpen

def openAfter (contexts : List Context) (ts : List Token) : Option (List Context) :=
  ts.foldlM openNext contexts

theorem openAfter_cons (contexts : List Context) (t : Token) (ts : List Token) :
    openAfter contexts (t :: ts) = (openNext contexts t).bind fun next => openAfter next ts :=
  List.foldlM_cons

theorem openAfter_append (contexts : List Context) (front back : List Token) :
    openAfter contexts (front ++ back) =
      (openAfter contexts front).bind fun next => openAfter next back :=
  List.foldlM_append

theorem openAfter_cases (contexts : List Context) (ts : List Token) :
    (∃ next, openAfter contexts ts = some next) ∨
      ∃ front t back next, ts = front ++ t :: back ∧ openAfter contexts front = some next ∧
        openNext next t = none := by
  induction ts generalizing contexts with
  | nil => exact .inl ⟨contexts, rfl⟩
  | cons t ts ih =>
    cases hnext : openNext contexts t with
    | none => exact .inr ⟨[], t, ts, contexts, rfl, rfl, hnext⟩
    | some next =>
      have hcons (us : List Token) : openAfter contexts (t :: us) = openAfter next us := by
        rw [openAfter_cons, hnext, Option.bind_some]
      rcases ih next with ⟨last, hlast⟩ | ⟨front, u, back, last, rfl, hlast, hstop⟩
      · exact .inl ⟨last, (hcons ts).trans hlast⟩
      · exact .inr ⟨t :: front, u, back, last, rfl, (hcons front).trans hlast, hstop⟩

theorem kind_eq_closing_of_stop {contexts : List Context} {t : Token}
    (h : openNext contexts t = none) : t.kind = .closing := by
  have hshift : shift contexts t = none := Option.map_eq_none_iff.mp h
  cases hkind : t.kind with
  | symbol => simp [shift_atom contexts (.inl hkind)] at hshift
  | string => simp [shift_atom contexts (.inr hkind)] at hshift
  | mark m => simp [shift_mark contexts hkind] at hshift
  | opening => simp [shift_opening contexts hkind] at hshift
  | closing => rfl

/-- Finish the form that is being read, and then read all the others. -/
def parseOn (contexts : List Context) (ts : List Token) :
    List Value × Option ReadError × TokenStream :=
  match parseIn none contexts ts with
  | (.error e, s) => ([], some e, s)
  | (.ok none, s) => ([], none, s)
  | (.ok (some form), s) => (form :: s.parseAll.1, s.parseAll.2)

theorem parseAll_eq_parseOn (ts : List Token) : (ofTokens ts).parseAll = parseOn [] ts := by
  have hparse : (ofTokens ts).parse = parseIn none [] ts := rfl
  rw [parseAll, attempts, parseUpTo, parseOn, ← hparse]
  rcases hresult : (ofTokens ts).parse with ⟨e | _ | form, s⟩
  · rfl
  · rfl
  · obtain ⟨d, rest, hd, -, rfl⟩ := exists_tree_of_parse hresult
    have hpos : 0 < d.tokens.length := List.length_pos_iff.mpr d.tokens_ne_nil
    have hlength : (ofTokens ts).remaining.length = d.tokens.length + rest.length := by
      rw [hd, List.length_append]
    have hrest : (⟨[], rest, none⟩ : TokenStream).remaining.length = rest.length := rfl
    have henough : parseUpTo (ofTokens ts).remaining.length ⟨[], rest, none⟩ =
        (⟨[], rest, none⟩ : TokenStream).parseAll :=
      parseUpTo_congr (by omega) (Nat.lt_succ_self _)
    simp only [ofTokens] at henough ⊢
    simp only [henough]

theorem parseOn_nil (contexts : List Context) :
    (parseOn contexts []).2 = (endError? contexts, exhausted) := by
  rw [parseOn, parseIn, Option.none_or]
  cases endError? contexts <;> rfl

theorem parseOn_cons {contexts next : List Context} {t : Token}
    (h : openNext contexts t = some next) (ts : List Token) :
    (parseOn contexts (t :: ts)).2 = (parseOn next ts).2 := by
  obtain ⟨result, hshift, rfl⟩ := Option.map_eq_some_iff.mp h
  rw [parseOn, parseIn_of_shift none hshift]
  cases result with
  | inl form =>
    change (ofTokens ts).parseAll.2 = (parseOn [] ts).2
    rw [parseAll_eq_parseOn]
  | inr contexts => rfl

theorem parseOn_stop {contexts : List Context} {t : Token} (h : openNext contexts t = none)
    (ts : List Token) :
    (parseOn contexts (t :: ts)).2 = (some .unexpectedClosing, ⟨[t], ts, none⟩) := by
  rw [parseOn, parseIn_of_no_shift none (Option.map_eq_none_iff.mp h)]

theorem parseOn_append {contexts next : List Context} {front : List Token}
    (h : openAfter contexts front = some next) (back : List Token) :
    (parseOn contexts (front ++ back)).2 = (parseOn next back).2 := by
  induction front generalizing contexts with
  | nil =>
    obtain rfl : contexts = next := Option.some.inj h
    rfl
  | cons t front ih =>
    rw [openAfter_cons] at h
    obtain ⟨later, hlater, hfront⟩ := Option.bind_eq_some_iff.mp h
    rw [List.cons_append, parseOn_cons hlater, ih hfront]

theorem parseAll_of_open {ts : List Token} {contexts : List Context}
    (h : openAfter [] ts = some contexts) :
    (ofTokens ts).parseAll.2 = (endError? contexts, exhausted) := by
  have hend := parseOn_append h []
  rw [List.append_nil, parseOn_nil] at hend
  rw [parseAll_eq_parseOn, hend]

theorem parseAll_of_stop {front : List Token} {t : Token} {contexts : List Context}
    (h : openAfter [] front = some contexts) (hstop : openNext contexts t = none)
    (back : List Token) :
    (ofTokens (front ++ t :: back)).parseAll.2 =
      (some .unexpectedClosing, ⟨[t], back, none⟩) := by
  rw [parseAll_eq_parseOn, parseOn_append h, parseOn_stop hstop]

/-- A closing parenthesis for every list that is open. -/
def closers : List Context → List Token
  | [] => []
  | .list _ :: outer => Token.closing :: closers outer
  | .mark _ _ :: outer => closers outer

theorem openAfter_closers (contexts : List Context) (v : Value) :
    openAfter (stillOpen (deliver contexts v)) (closers contexts) = some [] := by
  induction contexts generalizing v with
  | nil => rfl
  | cons context outer ih =>
    cases context with
    | list before => exact ih (.list (v :: before).reverse)
    | mark m text => exact ih (.list [.symbol m.head, v])

/-- An atom completes the marks and the closing parentheses the lists. -/
theorem completable_of_open {ts : List Token} {contexts : List Context}
    (h : openAfter [] ts = some contexts) : Completable ts := by
  have hatom : openNext contexts (Token.ofName "x") =
      some (stillOpen (deliver contexts (.symbol "x"))) := rfl
  have hopen : openAfter [] (ts ++ Token.ofName "x" :: closers contexts) = some [] := by
    rw [openAfter_append, h, Option.bind_some, openAfter_cons, hatom, Option.bind_some,
      openAfter_closers]
  have hend := parseAll_of_open hopen
  rcases hall : (ofTokens (ts ++ Token.ofName "x" :: closers contexts)).parseAll with
    ⟨forms, outcome⟩
  rw [hall] at hend
  obtain rfl : outcome = (none, exhausted) := hend
  exact ⟨Token.ofName "x" :: closers contexts, forms, (derives_of_parseAll hall).2⟩

theorem not_completable_of_stop {front : List Token} {t : Token} {contexts : List Context}
    (h : openAfter [] front = some contexts) (hstop : openNext contexts t = none) :
    ¬ Completable (front ++ [t]) := by
  rintro ⟨more, forms, ds, hds, -⟩
  rw [List.append_assoc] at hds
  have herror := parseAll_of_stop h hstop more
  have hderived := parseAll_of_derived (s := ofTokens (front ++ t :: more)) hds.symm rfl
  rw [hderived] at herror
  cases herror

/-- Every beginning without a continuation goes on to where the machine stops. -/
theorem prefix_of_stop {front back : List Token} {t : Token} {contexts : List Context}
    (h : openAfter [] front = some contexts) {other : List Token}
    (hother : other <+: front ++ t :: back) (hnot : ¬ Completable other) :
    front ++ [t] <+: other := by
  have hfront : front ++ [t] <+: front ++ t :: back := ⟨back, by simp⟩
  rcases List.prefix_or_prefix_of_prefix hother hfront with hbefore | hbehind
  · rcases List.prefix_concat_iff.mp hbefore with rfl | hshorter
    · exact List.prefix_rfl
    · exact absurd ((completable_of_open h).of_front hshorter) hnot
  · exact hbehind

theorem endError?_delivered (contexts : List Context) (v : Value) {e : ReadError}
    (h : endError? (stillOpen (deliver contexts v)) = some e) : e = .unmatchedOpening := by
  induction contexts generalizing v with
  | nil => cases h
  | cons context outer ih =>
    cases context with
    | list before => exact (Option.some.inj h).symm
    | mark m text => exact ih _ h

/-- A mark leaves itself open, any other token a list. -/
theorem endError?_openNext {contexts next : List Context} {t : Token} {e : ReadError}
    (h : openNext contexts t = some next) (he : endError? next = some e) :
    (∀ m, t.kind = .mark m → e = .missingForm t.text) ∧
      ((∀ m, t.kind ≠ .mark m) → e = .unmatchedOpening) := by
  obtain ⟨result, hshift, rfl⟩ := Option.map_eq_some_iff.mp h
  cases hkind : t.kind with
  | symbol =>
    rw [shift_atom contexts (.inl hkind)] at hshift
    obtain rfl := Option.some.inj hshift
    exact ⟨nofun, fun _ => endError?_delivered _ _ he⟩
  | string =>
    rw [shift_atom contexts (.inr hkind)] at hshift
    obtain rfl := Option.some.inj hshift
    exact ⟨nofun, fun _ => endError?_delivered _ _ he⟩
  | mark m =>
    rw [shift_mark contexts hkind] at hshift
    obtain rfl := Option.some.inj hshift
    exact ⟨fun _ _ => (Option.some.inj he).symm, fun hno => absurd rfl (hno m)⟩
  | opening =>
    rw [shift_opening contexts hkind] at hshift
    obtain rfl := Option.some.inj hshift
    exact ⟨nofun, fun _ => (Option.some.inj he).symm⟩
  | closing =>
    refine ⟨nofun, fun _ => ?_⟩
    match contexts, hshift with
    | [], hshift => simp [shift, hkind] at hshift
    | .mark m text :: outer, hshift => simp [shift, hkind] at hshift
    | .list before :: outer, hshift =>
      rw [shift_closing before outer hkind] at hshift
      obtain rfl := Option.some.inj hshift
      exact endError?_delivered _ _ he

theorem last_of_open {ts : List Token} {contexts : List Context} {e : ReadError}
    (h : openAfter [] ts = some contexts) (he : endError? contexts = some e) :
    ∃ front t, ts = front ++ [t] ∧ (∀ m, t.kind = .mark m → e = .missingForm t.text) ∧
      ((∀ m, t.kind ≠ .mark m) → e = .unmatchedOpening) := by
  rcases List.eq_nil_or_concat ts with rfl | ⟨front, t, rfl⟩
  · obtain rfl : [] = contexts := Option.some.inj h
    cases he
  · rw [List.concat_eq_append] at h ⊢
    rw [openAfter_append] at h
    obtain ⟨before, -, hlast⟩ := Option.bind_eq_some_iff.mp h
    have hnext : openNext before t = some contexts := by
      rw [openAfter_cons] at hlast
      obtain ⟨next, hnext, hnil⟩ := Option.bind_eq_some_iff.mp hlast
      rw [hnext, ← hnil]
      rfl
    exact ⟨front, t, rfl, endError?_openNext hnext he⟩

/-- The error of a sequence of tokens that cannot be read tells where it went wrong. If some
beginning of it has no continuation that derives forms, then the shortest such beginning ends in a
closing parenthesis, which is reported and stays in the stream with all that follows. Otherwise only
a continuation is missing. Then all tokens are consumed, and a mark at the very end is reported as
lacking its form, any other end as lacking a closing parenthesis. -/
theorem error_tells_place {ts : List Token} {forms : List Value} {e : ReadError}
    {s : TokenStream} (h : (ofTokens ts).parseAll = (forms, some e, s)) :
    ((∃ front, front <+: ts ∧ ¬ Completable front) →
      e = .unexpectedClosing ∧ e.message = "Unexpected ')'" ∧
      ∃ front t back, ts = front ++ t :: back ∧ t.kind = .closing ∧
        ¬ Completable (front ++ [t]) ∧
        (∀ other, other <+: ts → ¬ Completable other → front ++ [t] <+: other) ∧
        s = ⟨[t], back, none⟩) ∧
    ((¬ ∃ front, front <+: ts ∧ ¬ Completable front) →
      Completable ts ∧ s = exhausted ∧ ∃ front t, ts = front ++ [t] ∧
        (∀ m, t.kind = .mark m → e = .missingForm t.text ∧
          e.message = "Expected a form after " ++ Text.quoted t.text) ∧
        ((∀ m, t.kind ≠ .mark m) → e = .unmatchedOpening ∧ e.message = "Unmatched '('")) := by
  have hend : (ofTokens ts).parseAll.2 = (some e, s) := congrArg Prod.snd h
  rcases openAfter_cases [] ts with ⟨next, hopen⟩ | ⟨front, t, back, next, rfl, hopen, hstop⟩
  · have hcompletable : Completable ts := completable_of_open hopen
    rw [parseAll_of_open hopen, Prod.mk.injEq] at hend
    obtain ⟨herror, rfl⟩ := hend
    constructor
    · rintro ⟨front, hfront, hnot⟩
      exact absurd (hcompletable.of_front hfront) hnot
    · intro _
      obtain ⟨front, t, rfl, hmark, hother⟩ := last_of_open hopen herror
      refine ⟨hcompletable, rfl, front, t, rfl, fun m hm => ?_, fun hno => ?_⟩
      · obtain rfl := hmark m hm
        exact ⟨rfl, rfl⟩
      · obtain rfl := hother hno
        exact ⟨rfl, rfl⟩
  · have hnot : ¬ Completable (front ++ [t]) := not_completable_of_stop hopen hstop
    rw [parseAll_of_stop hopen hstop, Prod.mk.injEq, Option.some.injEq] at hend
    obtain ⟨rfl, rfl⟩ := hend
    constructor
    · intro _
      exact ⟨rfl, rfl, front, t, back, rfl, kind_eq_closing_of_stop hstop, hnot,
        fun other hother => prefix_of_stop hopen hother, rfl⟩
    · intro hall
      exact absurd ⟨front ++ [t], ⟨back, by simp⟩, hnot⟩ hall

/-- Behind an opening parenthesis and a mark, a closing parenthesis is unexpected, and the end of
the tokens lacks a form. -/
theorem error_tells_place_mark :
    let wrong := [Token.opening, Token.ofMark .quote, Token.closing, Token.ofName "a"]
    let short := [Token.opening, Token.ofMark .quote]
    (ofTokens wrong).parseAll =
        ([], some .unexpectedClosing, ⟨[Token.closing], [Token.ofName "a"], none⟩) ∧
      (∃ front, front <+: wrong ∧ ¬ Completable front) ∧
      (∃ front t back, wrong = front ++ t :: back ∧ t.kind = .closing ∧
        ¬ Completable (front ++ [t]) ∧
        ∀ other, other <+: wrong → ¬ Completable other → front ++ [t] <+: other) ∧
      (ofTokens short).parseAll = ([], some (.missingForm "'"), exhausted) ∧
      (¬ ∃ front, front <+: short ∧ ¬ Completable front) ∧
      ∃ front t, short = front ++ [t] ∧
        ∀ m, t.kind = .mark m → ReadError.missingForm "'" = .missingForm t.text := by
  intro wrong short
  have hwrong : (ofTokens wrong).parseAll =
      ([], some .unexpectedClosing, ⟨[Token.closing], [Token.ofName "a"], none⟩) := rfl
  have hshort : (ofTokens short).parseAll = ([], some (.missingForm "'"), exhausted) := rfl
  have hnot : ¬ Completable ([Token.opening, Token.ofMark .quote] ++ [Token.closing]) :=
    not_completable_of_stop rfl rfl
  have hbad : ∃ front, front <+: wrong ∧ ¬ Completable front := ⟨_, ⟨[Token.ofName "a"], rfl⟩, hnot⟩
  have hgood : ¬ ∃ front, front <+: short ∧ ¬ Completable front := by
    rintro ⟨front, hfront, hbad⟩
    exact hbad ((completable_of_open rfl).of_front hfront)
  obtain ⟨-, -, front, t, back, hts, hkind, hmin, hshortest, -⟩ := (error_tells_place hwrong).1 hbad
  obtain ⟨-, -, start, last, hends, hmark, -⟩ := (error_tells_place hshort).2 hgood
  exact ⟨hwrong, hbad, ⟨front, t, back, hts, hkind, hmin, hshortest⟩, hshort, hgood,
    start, last, hends, fun m hm => (hmark m hm).1⟩

end TokenStream

end TreeLisp
