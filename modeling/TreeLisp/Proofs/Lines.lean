import TreeLisp.Proofs.Printing

/-!
# Reading one text after another

When a text can be read, nothing in it reaches across a line feed behind it: a symbol, a mark and a
comment end there, and every string and list is closed before it. So a text that follows on the next
line is read as if it stood alone. Only the positions of its characters are others, which shows in
the error of a string that is never closed and nowhere else.
-/
namespace TreeLisp

open Lexer

namespace Lexer

theorem Piece.before_feed {found : Option Token} {taken cs : List Char} (h : Piece found taken cs)
    (rest : List Char) : Piece found taken (cs ++ '\n' :: rest) := by
  have hhead : ∀ c ∈ (cs ++ '\n' :: rest).head?, c ∈ cs.head? ∨ c = '\n' := by
    cases cs with
    | nil => simp
    | cons d cs => simp
  cases h with
  | blank hc => exact .blank hc
  | comment hbody hrest =>
    apply Piece.comment hbody
    intro c hc
    exact (hhead c hc).elim (hrest c) id
  | token hlexeme =>
    apply Piece.token
    cases hlexeme with
    | symbol hne hchars hrest =>
      apply Lexeme.symbol hne hchars
      intro c hc
      rcases hhead c hc with hold | rfl
      · exact hrest c hold
      · exact isSymbolChar_of_isBlank (by decide)
    | string hbody => exact .string hbody
    | opening => exact .opening
    | closing => exact .closing
    | mark m hrest =>
      apply Lexeme.mark m
      intro hm hat
      rcases hhead '@' hat with hold | hfeed
      · exact hrest hm hold
      · exact absurd hfeed (by decide)

theorem Partition.before_feed {tokens : List Token} {cs : List Char} (h : Partition [] tokens cs)
    (rest : List Char) : Partition ('\n' :: rest) tokens cs := by
  induction h with
  | nil => exact .nil
  | piece hpiece hrest ih =>
    rw [List.append_nil] at hpiece
    exact .piece (hpiece.before_feed rest) ih

end Lexer

/-- The error of a text that starts at this position of a longer one. -/
def ReadError.moved (n : Nat) : ReadError → ReadError
  | .unterminated start => .unterminated (start + n)
  -- No character is unexpected, so no other error that comes up has a position.
  | e => e

namespace Lexer

def Lexed.moved (n : Nat) (l : Lexed) : Lexed :=
  ⟨l.tokens, l.failure.map (ReadError.moved n)⟩

theorem lexFrom_moved (n position : Nat) (cs : List Char) :
    lexFrom .between (position + n) cs = (lexFrom .between position cs).moved n := by
  obtain ⟨tokens, front, after, rfl, hpartition, hend⟩ := exists_partition cs
  rw [lexFrom_partition hpartition, lexFrom_partition hpartition]
  rcases hend with rfl | ⟨back, rfl, hback⟩
  · rfl
  · rw [lexFrom_unclosed_string hback, lexFrom_unclosed_string hback, Nat.add_right_comm]
    rfl

theorem lex_append_feed {first : String} {tokens : List Token}
    (h : Partition [] tokens first.toList) (second : String) :
    lex (first ++ "\n" ++ second) = ((lex second).moved (first.length + 1)).prepend tokens := by
  have hchars : (first ++ "\n" ++ second).toList = first.toList ++ '\n' :: second.toList := by simp
  have hfeed : step (0 + first.toList.length) '\n' .between = ([], .ok .between) := rfl
  rw [lex, hchars, lexFrom_partition (h.before_feed _), lexFrom_cons hfeed, Lexed.prepend_nil,
    Nat.add_assoc, lexFrom_moved, String.length_toList]
  rfl

end Lexer

namespace TokenStream

def moved (n : Nat) (s : TokenStream) : TokenStream :=
  ⟨s.buffer, s.pending, s.failure.map (ReadError.moved n)⟩

theorem endError?_moved (n : Nat) (contexts : List Context) :
    (endError? contexts).map (ReadError.moved n) = endError? contexts := by
  match contexts with
  | [] => rfl
  | .list before :: outer => rfl
  | .mark m text :: outer => rfl

/-- The errors of the parser itself have no position. -/
theorem parseIn_moved (n : Nat) (failure : Option ReadError) (contexts : List Context)
    (ts : List Token) :
    parseIn (failure.map (ReadError.moved n)) contexts ts =
      Prod.map (Except.mapError (ReadError.moved n)) (moved n) (parseIn failure contexts ts) := by
  induction ts generalizing contexts with
  | nil =>
    have hor : (failure.map (ReadError.moved n)).or (endError? contexts) =
        (failure.or (endError? contexts)).map (ReadError.moved n) := by
      rw [Option.map_or, endError?_moved]
    rw [parseIn, parseIn, hor]
    cases failure.or (endError? contexts) <;> rfl
  | cons t ts ih =>
    cases hshift : shift contexts t with
    | none =>
      rw [parseIn_of_no_shift _ hshift, parseIn_of_no_shift _ hshift]
      rfl
    | some next =>
      rw [parseIn_of_shift _ hshift, parseIn_of_shift _ hshift]
      cases next with
      | inl form => rfl
      | inr next => exact ih next

theorem parseUpTo_moved (n fuel : Nat) (s : TokenStream) :
    (s.moved n).parseUpTo fuel =
      ((s.parseUpTo fuel).1, (s.parseUpTo fuel).2.1.map (ReadError.moved n),
        (s.parseUpTo fuel).2.2.moved n) := by
  induction fuel generalizing s with
  | zero => rfl
  | succ fuel ih =>
    have hparse : (s.moved n).parse =
        Prod.map (Except.mapError (ReadError.moved n)) (moved n) s.parse :=
      parseIn_moved n s.failure [] s.remaining
    rw [parseUpTo, parseUpTo, hparse]
    rcases s.parse with ⟨e | _ | form, t⟩
    · rfl
    · rfl
    · simp only [Prod.map, Except.mapError, ih]

end TokenStream

theorem TokenStream.parseAll_append_feed {first : String} {forms : List Value}
    (h : read first = .ok forms) (second : String) :
    (ofSource (first ++ "\n" ++ second)).parseAll =
      (forms ++ (ofSource second).parseAll.1,
        (ofSource second).parseAll.2.1.map (ReadError.moved (first.length + 1)),
        (ofSource second).parseAll.2.2.moved (first.length + 1)) := by
  obtain ⟨tokens, hpartition, ds, rfl, rfl⟩ := (read_eq_ok_iff first forms).mp h
  have hlex := lex_append_feed hpartition second
  have hremaining : (ofSource (first ++ "\n" ++ second)).remaining =
      ParseTree.allTokens ds ++ (lex second).tokens := by
    simp only [ofSource, remaining, hlex]
    rfl
  have hfailure : (ofSource (first ++ "\n" ++ second)).failure =
      (lex second).failure.map (ReadError.moved (first.length + 1)) := by
    simp only [ofSource, hlex]
    rfl
  have hlater : ((ofSource second).moved (first.length + 1)).parseAll = _ :=
    parseUpTo_moved (first.length + 1) (ofSource second).attempts (ofSource second)
  have hstream : (⟨[], (lex second).tokens,
      (lex second).failure.map (ReadError.moved (first.length + 1))⟩ : TokenStream) =
      (ofSource second).moved (first.length + 1) := rfl
  rw [parseAll_append hremaining, hfailure, hstream, hlater]
  rfl

theorem read_append_feed {first : String} {forms : List Value} (h : read first = .ok forms)
    (second : String) :
    read (first ++ "\n" ++ second) =
      ((read second).mapError (ReadError.moved (first.length + 1))).map (forms ++ ·) := by
  rw [read, read, TokenStream.parseAll_append_feed h]
  rcases (TokenStream.ofSource second).parseAll with ⟨more, _ | e, s⟩ <;> rfl

/-- A text on the next line behind one that can be read gives the forms that it gives alone, behind
those of the first text, and it ends with the error that it ends with alone. Only the position of a
string that is never closed is counted from the start of the first text. -/
theorem reading_composes_over_lines {first : String} {forms : List Value}
    (h : read first = .ok forms) (second : String) :
    let n := first.length + 1
    let whole := first ++ "\n" ++ second
    let alone := (TokenStream.ofSource second).parseAll
    (TokenStream.ofSource whole).parseAll =
      (forms ++ alone.1, alone.2.1.map (ReadError.moved n), alone.2.2.moved n) ∧
    (∀ more, read whole = .ok (forms ++ more) ↔ read second = .ok more) ∧
    (∀ e, read whole = .error e ↔ ∃ e', read second = .error e' ∧ e = e'.moved n) ∧
    (∀ start, ((ReadError.unterminated start).moved n).message =
      "Unterminated string starting at " ++ Text.natText (start + n)) ∧
    (∀ e : ReadError, (∀ start, e ≠ .unterminated start) → (e.moved n).message = e.message) := by
  intro n whole alone
  have hread := read_append_feed h second
  refine ⟨TokenStream.parseAll_append_feed h second, ?_, ?_, fun start => rfl, ?_⟩
  · intro more
    rw [hread]
    cases read second with
    | error e => exact ⟨nofun, nofun⟩
    | ok found => simp [Except.map, Except.mapError]
  · intro e
    rw [hread]
    cases read second with
    | error e' => simp [Except.map, Except.mapError, eq_comm, n]
    | ok found => simp [Except.map, Except.mapError]
  · intro e he
    cases e with
    | unterminated start => exact absurd rfl (he start)
    | _ => rfl

/-- A comment at the end of the first text ends with its line, and the position of the string is
counted on. -/
theorem reading_composes_over_lines_comment :
    read "(a) ;b" = .ok [.list [.symbol "a"]] ∧ read "c \"d" = .error (.unterminated 2) ∧
      read ("(a) ;b" ++ "\n" ++ "c \"d") = .error (.unterminated 9) ∧
      (TokenStream.ofSource ("(a) ;b" ++ "\n" ++ "c \"d")).parseAll.1 =
        [.list [.symbol "a"], .symbol "c"] := by
  have hfirst : read "(a) ;b" = .ok [.list [.symbol "a"]] := rfl
  have hsecond : read "c \"d" = .error (.unterminated 2) := rfl
  obtain ⟨hall, -, herror, -⟩ := reading_composes_over_lines hfirst "c \"d"
  refine ⟨hfirst, hsecond, (herror _).mpr ⟨_, hsecond, rfl⟩, ?_⟩
  rw [hall]
  rfl

end TreeLisp
