import Mathlib.Data.List.TakeWhile
import Mathlib.Tactic.Common
import TreeLisp.Token.Lexer

/-!
# The lexer cuts its source into pieces

A source is a sequence of pieces: blanks, comments and the texts of tokens. Which piece a text
starts with depends on what follows it, since a symbol takes all the characters it can, a comment
runs to the end of the line and a comma before an at sign is part of a longer mark. So a piece is
judged together with the rest of the source. The lexer takes one piece after the other and stops
early only before a string that is never closed.
-/
namespace TreeLisp.Lexer

/-- The characters between the quotes of a string. A backslash takes the next character with it,
which is not a line feed; no other character is a backslash or a quote. -/
inductive StringBody : List Char → Prop where
  | nil : StringBody []
  | plain {c : Char} {cs : List Char} (hquote : c ≠ '"') (hbackslash : c ≠ '\\')
      (h : StringBody cs) : StringBody (c :: cs)
  | pair {c : Char} {cs : List Char} (hfeed : c ≠ '\n') (h : StringBody cs) :
      StringBody ('\\' :: c :: cs)

/-- A string that is opened before these characters has no closing quote. -/
def Unclosed (cs : List Char) : Prop :=
  ∀ body rest, StringBody body → cs ≠ body ++ '"' :: rest

/-- A token that may stand before the rest of a source. -/
inductive Lexeme : Token → List Char → Prop where
  | symbol {chars rest : List Char} (hne : chars ≠ [])
      (hchars : ∀ c ∈ chars, isSymbolChar c = true)
      (hrest : ∀ c ∈ rest.head?, isSymbolChar c = false) :
      Lexeme ⟨.symbol, String.ofList chars⟩ rest
  | string {body rest : List Char} (hbody : StringBody body) :
      Lexeme ⟨.string, String.ofList ('"' :: body ++ ['"'])⟩ rest
  | opening {rest : List Char} : Lexeme Token.opening rest
  | closing {rest : List Char} : Lexeme Token.closing rest
  | mark {rest : List Char} (m : Mark) (hrest : m = .unquote → rest.head? ≠ some '@') :
      Lexeme (Token.ofMark m) rest

/-- A piece of a source before the rest of it, with the token it gives if any. -/
inductive Piece : Option Token → List Char → List Char → Prop where
  | blank {c : Char} {rest : List Char} (hc : Text.isBlank c = true) : Piece none [c] rest
  | comment {body rest : List Char} (hbody : ∀ c ∈ body, c ≠ '\n')
      (hrest : ∀ c ∈ rest.head?, c = '\n') : Piece none (';' :: body) rest
  | token {t : Token} {rest : List Char} (h : Lexeme t rest) : Piece (some t) t.text.toList rest

/-- The text is a sequence of pieces that gives these tokens when `after` follows it. -/
inductive Partition (after : List Char) : List Token → List Char → Prop where
  | nil : Partition after [] []
  | piece {found : Option Token} {taken cs : List Char} {tokens : List Token}
      (hpiece : Piece found taken (cs ++ after)) (hrest : Partition after tokens cs) :
      Partition after (found.toList ++ tokens) (taken ++ cs)

theorem Lexeme.text_ne_nil {t : Token} {rest : List Char} (h : Lexeme t rest) :
    t.text.toList ≠ [] := by
  cases h with
  | symbol hne hchars hrest => simpa using hne
  | string hbody => simp
  | opening => decide
  | closing => decide
  | mark m hrest => cases m <;> decide

theorem Piece.taken_ne_nil {found : Option Token} {taken rest : List Char}
    (h : Piece found taken rest) : taken ≠ [] := by
  cases h with
  | blank hc => exact List.cons_ne_nil _ _
  | comment hbody hrest => exact List.cons_ne_nil _ _
  | token ht => exact ht.text_ne_nil

theorem StringBody.unique {body other rest rest' : List Char} (h : StringBody body)
    (k : StringBody other) (heq : body ++ '"' :: rest = other ++ '"' :: rest') :
    body = other := by
  induction h generalizing other with
  | nil =>
    cases k with
    | nil => rfl
    | plain hquote hbackslash k => simp [hquote.symm] at heq
    | pair hfeed k => simp at heq
  | @plain c cs hquote hbackslash h ih =>
    cases k with
    | nil => simp [hquote] at heq
    | plain hquote' hbackslash' k =>
      simp only [List.cons_append, List.cons.injEq] at heq
      rw [heq.1, ih k heq.2]
    | pair hfeed k => simp [hbackslash] at heq
  | @pair c cs hfeed h ih =>
    cases k with
    | nil => simp at heq
    | plain hquote' hbackslash' k => simp [hbackslash'.symm] at heq
    | pair hfeed' k =>
      simp only [List.cons_append, List.cons.injEq, true_and] at heq
      rw [heq.1, ih k heq.2]

/-- The quote that closes a string is the first one that no backslash takes with it. -/
theorem StringBody.not_append_quote (first later : List Char) :
    ¬ (StringBody first ∧ StringBody (first ++ '"' :: later)) := by
  rintro ⟨hfirst, hwhole⟩
  have heq : first = first ++ '"' :: later :=
    hfirst.unique hwhole (List.append_assoc first ('"' :: later) ['"']).symm
  have hlength := congrArg List.length heq
  simp only [List.length_append, List.length_cons] at hlength
  omega

def Lexed.prepend (tokens : List Token) (l : Lexed) : Lexed :=
  ⟨tokens ++ l.tokens, l.failure⟩

@[simp] theorem Lexed.prepend_nil (l : Lexed) : l.prepend [] = l := rfl

theorem Lexed.prepend_append (ts us : List Token) (l : Lexed) :
    l.prepend (ts ++ us) = (l.prepend us).prepend ts := by
  simp [Lexed.prepend]

theorem lexFrom_cons {mode next : Mode} {position : Nat} {c : Char} {tokens : List Token}
    (h : step position c mode = (tokens, .ok next)) (cs : List Char) :
    lexFrom mode position (c :: cs) = (lexFrom next (position + 1) cs).prepend tokens := by
  rw [lexFrom, h]
  rfl

theorem lexFrom_restart {mode : Mode} {position : Nat} {c : Char} {t : Token}
    (h : step position c mode = restart t position c) (cs : List Char) :
    lexFrom mode position (c :: cs) = (lexFrom .between position (c :: cs)).prepend [t] := by
  rw [lexFrom, lexFrom, h, restart, step]
  rcases start position c with ⟨tokens, e | next⟩
  · rfl
  · rfl

theorem start_of_isSymbolChar {c : Char} (h : isSymbolChar c = true) (position : Nat) :
    start position c = ([], .ok (.symbol [c])) := by
  have hsymbol := h
  simp only [isSymbolChar, isDelimiter, Bool.and_eq_true, Bool.not_eq_true',
    List.contains_eq_mem, List.mem_cons, List.not_mem_nil, or_false, decide_eq_false_iff_not,
    not_or] at h
  obtain ⟨hblank, hopen, hclose, hquote, hquasi, hstring, hcomma, hcomment⟩ := h
  simp [start, hblank, hopen, hclose, hquote, hquasi, hstring, hcomma, hcomment, hsymbol]

theorem lexFrom_symbol (run rest : List Char) (hrun : ∀ c ∈ run, isSymbolChar c = true)
    (hrest : ∀ c ∈ rest.head?, isSymbolChar c = false) (read : List Char) (position : Nat) :
    lexFrom (.symbol read) position (run ++ rest) =
      (lexFrom .between (position + run.length) rest).prepend
        [finished .symbol (run.reverse ++ read)] := by
  induction run generalizing read position with
  | nil =>
    cases rest with
    | nil => rfl
    | cons c cs =>
      have hc : isSymbolChar c = false := hrest c rfl
      exact lexFrom_restart (by simp [step, hc]) cs
  | cons c run ih =>
    have hc : isSymbolChar c = true := hrun c List.mem_cons_self
    have hstep : step position c (.symbol read) = ([], .ok (.symbol (c :: read))) := by
      simp [step, hc]
    rw [List.cons_append, lexFrom_cons hstep, Lexed.prepend_nil,
      ih (fun d hd => hrun d (List.mem_cons_of_mem c hd))]
    simp only [List.length_cons, List.reverse_cons, List.append_assoc, List.cons_append,
      List.nil_append, Nat.add_comm run.length 1, Nat.add_assoc]

theorem lexFrom_comment (body rest : List Char) (hbody : ∀ c ∈ body, c ≠ '\n')
    (hrest : ∀ c ∈ rest.head?, c = '\n') (position : Nat) :
    lexFrom .comment position (body ++ rest) =
      lexFrom .between (position + body.length) rest := by
  induction body generalizing position with
  | nil =>
    cases rest with
    | nil => rfl
    | cons c cs =>
      have hc : c = '\n' := hrest c rfl
      subst hc
      rfl
  | cons c body ih =>
    have hc : c ≠ '\n' := hbody c List.mem_cons_self
    have hstep : step position c .comment = ([], .ok .comment) := by simp [step, hc]
    rw [List.cons_append, lexFrom_cons hstep, Lexed.prepend_nil,
      ih (fun d hd => hbody d (List.mem_cons_of_mem c hd))]
    simp only [List.length_cons, Nat.add_comm body.length 1, Nat.add_assoc]

theorem lexFrom_string {body : List Char} (hbody : StringBody body) (rest : List Char)
    (first : Nat) (read : List Char) (position : Nat) :
    lexFrom (.string first read false) position (body ++ '"' :: rest) =
      (lexFrom .between (position + body.length + 1) rest).prepend
        [finished .string ('"' :: (body.reverse ++ read))] := by
  induction hbody generalizing read position with
  | nil => rfl
  | @plain c cs hquote hbackslash h ih =>
    have hstep : step position c (.string first read false) =
        ([], .ok (.string first (c :: read) false)) := by
      simp [step, hquote, hbackslash]
    rw [List.cons_append, lexFrom_cons hstep, Lexed.prepend_nil, ih]
    simp only [List.length_cons, List.reverse_cons, List.append_assoc, List.cons_append,
      List.nil_append, Nat.add_comm cs.length 1, Nat.add_assoc]
  | @pair c cs hfeed h ih =>
    have hfirst : step position '\\' (.string first read false) =
        ([], .ok (.string first ('\\' :: read) true)) := rfl
    have hsecond : step (position + 1) c (.string first ('\\' :: read) true) =
        ([], .ok (.string first (c :: '\\' :: read) false)) := by
      simp [step, hfeed]
    rw [List.cons_append, List.cons_append, lexFrom_cons hfirst, Lexed.prepend_nil,
      lexFrom_cons hsecond, Lexed.prepend_nil, ih]
    simp only [List.length_cons, List.reverse_cons, List.append_assoc, List.cons_append,
      List.nil_append]
    congr 2
    omega

theorem Unclosed.of_plain {c : Char} {cs : List Char} (hquote : c ≠ '"') (hbackslash : c ≠ '\\')
    (h : Unclosed (c :: cs)) : Unclosed cs := by
  intro body rest hbody heq
  exact h (c :: body) rest (.plain hquote hbackslash hbody) (by rw [heq]; rfl)

theorem Unclosed.of_pair {c : Char} {cs : List Char} (hfeed : c ≠ '\n')
    (h : Unclosed ('\\' :: c :: cs)) : Unclosed cs := by
  intro body rest hbody heq
  exact h ('\\' :: c :: body) rest (.pair hfeed hbody) (by rw [heq]; rfl)

theorem lexFrom_unclosed (first : Nat) : ∀ (cs read : List Char) (position : Nat),
    Unclosed cs → lexFrom (.string first read false) position cs = ⟨[], some (.unterminated first)⟩
  | [], _, _, _ => rfl
  | [c], read, position, h => by
    have hquote : c ≠ '"' := by
      rintro rfl
      exact h [] [] .nil rfl
    have hstep : step position c (.string first read false) =
        ([], .ok (.string first (c :: read) (c == '\\'))) := by
      simp [step, hquote]
    rw [lexFrom_cons hstep]
    rfl
  | c :: d :: cs, read, position, h => by
    have hquote : c ≠ '"' := by
      rintro rfl
      exact h [] (d :: cs) .nil rfl
    by_cases hbackslash : c = '\\'
    · subst hbackslash
      have hfirst : step position '\\' (.string first read false) =
          ([], .ok (.string first ('\\' :: read) true)) := rfl
      rw [lexFrom_cons hfirst, Lexed.prepend_nil]
      by_cases hfeed : d = '\n'
      · subst hfeed
        rfl
      · have hsecond : step (position + 1) d (.string first ('\\' :: read) true) =
            ([], .ok (.string first (d :: '\\' :: read) false)) := by
          simp [step, hfeed]
        rw [lexFrom_cons hsecond, Lexed.prepend_nil]
        exact lexFrom_unclosed first cs _ _ (h.of_pair hfeed)
    · have hstep : step position c (.string first read false) =
          ([], .ok (.string first (c :: read) false)) := by
        simp [step, hquote, hbackslash]
      rw [lexFrom_cons hstep, Lexed.prepend_nil]
      exact lexFrom_unclosed first (d :: cs) _ _ (h.of_plain hquote hbackslash)

theorem lexFrom_lexeme {t : Token} {rest : List Char} (h : Lexeme t rest) (position : Nat) :
    lexFrom .between position (t.text.toList ++ rest) =
      (lexFrom .between (position + t.text.toList.length) rest).prepend [t] := by
  cases h with
  | @symbol chars _ hne hchars hrest =>
    obtain ⟨c, run, rfl⟩ := List.exists_cons_of_ne_nil hne
    have hstep : step position c .between = ([], .ok (.symbol [c])) := by
      simp [step, start_of_isSymbolChar (hchars c List.mem_cons_self)]
    rw [String.toList_ofList, List.cons_append, lexFrom_cons hstep, Lexed.prepend_nil,
      lexFrom_symbol run rest (fun d hd => hchars d (List.mem_cons_of_mem c hd)) hrest]
    simp [finished, Nat.add_comm run.length 1, Nat.add_assoc]
  | @string body _ hbody =>
    have hstep : step position '"' .between = ([], .ok (.string position ['"'] false)) := rfl
    have htext : '"' :: body ++ ['"'] ++ rest = '"' :: (body ++ '"' :: rest) := by simp
    rw [String.toList_ofList, htext, lexFrom_cons hstep, Lexed.prepend_nil, lexFrom_string hbody]
    have hlength : position + 1 + body.length + 1 =
        position + ('"' :: body ++ ['"']).length := by
      simp only [List.length_cons, List.length_append, List.length_nil]
      omega
    rw [hlength]
    simp [finished]
  | opening => rfl
  | closing => rfl
  | mark m hrest =>
    cases m with
    | quote => rfl
    | quasiquote => rfl
    | splice => rfl
    | unquote =>
      have hstep : step position ',' .between = ([], .ok .comma) := rfl
      change lexFrom .between position (',' :: rest) = _
      rw [lexFrom_cons hstep, Lexed.prepend_nil]
      cases rest with
      | nil => rfl
      | cons c cs =>
        have hc : c ≠ '@' := by simpa using hrest rfl
        exact lexFrom_restart (by simp [step, hc]) cs

theorem lexFrom_piece {found : Option Token} {taken rest : List Char}
    (h : Piece found taken rest) (position : Nat) :
    lexFrom .between position (taken ++ rest) =
      (lexFrom .between (position + taken.length) rest).prepend found.toList := by
  cases h with
  | @blank c _ hc =>
    have hstep : step position c .between = ([], .ok .between) := by simp [step, start, hc]
    exact lexFrom_cons hstep rest
  | @comment body _ hbody hrest =>
    have hstep : step position ';' .between = ([], .ok .comment) := rfl
    rw [List.cons_append, lexFrom_cons hstep, Lexed.prepend_nil,
      lexFrom_comment body rest hbody hrest]
    simp only [List.length_cons, Nat.add_comm body.length 1, Nat.add_assoc]
    rfl
  | token ht => exact lexFrom_lexeme ht position

theorem lexFrom_partition {after : List Char} {tokens : List Token} {cs : List Char}
    (h : Partition after tokens cs) (position : Nat) :
    lexFrom .between position (cs ++ after) =
      (lexFrom .between (position + cs.length) after).prepend tokens := by
  induction h generalizing position with
  | nil => rfl
  | @piece found taken cs tokens hpiece hrest ih =>
    rw [List.append_assoc, lexFrom_piece hpiece, ih, ← Lexed.prepend_append, List.length_append,
      Nat.add_assoc]

theorem lexFrom_unclosed_string {back : List Char} (h : Unclosed back) (position : Nat) :
    lexFrom .between position ('"' :: back) = ⟨[], some (.unterminated position)⟩ := by
  have hstep : step position '"' .between = ([], .ok (.string position ['"'] false)) := rfl
  rw [lexFrom_cons hstep, Lexed.prepend_nil, lexFrom_unclosed position back _ _ h]

theorem exists_symbol_piece {c : Char} (hc : isSymbolChar c = true) (cs : List Char) :
    ∃ found taken rest, c :: cs = taken ++ rest ∧ Piece found taken rest := by
  have hrest : ∀ d ∈ (cs.dropWhile isSymbolChar).head?, isSymbolChar d = false := by
    intro d hd
    have hnot := List.head?_dropWhile_not isSymbolChar cs
    rw [Option.mem_def.mp hd] at hnot
    simpa using hnot
  have hchars : ∀ d ∈ c :: cs.takeWhile isSymbolChar, isSymbolChar d = true := by
    intro d hd
    rcases List.mem_cons.mp hd with rfl | htail
    · exact hc
    · exact List.mem_takeWhile_imp htail
  have hpiece := Piece.token (Lexeme.symbol (List.cons_ne_nil _ _) hchars hrest)
  refine ⟨_, _, _, ?_, hpiece⟩
  simp

theorem exists_comment_piece (cs : List Char) :
    ∃ found taken rest, ';' :: cs = taken ++ rest ∧ Piece found taken rest := by
  let inLine : Char → Bool := fun c => c != '\n'
  have hbody : ∀ c ∈ cs.takeWhile inLine, c ≠ '\n' := by
    intro c hc
    simpa [inLine] using List.mem_takeWhile_imp hc
  have hrest : ∀ c ∈ (cs.dropWhile inLine).head?, c = '\n' := by
    intro c hc
    have hnot := List.head?_dropWhile_not inLine cs
    rw [Option.mem_def.mp hc] at hnot
    simpa [inLine] using hnot
  refine ⟨none, ';' :: cs.takeWhile inLine, cs.dropWhile inLine, ?_, .comment hbody hrest⟩
  simp

theorem exists_comma_piece (cs : List Char) :
    ∃ found taken rest, ',' :: cs = taken ++ rest ∧ Piece found taken rest := by
  by_cases hat : cs.head? = some '@'
  · obtain ⟨tail, rfl⟩ := List.head?_eq_some_iff.mp hat
    exact ⟨_, _, tail, rfl, .token (.mark .splice (by simp))⟩
  · exact ⟨_, _, cs, rfl, .token (.mark .unquote fun _ => hat)⟩

theorem isSymbolChar_or (c : Char) :
    isSymbolChar c = true ∨ Text.isBlank c = true ∨ c = '(' ∨ c = ')' ∨ c = Text.apostrophe ∨
      c = '\x60' ∨ c = '"' ∨ c = ',' ∨ c = ';' := by
  by_cases hblank : Text.isBlank c = true
  · exact .inr (.inl hblank)
  · by_cases hdelimiter : isDelimiter c = true
    · refine .inr (.inr ?_)
      simpa only [isDelimiter, List.contains_eq_mem, List.mem_cons, List.not_mem_nil, or_false,
        decide_eq_true_eq] using hdelimiter
    · left
      simp [isSymbolChar, hblank, hdelimiter]

/-- No character is unexpected: a text that is not at its end starts with a piece or with a string
that is never closed. -/
theorem exists_piece {cs : List Char} (h : cs ≠ []) :
    (∃ found taken rest, cs = taken ++ rest ∧ Piece found taken rest) ∨
      ∃ back, cs = '"' :: back ∧ Unclosed back := by
  obtain ⟨c, cs, rfl⟩ := List.exists_cons_of_ne_nil h
  rcases isSymbolChar_or c with hc | hc | rfl | rfl | rfl | rfl | rfl | rfl | rfl
  · exact .inl (exists_symbol_piece hc cs)
  · exact .inl ⟨none, [c], cs, rfl, .blank hc⟩
  · exact .inl ⟨_, _, cs, rfl, .token .opening⟩
  · exact .inl ⟨_, _, cs, rfl, .token .closing⟩
  · exact .inl ⟨_, _, cs, rfl, .token (.mark .quote (by simp))⟩
  · exact .inl ⟨_, _, cs, rfl, .token (.mark .quasiquote (by simp))⟩
  · by_cases hclosed : Unclosed cs
    · exact .inr ⟨cs, rfl, hclosed⟩
    · unfold Unclosed at hclosed
      push Not at hclosed
      obtain ⟨body, rest, hbody, rfl⟩ := hclosed
      refine .inl ⟨_, _, rest, ?_, .token (.string hbody)⟩
      simp
  · exact .inl (exists_comma_piece cs)
  · exact .inl (exists_comment_piece cs)

theorem exists_partition (cs : List Char) :
    ∃ tokens front after, cs = front ++ after ∧ Partition after tokens front ∧
      (after = [] ∨ ∃ back, after = '"' :: back ∧ Unclosed back) := by
  induction hn : cs.length using Nat.strong_induction_on generalizing cs with
  | _ n ih =>
    by_cases hnil : cs = []
    · exact ⟨[], [], cs, rfl, .nil, .inl hnil⟩
    · rcases exists_piece hnil with ⟨found, taken, rest, rfl, hpiece⟩ | hunclosed
      · have htaken : 0 < taken.length := List.length_pos_iff.mpr hpiece.taken_ne_nil
        have hlength : (taken ++ rest).length = taken.length + rest.length := List.length_append
        obtain ⟨tokens, front, after, rfl, hpartition, hend⟩ := ih rest.length (by omega) rest rfl
        exact ⟨_, _, after, (List.append_assoc _ _ _).symm, .piece hpiece hpartition, hend⟩
      · exact ⟨[], [], cs, rfl, .nil, .inr hunclosed⟩

theorem lex_of_partition {source : String} {tokens : List Token}
    (h : Partition [] tokens source.toList) : lex source = ⟨tokens, none⟩ := by
  have hlex := lexFrom_partition h 0
  rw [List.append_nil] at hlex
  rw [lex, hlex]
  simp [lexFrom, finish, Lexed.prepend]

theorem lex_of_unclosed {source : String} {tokens : List Token} {front back : List Char}
    (hsource : source.toList = front ++ '"' :: back) (h : Partition ('"' :: back) tokens front)
    (hback : Unclosed back) :
    lex source = ⟨tokens, some (.unterminated front.length)⟩ := by
  rw [lex, hsource, lexFrom_partition h, Nat.zero_add, lexFrom_unclosed_string hback]
  simp [Lexed.prepend]

theorem lex_cases (source : String) :
    (∃ tokens, lex source = ⟨tokens, none⟩ ∧ Partition [] tokens source.toList) ∨
      ∃ tokens front back, lex source = ⟨tokens, some (.unterminated front.length)⟩ ∧
        source.toList = front ++ '"' :: back ∧ Partition ('"' :: back) tokens front ∧
        Unclosed back := by
  obtain ⟨tokens, front, after, hsource, hpartition, hend⟩ := exists_partition source.toList
  rcases hend with rfl | ⟨back, rfl, hback⟩
  · rw [List.append_nil] at hsource
    subst hsource
    exact .inl ⟨tokens, lex_of_partition hpartition, hpartition⟩
  · exact .inr ⟨tokens, front, back, lex_of_unclosed hsource hpartition hback, hsource,
      hpartition, hback⟩

/-- Where no piece starts, a string does that is never closed, so no character is unexpected. -/
theorem failure_lex_ne_unexpectedCharacter (source : String) (position : Nat) (c : Char) :
    (lex source).failure ≠ some (.unexpectedCharacter position c) := by
  rcases lex_cases source with ⟨tokens, hlex, -⟩ | ⟨tokens, front, back, hlex, -⟩
  · rw [hlex]
    simp
  · rw [hlex]
    simp

/-- The lexer succeeds with exactly the tokens into which the source can be cut, and fails exactly
before a string that is never closed, with the tokens of all pieces before it. No piece is empty,
there is a piece at every place that is not the start of such a string, and a string ends at its
first quote that is not escaped. -/
theorem lex_partitions_source (source : String) :
    (∀ tokens, lex source = ⟨tokens, none⟩ ↔ Partition [] tokens source.toList) ∧
    (∀ tokens e, lex source = ⟨tokens, some e⟩ ↔
      ∃ front back, source.toList = front ++ '"' :: back ∧
        Partition ('"' :: back) tokens front ∧ Unclosed back ∧
        e = .unterminated front.length ∧
        e.message = "Unterminated string starting at " ++ Text.natText front.length) ∧
    (∀ found rest, ¬ Piece found [] rest) ∧
    (∀ c cs, (∃ found taken rest, c :: cs = taken ++ rest ∧ Piece found taken rest) ∨
      ∃ back, c :: cs = '"' :: back ∧ Unclosed back) ∧
    (∀ first later, ¬ (StringBody first ∧ StringBody (first ++ '"' :: later))) := by
  refine ⟨?_, ?_, fun found rest h => h.taken_ne_nil rfl,
    fun c cs => exists_piece (List.cons_ne_nil c cs), StringBody.not_append_quote⟩
  · intro tokens
    refine ⟨?_, lex_of_partition⟩
    intro hlex
    rcases lex_cases source with ⟨found, hfound, hpartition⟩ | ⟨found, front, back, hfound, -⟩
    · rw [hlex, Lexed.mk.injEq] at hfound
      rw [hfound.1]
      exact hpartition
    · simp [hlex] at hfound
  · intro tokens e
    constructor
    · intro hlex
      rcases lex_cases source with ⟨found, hfound, -⟩ |
        ⟨found, front, back, hfound, hsource, hpartition, hback⟩
      · simp [hlex] at hfound
      · rw [hlex, Lexed.mk.injEq, Option.some.injEq] at hfound
        obtain ⟨rfl, rfl⟩ := hfound
        exact ⟨front, back, hsource, hpartition, hback, rfl, rfl⟩
    · rintro ⟨front, back, hsource, hpartition, hback, rfl, -⟩
      exact lex_of_unclosed hsource hpartition hback

example : lex "a,@b;\n(\"c" = ⟨[Token.ofName "a", Token.ofMark .splice, Token.ofName "b",
    Token.opening], some (.unterminated 7)⟩ := by decide

end TreeLisp.Lexer
