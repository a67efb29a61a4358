import TreeLisp.Literal
import TreeLisp.Proofs.Printing

/-!
# String literals and printed strings

A string literal is decoded by replacing each backslash with an n behind it by a line feed, and a
string is printed by the opposite replacement. Neither is aware of the backslash that takes the next
character with it, so the two undo each other only up to a point: a text that has a backslash before
an n does not survive being printed and decoded, and a literal that spans lines is not printed as it
was written. What has once been decoded is however safe, and its printed form is a literal again.
-/
namespace TreeLisp

namespace Literal

def feedEscape : List Char := ['\\', 'n']

variable {c : Char} {cs : List Char}

theorem unescape_escape (cs : List Char) : unescape ('\\' :: 'n' :: cs) = '\n' :: unescape cs := by
  rw [unescape]

theorem unescape_cons (h : ¬ feedEscape <+: c :: cs) : unescape (c :: cs) = c :: unescape cs := by
  rw [unescape]
  rintro rest rfl rfl
  exact h ⟨rest, rfl⟩

theorem feedEscape_prefix_iff :
    feedEscape <+: c :: cs ↔ c = '\\' ∧ cs.head? = some 'n' := by
  rw [feedEscape, List.cons_prefix_cons, eq_comm, List.head?_eq_some_iff]
  refine and_congr_right fun _ => ⟨?_, ?_⟩
  · rintro ⟨rest, rfl⟩
    exact ⟨rest, rfl⟩
  · rintro ⟨rest, rfl⟩
    exact ⟨rest, rfl⟩

/-- The induction that decoding follows: an escape at a time, or else a character at a time. -/
theorem unescape_induction {motive : List Char → Prop} (nil : motive [])
    (escape : ∀ cs, motive cs → motive ('\\' :: 'n' :: cs))
    (plain : ∀ c cs, ¬ feedEscape <+: c :: cs → motive cs → motive (c :: cs)) :
    ∀ cs, motive cs
  | [] => nil
  | [c] => plain c [] (by simp [feedEscape_prefix_iff]) nil
  | c :: d :: cs => by
    by_cases h : feedEscape <+: c :: d :: cs
    · obtain ⟨rfl, hd⟩ := feedEscape_prefix_iff.mp h
      obtain rfl : d = 'n' := by simpa using hd
      exact escape cs (unescape_induction nil escape plain cs)
    · exact plain c (d :: cs) h (unescape_induction nil escape plain (d :: cs))

theorem head_unescape (cs : List Char) :
    (unescape cs).head? = some 'n' → cs.head? = some 'n' := by
  induction cs using unescape_induction with
  | nil => exact id
  | escape cs ih => simp [unescape_escape]
  | plain c cs h ih => simp [unescape_cons h]

theorem not_infix_unescape (cs : List Char) : ¬ feedEscape <:+: unescape cs := by
  induction cs using unescape_induction with
  | nil => simp [unescape, feedEscape]
  | escape cs ih =>
    rw [unescape_escape, List.infix_cons_iff, feedEscape_prefix_iff]
    simpa using ih
  | plain c cs h ih =>
    rw [unescape_cons h, List.infix_cons_iff, feedEscape_prefix_iff]
    rintro (⟨hc, hhead⟩ | hlater)
    · exact h (feedEscape_prefix_iff.mpr ⟨hc, head_unescape cs hhead⟩)
    · exact ih hlater

end Literal

namespace Value

open Literal

variable {c : Char} {cs : List Char}

theorem escapeLines_feed (cs : List Char) :
    escapeLines ('\n' :: cs) = '\\' :: 'n' :: escapeLines cs := rfl

theorem escapeLines_cons (hc : c ≠ '\n') (cs : List Char) :
    escapeLines (c :: cs) = c :: escapeLines cs := by
  simp [escapeLines, hc]

theorem feed_notMem_escapeLines (cs : List Char) : '\n' ∉ escapeLines cs := by
  induction cs with
  | nil => simp [escapeLines]
  | cons c cs ih =>
    by_cases hc : c = '\n'
    · subst hc
      simpa [escapeLines_feed] using ih
    · simpa [escapeLines_cons hc, Ne.symm hc] using ih

theorem escapeLines_eq_self_iff (cs : List Char) : escapeLines cs = cs ↔ '\n' ∉ cs := by
  constructor
  · intro h
    rw [← h]
    exact feed_notMem_escapeLines cs
  · intro h
    induction cs with
    | nil => rfl
    | cons c cs ih =>
      rw [List.mem_cons, not_or] at h
      rw [escapeLines_cons (Ne.symm h.1), ih h.2]

/-- Printing escapes the line feeds of a text whether they were written so or not. -/
theorem escapeLines_unescape (cs : List Char) : escapeLines (unescape cs) = escapeLines cs := by
  induction cs using unescape_induction with
  | nil => rfl
  | escape cs ih =>
    rw [unescape_escape, escapeLines_feed, ih, escapeLines_cons (by decide),
      escapeLines_cons (by decide)]
  | plain c cs h ih =>
    rw [unescape_cons h]
    by_cases hc : c = '\n'
    · rw [hc, escapeLines_feed, escapeLines_feed, ih]
    · rw [escapeLines_cons hc, escapeLines_cons hc, ih]

theorem head_escapeLines (cs : List Char) :
    (escapeLines cs).head? = some 'n' → cs.head? = some 'n' := by
  cases cs with
  | nil => exact id
  | cons c cs =>
    by_cases hc : c = '\n'
    · subst hc
      simp [escapeLines_feed]
    · simp [escapeLines_cons hc]

/-- Decoding undoes printing exactly on the texts that have no escape in them. -/
theorem unescape_escapeLines_iff (cs : List Char) :
    unescape (escapeLines cs) = cs ↔ ¬ feedEscape <:+: cs := by
  constructor
  · intro h
    rw [← h]
    exact not_infix_unescape _
  · intro h
    induction cs with
    | nil => rfl
    | cons c cs ih =>
      rw [List.infix_cons_iff, not_or] at h
      obtain ⟨hstart, hlater⟩ := h
      by_cases hc : c = '\n'
      · rw [hc, escapeLines_feed, unescape_escape, ih hlater]
      · have hnot : ¬ feedEscape <+: c :: escapeLines cs := by
          rw [feedEscape_prefix_iff] at hstart ⊢
          exact fun hhead => hstart ⟨hhead.1, head_escapeLines cs hhead.2⟩
        rw [escapeLines_cons hc, unescape_cons hnot, ih hlater]

end Value

open Literal Value

theorem Lexer.StringBody.escapeLines {body : List Char} (h : Lexer.StringBody body) :
    Lexer.StringBody (escapeLines body) := by
  induction h with
  | nil => exact .nil
  | @plain c cs hquote hbackslash h ih =>
    by_cases hc : c = '\n'
    · rw [hc, escapeLines_feed]
      exact .pair (by decide) ih
    · rw [escapeLines_cons hc]
      exact .plain hquote hbackslash ih
  | pair hfeed h ih =>
    rw [escapeLines_cons (by decide), escapeLines_cons hfeed]
    exact .pair hfeed ih

theorem Lexer.exists_stringBody {source : String} {t : Token}
    (ht : t ∈ (Lexer.lex source).tokens) (hkind : t.kind = .string) :
    ∃ body, Lexer.StringBody body ∧ t.text = String.ofList ('"' :: body ++ ['"']) := by
  have hlexeme : ∃ rest, Lexer.Lexeme t rest := by
    rcases Lexer.lex_cases source with ⟨tokens, hlex, hpartition⟩ |
      ⟨tokens, front, back, hlex, -, hpartition, -⟩
    · rw [hlex] at ht
      exact hpartition.exists_lexeme ht
    · rw [hlex] at ht
      exact hpartition.exists_lexeme ht
  obtain ⟨rest, hlexeme⟩ := hlexeme
  cases hlexeme with
  | @string body _ hbody => exact ⟨body, hbody, rfl⟩
  | symbol hne hchars hrest => simp at hkind
  | opening => simp [Token.opening] at hkind
  | closing => simp [Token.closing] at hkind
  | mark m hrest => simp [Token.ofMark] at hkind

theorem readString_between_quotes (body : List Char) :
    readString (String.ofList ('"' :: body ++ ['"'])) =
      .string (String.ofList (unescape body)) := by
  simp [readString]

theorem text_string (text : String) :
    (Value.string text).text = String.ofList ('"' :: escapeLines text.toList ++ ['"']) := rfl

theorem readString_text (text : String) :
    readString (Value.string text).text =
      .string (String.ofList (unescape (escapeLines text.toList))) := by
  rw [text_string, readString_between_quotes]

theorem readString_text_eq_iff (text : String) :
    readString (Value.string text).text = .string text ↔ ¬ feedEscape <:+: text.toList := by
  rw [readString_text, Value.string.injEq, ← unescape_escapeLines_iff, ← String.toList_inj,
    String.toList_ofList]

theorem text_readString (body : List Char) :
    (readString (String.ofList ('"' :: body ++ ['"']))).text =
      String.ofList ('"' :: escapeLines body ++ ['"']) := by
  rw [readString_between_quotes, text_string, String.toList_ofList, escapeLines_unescape]

/-- Every string literal of a source decodes to a string, whose printed form is one string literal
for that string again. Any text survives being printed and decoded exactly when it has no backslash
before an n, and any literal survives being decoded and printed exactly when it stays on one
line. -/
theorem string_literals_survive :
    (∀ (source : String) (t : Token), t ∈ (Lexer.lex source).tokens → t.kind = .string →
      ∃ text, readString t.text = .string text ∧
        read (Value.string text).text = .ok [.atom ⟨.string, (Value.string text).text⟩] ∧
        readString (Value.string text).text = .string text) ∧
    (∀ text : String,
      readString (Value.string text).text = .string text ↔ ¬ ['\\', 'n'] <:+: text.toList) ∧
    (∀ body : String, (readString ("\"" ++ body ++ "\"")).text = "\"" ++ body ++ "\"" ↔
      '\n' ∉ body.toList) := by
  refine ⟨?_, readString_text_eq_iff, ?_⟩
  · intro source t ht hkind
    obtain ⟨body, hbody, htext⟩ := Lexer.exists_stringBody ht hkind
    let text := String.ofList (unescape body)
    have hprinted :
        (Value.string text).text = String.ofList ('"' :: escapeLines body ++ ['"']) := by
      rw [text_string, String.toList_ofList, escapeLines_unescape]
    have hlexeme : Lexer.Lexeme ⟨.string, (Value.string text).text⟩ [] := by
      rw [hprinted]
      exact .string hbody.escapeLines
    have hwritten : ∀ v ∈ [Value.atom ⟨.string, (Value.string text).text⟩], Written v := by
      simpa using Written.atom (.inr rfl) hlexeme
    have hnone : ∀ s ∈ ([] : List String), Separates s := by simp
    refine ⟨text, ?_, read_joined hwritten hnone, ?_⟩
    · rw [htext, readString_between_quotes]
    · rw [readString_text_eq_iff, String.toList_ofList]
      exact not_infix_unescape body
  · intro body
    have hquoted : "\"" ++ body ++ "\"" = String.ofList ('"' :: body.toList ++ ['"']) := by
      rw [← String.toList_inj]
      simp
    rw [hquoted, text_readString, ← escapeLines_eq_self_iff, ← String.toList_inj]
    simp

/-- A literal on two lines, with an n behind two backslashes and an escaped quote, is decoded to
three lines and printed on one. The string behind it that is never closed does not matter. -/
theorem string_literals_survive_two_lines :
    let source := "(f \"a\\\\nb\nc\\\"\" \")"
    let t : Token := ⟨.string, "\"a\\\\nb\nc\\\"\""⟩
    let text := "a\\\nb\nc\\\""
    let printed := "\"a\\\\nb\\nc\\\"\""
    (t ∈ (Lexer.lex source).tokens ∧ t.kind = .string) ∧
      readString t.text = .string text ∧ (Value.string text).text = printed ∧
      read printed = .ok [.atom ⟨.string, printed⟩] ∧ readString printed = .string text := by
  intro source t text printed
  have ht : t ∈ (Lexer.lex source).tokens := by decide
  have htext : readString t.text = .string text := by simp [t, text, readString, unescape]
  have hprinted : (Value.string text).text = printed := by decide +kernel
  obtain ⟨found, hfound, hread, hback⟩ := string_literals_survive.1 source t ht rfl
  obtain rfl : text = found := Value.string.inj (htext.symm.trans hfound)
  rw [hprinted] at hread hback
  exact ⟨⟨ht, rfl⟩, htext, hprinted, hread, hback⟩

end TreeLisp
