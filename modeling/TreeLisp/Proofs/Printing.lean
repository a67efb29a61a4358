import TreeLisp.Proofs.Lexing
import TreeLisp.Proofs.Parsing
import TreeLisp.Value.Text

/-!
# Printed forms read back

The forms of a source are trees of atoms whose tokens the lexer has found. Such an atom is found
again in every text that does not go on with a character of a symbol, so the text of a form is cut
into the tokens of one parse tree of it, in which every mark has become a list. Blanks may then
stand between the texts of several forms.
-/
namespace TreeLisp

open Lexer

namespace Lexer

theorem Partition.append {after : List Char} {ts us : List Token} {front back : List Char}
    (hfront : Partition (back ++ after) ts front) (hback : Partition after us back) :
    Partition after (ts ++ us) (front ++ back) := by
  induction hfront with
  | nil => exact hback
  | @piece found taken cs tokens hpiece hrest ih =>
    rw [List.append_assoc, List.append_assoc]
    rw [← List.append_assoc] at hpiece
    exact .piece hpiece ih

theorem Partition.of_lexeme {after : List Char} {t : Token} (h : Lexeme t after) :
    Partition after [t] t.text.toList := by
  have hrest : Partition after [] [] := .nil
  simpa using Partition.piece (.token h) hrest

theorem Partition.of_blanks {after cs : List Char} (h : ∀ c ∈ cs, Text.isBlank c = true) :
    Partition after [] cs := by
  induction cs with
  | nil => exact .nil
  | cons c cs ih =>
    have hc : Text.isBlank c = true := h c List.mem_cons_self
    have hcs : Partition after [] cs := ih fun d hd => h d (List.mem_cons_of_mem c hd)
    exact .piece (.blank hc) hcs

theorem Partition.exists_lexeme {after : List Char} {tokens : List Token} {cs : List Char}
    (h : Partition after tokens cs) {t : Token} (ht : t ∈ tokens) : ∃ rest, Lexeme t rest := by
  induction h with
  | nil => simp at ht
  | @piece found taken cs tokens hpiece hrest ih =>
    rcases List.mem_append.mp ht with hfound | hlater
    · cases hpiece with
      | blank hc => simp at hfound
      | comment hbody hend => simp at hfound
      | token hlexeme =>
        obtain rfl : t = _ := by simpa using hfound
        exact ⟨_, hlexeme⟩
    · exact ih hlater

/-- A symbol does not go on with the first of these characters. -/
def EndsSymbol (rest : List Char) : Prop :=
  ∀ c ∈ rest.head?, isSymbolChar c = false

theorem Lexeme.of_endsSymbol {t : Token} {rest after : List Char} (h : Lexeme t rest)
    (hkind : t.kind = .symbol ∨ t.kind = .string) (hafter : EndsSymbol after) :
    Lexeme t after := by
  cases h with
  | symbol hne hchars hrest => exact .symbol hne hchars hafter
  | string hbody => exact .string hbody
  | opening => simp [Token.opening] at hkind
  | closing => simp [Token.closing] at hkind
  | mark m hrest => simp [Token.ofMark] at hkind

theorem isSymbolChar_of_isBlank {c : Char} (h : Text.isBlank c = true) :
    isSymbolChar c = false := by
  simp [isSymbolChar, h]

end Lexer

theorem read_eq_ok_iff (source : String) (forms : List Value) :
    read source = .ok forms ↔
      ∃ tokens, Partition [] tokens source.toList ∧ Derives tokens forms := by
  constructor
  · intro hread
    unfold read at hread
    split at hread
    · rename_i found s hparse
      obtain rfl : found = forms := by simpa using hread
      obtain ⟨hfailure, hderives⟩ := TokenStream.derives_of_parseAll hparse
      rcases lex_cases source with ⟨tokens, hlex, hpartition⟩ | ⟨tokens, front, back, hlex, -⟩
      · have hremaining : (TokenStream.ofSource source).remaining = tokens := by
          simp [TokenStream.ofSource, TokenStream.remaining, hlex]
        rw [hremaining] at hderives
        exact ⟨tokens, hpartition, hderives⟩
      · simp [TokenStream.ofSource, hlex] at hfailure
    · simp at hread
  · rintro ⟨tokens, hpartition, ds, rfl, rfl⟩
    have hsource : TokenStream.ofSource source = TokenStream.ofTokens (ParseTree.allTokens ds) := by
      simp [TokenStream.ofSource, TokenStream.ofTokens, lex_of_partition hpartition]
    rw [read, hsource, TokenStream.parseAll_of_derived rfl rfl]

/-- A tree of atoms that the lexer can find. -/
inductive Written : Value → Prop where
  | atom {t : Token} (hkind : t.kind = .symbol ∨ t.kind = .string) {rest : List Char}
      (h : Lexeme t rest) : Written (.atom t)
  | list {items : List Value} (h : ∀ v ∈ items, Written v) : Written (.list items)

theorem written_head (m : Mark) : Written (.symbol m.head) := by
  have hne : m.head.toList ≠ [] := by cases m <;> decide
  have hchars : m.head.toList.all isSymbolChar = true := by cases m <;> rfl
  have hlexeme : Lexeme ⟨.symbol, String.ofList m.head.toList⟩ [] :=
    .symbol hne (List.all_eq_true.mp hchars) (by simp)
  rw [String.ofList_toList] at hlexeme
  exact .atom (.inl rfl) hlexeme

namespace ParseTree

mutual

theorem written_form : (d : ParseTree) → (∀ t ∈ d.tokens, ∃ rest, Lexeme t rest) →
    Written d.form
  | .atom t hkind, h => by
    obtain ⟨rest, hlexeme⟩ := h t (by simp [tokens])
    exact .atom hkind hlexeme
  | .mark t m hkind d, h => by
    have hd : Written d.form := written_form d fun u hu => h u (by simp [tokens, hu])
    refine .list ?_
    simp only [List.mem_cons, List.not_mem_nil, or_false]
    rintro v (rfl | rfl)
    · exact written_head m
    · exact hd
  | .list first hfirst ds last hlast, h =>
    .list (written_allForms ds fun u hu => h u (by simp [tokens, hu]))

theorem written_allForms : (ds : List ParseTree) →
    (∀ t ∈ allTokens ds, ∃ rest, Lexeme t rest) → ∀ v ∈ allForms ds, Written v
  | [], _, v, hv => by simp [allForms] at hv
  | d :: ds, h, v, hv => by
    rcases List.mem_cons.mp hv with rfl | hlater
    · exact written_form d fun u hu => h u (by simp [allTokens, hu])
    · exact written_allForms ds (fun u hu => h u (by simp [allTokens, hu])) v hlater

end

end ParseTree

theorem written_of_read {source : String} {forms : List Value} (h : read source = .ok forms) :
    ∀ v ∈ forms, Written v := by
  obtain ⟨tokens, hpartition, ds, rfl, rfl⟩ := (read_eq_ok_iff source forms).mp h
  exact ParseTree.written_allForms ds fun t ht => hpartition.exists_lexeme ht

namespace Value

/-- The printed values with separators between neighbours, each one in its turn and then single
spaces. -/
def joined : List String → List Value → String
  | _, [] => ""
  | _, [v] => v.text
  | separators, v :: rest => v.text ++ separators.headD " " ++ joined separators.tail rest

theorem itemsText_eq_joined (items : List Value) : itemsText items = joined [] items := by
  induction items with
  | nil => rfl
  | cons v rest ih =>
    cases rest with
    | nil => rfl
    | cons w rest =>
      have hitems : itemsText (v :: w :: rest) = v.text ++ " " ++ itemsText (w :: rest) := rfl
      rw [hitems, ih]
      rfl

end Value

open ParseTree

/-- The text of the value is cut into the tokens of a parse tree of it, wherever it stands before
something that ends a symbol. -/
def ReadsBack (v : Value) : Prop :=
  ∃ d : ParseTree, d.form = v ∧
    ∀ after, EndsSymbol after → Partition after d.tokens v.text.toList

/-- A text that may separate forms. -/
def Separates (s : String) : Prop :=
  s ≠ "" ∧ Text.allBlank s = true

instance (s : String) : Decidable (Separates s) :=
  inferInstanceAs (Decidable (_ ∧ _))

theorem Separates.isBlank {s : String} (h : Separates s) : ∀ c ∈ s.toList, Text.isBlank c = true :=
  List.all_eq_true.mp h.2

theorem Separates.endsSymbol {s : String} (h : Separates s) (rest : List Char) :
    EndsSymbol (s.toList ++ rest) := by
  have hne : s.toList ≠ [] := by simpa using h.1
  obtain ⟨c, cs, hs⟩ := List.exists_cons_of_ne_nil hne
  have hc : Text.isBlank c = true := h.isBlank c (by simp [hs])
  simpa [EndsSymbol, hs] using isSymbolChar_of_isBlank hc

theorem separates_headD {separators : List String} (h : ∀ s ∈ separators, Separates s) :
    Separates (separators.headD " ") := by
  cases separators with
  | nil => decide
  | cons s separators => exact h s List.mem_cons_self

theorem exists_trees_of_joined (forms : List Value) (hforms : ∀ v ∈ forms, ReadsBack v)
    (separators : List String) (hseparators : ∀ s ∈ separators, Separates s) :
    ∃ ds, allForms ds = forms ∧ ∀ after, EndsSymbol after →
      Partition after (allTokens ds) (Value.joined separators forms).toList := by
  induction forms generalizing separators with
  | nil => exact ⟨[], rfl, fun after _ => .nil⟩
  | cons v forms ih =>
    obtain ⟨d, hd, hv⟩ := hforms v List.mem_cons_self
    cases forms with
    | nil =>
      refine ⟨[d], by simp [allForms, hd], fun after hafter => ?_⟩
      rw [allTokens, allTokens, List.append_nil]
      exact hv after hafter
    | cons w forms =>
      have hsep : Separates (separators.headD " ") := separates_headD hseparators
      obtain ⟨ds, hds, hrest⟩ := ih (fun u hu => hforms u (List.mem_cons_of_mem v hu))
        separators.tail fun s hs => hseparators s (List.mem_of_mem_tail hs)
      refine ⟨d :: ds, by rw [allForms, hd, hds], fun after hafter => ?_⟩
      have hlater := (Partition.of_blanks hsep.isBlank).append (hrest after hafter)
      have hjoined : Value.joined separators (v :: w :: forms) =
          v.text ++ separators.headD " " ++ Value.joined separators.tail (w :: forms) := rfl
      rw [hjoined, String.append_assoc, String.toList_append, String.toList_append, allTokens]
      refine (hv _ ?_).append hlater
      rw [List.append_assoc]
      exact hsep.endsSymbol _

theorem readsBack_list {items : List Value} (h : ∀ v ∈ items, ReadsBack v) :
    ReadsBack (.list items) := by
  obtain ⟨ds, hds, hitems⟩ := exists_trees_of_joined items h [] (by simp)
  refine ⟨.list Token.opening rfl ds Token.closing rfl, congrArg Value.list hds, ?_⟩
  intro after _
  have hclosing : Partition after [Token.closing] [')'] := .of_lexeme .closing
  have hend : EndsSymbol ([')'] ++ after) := by
    intro c hc
    obtain rfl : ')' = c := by simpa using hc
    decide
  have hinside := (hitems _ hend).append hclosing
  rw [← Value.itemsText_eq_joined] at hinside
  have hopening : Partition (((Value.itemsText items).toList ++ [')']) ++ after)
      [Token.opening] ['('] := .of_lexeme .opening
  have htext : (Value.list items).text.toList =
      ['('] ++ ((Value.itemsText items).toList ++ [')']) := by
    rw [Value.text, String.append_assoc, String.toList_append, String.toList_append]
    rfl
  rw [htext]
  exact hopening.append hinside

theorem Written.readsBack {v : Value} (h : Written v) : ReadsBack v := by
  induction h with
  | @atom t hkind rest h =>
    exact ⟨.atom t hkind, rfl, fun after hafter => .of_lexeme (h.of_endsSymbol hkind hafter)⟩
  | list h ih => exact readsBack_list ih

theorem read_joined {forms : List Value} (hforms : ∀ v ∈ forms, Written v)
    {separators : List String} (hseparators : ∀ s ∈ separators, Separates s) :
    read (Value.joined separators forms) = .ok forms := by
  obtain ⟨ds, hds, hpartition⟩ := exists_trees_of_joined forms
    (fun v hv => (hforms v hv).readsBack) separators hseparators
  have hend : EndsSymbol [] := by simp [EndsSymbol]
  exact (read_eq_ok_iff _ _).mpr ⟨allTokens ds, hpartition [] hend, ds, rfl, hds⟩

/-- Printing undoes reading: the printed forms of a source read back as the same forms, whatever
blanks are put between them, and each of them reads back alone. -/
theorem read_printed_forms {source : String} {forms : List Value} (h : read source = .ok forms)
    (separators : List String) (hseparators : ∀ s ∈ separators, Separates s) :
    read (Value.joined separators forms) = .ok forms ∧
      ∀ form ∈ forms, read form.text = .ok [form] := by
  have hwritten : ∀ v ∈ forms, Written v := written_of_read h
  refine ⟨read_joined hwritten hseparators, ?_⟩
  intro form hform
  have hsingle : ∀ v ∈ [form], Written v := by simpa using hwritten form hform
  have hnone : ∀ s ∈ ([] : List String), Separates s := by simp
  exact read_joined hsingle hnone

/-- The text of the list with an unquoted symbol that starts with an at sign keeps the two apart,
and the string keeps its escaped quote, its line feed and its semicolon. -/
theorem read_printed_forms_quoted :
    let source := "'(a ,@b , @c \"x\\\"y\nz;\");\n`()"
    let form : Value :=
      .list [.symbol "quote", .list [.symbol "a", .list [.symbol "unquote-splicing", .symbol "b"],
        .list [.symbol "unquote", .symbol "@c"], .atom ⟨.string, "\"x\\\"y\nz;\""⟩]]
    let forms : List Value := [form, .list [.symbol "quasiquote", .list []]]
    read source = .ok forms ∧ (∀ s ∈ ["\n\t"], Separates s) ∧ form ∈ forms ∧
      read (Value.joined ["\n\t"] forms) = .ok forms ∧ read form.text = .ok [form] := by
  intro source form forms
  have hread : read source = .ok forms := by
    unfold source forms form
    rfl
  have hseparators : ∀ s ∈ ["\n\t"], Separates s := by decide
  have hform : form ∈ forms := List.mem_cons_self
  obtain ⟨hjoined, hsingle⟩ := read_printed_forms hread ["\n\t"] hseparators
  exact ⟨hread, hseparators, hform, hjoined, hsingle form hform⟩

end TreeLisp
