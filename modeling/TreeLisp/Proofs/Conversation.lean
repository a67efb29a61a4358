import Mathlib.Data.List.Forall2
import TreeLisp.Proofs.Lines
import TreeLisp.Proofs.ReadFirst
import TreeLisp.Proofs.World
import TreeLisp.Repl

/-!
# Conversations

A conversation reads each line on its own, while a source text is read as a whole. When every line
can be read, nothing reaches across a line feed: a symbol, a mark and a comment end there, and a
string is closed before it. So the lines have the forms of the whole text, in order, and the
conversation evaluates these forms and no others. It leaves the store that the whole text leaves,
and answers each line with the last of the results that belong to it.
-/
namespace TreeLisp

open Lexer

namespace Console

theorem splitLines_line {line : List Char} (hline : '\n' ∉ line) (rest : List Char) :
    splitLines (line ++ '\n' :: rest) = line :: splitLines rest := by
  induction line with
  | nil => rfl
  | cons c line ih =>
    have hc : c ≠ '\n' := fun heq => hline (heq ▸ List.mem_cons_self)
    have htail : '\n' ∉ line := fun hmem => hline (List.mem_cons_of_mem c hmem)
    rw [List.cons_append, splitLines, ih htail]
    exact hc

theorem splitLines_last {line : List Char} (hline : '\n' ∉ line) (hne : line ≠ []) :
    splitLines line = [line] := by
  induction line with
  | nil => exact absurd rfl hne
  | cons c line ih =>
    have hc : c ≠ '\n' := fun heq => hline (heq ▸ List.mem_cons_self)
    have htail : '\n' ∉ line := fun hmem => hline (List.mem_cons_of_mem c hmem)
    rw [splitLines]
    · by_cases hempty : line = []
      · rw [hempty]
        rfl
      · rw [ih htail hempty]
    · exact hc

/-- A text is a line without its end, or a whole line before another text. -/
theorem lines_induction {p : List Char → Prop} (last : ∀ line, '\n' ∉ line → p line)
    (next : ∀ line rest, '\n' ∉ line → p rest → p (line ++ '\n' :: rest)) (text : List Char) :
    p text := by
  induction hn : text.length using Nat.strong_induction_on generalizing text with
  | _ n ih =>
    by_cases hfeed : '\n' ∈ text
    · obtain ⟨line, rest, rfl, hline⟩ := List.eq_append_cons_of_mem hfeed
      apply next line rest hline
      apply ih rest.length _ rest rfl
      rw [List.length_append, List.length_cons] at hn
      omega
    · exact last text hfeed

end Console

/-- Each line reads as the forms in the same place. -/
abbrev ReadByLine (lines : List String) (forms : List (List Value)) : Prop :=
  List.Forall₂ (fun line found => read line = .ok found) lines forms

theorem read_lines (cs : List Char)
    (h : ∀ line ∈ Console.splitLines cs, ∃ forms, read (String.ofList line) = .ok forms) :
    ∃ forms, ReadByLine ((Console.splitLines cs).map String.ofList) forms ∧
      read (String.ofList cs) = .ok forms.flatten := by
  induction cs using Console.lines_induction with
  | last line hline =>
    by_cases hne : line = []
    · subst hne
      exact ⟨[], .nil, rfl⟩
    · rw [Console.splitLines_last hline hne] at h ⊢
      obtain ⟨forms, hforms⟩ := h line List.mem_cons_self
      exact ⟨[forms], .cons hforms .nil, by simpa using hforms⟩
  | next line rest hline ih =>
    rw [Console.splitLines_line hline] at h ⊢
    obtain ⟨first, hfirst⟩ := h line List.mem_cons_self
    obtain ⟨later, hlater, hread⟩ := ih fun other hmem => h other (List.mem_cons_of_mem line hmem)
    refine ⟨first :: later, .cons hfirst hlater, ?_⟩
    have htext : String.ofList (line ++ '\n' :: rest) =
        String.ofList line ++ "\n" ++ String.ofList rest := by
      rw [← String.toList_inj]
      simp
    rw [htext, read_append_feed hfirst, hread]
    rfl

theorem read_of_allBlank {line : String} (h : Text.allBlank line = true) : read line = .ok [] := by
  have hblank : Partition [] [] line.toList := .of_blanks (List.all_eq_true.mp h)
  exact (read_eq_ok_iff line []).mpr ⟨[], hblank, [], rfl, rfl⟩

namespace Session

variable {session : Session} {forms more results : List Value} {s t : Store} {stop : Option Fault}

theorem exists_evaluates (session : Session) (forms : List Value) (s : Store) :
    ∃ results stop t, session.Evaluates forms s results stop t := by
  induction forms generalizing s with
  | nil => exact ⟨[], none, s, .finish s⟩
  | cons form later ih =>
    cases hform : (eval session.bound form session.scope).run s with
    | ok v t =>
      obtain ⟨results, stop, u, hlater⟩ := ih t
      exact ⟨v :: results, stop, u, .next hform hlater⟩
    | error f t => exact ⟨[], some f, t, .fault later hform⟩

/-- Forms in two parts are evaluated one part after the other, unless a fault comes up in the
first. -/
theorem Evaluates.append_cases (h : session.Evaluates (forms ++ more) s results stop t) :
    (∃ f first, stop = some f ∧ session.Evaluates forms s first (some f) t) ∨
      ∃ first second u, results = first ++ second ∧ session.Evaluates forms s first none u ∧
        session.Evaluates more u second stop t := by
  induction forms generalizing s results with
  | nil => exact .inr ⟨[], results, s, rfl, .finish s, h⟩
  | cons form forms ih =>
    cases h with
    | @next _ v _ vs _ u _ _ hform hlater =>
      rcases ih hlater with ⟨f, first, hstop, hfirst⟩ | ⟨first, second, u', rfl, hfirst, hsecond⟩
      · exact .inl ⟨f, v :: first, hstop, .next hform hfirst⟩
      · exact .inr ⟨v :: first, second, u', rfl, .next hform hfirst, hsecond⟩
    | fault _ hform => exact .inl ⟨_, [], rfl, .fault forms hform⟩

theorem evalLast_of_evaluates {code : String} (hread : read code = .ok forms)
    (h : session.Evaluates forms s results none t) :
    (session.evalLast code).run s = .ok (results.getLastD .nil) t := by
  rw [evalLast, EStateM.run_bind, session.evalAll_of_evaluates hread h]
  rfl

theorem evalLast_of_fault {code : String} {f : Fault} (hread : read code = .ok forms)
    (h : session.Evaluates forms s results (some f) t) :
    (session.evalLast code).run s = .error (.fault f) t := by
  rw [evalLast, EStateM.run_bind, session.evalAll_of_evaluates hread h]
  rfl

end Session

namespace Repl

variable {session : Session} {forms results : List Value} {s t : Store} {line : String}

/-- What follows the prompt in answer to a line: nothing for a blank one, and otherwise the last
result of its forms, nil if it has none. -/
def reply (line : String) (results : List Value) : String :=
  if Text.allBlank line then "" else (results.getLastD .nil).text ++ "\n"

/-- What a conversation shows for lines with their results. -/
def transcript (prompt : String) : List (String × List Value) → String
  | [] => prompt ++ "\n"
  | (line, results) :: later => prompt ++ reply line results ++ transcript prompt later

theorem answer_of_allBlank (h : Text.allBlank line = true) :
    answer session line s = .ok none s := by
  rw [answer, if_pos h]

theorem answer_of_evaluates (h : Text.allBlank line = false) (hread : read line = .ok forms)
    (hforms : session.Evaluates forms s results none t) :
    answer session line s = .ok (some (results.getLastD .nil).text) t := by
  have hlast := Session.evalLast_of_evaluates hread hforms
  have hrespond : (session.respond line).run s = .ok (results.getLastD .nil).text t := by
    rw [Session.respond, EStateM.run_bind, hlast]
    rfl
  rw [EStateM.run] at hrespond
  simp only [answer, h, hrespond]
  rfl

theorem answer_of_fault {f : Fault} (hread : read line = .ok forms)
    (hforms : session.Evaluates forms s results (some f) t) :
    answer session line s = .error f t := by
  have hblank : ¬ Text.allBlank line = true := by
    intro hblank
    obtain rfl : [] = forms := Except.ok.inj ((read_of_allBlank hblank).symm.trans hread)
    cases hforms
  have hlast := Session.evalLast_of_fault hread hforms
  have hrespond : (session.respond line).run s = .error (.fault f) t := by
    rw [Session.respond, EStateM.run_bind, hlast]
  rw [EStateM.run] at hrespond
  rw [answer, if_neg hblank, hrespond]

theorem converse_line (c : Console) (lines : List String) (hread : read line = .ok forms)
    (hforms : session.Evaluates forms s results none t) :
    converse session c s (line :: lines) =
      converse session ⟨c.prompt, c.output ++ (c.prompt ++ reply line results)⟩ t lines := by
  by_cases hblank : Text.allBlank line = true
  · obtain rfl : [] = forms := Except.ok.inj ((read_of_allBlank hblank).symm.trans hread)
    cases hforms
    rw [converse, answer_of_allBlank hblank, reply, if_pos hblank, String.append_empty]
    rfl
  · have hanswer := answer_of_evaluates (Bool.eq_false_iff.mpr hblank) hread hforms
    rw [converse, hanswer, reply, if_neg hblank, ← String.append_assoc]
    rfl

/-- A conversation without a fault answers every line with the last of its own results. -/
theorem converse_of_evaluates {lines : List String} {found : List (List Value)}
    (hread : ReadByLine lines found) (c : Console)
    (h : session.Evaluates found.flatten s results none t) :
    ∃ parts : List (List Value), results = parts.flatten ∧
      List.Forall₂ (fun forms part => part.length = forms.length) found parts ∧
      converse session c s lines =
        ⟨⟨c.prompt, c.output ++ transcript c.prompt (lines.zip parts)⟩, none, t⟩ := by
  induction hread generalizing c s results with
  | nil =>
    cases h
    refine ⟨[], rfl, .nil, ?_⟩
    simp only [converse, Console.greet, Console.writeLine, Console.write, String.empty_append,
      String.append_assoc, List.zip_nil_left, transcript]
  | @cons line forms lines found hline hlines ih =>
    rw [List.flatten_cons] at h
    rcases h.append_cases with ⟨f, first, hstop, -⟩ | ⟨first, second, u, rfl, hfirst, hsecond⟩
    · cases hstop
    · obtain ⟨parts, rfl, hparts, hrun⟩ :=
        ih ⟨c.prompt, c.output ++ (c.prompt ++ reply line first)⟩ hsecond
      refine ⟨first :: parts, rfl, .cons hfirst.length_eq hparts, ?_⟩
      rw [converse_line c lines hline hfirst, hrun, List.zip_cons_cons, transcript]
      simp only [String.append_assoc]

/-- A fault ends the conversation where it ends the evaluation of all forms. -/
theorem converse_of_fault {lines : List String} {found : List (List Value)}
    (hread : ReadByLine lines found) (c : Console) {f : Fault}
    (h : session.Evaluates found.flatten s results (some f) t) :
    (converse session c s lines).fault = some f ∧ (converse session c s lines).store = t := by
  induction hread generalizing c s results with
  | nil => cases h
  | @cons line forms lines found hline hlines ih =>
    rw [List.flatten_cons] at h
    rcases h.append_cases with ⟨f', first, hstop, hfirst⟩ | ⟨first, second, u, -, hfirst, hsecond⟩
    · cases hstop
      rw [converse, answer_of_fault hline hfirst]
      exact ⟨rfl, rfl⟩
    · rw [converse_line c lines hline hfirst]
      exact ih _ hsecond

end Repl

/-- When every line of a text can be read, a conversation over its lines and the evaluation of the
text as a whole come to the same end. Without a fault they leave the same store; the results of the
text fall into parts, one for each line and as long as the line has forms, and the conversation shows
the prompt for every line, after it nothing for a blank line and the last result of the line's part
for any other, and at the end of the input the prompt on a line of its own. A fault is the same in
both, and is met with the same store. -/
theorem conversation_agrees (session : Session) (c : Console) (s : Store) (text : String)
    (hlines : ∀ line ∈ Console.linesOf text, ∃ forms, read line = .ok forms) :
    let lines := Console.linesOf text
    let conversation := Repl.converse session c s lines
    (∀ v t, (session.evalLast text).run s = .ok v t →
      ∃ forms parts : List (List Value),
        List.Forall₂ (fun line found => read line = .ok found) lines forms ∧
        List.Forall₂ (fun found part => part.length = found.length) forms parts ∧
        (session.evalAll text).run s = .ok parts.flatten t ∧
        conversation =
          ⟨⟨c.prompt, c.output ++ Repl.transcript c.prompt (lines.zip parts)⟩, none, t⟩) ∧
    (∀ e t, (session.evalLast text).run s = .error e t →
      ∃ f, e = .fault f ∧ conversation.fault = some f ∧ conversation.store = t) := by
  intro lines conversation
  obtain ⟨forms, hforms, hread⟩ := read_lines text.toList fun line hline =>
    hlines _ (List.mem_map_of_mem hline)
  rw [String.ofList_toList] at hread
  obtain ⟨results, stop, u, hevaluates⟩ := session.exists_evaluates forms.flatten s
  cases stop with
  | none =>
    have hlast := Session.evalLast_of_evaluates hread hevaluates
    obtain ⟨parts, rfl, hparts, hconverse⟩ := Repl.converse_of_evaluates hforms c hevaluates
    constructor
    · intro v t ht
      obtain ⟨-, rfl⟩ := EStateM.Result.ok.inj (hlast.symm.trans ht)
      have hall := session.evalAll_of_evaluates hread hevaluates
      exact ⟨forms, parts, hforms, hparts, hall, hconverse⟩
    · intro e t ht
      cases hlast.symm.trans ht
  | some f =>
    have hlast := Session.evalLast_of_fault hread hevaluates
    constructor
    · intro v t ht
      cases hlast.symm.trans ht
    · intro e t ht
      obtain ⟨rfl, rfl⟩ := EStateM.Result.error.inj (hlast.symm.trans ht)
      exact ⟨f, rfl, Repl.converse_of_fault hforms c hevaluates⟩

/-- A definition with a comment behind it, an empty line, a line with a comment only, and two forms on
a last line that no line feed ends. -/
theorem conversation_agrees_comments :
    let session : Session := ⟨1, 9⟩
    let s := (World.initial.run [.start]).store
    let text := "(def x true) ; set\n\n;x\nx (quote y)"
    let after := s.set 1 "x" (.bool true)
    (∀ line ∈ Console.linesOf text, ∃ forms, read line = .ok forms) ∧
      (session.evalLast text).run s = .ok (.symbol "y") after ∧
      Repl.converse session (Console.start "> ") s (Console.linesOf text) =
        ⟨⟨"> ", "> true\n> > nil\n> y\n> \n"⟩, none, after⟩ := by
  intro session s text after
  let definition : Value := .list [.symbol "def", .symbol "x", .symbol "true"]
  let quotation : Value := .list [.symbol "quote", .symbol "y"]
  have hsplit : Console.linesOf text = ["(def x true) ; set", "", ";x", "x (quote y)"] := by
    decide
  have hfirst : read "(def x true) ; set" = .ok [definition] := rfl
  have hempty : read "" = .ok [] := rfl
  have hcomment : read ";x" = .ok [] := rfl
  have hlast : read "x (quote y)" = .ok [.symbol "x", quotation] := rfl
  have hlines : ∀ line ∈ Console.linesOf text, ∃ forms, read line = .ok forms := by
    rw [hsplit]
    simp [hfirst, hempty, hcomment, hlast]
  have hread : read "(def x true) ; set\n\n;x\nx (quote y)" =
      .ok [definition, .symbol "x", quotation] := rfl
  have hdefinition : (eval 9 definition 1).run s = .ok (.bool true) after := rfl
  have hsymbol : (eval 9 (.symbol "x") 1).run after = .ok (.bool true) after := rfl
  have hquotation : (eval 9 quotation 1).run after = .ok (.symbol "y") after := rfl
  have hevaluates : session.Evaluates [definition, .symbol "x", quotation] s
      [.bool true, .bool true, .symbol "y"] none after :=
    .next hdefinition (.next hsymbol (.next hquotation (.finish after)))
  have hrun := Session.evalLast_of_evaluates hread hevaluates
  have hall := session.evalAll_of_evaluates hread hevaluates
  obtain ⟨forms, parts, hforms, hparts, hresults, hconversation⟩ :=
    (conversation_agrees session (Console.start "> ") s text hlines).1 _ _ hrun
  rw [hsplit] at hforms
  have hflatten : [.bool true, .bool true, .symbol "y"] = parts.flatten :=
    (EStateM.Result.ok.inj (hall.symm.trans hresults)).1
  -- the parts are as long as the lines have forms
  obtain rfl : forms = [[definition], [], [], [.symbol "x", quotation]] := by
    simp only [List.forall₂_cons_left_iff, List.forall₂_nil_left_iff, hfirst, hempty, hcomment,
      hlast, Except.ok.injEq] at hforms
    obtain ⟨_, _, rfl, ⟨_, _, rfl, ⟨_, _, rfl, ⟨_, _, rfl, rfl, rfl⟩, rfl⟩, rfl⟩, rfl⟩ := hforms
    rfl
  obtain ⟨v, w, u, rfl⟩ : ∃ v w u, parts = [[v], [], [], [w, u]] := by
    simp only [List.forall₂_cons_left_iff, List.forall₂_nil_left_iff, List.length_cons,
      List.length_nil, Nat.reduceAdd, List.length_eq_one_iff, List.length_eq_two,
      List.length_eq_zero_iff] at hparts
    obtain ⟨_, _, ⟨v, rfl⟩, ⟨_, _, rfl, ⟨_, _, rfl, ⟨_, _, ⟨w, u, rfl⟩, rfl, rfl⟩, rfl⟩, rfl⟩,
      rfl⟩ := hparts
    exact ⟨v, w, u, rfl⟩
  obtain ⟨rfl, rfl, rfl⟩ : v = .bool true ∧ w = .bool true ∧ u = .symbol "y" := by
    simpa [eq_comm] using hflatten
  have htranscript : Repl.transcript "> "
      [("(def x true) ; set", [.bool true]), ("", []), (";x", []),
        ("x (quote y)", [.bool true, .symbol "y"])] = "> true\n> > nil\n> y\n> \n" := by
    decide
  refine ⟨hlines, hrun, ?_⟩
  rw [hconversation, hsplit]
  have houtput := String.empty_append.trans htranscript
  exact congrArg (fun output : String => (⟨⟨"> ", output⟩, none, after⟩ : Repl.Conversation)) houtput

end TreeLisp
