import Mathlib.Data.List.Basic
import TreeLisp.Proofs.AlikeParts
import TreeLisp.Proofs.Terminal

/-!
# Parameter lists

A parameter list is well formed when all its items are symbols and the first ampersand among them,
if there is one, is the last item but one. All such lists are taken, and the names in them become
the parameters. There is one other kind of list that is taken: the item behind the ampersand must be
an atom and need not be a symbol, so that a string literal passes for the name of the further
arguments. The forms that make callables take and refuse the same lists.
-/
namespace TreeLisp

open Strict

namespace Params

/-- The first marker, if there is one, is the last of the names but one. -/
def MarkerFits (names : List String) : Prop :=
  restMarker ∈ names → names.idxOf restMarker + 2 = names.length

instance (names : List String) : Decidable (MarkerFits names) :=
  inferInstanceAs (Decidable (_ → _))

/-- The value is the list of these names as symbols, with the marker in its place. -/
def WellFormed (v : Value) (names : List String) : Prop :=
  v = .list (names.map .symbol) ∧ MarkerFits names

/-- The parameters that the names stand for: those before the first marker, and the one behind it
for all further arguments. Without a marker all of them stand for an argument each. -/
def ofNames (names : List String) : Params :=
  ⟨names.take (names.idxOf restMarker), names[names.idxOf restMarker + 1]?⟩

/-- Symbols before a marker in its place, and behind it an atom that is no symbol. -/
def StrayRest (v : Value) (names : List String) (token : Token) : Prop :=
  v = .list (names.map .symbol ++ [.symbol restMarker, .atom token]) ∧ restMarker ∉ names ∧
    token.kind ≠ .symbol

/-- How parameters are written, with any atom behind the marker. -/
inductive Written : List Value → Params → Prop where
  | positional {names : List String} (hnames : restMarker ∉ names) :
      Written (names.map .symbol) ⟨names, none⟩
  | rest {names : List String} (hnames : restMarker ∉ names) (token : Token) :
      Written (names.map .symbol ++ [.symbol restMarker, .atom token]) ⟨names, some token.text⟩

variable {items : List Value} {p : Params} {names : List String} {v : Value}

theorem Written.cons {name : String} (hname : name ≠ restMarker) (h : Written items p) :
    Written (.symbol name :: items) ⟨name :: p.names, p.rest⟩ := by
  have hnot {names : List String} (hnames : restMarker ∉ names) : restMarker ∉ name :: names :=
    List.not_mem_cons_of_ne_of_not_mem hname.symm hnames
  cases h with
  | positional hnames => exact .positional (hnot hnames)
  | rest hnames token => exact .rest (hnot hnames) token

theorem written_of_ofItems (h : ofItems items = .ok p) : Written items p := by
  induction items generalizing p with
  | nil =>
    rw [ofItems, Except.ok.injEq] at h
    exact h ▸ .positional List.not_mem_nil
  | cons item later ih =>
    cases hitem : item.name? with
    | none =>
      rw [ofItems_of_no_name hitem] at h
      cases h
    | some name =>
      obtain rfl := Value.name?_eq_some_iff.mp hitem
      by_cases hmarker : name = restMarker
      · subst hmarker
        by_cases hrest : ∃ token, later = [.atom token]
        · obtain ⟨token, rfl⟩ := hrest
          rw [ofItems_of_rest hitem, Except.ok.injEq] at h
          exact h ▸ .rest List.not_mem_nil token
        · rw [ofItems_of_no_rest hitem fun token htoken => hrest ⟨token, htoken⟩] at h
          cases h
      · rw [ofItems_of_name hitem hmarker] at h
        cases hlater : ofItems later with
        | error problem =>
          rw [hlater] at h
          cases h
        | ok q =>
          rw [hlater] at h
          cases h
          exact (ih hlater).cons hmarker

theorem ofItems_names (hnames : restMarker ∉ names) (h : ofItems items = .ok p) :
    ofItems (names.map .symbol ++ items) = .ok ⟨names ++ p.names, p.rest⟩ := by
  induction names with
  | nil => exact h
  | cons name names ih =>
    obtain ⟨hname, hothers⟩ := List.ne_and_not_mem_of_not_mem_cons hnames
    rw [List.map_cons, List.cons_append, ofItems_of_name rfl hname.symm, ih hothers]
    rfl

theorem ofItems_eq_ok_iff : ofItems items = .ok p ↔ Written items p := by
  refine ⟨written_of_ofItems, fun h => ?_⟩
  cases h with
  | positional hnames =>
    have hnone : ofItems [] = .ok ⟨[], none⟩ := rfl
    have hread := ofItems_names hnames hnone
    rwa [List.append_nil, List.append_nil] at hread
  | rest hnames token =>
    have hrest : ofItems [.symbol restMarker, .atom token] = .ok ⟨[], some token.text⟩ :=
      ofItems_of_rest rfl token
    have hread := ofItems_names hnames hrest
    rwa [List.append_nil] at hread

theorem ofNames_of_notMem (h : restMarker ∉ names) : ofNames names = ⟨names, none⟩ := by
  rw [ofNames, List.idxOf_of_notMem h, List.take_length, List.getElem?_eq_none (Nat.le_succ _)]

theorem idxOf_marker (h : restMarker ∉ names) (rest : String) :
    (names ++ [restMarker, rest]).idxOf restMarker = names.length := by
  rw [List.idxOf_append_of_notMem h, List.idxOf_cons_self, Nat.add_zero]

theorem ofNames_marker (h : restMarker ∉ names) (rest : String) :
    ofNames (names ++ [restMarker, rest]) = ⟨names, some rest⟩ := by
  rw [ofNames, idxOf_marker h, List.take_left', List.getElem?_append_right (Nat.le_succ _)]
  · simp
  · rfl

theorem markerFits_iff :
    MarkerFits names ↔ restMarker ∉ names ∨
      ∃ before rest, names = before ++ [restMarker, rest] ∧ restMarker ∉ before := by
  constructor
  · intro h
    by_cases hmem : restMarker ∈ names
    · obtain ⟨before, after, rfl, hbefore⟩ := List.eq_append_cons_of_mem hmem
      have hlength := h hmem
      rw [List.idxOf_append_of_notMem hbefore, List.idxOf_cons_self, List.length_append,
        List.length_cons] at hlength
      obtain ⟨rest, rfl⟩ := List.length_eq_one_iff.mp (show after.length = 1 by omega)
      exact .inr ⟨before, rest, rfl, hbefore⟩
    · exact .inl hmem
  · rintro (hnot | ⟨before, rest, rfl, hbefore⟩) hmem
    · exact absurd hmem hnot
    · rw [idxOf_marker hbefore, List.length_append]
      rfl

theorem ofValue_of_wellFormed (h : WellFormed v names) : ofValue v = .ok (ofNames names) := by
  obtain ⟨rfl, hfits⟩ := h
  rw [ofValue, ofItems_eq_ok_iff]
  rcases markerFits_iff.mp hfits with hnot | ⟨before, rest, rfl, hbefore⟩
  · rw [ofNames_of_notMem hnot]
    exact .positional hnot
  · rw [ofNames_marker hbefore, List.map_append]
    exact .rest hbefore (Token.ofName rest)

theorem ofValue_of_strayRest {token : Token} (h : StrayRest v names token) :
    ofValue v = .ok ⟨names, some token.text⟩ := by
  obtain ⟨rfl, hnames, -⟩ := h
  exact ofItems_eq_ok_iff.mpr (.rest hnames token)

theorem cases_of_ofValue (h : ofValue v = .ok p) :
    (∃ names, WellFormed v names ∧ p = ofNames names) ∨
      ∃ names token, StrayRest v names token ∧ p = ⟨names, some token.text⟩ := by
  cases v with
  | list items =>
    cases ofItems_eq_ok_iff.mp h with
    | @positional names hnames =>
      exact .inl ⟨names, ⟨rfl, markerFits_iff.mpr (.inl hnames)⟩, (ofNames_of_notMem hnames).symm⟩
    | @rest names hnames token =>
      obtain ⟨kind, text⟩ := token
      by_cases hkind : kind = .symbol
      · subst hkind
        have hfits : MarkerFits (names ++ [restMarker, text]) :=
          markerFits_iff.mpr (.inr ⟨names, text, rfl, hnames⟩)
        refine .inl ⟨names ++ [restMarker, text], ⟨?_, hfits⟩, (ofNames_marker hnames text).symm⟩
        rw [List.map_append]
        rfl
      · exact .inr ⟨names, ⟨kind, text⟩, ⟨rfl, hnames, hkind⟩, rfl⟩
  | _ => cases h

end Params

/-- The special forms that make callables, and what they make of a serial number and a closure. -/
inductive SpecialForm.Makes : SpecialForm → (Nat → Closure Value → Value) → Prop where
  | function : Makes .function fun serial c => .function serial anonymous c
  | expander : Makes .expander fun serial c => .expander serial anonymous c

section

variable {f : SpecialForm} {make : Nat → Closure Value → Value} {s : Store} {scope : FrameId}
  {head v : Value}

theorem eval_maker (hmakes : f.Makes make) (hhead : s.denotes scope head (.native (.form f)))
    (v : Value) (body : List Value) (n : Nat) :
    (eval (n + 2) (.list (head :: v :: body)) scope).run s =
      (settle do
        let c ← SpecialForm.closure v body scope
        return make (← Run.newSerial) c).run s := by
  have harity : (Native.form f).arity = .atLeast 1 := by cases hmakes <;> rfl
  have hproblem := problem_eq_none_of_atLeast_one harity head v body
  rw [eval_call hhead rfl, call_eq_callWith]
  simp only [callWith, checkArity, hproblem, pure_bind, runNative, List.tail_cons]
  cases hmakes <;> rfl

theorem eval_maker_of_ok (hmakes : f.Makes make) (hhead : s.denotes scope head (.native (.form f)))
    {p : Params} (h : Params.ofValue v = .ok p) (body : List Value) (n : Nat) :
    (eval (n + 2) (.list (head :: v :: body)) scope).run s =
      .ok (make s.serial ⟨p.names, p.rest, body, scope, anonymous⟩)
        { s with serial := s.serial + 1 } := by
  rw [eval_maker hmakes hhead, SpecialForm.closure, h]
  rfl

theorem eval_maker_of_error (hmakes : f.Makes make)
    (hhead : s.denotes scope head (.native (.form f))) {problem : Problem}
    (h : Params.ofValue v = .error problem) (body : List Value) (n : Nat) :
    (eval (n + 2) (.list (head :: v :: body)) scope).run s = .ok problem.toValue s := by
  rw [eval_maker hmakes hhead, SpecialForm.closure, h]
  rfl

end

open Params

/-- The parameter lists that are taken are those that are well formed, with the parameters that
their names stand for, and those in which an atom that is no symbol passes for the last name. For
any other value there is an error. A form that makes a callable makes it with these parameters, or
gives the error and leaves the store as it was. -/
theorem parameter_lists_accepted (v : Value) :
    (∀ p, ofValue v = .ok p ↔
      (∃ names, WellFormed v names ∧ p = ofNames names) ∨
        ∃ names token, StrayRest v names token ∧ p = ⟨names, some token.text⟩) ∧
    ((¬ ∃ names, WellFormed v names) → (¬ ∃ names token, StrayRest v names token) →
      ∃ problem, ofValue v = .error problem) ∧
    (∀ (f : SpecialForm) (make : Nat → Closure Value → Value), f.Makes make →
      ∀ (s : Store) (scope : FrameId) (head : Value), s.denotes scope head (.native (.form f)) →
      ∀ (body : List Value) (n : Nat),
        (∃ p, ofValue v = .ok p ∧ (eval (n + 2) (.list (head :: v :: body)) scope).run s =
          .ok (make s.serial ⟨p.names, p.rest, body, scope, anonymous⟩)
            { s with serial := s.serial + 1 }) ∨
        ∃ problem, ofValue v = .error problem ∧
          (eval (n + 2) (.list (head :: v :: body)) scope).run s = .ok problem.toValue s) := by
  refine ⟨fun p => ⟨cases_of_ofValue, ?_⟩, ?_, ?_⟩
  · rintro (⟨names, hnames, rfl⟩ | ⟨names, token, hstray, rfl⟩)
    · exact ofValue_of_wellFormed hnames
    · exact ofValue_of_strayRest hstray
  · intro hwell hstray
    cases hv : ofValue v with
    | error problem => exact ⟨problem, rfl⟩
    | ok p =>
      rcases cases_of_ofValue hv with ⟨names, hnames, -⟩ | ⟨names, token, htoken, -⟩
      · exact absurd ⟨names, hnames⟩ hwell
      · exact absurd ⟨names, token, htoken⟩ hstray
  · intro f make hmakes s scope head hhead body n
    cases hv : ofValue v with
    | ok p => exact .inl ⟨p, rfl, eval_maker_of_ok hmakes hhead hv body n⟩
    | error problem => exact .inr ⟨problem, rfl, eval_maker_of_error hmakes hhead hv body n⟩

/-- All items are names and the second marker is the name of the further arguments; the function is
made with two parameters. A number in the list is a symbol and a list in it is not. -/
theorem parameter_lists_accepted_two_markers :
    let s := Store.initial
    let proper : Value := .list [.symbol "a", .symbol "1", .symbol "&", .symbol "&"]
    let improper : Value := .list [.symbol "a", .list []]
    (SpecialForm.Makes .function (fun serial c => .function serial anonymous c) ∧
        s.denotes registry (.symbol "fn") (.native (.form .function))) ∧
      ofValue proper = .ok ⟨["a", "1"], some "&"⟩ ∧
      (eval 2 (.list [.symbol "fn", proper]) registry).run s =
        .ok (.function 0 anonymous ⟨["a", "1"], some "&", [], registry, anonymous⟩)
          { s with serial := 1 } ∧
      (eval 2 (.list [.symbol "fn", improper]) registry).run s =
        .ok (.error "parameter must be a symbol, got ()") s := by
  intro s proper improper
  have hmakes := SpecialForm.Makes.function
  have hhead : s.denotes registry (.symbol "fn") (.native (.form .function)) :=
    .inr ⟨"fn", rfl, rfl⟩
  have hproper : ofValue proper = .ok ⟨["a", "1"], some "&"⟩ := by
    refine ((parameter_lists_accepted proper).1 _).mpr (.inl ⟨["a", "1", "&", "&"], ⟨rfl, ?_⟩, ?_⟩)
    · decide
    · decide
  have himproper : ofValue improper = .error (.paramNotName (.list [])) := rfl
  refine ⟨⟨hmakes, hhead⟩, hproper, ?_, ?_⟩
  · obtain ⟨p, hp, hrun⟩ | ⟨problem, hproblem, -⟩ :=
      (parameter_lists_accepted proper).2.2 _ _ hmakes s registry _ hhead [] 0
    · cases hproper.symm.trans hp
      exact hrun
    · cases hproper.symm.trans hproblem
  · obtain ⟨p, hp, -⟩ | ⟨problem, hproblem, hrun⟩ :=
      (parameter_lists_accepted improper).2.2 _ _ hmakes s registry _ hhead [] 0
    · cases himproper.symm.trans hp
    · cases himproper.symm.trans hproblem
      exact hrun

/-- A string literal is taken for the name of the further arguments, although it is no symbol. -/
theorem string_passes_for_name :
    let v : Value := .list [.symbol "&", .atom ⟨.string, "\"s\""⟩]
    (¬ ∃ names, WellFormed v names) ∧ ofValue v = .ok ⟨[], some "\"s\""⟩ ∧
      (eval 2 (.list [.symbol "fn", v]) registry).run Store.initial =
        .ok (.function 0 anonymous ⟨[], some "\"s\"", [], registry, anonymous⟩)
          { Store.initial with serial := 1 } := by
  refine ⟨?_, rfl, rfl⟩
  rintro ⟨names, hitems, -⟩
  match names with
  | [] | [_] | _ :: _ :: _ :: _ => simp at hitems
  | [_, _] => simp [Value.symbol, Token.ofName] at hitems

end TreeLisp
