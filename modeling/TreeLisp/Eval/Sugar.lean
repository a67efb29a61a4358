import TreeLisp.Fault
import TreeLisp.Problem

/-!
# Expansion of sugar

The form that replaces a call of native sugar. The expansion names the special forms by symbols, so
it means what these names are bound to where it is evaluated.
-/
namespace TreeLisp.Sugar

def definition (maker : String) (name params : Value) (body : List Value) : Value :=
  .list [.symbol "def", name, .list (.symbol maker :: params :: body)]

def block (body : List Value) : Value :=
  .list (.symbol "do" :: body)

/-- The clauses of a conditional, one pair at a time. -/
def clauses (forms : List Value) : Except Fault Value :=
  if forms.length % 2 = 0 then
    match forms with
    | [] => .ok .nil
    | test :: form :: more =>
      .ok (.list [.symbol "if", test, form, .list (.symbol "cond" :: more)])
    | [_] => .error .miscount
  else .ok Problem.oddClauses.toValue

def expansion (s : Sugar) (call : List Value) : Except Fault Value :=
  match s, call with
  | .defineFunction, _ :: name :: params :: body => .ok (definition "fn" name params body)
  | .defineExpander, _ :: name :: params :: body => .ok (definition "macro" name params body)
  | .whenTrue, _ :: test :: body => .ok (.list [.symbol "if", test, block body])
  | .whenFalse, _ :: test :: body => .ok (.list [.symbol "if", test, .nil, block body])
  | .cond, call => clauses call.tail
  | _, _ => .error .miscount

def expand (s : Sugar) (call : List Value) : Except Fault Value :=
  match s.arity.problem? s.name call with
  | some p => .ok p.toValue
  | none => s.expansion call

end TreeLisp.Sugar
