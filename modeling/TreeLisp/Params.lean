import TreeLisp.Problem

/-!
# Parameter lists

A parameter list names the arguments by position. An ampersand as the last item but one makes the
last item the name of the list of all further arguments.
-/
namespace TreeLisp

structure Params where
  names : List String
  rest : Option String
deriving DecidableEq, Repr

namespace Params

def restMarker : String := "&"

def ofItems : List Value → Except Problem Params
  | [] => .ok ⟨[], none⟩
  | item :: later =>
    match item.name? with
    | none => .error (.paramNotName item)
    | some name =>
      if name = restMarker then
        match later with
        | [.atom token] => .ok ⟨[], some token.text⟩
        | _ => .error .restNotLast
      else (ofItems later).map fun p => ⟨name :: p.names, p.rest⟩

def ofValue : Value → Except Problem Params
  | .list items => ofItems items
  | v => .error (.paramsNotList v)

end Params

end TreeLisp
