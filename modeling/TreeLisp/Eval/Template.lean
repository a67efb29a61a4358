import TreeLisp.Run

/-!
# Templates

A template is copied with its unquoted parts evaluated. A list headed by unquote is replaced by the
value of its argument, and an item headed by unquote-splicing by the items of the list that its
argument evaluates to. The first error is the result.
-/
namespace TreeLisp.Template

/-- The argument of a list headed by the given mark's name, which must have exactly one; none for
any other value. -/
def argument? (m : Mark) : Value → Option (Except Problem Value)
  | .list items =>
    if Value.headName? items = some m.head then
      some (match items with
        | [_, form] => .ok form
        | _ => .error (.wrongCount m.head 1 (argumentCount items)))
    else none
  | _ => none

mutual

def fill (ev : Evaluator) (scope : FrameId) : Value → Strict Value
  | .list items =>
    match argument? .unquote (.list items) with
    | some (.error p) => Strict.fail p
    | some (.ok form) => ev form scope
    | none => do
      let filled ← fillItems ev scope items
      pure (.list filled)
  | v => pure v

def fillItems (ev : Evaluator) (scope : FrameId) : List Value → Strict (List Value)
  | [] => pure []
  | item :: later =>
    match argument? .splice item with
    | some (.error p) => Strict.fail p
    | some (.ok form) => do
      match ← Strict.need (ev form scope) with
      | .list spliced =>
        let filled ← fillItems ev scope later
        pure (spliced ++ filled)
      | v => Strict.fail (.expects Mark.splice.head .list v)
    | none => do
      let v ← Strict.accept (← fill ev scope item)
      let filled ← fillItems ev scope later
      pure (v :: filled)

end

end TreeLisp.Template
