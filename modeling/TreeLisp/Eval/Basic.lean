import TreeLisp.Run

/-!
# Arguments and sequences

The evaluation of several forms from left to right by a given evaluator. Arguments and sequences
stop at the first error, and the forms behind it are not evaluated.
-/
namespace TreeLisp

def evalArgs (ev : Evaluator) (scope : FrameId) : List Value → Strict (List Value)
  | [] => pure []
  | form :: later => do
    let v ← Strict.need (ev form scope)
    let vs ← evalArgs ev scope later
    pure (v :: vs)

/-- The values of all arguments, errors included. -/
def evalEach (ev : Evaluator) (scope : FrameId) : List Value → Run (List Value)
  | [] => pure []
  | form :: later => do
    let v ← ev form scope
    let vs ← evalEach ev scope later
    pure (v :: vs)

/-- Evaluate the forms in order after an earlier one gave `last`. -/
def evalAfter (ev : Evaluator) (scope : FrameId) (last : Value) : List Value → Strict Value
  | [] => pure last
  | form :: later => do
    let v ← Strict.need (ev form scope)
    evalAfter ev scope v later

def evalSequence (ev : Evaluator) (scope : FrameId) (forms : List Value) : Strict Value :=
  evalAfter ev scope .nil forms

end TreeLisp
