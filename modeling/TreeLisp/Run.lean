import TreeLisp.Fault
import TreeLisp.Problem
import TreeLisp.Store

/-!
# Runs

An evaluation runs on the store and ends with a value or with a fault; the store it leaves is kept
in both cases. A strict run stops in addition at the first error value it meets, and has that
error's message as its outcome.
-/
namespace TreeLisp

abbrev Run := EStateM Fault Store

abbrev Strict := ExceptT String Run

abbrev Evaluator := Value → FrameId → Run Value

/-- Call a function with a whole call list, head included, from a frame. -/
abbrev Caller := Value → List Value → FrameId → Run Value

namespace Run

def newFrame (parent : FrameId) (bindings : Bindings) : Run FrameId :=
  modifyGet fun s => s.addFrame (some parent) bindings

def setName (frame : FrameId) (name : String) (value : Value) : Run Unit :=
  modify fun s => s.set frame name value

def getName? (frame : FrameId) (name : String) : Run (Option Value) := do
  return (← get).get? frame name

def record (r : Record) : Run Unit :=
  modify fun s => s.addRecord r

def newSerial : Run Nat :=
  modifyGet fun s => (s.serial, { s with serial := s.serial + 1 })

end Run

namespace Strict

/-- Go on with a value unless it is an error. -/
def accept : Value → Strict Value
  | .error message => throw message
  | v => pure v

def need (run : Run Value) : Strict Value := do
  accept (← run)

def fail {α : Type} (p : Problem) : Strict α :=
  throw p.message

def fault {α : Type} (f : Fault) : Strict α :=
  (throw f : Run α)

/-- The value of a strict run; one that was stopped gives the error that stopped it. -/
def settle (run : Strict Value) : Run Value := do
  match ← run.run with
  | .ok v => pure v
  | .error message => pure (.error message)

end Strict

end TreeLisp
