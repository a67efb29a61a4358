import TreeLisp.Eval
import TreeLisp.Reader

/-!
# Sessions

A session is a frame over the natives. Source text is read and evaluated in it form by form, so the
forms before an error in the text have been evaluated when the error is found. Definitions stay for
later texts.
-/
namespace TreeLisp

inductive Stop where
  | unreadable (e : ReadError)
  | fault (f : Fault)
deriving DecidableEq, Repr

abbrev Action := EStateM Stop Store

def Action.ofRun {α : Type} (run : Run α) : Action α := fun s =>
  match run s with
  | .ok a s => .ok a s
  | .error f s => .error (.fault f) s

structure Session where
  scope : FrameId
  /-- The number of levels to which evaluations may be nested. -/
  bound : Nat := nestingBound

namespace Session

def create : Action Session := do
  let scope ← Action.ofRun (Run.newFrame registry [])
  pure { scope }

/-- Read and evaluate forms to the end of the stream, at most `fuel` of them. -/
def evalUpTo (session : Session) : Nat → TokenStream → Action (List Value)
  | 0, _ => pure []
  | fuel + 1, stream =>
    match stream.parse with
    | (.error e, _) => throw (.unreadable e)
    | (.ok none, _) => pure []
    | (.ok (some form), stream) => do
      let v ← Action.ofRun (eval session.bound form session.scope)
      let vs ← session.evalUpTo fuel stream
      pure (v :: vs)

def evalAll (session : Session) (code : String) : Action (List Value) :=
  let stream := TokenStream.ofSource code
  session.evalUpTo stream.attempts stream

def evalLast (session : Session) (code : String) : Action Value := do
  return (← session.evalAll code).getLastD .nil

def respond (session : Session) (code : String) : Action String := do
  return (← session.evalLast code).text

def get? (session : Session) (name : String) : Action (Option Value) := do
  return (← get).get? session.scope name

def recordFailures : List Value → Run Unit
  | [] => pure ()
  | v :: rest => do
    if v.isError then Run.record (.preludeFailed v)
    recordFailures rest

/-- Evaluate a prelude. Its errors go to the journal once all of it has been evaluated. -/
def evalPrelude (session : Session) (code : String) : Action Unit := do
  let results ← session.evalAll code
  Action.ofRun (recordFailures results)

def createWith (prelude : Option String) : Action Session := do
  let session ← create
  match prelude with
  | some code => session.evalPrelude code
  | none => pure ()
  pure session

end Session

end TreeLisp
