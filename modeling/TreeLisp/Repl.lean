import TreeLisp.Console
import TreeLisp.Session

/-!
# The read-evaluate-print loop

Each line is answered by the printed result of its last form, or by the reason why it cannot be
read; blank lines are passed over. The loop ends with the input, or with the first fault.
-/
namespace TreeLisp.Repl

/-- The answer to a line, none for a blank one. -/
def answer (session : Session) (line : String) : Run (Option String) := fun s =>
  if Text.allBlank line then .ok none s
  else
    match session.respond line s with
    | .ok text s => .ok (some text) s
    | .error (.unreadable e) s => .ok (some ("syntax error: " ++ e.message)) s
    | .error (.fault f) s => .error f s

structure Conversation where
  console : Console
  fault : Option Fault
  store : Store

def converse (session : Session) (c : Console) (s : Store) : List String → Conversation
  | [] => ⟨c.greet.writeLine "", none, s⟩
  | line :: lines =>
    match answer session line s with
    | .ok none s => converse session c.greet s lines
    | .ok (some text) s => converse session (c.greet.writeLine text) s lines
    | .error f s => ⟨c.greet, some f, s⟩

end TreeLisp.Repl
