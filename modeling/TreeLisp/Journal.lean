import TreeLisp.Value.Text

/-!
# Journal

What the interpreter reports about its own work. Each record has a level of severity and names the
part of the interpreter it comes from; a reader of the journal chooses the least level to see.
-/
namespace TreeLisp

inductive Level where
  | notset
  | debug
  | info
  | warning
  | error
  | critical
deriving DecidableEq, Repr

namespace Level

def rank : Level → Nat
  | notset => 0
  | debug => 10
  | info => 20
  | warning => 30
  | error => 40
  | critical => 50

def label : Level → String
  | notset => "NOTSET"
  | debug => "DEBUG"
  | info => "INFO"
  | warning => "WARNING"
  | error => "ERROR"
  | critical => "CRITICAL"

/-- The level of a name in capitals; two levels have a second name. -/
def ofName? : String → Option Level
  | "NOTSET" => some notset
  | "DEBUG" => some debug
  | "INFO" => some info
  | "WARN" | "WARNING" => some warning
  | "ERROR" => some error
  | "CRITICAL" | "FATAL" => some critical
  | _ => none

end Level

inductive Record where
  /-- The natives have been bound. -/
  | registered (count : Nat)
  /-- A call of sugar or of an expander is about to be replaced. -/
  | expanding (name : String) (call : List Value)
  /-- A function of the program is about to be called. -/
  | calling (name : String) (arguments : Nat)
  | preludeMissing (path : String)
  | preludeFound (path : String)
  /-- A form of the prelude gave an error. -/
  | preludeFailed (error : Value)

namespace Record

def level : Record → Level
  | preludeFailed _ => .warning
  | _ => .debug

def source : Record → String
  | registered _ => "kelp.builtin"
  | expanding _ _ => "kelp.evaluation.evaluator"
  | calling _ _ => "kelp.types.lambda_fn"
  | preludeMissing _ | preludeFound _ | preludeFailed _ => "kelp.interpreter"

def message : Record → String
  | registered count => "native registry built with " ++ Text.natText count ++ " bindings"
  | expanding name call => "expanding macro " ++ name ++ ": " ++ (Value.list call).text
  | calling name count => "calling " ++ name ++ " with " ++ Text.natText count ++ " args"
  | preludeMissing path => "no prelude at " ++ path
  | preludeFound path => "loading prelude from " ++ path
  | preludeFailed error => "prelude form failed: " ++ error.text

def line (r : Record) : String :=
  r.level.label ++ " " ++ r.source ++ ": " ++ r.message

def reaches (r : Record) (least : Level) : Bool :=
  least.rank ≤ r.level.rank

def lines (least : Level) (journal : Array Record) : List String :=
  (journal.toList.filter (reaches · least)).map line

end Record

end TreeLisp
