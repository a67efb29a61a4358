import TreeLisp.Native
import TreeLisp.Token

/-!
# Values

Code and data are values of one type. The reader makes atoms and lists; evaluation makes the
others. Errors are values too, and travel like any result.
-/
namespace TreeLisp

abbrev FrameId := Nat

structure Closure (α : Type) where
  params : List String
  rest : Option String
  body : List α
  scope : FrameId
  name : String

/-- The name of a callable that has not been defined under one. -/
def anonymous : String := "anonymous"

inductive Value where
  | nil
  | bool (b : Bool)
  | int (n : Int)
  | float (x : Float)
  | string (text : String)
  | atom (token : Token)
  | list (items : List Value)
  | native (n : Native)
  | sugar (s : Sugar)
  /-- A function made by the program. Its serial number sets it apart from equal-looking ones. -/
  | function (serial : Nat) (name : String) (closure : Closure Value)
  /-- A function from unevaluated arguments to the form that replaces the call. -/
  | expander (serial : Nat) (name : String) (closure : Closure Value)
  | error (message : String)

instance : Inhabited Value := ⟨.nil⟩

namespace Value

/-- The atom of a name, as the reader makes it. -/
def symbol (name : String) : Value :=
  .atom (Token.ofName name)

/-- Only nil and false are false. -/
def truthy : Value → Bool
  | .nil => false
  | .bool b => b
  | _ => true

def isFunction : Value → Bool
  | .native _ | .function _ _ _ => true
  | _ => false

def isExpander : Value → Bool
  | .sugar _ | .expander _ _ _ => true
  | _ => false

def isError : Value → Bool
  | .error _ => true
  | _ => false

def name? : Value → Option String
  | .atom ⟨.symbol, name⟩ => some name
  | _ => none

def headToken? : List Value → Option Token
  | .atom token :: _ => some token
  | _ => none

def headName? : List Value → Option String
  | head :: _ => head.name?
  | [] => none

end Value

end TreeLisp
