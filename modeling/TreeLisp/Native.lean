/-!
# Native callables

The callables that every session knows: the special forms, which decide themselves what to
evaluate, the operations and traversals, which take evaluated arguments, and the sugar, whose calls
are replaced by longer forms before they are evaluated. Each has the name it is bound to and prints
under.
-/
namespace TreeLisp

/-- How many arguments a call may have. The numbers are integers because the count that they are
held against is one: a call list without a head has one argument less than none. -/
inductive Arity where
  | any
  | exactly (count : Int)
  | atLeast (least : Int)
  | between (least most : Int)
deriving DecidableEq, Repr

inductive SpecialForm where
  | define
  | branch
  | sequence
  | bind
  | function
  | expander
  | quote
  | quasiquote
  | unquote
  | splice
  | conjunction
  | disjunction
  | eval
deriving DecidableEq, Repr

namespace SpecialForm

/-- All special forms, in the order of their registration. -/
def all : List SpecialForm :=
  [define, branch, sequence, bind, function, expander, quote, quasiquote, unquote, splice,
    conjunction, disjunction, eval]

def name : SpecialForm → String
  | define => "def"
  | branch => "if"
  | sequence => "do"
  | bind => "let"
  | function => "fn"
  | expander => "macro"
  | quote => "quote"
  | quasiquote => "quasiquote"
  | unquote => "unquote"
  | splice => "unquote-splicing"
  | conjunction => "and"
  | disjunction => "or"
  | eval => "eval"

def arity : SpecialForm → Arity
  | define => .exactly 2
  | branch => .between 2 3
  | bind | function | expander => .atLeast 1
  | quote | quasiquote | eval => .exactly 1
  | sequence | unquote | splice | conjunction | disjunction => .any

end SpecialForm

inductive Operation where
  | add
  | sub
  | mul
  | div
  | mod
  | equal
  | less
  | lessEqual
  | greater
  | greaterEqual
  | not
  | list
  | cons
  | first
  | rest
  | nth
  | count
  | isEmpty
  | concat
  | isNil
  | isList
  | isSymbol
  | isString
  | isNumber
  | isFunction
  | isExpander
  | isError
  | str
  | error
  | errorMessage
deriving DecidableEq, Repr

namespace Operation

def onNumbersAndLists : List Operation :=
  [add, sub, mul, div, mod, equal, less, lessEqual, greater, greaterEqual, not, list, cons, first,
    rest, nth, count, isEmpty, concat]

def onValues : List Operation :=
  [isNil, isList, isSymbol, isString, isNumber, isFunction, isExpander, isError, str, error,
    errorMessage]

def name : Operation → String
  | add => "+"
  | sub => "-"
  | mul => "*"
  | div => "/"
  | mod => "mod"
  | equal => "="
  | less => "<"
  | lessEqual => "<="
  | greater => ">"
  | greaterEqual => ">="
  | not => "not"
  | list => "list"
  | cons => "cons"
  | first => "first"
  | rest => "rest"
  | nth => "nth"
  | count => "count"
  | isEmpty => "empty?"
  | concat => "concat"
  | isNil => "nil?"
  | isList => "list?"
  | isSymbol => "symbol?"
  | isString => "string?"
  | isNumber => "number?"
  | isFunction => "fn?"
  | isExpander => "macro?"
  | isError => "error?"
  | str => "str"
  | error => "error"
  | errorMessage => "error-message"

def arity : Operation → Arity
  | add | mul | list | concat | str | error => .any
  | sub | div | equal | less | lessEqual | greater | greaterEqual => .atLeast 1
  | mod | cons | nth => .exactly 2
  | not | first | rest | count | isEmpty | isNil | isList | isSymbol | isString | isNumber
  | isFunction | isExpander | isError | errorMessage => .exactly 1

/-- The operations that look at errors take them as arguments; all others stop at the first. -/
def takesErrors : Operation → Bool
  | isError | errorMessage => true
  | _ => false

end Operation

inductive Traversal where
  | map
  | filter
  | reduce
deriving DecidableEq, Repr

namespace Traversal

def all : List Traversal := [map, filter, reduce]

def name : Traversal → String
  | map => "map"
  | filter => "filter"
  | reduce => "reduce"

def arity : Traversal → Arity
  | map | filter => .exactly 2
  | reduce => .exactly 3

end Traversal

inductive Native where
  | form (f : SpecialForm)
  | operation (op : Operation)
  | traversal (t : Traversal)
deriving DecidableEq, Repr

namespace Native

def all : List Native :=
  SpecialForm.all.map form ++ Operation.onNumbersAndLists.map operation ++
    Traversal.all.map traversal ++ Operation.onValues.map operation

def name : Native → String
  | form f => f.name
  | operation op => op.name
  | traversal t => t.name

def arity : Native → Arity
  | form f => f.arity
  | operation op => op.arity
  | traversal t => t.arity

end Native

inductive Sugar where
  | defineFunction
  | defineExpander
  | whenTrue
  | whenFalse
  | cond
deriving DecidableEq, Repr

namespace Sugar

def all : List Sugar := [defineFunction, defineExpander, whenTrue, whenFalse, cond]

def name : Sugar → String
  | defineFunction => "defn"
  | defineExpander => "defmacro"
  | whenTrue => "when"
  | whenFalse => "unless"
  | cond => "cond"

def arity : Sugar → Arity
  | defineFunction | defineExpander => .atLeast 2
  | whenTrue | whenFalse => .atLeast 1
  | cond => .any

end Sugar

end TreeLisp
