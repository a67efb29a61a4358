import TreeLisp.Value.Text

/-!
# Problems

The causes for which evaluation makes an error value, and their wording.
-/
namespace TreeLisp

inductive Expected where
  | numbers
  | list
  | function
  | index
  | error
deriving DecidableEq, Repr

def Expected.text : Expected → String
  | numbers => "numbers"
  | list => "a list"
  | function => "a function"
  | index => "an integer index"
  | error => "an error"

inductive Problem where
  /-- The call has another number of arguments than the callable takes. The count is that of the
  call list without its head, so an empty list has one less than none. -/
  | wrongCount (name : String) (count got : Int)
  | tooFew (name : String) (least got : Int)
  | tooMany (name : String) (most got : Int)
  /-- The head of the call is not a function. -/
  | notCallable (call : List Value)
  /-- The text is neither a bound name nor a literal. -/
  | noLiteral (text : String)
  | malformedString
  | expects (name : String) (what : Expected) (got : Value)
  | notIntegers (numerator denominator : Value)
  | overflow
  | divisionByZero
  | outOfRange (index : Int) (sequence : Value)
  | paramsNotList (got : Value)
  | paramNotName (got : Value)
  | restNotLast
  | definedNotName (got : Value)
  | bindingsNotList (got : Value)
  | bindingNotPair (got : Value)
  | boundNotName (got : Value)
  | unquoteOutside
  | spliceOutside
  | oddClauses

def Problem.message : Problem → String
  | wrongCount name count got =>
    name ++ " takes " ++ Text.intText count ++ " args, got " ++ Text.intText got
  | tooFew name least got =>
    name ++ " takes at least " ++ Text.intText least ++ " args, got " ++ Text.intText got
  | tooMany name most got =>
    name ++ " takes at most " ++ Text.intText most ++ " args, got " ++ Text.intText got
  | notCallable call => "cannot evaluate list: " ++ (Value.list call).text
  | noLiteral text => "could not parse symbol: " ++ text
  | malformedString => "malformatted string"
  | expects name what got => name ++ " expects " ++ what.text ++ ", got " ++ got.text
  | notIntegers n d => "mod expects integers, got " ++ n.text ++ " and " ++ d.text
  | overflow => "integer overflow"
  | divisionByZero => "division by zero"
  | outOfRange i sequence =>
    "nth index " ++ Text.intText i ++ " out of range for " ++ sequence.text
  | paramsNotList got => "parameter list must be a list, got " ++ got.text
  | paramNotName got => "parameter must be a symbol, got " ++ got.text
  | restNotLast => "& must be followed by exactly one name"
  | definedNotName got => "def first argument must be a symbol, got " ++ got.text
  | bindingsNotList got => "let bindings must be a list, got " ++ got.text
  | bindingNotPair got => "let binding must be a list of two elements, got " ++ got.text
  | boundNotName got => "let binding name must be a symbol, got " ++ got.text
  | unquoteOutside => "unquote not valid outside of quasiquote"
  | spliceOutside => "unquote-splicing not valid outside of quasiquote"
  | oddClauses => "cond requires an even number of forms"

def Problem.toValue (p : Problem) : Value :=
  .error p.message

def argumentCount (call : List Value) : Int :=
  (call.length : Int) - 1

def Arity.problem? (arity : Arity) (name : String) (call : List Value) : Option Problem :=
  let got := argumentCount call
  match arity with
  | any => none
  | exactly count => if got = count then none else some (.wrongCount name count got)
  | atLeast least => if got < least then some (.tooFew name least got) else none
  | between least most =>
    if got < least then some (.tooFew name least got)
    else if most < got then some (.tooMany name most got)
    else none

end TreeLisp
