import TreeLisp.Text.Quoted

/-!
# Tokens

A token is a piece of source text with its kind. Besides symbols and strings there are the two
parentheses and the four marks that abbreviate a list of two elements.
-/
namespace TreeLisp

/-- A mark before a form stands for the list of its head symbol and the form. -/
inductive Mark where
  | quote
  | quasiquote
  | unquote
  | splice
deriving DecidableEq, Repr

namespace Mark

def text : Mark → String
  | quote => "'"
  | quasiquote => "`"
  | unquote => ","
  | splice => ",@"

def head : Mark → String
  | quote => "quote"
  | quasiquote => "quasiquote"
  | unquote => "unquote"
  | splice => "unquote-splicing"

end Mark

inductive Kind where
  | symbol
  | string
  | opening
  | closing
  | mark (m : Mark)
deriving DecidableEq, Repr

structure Token where
  kind : Kind
  text : String
deriving DecidableEq, Repr

def Kind.label : Kind → String
  | symbol => "SYMBOL"
  | string => "STRING"
  | opening => "LPAREN"
  | closing => "RPAREN"
  | mark .quote => "QUOTE"
  | mark .quasiquote => "QUASIQUOTE"
  | mark .unquote => "UNQUOTE"
  | mark .splice => "SPLICE_UNQUOTE"

namespace Token

def ofName (name : String) : Token := ⟨.symbol, name⟩

def opening : Token := ⟨.opening, "("⟩

def closing : Token := ⟨.closing, ")"⟩

def ofMark (m : Mark) : Token := ⟨.mark m, m.text⟩

def describe (t : Token) : String :=
  "Token(" ++ Text.quoted t.text ++ ", " ++ t.kind.label ++ ")"

end Token

end TreeLisp
