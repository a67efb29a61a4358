import TreeLisp.Text.Digits
import TreeLisp.Text.Quoted

/-!
# Read errors

The ways in which a source text fails to be a sequence of forms.
-/
namespace TreeLisp

inductive ReadError where
  /-- The character at this position starts neither a token nor a comment. -/
  | unexpectedCharacter (position : Nat) (c : Char)
  /-- The string that starts at this position has no closing quote. -/
  | unterminated (start : Nat)
  /-- The source ends inside a list. -/
  | unmatchedOpening
  /-- A closing parenthesis stands where a form is expected. -/
  | unexpectedClosing
  /-- The source ends after a mark with the given text. -/
  | missingForm (mark : String)
deriving DecidableEq, Repr

def ReadError.message : ReadError → String
  | unexpectedCharacter position c =>
    "Unexpected char at " ++ Text.natText position ++ ": " ++ Text.quoted (String.singleton c)
  | unterminated start => "Unterminated string starting at " ++ Text.natText start
  | unmatchedOpening => "Unmatched '('"
  | unexpectedClosing => "Unexpected ')'"
  | missingForm mark => "Expected a form after " ++ Text.quoted mark

end TreeLisp
