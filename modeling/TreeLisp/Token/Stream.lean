import TreeLisp.Token.Lexer

/-!
# Token streams

A stream hands out tokens one at a time. A token that was only looked at is held back in a buffer,
from which it is handed out first. When the lexer failed, the error comes up once, after the last
token; from then on the stream is at its end.
-/
namespace TreeLisp

structure TokenStream where
  buffer : List Token
  pending : List Token
  failure : Option ReadError

namespace TokenStream

def ofTokens (tokens : List Token) : TokenStream :=
  ⟨[], tokens, none⟩

def ofSource (source : String) : TokenStream :=
  let lexed := Lexer.lex source
  ⟨[], lexed.tokens, lexed.failure⟩

/-- The tokens that have not been handed out. -/
def remaining (s : TokenStream) : List Token :=
  s.buffer ++ s.pending

def exhausted : TokenStream :=
  ⟨[], [], none⟩

/-- The next token, which stays in the stream. -/
def peek (s : TokenStream) : Except ReadError (Option Token) × TokenStream :=
  match s.buffer, s.pending, s.failure with
  | t :: _, _, _ => (.ok (some t), s)
  | [], t :: rest, failure => (.ok (some t), ⟨s.buffer ++ [t], rest, failure⟩)
  | [], [], some e => (.error e, exhausted)
  | [], [], none => (.ok none, s)

/-- The next token, taken out of the stream. -/
def advance (s : TokenStream) : Except ReadError (Option Token) × TokenStream :=
  match s.buffer, s.pending, s.failure with
  | t :: held, pending, failure => (.ok (some t), ⟨held, pending, failure⟩)
  | [], t :: rest, failure => (.ok (some t), ⟨[], rest, failure⟩)
  | [], [], some e => (.error e, exhausted)
  | [], [], none => (.ok none, s)

end TokenStream

end TreeLisp
