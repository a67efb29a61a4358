import TreeLisp.ReadError
import TreeLisp.Text.Blank
import TreeLisp.Token

/-!
# Lexing

The lexer walks over the source one character at a time. Between tokens it skips blanks and the
comments from a semicolon to the end of the line. Inside a string a backslash takes the next
character with it, unless that is a line feed. A symbol is a maximal run of characters that are
neither blank nor one of the delimiters.
-/
namespace TreeLisp.Lexer

def isDelimiter (c : Char) : Bool :=
  ['(', ')', Text.apostrophe, '\x60', '"', ',', ';'].contains c

def isSymbolChar (c : Char) : Bool :=
  !Text.isBlank c && !isDelimiter c

/-- What the lexer is inside of. Characters of an unfinished token are kept latest first. -/
inductive Mode where
  | between
  | comment
  /-- After a comma that may yet be followed by the at sign. -/
  | comma
  | symbol (read : List Char)
  | string (start : Nat) (read : List Char) (escaped : Bool)
deriving DecidableEq

def finished (kind : Kind) (read : List Char) : Token :=
  ⟨kind, String.ofList read.reverse⟩

/-- A character that starts something new: the token it completes at once, if any, and the mode
after it. -/
def start (position : Nat) (c : Char) : List Token × Except ReadError Mode :=
  if Text.isBlank c then ([], .ok .between)
  else if c = ';' then ([], .ok .comment)
  else if c = ',' then ([], .ok .comma)
  else if c = Text.apostrophe then ([Token.ofMark .quote], .ok .between)
  else if c = '\x60' then ([Token.ofMark .quasiquote], .ok .between)
  else if c = '(' then ([Token.opening], .ok .between)
  else if c = ')' then ([Token.closing], .ok .between)
  else if c = '"' then ([], .ok (.string position [c] false))
  else if isSymbolChar c then ([], .ok (.symbol [c]))
  else ([], .error (.unexpectedCharacter position c))

/-- End the current token and start again with the character that does not belong to it. -/
def restart (token : Token) (position : Nat) (c : Char) : List Token × Except ReadError Mode :=
  let (tokens, next) := start position c
  (token :: tokens, next)

/-- The tokens that a character completes, and the mode after it. -/
def step (position : Nat) (c : Char) : Mode → List Token × Except ReadError Mode
  | .between => start position c
  | .comment => ([], .ok (if c = '\n' then .between else .comment))
  | .comma =>
    if c = '@' then ([Token.ofMark .splice], .ok .between)
    else restart (Token.ofMark .unquote) position c
  | .symbol read =>
    if isSymbolChar c then ([], .ok (.symbol (c :: read)))
    else restart (finished .symbol read) position c
  | .string first read true =>
    if c = '\n' then ([], .error (.unterminated first))
    else ([], .ok (.string first (c :: read) false))
  | .string first read false =>
    if c = '"' then ([finished .string (c :: read)], .ok .between)
    else ([], .ok (.string first (c :: read) (c == '\\')))

def finish : Mode → Except ReadError (List Token)
  | .between => .ok []
  | .comment => .ok []
  | .comma => .ok [Token.ofMark .unquote]
  | .symbol read => .ok [finished .symbol read]
  | .string first _ _ => .error (.unterminated first)

structure Lexed where
  tokens : List Token
  failure : Option ReadError
deriving DecidableEq

def lexFrom (mode : Mode) (position : Nat) : List Char → Lexed
  | [] =>
    match finish mode with
    | .ok tokens => ⟨tokens, none⟩
    | .error e => ⟨[], some e⟩
  | c :: rest =>
    match step position c mode with
    | (tokens, .error e) => ⟨tokens, some e⟩
    | (tokens, .ok mode) =>
      let later := lexFrom mode (position + 1) rest
      ⟨tokens ++ later.tokens, later.failure⟩

def lex (source : String) : Lexed :=
  lexFrom .between 0 source.toList

end TreeLisp.Lexer
