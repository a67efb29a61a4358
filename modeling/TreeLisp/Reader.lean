import TreeLisp.Token.Stream
import TreeLisp.Value

/-!
# Reading forms

A form is read in one pass over the tokens with a stack of the lists and marks that are still open.
A finished form goes to the innermost of them: a list takes it as its next item, and a mark makes
its two-element list out of it and passes that on.
-/
namespace TreeLisp

namespace TokenStream

/-- Something that a form may be part of and that is not finished. -/
inductive Context where
  /-- A list with the items read so far, latest first. -/
  | list (before : List Value)
  /-- A mark, with its text in the source. -/
  | mark (m : Mark) (text : String)

/-- Hand a finished form to the innermost context; the form is complete when there is none. -/
def deliver : List Context → Value → Value ⊕ List Context
  | [], v => .inl v
  | .list before :: outer, v => .inr (.list (v :: before) :: outer)
  | .mark m _ :: outer, v => deliver outer (.list [.symbol m.head, v])

def endError? : List Context → Option ReadError
  | [] => none
  | .list _ :: _ => some .unmatchedOpening
  | .mark _ text :: _ => some (.missingForm text)

/-- Read on inside the given contexts, up to the end of the outermost form. -/
def parseIn (failure : Option ReadError) :
    List Context → List Token → Except ReadError (Option Value) × TokenStream
  | contexts, [] =>
    match failure.or (endError? contexts) with
    | some e => (.error e, exhausted)
    | none => (.ok none, exhausted)
  | contexts, t :: rest =>
    match t.kind with
    | .symbol | .string =>
      match deliver contexts (.atom t) with
      | .inl form => (.ok (some form), ⟨[], rest, failure⟩)
      | .inr contexts => parseIn failure contexts rest
    | .mark m => parseIn failure (.mark m t.text :: contexts) rest
    | .opening => parseIn failure (.list [] :: contexts) rest
    | .closing =>
      match contexts with
      | .list before :: outer =>
        match deliver outer (.list before.reverse) with
        | .inl form => (.ok (some form), ⟨[], rest, failure⟩)
        | .inr contexts => parseIn failure contexts rest
      | _ => (.error .unexpectedClosing, ⟨[t], rest, failure⟩)

/-- Read the next form, none at the end of the stream. A closing parenthesis that no list awaits
stays in the stream. -/
def parse (s : TokenStream) : Except ReadError (Option Value) × TokenStream :=
  parseIn s.failure [] s.remaining

/-- Read forms to the end of the stream or to the first error, at most `fuel` of them. -/
def parseUpTo : Nat → TokenStream → List Value × Option ReadError × TokenStream
  | 0, s => ([], none, s)
  | fuel + 1, s =>
    match s.parse with
    | (.error e, s) => ([], some e, s)
    | (.ok none, s) => ([], none, s)
    | (.ok (some form), s) =>
      let (forms, outcome) := parseUpTo fuel s
      (form :: forms, outcome)

/-- Each form takes a token at least, so one attempt more than there are tokens reaches the
end. -/
def attempts (s : TokenStream) : Nat :=
  s.remaining.length + 1

def parseAll (s : TokenStream) : List Value × Option ReadError × TokenStream :=
  s.parseUpTo s.attempts

end TokenStream

def read (source : String) : Except ReadError (List Value) :=
  match (TokenStream.ofSource source).parseAll with
  | (forms, none, _) => .ok forms
  | (_, some e, _) => .error e

end TreeLisp
