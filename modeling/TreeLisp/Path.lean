/-!
# Paths

A path is a sequence of names below the working directory or below a root. Empty names and single
dots carry no meaning and are dropped; two dots are kept, since what they mean depends on the files.
-/
namespace TreeLisp

/-- Where a path starts. Exactly two slashes in front are kept apart from one. -/
inductive Anchor where
  | working
  | root
  | doubleRoot
deriving DecidableEq, Repr

structure Path where
  anchor : Anchor
  names : List String
deriving DecidableEq, Repr

namespace Path

def pieces (separator : Char) : List Char → List (List Char)
  | [] => [[]]
  | c :: rest =>
    if c = separator then [] :: pieces separator rest
    else
      match pieces separator rest with
      | [] => [[c]]
      | piece :: later => (c :: piece) :: later

def anchorOf (text : List Char) : Anchor :=
  match (text.takeWhile (· = '/')).length with
  | 0 => .working
  | 2 => .doubleRoot
  | _ => .root

def ofText (text : String) : Path :=
  let names := ((pieces '/' text.toList).map String.ofList).filter fun name =>
    name ≠ "" ∧ name ≠ "."
  ⟨anchorOf text.toList, names⟩

def text (p : Path) : String :=
  let names := "/".intercalate p.names
  match p.anchor with
  | .working => if p.names = [] then "." else names
  | .root => "/" ++ names
  | .doubleRoot => "//" ++ names

def parent (p : Path) : Path :=
  { p with names := p.names.dropLast }

def child (p : Path) (name : String) : Path :=
  { p with names := p.names ++ [name] }

/-- Go to the directory above, or to a name directly below. Two dots are kept only in front, where
they lead out of the working directory; above a root there is nothing. -/
def enter (p : Path) (name : String) : Path :=
  if name ≠ ".." then p.child name
  else if p.names.all (· = "..") then
    if p.anchor = .working then p.child ".." else p
  else p.parent

end Path

end TreeLisp
