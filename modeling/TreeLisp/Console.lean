/-!
# Console

Line-oriented input and output. Input is a list of lines, which end at line feeds only; output is
the text written so far. The prompt is what a reader is greeted with.
-/
namespace TreeLisp

structure Console where
  prompt : String
  output : String

namespace Console

/-- The lines of a text. What follows the last line feed is a line unless it is empty. -/
def splitLines : List Char → List (List Char)
  | [] => []
  | '\n' :: rest => [] :: splitLines rest
  | c :: rest =>
    match splitLines rest with
    | [] => [[c]]
    | line :: lines => (c :: line) :: lines

def linesOf (text : String) : List String :=
  (splitLines text.toList).map String.ofList

/-- The next line, none at the end of the input, and the lines after it. -/
def readLine : List String → Option String × List String
  | [] => (none, [])
  | line :: lines => (some line, lines)

def start (prompt : String) : Console :=
  ⟨prompt, ""⟩

def write (c : Console) (text : String) : Console :=
  { c with output := c.output ++ text }

def writeLine (c : Console) (line : String) : Console :=
  c.write (line ++ "\n")

def greet (c : Console) : Console :=
  c.write c.prompt

def setPrompt (c : Console) (prompt : String) : Console :=
  { c with prompt }

end Console

end TreeLisp
