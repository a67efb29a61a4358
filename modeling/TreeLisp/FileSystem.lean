import TreeLisp.Path

/-!
# File systems

A file system is what the operating system says when it is asked about a path: what stands there, or
why it cannot tell. Some of the errors only mean that nothing is there; the others are not taken for
an answer.
-/
namespace TreeLisp

inductive FileError where
  | notFound
  | isDirectory
  | notDirectory
  | badDescriptor
  /-- The links on the way lead round in a circle. -/
  | tooManyLinks
  /-- The text has a null character, which no path has. -/
  | nullCharacter
  /-- A directory on the way may not be searched, or a file may not be read. -/
  | denied
  /-- A name on the way, or the whole path, has more bytes than is allowed. -/
  | tooLong
  | other (code : Nat)
deriving DecidableEq, Repr

namespace FileError

def message : FileError → String
  | notFound => "no such file"
  | isDirectory => "is a directory"
  | notDirectory => "not a directory"
  | badDescriptor => "bad file descriptor"
  | tooManyLinks => "too many levels of symbolic links"
  | nullCharacter => "embedded null byte"
  | denied => "permission denied"
  | tooLong => "file name too long"
  | other code => "system error " ++ toString code

/-- Whether the error means that the path leads to nothing. -/
def meansAbsent : FileError → Bool
  | notFound | notDirectory | badDescriptor | tooManyLinks | nullCharacter => true
  | isDirectory | denied | tooLong | other _ => false

end FileError

/-- What stands at a path. A file that is there need not be readable. -/
inductive Node where
  | directory
  | file (content : Except FileError String)

namespace Node

def isDirectory : Node → Bool
  | directory => true
  | file _ => false

def isFile : Node → Bool
  | directory => false
  | file _ => true

/-- Line ends are read as line feeds, whether written with a carriage return or not. -/
def unifyLines : List Char → List Char
  | '\r' :: '\n' :: rest => '\n' :: unifyLines rest
  | '\r' :: rest => '\n' :: unifyLines rest
  | c :: rest => c :: unifyLines rest
  | [] => []

def text : Node → Except FileError String
  | directory => .error .isDirectory
  | file content => content.map fun s => String.ofList (unifyLines s.toList)

end Node

structure FileSystem where
  look : Path → Except FileError Node

namespace FileSystem

/-- Whether something of the given kind stands at a path, if the system can tell. -/
def stands (files : FileSystem) (kind : Node → Bool) (p : Path) : Except FileError Bool :=
  match files.look p with
  | .ok node => .ok (kind node)
  | .error e => if e.meansAbsent then .ok false else .error e

def isDir (files : FileSystem) : Path → Except FileError Bool :=
  files.stands Node.isDirectory

def isFile (files : FileSystem) : Path → Except FileError Bool :=
  files.stands Node.isFile

def read (files : FileSystem) (p : Path) : Except FileError String := do
  (← files.look p).text

/-- The most bytes that the text of a path has. -/
def longestPath : Nat := 4095

/-- Whether a text can only name a directory, by ending in a slash or in a dot on its own. -/
def asksForDirectory (name : String) : Bool :=
  match (Path.pieces '/' name.toList).getLast? with
  | some [] | some ['.'] => true
  | _ => false

/-- The text of the file that a text names. The empty text names none. -/
def readNamed (files : FileSystem) (name : String) : Except FileError String := do
  if name.contains '\x00' then throw .nullCharacter
  if name = "" then throw .notFound
  if longestPath < name.utf8ByteSize then throw .tooLong
  let node ← files.look (Path.ofText name)
  if node.isFile ∧ asksForDirectory name then throw .notDirectory
  node.text

end FileSystem

end TreeLisp
