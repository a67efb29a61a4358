import TreeLisp.Text.DecimalDigit

/-!
# Command-line arguments

The command line takes an optional file, the option `-e` or `--eval` with a piece of code, the
option `--no-prelude` and the request for help. A long option may be cut short as long as only one
option starts that way. The value of an option may follow it, stand behind an equals sign or, for
the short one, be attached to it. After two dashes everything is a plain argument; two dashes in
the place of an attached value are dropped, and the value is empty.
-/
namespace TreeLisp.Arguments

inductive Flag where
  | help
  | eval
  | noPrelude
deriving DecidableEq, Repr

def longNames : List (List Char × Flag) :=
  [("--help".toList, .help), ("--eval".toList, .eval), ("--no-prelude".toList, .noPrelude)]

def shortFlag? : Char → Option Flag
  | 'h' => some .help
  | 'e' => some .eval
  | _ => none

inductive Attached where
  | nothing
  /-- Directly behind a short option. -/
  | direct (text : List Char)
  /-- Behind an equals sign. -/
  | equals (text : List Char)
deriving DecidableEq, Repr

inductive Piece where
  | plain (text : String)
  | long (flag : Flag) (attached : Attached)
  | short (flag : Flag) (attached : Attached)
  /-- Looks like an option and is none. -/
  | unknown
  /-- The two dashes that end the options. -/
  | separator
deriving DecidableEq, Repr

inductive Usage where
  | help
  | invalid
deriving DecidableEq, Repr

def splitEquals (text : List Char) : List Char × Attached :=
  match text.dropWhile (· ≠ '=') with
  | [] => (text, .nothing)
  | _ :: value => (text.takeWhile (· ≠ '='), .equals value)

/-- A minus sign with digits, or with digits around a point and one behind it at least. A line feed
at the very end does not matter. -/
def isNegativeNumber (text : List Char) : Bool :=
  match text with
  | '-' :: rest =>
    let rest := if rest.getLast? = some '\n' then rest.dropLast else rest
    match rest.dropWhile Text.isDecimalDigit with
    | [] => !rest.isEmpty
    | '.' :: fraction => !fraction.isEmpty && fraction.all Text.isDecimalDigit
    | _ => false
  | _ => false

/-- An argument that starts with a dash and names no option. -/
def unnamed (text : List Char) : Piece :=
  if isNegativeNumber text || text.contains ' ' then .plain (String.ofList text) else .unknown

def classifyLong (text : List Char) : Except Usage Piece :=
  let (name, attached) := splitEquals text
  match longNames.lookup name with
  | some flag => .ok (.long flag attached)
  | none =>
    match longNames.filter fun option => name.isPrefixOf option.1 with
    | [] => .ok (unnamed text)
    | [option] => .ok (.long option.2 attached)
    | _ => .error .invalid

def classifyShort (text : List Char) (letter : Char) (rest : List Char) : Piece :=
  match shortFlag? letter, rest with
  | none, _ => unnamed text
  | some flag, [] => .short flag .nothing
  | some flag, '=' :: value => .short flag (.equals value)
  | some flag, attached => .short flag (.direct attached)

def classify (text : List Char) : Except Usage Piece :=
  match text with
  | ['-', '-'] => .ok .separator
  | '-' :: '-' :: _ => classifyLong text
  | '-' :: letter :: rest => .ok (classifyShort text letter rest)
  | _ => .ok (.plain (String.ofList text))

/-- Classify all arguments; those after the separator are plain. -/
def classifyAll : List String → Except Usage (List Piece)
  | [] => .ok []
  | argument :: later => do
    match ← classify argument.toList with
    | .separator => return .separator :: later.map .plain
    | piece => return piece :: (← classifyAll later)

/-- Whether the argument for a file is still to come, has just come, or came before an option. -/
inductive FileSlot where
  | free
  | taken
  | closed
deriving DecidableEq, Repr

structure Options where
  code : Option String
  file : Option String
  noPrelude : Bool
deriving DecidableEq, Repr

structure Progress where
  options : Options
  slot : FileSlot
  /-- An argument has no place and is reported at the end. -/
  extra : Bool

namespace Progress

def start : Progress := ⟨⟨none, none, false⟩, .free, false⟩

def misplaced (p : Progress) : Progress :=
  { p with extra := true }

/-- An option ends a run of plain arguments. -/
def afterOption (p : Progress) : Progress :=
  { p with slot := if p.slot = .free then .free else .closed }

def setCode (p : Progress) (code : String) : Progress :=
  { p.afterOption with options := { p.options with code := some code } }

def setNoPrelude (p : Progress) : Progress :=
  { p.afterOption with options := { p.options with noPrelude := true } }

def setFile (p : Progress) (name : String) : Progress :=
  if p.slot = .free then
    { p with slot := .taken, options := { p.options with file := some name } }
  else p.misplaced

/-- Two dashes belong to the file argument, unless that is complete. -/
def separate (p : Progress) : Progress :=
  if p.slot = .closed then p.misplaced else p

def finish (p : Progress) : Except Usage Options :=
  if p.extra then .error .invalid else .ok p.options

end Progress

def attachedCode (text : List Char) : String :=
  if text = ['-', '-'] then "" else String.ofList text

/-- Letters behind the short help option are short options as well, and the one for code takes the
rest as its value. Help is given once they are all understood. -/
def helpCluster (valueFollows : Bool) : List Char → Usage
  | [] => .help
  | 'h' :: rest => helpCluster valueFollows rest
  | ['e'] => if valueFollows then .help else .invalid
  | 'e' :: _ => .help
  | _ => .invalid

def startsPlain : List Piece → Bool
  | .plain _ :: _ => true
  | _ => false

def parsePieces (p : Progress) : List Piece → Except Usage Options
  | [] => p.finish
  | .plain text :: later => parsePieces (p.setFile text) later
  | .separator :: later => parsePieces p.separate later
  | .unknown :: later => parsePieces p.afterOption.misplaced later
  | .long .eval .nothing :: .plain code :: later => parsePieces (p.setCode code) later
  | .short .eval .nothing :: .plain code :: later => parsePieces (p.setCode code) later
  | .long .eval .nothing :: _ => .error .invalid
  | .short .eval .nothing :: _ => .error .invalid
  | .long .eval (.direct code) :: later => parsePieces (p.setCode (attachedCode code)) later
  | .long .eval (.equals code) :: later => parsePieces (p.setCode (attachedCode code)) later
  | .short .eval (.direct code) :: later => parsePieces (p.setCode (attachedCode code)) later
  | .short .eval (.equals code) :: later => parsePieces (p.setCode (attachedCode code)) later
  | .long .noPrelude .nothing :: later => parsePieces p.setNoPrelude later
  | .long .help .nothing :: _ => .error .help
  | .short .help .nothing :: _ => .error .help
  | .short .help (.equals []) :: _ => .error .invalid
  | .short .help (.equals letters) :: later => .error (helpCluster (startsPlain later) letters)
  | .short .help (.direct letters) :: later => .error (helpCluster (startsPlain later) letters)
  | _ => .error .invalid

def parse (arguments : List String) : Except Usage Options := do
  parsePieces .start (← classifyAll arguments)

end TreeLisp.Arguments
