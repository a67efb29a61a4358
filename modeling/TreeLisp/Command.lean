import TreeLisp.Arguments
import TreeLisp.Prelude
import TreeLisp.Repl
import TreeLisp.Settings

/-!
# The command

What the command does with its arguments, environment, files and input: it evaluates a piece of
code, or a file, and prints the last result, or holds a conversation. The journal goes to the error
output from the level on that the environment sets.
-/
namespace TreeLisp.Command

inductive Failure where
  | stop (s : Stop)
  | setting (e : Settings.SettingError)
  | file (e : FileError)
deriving DecidableEq, Repr

abbrev Job := EStateM Failure Store

def Job.ofAction {α : Type} (action : Action α) : Job α := fun s =>
  match action s with
  | .ok a s => .ok a s
  | .error e s => .error (.stop e) s

def Job.record (r : Record) : Job Unit :=
  modify fun s => s.addRecord r

structure Surroundings extends Settings.Host where
  input : List String

/-- Evaluate the prelude that the environment points to. A directory without one gives none. -/
def loadPrelude (host : Settings.Host) (session : Session) : Job Unit := do
  match Settings.preludeRoot host with
  | .error e => throw (.setting e)
  | .ok root =>
    let path := root.child Prelude.fileName
    match host.files.isFile path with
    | .error e => throw (.file e)
    | .ok false => Job.record (.preludeMissing path.text)
    | .ok true =>
      Job.record (.preludeFound path.text)
      match host.files.read path with
      | .error e => throw (.file e)
      | .ok code => Job.ofAction (session.evalPrelude code)

def startSession (w : Surroundings) (options : Arguments.Options) : Job Session := do
  Job.record (.registered nativeBindings.length)
  let session ← Job.ofAction Session.create
  if !options.noPrelude then loadPrelude w.toHost session
  return session

structure Printed where
  output : String
  failure : Option Failure
  store : Store

def printResult (source : Except FileError String) (session : Session) (s : Store) : Printed :=
  match source with
  | .error e => ⟨"", some (.file e), s⟩
  | .ok code =>
    match session.respond code s with
    | .ok text s => ⟨text ++ "\n", none, s⟩
    | .error e s => ⟨"", some (.stop e), s⟩

/-- Code on the command line goes before a file, and a file before the input. -/
def work (w : Surroundings) (options : Arguments.Options) (session : Session) (s : Store) :
    Printed :=
  match options.code, options.file with
  | some code, _ => printResult (.ok code) session s
  | none, some name => printResult (w.files.readNamed name) session s
  | none, none =>
    let console := Console.start (Settings.prompt w.environment)
    let conversation := Repl.converse session console s w.input
    ⟨conversation.console.output, conversation.fault.map fun f => .stop (.fault f),
      conversation.store⟩

def perform (w : Surroundings) (options : Arguments.Options) (s : Store) : Printed :=
  match startSession w options s with
  | .ok session s => work w options session s
  | .error e s => ⟨"", some e, s⟩

inductive Ending where
  | exit (code : Nat)
  /-- The failure is not one that the command reports itself. -/
  | failed (f : Failure)
deriving DecidableEq, Repr

structure Outcome where
  output : String
  errors : String
  ending : Ending
deriving DecidableEq, Repr

def complaint (message : String) : String :=
  "kelp: " ++ message ++ "\n"

def journalText (least : Level) (s : Store) : String :=
  String.join ((Record.lines least s.journal).map (· ++ "\n"))

/-- Source text that cannot be read and an unknown level are complaints; other failures are not the
command's to report. -/
def conclude (least : Level) (p : Printed) : Outcome :=
  let journal := journalText least p.store
  match p.failure with
  | none => ⟨p.output, journal, .exit 0⟩
  | some (.stop (.unreadable e)) => ⟨p.output, journal ++ complaint e.message, .exit 1⟩
  | some f => ⟨p.output, journal, .failed f⟩

/-- Run the command. Arguments that ask for help or are not understood end it at once. -/
def run (w : Surroundings) (arguments : List String) : Except Arguments.Usage Outcome := do
  let options ← Arguments.parse arguments
  match Settings.level w.environment with
  | .error e => return ⟨"", complaint e.message, .exit 1⟩
  | .ok least => return conclude least (perform w options Store.initial)

end TreeLisp.Command
