import TreeLisp.Command

/-!
# The executable

Collects what the command needs from the process, and prints what it answers. A conversation is
held line by line.
-/
open TreeLisp

namespace TreeLisp.Main

def usage : String :=
  "usage: kelp [-h] [-e CODE] [--no-prelude] [file]\n"

def environment : IO Environment :=
  ["KELP_PROMPT", "KELP_LOG_LEVEL", "KELP_PRELUDE_PATH"].filterMapM fun name => do
    return (← IO.getEnv name).map fun value => (name, value)

def system : IO String := do
  return if (← IO.getEnv "OS") = some "Windows_NT" then "nt" else "posix"

/-- The directory of the prelude, which stands beside the executable. -/
def packaged : IO Path := do
  return (Path.ofText (← IO.appPath).toString).parent.child "prelude"

def fileError : IO.Error → FileError
  | .noFileOrDirectory .. => .notFound
  | .permissionDenied .. => .denied
  | .inappropriateType .. => .notDirectory
  | .invalidArgument _ code _ => .other code.toNat
  | .otherError code _ => .other code.toNat
  | _ => .other 0

def content (path : String) : IO (Except FileError String) := do
  try return .ok (← IO.FS.readFile path)
  catch e => return .error (fileError e)

def look (path : String) : IO (Except FileError Node) := do
  try
    if ← (← IO.FS.realPath path).isDir then return .ok .directory
    return .ok (.file (← content path))
  catch e => return .error (fileError e)

def asked (system : String) (env : Environment) (options : Arguments.Options) : List Path :=
  let source := options.file.toList.map Path.ofText
  match Settings.paths system env "KELP_PRELUDE_PATH" [] with
  | [] => source
  | p :: _ => source ++ [p, p.child Prelude.fileName, p.parent.child Prelude.fileName]

/-- Where the process runs, with the answers of the system about the paths that can be asked for. -/
def host (env : Environment) (options : Arguments.Options) : IO Settings.Host := do
  let system ← system
  let packaged ← packaged
  let answers ← (asked system env options).mapM fun p => do return (p, ← look p.text)
  let files : FileSystem := ⟨fun p => (answers.lookup p).getD (.error .notFound)⟩
  return ⟨system, env, Prelude.installed packaged files, packaged⟩

/-- Print the records that are new since `shown` of them were printed. -/
def printJournal (least : Level) (shown : Nat) (s : Store) : IO Unit := do
  IO.eprint (Command.journalText least { s with journal := s.journal.extract shown s.journal.size })

def describe : Command.Failure → String
  | .stop (.unreadable e) => e.message
  | .stop (.fault .nesting) => "evaluation is nested too deeply"
  | .stop (.fault f) => f.message?.getD "internal fault"
  | .setting e => e.message
  | .file e => e.message

def report (f : Command.Failure) : IO UInt32 := do
  IO.eprint (Command.complaint (describe f))
  return 1

partial def converse (session : Session) (prompt : String) (least : Level) (s : Store) :
    IO UInt32 := do
  IO.print prompt
  (← IO.getStdout).flush
  let line ← (← IO.getStdin).getLine
  if line.isEmpty then
    IO.println ""
    return 0
  match Repl.answer session ((Console.linesOf line).headD "") s with
  | .ok text next =>
    printJournal least s.journal.size next
    if let some text := text then IO.println text
    converse session prompt least next
  | .error f next =>
    printJournal least s.journal.size next
    report (.stop (.fault f))

def finish (outcome : Command.Outcome) : IO UInt32 := do
  IO.eprint outcome.errors
  IO.print outcome.output
  match outcome.ending with
  | .exit code => return code.toUInt32
  | .failed f => report f

def run (w : Command.Surroundings) (options : Arguments.Options) (least : Level) : IO UInt32 := do
  if options.code.isNone ∧ options.file.isNone then
    match Command.startSession w options Store.initial with
    | .ok session s =>
      printJournal least 0 s
      converse session (Settings.prompt w.environment) least s
    | .error e s => finish (Command.conclude least ⟨"", some e, s⟩)
  else finish (Command.conclude least (Command.perform w options Store.initial))

end TreeLisp.Main

def main (arguments : List String) : IO UInt32 := do
  match Arguments.parse arguments with
  | .error .help =>
    IO.print Main.usage
    return 0
  | .error .invalid =>
    IO.eprint Main.usage
    return 2
  | .ok options =>
    let env ← Main.environment
    match Settings.level env with
    | .error e => Main.report (.setting e)
    | .ok least => Main.run ⟨← Main.host env options, []⟩ options least
