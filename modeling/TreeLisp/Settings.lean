import TreeLisp.FileSystem
import TreeLisp.Journal
import TreeLisp.Text.Blank
import TreeLisp.Text.UpperCase

/-!
# Settings

What the environment of a process decides: the prompt, the least level of the journal that is
shown, and the directory in which the prelude is looked for.
-/
namespace TreeLisp

/-- The variables of a process, each at most once. -/
abbrev Environment := List (String × String)

namespace Settings

inductive SettingError where
  | unknownLevel (name : String)
  /-- The search path for the prelude is given and has no entry. -/
  | noPreludePath
  /-- The first path of the search path cannot be looked at. -/
  | file (e : FileError)
deriving DecidableEq, Repr

def SettingError.message : SettingError → String
  | unknownLevel name => "Unknown log level '" ++ name ++ "' in KELP_LOG_LEVEL"
  | noPreludePath => "list index out of range"
  | file e => e.message

def prompt (env : Environment) : String :=
  (env.lookup "KELP_PROMPT").getD "user> "

/-- The level of the journal, named without regard to case and to blanks around it. -/
def level (env : Environment) : Except SettingError Level :=
  let name := Text.upperCase (Text.trimmed ((env.lookup "KELP_LOG_LEVEL").getD "WARNING"))
  match Level.ofName? name with
  | some l => .ok l
  | none => .error (.unknownLevel name)

/-- The character between the entries of a search path, by the name of the kind of system. -/
def separator (system : String) : Char :=
  if system = "nt" then ';' else ':'

/-- The entries of a search path that are not blank. -/
def searchPath (system value : String) : List Path :=
  (((Path.pieces (separator system) value.toList).map fun p =>
    Text.trimmed (String.ofList p)).filter fun entry => entry ≠ "").map Path.ofText

/-- The search path in a variable; one that is unset or empty leaves the defaults. -/
def paths (system : String) (env : Environment) (name : String) (defaults : List Path) :
    List Path :=
  match env.lookup name with
  | none => defaults
  | some value => if value = "" then defaults else searchPath system value

structure Host where
  /-- The name of the kind of system. -/
  system : String
  environment : Environment
  files : FileSystem
  /-- The directory of the prelude that comes with the interpreter. -/
  packaged : Path

/-- The first path of the search path, or its parent when it is not a directory. -/
def preludeRoot (host : Host) : Except SettingError Path :=
  match paths host.system host.environment "KELP_PRELUDE_PATH" [host.packaged] with
  | [] => .error .noPreludePath
  | p :: _ =>
    match host.files.isDir p with
    | .ok isDir => .ok (if isDir then p else p.parent)
    | .error e => .error (.file e)

end Settings

end TreeLisp
