import Schemata.Disk
import Schemata.Document
import Schemata.Json.Reader
import Schemata.Json.Writer
import Schemata.Text.Terminal

/-!
# The command line

`[--config FILE] [--strict] [--verbose] PATH [OUTPUT]` converts the document at PATH and writes
the schema objects to OUTPUT, or to the standard output.

What the arguments mean is left to a front end, which is a parameter: it looks at the disk and makes a
request of the arguments, or says that there is none (`FrontEnd.Answer`). What it does with arguments as they
are documented is `FrontEnd.Documented`. The command is a function of the request, of the machine and of the disk
that it sees: `Command.run` says how it ends, and `Run` what then shows outside.
-/

namespace Schemata

namespace Command

/-! ## Requests -/

/-- What the command is asked for. -/
structure Request where
  /-- The file for the configuration. -/
  config : Option Path := none
  /-- Whether recoverable problems are fatal, whatever the configuration says. -/
  strict : Bool := false
  /-- Whether the log shows what is below a warning, of which there is nothing yet. -/
  verbose : Bool := false
  /-- The document. -/
  path : Path
  /-- The output, a dash being the standard output. -/
  output : Path := "-"

/-- What a front end makes of arguments. -/
inductive FrontEnd.Answer where
  /-- They cannot be followed. -/
  | usage
  /-- They ask how the command is called. -/
  | help (text : Text)
  /-- One of them is a path that names nothing on any disk. -/
  | fault (fault : Path.Fault)
  | request (request : Request)

/-- What makes requests of arguments, with a look at the disk. -/
abbrev FrontEnd := Disk → List Text → FrontEnd.Answer

namespace Request

/-- The paths that are read. -/
def inputs (request : Request) : List Path := request.config.toList ++ [request.path]

/-- The paths that are given. -/
def paths (request : Request) : List Path :=
  request.inputs ++ if request.output = "-" then [] else [request.output]

/-- The arguments that ask for it, as they are documented. -/
def arguments (request : Request) : List Text :=
  let config : List Text :=
    match request.config with
    | some path => ["--config", path]
    | none => []
  let strict : List Text := if request.strict then ["--strict"] else []
  let verbose : List Text := if request.verbose then ["--verbose"] else []
  let output : List Text := if request.output = "-" then [] else [request.output]
  config ++ strict ++ verbose ++ request.path :: output

/-- No path can be taken for an option, and each names something on some disk. -/
def IsPlain (request : Request) : Prop :=
  ∀ path ∈ request.paths, path.head? ≠ some (CodePoint.ofChar '-') ∧ path.fault? = none

instance (request : Request) : Decidable request.IsPlain :=
  inferInstanceAs (Decidable (∀ path ∈ request.paths, _ ∧ _))

/-- Whether there is something to read at both inputs. -/
def isReadable (disk : Disk) (request : Request) : Bool :=
  request.inputs.all fun path => (disk.look path).isReadable

/-- Two paths can be used alike on the disk, as a path and where it leads to can. -/
structure SameInput (disk : Disk) (path other : Path) : Prop where
  fault : path.fault? = other.fault?
  look : disk.look path = disk.look other

/-- The requests are the same, but for how they name the inputs. -/
structure SameOn (disk : Disk) (request other : Request) : Prop where
  config : Option.Rel (SameInput disk) request.config other.config
  strict : request.strict = other.strict
  verbose : request.verbose = other.verbose
  path : SameInput disk request.path other.path
  output : request.output = other.output

end Request

/-- Why the command broke off without a message of its own. -/
inductive Crash where
  /-- A path that names nothing. -/
  | fault (fault : Path.Fault)
  /-- A file whose text cannot be read as a value. -/
  | unread (error : Json.ReadError)
  /-- A file that cannot be opened, or has no text. -/
  | unopened (error : OpenError)
  /-- A document or a configuration that is of no use. -/
  | misuse (misuse : Misuse)
  /-- A machine that has not enough of something. -/
  | exhausted (resource : Resource)

/-- How the command ends. -/
inductive Ending where
  /-- Arguments that cannot be followed. -/
  | usage
  /-- How the command is called, for the standard output. -/
  | shown (text : Text)
  | crashed (crash : Crash)
  /-- The document cannot be converted, for the reason given. -/
  | refused (reason : Text)
  /-- A text for the standard output. -/
  | printed (text : Text)
  /-- A text for a file. -/
  | written (path : Path) (text : Text)

/-- How the command is called. -/
def usageLine : Text := "Usage: schemata [--config FILE] [--strict] [--verbose] PATH [OUTPUT]\n"

/-- A run of the command: what it logged, and how it ended. -/
structure Run where
  log : List Diagnostic
  ending : Ending

/-- The text at a path, if there is one. -/
def textAt (disk : Disk) (path : Path) : Except Crash Text :=
  match path.fault? with
  | some fault => .error (.fault fault)
  | none => (disk.look path).text.mapError .unopened

/-- The JSON value that a file holds. -/
def load (machine : Machine) (disk : Disk) (path : Path) : Except Crash Json :=
  match textAt disk path with
  | .error crash => .error crash
  | .ok text =>
    if machine.canRead text then (Json.read machine.limit text).mapError .unread
    else .error (.exhausted .calls)

/-- The configuration that a file gives; the default one if there is no file. -/
def loadConfig (machine : Machine) (disk : Disk) : Option Path → Except Crash Config
  | none => .ok {}
  | some path =>
    match load machine disk path with
    | .error crash => .error crash
    | .ok (.obj fields) => (Config.ofFields fields).mapError .misuse
    | .ok _ => .error (.misuse .configuration)

/-- The document and the configuration of a run. -/
def loadBoth (machine : Machine) (disk : Disk) (path : Path) (config : Option Path) :
    Except Crash (Json × Config) := do
  let document ← load machine disk path
  let config ← loadConfig machine disk config
  return (document, config)

/-- The text of schema objects. -/
def textOf (schemas : Fields Json) : Text := (Json.obj schemas).indented ++ "\n"

/-- How the command ends with a text for that output. -/
def deliver (disk : Disk) (output : Path) (text : Text) : Ending :=
  if output = "-" then .printed text
  else
    match output.fault?, disk.obstacle? output with
    | some fault, _ => .crashed (.fault fault)
    | none, some e => .crashed (.unopened e)
    | none, none => .written output text

/-- How the command ends without schema objects. -/
def refuse (failure : Failure) : Ending :=
  match failure with
  | .misuse misuse => .crashed (.misuse misuse)
  | .exhausted resource => .crashed (.exhausted resource)
  | .unrepresentable context problem => .refused (located context problem.message)
  | .malformed path defect => .refused (located path defect.message)

/-- A run as requested. The text is made before the output is opened. -/
def execute (machine : Machine) (disk : Disk) (request : Request) : Run :=
  match loadBoth machine disk request.path request.config with
  | .error crash => ⟨[], .crashed crash⟩
  | .ok (document, config) =>
    let report := Document.convertOn machine config (request.strict || config.isStrict) document
    match report.outcome with
    | .error failure => ⟨report.entries, refuse failure⟩
    | .ok schemas =>
      if machine.canWrite (.obj schemas) then
        ⟨report.entries, deliver disk request.output (textOf schemas)⟩
      else ⟨report.entries, .crashed (.exhausted .calls)⟩

/-- A run with those arguments. -/
def run (frontEnd : FrontEnd) (machine : Machine) (disk : Disk) (arguments : List Text) : Run :=
  match frontEnd disk arguments with
  | .usage => ⟨[], .usage⟩
  | .help text => ⟨[], .shown text⟩
  | .fault fault => ⟨[], .crashed (.fault fault)⟩
  | .request request => execute machine disk request

namespace Run

/-- The exit code. -/
def exitCode (run : Run) : Nat :=
  match run.ending with
  | .usage => 2
  | .shown _ => 0
  | .crashed _ => 1
  | .refused _ => 1
  | .printed _ => 0
  | .written _ _ => 0

/-- A diagnostic in the log. -/
def logLine (entry : Diagnostic) : Text :=
  (match entry.severity with
    | .error => "WARNING "
    | .fatal => "ERROR ") ++ entry.render ++ "\n"

/-- What is said at the end of the log, with no control sequences for a terminal in it. -/
def lastLine (run : Run) : Text :=
  match run.ending with
  | .usage => usageLine
  | .refused reason => Text.withoutControlSequences ("Error: " ++ reason) ++ "\n"
  | _ => []

/-- What is on the standard error output. -/
def stderr (run : Run) : Text := Text.onConsole (run.log.flatMap logLine ++ run.lastLine)

/-- What is on the standard output. -/
def stdout (run : Run) : Text :=
  match run.ending with
  | .shown text => text
  | .printed text => text
  | _ => []

/-- The file that is written, with its text. -/
def file? (run : Run) : Option (Path × Text) :=
  match run.ending with
  | .written path text => some (path, text)
  | _ => none

end Run

end Command

end Schemata
