import Schemata.Command

/-!
# The usual front end

How arguments are read as a rule. Options may stand before and after the paths, a long name may have its
value behind an equals sign, letters may stand together after one dash, and two dashes end the options. Then
the paths are looked at: that of the configuration first, then that of the document, then the output.

`Arguments.usual` is a front end. The command may have another one.
-/

namespace Schemata

namespace Arguments

open Command (Request FrontEnd)

/-- What the arguments so far ask for. -/
structure Draft where
  /-- The file for the configuration. -/
  config : Option Path := none
  /-- Whether recoverable problems are fatal, whatever the configuration says. -/
  strict : Bool := false
  /-- Whether the log shows what is below a warning. -/
  verbose : Bool := false
  /-- Whether the question is how the command is called. -/
  help : Bool := false
  /-- The document, then the output. -/
  paths : List Path := []

/-- An option without a value. -/
inductive Flag where
  | strict
  | verbose
  | help

/-- An option. -/
inductive Switch where
  /-- The file for the configuration, which is the value of the option. -/
  | config
  | flag (flag : Flag)

/-- The option of that long name. -/
def Switch.ofLong? (name : Text) : Option Switch :=
  if name = "--config" then some .config
  else if name = "--strict" then some (.flag .strict)
  else if name = "--verbose" then some (.flag .verbose)
  else if name = "--help" then some (.flag .help)
  else none

/-- The option of that letter. -/
def Switch.ofLetter? (letter : CodePoint) : Option Switch :=
  if letter = 'c' then some .config
  else if letter = 'v' then some (.flag .verbose)
  else none

namespace Draft

/-- The draft with a file for the configuration. The last one given counts. -/
def withConfig (draft : Draft) (path : Path) : Draft := { draft with config := some path }

/-- The draft with more paths. -/
def withPaths (draft : Draft) (paths : List Path) : Draft :=
  { draft with paths := draft.paths ++ paths }

/-- The draft with a flag. -/
def withFlag (draft : Draft) : Flag → Draft
  | .strict => { draft with strict := true }
  | .verbose => { draft with verbose := true }
  | .help => { draft with help := true }

end Draft

/-- What one argument means. -/
inductive Meaning where
  /-- The draft that it makes complete. -/
  | complete (draft : Draft)
  /-- The next argument is the file for the configuration. -/
  | needsValue (draft : Draft)
  /-- Nothing. -/
  | unknown

/-- Letters after one dash: options without a value, until one that takes the rest as its value. -/
def ofLetters (draft : Draft) : Text → Meaning
  | [] => .complete draft
  | letter :: rest =>
    match Switch.ofLetter? letter with
    | none => .unknown
    | some .config =>
      if rest.isEmpty then .needsValue draft else .complete (draft.withConfig rest)
    | some (.flag flag) => ofLetters (draft.withFlag flag) rest

/-- An option of a long name, with a value after an equals sign if one is given. -/
def ofLong (draft : Draft) (name : Text) (value? : Option Text) : Meaning :=
  match Switch.ofLong? name, value? with
  | some .config, some value => .complete (draft.withConfig value)
  | some .config, none => .needsValue draft
  | some (.flag flag), none => .complete (draft.withFlag flag)
  | _, _ => .unknown

/-- What an argument means that is no value of the one before it. -/
def meaning (draft : Draft) (argument : Text) : Meaning :=
  match argument with
  | first :: second :: rest =>
    if first ≠ '-' then .complete (draft.withPaths [argument])
    else if second ≠ '-' then ofLetters draft (second :: rest)
    else
      let name := argument.takeWhile (· ≠ CodePoint.ofChar '=')
      ofLong draft name
        (if name.length < argument.length then some (argument.drop (name.length + 1)) else none)
  | _ => .complete (draft.withPaths [argument])

/-- The draft of arguments that follow those of `draft`. Two dashes end the options. -/
def draftFrom (draft : Draft) : List Text → Option Draft
  | [] => some draft
  | argument :: rest =>
    if argument = "--" then some (draft.withPaths rest)
    else
      match meaning draft argument with
      | .complete next => draftFrom next rest
      | .needsValue next =>
        match rest with
        | value :: others => draftFrom (next.withConfig value) others
        | [] => none
      | .unknown => none

/-- A path to read from must be one, and something to read must be there. -/
def checkInput (disk : Disk) (path : Path) : Except FrontEnd.Answer Unit :=
  match path.names.findSome? Path.fault? with
  | some fault => .error (.fault fault)
  | none => if (disk.look path).isReadable then .ok () else .error .usage

/-- A path to write to must be one, and nothing that must not be read may be there. -/
def checkOutput (disk : Disk) (path : Path) : Except FrontEnd.Answer Unit :=
  match path.fault? with
  | some fault => .error (.fault fault)
  | none =>
    if path = "-" || !(disk.look path).isPresent || (disk.look path).isReadable then .ok ()
    else .error .usage

/-- The output among the paths after the first, of which there may be one; a dash if there is
none. -/
def outputOf (disk : Disk) : List Path → Except FrontEnd.Answer Path
  | [] => .ok "-"
  | output :: surplus => do
    checkOutput disk output
    if surplus.isEmpty then return output else throw .usage

/-- The request of a draft whose paths can be used. -/
def requestOf (disk : Disk) (draft : Draft) : Except FrontEnd.Answer Request := do
  draft.config.forM (checkInput disk)
  match draft.paths with
  | [] => throw .usage
  | path :: others =>
    checkInput disk path
    let output ← outputOf disk others
    return { config := draft.config, strict := draft.strict, verbose := draft.verbose, path, output }

/-- How the command is called, option by option. -/
def helpText : Text :=
  Command.usageLine ++
    "\n" ++
    "Options:\n" ++
    "  -c, --config FILE  The file for the configuration.\n" ++
    "  --strict           Treat recoverable problems as fatal.\n" ++
    "  -v, --verbose      Show more in the log.\n" ++
    "  --help             Show this text.\n"

/-- The usual front end. -/
def usual : FrontEnd := fun disk arguments =>
  match draftFrom {} arguments with
  | none => .usage
  | some draft =>
    if draft.help then .help helpText
    else
      match requestOf disk draft with
      | .ok request => .request request
      | .error answer => answer

end Arguments

end Schemata
