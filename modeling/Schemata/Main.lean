import Schemata.Arguments

/-!
# The program

Looks at the files that the arguments name, runs the command on them, and shows what comes out of
it.
-/

namespace Schemata

/-- What stands at a path. -/
def lookAt (path : Path) : IO Disk.Item := do
  try
    let bytes ← IO.FS.readBinFile path.toString
    return .file { text? := (String.fromUTF8? bytes).map Text.ofString }
  catch
    | .noFileOrDirectory .. => return .missing
    | .permissionDenied .. => return .file { text? := none, readable := false }
    | _ => return .folder

/-- The disk on which only those paths have been looked at. Whether a file can be written shows
when it is. -/
def diskOf (seen : Fields Disk.Item) : Disk where
  look path := (Fields.get? seen path).getD .missing
  obstacle? _ := none

/-- Runs the command with those arguments, and answers with the exit code. -/
def runCommand (arguments : List Text) : IO UInt32 := do
  let paths :=
    match Arguments.draftFrom {} arguments with
    | some draft => draft.config.toList ++ draft.paths
    | none => []
  let seen ← paths.mapM fun path => do return (path, ← lookAt path)
  let run := Command.run Arguments.usual .usual (diskOf seen) arguments
  (← IO.getStderr).putStr run.stderr.toString
  (← IO.getStdout).putStr run.stdout.toString
  match run.file? with
  | none => return run.exitCode.toUInt32
  | some (path, text) =>
    try
      IO.FS.writeFile path.toString text.toString
      return run.exitCode.toUInt32
    catch _ => return 1

end Schemata

def main (arguments : List String) : IO UInt32 :=
  Schemata.runCommand (arguments.map Schemata.Text.ofString)
