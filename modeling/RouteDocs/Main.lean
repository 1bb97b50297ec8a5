import RouteDocs.CommandLine.Run

/-!
# The program

Reads the files that a command names, runs the command and prints what it
leaves behind.
-/

open RouteDocs CommandLine

/-- The number of the failure to go on behind a file. -/
def behindFileCode : UInt32 := 20

def readEntry (path : String) : IO PathEntry := do
  try
    let bytes ← IO.FS.readBinFile path
    return .file (Text.symbolsOfBytes bytes.toList)
  catch
    | .inappropriateType _ code _ =>
      return if code = behindFileCode then .behindFile else .folder
    | _ => return .nothing

def readFiles (paths : List String) : IO Files := do
  let entries ← paths.mapM fun path => return (path, ← readEntry path)
  return fun path => (Entries.get? entries path).getD .nothing

def endingMessage : Fault → String
  | .usage _ => "usage: routedocs (render TREE | bundle TREE... | dump TREE) [--config PATH] [--verbose]"
  | .fileMissing path => "no such file: " ++ path
  | .isFolder path => "a folder: " ++ path
  | .behindFile path => "a path behind a file: " ++ path
  | .yaml .noSuchValue => "a value that there is not, or a number with too many digits"
  | .yaml _ => "the configuration file is not valid YAML"
  | f => if f.message = "" then "the document cannot be processed" else f.message

def main (args : List String) : IO UInt32 := do
  let settings ← standIns.mapM fun (name, _) => return (name, ← IO.getEnv name)
  let env := fun name => (Entries.get? settings name).join
  let files ← match understand args env with
    | .ok i => readFiles i.files
    | .error _ => pure fun _ => .nothing
  let outcome := runArguments args env files
  IO.print outcome.output
  IO.eprint outcome.errors
  match outcome.ending with
  | .exit code => return code.toUInt32
  | .fault f =>
    IO.eprintln (endingMessage f)
    return 1
