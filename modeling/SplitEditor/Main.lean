import SplitEditor.Cli.Run
import SplitEditor.Config.LogFilter
import SplitEditor.Wasm.Load

/-! The program: it reads the files a command line names, and prints what comes of them. -/

open SplitEditor

def readFile (path : String) : IO (Except FileFault (List UInt8)) := do
  try
    return .ok (← IO.FS.readBinFile path).toList
  catch
    | .permissionDenied .. => return .error .denied
    | .inappropriateType .. => return .error .isDirectory
    | _ => return .error .notFound

def lookUp (read : List (String × Except FileFault (List UInt8))) : Cli.Files := fun path =>
  (read.lookup path).getD (.error .notFound)

/-- Reads the files a command line names: the configuration and the script, and then the
artifact, which the configuration may name. -/
def readFiles (args : List String) : IO Cli.Files := do
  match Cli.Arguments.parse args with
  | .error _ => return lookUp []
  | .ok args =>
    let read ← (args.config.toList ++ [args.script]).mapM fun path => do
      return (path, ← readFile path)
    match Cli.configuration (lookUp read) args with
    | .error _ => return lookUp read
    | .ok config => return lookUp ((config.artifactPath, ← readFile config.artifactPath) :: read)

def main (args : List String) : IO UInt32 := do
  let output := @Cli.run Wasm.Engine.standard (← readFiles args) args
  let limit := (LogFilter.choose (← IO.getEnv "RUST_LOG") output.level).maxLimit
  let stderr ← IO.getStderr
  for event in output.events do
    if limit.lets event.level then stderr.putStrLn event.line
  (← IO.getStdout).putStr output.stdout
  stderr.putStr output.stderr
  return if output.success then 0 else 1
