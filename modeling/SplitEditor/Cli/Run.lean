import SplitEditor.Cli.Arguments
import SplitEditor.Config.Document
import SplitEditor.Editor.Json
import SplitEditor.Text.Base64

/-! What a command line does, given the files it can read: what it prints, and whether it
succeeds. What is logged on the way is told apart. -/

namespace SplitEditor.Cli

abbrev Files := String → Except FileFault (List UInt8)

structure Output where
  success : Bool
  stdout : String
  stderr : String
  /-- The level of the configuration in force, and what was logged under it. -/
  level : String
  events : List LogEvent
  deriving Repr, DecidableEq

def usage : String :=
  "Usage: asl-bridge [--config FILE] [--artifact FILE] <command> <script>\n" ++
  "\n" ++
  "Commands:\n" ++
  "  check                   compile and print diagnostics\n" ++
  "  compile [--json]        compile and print the module outline (or a JSON report)\n" ++
  "  hover L C               type of the symbol at line L, column C\n" ++
  "  definition L C          where the symbol at L:C is defined\n" ++
  "  references L C          every reference to the symbol at L:C\n" ++
  "  rename L C NAME         edits renaming the symbol at L:C to NAME\n" ++
  "  highlight L C           highlights for the symbol at L:C"

def complaint (chain : List String) : String := "❌ " ++ ": ".intercalate chain

namespace Output

def early (success : Bool) (stderr : String) : Output := ⟨success, "", stderr, "off", []⟩

def failed (chain : List String) : Output := early false (complaint chain ++ "\n")

end Output

/-- The report of a compilation as JSON. The module is left out if there is none. -/
def reportJson (status : BuildStatus) (markers : List Marker) (module : Option (List UInt8))
    (output : String) : Json :=
  .object ([("success", .bool status.isSuccess), ("status", .string status.label),
      ("markers", .array (markers.map (·.toJson)))] ++
    (match module with
    | some bytes => [("module", .string (String.ofList (Base64.encode bytes)))]
    | none => []) ++
    [("outline", .string output)])

/-- What a validation prints. -/
def printReport (script : String) (command : Command) (report : Report)
    (output : String) : Bool × String × String :=
  match report with
  | .superseded .. => (false, "", complaint ["validation was superseded"] ++ "\n")
  | .applied _ status markers module =>
    let printed : String × String :=
      match command with
      | .compile true => ((reportJson status markers module output).pretty ++ "\n", "")
      | command =>
        let notes := markers.map fun m => s!"{script}:{m.range.display}: {m.message}\n"
        let listing := if command = .compile false ∧ status.isSuccess then output ++ "\n" else ""
        (status.label ++ "\n" ++ listing, String.join notes)
    (status.isSuccess, printed.1, printed.2)

def printResponse (script : String) (command : Command) (response : Response) (output : String) :
    Bool × String × String :=
  match response with
  | .report report => printReport script command report output
  | .finding (.ok found) => (true, (Json.ofOption Finding.toJson found).pretty ++ "\n", "")
  | .finding (.error e) => (false, "", complaint e.chain ++ "\n")

def Command.request : Command → Request
  | .check | .compile _ => .validate
  | .query q line column => .query q line column

/-- The configuration in force: the one from the file that is named, with the artifact that is
named. -/
def configuration (files : Files) (args : Arguments) : Except (List String) Config := do
  let config ←
    match args.config with
    | none => pure {}
    | some path =>
      match do
        let config ← Config.ofFile path (files path)
        config.validate
        return config with
      | .ok config => pure config
      | .error e => throw (s!"failed to load config {path}" :: ConfigError.chain e)
  match args.artifact with
  | some artifact => return { config with artifact := some artifact }
  | none => return config

def readScript (files : Files) (path : String) : Except (List String) String :=
  let failed (fault : FileFault) : List String :=
    [s!"failed to read script {path}", fault.message]
  match files path with
  | .error fault => .error (failed fault)
  | .ok bytes =>
    match Utf8.decode? bytes with
    | some text => .ok (String.ofList text)
    | none => .error (failed .notUtf8)

/-- Runs a command on a script. -/
def execute [Wasm.Engine] (files : Files) (args : Arguments) : Output :=
  match configuration files args with
  | .error chain => .failed chain
  | .ok config =>
    match readScript files args.script with
    | .error chain => .failed chain
    | .ok source =>
      let path := config.artifactPath
      let artifact : Artifact := ⟨path, files path, config.maxArtifactBytes, false⟩
      let session := { Session.fresh (.ofConfig config) with source }
      let (response, session, events) :=
        (Session.perform artifact args.command.request).run (session, config.fuel.effectiveEvents)
      let (success, stdout, stderr) :=
        printResponse args.script args.command response session.output
      ⟨success, stdout, stderr, config.logLevel, events⟩

def run [Wasm.Engine] (files : Files) (args : List String) : Output :=
  if args.isEmpty then .early false (usage ++ "\n")
  else if args.any fun arg => arg = "--help" || arg = "-h" then .early true (usage ++ "\n")
  else
    match Arguments.parse args with
    | .error e => .early false (complaint e.chain ++ "\n\n" ++ usage ++ "\n")
    | .ok args => execute files args

end SplitEditor.Cli
