import SplitEditor.Session.Request
import SplitEditor.Text.Numeral

/-! The command line: options with a file each, anywhere among the rest; of the rest a command
and its parameters, and the script at the end. -/

namespace SplitEditor.Cli

inductive Command where
  | check
  | compile (json : Bool)
  | query (query : Query) (line column : UInt32)
  deriving Repr, DecidableEq

structure Arguments where
  config : Option String
  artifact : Option String
  command : Command
  script : String
  deriving Repr, DecidableEq

inductive ArgumentError where
  | optionWithoutFile (option : String)
  | noCommandAndScript
  | compileParameters
  | missing (parameter : String)
  | notANumber (parameter value : String) (fault : Numeral.Fault)
  | unknownCommand (name : String)
  deriving Repr, DecidableEq

/-- The messages from the error down to what caused it. -/
def ArgumentError.chain : ArgumentError → List String
  | optionWithoutFile option => [s!"{option} needs a file"]
  | noCommandAndScript => ["expected a command and a script"]
  | compileParameters => ["compile accepts only --json"]
  | missing parameter => [s!"missing {parameter}"]
  | notANumber parameter value fault =>
    [s!"{parameter} must be a positive integer, got '{value}'", fault.message]
  | unknownCommand name => [s!"unknown command '{name}'"]

structure Split where
  config : Option String
  artifact : Option String
  rest : List String
  deriving Repr, DecidableEq

namespace Arguments

def split : Split → List String → Except ArgumentError Split
  | found, [] => .ok found
  | found, "--config" :: file :: args => split { found with config := some file } args
  | found, "--artifact" :: file :: args => split { found with artifact := some file } args
  | _, ["--config"] => .error (.optionWithoutFile "--config")
  | _, ["--artifact"] => .error (.optionWithoutFile "--artifact")
  | found, arg :: args => split { found with rest := found.rest ++ [arg] } args

def number (parameter : String) (value : Option String) : Except ArgumentError UInt32 :=
  match value with
  | none => .error (.missing parameter)
  | some value =>
    match Numeral.parse 10 0x100000000 value.toList with
    | .ok n => .ok (UInt32.ofNat n)
    | .error fault => .error (.notANumber parameter value fault)

def position (query : Query) (params : List String) : Except ArgumentError Command := do
  let line ← number "line" params[0]?
  let column ← number "column" params[1]?
  return .query query line column

def readCommand (name : String) (params : List String) : Except ArgumentError Command :=
  match name with
  | "check" => .ok .check
  | "compile" =>
    match params with
    | [] => .ok (.compile false)
    | ["--json"] => .ok (.compile true)
    | _ => .error .compileParameters
  | "hover" => position .hover params
  | "definition" => position .definition params
  | "references" => position .references params
  | "rename" =>
    match params[2]? with
    | some name => position (.rename name) params
    | none => .error (.missing "new name")
  | "highlight" => position .highlights params
  | other => .error (.unknownCommand other)

def parse (args : List String) : Except ArgumentError Arguments := do
  let found ← split ⟨none, none, []⟩ args
  match found.rest, found.rest.getLast? with
  | name :: _ :: _, some script =>
    let command ← readCommand name (found.rest.dropLast.drop 1)
    return ⟨found.config, found.artifact, command, script⟩
  | _, _ => throw .noCommandAndScript

end Arguments

end SplitEditor.Cli
