import SplitEditor.Config.Config
import SplitEditor.Yaml.Document

/-! Configurations written in YAML. Keys that are not known are passed over; a known key may
not occur twice. A section without a value is an empty section, a setting without a value or
with a null is not set. -/

namespace SplitEditor.Config

open Yaml

def isNull (text : String) : Bool := text ∈ ["null", "Null", "NULL", "~"]

def section? (d : Document) (n : Node) : Option (List (Node × Node)) :=
  match d.follow n with
  | .mapping entries _ => some entries
  | .scalar "" true _ _ => some []
  | _ => none

def text? (d : Document) (n : Node) : Option String :=
  match d.follow n with
  | .scalar value _ _ _ => some value
  | _ => none

/-- A setting that may be null, read by `read` if it is not. -/
def setting? {α : Type} (d : Document) (read : Node → Option α) (n : Node) :
    Option (Option α) :=
  match d.follow n with
  | .scalar value true _ none => if value = "" || isNull value then some none else (read n).map some
  | .scalar value true _ (some tag) =>
    if tag = "tag:yaml.org,2002:null" then (if isNull value then some none else none)
    else (read n).map some
  | _ => (read n).map some

/-- A numeral without a sign or with a plus: decimal without leading zeros, or in base 16, 8 or
2 behind `0x`, `0o` or `0b`. -/
def numeral? (text : String) : Option Nat :=
  let digits (base : Nat) (cs : List Char) : Option Nat :=
    if cs.head? = some '+' then none else (Numeral.parse base 0x10000000000000000 cs).toOption
  let unsigned (cs : List Char) : Option Nat :=
    match cs with
    | '0' :: 'x' :: rest => digits 16 rest
    | '0' :: 'o' :: rest => digits 8 rest
    | '0' :: 'b' :: rest => digits 2 rest
    | '0' :: _ :: _ => none
    | cs => digits 10 cs
  match text.toList with
  | '+' :: rest => unsigned rest
  | cs => unsigned cs

def number? (d : Document) (n : Node) : Option Nat :=
  match d.follow n with
  | .scalar value true _ _ => numeral? value
  | .scalar value _ .literal (some "tag:yaml.org,2002:int") => numeral? value
  | _ => none

/-- A codec by name, or as a tag on nothing. -/
def codec? (d : Document) (n : Node) : Option Codec :=
  match d.follow n with
  | .scalar value plain _ (some tag) =>
    match tag.toList with
    | '!' :: name =>
      if plain && (value = "" || isNull value) then Codec.ofName? (String.ofList name)
      else none
    | _ => Codec.ofName? value
  | .scalar value _ _ none => Codec.ofName? value
  | _ => none

def fields? (d : Document) (n : Node) : Option (List (String × Node)) := do
  (← section? d n).mapM fun (key, value) => do return (← text? d key, value)

def field? {α : Type} (fields : List (String × Node)) (key : String) (absent : α)
    (read : Node → Option α) : Option α :=
  match fields.filter (·.1 = key) with
  | [] => some absent
  | [(_, value)] => read value
  | _ => none

def fuel? (d : Document) (n : Node) : Option FuelSettings := do
  let fields ← fields? d n
  let level (key : String) := field? fields key none (setting? d (number? d))
  return { default := ← level "default", minimum := ← level "minimum", maximum := ← level "maximum" }

def ofDocument? (d : Document) : Option Config := do
  let fields ← fields? d d.root
  let sub (key : String) := field? fields key [] (fields? d)
  let logging ← sub "logging"
  let wasm ← sub "wasm"
  let limits ← sub "limits"
  let editor ← sub "editor"
  let limit (key : String) := field? limits key none (setting? d (number? d))
  let text (fields : List (String × Node)) (key : String) :=
    field? fields key none (setting? d (text? d))
  return {
    artifact := ← text fields "artifact"
    codec := ← field? fields "codec" .native (codec? d)
    level := ← text logging "level"
    fuel := ← field? wasm "fuel" {} (fuel? d)
    artifactLimit := ← limit "max_artifact_bytes"
    sourceLimit := ← limit "max_source_bytes"
    referenceLimit := ← limit "max_references"
    owner := ← text editor "marker_owner"
    uri := ← text editor "document_uri" }

/-- A configuration as it is written. An empty text sets nothing. -/
def ofText (text : String) : Except ConfigError Config :=
  match document? text with
  | none => .error .parse
  | some none => .ok {}
  | some (some d) =>
    match ofDocument? d with
    | some c => .ok c
    | none => .error .parse

/-- A configuration from the bytes of the file at a path. -/
def ofFile (path : String) (content : Except FileFault (List UInt8)) :
    Except ConfigError Config :=
  match content with
  | .error fault => .error (.io path fault)
  | .ok bytes =>
    match Utf8.decode? bytes with
    | none => .error (.io path .notUtf8)
    | some text => ofText (String.ofList text)

end SplitEditor.Config
