import SplitEditor.Analysis.Error
import SplitEditor.Log
import SplitEditor.Text.Codec

/-! The configuration of an editor. Whatever is not set has a default. -/

namespace SplitEditor

inductive ConfigError where
  | io (path : String) (fault : FileFault)
  | parse
  | fuelBounds (minimum maximum : Nat)
  | zeroLimit (name : String)
  | emptySetting (name : String)
  deriving Repr, DecidableEq

namespace ConfigError

def message : ConfigError → String
  | io path fault => s!"Failed to read configuration '{path}': {fault.message}"
  | parse => "Failed to parse configuration: not a configuration"
  | fuelBounds minimum maximum =>
    s!"Invalid fuel bounds: minimum {minimum} exceeds maximum {maximum}"
  | zeroLimit name => s!"Limit '{name}' must be greater than zero"
  | emptySetting name => s!"Setting '{name}' must not be empty"

def chain : ConfigError → List String
  | io path fault => [message (io path fault), fault.message]
  | e => [e.message]

def isValidation : ConfigError → Bool
  | io .. | parse => false
  | fuelBounds .. | zeroLimit _ | emptySetting _ => true

end ConfigError

structure FuelSettings where
  default : Option Nat := none
  minimum : Option Nat := none
  maximum : Option Nat := none
  deriving Repr, DecidableEq

namespace FuelSettings

def defaultLevel (f : FuelSettings) : Nat := f.default.getD 100000000

def least (f : FuelSettings) : Nat := f.minimum.getD 1000000

def greatest (f : FuelSettings) : Nat := f.maximum.getD 500000000

/-- A request for fuel brought within the bounds. Bounds the wrong way round leave the lower
one. -/
def clamp (f : FuelSettings) (requested : Nat) : Nat :=
  if requested < f.least then f.least else min requested (max f.greatest f.least)

def clampEvents (f : FuelSettings) (requested : Nat) : List LogEvent :=
  if requested < f.least ∨ f.greatest < requested then
    [.fuelClamped requested f.least f.greatest]
  else []

def effective (f : FuelSettings) : Nat := f.clamp f.defaultLevel

def effectiveEvents (f : FuelSettings) : List LogEvent := f.clampEvents f.defaultLevel

end FuelSettings

structure Config where
  artifact : Option String := none
  codec : Codec := .native
  level : Option String := none
  fuel : FuelSettings := {}
  artifactLimit : Option Nat := none
  sourceLimit : Option Nat := none
  referenceLimit : Option Nat := none
  owner : Option String := none
  uri : Option String := none
  deriving Repr, DecidableEq

def defaultSourceLimit : Nat := 4 * 1024 * 1024

def defaultReferenceLimit : Nat := 65536

namespace Config

def artifactPath (c : Config) : String := c.artifact.getD "asl_lang.wasm"

def logLevel (c : Config) : String := c.level.getD "warn"

def maxArtifactBytes (c : Config) : Nat := c.artifactLimit.getD (16 * 1024 * 1024)

def maxSourceBytes (c : Config) : Nat := c.sourceLimit.getD defaultSourceLimit

def maxReferences (c : Config) : Nat := c.referenceLimit.getD defaultReferenceLimit

def markerOwner (c : Config) : String := c.owner.getD "asl"

def documentUri (c : Config) : String := c.uri.getD "inmemory://model/1"

/-- The first constraint a configuration breaks. -/
def validate (c : Config) : Except ConfigError Unit :=
  if c.fuel.greatest < c.fuel.least then
    .error (.fuelBounds c.fuel.least c.fuel.greatest)
  else if c.maxArtifactBytes = 0 then .error (.zeroLimit "max_artifact_bytes")
  else if c.maxSourceBytes = 0 then .error (.zeroLimit "max_source_bytes")
  else if c.maxReferences = 0 then .error (.zeroLimit "max_references")
  else if c.markerOwner = "" then .error (.emptySetting "editor.marker_owner")
  else .ok ()

end Config

structure Settings where
  codec : Codec
  fuel : Nat
  maxSourceBytes : Nat
  maxReferences : Nat
  markerOwner : String
  documentUri : String
  deriving Repr, DecidableEq

def Settings.ofConfig (c : Config) : Settings where
  codec := c.codec
  fuel := c.fuel.effective
  maxSourceBytes := c.maxSourceBytes
  maxReferences := c.maxReferences
  markerOwner := c.markerOwner
  documentUri := c.documentUri

end SplitEditor
