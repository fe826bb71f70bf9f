import SplitEditor.Editor.Value

/-! The surface an editor displays: markers by owner, the compile status and all that came
before it, and the read-only output. -/

namespace SplitEditor

structure Surface where
  markers : List (String × List Marker)
  status : Option BuildStatus
  history : List BuildStatus
  output : String
  deriving Repr, DecidableEq

namespace Surface

def empty : Surface := ⟨[], none, [], ""⟩

def markersOf (s : Surface) (owner : String) : List Marker :=
  (s.markers.lookup owner).getD []

def setMarkers (s : Surface) (owner : String) (markers : List Marker) : Surface :=
  { s with markers := (owner, markers) :: s.markers.filter fun entry => entry.1 ≠ owner }

def setStatus (s : Surface) (status : BuildStatus) : Surface :=
  { s with status := some status, history := s.history ++ [status] }

def setOutput (s : Surface) (text : String) : Surface := { s with output := text }

end Surface

end SplitEditor
