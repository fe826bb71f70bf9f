/-! Tickets for overlapping requests. They are numbered from one on, and a ticket is current as
long as no later one has been issued. -/

namespace SplitEditor

structure Ticket where
  sequence : UInt64
  deriving Repr, DecidableEq

structure Sequencer where
  latest : UInt64
  deriving Repr, DecidableEq

namespace Sequencer

def fresh : Sequencer := ⟨0⟩

def issue (s : Sequencer) : Ticket × Sequencer :=
  (⟨s.latest + 1⟩, ⟨s.latest + 1⟩)

def isCurrent (s : Sequencer) (t : Ticket) : Bool := s.latest == t.sequence

end Sequencer

end SplitEditor
