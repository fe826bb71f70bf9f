import SplitEditor.Wasm.Reader

/-! The parts of a binary: a header and framed sections. Reading the parts checks the framing
everywhere, but looks into a section only as far as its part says. A component holds modules
and components of its own; their parts follow one another in the order in which they are met,
each beginning with its header. -/

namespace SplitEditor.Wasm

inductive Encoding where
  | module
  | component
  deriving Repr, DecidableEq

inductive EntryKind where
  | types
  | imports
  | functions
  | tables
  | memories
  | globals
  | exports
  | elements
  | data
  | tags
  deriving Repr, DecidableEq

inductive Part where
  | header (version : Nat) (encoding : Encoding)
  | entries (kind : EntryKind) (count : Nat) (body : List UInt8)
  | start (function : Nat)
  | dataCount (count : Nat)
  | code (bodies : List (List UInt8))
  | custom
  | unknown
  deriving Repr, DecidableEq

namespace Part

def ofHeader? : List UInt8 → Option (Part × Encoding × List UInt8)
  | 0x00 :: 0x61 :: 0x73 :: 0x6D :: v :: w :: 0x00 :: 0x00 :: rest =>
    some (header (v.toNat + 256 * w.toNat) .module, .module, rest)
  | 0x00 :: 0x61 :: 0x73 :: 0x6D :: v :: w :: 0x01 :: 0x00 :: rest =>
    some (header (v.toNat + 256 * w.toNat) .component, .component, rest)
  | _ => none

def frame? : List UInt8 → Option (UInt8 × Nat × List UInt8)
  | [] => none
  | id :: rest =>
    if id < 0x80 then (Reader.unsignedFrom 32 rest).map fun (length, rest) => (id, length, rest)
    else none

def entries? (kind : EntryKind) (body : List UInt8) : Option Part :=
  (Reader.u32 body).map fun (count, body) => entries kind count body

def custom? (body : List UInt8) : Option Part := (Reader.name body).map fun _ => custom

def codeBody : Reader (List UInt8) := do Reader.take (← Reader.u32)

/-- The part for a section of a module. -/
def ofModule? (id : UInt8) (body : List UInt8) : Option Part :=
  match id with
  | 0 => custom? body
  | 1 => entries? .types body
  | 2 => entries? .imports body
  | 3 => entries? .functions body
  | 4 => entries? .tables body
  | 5 => entries? .memories body
  | 6 => entries? .globals body
  | 7 => entries? .exports body
  | 8 => (Reader.all? Reader.u32 body).map start
  | 9 => entries? .elements body
  | 10 => (Reader.all? (Reader.vector codeBody) body).map code
  | 11 => entries? .data body
  | 12 => (Reader.all? Reader.u32 body).map dataCount
  | 13 => entries? .tags body
  | _ => some unknown

def componentStart : Reader Unit := do
  let _ ← Reader.u32
  let _ ← Reader.many Reader.u32 (← Reader.atMost 1000)
  let _ ← Reader.atMost 1000

def ofComponent? (id : UInt8) (body : List UInt8) : Option Part :=
  match id with
  | 0 => custom? body
  | 2 | 3 | 5 | 6 | 7 | 8 | 10 | 11 => (Reader.u32 body).map fun _ => unknown
  | 9 => (Reader.all? componentStart body).map fun _ => unknown
  | _ => some unknown

def nestedLimit : Nat := 0x40000000

theorem ofHeader?_length {bytes rest : List UInt8} {part : Part} {encoding : Encoding}
    (h : ofHeader? bytes = some (part, encoding, rest)) : rest.length < bytes.length := by
  unfold ofHeader? at h
  split at h
  · simp only [Option.some.injEq, Prod.mk.injEq] at h
    simp only [List.length_cons, ← h.2.2]
    omega
  · simp only [Option.some.injEq, Prod.mk.injEq] at h
    simp only [List.length_cons, ← h.2.2]
    omega
  · simp at h

theorem frame?_length {bytes rest : List UInt8} {id : UInt8} {length : Nat}
    (h : frame? bytes = some (id, length, rest)) : rest.length < bytes.length := by
  cases bytes with
  | nil => simp [frame?] at h
  | cons b bytes =>
    simp only [frame?] at h
    split at h
    · obtain ⟨⟨n, r⟩, hr, he⟩ := Option.map_eq_some_iff.1 h
      simp only [Prod.mk.injEq] at he
      have := Reader.unsignedFrom_length hr
      simp only [List.length_cons, ← he.2.2]
      omega
    · simp at h

/-- The parts from a position on: at a header if the encoding is not known yet, else at a
section. A binary inside another may claim more bytes than there are, as long as the outer one
claims them too: `missing` is how many more than these bytes the binary claims to have, and a
binary that stands on its own claims any number. -/
def readFrom (encoding : Option Encoding) (missing : Option Nat) (bytes : List UInt8) :
    Option (List Part) :=
  match encoding with
  | none =>
    match _h : ofHeader? bytes with
    | none => none
    | some (part, encoding, rest) => (readFrom (some encoding) missing rest).map (part :: ·)
  | some encoding =>
    if bytes.isEmpty then some []
    else
      match _h : frame? bytes with
      | none => none
      | some (id, length, rest) =>
        if encoding = .component ∧ (id = 1 ∨ id = 4) then
          if nestedLimit < length ∨ missing.any (rest.length + · < length) then none
          else do
            let inner ← readFrom none (some (length - rest.length)) (rest.take length)
            let outer ← readFrom (some encoding) missing (rest.drop length)
            return inner ++ outer
        else if rest.length < length then none
        else do
          let body := rest.take length
          let part ← match encoding with
            | .module => ofModule? id body
            | .component => ofComponent? id body
          let parts ← readFrom (some encoding) missing (rest.drop length)
          return part :: parts
termination_by bytes.length
decreasing_by
  · exact ofHeader?_length ‹_›
  · have := frame?_length ‹_›
    simp only [List.length_take]
    omega
  · have := frame?_length ‹_›
    simp only [List.length_drop]
    omega
  · have := frame?_length ‹_›
    simp only [List.length_drop]
    omega

def ofBytes? (bytes : List UInt8) : Option (List Part) := readFrom none none bytes

end Part

end SplitEditor.Wasm
