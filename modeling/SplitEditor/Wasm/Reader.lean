import SplitEditor.Text.Utf8

/-! Reading from the front of a list of bytes. A reader gives what it read and the bytes that
are left, or fails. Numbers are written seven bits to a byte, lowest first; every byte but the
last has its high bit set. -/

namespace SplitEditor.Wasm

abbrev Reader := StateT (List UInt8) Option

namespace Reader

def byte : Reader UInt8
  | [] => none
  | b :: rest => some (b, rest)

def unsignedFrom (width : Nat) : List UInt8 → Option (Nat × List UInt8)
  | [] => none
  | b :: rest =>
    if width < 7 ∧ 1 <<< width ≤ b.toNat then none
    else if b < 0x80 then some (b.toNat, rest)
    else (unsignedFrom (width - 7) rest).map fun (n, rest) => (b.toNat % 128 + 128 * n, rest)

def unsigned (width : Nat) : Reader Nat := fun bytes => unsignedFrom width bytes

def u32 : Reader Nat := unsigned 32

def u64 : Reader Nat := unsigned 64

/-- A number of at most `width` bits in two's complement; the last byte's sixth bit is the
sign. -/
def signedFrom (width : Nat) : List UInt8 → Option (Int × List UInt8)
  | [] => none
  | b :: rest =>
    if b < 0x80 then
      let n : Int := if b < 0x40 then b.toNat else b.toNat - 128
      let half : Nat := 1 <<< (width - 1)
      if width < 7 ∧ (n < -half ∨ half ≤ n) then none
      else some (n, rest)
    else if width ≤ 7 then none
    else (signedFrom (width - 7) rest).map fun (n, rest) => (b.toNat % 128 + 128 * n, rest)

def signed (width : Nat) : Reader Int := fun bytes => signedFrom width bytes

def take (n : Nat) : Reader (List UInt8) := fun bytes =>
  if n ≤ bytes.length then some (bytes.take n, bytes.drop n) else none

def atMost (bound : Nat) : Reader Nat := do
  let n ← u32
  if n ≤ bound then return n else failure

def nameLimit : Nat := 100000

def name : Reader (List Char) := do
  let bytes ← take (← atMost nameLimit)
  (Utf8.decode? bytes : Option (List Char))

def many {α : Type} (entry : Reader α) : Nat → Reader (List α)
  | 0 => return []
  | n + 1 => do return (← entry) :: (← many entry n)

def vector {α : Type} (entry : Reader α) : Reader (List α) := do many entry (← u32)

def all? {α : Type} (reader : Reader α) (bytes : List UInt8) : Option α :=
  match reader bytes with
  | some (a, []) => some a
  | _ => none

theorem unsignedFrom_length {width : Nat} {bytes rest : List UInt8} {n : Nat}
    (h : unsignedFrom width bytes = some (n, rest)) : rest.length < bytes.length := by
  induction bytes generalizing width n rest with
  | nil => simp [unsignedFrom] at h
  | cons b bytes ih =>
    simp only [unsignedFrom] at h
    split at h
    · simp at h
    · split at h
      · simp only [Option.some.injEq, Prod.mk.injEq] at h
        simp [h.2]
      · obtain ⟨⟨m, r⟩, hr, he⟩ := Option.map_eq_some_iff.1 h
        simp only [Prod.mk.injEq] at he
        have := ih hr
        simp only [List.length_cons, ← he.2]
        omega

end Reader

end SplitEditor.Wasm
