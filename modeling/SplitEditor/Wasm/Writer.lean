import SplitEditor.Wasm.Reader

/-! Writing what a reader reads: numbers in as few bytes as they take, and lengths in front of
what they measure. -/

namespace SplitEditor.Wasm.Writer

def unsigned (n : Nat) : List UInt8 :=
  if n < 128 then [UInt8.ofNat n] else UInt8.ofNat (n % 128 + 128) :: unsigned (n / 128)
termination_by n
decreasing_by omega

def signed (n : Int) : List UInt8 :=
  if -64 ≤ n ∧ n < 64 then [UInt8.ofNat (n % 128).toNat]
  else UInt8.ofNat ((n % 128).toNat + 128) :: signed (n / 128)
termination_by n.natAbs
decreasing_by omega

def sized (bytes : List UInt8) : List UInt8 := unsigned bytes.length ++ bytes

def vector (entries : List (List UInt8)) : List UInt8 := unsigned entries.length ++ entries.flatten

def name (text : List Char) : List UInt8 := sized (Utf8.encode text)

def framed (id : UInt8) (body : List UInt8) : List UInt8 := id :: sized body

def module (sections : List (List UInt8)) : List UInt8 :=
  [0x00, 0x61, 0x73, 0x6D, 0x01, 0x00, 0x00, 0x00] ++ sections.flatten

end SplitEditor.Wasm.Writer
