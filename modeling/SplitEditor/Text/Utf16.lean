/-! UTF-16 code units of a text, and the reading of arbitrary units, in which an unpaired
surrogate becomes U+FFFD. -/

namespace SplitEditor.Utf16

def isHigh (u : UInt16) : Bool := 0xD800 ≤ u && u < 0xDC00

def isLow (u : UInt16) : Bool := 0xDC00 ≤ u && u ≤ 0xDFFF

def join (high low : UInt16) : Nat :=
  0x10000 + (high.toNat % 1024 * 1024 + low.toNat % 1024)

def split (point : Nat) : List UInt16 :=
  if point < 0x10000 then [UInt16.ofNat point]
  else
    let offset := point - 0x10000
    [UInt16.ofNat (0xD800 + offset / 1024), UInt16.ofNat (0xDC00 + offset % 1024)]

def encode (text : List Char) : List UInt16 :=
  text.flatMap fun c => split c.toNat

def lone (u : UInt16) : Nat :=
  if isHigh u || isLow u then 0xFFFD else u.toNat

def points : List UInt16 → List Nat
  | [] => []
  | [u] => [lone u]
  | u :: v :: rest =>
    if isHigh u && isLow v then join u v :: points rest
    else lone u :: points (v :: rest)

def decode (units : List UInt16) : List Char :=
  (points units).map Char.ofNat

end SplitEditor.Utf16
