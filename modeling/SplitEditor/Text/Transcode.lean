import SplitEditor.Text.Utf16

/-! UTF-8 bytes to UTF-16 units and back without a detour through a text. The continuation
bytes of a sequence are collected first and the code point is judged when the last of them is
in, so an ill-formed sequence of full length is one replacement. -/

namespace SplitEditor.Transcode

/-- The bytes of one code point. -/
def pointBytes (point : Nat) : List UInt8 :=
  if point < 0x80 then [UInt8.ofNat point]
  else if point < 0x800 then
    [UInt8.ofNat (0xC0 + point / 64), UInt8.ofNat (0x80 + point % 64)]
  else if point < 0x10000 then
    [UInt8.ofNat (0xE0 + point / 4096), UInt8.ofNat (0x80 + point / 64 % 64),
      UInt8.ofNat (0x80 + point % 64)]
  else
    [UInt8.ofNat (0xF0 + point / 262144), UInt8.ofNat (0x80 + point / 4096 % 64),
      UInt8.ofNat (0x80 + point / 64 % 64), UInt8.ofNat (0x80 + point % 64)]

def toUtf8 (units : List UInt16) : List UInt8 :=
  (Utf16.points units).flatMap pointBytes

/-- A sequence begun but not finished: its bits so far, the bytes still due, and the least code
point that needs a sequence of its length. -/
structure Pending where
  bits : Nat
  due : Nat
  minimum : Nat
  deriving Repr, DecidableEq

structure Transcoder where
  pending : Option Pending
  output : List UInt16
  deriving Repr, DecidableEq

namespace Transcoder

def start : Transcoder := ⟨none, []⟩

def emit (output : List UInt16) (point : Nat) : Transcoder :=
  ⟨none, (Utf16.split point).reverse ++ output⟩

def opening (output : List UInt16) (b : UInt8) : Transcoder :=
  if b < 0x80 then emit output b.toNat
  else if b < 0xC2 then emit output 0xFFFD
  else if b < 0xE0 then ⟨some ⟨b.toNat % 32, 1, 0x80⟩, output⟩
  else if b < 0xF0 then ⟨some ⟨b.toNat % 16, 2, 0x800⟩, output⟩
  else if b < 0xF5 then ⟨some ⟨b.toNat % 8, 3, 0x10000⟩, output⟩
  else emit output 0xFFFD

def isScalar (minimum point : Nat) : Bool :=
  minimum ≤ point && point ≤ 0x10FFFF && !(0xD800 ≤ point && point ≤ 0xDFFF)

def feed (t : Transcoder) (b : UInt8) : Transcoder :=
  match t.pending with
  | none => opening t.output b
  | some p =>
    if 0x80 ≤ b ∧ b < 0xC0 then
      let bits := p.bits * 64 + b.toNat % 64
      if p.due = 1 then emit t.output (if isScalar p.minimum bits then bits else 0xFFFD)
      else ⟨some ⟨bits, p.due - 1, p.minimum⟩, t.output⟩
    else opening (emit t.output 0xFFFD).output b

def finish (t : Transcoder) : List UInt16 :=
  match t.pending with
  | none => t.output.reverse
  | some _ => (emit t.output 0xFFFD).output.reverse

end Transcoder

def ofUtf8 (bytes : List UInt8) : List UInt16 :=
  (bytes.foldl Transcoder.feed Transcoder.start).finish

def encode (text : List Char) : List UInt8 := toUtf8 (Utf16.encode text)

def decode (bytes : List UInt8) : List Char := Utf16.decode (ofUtf8 bytes)

end SplitEditor.Transcode
