/-! UTF-8: the bytes of a text, and the lossy reading of arbitrary bytes, which puts one
replacement character for every maximal ill-formed subpart. A byte that breaks a sequence off
is read again as the start of the next one. -/

namespace SplitEditor.Utf8

def replacement : Char := '\uFFFD'

def encode (text : List Char) : List UInt8 :=
  text.flatMap String.utf8EncodeChar

def byteLength (text : List Char) : Nat :=
  text.foldr (fun c n => c.utf8Size + n) 0

/-- A sequence begun but not finished: the code point's bits so far, the number of bytes still
due, and the range the next one has to lie in. -/
structure Pending where
  bits : Nat
  due : Nat
  low : UInt8
  high : UInt8
  deriving Repr, DecidableEq

structure Decoder where
  pending : Option Pending
  output : List Char
  deriving Repr, DecidableEq

namespace Decoder

def start : Decoder := ⟨none, []⟩

def emit (output : List Char) (c : Char) : Decoder := ⟨none, c :: output⟩

/-- Reads a byte that opens a sequence. The second byte's range leaves out overlong forms,
surrogates and everything above U+10FFFF. -/
def opening (output : List Char) (b : UInt8) : Decoder :=
  if b < 0x80 then emit output (Char.ofNat b.toNat)
  else if b < 0xC2 then emit output replacement
  else if b < 0xE0 then ⟨some ⟨b.toNat % 32, 1, 0x80, 0xBF⟩, output⟩
  else if b = 0xE0 then ⟨some ⟨0, 2, 0xA0, 0xBF⟩, output⟩
  else if b = 0xED then ⟨some ⟨13, 2, 0x80, 0x9F⟩, output⟩
  else if b < 0xF0 then ⟨some ⟨b.toNat % 16, 2, 0x80, 0xBF⟩, output⟩
  else if b = 0xF0 then ⟨some ⟨0, 3, 0x90, 0xBF⟩, output⟩
  else if b < 0xF4 then ⟨some ⟨b.toNat % 8, 3, 0x80, 0xBF⟩, output⟩
  else if b = 0xF4 then ⟨some ⟨4, 3, 0x80, 0x8F⟩, output⟩
  else emit output replacement

def feed (d : Decoder) (b : UInt8) : Decoder :=
  match d.pending with
  | none => opening d.output b
  | some p =>
    if p.low ≤ b ∧ b ≤ p.high then
      let bits := p.bits * 64 + b.toNat % 64
      if p.due = 1 then emit d.output (Char.ofNat bits)
      else ⟨some ⟨bits, p.due - 1, 0x80, 0xBF⟩, d.output⟩
    else opening (replacement :: d.output) b

def finish (d : Decoder) : List Char :=
  match d.pending with
  | none => d.output.reverse
  | some _ => (replacement :: d.output).reverse

end Decoder

def decode (bytes : List UInt8) : List Char :=
  (bytes.foldl Decoder.feed Decoder.start).finish

/-- The text of well-formed bytes: exactly those that the text read from them encodes to. -/
def decode? (bytes : List UInt8) : Option (List Char) :=
  let text := decode bytes
  if encode text = bytes then some text else none

end SplitEditor.Utf8
