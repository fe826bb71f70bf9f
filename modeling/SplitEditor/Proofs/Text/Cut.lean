import SplitEditor.Proofs.Text.Utf8

/-! Pieces of a text between two offsets. What is cut out of the bytes of a text between two
characters is the bytes of a piece of that text. -/

namespace SplitEditor

variable {α : Type}

def cut? (text : List α) (start stop : Nat) : Option (List α) :=
  if start ≤ stop ∧ stop ≤ text.length then some ((text.take stop).drop start) else none

theorem cut?_append {text : List α} {before piece after : List α} {start stop : Nat}
    (htext : text = before ++ (piece ++ after)) (hstart : start = before.length)
    (hstop : stop = before.length + piece.length) : cut? text start stop = some piece := by
  subst htext hstart hstop
  have hin : before.length + piece.length ≤ (before ++ (piece ++ after)).length := by
    simp only [List.length_append]
    omega
  rw [cut?, if_pos ⟨Nat.le_add_right _ _, hin⟩, List.take_length_add_append, List.drop_left,
    List.take_left]

namespace Utf8

theorem byteLength_cons (c : Char) (text : List Char) :
    byteLength (c :: text) = c.utf8Size + byteLength text := rfl

theorem byteLength_append (s t : List Char) :
    byteLength (s ++ t) = byteLength s + byteLength t := by
  induction s with
  | nil => exact (Nat.zero_add _).symm
  | cons c s ih => rw [List.cons_append, byteLength_cons, byteLength_cons, ih, Nat.add_assoc]

theorem length_le_byteLength (text : List Char) : text.length ≤ byteLength text := by
  induction text with
  | nil => exact Nat.le_refl 0
  | cons c text ih =>
    have hpos := c.utf8Size_pos
    rw [byteLength_cons, List.length_cons]
    omega

theorem byteLength_eq_length {text : List Char} (h : ∀ c ∈ text, c.utf8Size = 1) :
    byteLength text = text.length := by
  induction text with
  | nil => rfl
  | cons c text ih =>
    obtain ⟨hc, htext⟩ := List.forall_mem_cons.1 h
    rw [byteLength_cons, hc, ih htext, List.length_cons, Nat.add_comm]

theorem encode_append (s t : List Char) : encode (s ++ t) = encode s ++ encode t :=
  List.flatMap_append

theorem length_encode (text : List Char) : (encode text).length = byteLength text := by
  induction text with
  | nil => rfl
  | cons c text ih =>
    rw [encode_cons, List.length_append, String.length_utf8EncodeChar, ih, byteLength_cons]

theorem cut?_encode {text before piece after : List Char} {start stop : Nat}
    (htext : text = before ++ (piece ++ after)) (hstart : start = byteLength before)
    (hstop : stop = byteLength before + byteLength piece) :
    cut? (encode text) start stop = some (encode piece) := by
  have hbytes : encode text = encode before ++ (encode piece ++ encode after) := by
    rw [htext, encode_append, encode_append]
  refine cut?_append hbytes ?_ ?_
  · rw [hstart, length_encode]
  · rw [hstop, length_encode, length_encode]

theorem eq_of_mem_encodeChar {b : UInt8} {c : Char} (hb : b ∈ String.utf8EncodeChar c)
    (hascii : b.toNat < 0x80) : c.toNat = b.toNat := by
  have htail : ∀ bits, bits < 64 → b ≠ tailByte bits := by
    rintro bits hbits rfl
    rw [toNat_tailByte hbits] at hascii
    omega
  have hvalid := isValidChar_toNat c
  unfold Nat.isValidChar at hvalid
  rw [← Transcode.pointBytes_toNat] at hb
  have hmod : ∀ n, n % 64 < 64 := fun n => Nat.mod_lt n (by decide)
  -- an opening byte of a longer sequence is not below `0x80` either
  have hlead : ∀ n, 0x80 ≤ n → n < 256 → b ≠ UInt8.ofNat n := by
    rintro n hn hbyte rfl
    rw [UInt8.toNat_ofNat_of_lt' (show n < UInt8.size from hbyte)] at hascii
    omega
  rcases Nat.lt_or_ge c.toNat 0x80 with h₁ | h₁
  · rw [Transcode.pointBytes_one h₁, List.mem_singleton] at hb
    rw [hb, UInt8.toNat_ofNat_of_lt' (Nat.lt_trans h₁ (by decide))]
  rcases Nat.lt_or_ge c.toNat 0x800 with h₂ | h₂
  · simp only [Transcode.pointBytes_two ⟨h₁, h₂⟩, List.mem_cons, List.not_mem_nil, or_false] at hb
    rcases hb with hb | hb
    · exact absurd hb (hlead _ (by omega) (by omega))
    · exact absurd hb (htail _ (hmod _))
  rcases Nat.lt_or_ge c.toNat 0x10000 with h₃ | h₃
  · simp only [Transcode.pointBytes_three ⟨h₂, h₃⟩, List.mem_cons, List.not_mem_nil,
      or_false] at hb
    rcases hb with hb | hb | hb
    · exact absurd hb (hlead _ (by omega) (by omega))
    · exact absurd hb (htail _ (hmod _))
    · exact absurd hb (htail _ (hmod _))
  · simp only [Transcode.pointBytes_four h₃, List.mem_cons, List.not_mem_nil, or_false] at hb
    rcases hb with hb | hb | hb | hb
    · exact absurd hb (hlead _ (by omega) (by omega))
    · exact absurd hb (htail _ (hmod _))
    · exact absurd hb (htail _ (hmod _))
    · exact absurd hb (htail _ (hmod _))

end Utf8

end SplitEditor
