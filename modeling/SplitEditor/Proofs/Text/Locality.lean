import SplitEditor.Proofs.Text.Agreement

/-! The transcoder on arbitrary bytes. The units it writes are those of a text, no more of them than
there are bytes, and a byte that continues nothing is read as if the text began there. -/

namespace SplitEditor.Transcode
open Utf8 (replacement)
open Agreement (unitsOf emit_point emit_replacement)

variable {t : Transcoder} {b : UInt8} {text : List Char} {read : Nat}

/-! ### Units of a text -/

theorem length_split_le (point : Nat) : (Utf16.split point).length ≤ 2 := by
  unfold Utf16.split
  split
  · exact Nat.le_succ 1
  · exact Nat.le_refl 2

/-- So many bytes have been read. Of a sequence under way at least one is still to be written for. -/
structure Accounts (t : Transcoder) (read : Nat) : Prop where
  units : ∃ text, t.output = unitsOf text
  length_le : t.output.length + (if t.pending.isSome then 1 else 0) ≤ read

theorem accounts_emit {point : Nat} (h : point.isValidChar)
    (hlength : (unitsOf text).length + (Utf16.split point).length ≤ read) :
    Accounts (Transcoder.emit (unitsOf text) point) read where
  units := ⟨Char.ofNat point :: text, by rw [emit_point h]⟩
  length_le := by
    show ((Utf16.split point).reverse ++ unitsOf text).length ≤ read
    rwa [List.length_append, List.length_reverse, Nat.add_comm]

theorem isValidChar_replacement : (0xFFFD : Nat).isValidChar := by decide

theorem accounts_pending {p : Pending} (hlength : (unitsOf text).length + 1 ≤ read) :
    Accounts ⟨some p, unitsOf text⟩ read := ⟨⟨text, rfl⟩, hlength⟩

theorem accounts_opening (b : UInt8) (hlength : (unitsOf text).length + 1 ≤ read) :
    Accounts (Transcoder.opening (unitsOf text) b) read := by
  cases Utf8.Decoder.lead b with
  | ascii h =>
    have hsplit : (Utf16.split b.toNat).length = 1 := by
      rw [Utf16.split_of_lt (Nat.lt_trans h (by decide)), List.length_singleton]
    rw [Transcoder.opening_ascii h]
    exact accounts_emit (.inl (Nat.lt_trans h (by decide))) (hsplit ▸ hlength)
  | stray h =>
    rw [Transcoder.opening_stray h]
    exact accounts_emit isValidChar_replacement hlength
  | two h => exact Transcoder.opening_two h ▸ accounts_pending hlength
  | three h => exact Transcoder.opening_three h ▸ accounts_pending hlength
  | four h => exact Transcoder.opening_four h ▸ accounts_pending hlength

theorem Accounts.feed (h : Accounts t read) (b : UInt8) : Accounts (t.feed b) (read + 1) := by
  obtain ⟨pending, output⟩ := t
  obtain ⟨⟨text, rfl⟩, hlength⟩ := h
  cases pending with
  | none => exact accounts_opening b (Nat.succ_le_succ hlength)
  | some p =>
    have hlength : (unitsOf text).length + 1 ≤ read := hlength
    by_cases htail : IsTail b
    · by_cases hdue : p.due = 1
      · rw [Transcoder.feed_last htail hdue]
        refine accounts_emit ?_ ?_
        · split
          · next hscalar => exact (Transcoder.isScalar_eq_true.1 hscalar).2
          · exact isValidChar_replacement
        · -- one unit for the byte in hand, one for this byte
          exact Nat.le_trans (Nat.add_le_add_left (length_split_le _) _) (Nat.succ_le_succ hlength)
      · rw [Transcoder.feed_more htail hdue]
        exact accounts_pending (Nat.le_succ_of_le hlength)
    · have hunits : (unitsOf (replacement :: text)).length = (unitsOf text).length + 1 := by
        simp [unitsOf, Utf16.encode, Utf16.split_of_lt (show replacement.toNat < 0x10000 by decide)]
      rw [Transcoder.feed_reject htail, emit_replacement]
      exact accounts_opening b (hunits ▸ Nat.succ_le_succ hlength)

theorem accounts_run (bytes : List UInt8) (h : Accounts t read) :
    Accounts (bytes.foldl Transcoder.feed t) (read + bytes.length) := by
  induction bytes generalizing t read with
  | nil => exact h
  | cons b bytes ih =>
    have hrest := ih (h.feed b)
    rwa [Nat.add_assoc, Nat.add_comm 1] at hrest

theorem Accounts.finish (h : Accounts t read) :
    ∃ text, t.finish = Utf16.encode text ∧ t.finish.length ≤ read := by
  obtain ⟨pending, output⟩ := t
  obtain ⟨⟨text, rfl⟩, hlength⟩ := h
  have hreverse (text : List Char) : (unitsOf text).reverse = Utf16.encode text.reverse :=
    List.reverse_reverse _
  cases pending with
  | none =>
    refine ⟨text.reverse, hreverse text, ?_⟩
    rw [Transcoder.finish, List.length_reverse]
    exact hlength
  | some p =>
    refine ⟨(replacement :: text).reverse, ?_, ?_⟩
    · simp only [Transcoder.finish, emit_replacement]
      exact hreverse _
    · rw [Transcoder.finish, List.length_reverse, Transcoder.emit, List.length_append]
      exact Nat.add_comm _ _ ▸ hlength

theorem exists_text (bytes : List UInt8) :
    ∃ text, ofUtf8 bytes = Utf16.encode text ∧ (ofUtf8 bytes).length ≤ bytes.length := by
  have hstart : Accounts Transcoder.start 0 := ⟨⟨[], rfl⟩, Nat.le_refl 0⟩
  have hrun := accounts_run bytes hstart
  rw [Nat.zero_add] at hrun
  exact hrun.finish

theorem length_ofUtf8_le (bytes : List UInt8) : (ofUtf8 bytes).length ≤ bytes.length := by
  obtain ⟨_, -, hlength⟩ := exists_text bytes
  exact hlength

theorem encode_decode (bytes : List UInt8) : Utf16.encode (decode bytes) = ofUtf8 bytes := by
  obtain ⟨text, htext, -⟩ := exists_text bytes
  rw [decode, htext, Utf16.decode_encode]

/-! ### Cuts -/

theorem feed_output (p : Option Pending) (output : List UInt16) (b : UInt8) :
    Transcoder.feed ⟨p, output⟩ b =
      ⟨(Transcoder.feed ⟨p, []⟩ b).pending, (Transcoder.feed ⟨p, []⟩ b).output ++ output⟩ := by
  have hopening (output : List UInt16) : Transcoder.opening output b =
      ⟨(Transcoder.opening [] b).pending, (Transcoder.opening [] b).output ++ output⟩ := by
    unfold Transcoder.opening Transcoder.emit
    grind
  cases p with
  | none => exact hopening output
  | some p =>
    by_cases htail : IsTail b
    · by_cases hdue : p.due = 1
      · simp [Transcoder.feed_last htail hdue, Transcoder.emit]
      · simp [Transcoder.feed_more htail hdue]
    · rw [Transcoder.feed_reject htail, Transcoder.feed_reject htail, hopening,
        hopening (Transcoder.emit [] 0xFFFD).output]
      simp [Transcoder.emit]

theorem foldl_feed_output (bytes : List UInt8) (p : Option Pending) (output : List UInt16) :
    (bytes.foldl Transcoder.feed ⟨p, output⟩).finish =
      output.reverse ++ (bytes.foldl Transcoder.feed ⟨p, []⟩).finish := by
  induction bytes generalizing p output with
  | nil => cases p <;> simp [Transcoder.finish, Transcoder.emit]
  | cons b bytes ih =>
    rw [List.foldl_cons, List.foldl_cons, feed_output, ih,
      ih (Transcoder.feed ⟨p, []⟩ b).pending (Transcoder.feed ⟨p, []⟩ b).output]
    simp

theorem ofUtf8_append {front back : List UInt8} (h : ∀ b ∈ back.head?, ¬IsTail b) :
    ofUtf8 (front ++ back) = ofUtf8 front ++ ofUtf8 back := by
  unfold ofUtf8
  rw [List.foldl_append]
  generalize front.foldl Transcoder.feed Transcoder.start = t
  obtain ⟨pending, output⟩ := t
  cases back with
  | nil => exact (List.append_nil _).symm
  | cons b back =>
    cases pending with
    | none => exact foldl_feed_output (b :: back) none output
    | some p =>
      have htail : ¬IsTail b := h b rfl
      rw [List.foldl_cons, Transcoder.feed_reject htail, ← Transcoder.feed_none, ← List.foldl_cons]
      exact foldl_feed_output (b :: back) none _

theorem decode_append {front back : List UInt8} (h : ∀ b ∈ back.head?, ¬IsTail b) :
    decode (front ++ back) = decode front ++ decode back := by
  have hunits : ofUtf8 (front ++ back) = Utf16.encode (decode front ++ decode back) := by
    rw [ofUtf8_append h, ← encode_decode, ← encode_decode back]
    exact List.flatMap_append.symm
  rw [decode, hunits, Utf16.decode_encode]

end SplitEditor.Transcode

namespace SplitEditor.Codec

/-- However malformed the bytes in front are, what is read from the bytes behind them does not
depend on them, unless those begin in the middle of a sequence. -/
theorem manual_decode_append (damaged rest : List UInt8) (h : ∀ b ∈ rest.head?, ¬IsTail b) :
    manual.decode (damaged ++ rest) = manual.decode damaged ++ manual.decode rest := by
  rw [decode, decode, decode, Transcode.decode_append h, String.ofList_append]

/-- Three bytes of four, and then a character and a stray byte. -/
theorem manual_decode_append_cut : (∀ b ∈ [0xC3, 0xA9, 0x80].head?, ¬IsTail b) ∧
    manual.decode ([0xF0, 0x9F, 0x98] ++ [0xC3, 0xA9, 0x80]) = "\uFFFD" ++ "é\uFFFD" := by
  have hrest : ∀ b ∈ [0xC3, 0xA9, 0x80].head?, ¬IsTail b := by
    rintro b ⟨⟩
    exact fun htail => absurd htail.2 (by decide)
  exact ⟨hrest, (manual_decode_append [0xF0, 0x9F, 0x98] [0xC3, 0xA9, 0x80] hrest).trans
    (by decide)⟩

end SplitEditor.Codec
