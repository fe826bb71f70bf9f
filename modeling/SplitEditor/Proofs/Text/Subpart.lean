import SplitEditor.Proofs.Text.Utf8

/-! The lossy reading of bytes in terms of the characters' own bytes alone, and the proof that the
decoder computes it. -/

namespace SplitEditor.Utf8

def Begins (bytes : List UInt8) : Prop := ∃ c, bytes <+: String.utf8EncodeChar c

/-- No character can be read from the start of `part ++ rest`, and `part` is the longest piece of
it that begins one, or a single byte. -/
structure MaximalSubpart (part rest : List UInt8) : Prop where
  unreadable : ∀ c, ¬String.utf8EncodeChar c <+: part ++ rest
  nonempty : part ≠ []
  begins : Begins part ∨ part.length = 1
  longest : ∀ bytes, bytes <+: part ++ rest → Begins bytes → bytes.length ≤ part.length

/-- Characters where they can be read, and one replacement for every maximal subpart. -/
inductive Lossy : List UInt8 → List Char → Prop
  | nil : Lossy [] []
  | char {rest : List UInt8} {text : List Char} (c : Char) (h : Lossy rest text) :
    Lossy (String.utf8EncodeChar c ++ rest) (c :: text)
  | subpart {part rest : List UInt8} {text : List Char} (hpart : MaximalSubpart part rest)
      (h : Lossy rest text) : Lossy (part ++ rest) (replacement :: text)

/-! ### Sequences that are completed -/

variable {p : Pending} {b : UInt8} {bytes rest : List UInt8} {c c' : Char}

theorem Completed.ne_nil (h : Completed p bytes c) : bytes ≠ [] := by
  cases h <;> exact List.cons_ne_nil _ _

theorem Completed.in_range (h : Completed p (b :: bytes) c) :
    p.low.toNat ≤ b.toNat ∧ b.toNat ≤ p.high.toNat := by
  cases h <;> assumption

theorem completed_one {bits : Nat} {low high : UInt8} :
    Completed ⟨bits, 1, low, high⟩ bytes c ↔
      ∃ b, bytes = [b] ∧ (low.toNat ≤ b.toNat ∧ b.toNat ≤ high.toNat) ∧
        c = Char.ofNat (bits * 64 + b.toNat % 64) := by
  constructor
  · intro h
    cases h with
    | last hin _ hc => exact ⟨_, rfl, hin, hc⟩
    | more hin hdue h => exact absurd rfl hdue
  · rintro ⟨b, rfl, hin, hc⟩
    exact .last hin rfl hc

theorem completed_more {bits due : Nat} {low high : UInt8} (hdue : due ≠ 1) :
    Completed ⟨bits, due, low, high⟩ bytes c ↔
      ∃ b rest, bytes = b :: rest ∧ (low.toNat ≤ b.toNat ∧ b.toNat ≤ high.toNat) ∧
        Completed ⟨bits * 64 + b.toNat % 64, due - 1, 0x80, 0xBF⟩ rest c := by
  constructor
  · intro h
    cases h with
    | last hin hone => exact absurd hone hdue
    | more hin _ h => exact ⟨_, _, rfl, hin, h⟩
  · rintro ⟨b, rest, rfl, hin, h⟩
    exact .more hin hdue h

theorem completed_cons {bits due : Nat} {low high : UInt8} (hdue : due ≠ 1) :
    Completed ⟨bits, due, low, high⟩ (b :: bytes) c ↔
      (low.toNat ≤ b.toNat ∧ b.toNat ≤ high.toNat) ∧
        Completed ⟨bits * 64 + b.toNat % 64, due - 1, 0x80, 0xBF⟩ bytes c := by
  rw [completed_more hdue]
  constructor
  · rintro ⟨_, _, hcons, h⟩
    obtain ⟨rfl, rfl⟩ := List.cons.inj hcons
    exact h
  · exact fun h => ⟨b, bytes, rfl, h⟩

theorem Completed.unique (h : Completed p bytes c) (h' : Completed p (bytes ++ rest) c') :
    c = c' := by
  induction h with
  | @last p b c hin hdue hc =>
    obtain ⟨bits, due, low, high⟩ := p
    obtain rfl : due = 1 := hdue
    obtain ⟨_, hbytes, -, hc'⟩ := completed_one.1 h'
    rw [hc, hc', (List.cons.inj hbytes).1]
  | more hin hdue h ih =>
    obtain ⟨_, _, hbytes, -, h'⟩ := (completed_more hdue).1 h'
    obtain ⟨rfl, rfl⟩ := List.cons.inj hbytes
    exact ih h'

theorem exists_completed (hdue : 0 < p.due)
    (hin : p.low.toNat ≤ b.toNat ∧ b.toNat ≤ p.high.toNat) :
    ∃ bytes c, Completed p bytes c := by
  obtain ⟨bits, due, low, high⟩ := p
  obtain ⟨n, rfl⟩ : ∃ n, due = n + 1 := ⟨due - 1, (Nat.sub_add_cancel hdue).symm⟩
  induction n generalizing bits low high b with
  | zero => exact ⟨[b], _, .last hin rfl rfl⟩
  | succ n ih =>
    obtain ⟨bytes, c, h⟩ := ih (b := 0x80) (bits * 64 + b.toNat % 64) 0x80 0xBF (Nat.succ_pos n)
      ⟨Nat.le_refl _, (by decide : (0x80 : UInt8).toNat ≤ (0xBF : UInt8).toNat)⟩
    exact ⟨b :: bytes, c, .more hin (fun h => Nat.succ_ne_zero n (Nat.succ.inj h)) h⟩

theorem ofNat_eq {n : Nat} (h : n = b.toNat) : UInt8.ofNat n = b := by
  rw [h, UInt8.ofNat_toNat]

theorem encode_of_completed (hopen : Decoder.Opens b p)
    (h : Completed p bytes c) : String.utf8EncodeChar c = b :: bytes := by
  rw [← Transcode.pointBytes_toNat]
  cases Decoder.lead b with
  | ascii hb => exact absurd hb hopen.not_ascii
  | stray hb => exact absurd hb hopen.not_stray
  | two hb =>
    obtain rfl := hopen.unique (Decoder.opens_two hb)
    obtain ⟨x, rfl, hx, rfl⟩ := completed_one.1 h
    simp only [UInt8.reduceToNat] at hx
    have htail : IsTail x := ⟨hx.1, Nat.lt_succ_of_le hx.2⟩
    rw [toNat_ofNat (.inl (by omega)), Transcode.pointBytes_two (by omega)]
    simp only [List.cons.injEq, and_true]
    exact ⟨ofNat_eq (by omega), tailByte_eq htail (by omega)⟩
  | three hb =>
    obtain rfl := hopen.unique (Decoder.opens_three hb)
    obtain ⟨x, rest, rfl, hx, h⟩ := (completed_more (by decide)).1 h
    obtain ⟨y, rfl, hy, rfl⟩ := completed_one.1 h
    simp only [toNat_ite, UInt8.reduceToNat] at hx hy
    have hpoint : 0x800 ≤ ((b.toNat % 16 * 64 + x.toNat % 64) * 64 + y.toNat % 64) ∧
        ((b.toNat % 16 * 64 + x.toNat % 64) * 64 + y.toNat % 64).isValidChar := by
      unfold Nat.isValidChar
      split at hx <;> split at hx <;> omega
    have htailx : IsTail x := by
      unfold IsTail
      split at hx <;> split at hx <;> omega
    have htaily : IsTail y := ⟨hy.1, Nat.lt_succ_of_le hy.2⟩
    rw [toNat_ofNat hpoint.2, Transcode.pointBytes_three (by omega)]
    simp only [List.cons.injEq, and_true]
    exact ⟨ofNat_eq (by omega), tailByte_eq htailx (by omega), tailByte_eq htaily (by omega)⟩
  | four hb =>
    obtain rfl := hopen.unique (Decoder.opens_four hb)
    obtain ⟨x, rest, rfl, hx, h⟩ := (completed_more (by decide)).1 h
    obtain ⟨y, rest, rfl, hy, h⟩ := (completed_more (by decide)).1 h
    obtain ⟨z, rfl, hz, rfl⟩ := completed_one.1 h
    simp only [toNat_ite, UInt8.reduceToNat] at hx hy hz
    have hpoint : 0x10000 ≤
          (((b.toNat % 8 * 64 + x.toNat % 64) * 64 + y.toNat % 64) * 64 + z.toNat % 64) ∧
        (((b.toNat % 8 * 64 + x.toNat % 64) * 64 + y.toNat % 64) * 64 +
          z.toNat % 64).isValidChar := by
      unfold Nat.isValidChar
      split at hx <;> split at hx <;> omega
    have htailx : IsTail x := by
      unfold IsTail
      split at hx <;> split at hx <;> omega
    have htaily : IsTail y := ⟨hy.1, Nat.lt_succ_of_le hy.2⟩
    have htailz : IsTail z := ⟨hz.1, Nat.lt_succ_of_le hz.2⟩
    rw [toNat_ofNat hpoint.2, Transcode.pointBytes_four (by omega)]
    simp only [List.cons.injEq, and_true]
    exact ⟨ofNat_eq (by omega), tailByte_eq htailx (by omega), tailByte_eq htaily (by omega),
      tailByte_eq htailz (by omega)⟩

theorem encodeChar_prefix_inj (h : String.utf8EncodeChar c <+: String.utf8EncodeChar c') :
    c = c' := by
  obtain ⟨rest, h⟩ := h
  cases hbytes : String.utf8EncodeChar c with
  | nil => exact absurd hbytes (encodeChar_ne_nil c)
  | cons b bytes =>
    rw [hbytes, List.cons_append] at h
    -- the first byte alone tells how the sequence goes on
    rcases completed_of_encode hbytes with ⟨hb, hc, rfl⟩ | ⟨p, hopen, hdone⟩ <;>
      rcases completed_of_encode h.symm with ⟨hb', hc', hnil⟩ | ⟨p', hopen', hdone'⟩
    · rw [← Char.ofNat_toNat c, ← hc, hc', Char.ofNat_toNat]
    · exact absurd hb hopen'.not_ascii
    · exact absurd hb' hopen.not_ascii
    · obtain rfl := hopen.unique hopen'
      exact hdone.unique hdone'

/-! ### The decoder within a sequence -/

/-- The bytes of a sequence that were read, and what the decoder knows of them. -/
structure Midway (part : List UInt8) (p : Pending) : Prop where
  nonempty : part ≠ []
  due_pos : 0 < p.due
  begins : Begins part
  completed_iff : ∀ bytes c, String.utf8EncodeChar c = part ++ bytes ↔ Completed p bytes c

variable {part : List UInt8}

theorem midway_opening (hopen : Decoder.Opens b p)
    (hdue : 0 < p.due) (hrange : p.low.toNat ≤ p.high.toNat) : Midway [b] p where
  nonempty := List.cons_ne_nil b []
  due_pos := hdue
  begins := by
    obtain ⟨bytes, c, h⟩ := exists_completed hdue ⟨Nat.le_refl _, hrange⟩
    exact ⟨c, bytes, (encode_of_completed hopen h).symm⟩
  completed_iff bytes c := by
    refine ⟨fun h => ?_, encode_of_completed hopen⟩
    rcases completed_of_encode h with ⟨hb, -, -⟩ | ⟨q, hopen', hdone⟩
    · exact absurd hb hopen.not_ascii
    · obtain rfl := hopen.unique hopen'
      exact hdone

theorem Midway.last (h : Midway part p) (hin : p.low.toNat ≤ b.toNat ∧ b.toNat ≤ p.high.toNat)
    (hdue : p.due = 1) :
    String.utf8EncodeChar (Char.ofNat (p.bits * 64 + b.toNat % 64)) = part ++ [b] :=
  (h.completed_iff _ _).2 (.last hin hdue rfl)

theorem Midway.more (h : Midway part p) (hin : p.low.toNat ≤ b.toNat ∧ b.toNat ≤ p.high.toNat)
    (hdue : p.due ≠ 1) :
    Midway (part ++ [b]) ⟨p.bits * 64 + b.toNat % 64, p.due - 1, 0x80, 0xBF⟩ := by
  have hpos : 0 < p.due - 1 := Nat.sub_pos_of_lt (Nat.lt_of_le_of_ne h.due_pos (Ne.symm hdue))
  have hiff : ∀ bytes c, String.utf8EncodeChar c = part ++ [b] ++ bytes ↔
      Completed ⟨p.bits * 64 + b.toNat % 64, p.due - 1, 0x80, 0xBF⟩ bytes c := by
    intro bytes c
    rw [List.append_assoc, List.singleton_append, h.completed_iff, completed_cons hdue]
    exact and_iff_right hin
  refine ⟨List.append_ne_nil_of_right_ne_nil part (List.cons_ne_nil b []), hpos, ?_, hiff⟩
  obtain ⟨bytes, c, hdone⟩ := exists_completed
    (p := ⟨p.bits * 64 + b.toNat % 64, p.due - 1, 0x80, 0xBF⟩) (b := 0x80) hpos
    ⟨Nat.le_refl _, (by decide : (0x80 : UInt8).toNat ≤ (0xBF : UInt8).toNat)⟩
  exact ⟨c, bytes, ((hiff bytes c).2 hdone).symm⟩

/-! ### Sequences broken off -/

theorem maximalSubpart_of_stop (hne : part ≠ []) (hbegins : Begins part ∨ part.length = 1)
    (hshort : ∀ c, ¬String.utf8EncodeChar c <+: part)
    (hstop : ∀ b tail, rest = b :: tail → ∀ bytes, ¬Begins (part ++ b :: bytes)) :
    MaximalSubpart part rest where
  nonempty := hne
  begins := hbegins
  unreadable c hc := by
    rcases List.prefix_or_prefix_of_prefix hc (List.prefix_append part rest) with hle | ⟨s, hs⟩
    · exact hshort c hle
    · rw [← hs, List.prefix_append_right_inj] at hc
      cases s with
      | nil =>
        have hwhole : part = String.utf8EncodeChar c := by rw [← hs, List.append_nil]
        exact hshort c (hwhole ▸ List.prefix_refl _)
      | cons b s =>
        obtain ⟨tail, hrest⟩ := hc
        exact hstop b (s ++ tail) hrest.symm s ⟨c, hs ▸ List.prefix_refl _⟩
  longest bytes hbytes hbegins := by
    rcases List.prefix_or_prefix_of_prefix hbytes (List.prefix_append part rest) with hle | ⟨s, hs⟩
    · exact hle.length_le
    · rw [← hs, List.prefix_append_right_inj] at hbytes
      cases s with
      | nil =>
        have hwhole : bytes = part := by rw [← hs, List.append_nil]
        exact hwhole ▸ Nat.le_refl _
      | cons b s =>
        obtain ⟨tail, hrest⟩ := hbytes
        exact absurd (hs ▸ hbegins) (hstop b (s ++ tail) hrest.symm s)

theorem Midway.not_encodeChar (h : Midway part p) (c : Char) :
    ¬String.utf8EncodeChar c <+: part := by
  intro hc
  obtain ⟨c', hbegins⟩ := h.begins
  -- a character within the part would begin the one that the part begins
  obtain rfl := encodeChar_prefix_inj (hc.trans hbegins)
  have heq : part = String.utf8EncodeChar c :=
    hbegins.eq_of_length_le hc.length_le
  exact ((h.completed_iff [] c).1 (by rw [heq, List.append_nil])).ne_nil rfl

theorem Midway.maximal (h : Midway part p)
    (hrest : ∀ b tail, rest = b :: tail → ¬(p.low.toNat ≤ b.toNat ∧ b.toNat ≤ p.high.toNat)) :
    MaximalSubpart part rest := by
  refine maximalSubpart_of_stop h.nonempty (.inl h.begins) h.not_encodeChar ?_
  rintro b tail hb bytes ⟨c, s, hs⟩
  rw [List.append_assoc, List.cons_append] at hs
  exact hrest b tail hb ((h.completed_iff _ c).1 hs.symm).in_range

theorem not_begins_stray (h : 0x80 ≤ b.toNat ∧ b.toNat < 0xC2 ∨ 0xF5 ≤ b.toNat) :
    ¬Begins (b :: bytes) := by
  rintro ⟨c, s, hs⟩
  rcases completed_of_encode hs.symm with ⟨hb, -, -⟩ | ⟨p, hopen, -⟩
  · omega
  · exact hopen.not_stray h

theorem maximal_stray (h : 0x80 ≤ b.toNat ∧ b.toNat < 0xC2 ∨ 0xF5 ≤ b.toNat) :
    MaximalSubpart [b] rest := by
  refine maximalSubpart_of_stop (List.cons_ne_nil b []) (.inr rfl) ?_ ?_
  · intro c hc
    cases hbytes : String.utf8EncodeChar c with
    | nil => exact encodeChar_ne_nil c hbytes
    | cons x bytes =>
      rw [hbytes, List.cons_prefix_cons] at hc
      obtain ⟨rfl, -⟩ := hc
      exact not_begins_stray h ⟨c, [], by rw [hbytes, List.append_nil]⟩
  · exact fun _ _ _ bytes => not_begins_stray h

/-! ### The whole reading -/

theorem encodeChar_ascii (h : b.toNat < 0x80) :
    String.utf8EncodeChar (Char.ofNat b.toNat) = [b] := by
  have hpoint : (Char.ofNat b.toNat).toNat = b.toNat :=
    toNat_ofNat (.inl (Nat.lt_trans h (by decide)))
  rw [← Transcode.pointBytes_toNat, hpoint, Transcode.pointBytes_one h, UInt8.ofNat_toNat]

def Reads (d : Decoder) (bytes : List UInt8) (text : List Char) : Prop :=
  (bytes.foldl Decoder.feed d).finish = d.output.reverse ++ text

theorem Reads.of_emit {bytes : List UInt8} {text : List Char} {output : List Char}
    (h : Reads ⟨none, c :: output⟩ bytes text) :
    (bytes.foldl Decoder.feed ⟨none, c :: output⟩).finish = output.reverse ++ c :: text := by
  rw [h, List.reverse_cons, List.append_assoc, List.singleton_append]

/-- From between two sequences the rest is read as its bytes call for; within one, it is read with
the part before it. -/
theorem lossy_foldl (bytes : List UInt8) :
    (∀ output, ∃ text, Reads ⟨none, output⟩ bytes text ∧ Lossy bytes text) ∧
      ∀ output part p, Midway part p →
        ∃ text, Reads ⟨some p, output⟩ bytes text ∧ Lossy (part ++ bytes) text := by
  -- both at once: a sequence broken off gives its byte back to what follows
  induction bytes with
  | nil =>
    refine ⟨fun output => ⟨[], (List.append_nil _).symm, .nil⟩, fun output part p h => ?_⟩
    refine ⟨[replacement], List.reverse_cons, .subpart (h.maximal ?_) .nil⟩
    intro b tail hnil
    cases hnil
  | cons b bytes ih =>
    obtain ⟨hbetween, hwithin⟩ := ih
    have hnone : ∀ output, ∃ text, Reads ⟨none, output⟩ (b :: bytes) text ∧
        Lossy (b :: bytes) text := by
      intro output
      unfold Reads
      rw [List.foldl_cons, Decoder.feed_none]
      rcases Decoder.opening_cases b with hascii | hstray | ⟨p, hopen, hdue, hrange⟩
      · rw [Decoder.opening_ascii hascii]
        obtain ⟨text, hreads, hlossy⟩ := hbetween (Char.ofNat b.toNat :: output)
        refine ⟨Char.ofNat b.toNat :: text, hreads.of_emit, ?_⟩
        have hchar := hlossy.char (Char.ofNat b.toNat)
        rwa [encodeChar_ascii hascii] at hchar
      · rw [Decoder.opening_stray hstray]
        obtain ⟨text, hreads, hlossy⟩ := hbetween (replacement :: output)
        exact ⟨replacement :: text, hreads.of_emit, hlossy.subpart (maximal_stray hstray)⟩
      · rw [hopen output]
        exact hwithin output [b] p (midway_opening hopen hdue hrange)
    refine ⟨hnone, fun output part p h => ?_⟩
    unfold Reads
    by_cases hin : p.low.toNat ≤ b.toNat ∧ b.toNat ≤ p.high.toNat
    · rw [List.foldl_cons]
      by_cases hdue : p.due = 1
      · rw [Decoder.feed_last hin hdue]
        obtain ⟨text, hreads, hlossy⟩ :=
          hbetween (Char.ofNat (p.bits * 64 + b.toNat % 64) :: output)
        refine ⟨_, hreads.of_emit, ?_⟩
        have hchar := hlossy.char (Char.ofNat (p.bits * 64 + b.toNat % 64))
        rwa [h.last hin hdue, List.append_assoc] at hchar
      · rw [Decoder.feed_more hin hdue, List.append_cons]
        exact hwithin output (part ++ [b]) _ (h.more hin hdue)
    · -- the byte is read a second time, now as the start of what follows the part
      obtain ⟨text, hreads, hlossy⟩ := hnone (replacement :: output)
      refine ⟨replacement :: text, ?_, hlossy.subpart (h.maximal ?_)⟩
      · rw [List.foldl_cons, Decoder.feed_reject hin, ← Decoder.feed_none, ← List.foldl_cons]
        exact hreads.of_emit
      · rintro _ _ hcons
        obtain ⟨rfl, -⟩ := List.cons.inj hcons
        exact hin

theorem lossy_decode (bytes : List UInt8) : Lossy bytes (decode bytes) := by
  obtain ⟨text, hreads, hlossy⟩ := (lossy_foldl bytes).1 []
  have htext : decode bytes = text := hreads
  rwa [htext]

/-! ### There is only one reading -/

variable {part' rest' : List UInt8}

theorem MaximalSubpart.length_le (h : MaximalSubpart part rest)
    (h' : MaximalSubpart part' rest') (heq : part ++ rest = part' ++ rest') :
    part'.length ≤ part.length := by
  rcases h'.begins with hbegins | hone
  · exact h.longest part' (heq ▸ List.prefix_append part' rest') hbegins
  · rw [hone]
    exact List.length_pos_iff.2 h.nonempty

theorem MaximalSubpart.inj (h : MaximalSubpart part rest) (h' : MaximalSubpart part' rest')
    (heq : part ++ rest = part' ++ rest') : part = part' ∧ rest = rest' :=
  List.append_inj heq (Nat.le_antisymm (h'.length_le h heq.symm) (h.length_le h' heq))

theorem encodeChar_append_inj
    (heq : String.utf8EncodeChar c ++ rest = String.utf8EncodeChar c' ++ rest') :
    c = c' ∧ rest = rest' := by
  have hc : c = c' := by
    rcases List.prefix_or_prefix_of_prefix (List.prefix_append (String.utf8EncodeChar c) rest)
      (heq ▸ List.prefix_append (String.utf8EncodeChar c') rest') with h | h
    · exact encodeChar_prefix_inj h
    · exact (encodeChar_prefix_inj h).symm
  subst hc
  exact ⟨rfl, List.append_cancel_left heq⟩

theorem Lossy.unique {text text' : List Char} (h : Lossy bytes text) (h' : Lossy bytes text') :
    text = text' := by
  induction h generalizing text' with
  | nil =>
    generalize hbytes : ([] : List UInt8) = bytes at h'
    cases h' with
    | nil => rfl
    | char c h' => exact absurd (List.append_eq_nil_iff.1 hbytes.symm).1 (encodeChar_ne_nil c)
    | subpart hpart h' => exact absurd (List.append_eq_nil_iff.1 hbytes.symm).1 hpart.nonempty
  | @char rest text c h ih =>
    generalize hbytes : String.utf8EncodeChar c ++ rest = bytes at h'
    cases h' with
    | nil => exact absurd (List.append_eq_nil_iff.1 hbytes).1 (encodeChar_ne_nil c)
    | char c' h' =>
      obtain ⟨rfl, rfl⟩ := encodeChar_append_inj hbytes
      rw [ih h']
    | subpart hpart h' => exact absurd (hbytes ▸ List.prefix_append _ rest) (hpart.unreadable c)
  | @subpart part rest text hpart h ih =>
    generalize hbytes : part ++ rest = bytes at h'
    cases h' with
    | nil => exact absurd (List.append_eq_nil_iff.1 hbytes).1 hpart.nonempty
    | @char rest' text' c' h' =>
      exact absurd (hbytes ▸ List.prefix_append _ rest') (hpart.unreadable c')
    | subpart hpart' h' =>
      obtain ⟨rfl, rfl⟩ := hpart.inj hpart' hbytes
      rw [ih h']

theorem lossy_iff {text : List Char} : Lossy bytes text ↔ text = decode bytes := by
  constructor
  · exact fun h => h.unique (lossy_decode bytes)
  · rintro rfl
    exact lossy_decode bytes

end SplitEditor.Utf8
