import SplitEditor.Proofs.Editor.Ranges

/-! Columns counted in characters and columns counted in bytes are adjoint to each other. Behind
its end a line goes on with columns of one character and one byte, so that both countings are
countings of one endless line. -/

namespace SplitEditor

def padded (text : List Char) (room : Nat) : List Char := text ++ List.replicate room ' '

def excessBytes (text : List Char) : Nat := Utf8.byteLength text - text.length

section Counting
variable {text : List Char} {n k room : Nat}

theorem byteLength_replicate (n : Nat) : Utf8.byteLength (List.replicate n ' ') = n := by
  rw [Utf8.byteLength_eq_length fun c hc => ?_, List.length_replicate]
  rw [List.eq_of_mem_replicate hc]
  rfl

theorem charsWithin_le_length (text : List Char) (k : Nat) : charsWithin text k ≤ text.length := by
  induction text generalizing k with
  | nil => exact Nat.le_refl 0
  | cons c text ih =>
    rw [charsWithin]
    split
    · exact Nat.succ_le_succ (ih _)
    · exact Nat.zero_le _

theorem byteLength_take_le_iff (h : n ≤ text.length) :
    Utf8.byteLength (text.take n) ≤ k ↔ n ≤ charsWithin text k := by
  induction text generalizing n k with
  | nil =>
    obtain rfl := Nat.le_zero.1 h
    exact iff_of_true (Nat.zero_le _) (Nat.zero_le _)
  | cons c text ih =>
    cases n with
    | zero => exact iff_of_true (Nat.zero_le _) (Nat.zero_le _)
    | succ n =>
      rw [List.take_succ_cons, Utf8.byteLength_cons, charsWithin]
      have hrest := ih (n := n) (k := k - c.utf8Size) (Nat.le_of_succ_le_succ h)
      split
      · rw [Nat.succ_le_succ_iff, ← hrest]
        omega
      · omega

theorem charsWithin_mono (text : List Char) {k k' : Nat} (h : k ≤ k') :
    charsWithin text k ≤ charsWithin text k' := by
  have hlength := charsWithin_le_length text k
  have hbytes := (byteLength_take_le_iff hlength).2 (Nat.le_refl _)
  exact (byteLength_take_le_iff hlength).1 (Nat.le_trans hbytes h)

theorem byteLength_take_mono (text : List Char) {n n' : Nat} (h : n ≤ n') :
    Utf8.byteLength (text.take n) ≤ Utf8.byteLength (text.take n') := by
  obtain ⟨rest, hrest⟩ := List.take_prefix_take_left h (l := text)
  rw [← hrest, Utf8.byteLength_append]
  exact Nat.le_add_right _ _

theorem charsWithin_le (text : List Char) (k : Nat) : charsWithin text k ≤ k := by
  have hlength := charsWithin_le_length text k
  have hbytes := (byteLength_take_le_iff hlength).2 (Nat.le_refl _)
  have hchars := Utf8.length_le_byteLength (text.take (charsWithin text k))
  rw [List.length_take, Nat.min_eq_left hlength] at hchars
  exact Nat.le_trans hchars hbytes

theorem charsWithin_byteLength_take (h : n ≤ text.length) :
    charsWithin text (Utf8.byteLength (text.take n)) = n := by
  have hsplit := charsWithin_append (text.take n) (text.drop n)
  rwa [List.take_append_drop, List.length_take, Nat.min_eq_left h] at hsplit

theorem charsWithin_append_of_lt (h : k < Utf8.byteLength text) (rest : List Char) :
    charsWithin (text ++ rest) k = charsWithin text k := by
  induction text generalizing k with
  | nil => exact absurd h (Nat.not_lt_zero k)
  | cons c text ih =>
    rw [List.cons_append, charsWithin, charsWithin]
    split
    · rw [ih (by rw [Utf8.byteLength_cons] at h; omega)]
    · rfl

theorem length_padded : (padded text room).length = text.length + room := by
  rw [padded, List.length_append, List.length_replicate]

theorem byteLength_take_padded (h : n ≤ room) : Utf8.byteLength ((padded text room).take n) =
    Utf8.byteLength (text.take n) + (n - text.length) := by
  rw [padded, List.take_append, Utf8.byteLength_append, List.take_replicate, byteLength_replicate,
    Nat.min_eq_left (by omega)]

theorem charsWithin_padded_of_le (h : Utf8.byteLength text ≤ k) (hroom : k ≤ room) :
    charsWithin (padded text room) k = text.length + (k - Utf8.byteLength text) := by
  have hchars := Utf8.length_le_byteLength text
  have hk : Utf8.byteLength
      ((padded text room).take (text.length + (k - Utf8.byteLength text))) = k := by
    rw [byteLength_take_padded (by omega), List.take_of_length_le (Nat.le_add_right _ _)]
    omega
  have hfits : text.length + (k - Utf8.byteLength text) ≤ (padded text room).length := by
    rw [length_padded]
    omega
  have hcount := charsWithin_byteLength_take hfits
  rwa [hk] at hcount

end Counting

theorem toNat_saturate_eq_min (n : Nat) : (saturate n).toNat = min n 0xFFFFFFFF := by
  have hmin : min n 0xFFFFFFFF < UInt32.size := by
    rw [show UInt32.size = 4294967296 from rfl]
    omega
  rw [saturate, UInt32.toNat_ofNat_of_lt' hmin]

theorem saturate_mono {n m : Nat} (h : n ≤ m) : saturate n ≤ saturate m := by
  rw [UInt32.le_iff_toNat_le, toNat_saturate_eq_min, toNat_saturate_eq_min]
  omega

namespace SourceLines
variable {l : SourceLines} {line column : UInt32} {text : List Char} {room : Nat}

theorem byteColumn_padded (hline : l.line? line = some text) (hroom : column.toNat ≤ room) :
    l.byteColumn line column =
      saturate (Utf8.byteLength ((padded text room).take (column.toNat - 1)) + 1) := by
  rw [byteColumn, hline, byteLength_take_padded (by omega)]
  simp only [List.length_take]
  congr 2
  omega

theorem toNat_charColumn_padded (hline : l.line? line = some text) (hroom : column.toNat ≤ room) :
    (l.charColumn line column).toNat = charsWithin (padded text room) (column.toNat - 1) + 1 := by
  have hlt := column.toNat_lt
  have hfits : charsWithin (padded text room) (column.toNat - 1) + 1 < UInt32.size := by
    have hle := charsWithin_le (padded text room) (column.toNat - 1)
    rw [show UInt32.size = 2 ^ 32 from rfl]
    omega
  rw [charColumn, hline]
  simp only
  split
  · next hpast =>
    rw [← charsWithin_padded_of_le hpast (show column.toNat - 1 ≤ room by omega),
      toNat_saturate hfits]
  · next hwithin =>
    rw [← charsWithin_append_of_lt (Nat.lt_of_not_le hwithin) (List.replicate room ' ')]
    exact toNat_saturate hfits

end SourceLines

def Range.IsOrdered (r : Range) : Prop :=
  r.startLine < r.endLine ∨ r.startLine = r.endLine ∧ r.startColumn ≤ r.endColumn

/-- The column in bytes fits a word: so many characters, and the bytes that those before it take
beyond one each. -/
def ColumnFits (text : List Char) (column : UInt32) : Prop :=
  column.toNat + excessBytes (text.take (column.toNat - 1)) ≤ 0xFFFFFFFF

instance (text : List Char) (column : UInt32) : Decidable (ColumnFits text column) :=
  inferInstanceAs (Decidable (_ ≤ _))

/-- The columns of lines in bytes and in characters, each the best answer to the other. -/
structure ColumnsAdjoint (l : SourceLines) : Prop where
  byteColumn_le_iff : ∀ line text c b, l.line? line = some text → 1 ≤ c → 1 ≤ b →
    ColumnFits text c → (l.byteColumn line c ≤ b ↔ c ≤ l.charColumn line b)
  charColumn_byteColumn : ∀ line text c, l.line? line = some text → 1 ≤ c → ColumnFits text c →
    l.charColumn line (l.byteColumn line c) = c
  byteColumn_le_byteColumn : ∀ line c c', c ≤ c' → l.byteColumn line c ≤ l.byteColumn line c'
  charColumn_le_charColumn : ∀ line b b', b ≤ b' → l.charColumn line b ≤ l.charColumn line b'
  /-- No column in characters is cut down: it is the exact number. -/
  toNat_charColumn : ∀ line text b, l.line? line = some text →
    (l.charColumn line b).toNat = charsWithin (padded text b.toNat) (b.toNat - 1) + 1
  toRange_ordered : ∀ span, span.isOrdered → (l.toRange span).IsOrdered

namespace SourceLines
variable {l : SourceLines} {line c b : UInt32} {text : List Char}

theorem byteColumn_le_of_le {c' : UInt32} (h : c ≤ c') :
    l.byteColumn line c ≤ l.byteColumn line c' := by
  cases hline : l.line? line with
  | none => rwa [byteColumn, byteColumn, hline]
  | some text =>
    have hle := UInt32.le_iff_toNat_le.1 h
    rw [byteColumn_padded hline hle, byteColumn_padded hline (Nat.le_refl _)]
    have hbytes := byteLength_take_mono (padded text c'.toNat)
      (show c.toNat - 1 ≤ c'.toNat - 1 by omega)
    exact saturate_mono (Nat.succ_le_succ hbytes)

theorem charColumn_le_of_le {b' : UInt32} (h : b ≤ b') :
    l.charColumn line b ≤ l.charColumn line b' := by
  cases hline : l.line? line with
  | none => rwa [charColumn, charColumn, hline]
  | some text =>
    have hle := UInt32.le_iff_toNat_le.1 h
    rw [UInt32.le_iff_toNat_le, toNat_charColumn_padded hline hle,
      toNat_charColumn_padded hline (Nat.le_refl _)]
    have hchars := charsWithin_mono (padded text b'.toNat)
      (show b.toNat - 1 ≤ b'.toNat - 1 by omega)
    exact Nat.succ_le_succ hchars

theorem toRange_isOrdered {span : Span} (h : span.isOrdered) : (l.toRange span).IsOrdered := by
  simp only [Span.isOrdered, Bool.or_eq_true, Bool.and_eq_true, decide_eq_true_eq,
    beq_iff_eq] at h
  rcases h with hline | ⟨hline, hcolumn⟩
  · exact .inl hline
  · refine .inr ⟨hline, ?_⟩
    rw [toRange, ← hline]
    exact charColumn_le_of_le hcolumn

theorem toNat_byteColumn_padded {room : Nat} (hline : l.line? line = some text)
    (hroom : c.toNat ≤ room) (hc : 1 ≤ c) (hfits : ColumnFits text c) :
    (l.byteColumn line c).toNat =
      Utf8.byteLength ((padded text room).take (c.toNat - 1)) + 1 := by
  have hpos : 1 ≤ c.toNat := UInt32.le_iff_toNat_le.1 hc
  have hchars := Utf8.length_le_byteLength (text.take (c.toNat - 1))
  rw [byteColumn_padded hline hroom, toNat_saturate_eq_min,
    byteLength_take_padded (by omega)]
  rw [ColumnFits, excessBytes] at hfits
  rw [List.length_take] at hchars hfits
  omega

theorem byteColumn_le_iff (hline : l.line? line = some text) (hc : 1 ≤ c) (hb : 1 ≤ b)
    (hfits : ColumnFits text c) : l.byteColumn line c ≤ b ↔ c ≤ l.charColumn line b := by
  have hcpos : 1 ≤ c.toNat := UInt32.le_iff_toNat_le.1 hc
  have hbpos : 1 ≤ b.toNat := UInt32.le_iff_toNat_le.1 hb
  -- one room that is wide enough for both countings
  have hcroom : c.toNat ≤ c.toNat + b.toNat := Nat.le_add_right _ _
  have hbroom : b.toNat ≤ c.toNat + b.toNat := Nat.le_add_left _ _
  have hlength : c.toNat - 1 ≤ (padded text (c.toNat + b.toNat)).length := by
    rw [length_padded]
    omega
  have hadjoint := byteLength_take_le_iff (k := b.toNat - 1) hlength
  rw [UInt32.le_iff_toNat_le, UInt32.le_iff_toNat_le,
    toNat_byteColumn_padded hline hcroom hc hfits, toNat_charColumn_padded hline hbroom]
  omega

theorem charColumn_byteColumn (hline : l.line? line = some text) (hc : 1 ≤ c)
    (hfits : ColumnFits text c) : l.charColumn line (l.byteColumn line c) = c := by
  have hpos : 1 ≤ c.toNat := UInt32.le_iff_toNat_le.1 hc
  have hcroom : c.toNat ≤ c.toNat + (l.byteColumn line c).toNat := Nat.le_add_right _ _
  have hbroom : (l.byteColumn line c).toNat ≤ c.toNat + (l.byteColumn line c).toNat :=
    Nat.le_add_left _ _
  have hlength : c.toNat - 1 ≤
      (padded text (c.toNat + (l.byteColumn line c).toNat)).length := by
    rw [length_padded]
    omega
  have hcount := charsWithin_byteLength_take hlength
  have hbytes := toNat_byteColumn_padded hline hcroom hc hfits
  rw [← UInt32.toNat_inj, toNat_charColumn_padded hline hbroom,
    show (l.byteColumn line c).toNat - 1 = _ from by rw [hbytes, Nat.add_sub_cancel], hcount]
  omega

end SourceLines

/-- Whatever the source, its two kinds of columns are adjoint wherever the one in bytes fits a
word, and both follow the order of columns everywhere. -/
theorem columns_adjoint (source : String) : ColumnsAdjoint (SourceLines.ofSource source) where
  byteColumn_le_iff _ _ _ _ hline hc hb hfits :=
    SourceLines.byteColumn_le_iff hline hc hb hfits
  charColumn_byteColumn _ _ _ hline hc hfits :=
    SourceLines.charColumn_byteColumn hline hc hfits
  byteColumn_le_byteColumn _ _ _ := SourceLines.byteColumn_le_of_le
  charColumn_le_charColumn _ _ _ := SourceLines.charColumn_le_of_le
  toNat_charColumn _ _ _ hline := SourceLines.toNat_charColumn_padded hline (Nat.le_refl _)
  toRange_ordered _ := SourceLines.toRange_isOrdered

/-- On a line with characters of two and four bytes: inside a character, and behind the end. -/
theorem columns_adjoint_wide :
    let l := SourceLines.ofSource "x\né𝄞"
    l.line? 2 = some ['é', '𝄞'] ∧ ColumnFits ['é', '𝄞'] 3 ∧ ColumnFits ['é', '𝄞'] 5 ∧
      (l.byteColumn 2 3 ≤ 5 ↔ 3 ≤ l.charColumn 2 5) ∧ l.charColumn 2 (l.byteColumn 2 5) = 5 ∧
      (l.toRange ⟨2, 0, 2, 5⟩).IsOrdered := by
  intro l
  have hline : l.line? 2 = some ['é', '𝄞'] := by decide
  have h := columns_adjoint "x\né𝄞"
  exact ⟨hline, by decide, by decide,
    h.byteColumn_le_iff 2 _ 3 5 hline (by decide) (by decide) (by decide),
    h.charColumn_byteColumn 2 _ 5 hline (by decide) (by decide),
    h.toRange_ordered ⟨2, 0, 2, 5⟩ (by decide)⟩

end SplitEditor
