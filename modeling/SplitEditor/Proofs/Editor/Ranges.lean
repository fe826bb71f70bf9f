import SplitEditor.Editor.SourceLines
import SplitEditor.Proofs.Text.Cut

/-! A range shown in an editor selects the text that the span it was made from does. One counts
characters, the other bytes, so the text is cut once in each alphabet, by one and the same rule. -/

namespace SplitEditor

variable {α : Type} [DecidableEq α]

def lineStart? (newline : α) : List α → Nat → Option Nat
  | _, 0 => some 0
  | [], _ + 1 => none
  | x :: rest, n + 1 => (lineStart? newline rest (if x = newline then n else n + 1)).map (· + 1)

def offset? (newline : α) (text : List α) (line column : Nat) : Option Nat :=
  if line = 0 ∨ column = 0 then none
  else (lineStart? newline text (line - 1)).map (· + (column - 1))

def select? (newline : α) (text : List α) (lineFrom columnFrom lineTo columnTo : Nat) :
    Option (List α) := do
  cut? text (← offset? newline text lineFrom columnFrom) (← offset? newline text lineTo columnTo)

/-- The line is there, and the column is that of a byte before one of its characters, or the one
past its end. -/
def OnBoundary (text : List Char) (line column : UInt32) : Prop :=
  ∃ n before after, line.toNat = n + 1 ∧ (text.splitOn '\n')[n]? = some (before ++ after) ∧
    column.toNat = Utf8.byteLength before + 1

/-! ### Lines -/

def ended (newline : α) (lines : List (List α)) : List α := lines.flatMap (· ++ [newline])

theorem lineStart?_append {newline : α} {line : List α} (h : newline ∉ line) (rest : List α)
    (n : Nat) : lineStart? newline (line ++ newline :: rest) (n + 1) =
      (lineStart? newline rest n).map (· + (line.length + 1)) := by
  induction line with
  | nil => rw [List.nil_append, lineStart?, if_pos rfl, List.length_nil]
  | cons x line ih =>
    obtain ⟨hx, hline⟩ := List.ne_and_not_mem_of_not_mem_cons h
    rw [List.cons_append, lineStart?, if_neg (Ne.symm hx), ih hline, Option.map_map]
    rfl

theorem lineStart?_ended {newline : α} {lines : List (List α)} (h : ∀ line ∈ lines, newline ∉ line)
    (rest : List α) : lineStart? newline (ended newline lines ++ rest) lines.length =
      some (ended newline lines).length := by
  induction lines with
  | nil => cases rest <;> rfl
  | cons line lines ih =>
    have hline := h line List.mem_cons_self
    have htext : ended newline (line :: lines) ++ rest =
        line ++ newline :: (ended newline lines ++ rest) := by simp [ended]
    rw [htext, List.length_cons, lineStart?_append hline,
      ih fun l hl => h l (List.mem_cons_of_mem _ hl)]
    simp only [ended, List.flatMap_cons, List.length_append, List.length_singleton,
      Option.map_some, Nat.add_comm]

theorem encode_ended (lines : List (List Char)) :
    Utf8.encode (ended '\n' lines) = ended 10 (lines.map Utf8.encode) := by
  induction lines with
  | nil => rfl
  | cons line lines ih =>
    have hnewline : Utf8.encode ['\n'] = [10] := by decide
    simp only [ended, List.flatMap_cons, List.map_cons, Utf8.encode_append, hnewline] at ih ⊢
    rw [ih]

theorem newline_not_mem_encode {line : List Char} (h : '\n' ∉ line) : 10 ∉ Utf8.encode line := by
  intro hmem
  obtain ⟨c, hc, hb⟩ := List.mem_flatMap.1 hmem
  have heq : c.toNat = '\n'.toNat := Utf8.eq_of_mem_encodeChar hb (by decide)
  exact h (Char.toNat_inj.1 heq ▸ hc)

theorem splitLines_cons (c : Char) (text : List Char) :
    splitLines (c :: text) =
      if c = '\n' then [] :: splitLines text else (splitLines text).modifyHead (c :: ·) := rfl

theorem splitLines_eq_splitOn (text : List Char) : splitLines text = text.splitOn '\n' := by
  induction text with
  | nil => rfl
  | cons c text ih =>
    rw [splitLines_cons, ih, List.splitOn_cons_eq_if_modifyHead]
    simp only [beq_iff_eq]

/-! ### Places -/

/-- A place on a line: the lines above it, what stands before it on its line, and what follows. -/
structure Place (text : List Char) (above : List (List Char)) (before after : List Char) :
    Prop where
  unbroken : ∀ line ∈ before :: above, '\n' ∉ line
  text_eq : text = ended '\n' above ++ (before ++ after)

theorem exists_place {text before after : List Char} {n : Nat}
    (h : (text.splitOn '\n')[n]? = some (before ++ after)) :
    ∃ above rest, above.length = n ∧ Place text above before rest := by
  induction n generalizing text with
  | zero =>
    by_cases hmem : '\n' ∈ text
    · obtain ⟨line, rest, rfl, hline⟩ := List.eq_append_cons_of_mem hmem
      rw [List.splitOn_append_cons_self_of_not_mem hline] at h
      obtain rfl := Option.some.inj h
      refine ⟨[], after ++ '\n' :: rest, rfl, ?_, by simp [ended]⟩
      exact List.forall_mem_singleton.2 fun hb => hline (List.mem_append_left _ hb)
    · rw [List.splitOn_eq_singleton hmem] at h
      obtain rfl := Option.some.inj h
      refine ⟨[], after, rfl, ?_, by simp [ended]⟩
      exact List.forall_mem_singleton.2 fun hb => hmem (List.mem_append_left _ hb)
  | succ n ih =>
    by_cases hmem : '\n' ∈ text
    · obtain ⟨line, rest, rfl, hline⟩ := List.eq_append_cons_of_mem hmem
      rw [List.splitOn_append_cons_self_of_not_mem hline] at h
      obtain ⟨above, rest', hlength, hplace⟩ := ih h
      obtain ⟨hbefore, habove⟩ := List.forall_mem_cons.1 hplace.unbroken
      refine ⟨line :: above, rest', by rw [List.length_cons, hlength], ?_, ?_⟩
      · exact List.forall_mem_cons.2 ⟨hbefore, List.forall_mem_cons.2 ⟨hline, habove⟩⟩
      · simp [ended, hplace.text_eq]
    · rw [List.splitOn_eq_singleton hmem] at h
      cases h

namespace Place
variable {text before after before' after' : List Char} {above above' : List (List Char)}

def head (above : List (List Char)) (before : List Char) : List Char := ended '\n' above ++ before

theorem text_eq_head (h : Place text above before after) : text = head above before ++ after := by
  rw [head, List.append_assoc]
  exact h.text_eq

theorem offset?_chars (h : Place text above before after) :
    offset? '\n' text (above.length + 1) (before.length + 1) =
      some (head above before).length := by
  have habove := (List.forall_mem_cons.1 h.unbroken).2
  rw [offset?, if_neg (by omega), Nat.add_sub_cancel, Nat.add_sub_cancel, h.text_eq,
    lineStart?_ended habove, Option.map_some, head, List.length_append]

theorem offset?_bytes (h : Place text above before after) :
    offset? 10 (Utf8.encode text) (above.length + 1) (Utf8.byteLength before + 1) =
      some (Utf8.byteLength (head above before)) := by
  have habove : ∀ line ∈ above.map Utf8.encode, 10 ∉ line := by
    intro line hline
    obtain ⟨chars, hchars, rfl⟩ := List.mem_map.1 hline
    exact newline_not_mem_encode (h.unbroken chars (List.mem_cons_of_mem _ hchars))
  have hstart := lineStart?_ended habove (Utf8.encode (before ++ after))
  rw [← encode_ended, ← Utf8.encode_append, ← h.text_eq, List.length_map, Utf8.length_encode]
    at hstart
  rw [offset?, if_neg (by omega), Nat.add_sub_cancel, Nat.add_sub_cancel, hstart,
    Option.map_some, head, Utf8.byteLength_append]

theorem count_head (h : Place text above before after) :
    (head above before).count '\n' = above.length := by
  obtain ⟨hbefore, habove⟩ := List.forall_mem_cons.1 h.unbroken
  rw [head, List.count_append, List.count_eq_zero_of_not_mem hbefore, Nat.add_zero]
  clear h hbefore
  induction above with
  | nil => rfl
  | cons line above ih =>
    obtain ⟨hline, habove⟩ := List.forall_mem_cons.1 habove
    have ih := ih habove
    simp only [ended, List.flatMap_cons, List.count_append, List.length_cons,
      List.count_eq_zero_of_not_mem hline, List.count_singleton_self] at ih ⊢
    omega

theorem byteLength_head_le (h : Place text above before after)
    (h' : Place text above' before' after') (habove : above.length = above'.length)
    (hbefore : Utf8.byteLength before ≤ Utf8.byteLength before') :
    Utf8.byteLength (head above before) ≤ Utf8.byteLength (head above' before') := by
  have hstart := h.offset?_bytes
  have hstart' := h'.offset?_bytes
  rw [offset?, if_neg (by omega), Nat.add_sub_cancel, Nat.add_sub_cancel] at hstart hstart'
  rw [habove] at hstart
  obtain ⟨n, hn, heq⟩ := Option.map_eq_some_iff.1 hstart
  obtain ⟨m, hm, heq'⟩ := Option.map_eq_some_iff.1 hstart'
  obtain rfl := Option.some.inj (hn.symm.trans hm)
  omega

theorem head_prefix (h : Place text above before after) (h' : Place text above' before' after')
    (hordered : above.length < above'.length ∨ above.length = above'.length ∧
      Utf8.byteLength before ≤ Utf8.byteLength before') :
    head above before <+: head above' before' := by
  have hp : head above before <+: text := ⟨after, h.text_eq_head.symm⟩
  have hp' : head above' before' <+: text := ⟨after', h'.text_eq_head.symm⟩
  rcases List.prefix_or_prefix_of_prefix hp hp' with hle | ⟨rest, hrest⟩
  · exact hle
  · have hcount := congrArg (List.count '\n') hrest
    rw [List.count_append, h.count_head, h'.count_head] at hcount
    obtain ⟨habove, hbefore⟩ : above.length = above'.length ∧
        Utf8.byteLength before ≤ Utf8.byteLength before' := by omega
    -- nothing can stand between them
    have hbytes := h.byteLength_head_le h' habove hbefore
    have hlength := Utf8.length_le_byteLength rest
    rw [← hrest, Utf8.byteLength_append] at hbytes
    have hnil : rest = [] := List.eq_nil_of_length_eq_zero (by omega)
    exact ⟨[], by rw [← hrest, hnil, List.append_nil, List.append_nil]⟩

end Place

/-! ### Columns -/

theorem charsWithin_append (before after : List Char) :
    charsWithin (before ++ after) (Utf8.byteLength before) = before.length := by
  induction before with
  | nil =>
    cases after with
    | nil => rfl
    | cons c after =>
      have hpos := c.utf8Size_pos
      exact if_neg (by simp only [Utf8.byteLength, List.foldr_nil]; omega)
  | cons c before ih =>
    rw [List.cons_append, charsWithin, Utf8.byteLength_cons, if_pos (Nat.le_add_right _ _),
      Nat.add_sub_cancel_left, ih, List.length_cons]

theorem toNat_saturate {n : Nat} (h : n < UInt32.size) : (saturate n).toNat = n := by
  rw [saturate, Nat.min_eq_left (Nat.le_of_lt_succ h), UInt32.toNat_ofNat_of_lt' h]

namespace SourceLines
variable {l : SourceLines} {line column : UInt32} {before after : List Char}

theorem toNat_charColumn (hline : l.line? line = some (before ++ after))
    (hcolumn : column.toNat = Utf8.byteLength before + 1) :
    (l.charColumn line column).toNat = before.length + 1 := by
  have hle := Utf8.length_le_byteLength before
  have hlt := column.toNat_lt
  have hfits : before.length + 1 < UInt32.size := by
    rw [show UInt32.size = 2 ^ 32 from rfl]
    omega
  have hoffset : column.toNat - 1 = Utf8.byteLength before := by omega
  rw [charColumn, hline]
  simp only [hoffset, Utf8.byteLength_append, List.length_append]
  split
  · next hend =>
    -- the place is the end of the line
    have hafter := Utf8.length_le_byteLength after
    have hcount : before.length + after.length +
        (Utf8.byteLength before - (Utf8.byteLength before + Utf8.byteLength after)) + 1 =
          before.length + 1 := by omega
    rw [hcount, toNat_saturate hfits]
  · rw [charsWithin_append, toNat_saturate hfits]

theorem byteColumn_eq {c : UInt32} (hline : l.line? line = some (before ++ after))
    (hcolumn : column.toNat = Utf8.byteLength before + 1) (hc : c.toNat = before.length + 1) :
    l.byteColumn line c = column := by
  have hwanted : c.toNat - 1 = before.length := by omega
  rw [byteColumn, hline]
  simp only [hwanted, List.take_left, Nat.sub_self, Nat.add_zero, ← hcolumn]
  rw [← UInt32.toNat_inj, toNat_saturate column.toNat_lt]

theorem line?_ofSource {source : String} {n : Nat} (hn : line.toNat = n + 1) :
    (ofSource source).line? line = (source.toList.splitOn '\n')[n]? := by
  have hne : line ≠ 0 := by
    rintro rfl
    cases hn
  rw [line?, if_neg hne, hn, Nat.add_sub_cancel, ofSource, splitLines_eq_splitOn]

end SourceLines

/-- A range selects the text that the span it was made from does, cut out of the bytes, and its
columns lead back to the span's. -/
theorem toRange_selects (source : String) (span : Span) (hordered : span.isOrdered)
    (hfrom : OnBoundary source.toList span.lineFrom span.columnFrom)
    (hto : OnBoundary source.toList span.lineTo span.columnTo) :
    let lines := SourceLines.ofSource source
    let range := lines.toRange span
    (∃ piece,
      select? 10 (Utf8.encode source.toList) span.lineFrom.toNat span.columnFrom.toNat
        span.lineTo.toNat span.columnTo.toNat = some (Utf8.encode piece) ∧
      select? '\n' source.toList range.startLine.toNat range.startColumn.toNat
        range.endLine.toNat range.endColumn.toNat = some piece) ∧
    lines.byteColumn range.startLine range.startColumn = span.columnFrom ∧
    lines.byteColumn range.endLine range.endColumn = span.columnTo := by
  intro lines range
  obtain ⟨n, before, after, hn, hline, hcolumn⟩ := hfrom
  obtain ⟨n', before', after', hn', hline', hcolumn'⟩ := hto
  obtain ⟨above, rest, rfl, hplace⟩ := exists_place hline
  obtain ⟨above', rest', rfl, hplace'⟩ := exists_place hline'
  rw [← SourceLines.line?_ofSource hn] at hline
  rw [← SourceLines.line?_ofSource hn'] at hline'
  have hchar : range.startColumn.toNat = before.length + 1 :=
    SourceLines.toNat_charColumn hline hcolumn
  have hchar' : range.endColumn.toNat = before'.length + 1 :=
    SourceLines.toNat_charColumn hline' hcolumn'
  refine ⟨?_, SourceLines.byteColumn_eq hline hcolumn hchar,
    SourceLines.byteColumn_eq hline' hcolumn' hchar'⟩
  have horder : above.length < above'.length ∨ above.length = above'.length ∧
      Utf8.byteLength before ≤ Utf8.byteLength before' := by
    simp only [Span.isOrdered, Bool.or_eq_true, Bool.and_eq_true, decide_eq_true_eq, beq_iff_eq,
      UInt32.lt_iff_toNat_lt, UInt32.le_iff_toNat_le, ← UInt32.toNat_inj] at hordered
    omega
  obtain ⟨piece, hpiece⟩ := hplace.head_prefix hplace' horder
  have htext : source.toList = Place.head above before ++ (piece ++ rest') := by
    rw [← List.append_assoc, hpiece]
    exact hplace'.text_eq_head
  refine ⟨piece, ?_, ?_⟩
  · rw [select?, hn, hn', hcolumn, hcolumn', hplace.offset?_bytes, hplace'.offset?_bytes]
    exact Utf8.cut?_encode htext rfl (by rw [← hpiece, Utf8.byteLength_append])
  · rw [select?, show range.startLine.toNat = _ from hn, show range.endLine.toNat = _ from hn',
      hchar, hchar', hplace.offset?_chars, hplace'.offset?_chars]
    exact cut?_append htext rfl (by rw [← hpiece, List.length_append])

/-- A span over a line break, from behind a character of two bytes to behind one of three. -/
theorem toRange_selects_across :
    let source := "é𝄞 x\nfals €"
    let lines := SourceLines.ofSource source
    let span : Span := ⟨1, 3, 2, 9⟩
    span.isOrdered ∧ OnBoundary source.toList 1 3 ∧ OnBoundary source.toList 2 9 ∧
      lines.toRange span = ⟨1, 2, 2, 7⟩ ∧
      (∃ piece, select? 10 (Utf8.encode source.toList) 1 3 2 9 = some (Utf8.encode piece) ∧
        select? '\n' source.toList 1 2 2 7 = some piece) ∧
      lines.byteColumn 1 2 = 3 ∧ lines.byteColumn 2 7 = 9 := by
  intro source lines span
  have hordered : span.isOrdered := by decide
  have hfrom : OnBoundary source.toList 1 3 :=
    ⟨0, ['é'], ['𝄞', ' ', 'x'], by decide, by decide, by decide⟩
  have hto : OnBoundary source.toList 2 9 :=
    ⟨1, ['f', 'a', 'l', 's', ' ', '€'], [], by decide, by decide, by decide⟩
  have hrange : lines.toRange span = ⟨1, 2, 2, 7⟩ := by decide
  have h := toRange_selects source span hordered hfrom hto
  simp only [lines] at hrange
  simp only [hrange] at h
  exact ⟨hordered, hfrom, hto, hrange, h⟩

end SplitEditor
