import Mathlib.Data.Bool.AllAny
import Mathlib.Data.List.TakeWhile
import SplitEditor.Highlight.Theme
import SplitEditor.Proofs.Highlight.Digits

/-! Colours as text: which texts are read as a colour, and what is written for it then. -/

namespace SplitEditor.Color

open Pattern

inductive IsComponent : Char → Char → Prop
  | digits {high low : Char} (hhigh : high ∈ hexDigits) (hlow : low ∈ hexDigits) :
    IsComponent high low
  | plus {low : Char} (hlow : low ∈ hexDigits) : IsComponent '+' low

def written (d : Char) : Char := if d = '+' then '0' else d.toUpper

variable {c : Color} {v w : UInt8} {high low : Char} {text : List Char}

/-! ### Digits -/

theorem exists_hexValue :
    ∀ d ∈ hexDigits, ∃ n < 16, hexValue? d = some n ∧ upperDigit n = written d :=
  List.all_iff_forall_prop.1 (by decide)

theorem hexValue?_of_not_mem (h : low ∉ hexDigits) : hexValue? low = none := by
  rw [← isHexDigit_iff_mem] at h
  simp only [isHexDigit, Bool.or_eq_true, Bool.and_eq_true, decide_eq_true_eq, not_or] at h
  obtain ⟨⟨hdigit, hlower⟩, hupper⟩ := h
  rw [hexValue?, if_neg hdigit, if_neg hlower, if_neg hupper]

theorem upperDigit_inj : ∀ m < 16, ∀ n < 16, upperDigit m = upperDigit n → m = n := by decide

theorem componentDigits_ofNat {m n : Nat} (hm : m < 16) (hn : n < 16) :
    componentDigits (UInt8.ofNat (m * 16 + n)) = [upperDigit m, upperDigit n] := by
  have htoNat : (UInt8.ofNat (m * 16 + n)).toNat = m * 16 + n :=
    UInt8.toNat_ofNat_of_lt' (show m * 16 + n < 256 by omega)
  have hdiv : (m * 16 + n) / 16 = m := by omega
  have hmod : (m * 16 + n) % 16 = n := by omega
  rw [componentDigits, htoNat, hdiv, hmod]

theorem componentDigits_inj (h : componentDigits v = componentDigits w) : v = w := by
  have hv := v.toNat_lt
  have hw := w.toNat_lt
  obtain ⟨hhigh, h⟩ := List.cons.inj h
  obtain ⟨hlow, -⟩ := List.cons.inj h
  have hdiv := upperDigit_inj _ (by omega) _ (by omega) hhigh
  have hmod := upperDigit_inj _ (by omega) _ (by omega) hlow
  exact UInt8.toNat_inj.1 (by omega)

/-! ### Components -/

theorem component?_of_isComponent (h : IsComponent high low) :
    ∃ v, component? high low = some v ∧ componentDigits v = [written high, written low] := by
  cases h with
  | digits hhigh hlow =>
    obtain ⟨m, hm, hhigh', hwritten⟩ := exists_hexValue high hhigh
    obtain ⟨n, hn, hlow', hwritten'⟩ := exists_hexValue low hlow
    have hne : high ≠ '+' := by
      rintro rfl
      exact absurd hhigh (by decide)
    refine ⟨UInt8.ofNat (m * 16 + n), ?_, ?_⟩
    · simp [component?, hhigh', hlow', hne]
    · rw [componentDigits_ofNat hm hn, hwritten, hwritten']
  | plus hlow =>
    obtain ⟨n, hn, hlow', hwritten⟩ := exists_hexValue low hlow
    refine ⟨UInt8.ofNat (0 * 16 + n), ?_, ?_⟩
    · simp [component?, hlow']
    · rw [componentDigits_ofNat (by decide) hn, hwritten]
      rfl

theorem isComponent_of_component? (h : component? high low = some v) : IsComponent high low := by
  have hlow : low ∈ hexDigits := by
    by_contra hlow
    simp [component?, hexValue?_of_not_mem hlow] at h
  by_cases hplus : high = '+'
  · exact hplus ▸ .plus hlow
  have hhigh : high ∈ hexDigits := by
    by_contra hhigh
    simp [component?, hexValue?_of_not_mem hhigh, hplus] at h
  exact .digits hhigh hlow

theorem component?_eq_some_iff : component? high low = some v ↔
    IsComponent high low ∧ componentDigits v = [written high, written low] := by
  constructor
  · intro h
    have hcomponent := isComponent_of_component? h
    obtain ⟨w, hw, hdigits⟩ := component?_of_isComponent hcomponent
    obtain rfl := Option.some.inj (h.symm.trans hw)
    exact ⟨hcomponent, hdigits⟩
  · rintro ⟨h, hdigits⟩
    obtain ⟨w, hw, hwritten⟩ := component?_of_isComponent h
    rw [hw, componentDigits_inj (hwritten.trans hdigits.symm)]

/-! ### Colours -/

inductive IsColor : List Char → Prop
  | intro {r₁ r₂ g₁ g₂ b₁ b₂ : Char} (hr : IsComponent r₁ r₂) (hg : IsComponent g₁ g₂)
    (hb : IsComponent b₁ b₂) : IsColor [r₁, r₂, g₁, g₂, b₁, b₂]

theorem IsColor.head_ne {digits : List Char} (h : IsColor digits) : digits.head? ≠ some '#' := by
  obtain ⟨hr, -, -⟩ := h
  intro hhead
  obtain rfl := Option.some.inj hhead
  cases hr with
  | digits hhigh => exact absurd hhigh (by decide)

theorem dropWhile_replicate {digits : List Char} (h : digits.head? ≠ some '#') (marks : Nat) :
    (List.replicate marks '#' ++ digits).dropWhile (· == '#') = digits := by
  rw [List.dropWhile_append_of_pos (by simp)]
  cases digits with
  | nil => rfl
  | cons d ds => exact List.dropWhile_cons_of_neg (by simpa using h)

theorem exists_replicate (text : List Char) :
    ∃ marks, text = List.replicate marks '#' ++ text.dropWhile (· == '#') := by
  have hmarks : text.takeWhile (· == '#') =
      List.replicate (text.takeWhile (· == '#')).length '#' :=
    List.eq_replicate_of_mem fun d hd => by simpa using List.mem_takeWhile_imp hd
  refine ⟨(text.takeWhile (· == '#')).length, ?_⟩
  rw [← hmarks, List.takeWhile_append_dropWhile]

theorem ofHex?_eq_some_iff_component? (text : String) (c : Color) : ofHex? text = some c ↔
    ∃ r₁ r₂ g₁ g₂ b₁ b₂, text.toList.dropWhile (· == '#') = [r₁, r₂, g₁, g₂, b₁, b₂] ∧
      component? r₁ r₂ = some c.r ∧ component? g₁ g₂ = some c.g ∧ component? b₁ b₂ = some c.b := by
  unfold ofHex?
  constructor
  · intro h
    split at h
    · next r₁ r₂ g₁ g₂ b₁ b₂ hdrop =>
      obtain ⟨r, hr, h⟩ := Option.bind_eq_some_iff.1 h
      obtain ⟨g, hg, h⟩ := Option.bind_eq_some_iff.1 h
      obtain ⟨b, hb, h⟩ := Option.bind_eq_some_iff.1 h
      obtain rfl := Option.some.inj h
      exact ⟨r₁, r₂, g₁, g₂, b₁, b₂, hdrop, hr, hg, hb⟩
    · cases h
  · rintro ⟨r₁, r₂, g₁, g₂, b₁, b₂, hdrop, hr, hg, hb⟩
    rw [hdrop]
    simp [hr, hg, hb]

theorem ofHex?_eq_some_iff (text : String) (c : Color) : ofHex? text = some c ↔
    ∃ marks digits, text.toList = List.replicate marks '#' ++ digits ∧ IsColor digits ∧
      c.toHex = String.ofList (digits.map written) := by
  rw [ofHex?_eq_some_iff_component?]
  constructor
  · rintro ⟨r₁, r₂, g₁, g₂, b₁, b₂, hdrop, hr, hg, hb⟩
    obtain ⟨marks, htext⟩ := exists_replicate text.toList
    rw [hdrop] at htext
    obtain ⟨hr, hr'⟩ := component?_eq_some_iff.1 hr
    obtain ⟨hg, hg'⟩ := component?_eq_some_iff.1 hg
    obtain ⟨hb, hb'⟩ := component?_eq_some_iff.1 hb
    refine ⟨marks, _, htext, .intro hr hg hb, ?_⟩
    rw [toHex, hr', hg', hb']
    rfl
  · rintro ⟨marks, digits, htext, hdigits, hhex⟩
    have hdrop := dropWhile_replicate hdigits.head_ne marks
    rw [← htext] at hdrop
    obtain ⟨hr, hg, hb⟩ := hdigits
    next r₁ r₂ g₁ g₂ b₁ b₂ =>
      have hwritten : componentDigits c.r ++ componentDigits c.g ++ componentDigits c.b =
          [written r₁, written r₂] ++ [written g₁, written g₂] ++ [written b₁, written b₂] :=
        String.ofList_injective hhex
      obtain ⟨hrg, hb'⟩ := List.append_inj' hwritten rfl
      obtain ⟨hr', hg'⟩ := List.append_inj' hrg rfl
      exact ⟨r₁, r₂, g₁, g₂, b₁, b₂, hdrop, component?_eq_some_iff.2 ⟨hr, hr'⟩,
        component?_eq_some_iff.2 ⟨hg, hg'⟩, component?_eq_some_iff.2 ⟨hb, hb'⟩⟩

/-! ### The format -/

/-- Six hexadecimal digits, perhaps behind a mark, and in upper case they are what is written for
the colour. -/
def Documented (text : String) (c : Color) : Prop :=
  ∃ digits, (text.toList = digits ∨ text.toList = '#' :: digits) ∧ digits.length = 6 ∧
    (∀ d ∈ digits, d ∈ hexDigits) ∧ c.toHex = String.ofList (digits.map Char.toUpper)

theorem IsComponent.mem_hexDigits (h : IsComponent high low) (hplus : high ≠ '+') :
    high ∈ hexDigits ∧ low ∈ hexDigits := by
  cases h with
  | digits hhigh hlow => exact ⟨hhigh, hlow⟩
  | plus => exact absurd rfl hplus

variable {digits : List Char} {marks : Nat}

theorem isColor_unsigned_iff :
    IsColor digits ∧ '+' ∉ digits ↔ digits.length = 6 ∧ ∀ d ∈ digits, d ∈ hexDigits := by
  constructor
  · rintro ⟨⟨hr, hg, hb⟩, hplus⟩
    simp only [List.mem_cons, not_or] at hplus
    obtain ⟨hr₁, -, hg₁, -, hb₁, -⟩ := hplus
    obtain ⟨hr₁, hr₂⟩ := hr.mem_hexDigits (Ne.symm hr₁)
    obtain ⟨hg₁, hg₂⟩ := hg.mem_hexDigits (Ne.symm hg₁)
    obtain ⟨hb₁, hb₂⟩ := hb.mem_hexDigits (Ne.symm hb₁)
    exact ⟨rfl, by simp [hr₁, hr₂, hg₁, hg₂, hb₁, hb₂]⟩
  · rintro ⟨hlength, h⟩
    refine ⟨?_, fun hplus => absurd (h '+' hplus) (by decide)⟩
    match digits, hlength with
    | [r₁, r₂, g₁, g₂, b₁, b₂], _ =>
      simp only [List.forall_mem_cons] at h
      obtain ⟨hr₁, hr₂, hg₁, hg₂, hb₁, hb₂, -⟩ := h
      exact .intro (.digits hr₁ hr₂) (.digits hg₁ hg₂) (.digits hb₁ hb₂)

theorem map_written (h : '+' ∉ digits) : digits.map written = digits.map Char.toUpper :=
  List.map_congr_left fun _ hd => if_neg (ne_of_mem_of_not_mem hd h)

theorem marked_iff (h : text = List.replicate marks '#' ++ digits)
    (hhead : digits.head? ≠ some '#') :
    ¬['#', '#'] <+: text ↔ text = digits ∨ text = '#' :: digits := by
  rcases marks with _ | _ | marks
  · refine iff_of_true ?_ (.inl h)
    rintro ⟨rest, hrest⟩
    have hdigits : '#' :: '#' :: rest = digits := hrest.trans h
    exact hhead (hdigits ▸ rfl)
  · refine iff_of_true ?_ (.inr h)
    rintro ⟨rest, hrest⟩
    have hdigits : '#' :: rest = digits := (List.cons.inj (hrest.trans h)).2
    exact hhead (hdigits ▸ rfl)
  · refine iff_of_false ?_ ?_
    · exact not_not.2 ⟨List.replicate marks '#' ++ digits, h.symm⟩
    · have hlength := congrArg List.length h
      rw [List.length_append, List.length_replicate] at hlength
      rintro (rfl | rfl)
      · omega
      · rw [List.length_cons] at hlength
        omega

/-- The texts in the format are those that are read, unless they have plus signs or more marks than
one. -/
theorem documented_iff (text : String) (c : Color) : Documented text c ↔
    ofHex? text = some c ∧ '+' ∉ text.toList ∧ ¬['#', '#'] <+: text.toList := by
  rw [ofHex?_eq_some_iff]
  constructor
  · rintro ⟨digits, htext, hlength, hdigits, hhex⟩
    obtain ⟨hcolor, hplus⟩ := isColor_unsigned_iff.2 ⟨hlength, hdigits⟩
    obtain ⟨marks, hmarks⟩ :
        ∃ marks, text.toList = List.replicate marks '#' ++ digits := by
      rcases htext with htext | htext
      · exact ⟨0, htext⟩
      · exact ⟨1, htext⟩
    refine ⟨⟨marks, digits, hmarks, hcolor, ?_⟩, ?_, (marked_iff hmarks hcolor.head_ne).2 htext⟩
    · rw [hhex, map_written hplus]
    · simp [hmarks, hplus]
  · rintro ⟨⟨marks, digits, htext, hcolor, hhex⟩, hplus, hmarks⟩
    have hplus' : '+' ∉ digits := fun h => hplus (htext ▸ List.mem_append_right _ h)
    obtain ⟨hlength, hdigits⟩ := isColor_unsigned_iff.1 ⟨hcolor, hplus'⟩
    refine ⟨digits, (marked_iff htext hcolor.head_ne).1 hmarks, hlength, hdigits, ?_⟩
    rw [hhex, map_written hplus']

/-- Two marks are read, and so are plus signs. -/
theorem undocumented_read :
    (∃ c, ofHex? "##F92672" = some c ∧ ¬Documented "##F92672" c) ∧
      ∃ c, ofHex? "+1+2+3" = some c ∧ ¬Documented "+1+2+3" c := by
  refine ⟨⟨⟨0xF9, 0x26, 0x72⟩, by decide, ?_⟩, ⟨1, 2, 3⟩, by decide, ?_⟩
  case refine_1 =>
    rintro ⟨digits, htext | htext, hlength, -⟩
    · exact absurd (htext ▸ hlength) (by decide)
    · exact absurd ((List.cons.inj htext).2 ▸ hlength) (by decide)
  case refine_2 =>
    rintro ⟨digits, htext | htext, -, hdigits, -⟩
    · exact absurd (hdigits '+' (htext ▸ by decide)) (by decide)
    · exact absurd (List.cons.inj htext).1 (by decide)

end SplitEditor.Color
