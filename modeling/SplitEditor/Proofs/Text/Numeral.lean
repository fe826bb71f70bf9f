import SplitEditor.Text.Numeral

/-! Decimal numerals and the numbers they stand for. Those below a bound are read, with or without
a plus sign in front, and nothing else is. -/

namespace SplitEditor.Numeral

/-- The text is one or more decimal digits that stand for the number. Zeros may come first. -/
structure Decimal (n : Nat) (text : List Char) : Prop where
  nonempty : text ≠ []
  isDigit : ∀ c ∈ text, c.isDigit
  value : Nat.ofDigitChars 10 text 0 = n

inductive Signed (n : Nat) : List Char → Prop
  | plain {text : List Char} (h : Decimal n text) : Signed n text
  | plus {text : List Char} (h : Decimal n text) : Signed n ('+' :: text)

variable {n bound value : Nat} {c : Char} {text : List Char}

theorem decimal_toDigits (n : Nat) : Decimal n (Nat.toDigits 10 n) where
  nonempty := Nat.toDigits_ne_nil
  isDigit _ := Nat.isDigit_of_mem_toDigits (by decide) (by decide)
  value := Nat.ofDigitChars_ten_toDigits

theorem not_decimal_plus (text : List Char) : ¬Decimal n ('+' :: text) := fun h =>
  absurd (h.isDigit '+' List.mem_cons_self) (by decide)

theorem isDigit_iff (c : Char) : c.isDigit ↔ '0' ≤ c ∧ c ≤ '9' := by
  simp [Char.isDigit, Char.le_def]

theorem digit?_of_isDigit (h : c.isDigit) : digit? 10 c = some (c.toNat - '0'.toNat) := by
  obtain ⟨hlow, hhigh⟩ := (isDigit_iff c).1 h
  have hvalue : c.toNat - '0'.toNat < 10 := by
    have hle : c.toNat ≤ '9'.toNat := hhigh
    have hnine : '9'.toNat = '0'.toNat + 9 := rfl
    omega
  simp only [digit?, if_pos (And.intro hlow hhigh), if_pos hvalue]

theorem digit?_of_not_isDigit (h : ¬c.isDigit) : digit? 10 c = none := by
  rw [isDigit_iff] at h
  simp only [digit?, if_neg h, ite_eq_right_iff, reduceCtorEq, imp_false]
  -- The letters stand for ten and more.
  split
  · omega
  · split <;> omega

theorem le_ofDigitChars (text : List Char) (value : Nat) :
    value ≤ Nat.ofDigitChars 10 text value := by
  rw [Nat.ofDigitChars_eq_ofDigitChars_zero]
  have hpow := Nat.le_mul_of_pos_left value (Nat.pow_pos (n := text.length) (show 0 < 10 by decide))
  omega

theorem digits_eq_ok_iff (hvalue : value < bound) : digits 10 bound value text = .ok n ↔
    (∀ c ∈ text, c.isDigit) ∧ Nat.ofDigitChars 10 text value = n ∧ n < bound := by
  induction text generalizing value with
  | nil =>
    rw [digits, Nat.ofDigitChars_nil, Except.ok.injEq]
    constructor
    · rintro rfl
      exact ⟨by simp, rfl, hvalue⟩
    · exact fun h => h.2.1
  | cons c cs ih =>
    rw [digits, Nat.ofDigitChars_cons, List.forall_mem_cons, Nat.mul_comm 10]
    by_cases hc : c.isDigit
    · simp only [digit?_of_isDigit hc, hc, true_and]
      split
      · next hnext => exact ih hnext
      · next hnext =>
        -- The value only grows with further digits.
        have hle := le_ofDigitChars cs (value * 10 + (c.toNat - '0'.toNat))
        constructor
        · nofun
        · rintro ⟨-, rfl, hlt⟩
          exact absurd (Nat.lt_of_le_of_lt hle hlt) hnext
    · simp [digit?_of_not_isDigit hc, hc]

theorem digits_eq_ok_iff_decimal (hbound : 0 < bound) (htext : text ≠ []) :
    digits 10 bound 0 text = .ok n ↔ Decimal n text ∧ n < bound := by
  rw [digits_eq_ok_iff hbound]
  constructor
  · exact fun ⟨hdigits, hn, hlt⟩ => ⟨⟨htext, hdigits, hn⟩, hlt⟩
  · exact fun ⟨h, hlt⟩ => ⟨h.isDigit, h.value, hlt⟩

theorem parse_eq_ok_iff (hbound : 0 < bound) :
    parse 10 bound text = .ok n ↔ Signed n text ∧ n < bound := by
  unfold parse
  split
  · constructor
    · nofun
    · rintro ⟨⟨h⟩, -⟩
      exact absurd rfl h.nonempty
  · constructor
    · nofun
    · rintro ⟨h | h, -⟩
      · exact absurd h (not_decimal_plus [])
      · exact absurd rfl h.nonempty
  · next rest hrest =>
    rw [digits_eq_ok_iff_decimal hbound (fun h => hrest (h ▸ rfl))]
    constructor
    · exact fun ⟨h, hlt⟩ => ⟨.plus h, hlt⟩
    · rintro ⟨h | h, hlt⟩
      · exact absurd h (not_decimal_plus rest)
      · exact ⟨h, hlt⟩
  · next hne _ hplus =>
    rw [digits_eq_ok_iff_decimal hbound hne]
    constructor
    · exact fun ⟨h, hlt⟩ => ⟨.plain h, hlt⟩
    · rintro ⟨h | h, hlt⟩
      · exact ⟨h, hlt⟩
      · exact absurd rfl (hplus _)

end SplitEditor.Numeral
