import Mathlib.Computability.RegularExpressions
import Mathlib.Data.Bool.AllAny
import SplitEditor.Proofs.Highlight.Digits
import SplitEditor.Proofs.Highlight.Forms
import SplitEditor.Proofs.Text.Cut

/-! The patterns as regular expressions. Main statement: what a pattern takes from a text is the
longest prefix that its expression matches. -/

namespace SplitEditor.Pattern

open RegularExpression

/-! ### Expressions -/

def oneOf (cs : List Char) : RegularExpression Char := (cs.map char).sum

def many (P : RegularExpression Char) : RegularExpression Char := P * P.star

def maybe (P : RegularExpression Char) : RegularExpression Char := 1 + P

/-- `[eE][-+]?\d+` -/
def exponentPattern : RegularExpression Char :=
  oneOf ['e', 'E'] * (maybe (oneOf ['-', '+']) * many (oneOf digits))

/-- `\d*\.\d+([eE][-+]?\d+)?` -/
def floatPattern : RegularExpression Char :=
  (oneOf digits).star * (char '.' * (many (oneOf digits) * maybe exponentPattern))

/-- `0[xX][0-9a-fA-F]+` -/
def hexPattern : RegularExpression Char :=
  char '0' * (oneOf ['x', 'X'] * many (oneOf hexDigits))

def upToFour (P : RegularExpression Char) : RegularExpression Char := P ^ 1 + P ^ 2 + P ^ 3 + P ^ 4

/-- A backslash, and then one of `abfnrtv`, a backslash or a quote, or `x` with one to four
hexadecimal digits, `u` with four or `U` with eight. -/
def escapePattern : RegularExpression Char :=
  char '\\' * (oneOf ['a', 'b', 'f', 'n', 'r', 't', 'v', '\\', '"', '\''] +
    char 'x' * upToFour (oneOf hexDigits) + char 'u' * oneOf hexDigits ^ 4 +
    char 'U' * oneOf hexDigits ^ 8)

def matchLengths (P : RegularExpression Char) (text : List Char) : List Nat :=
  (List.range (text.length + 1)).filter fun n => P.rmatch (text.take n)

def longestMatch (P : RegularExpression Char) (text : List Char) : Option Nat :=
  (matchLengths P text).max?

def letters : RegularExpression Char → List Char
  | .zero | .epsilon => []
  | .char c => [c]
  | .plus P Q | .comp P Q => letters P ++ letters Q
  | .star P => letters P

variable {P Q : RegularExpression Char} {p : Char → Bool} {cs w text : List Char} {n : Nat}

/-! ### What is matched -/

theorem mem_char {c : Char} : w ∈ (char c).matches' ↔ w = [c] := Iff.rfl

theorem mem_mul : w ∈ (P * Q).matches' ↔ ∃ u ∈ P.matches', ∃ v ∈ Q.matches', u ++ v = w := by
  rw [matches'_mul, Language.mem_mul]

theorem mem_add : w ∈ (P + Q).matches' ↔ w ∈ P.matches' ∨ w ∈ Q.matches' := by
  rw [matches'_add, Language.mem_add]

theorem mem_char_mul {c : Char} :
    w ∈ (char c * P).matches' ↔ ∃ v ∈ P.matches', w = c :: v := by
  rw [mem_mul]
  constructor
  · rintro ⟨u, hu, v, hv, rfl⟩
    exact ⟨v, hv, mem_char.1 hu ▸ rfl⟩
  · rintro ⟨v, hv, rfl⟩
    exact ⟨[c], mem_char.2 rfl, v, hv, rfl⟩

theorem mem_maybe : w ∈ (maybe P).matches' ↔ w = [] ∨ w ∈ P.matches' := by
  rw [maybe, mem_add, matches'_epsilon, Language.mem_one]

theorem mem_oneOf : w ∈ (oneOf cs).matches' ↔ ∃ c ∈ cs, w = [c] := by
  induction cs with
  | nil =>
    refine iff_of_false (Language.notMem_zero w) ?_
    rintro ⟨c, hc, -⟩
    exact List.not_mem_nil hc
  | cons c cs ih =>
    have hsum : oneOf (c :: cs) = char c + oneOf cs := rfl
    rw [hsum, mem_add, mem_char, ih, List.exists_mem_cons_iff]

theorem mem_oneOf_mul : w ∈ (oneOf cs * P).matches' ↔ ∃ c ∈ cs, ∃ v ∈ P.matches', w = c :: v := by
  rw [mem_mul]
  constructor
  · rintro ⟨u, hu, v, hv, rfl⟩
    obtain ⟨c, hc, rfl⟩ := mem_oneOf.1 hu
    exact ⟨c, hc, v, hv, rfl⟩
  · rintro ⟨c, hc, v, hv, rfl⟩
    exact ⟨[c], mem_oneOf.2 ⟨c, hc, rfl⟩, v, hv, rfl⟩

theorem mem_star_oneOf : w ∈ (oneOf cs).star.matches' ↔ ∀ c ∈ w, c ∈ cs := by
  rw [matches'_star, Language.mem_kstar]
  constructor
  · rintro ⟨pieces, rfl, hpieces⟩ c hc
    obtain ⟨piece, hpiece, hc⟩ := List.mem_flatten.1 hc
    obtain ⟨d, hd, rfl⟩ := mem_oneOf.1 (hpieces piece hpiece)
    exact List.mem_singleton.1 hc ▸ hd
  · intro h
    refine ⟨w.map ([·]), (List.flatMap_singleton' w).symm, ?_⟩
    intro piece hpiece
    obtain ⟨c, hc, rfl⟩ := List.mem_map.1 hpiece
    exact mem_oneOf.2 ⟨c, h c hc, rfl⟩

theorem mem_many_oneOf (hp : ∀ c, p c ↔ c ∈ cs) : w ∈ (many (oneOf cs)).matches' ↔ RunOf p w := by
  rw [many, mem_oneOf_mul]
  constructor
  · rintro ⟨c, hc, v, hv, rfl⟩
    exact .intro ((hp c).2 hc) fun d hd => (hp d).2 (mem_star_oneOf.1 hv d hd)
  · rintro ⟨hc, hv⟩
    exact ⟨_, (hp _).1 hc, _, mem_star_oneOf.2 fun d hd => (hp d).1 (hv d hd), rfl⟩

theorem mem_oneOf_pow : w ∈ (oneOf cs ^ n).matches' ↔ w.length = n ∧ ∀ c ∈ w, c ∈ cs := by
  rw [matches'_pow]
  induction n generalizing w with
  | zero =>
    rw [pow_zero, Language.mem_one]
    constructor
    · rintro rfl
      exact ⟨rfl, fun _ hc => absurd hc List.not_mem_nil⟩
    · exact fun h => List.length_eq_zero_iff.1 h.1
  | succ n ih =>
    rw [pow_succ', Language.mem_mul]
    constructor
    · rintro ⟨u, hu, v, hv, rfl⟩
      obtain ⟨c, hc, rfl⟩ := mem_oneOf.1 hu
      obtain ⟨hlength, hall⟩ := ih.1 hv
      exact ⟨congrArg (· + 1) hlength, List.forall_mem_cons.2 ⟨hc, hall⟩⟩
    · rintro ⟨hlength, hall⟩
      cases w with
      | nil => cases hlength
      | cons c v =>
        obtain ⟨hc, hall⟩ := List.forall_mem_cons.1 hall
        exact ⟨[c], mem_oneOf.2 ⟨c, hc, rfl⟩, v, ih.2 ⟨Nat.succ.inj hlength, hall⟩, rfl⟩

theorem mem_oneOf_pow_hexDigits (hn : n ≠ 0) : w ∈ (oneOf hexDigits ^ n).matches' ↔
    RunOf isHexDigit w ∧ w.length = n := by
  rw [mem_oneOf_pow]
  constructor
  · rintro ⟨hlength, hall⟩
    cases w with
    | nil => exact absurd hlength.symm hn
    | cons c cs =>
      obtain ⟨hc, hcs⟩ := List.forall_mem_cons.1 hall
      exact ⟨.intro ((isHexDigit_iff_mem c).2 hc) fun d hd => (isHexDigit_iff_mem d).2 (hcs d hd),
        hlength⟩
  · exact fun ⟨h, hlength⟩ => ⟨hlength, fun c hc => (isHexDigit_iff_mem c).1 (h.all c hc)⟩

theorem mem_upToFour_hexDigits : w ∈ (upToFour (oneOf hexDigits)).matches' ↔
    RunOf isHexDigit w ∧ w.length ≤ 4 := by
  rw [upToFour, mem_add, mem_add, mem_add, mem_oneOf_pow_hexDigits one_ne_zero,
    mem_oneOf_pow_hexDigits two_ne_zero, mem_oneOf_pow_hexDigits three_ne_zero,
    mem_oneOf_pow_hexDigits four_ne_zero, ← and_or_left, ← and_or_left, ← and_or_left]
  refine and_congr_right fun h => ?_
  have hpos := List.length_pos_iff.2 h.ne_nil
  omega

/-! ### The patterns -/

theorem mem_exponentPattern : w ∈ exponentPattern.matches' ↔ IsExponent w := by
  rw [exponentPattern, mem_oneOf_mul]
  constructor
  · rintro ⟨e, he, v, hv, rfl⟩
    obtain ⟨sign, hsign, ds, hds, rfl⟩ := mem_mul.1 hv
    have hdigits := (mem_many_oneOf isDigit_iff_mem).1 hds
    rcases mem_maybe.1 hsign with rfl | hsign
    · exact .unsigned (List.mem_pair.1 he) hdigits
    · obtain ⟨s, hs, rfl⟩ := mem_oneOf.1 hsign
      exact .signed (List.mem_pair.1 he) (List.mem_pair.1 hs) hdigits
  · rintro (⟨he, hdigits⟩ | ⟨he, hs, hdigits⟩)
    · refine ⟨_, List.mem_pair.2 he, _, mem_mul.2 ⟨[], mem_maybe.2 (.inl rfl), _, ?_, rfl⟩, rfl⟩
      exact (mem_many_oneOf isDigit_iff_mem).2 hdigits
    · have hsign := mem_maybe.2 (.inr (mem_oneOf.2 ⟨_, List.mem_pair.2 hs, rfl⟩))
      refine ⟨_, List.mem_pair.2 he, _, mem_mul.2 ⟨_, hsign, _, ?_, rfl⟩, rfl⟩
      exact (mem_many_oneOf isDigit_iff_mem).2 hdigits

theorem mem_floatPattern : w ∈ floatPattern.matches' ↔ IsFraction w := by
  rw [floatPattern, mem_mul]
  constructor
  · rintro ⟨whole, hwhole, v, hv, rfl⟩
    obtain ⟨u, hu, rfl⟩ := mem_char_mul.1 hv
    obtain ⟨fraction, hfraction, exponent, hexponent, rfl⟩ := mem_mul.1 hu
    exact .intro (fun c hc => (isDigit_iff_mem c).2 (mem_star_oneOf.1 hwhole c hc))
      ((mem_many_oneOf isDigit_iff_mem).1 hfraction)
      ((mem_maybe.1 hexponent).imp_right mem_exponentPattern.1)
  · rintro ⟨hwhole, hfraction, hexponent⟩
    refine ⟨_, mem_star_oneOf.2 fun c hc => (isDigit_iff_mem c).1 (hwhole c hc), _, ?_, rfl⟩
    refine mem_char_mul.2 ⟨_, mem_mul.2 ⟨_, ?_, _, ?_, rfl⟩, rfl⟩
    · exact (mem_many_oneOf isDigit_iff_mem).2 hfraction
    · exact mem_maybe.2 (hexponent.imp_right mem_exponentPattern.2)

theorem mem_hexPattern : w ∈ hexPattern.matches' ↔ IsHex w := by
  rw [hexPattern, mem_char_mul]
  constructor
  · rintro ⟨v, hv, rfl⟩
    obtain ⟨x, hx, ds, hds, rfl⟩ := mem_oneOf_mul.1 hv
    exact .intro (List.mem_pair.1 hx) ((mem_many_oneOf isHexDigit_iff_mem).1 hds)
  · rintro ⟨hx, hdigits⟩
    refine ⟨_, mem_oneOf_mul.2 ⟨_, List.mem_pair.2 hx, _, ?_, rfl⟩, rfl⟩
    exact (mem_many_oneOf isHexDigit_iff_mem).2 hdigits

theorem mem_escapePattern : w ∈ escapePattern.matches' ↔ IsEscape w := by
  rw [escapePattern, mem_char_mul]
  constructor
  · rintro ⟨v, hv, rfl⟩
    rw [mem_add, mem_add, mem_add, mem_oneOf, mem_char_mul, mem_char_mul, mem_char_mul] at hv
    rcases hv with ((⟨c, hc, rfl⟩ | ⟨ds, hds, rfl⟩) | ⟨ds, hds, rfl⟩) | ⟨ds, hds, rfl⟩
    · exact .mark hc
    · obtain ⟨hdigits, hlength⟩ := mem_upToFour_hexDigits.1 hds
      exact .upToFour hdigits hlength
    · obtain ⟨hdigits, hlength⟩ := (mem_oneOf_pow_hexDigits (by decide)).1 hds
      exact .four hdigits hlength
    · obtain ⟨hdigits, hlength⟩ := (mem_oneOf_pow_hexDigits (by decide)).1 hds
      exact .eight hdigits hlength
  · intro h
    simp only [mem_add, mem_char_mul]
    cases h with
    | mark hc => exact ⟨_, .inl (.inl (.inl (mem_oneOf.2 ⟨_, hc, rfl⟩))), rfl⟩
    | upToFour hdigits hlength =>
      exact ⟨_, .inl (.inl (.inr ⟨_, mem_upToFour_hexDigits.2 ⟨hdigits, hlength⟩, rfl⟩)), rfl⟩
    | four hdigits hlength =>
      have hfour := (mem_oneOf_pow_hexDigits four_ne_zero).2 ⟨hdigits, hlength⟩
      exact ⟨_, .inl (.inr ⟨_, hfour, rfl⟩), rfl⟩
    | eight hdigits hlength =>
      have height := (mem_oneOf_pow_hexDigits (show 8 ≠ 0 by decide)).2 ⟨hdigits, hlength⟩
      exact ⟨_, .inr ⟨_, height, rfl⟩, rfl⟩

/-! ### Longest matches -/

theorem mem_matchLengths :
    n ∈ matchLengths P text ↔ n ≤ text.length ∧ text.take n ∈ P.matches' := by
  rw [matchLengths, List.mem_filter, List.mem_range, Nat.lt_succ_iff, rmatch_iff_matches']

theorem longestMatch_eq_none_iff :
    longestMatch P text = none ↔ ∀ n ≤ text.length, text.take n ∉ P.matches' := by
  simp only [longestMatch, List.max?_eq_none_iff, List.eq_nil_iff_forall_not_mem, mem_matchLengths,
    not_and]

theorem longestMatch_eq_some_iff : longestMatch P text = some n ↔
    (n ≤ text.length ∧ text.take n ∈ P.matches') ∧
      ∀ m ≤ text.length, text.take m ∈ P.matches' → m ≤ n := by
  simp only [longestMatch, List.max?_eq_some_iff, mem_matchLengths, and_imp]

theorem longestMatch_eq {found : Option Nat}
    (htake : ∀ n, found = some n → n ≤ text.length ∧ text.take n ∈ P.matches')
    (hlongest : ∀ w, w <+: text → w ∈ P.matches' → ∃ n, found = some n ∧ w.length ≤ n) :
    longestMatch P text = found := by
  have hle (m : Nat) (hm : m ≤ text.length) (h : text.take m ∈ P.matches') :
      ∃ n, found = some n ∧ m ≤ n := by
    obtain ⟨n, hn, hlength⟩ := hlongest _ (List.take_prefix m text) h
    rw [List.length_take_of_le hm] at hlength
    exact ⟨n, hn, hlength⟩
  cases found with
  | none =>
    rw [longestMatch_eq_none_iff]
    intro m hm h
    obtain ⟨n, hn, -⟩ := hle m hm h
    cases hn
  | some n =>
    rw [longestMatch_eq_some_iff]
    refine ⟨htake n rfl, fun m hm h => ?_⟩
    obtain ⟨n', hn, hle⟩ := hle m hm h
    exact Option.some.inj hn ▸ hle

theorem floatLength_eq (text : List Char) : floatLength text = longestMatch floatPattern text := by
  refine (longestMatch_eq (fun n hn => ?_) fun w hw h => ?_).symm
  · exact ⟨(floatLength_bounds hn).2, mem_floatPattern.2 (isFraction_take hn)⟩
  · exact floatLength_of_isFraction (mem_floatPattern.1 h) hw

theorem hexLength_eq (text : List Char) : hexLength text = longestMatch hexPattern text := by
  refine (longestMatch_eq (fun n hn => ?_) fun w hw h => ?_).symm
  · exact ⟨(hexLength_bounds hn).2, mem_hexPattern.2 (isHex_take hn)⟩
  · exact hexLength_of_isHex (mem_hexPattern.1 h) hw

theorem escapeLength_eq (text : List Char) :
    escapeLength text = longestMatch escapePattern text := by
  refine (longestMatch_eq (fun n hn => ?_) fun w hw h => ?_).symm
  · exact ⟨(escapeLength_bounds hn).2, mem_escapePattern.2 (isEscape_take hn)⟩
  · exact escapeLength_of_isEscape (mem_escapePattern.1 h) hw

theorem mem_letters (h : w ∈ P.matches') : ∀ c ∈ w, c ∈ letters P := by
  induction P generalizing w with
  | zero => exact absurd h (Language.notMem_zero w)
  | epsilon =>
    obtain rfl := (Language.mem_one w).1 h
    exact fun c hc => absurd hc List.not_mem_nil
  | char c =>
    obtain rfl := mem_char.1 h
    exact fun d hd => hd
  | plus P Q ihP ihQ =>
    intro c hc
    rcases mem_add.1 h with h | h
    · exact List.mem_append_left _ (ihP h c hc)
    · exact List.mem_append_right _ (ihQ h c hc)
  | comp P Q ihP ihQ =>
    obtain ⟨u, hu, v, hv, rfl⟩ := mem_mul.1 h
    intro c hc
    rcases List.mem_append.1 hc with hc | hc
    · exact List.mem_append_left _ (ihP hu c hc)
    · exact List.mem_append_right _ (ihQ hv c hc)
  | star P ih =>
    obtain ⟨pieces, rfl, hpieces⟩ := Language.mem_kstar.1 h
    intro c hc
    obtain ⟨piece, hpiece, hc⟩ := List.mem_flatten.1 hc
    exact ih (hpieces piece hpiece) c hc

theorem byteLength_longestMatch (hletters : ∀ c ∈ letters P, c.utf8Size = 1)
    (h : longestMatch P text = some n) : Utf8.byteLength (text.take n) = n := by
  obtain ⟨⟨hn, hmatch⟩, -⟩ := longestMatch_eq_some_iff.1 h
  rw [Utf8.byteLength_eq_length fun c hc => hletters c (mem_letters hmatch c hc),
    List.length_take_of_le hn]

theorem utf8Size_of_mem_letters : ∀ P ∈ [floatPattern, hexPattern, escapePattern],
    ∀ c ∈ letters P, c.utf8Size = 1 := by
  have hletters : ∀ P ∈ [floatPattern, hexPattern, escapePattern],
      (letters P).all fun c => c.utf8Size = 1 := by decide +kernel
  exact fun P hP c hc => of_decide_eq_true (List.all_eq_true.1 (hletters P hP) c hc)

theorem byteLength_take_floatLength (h : floatLength text = some n) :
    Utf8.byteLength (text.take n) = n :=
  byteLength_longestMatch (utf8Size_of_mem_letters floatPattern (by simp)) (floatLength_eq text ▸ h)

theorem byteLength_take_hexLength (h : hexLength text = some n) :
    Utf8.byteLength (text.take n) = n :=
  byteLength_longestMatch (utf8Size_of_mem_letters hexPattern (by simp)) (hexLength_eq text ▸ h)

theorem byteLength_take_escapeLength (h : escapeLength text = some n) :
    Utf8.byteLength (text.take n) = n :=
  byteLength_longestMatch (utf8Size_of_mem_letters escapePattern (by simp))
    (escapeLength_eq text ▸ h)

/-- Each pattern gives the length of the longest prefix that its expression matches, and none if
none is matched. That is the length in characters and in bytes. -/
theorem patterns_longest (text : List Char) :
    floatLength text = longestMatch floatPattern text ∧
      hexLength text = longestMatch hexPattern text ∧
      escapeLength text = longestMatch escapePattern text ∧
      ∀ P ∈ [floatPattern, hexPattern, escapePattern], ∀ n, longestMatch P text = some n →
        Utf8.byteLength (text.take n) = n := by
  refine ⟨floatLength_eq text, hexLength_eq text, escapeLength_eq text, ?_⟩
  exact fun P hP n => byteLength_longestMatch (utf8Size_of_mem_letters P hP)

/-- An exponent without digits is given back. -/
theorem patterns_longest_truncated : longestMatch floatPattern "1.5e+;".toList = some 3 ∧
    Utf8.byteLength ("1.5e+;".toList.take 3) = 3 := by
  obtain ⟨hfloat, -, -, hbytes⟩ := patterns_longest "1.5e+;".toList
  have hlongest := hfloat.symm.trans (show floatLength "1.5e+;".toList = some 3 by decide)
  exact ⟨hlongest, hbytes floatPattern (by simp) 3 hlongest⟩

end SplitEditor.Pattern
