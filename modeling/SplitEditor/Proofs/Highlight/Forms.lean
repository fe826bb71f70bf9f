import SplitEditor.Proofs.Highlight.LineEnds
import SplitEditor.Proofs.Highlight.Pieces

/-! The forms of words, numbers and escapes, described without reference to how far a pattern
reaches. Each pattern takes a text of its form, and none that is longer could be taken there. -/

namespace SplitEditor

open Pattern

inductive Word (first rest : Char → Bool) : List Char → Prop
  | intro {c : Char} {cs : List Char} (hc : first c) (hcs : ∀ d ∈ cs, rest d) :
    Word first rest (c :: cs)

abbrev RunOf (p : Char → Bool) : List Char → Prop := Word p p

/-- No text of the form that could be taken in place of this one is longer. -/
def Longest (Form : List Char → Prop) (w after : List Char) : Prop :=
  ∀ w', w' <+: w ++ after → Form w' → w'.length ≤ w.length

inductive IsExponent : List Char → Prop
  | unsigned {e : Char} {digits : List Char} (he : e = 'e' ∨ e = 'E')
    (hdigits : RunOf isDigit digits) : IsExponent (e :: digits)
  | signed {e s : Char} {digits : List Char} (he : e = 'e' ∨ e = 'E') (hs : s = '-' ∨ s = '+')
    (hdigits : RunOf isDigit digits) : IsExponent (e :: s :: digits)

inductive IsFloat : List Char → Prop
  | plain {whole fraction : List Char} (hwhole : RunOf isDigit whole)
    (hfraction : RunOf isDigit fraction) : IsFloat (whole ++ '.' :: fraction)
  | scaled {whole fraction exponent : List Char} (hwhole : RunOf isDigit whole)
    (hfraction : RunOf isDigit fraction) (hexponent : IsExponent exponent) :
    IsFloat (whole ++ '.' :: (fraction ++ exponent))

inductive IsFraction : List Char → Prop
  | intro {whole fraction exponent : List Char} (hwhole : ∀ c ∈ whole, isDigit c)
    (hfraction : RunOf isDigit fraction) (hexponent : exponent = [] ∨ IsExponent exponent) :
    IsFraction (whole ++ '.' :: (fraction ++ exponent))

inductive IsHex : List Char → Prop
  | intro {x : Char} {digits : List Char} (hx : x = 'x' ∨ x = 'X')
    (hdigits : RunOf isHexDigit digits) : IsHex ('0' :: x :: digits)

inductive IsNumber : List Char → Prop
  | whole {w : List Char} (h : RunOf isDigit w) : IsNumber w
  | float {w : List Char} (h : IsFloat w) : IsNumber w
  | hex {w : List Char} (h : IsHex w) : IsNumber w

/-- A backslash and a mark, and after some marks so many hexadecimal digits. -/
inductive IsEscape : List Char → Prop
  | mark {c : Char} (hc : c ∈ ['a', 'b', 'f', 'n', 'r', 't', 'v', '\\', '"', '\'']) :
    IsEscape ['\\', c]
  | upToFour {digits : List Char} (hdigits : RunOf isHexDigit digits) (h : digits.length ≤ 4) :
    IsEscape ('\\' :: 'x' :: digits)
  | four {digits : List Char} (hdigits : RunOf isHexDigit digits) (h : digits.length = 4) :
    IsEscape ('\\' :: 'u' :: digits)
  | eight {digits : List Char} (hdigits : RunOf isHexDigit digits) (h : digits.length = 8) :
    IsEscape ('\\' :: 'U' :: digits)

inductive IsNoEscape : List Char → Prop
  | alone : IsNoEscape ['\\']
  | pair (c : Char) : IsNoEscape ['\\', c]

inductive ManyOf (Form : List Char → Prop) : List Char → Prop
  | one {w : List Char} (h : Form w) : ManyOf Form w
  | append {w w' : List Char} (h : ManyOf Form w) (h' : ManyOf Form w') : ManyOf Form (w ++ w')

variable {first rest p : Char → Bool} {c : Char} {cs w w' text after : List Char} {n : Nat}

/-! ### Words -/

namespace Word

theorem ne_nil (h : Word first rest w) : w ≠ [] := by
  cases h
  exact List.cons_ne_nil _ _

theorem append (h : Word first rest w) (hw' : ∀ d ∈ w', rest d) :
    Word first rest (w ++ w') := by
  cases h with
  | intro hc hcs => exact .intro hc (List.forall_mem_append.2 ⟨hcs, hw'⟩)

theorem forall_mem (h : Word first rest w) (hfirst : ∀ c, first c → rest c) :
    ∀ d ∈ w, rest d := by
  cases h with
  | intro hc hcs => exact List.forall_mem_cons.2 ⟨hfirst _ hc, hcs⟩

theorem imp {first' rest' : Char → Bool} (h : Word first rest w)
    (hfirst : ∀ c, first c → first' c) (hrest : ∀ c, rest c → rest' c) : Word first' rest' w := by
  cases h with
  | intro hc hcs => exact .intro (hfirst _ hc) fun d hd => hrest d (hcs d hd)

end Word

theorem RunOf.all (h : RunOf p w) : ∀ c ∈ w, p c := h.forall_mem fun _ => id

namespace Longest
variable {Form : List Char → Prop}

theorem not_append (h : Longest Form w (w' ++ after)) (hw' : w' ≠ []) : ¬Form (w ++ w') := by
  intro hform
  have hle := h (w ++ w') ((List.prefix_append_right_inj w).2 (List.prefix_append w' after)) hform
  have hpos := List.length_pos_iff.2 hw'
  rw [List.length_append] at hle
  omega

end Longest

theorem Word.not_longest (h : Word first rest w) (h' : Word first rest w')
    (hfirst : ∀ c, first c → rest c) (after : List Char) :
    ¬Longest (Word first rest) w (w' ++ after) :=
  fun hlongest => hlongest.not_append h'.ne_nil (h.append (h'.forall_mem hfirst))

namespace Pattern

theorem take_run (p : Char → Bool) (text : List Char) :
    text.take (run p text) = text.takeWhile p :=
  (List.prefix_iff_eq_take.1 (List.takeWhile_prefix p)).symm

theorem forall_mem_take_run (p : Char → Bool) (text : List Char) :
    ∀ c ∈ text.take (run p text), p c := by
  rw [take_run]
  exact fun c hc => List.mem_takeWhile_imp hc

theorem length_le_run (hw : ∀ c ∈ w, p c) (h : w <+: text) : w.length ≤ run p text := by
  obtain ⟨after, rfl⟩ := h
  rw [run, List.takeWhile_append_of_pos hw, List.length_append]
  exact Nat.le_add_right _ _

theorem word_take_run (hc : first c) (cs : List Char) :
    Word first rest (c :: cs.take (run rest cs)) :=
  .intro hc (forall_mem_take_run rest cs)

theorem longest_take {Form : List Char → Prop} (hn : n ≤ text.length)
    (h : ∀ w, w <+: text → Form w → w.length ≤ n) :
    Longest Form (text.take n) (text.drop n) := by
  intro w hw hform
  rw [List.take_append_drop] at hw
  rw [List.length_take, Nat.min_eq_left hn]
  exact h w hw hform

theorem longest_take_run (first : Char → Bool) (c : Char) (cs : List Char) :
    Longest (Word first rest) (c :: cs.take (run rest cs)) (cs.drop (run rest cs)) := by
  have hword (w : List Char) (hw : w <+: c :: cs) (hform : Word first rest w) :
      w.length ≤ run rest cs + 1 := by
    cases hform with
    | intro hd hds =>
      exact Nat.succ_le_succ (length_le_run hds (List.cons_prefix_cons.1 hw).2)
  exact longest_take (Nat.succ_le_succ (run_le rest cs)) hword

end Pattern

/-! ### Numbers -/

namespace Pattern

theorem not_mark_of_isDigit {c : Char} (h : isDigit c) : ¬(c = '-' ∨ c = '+') := by
  rintro (rfl | rfl) <;> cases h

theorem run_cons_of_pos (hc : p c) (cs : List Char) : run p (c :: cs) = run p cs + 1 := by
  rw [run, run, List.takeWhile_cons_of_pos hc, List.length_cons]

theorem run_pos (h : RunOf p w) (hw : w <+: text) : 0 < run p text :=
  Nat.lt_of_lt_of_le (List.length_pos_iff.2 h.ne_nil)
    (length_le_run h.all hw)

theorem runOf_take_of_le (hpos : n ≠ 0) (hn : n ≤ run p text) : RunOf p (text.take n) := by
  have hall : ∀ c ∈ text.take n, p c := by
    intro c hc
    refine forall_mem_take_run p text c ?_
    rw [← Nat.min_eq_left hn, ← List.take_take] at hc
    exact List.mem_of_mem_take hc
  cases htake : text.take n with
  | nil =>
    have hlength := congrArg List.length htake
    rw [List.length_take, Nat.min_eq_left (hn.trans (run_le p text))] at hlength
    exact absurd hlength hpos
  | cons c cs =>
    rw [htake] at hall
    obtain ⟨hc, hcs⟩ := List.forall_mem_cons.1 hall
    exact .intro hc hcs

theorem runOf_take (h : run p text ≠ 0) : RunOf p (text.take (run p text)) :=
  runOf_take_of_le h (Nat.le_refl _)

theorem isExponent_take (text : List Char) (h : exponentLength text ≠ 0) :
    IsExponent (text.take (exponentLength text)) := by
  rcases text with _ | ⟨e, text⟩
  · exact absurd rfl h
  by_cases he : e = 'e' ∨ e = 'E'
  · rcases text with _ | ⟨c, text⟩
    · simp [exponentLength, he, run] at h
    rw [exponentLength_cons_cons he] at h ⊢
    split at h
    · next hsign =>
      rw [if_pos hsign]
      split at h
      · exact absurd rfl h
      · next hrun =>
        rw [if_neg hrun, Nat.add_comm]
        exact .signed he hsign (runOf_take hrun)
    · next hsign =>
      rw [if_neg hsign]
      split at h
      · exact absurd rfl h
      · next hrun =>
        rw [if_neg hrun, Nat.add_comm]
        exact .unsigned he (runOf_take hrun)
  · exact absurd (exponentLength_cons_of_not he text) h

theorem length_le_exponentLength (h : IsExponent w) (hw : w <+: text) :
    w.length ≤ exponentLength text := by
  obtain ⟨after, rfl⟩ := hw
  cases h with
  | @unsigned e digits he hdigits =>
    have hpos := run_pos hdigits (List.prefix_append digits after)
    have hle := length_le_run hdigits.all (List.prefix_append digits after)
    cases hdigits with
    | intro hd =>
      rw [List.cons_append] at hpos hle
      rw [List.cons_append, List.cons_append, exponentLength_cons_cons he,
        if_neg (not_mark_of_isDigit hd), if_neg hpos.ne', List.length_cons]
      omega
  | @signed e s digits he hs hdigits =>
    have hpos := run_pos hdigits (List.prefix_append digits after)
    have hle := length_le_run hdigits.all (List.prefix_append digits after)
    rw [List.cons_append, List.cons_append, exponentLength_cons_cons he, if_pos hs,
      if_neg hpos.ne', List.length_cons, List.length_cons]
    omega

theorem isFraction_take (h : floatLength text = some n) : IsFraction (text.take n) := by
  simp only [floatLength] at h
  split at h
  · next rest hpoint =>
    split at h
    · cases h
    · next hfraction =>
      obtain rfl := Option.some.inj h
      rw [Nat.add_assoc, Nat.add_assoc, List.take_add, hpoint, Nat.add_comm 1, List.take_succ_cons,
        List.take_add]
      refine .intro (forall_mem_take_run isDigit text) (runOf_take hfraction) ?_
      by_cases hexponent : exponentLength (rest.drop (run isDigit rest)) = 0
      · exact .inl (by rw [hexponent, List.take_zero])
      · exact .inr (isExponent_take _ hexponent)
  · cases h

theorem run_append_cons (hw : ∀ d ∈ w, p d) (hc : p c = false) (cs : List Char) :
    run p (w ++ c :: cs) = w.length :=
  run_append hw (stops_cons.2 hc)

theorem floatLength_append (hw : ∀ d ∈ w, isDigit d) (cs : List Char) :
    floatLength (w ++ '.' :: cs) = if run isDigit cs = 0 then none
      else some (w.length + 1 + run isDigit cs + exponentLength (cs.drop (run isDigit cs))) := by
  have hrun : run isDigit (w ++ '.' :: cs) = w.length := run_append_cons hw rfl cs
  simp only [floatLength, hrun, List.drop_left]

theorem run_append_exponent (h : IsExponent w') (hw : RunOf isDigit w) (after : List Char) :
    run isDigit (w ++ (w' ++ after)) = w.length := by
  cases h with
  | unsigned he => rcases he with rfl | rfl <;> exact run_append_cons hw.all rfl _
  | signed he => rcases he with rfl | rfl <;> exact run_append_cons hw.all rfl _

theorem floatLength_of_isFraction (h : IsFraction w) (hw : w <+: text) :
    ∃ n, floatLength text = some n ∧ w.length ≤ n := by
  obtain ⟨after, rfl⟩ := hw
  cases h with
  | @intro whole fraction exponent hwhole hfraction hexponent =>
    rw [List.append_assoc, List.cons_append, List.append_assoc, floatLength_append hwhole]
    have hpos := List.length_pos_iff.2 hfraction.ne_nil
    cases hexponent with
    | inl hnil =>
      subst hnil
      have hle := length_le_run hfraction.all (List.prefix_append fraction after)
      rw [List.nil_append, if_neg (hpos.trans_le hle).ne', List.append_nil]
      refine ⟨_, rfl, ?_⟩
      rw [List.length_append, List.length_cons]
      omega
    | inr hexponent =>
      have hrun := run_append_exponent hexponent hfraction after
      have hle := length_le_exponentLength hexponent (List.prefix_append exponent after)
      rw [hrun, if_neg hpos.ne', List.drop_left]
      refine ⟨_, rfl, ?_⟩
      rw [List.length_append, List.length_cons, List.length_append]
      omega

end Pattern

namespace IsFraction

theorem of_isFloat (h : IsFloat w) : IsFraction w := by
  cases h with
  | @plain whole fraction hwhole hfraction =>
    have hfraction' := IsFraction.intro hwhole.all hfraction (.inl rfl)
    rwa [List.append_nil] at hfraction'
  | scaled hwhole hfraction hexponent => exact .intro hwhole.all hfraction (.inr hexponent)

theorem isFloat (h : IsFraction w) (hw : w.head? ≠ some '.') : IsFloat w := by
  cases h with
  | @intro whole fraction exponent hwhole hfraction hexponent =>
    cases whole with
    | nil => exact absurd rfl hw
    | cons c cs =>
      obtain ⟨hc, hcs⟩ := List.forall_mem_cons.1 hwhole
      cases hexponent with
      | inl hnil =>
        rw [hnil, List.append_nil]
        exact .plain (.intro hc hcs) hfraction
      | inr hexponent => exact .scaled (.intro hc hcs) hfraction hexponent

end IsFraction

namespace Pattern

theorem isFloat_take (hc : c ≠ '.') (h : floatLength (c :: cs) = some n) :
    IsFloat ((c :: cs).take n) := by
  obtain ⟨m, rfl⟩ := Nat.exists_eq_add_one_of_ne_zero (floatLength_bounds h).1.ne'
  exact (isFraction_take h).isFloat fun hhead => hc (Option.some.inj hhead)

theorem floatLength_of_isFloat (h : IsFloat w) (hw : w <+: text) :
    ∃ n, floatLength text = some n ∧ w.length ≤ n :=
  floatLength_of_isFraction (.of_isFloat h) hw

theorem isHex_take (h : hexLength text = some n) : IsHex (text.take n) := by
  unfold hexLength at h
  split at h
  · next x text =>
    split at h
    · next hx =>
      obtain rfl := Option.some.inj h
      rw [Nat.add_comm]
      exact .intro hx.1 (runOf_take hx.2)
    · cases h
  · cases h

theorem hexLength_of_isHex (h : IsHex w) (hw : w <+: text) :
    ∃ n, hexLength text = some n ∧ w.length ≤ n := by
  obtain ⟨after, rfl⟩ := hw
  cases h with
  | @intro x digits hx hdigits =>
    have hprefix : digits <+: digits ++ after := List.prefix_append _ _
    have hle := length_le_run hdigits.all hprefix
    refine ⟨_, if_pos ⟨hx, (run_pos hdigits hprefix).ne'⟩, ?_⟩
    rw [List.length_cons, List.length_cons]
    show _ ≤ 2 + run isHexDigit (digits ++ after)
    omega

theorem floatLength_of_isHex (h : IsHex w) (hw : w <+: text) : floatLength text = none := by
  obtain ⟨after, rfl⟩ := hw
  cases h with
  | intro hx => rcases hx with rfl | rfl <;> rfl

end Pattern

namespace IsNumber

theorem snoc (h : IsNumber w) (hc : isDigit c) : IsNumber (w ++ [c]) := by
  have hall : ∀ d ∈ [c], isDigit d := List.forall_mem_singleton.2 hc
  have hhex : ∀ d ∈ [c], isHexDigit d := List.forall_mem_singleton.2 (by simp [isHexDigit, hc])
  cases h with
  | whole h => exact .whole (h.append hall)
  | float h =>
    refine .float ?_
    cases h with
    | plain hwhole hfraction =>
      rw [List.append_assoc]
      exact .plain hwhole (hfraction.append hall)
    | scaled hwhole hfraction hexponent =>
      rw [List.append_assoc, List.cons_append, List.append_assoc]
      refine .scaled hwhole hfraction ?_
      cases hexponent with
      | unsigned he hdigits => exact .unsigned he (hdigits.append hall)
      | signed he hs hdigits => exact .signed he hs (hdigits.append hall)
  | hex h =>
    cases h with
    | intro hx hdigits => exact .hex (.intro hx (hdigits.append hhex))

theorem exists_digit (h : IsNumber w) : ∃ c cs, w = c :: cs ∧ isDigit c := by
  cases h with
  | whole h =>
    cases h with
    | intro hc => exact ⟨_, _, rfl, hc⟩
  | float h =>
    cases h with
    | plain hwhole =>
      cases hwhole with
      | intro hc => exact ⟨_, _, rfl, hc⟩
    | scaled hwhole =>
      cases hwhole with
      | intro hc => exact ⟨_, _, rfl, hc⟩
  | hex h =>
    cases h with
    | intro => exact ⟨_, _, rfl, rfl⟩

theorem not_longest (h : IsNumber w) (h' : IsNumber w') (after : List Char) :
    ¬Longest IsNumber w (w' ++ after) := by
  obtain ⟨c, cs, rfl, hc⟩ := h'.exists_digit
  intro hlongest
  rw [List.cons_append, ← List.singleton_append] at hlongest
  exact hlongest.not_append (List.cons_ne_nil c []) (h.snoc hc)

end IsNumber

namespace Pattern

theorem run_le_floatLength (h : floatLength text = some n) : run isDigit text ≤ n := by
  simp only [floatLength] at h
  split at h
  · split at h
    · cases h
    · obtain rfl := Option.some.inj h
      omega
  · cases h

theorem run_le_hexLength (h : hexLength text = some n) : run isDigit text ≤ n := by
  unfold hexLength at h
  split at h
  · next x text =>
    split at h
    · next hx =>
      obtain rfl := Option.some.inj h
      have hrun : run isDigit ('0' :: x :: text) = 1 := by
        rcases hx.1 with rfl | rfl <;> rfl
      rw [hrun]
      omega
    · cases h
  · cases h

theorem length_le_floatLength (h : floatLength text = some n) (hw : w <+: text)
    (hnumber : IsNumber w) : w.length ≤ n := by
  cases hnumber with
  | whole hwhole =>
    exact (length_le_run hwhole.all hw).trans (run_le_floatLength h)
  | float hfloat =>
    obtain ⟨m, hm, hle⟩ := floatLength_of_isFloat hfloat hw
    exact Option.some.inj (hm.symm.trans h) ▸ hle
  | hex hhex =>
    rw [floatLength_of_isHex hhex hw] at h
    cases h

theorem length_le_hexLength (hfloat : floatLength text = none) (h : hexLength text = some n)
    (hw : w <+: text) (hnumber : IsNumber w) : w.length ≤ n := by
  cases hnumber with
  | whole hwhole =>
    exact (length_le_run hwhole.all hw).trans (run_le_hexLength h)
  | float hfloat' =>
    obtain ⟨m, hm, -⟩ := floatLength_of_isFloat hfloat' hw
    cases hm.symm.trans hfloat
  | hex hhex =>
    obtain ⟨m, hm, hle⟩ := hexLength_of_isHex hhex hw
    exact Option.some.inj (hm.symm.trans h) ▸ hle

theorem length_le_run_isDigit (hfloat : floatLength text = none) (hhex : hexLength text = none)
    (hw : w <+: text) (hnumber : IsNumber w) : w.length ≤ run isDigit text := by
  cases hnumber with
  | whole hwhole => exact length_le_run hwhole.all hw
  | float hfloat' =>
    obtain ⟨m, hm, -⟩ := floatLength_of_isFloat hfloat' hw
    cases hm.symm.trans hfloat
  | hex hhex' =>
    obtain ⟨m, hm, -⟩ := hexLength_of_isHex hhex' hw
    cases hm.symm.trans hhex

end Pattern

/-! ### Escapes -/

namespace Pattern

theorem runOf_take_of_fixedEscape {digits : Nat} (hdigits : digits ≠ 0)
    (h : fixedEscape digits text = some n) : n = 2 + digits ∧
      RunOf isHexDigit (text.take digits) ∧ (text.take digits).length = digits := by
  unfold fixedEscape at h
  split at h
  · next hle =>
    obtain rfl := Option.some.inj h
    exact ⟨rfl, runOf_take_of_le hdigits hle,
      List.length_take_of_le (hle.trans (run_le isHexDigit text))⟩
  · cases h

theorem isEscape_take (h : escapeLength text = some n) : IsEscape (text.take n) := by
  unfold escapeLength at h
  split at h
  · next c cs =>
    split at h
    · next hc =>
      obtain rfl := Option.some.inj h
      exact .mark hc
    split at h
    · next hc =>
      subst hc
      simp only at h
      split at h
      · cases h
      · next hpos =>
        obtain rfl := Option.some.inj h
        rw [Nat.add_comm]
        exact .upToFour (runOf_take_of_le hpos (Nat.min_le_right _ _))
          ((List.length_take_le _ _).trans (Nat.min_le_left _ _))
    split at h
    · next hc =>
      obtain ⟨rfl, hdigits, hlength⟩ := runOf_take_of_fixedEscape (by decide) h
      subst hc
      exact .four hdigits hlength
    split at h
    · next hc =>
      obtain ⟨rfl, hdigits, hlength⟩ := runOf_take_of_fixedEscape (by decide) h
      subst hc
      exact .eight hdigits hlength
    · cases h
  · cases h

theorem fixedEscape_of_runOf (h : RunOf isHexDigit w) (after : List Char) :
    fixedEscape w.length (w ++ after) = some (2 + w.length) :=
  if_pos (length_le_run h.all (List.prefix_append w after))

theorem escapeLength_of_isEscape (h : IsEscape w) (hw : w <+: text) :
    ∃ n, escapeLength text = some n ∧ w.length ≤ n := by
  obtain ⟨after, rfl⟩ := hw
  cases h with
  | mark hc => exact ⟨2, if_pos hc, Nat.le_refl 2⟩
  | @upToFour digits hdigits hlength =>
    have hle := length_le_run hdigits.all (List.prefix_append digits after)
    have hpos := run_pos hdigits (List.prefix_append digits after)
    have hmin : min 4 (run isHexDigit (digits ++ after)) ≠ 0 := by omega
    refine ⟨2 + min 4 (run isHexDigit (digits ++ after)), if_neg hmin, ?_⟩
    rw [List.length_cons, List.length_cons]
    omega
  | @four digits hdigits hlength =>
    have hescape := fixedEscape_of_runOf hdigits after
    rw [hlength] at hescape
    refine ⟨_, hescape, ?_⟩
    rw [List.length_cons, List.length_cons, hlength]
  | @eight digits hdigits hlength =>
    have hescape := fixedEscape_of_runOf hdigits after
    rw [hlength] at hescape
    refine ⟨_, hescape, ?_⟩
    rw [List.length_cons, List.length_cons, hlength]

end Pattern

end SplitEditor
