import SplitEditor.Highlight.Script.Scanner
import SplitEditor.Proofs.Highlight.Scanner

/-! The scanner of scripts follows the grammar of scripts. -/

namespace SplitEditor.Script

open Utf8 Pattern Scan Scanner

variable {xs : List Lexeme} {c : Char} {cs text : List Char}

/-! ### Numbers and strings -/

theorem byteLength_take_run_isDigit (text : List Char) :
    byteLength (text.take (run isDigit text)) = run isDigit text := by
  rw [take_run, ← prefixLength_eq, prefixLength_isDigit]

theorem exponentLength_eq {e : Char} (he : e = 'e' ∨ e = 'E') (exponent : List Char) :
    exponentLength (e :: exponent) =
      if 0 < run isDigit (unsigned exponent) then
        1 + (byteLength exponent - byteLength (unsigned exponent)) +
          run isDigit (unsigned exponent)
      else 0 := by
  unfold exponentLength
  simp only [if_pos he]
  split
  · next digits =>
    have hsign : byteLength ('-' :: digits) - byteLength digits = 1 := Nat.add_sub_cancel 1 _
    rw [unsigned, hsign]
    split <;> split <;> omega
  · next digits =>
    have hsign : byteLength ('+' :: digits) - byteLength digits = 1 := Nat.add_sub_cancel 1 _
    rw [unsigned, hsign]
    split <;> split <;> omega
  · next hminus hplus =>
    rw [unsigned.eq_3 exponent hminus hplus, Nat.sub_self]
    split <;> split <;> omega

theorem dropBytes_whole (text : List Char) :
    dropBytes (run isDigit text) text = .ok (text.drop (run isDigit text)) := by
  have h := dropBytes_take (run isDigit text) text
  rwa [byteLength_take_run_isDigit] at h

theorem floatBytes_of_point {text behind : List Char}
    (hbehind : text.drop (run isDigit text) = '.' :: behind) :
    floatBytes text = .ok (if run isDigit behind = 0 then none
      else some (run isDigit text + 1 + run isDigit behind +
        exponentLength (behind.drop (run isDigit behind)))) := by
  have hrest : dropBytes (run isDigit text + 1 + run isDigit behind) text =
      .ok (behind.drop (run isDigit behind)) := by
    have h := dropBytes_append (text.take (run isDigit text) ++
      '.' :: behind.take (run isDigit behind)) (behind.drop (run isDigit behind))
    rw [byteLength_append, byteLength_cons, byteLength_take_run_isDigit,
      byteLength_take_run_isDigit, List.append_assoc, List.cons_append, List.take_append_drop,
      ← hbehind, List.take_append_drop, ← Nat.add_assoc] at h
    exact h
  simp only [floatBytes, prefixLength_isDigit, dropBytes_whole, hbehind]
  by_cases hfraction : run isDigit behind = 0
  · rw [if_pos hfraction]
    exact if_pos hfraction
  rw [if_neg hfraction]
  refine (if_neg hfraction).trans ?_
  rw [hrest]
  cases behind.drop (run isDigit behind) with
  | nil => rfl
  | cons e exponent =>
    by_cases he : e = 'e' ∨ e = 'E'
    · rw [exponentLength_eq he]
      refine (if_pos he).trans ?_
      split
      · rfl
      · rfl
    · simp only [exponentLength.eq_def, if_neg he]
      exact if_neg he

theorem floatBytes_eq (text : List Char) : floatBytes text = .ok (floatLength text) := by
  simp only [floatLength]
  split
  · next behind hbehind => exact floatBytes_of_point hbehind
  · next h =>
    simp only [floatBytes, prefixLength_isDigit, dropBytes_whole]
    show (pure (text.drop (run isDigit text)) >>= _) = _
    rw [pure_bind]
    split
    · next hbehind => exact absurd hbehind (h _)
    · rfl

theorem hexBytes_eq (text : List Char) : hexBytes text = hexLength text := by
  unfold hexBytes hexLength
  split
  · next digits =>
    simp only [prefixLength_isHexDigit, true_or, true_and, Nat.pos_iff_ne_zero]
  · next digits =>
    simp only [prefixLength_isHexDigit, or_true, true_and, Nat.pos_iff_ne_zero]
  · next hlower hupper =>
    split
    · next x digits =>
      rw [if_neg]
      rintro ⟨rfl | rfl, -⟩
      · exact hlower digits rfl
      · exact hupper digits rfl
    · rfl

theorem take_length_line (text : List Char) : text.take (line text).length = line text :=
  (List.prefix_iff_eq_take.1 (List.takeWhile_prefix _)).symm

theorem unterminatedBytes_eq (cs : List Char) : unterminatedBytes ('"' :: cs) =
    .ok ((unterminatedLength cs).map fun n => byteLength (('"' :: cs).take n)) := by
  have hline := takeBytes_take ((line cs).length + 1) ('"' :: cs)
  rw [List.take_succ_cons, ← lineLength_cons (by decide), take_length_line] at hline
  simp only [unterminatedBytes, unterminatedLength, hline]
  show Except.ok (if stringCloses (line cs) then none else some (byteLength ('"' :: line cs))) = _
  split
  · rfl
  · rw [Option.map_some, Nat.add_comm, List.take_succ_cons, take_length_line]

/-! ### Character literals -/

theorem run_scanEscapedLiteral (xs : List Lexeme) (cs : List Char) :
    (scanEscapedLiteral cs).run (between xs ('\'' :: cs)) =
      .ok ((), laid xs (escapedLiteral cs).paints ('\'' :: cs)) := by
  rw [scanEscapedLiteral, run_lift_ok (escapeLength_eq cs), escapedLiteral]
  cases h : Pattern.escapeLength cs with
  | none => exact run_emit .stringInvalid 0 (by rfl)
  | some n =>
    have hdrop := dropBytes_take n cs
    have hlength := byteLength_take_escapeLength h
    obtain ⟨hpos, hle⟩ := escapeLength_bounds h
    rw [hlength] at hdrop
    simp only
    refine (run_lift_ok hdrop _).trans ?_
    split
    · next hquote =>
      obtain ⟨m, rfl⟩ := Nat.exists_eq_succ_of_ne_zero (Nat.ne_of_gt hpos)
      cases cs with
      | nil => cases h
      | cons d ds =>
      rw [List.drop_succ_cons, List.head?_eq_some_iff] at hquote
      obtain ⟨rest, hrest⟩ := hquote
      -- the quote, the escape and the quote behind it
      refine run_emit_then .string 0 (by rfl) ?_
      refine run_emit_then .stringEscape m hlength.symm ?_
      rw [hrest]
      exact run_emit .string 0 (by rfl)
    · exact run_emit .stringInvalid 0 (by rfl)

theorem charLiteral_of_not (h : ¬((c ≠ '\\' ∧ c ≠ '\'') ∧ cs.head? = some '\'')) :
    charLiteral (c :: cs) = escapedLiteral (c :: cs) := by
  unfold charLiteral
  split
  · next d rest hcs =>
    obtain ⟨rfl, rfl⟩ := List.cons.inj hcs
    exact if_neg fun hc => h ⟨hc, rfl⟩
  · rfl

theorem next_charLiteral (cs : List Char) : (charLiteral cs).next = .code .plain := by
  have hescaped (cs : List Char) : (escapedLiteral cs).next = .code .plain := by
    unfold escapedLiteral
    split
    · split <;> rfl
    · rfl
  unfold charLiteral
  split
  · split
    · rfl
    · exact hescaped _
  · exact hescaped _

theorem run_scanCharLiteral (xs : List Lexeme) (cs : List Char) :
    scanCharLiteral.run (between xs ('\'' :: cs)) =
      .ok ((), laid xs (charLiteral cs).paints ('\'' :: cs)) := by
  have hescaped := run_scanEscapedLiteral xs cs
  rw [scanCharLiteral, run_bind_ok (run_rest xs _)]
  refine (run_lift_ok (dropBytes_take 1 ('\'' :: cs)) _).trans ?_
  rw [List.drop_succ_cons, List.drop_zero]
  cases cs with
  | nil => exact hescaped
  | cons c cs =>
    simp only
    split
    · next hc =>
      refine (run_lift_ok (dropBytes_take 1 (c :: cs)) _).trans ?_
      split
      · next hquote =>
        obtain ⟨rest, rfl⟩ := List.head?_eq_some_iff.1 hquote
        rw [charLiteral, if_pos hc]
        have hlength : 2 + c.utf8Size = byteLength ['\'', c, '\''] := by
          show 2 + c.utf8Size = 1 + (c.utf8Size + 1)
          omega
        exact run_emit .string 2 hlength
      · next hquote =>
        have hliteral : charLiteral (c :: cs) = escapedLiteral (c :: cs) :=
          charLiteral_of_not fun h => hquote h.2
        rw [hliteral]
        exact hescaped
    · next hc =>
      rw [charLiteral_of_not fun h => hc h.1]
      exact hescaped

/-! ### Code -/

def Mode.frames : Mode → List Frame
  | plain => [.root]
  | named => [.functionName, .root]

abbrev frames : State Mode → List Frame := State.stack .comment .string Mode.frames

theorem run_scanOther (xs : List Lexeme) (c : Char) (cs : List Char) :
    (scanOther c (c :: cs) [.root]).run (between xs (c :: cs)) =
      .ok (frames (other c cs).next, laid xs (other c cs).paints (c :: cs)) := by
  unfold scanOther other
  cases hscope : bracketScope? c with
  | some scope =>
    exact run_bind_ok (run_emitScoped ⟨.bracket, scope, 0⟩ (utf8Size_of_bracket hscope).symm) _
  | none =>
    simp only
    split
    · next hsymbol =>
      refine (run_lift_ok (takeBytes_prefixLength hsymbol cs) _).trans ?_
      exact run_bind_ok (run_emit _ _ (prefixLength_cons hsymbol cs)) _
    refine (run_lift_ok (floatBytes_eq _) _).trans ?_
    rw [hexBytes_eq]
    cases hfloat : floatLength (c :: cs) with
    | some n =>
      refine run_bind_ok (run_emit .numberFloat (n - 1) ?_) _
      rw [take_take_pred (floatLength_bounds hfloat).1, byteLength_take_floatLength hfloat]
    | none =>
    cases hhex : hexLength (c :: cs) with
    | some n =>
      refine run_bind_ok (run_emit .numberHex (n - 1) ?_) _
      rw [take_take_pred (hexLength_bounds hhex).1, byteLength_take_hexLength hhex]
    | none =>
    simp only
    split
    · next hdigit => exact run_bind_ok (run_emit .number _ (prefixLength_cons hdigit cs)) _
    split
    · next hc =>
      rcases hc with rfl | rfl | rfl
      · exact run_bind_ok (run_emit .delimiter 0 (by rfl)) _
      · exact run_bind_ok (run_emit .delimiter 0 (by rfl)) _
      · exact run_bind_ok (run_emit .delimiter 0 (by rfl)) _
    split
    · next hc =>
      subst hc
      refine (run_lift_ok (unterminatedBytes_eq cs) _).trans ?_
      cases hlength : unterminatedLength cs with
      | some n =>
        refine run_bind_ok (run_emit .stringInvalid (n - 1) ?_) _
        rw [take_take_pred (unterminatedLength_bounds hlength).1]
      | none => exact run_bind_ok (run_emit .stringQuote 0 (by rfl)) _
    split
    · next hc =>
      subst hc
      refine (run_bind_ok (run_scanCharLiteral xs cs) _).trans ?_
      rw [next_charLiteral]
      rfl
    · exact run_bind_ok (run_emitChar .text) _

theorem run_scanRoot (xs : List Lexeme) (c : Char) (cs : List Char) :
    (scanRoot [.root]).run (between xs (c :: cs)) =
      .ok (frames (plain c cs).next, laid xs (plain c cs).paints (c :: cs)) := by
  rw [scanRoot, run_bind_ok (run_rest xs _), plain]
  refine (run_bind_ok (run_peek xs _) _).trans ?_
  simp only [List.head?_cons]
  split
  · next hc =>
    have hword : isWord c || c == '$' := by
      simp only [isWord, isLetter, Bool.or_eq_true] at hc ⊢
      rcases hc with (hc | hc) | hc
      · exact .inl (.inl (.inl (.inl hc)))
      · exact .inl (.inr hc)
      · exact .inr hc
    refine (run_lift_ok (takeBytes_prefixLength hword cs) _).trans ?_
    refine (run_bind_ok (run_emit _ _ (prefixLength_cons hword cs)) _).trans ?_
    simp only [Step.one]
    split <;> rfl
  · cases hlayout : Step.layout? Mode.plain c cs with
    | none =>
      refine (run_bind_ok (run_layout?_none xs hlayout) _).trans ?_
      exact run_scanOther xs c cs
    | some step =>
      obtain ⟨opened, hrun, hnext⟩ := run_layout?_some xs hlayout
      refine (run_bind_ok hrun _).trans ?_
      rw [Option.getD_some, hnext]
      cases opened <;> rfl

theorem run_scanName (xs : List Lexeme) (c : Char) (cs : List Char) :
    (scanName [.functionName, .root]).run (between xs (c :: cs)) =
        .ok (frames (named c cs).next, laid xs (named c cs).paints (c :: cs)) ∨
      named c cs = plain c cs ∧ (scanName [.functionName, .root]).run (between xs (c :: cs)) =
        .ok ([.root], between xs (c :: cs)) := by
  unfold named
  cases hlayout : Step.layout? Mode.named c cs with
  | some step =>
    left
    obtain ⟨opened, hrun, hnext⟩ := run_layout?_some xs hlayout
    refine (run_bind_ok hrun _).trans ?_
    rw [hnext]
    cases opened <;> rfl
  | none =>
    have hrest : (scanName [.functionName, .root]).run (between xs (c :: cs)) = _ :=
      (run_bind_ok (run_layout?_none xs hlayout) _).trans (run_bind_ok (run_rest xs _) _)
    rw [hrest, List.head?_cons, Option.any_some]
    split
    · next hc =>
      left
      have hword : isWord c := by
        simp only [isWord, Bool.or_eq_true] at hc ⊢
        exact hc.imp_left .inl
      exact run_bind_ok (run_emit .functionName _ (prefixLength_cons hword cs)) _
    · exact .inr ⟨rfl, rfl⟩

theorem follows : Follows scanStep frames grammar := by
  intro xs state c cs
  cases state with
  | code mode =>
    cases mode with
    | plain => exact loop_rule (run_scanRoot xs c cs)
    | named =>
      show loop scanStep [.functionName, .root] _ =
        loop scanStep (frames (named c cs).next) (laid xs (named c cs).paints _)
      rcases run_scanName xs c cs with hname | ⟨hnamed, hname⟩
      · exact loop_rule hname
      · -- the turn that gives up takes nothing, but leaves the name to the code around it
        rw [hnamed]
        have hleft : loop scanStep [.functionName, .root] (between xs (c :: cs)) =
            loop scanStep [.root] (between xs (c :: cs)) :=
          loop_turn (isDone_between_cons xs c cs) hname (.inr ⟨rfl, Nat.lt_succ_self 1⟩)
        exact hleft.trans (loop_rule (run_scanRoot xs c cs))
  | string mode => exact loop_rule (run_string xs mode c cs)
  | comment mode outer => exact loop_rule (run_comment xs mode outer c cs)

theorem scan_eq (source : List Char) :
    scan source = some (.ok ((grammar.tokens source).map Token.patch)) :=
  follows.tokenize_eq rfl source

end SplitEditor.Script
