import SplitEditor.Highlight.Outline.Scanner
import SplitEditor.Proofs.Highlight.Scanner

/-! The scanner of outlines follows the grammar of outlines. -/

namespace SplitEditor.Outline

open Utf8 Pattern Scan Scanner

variable {xs : List Lexeme} {c : Char} {cs text : List Char}

/-! ### Identifiers -/

theorem inIdentifier_slash (before cs : List Char) :
    inIdentifier (before ++ '/' :: cs) (byteLength before) '/' =
      .ok (decide (cs.head? ≠ some '/' ∧ cs.head? ≠ some '*')) := by
  have hdrop : dropBytes (byteLength before + 1) (before ++ '/' :: cs) = .ok cs := by
    have h := dropBytes_append (before ++ ['/']) cs
    rwa [byteLength_append, List.append_assoc] at h
  rw [inIdentifier, if_pos rfl, hdrop]
  cases cs with
  | nil => rfl
  | cons d cs =>
    by_cases hslash : d = '/'
    · subst hslash
      rfl
    by_cases hstar : d = '*'
    · subst hstar
      rfl
    simp [hslash, hstar]

theorem inIdentifier_of_ne {before : List Char} (hbefore : before ≠ []) (hc : c ≠ '/')
    (text : List Char) : inIdentifier text (byteLength before) c =
      .ok (isWord c || c == '$' || c == '.') := by
  have hchars := List.length_pos_iff.2 hbefore
  have hbytes := length_le_byteLength before
  have hstart : (decide (byteLength before = 0)) = false := decide_eq_false (by omega)
  rw [inIdentifier, if_neg hc, hstart, Bool.false_or]
  rfl

theorem identifierEnd_cons {before : List Char} {inside : Bool} (length : Nat)
    (h : inIdentifier (before ++ c :: cs) (byteLength before) c = .ok inside) :
    identifierEnd (before ++ c :: cs) length (charIndices (byteLength before) (c :: cs)) =
      if inside then identifierEnd (before ++ [c] ++ cs) (byteLength (before ++ [c]))
        (charIndices (byteLength (before ++ [c])) cs)
      else .ok length := by
  have hlength : byteLength (before ++ [c]) = byteLength before + c.utf8Size :=
    byteLength_append before [c]
  rw [charIndices, identifierEnd, h, hlength, List.append_assoc]
  rfl

theorem identifierEnd_eq {before : List Char} (hbefore : before ≠ []) (after : List Char) :
    identifierEnd (before ++ after) (byteLength before) (charIndices (byteLength before) after) =
      .ok (byteLength (before ++ after.take (identifierRun after))) := by
  have happend (before : List Char) (c : Char) : before ++ [c] ≠ [] :=
    List.append_ne_nil_of_right_ne_nil before (List.cons_ne_nil c [])
  fun_induction identifierRun after generalizing before with
  | case1 =>
    rw [List.take_zero, List.append_nil]
    rfl
  | case2 =>
    rw [identifierEnd_cons _ (inIdentifier_slash before _), List.take_zero, List.append_nil]
    rfl
  | case3 =>
    rw [identifierEnd_cons _ (inIdentifier_slash before _), List.take_zero, List.append_nil]
    rfl
  | case4 rest hslash hstar ih =>
    have hnext : rest.head? ≠ some '/' ∧ rest.head? ≠ some '*' := by
      refine ⟨fun h => ?_, fun h => ?_⟩
      · obtain ⟨tail, rfl⟩ := List.head?_eq_some_iff.1 h
        exact hslash tail rfl
      · obtain ⟨tail, rfl⟩ := List.head?_eq_some_iff.1 h
        exact hstar tail rfl
    have hin := inIdentifier_slash before rest
    rw [decide_eq_true hnext] at hin
    rw [identifierEnd_cons _ hin, if_pos rfl, ih (happend before _), Nat.add_comm,
      List.take_succ_cons, List.append_assoc]
    rfl
  | case5 c rest hc hin ih =>
    rw [identifierEnd_cons _ (inIdentifier_of_ne hbefore hc _), if_pos hin, ih (happend before _),
      Nat.add_comm, List.take_succ_cons, List.append_assoc]
    rfl
  | case6 c rest hc hout =>
    rw [identifierEnd_cons _ (inIdentifier_of_ne hbefore hc _), if_neg hout, List.take_zero,
      List.append_nil]

theorem identifierBytes_cons (hc : isLetter c || c == '_' || c == '$') (cs : List Char) :
    identifierBytes (c :: cs) = .ok (byteLength (c :: cs.take (identifierRun cs))) := by
  have hslash : c ≠ '/' := by
    rintro rfl
    exact absurd hc (by decide)
  have hin : inIdentifier ([] ++ c :: cs) (byteLength []) c = .ok true := by
    rw [inIdentifier, if_neg hslash]
    rfl
  rw [identifierBytes]
  refine (identifierEnd_cons 0 hin).trans ?_
  exact identifierEnd_eq (List.cons_ne_nil c []) cs

/-! ### Code -/

abbrev frames : State Unit → List Frame := State.stack .comment .string fun _ => [.root]

theorem run_scanRoot (xs : List Lexeme) (c : Char) (cs : List Char) :
    (scanRoot [.root]).run (between xs (c :: cs)) =
      .ok (frames (code c cs).next, laid xs (code c cs).paints (c :: cs)) := by
  rw [scanRoot, run_bind_ok (run_rest xs _), code]
  refine (run_bind_ok (run_peek xs _) _).trans ?_
  simp only [List.head?_cons]
  split
  · next hc =>
    refine (run_lift_ok (identifierBytes_cons hc cs) _).trans ?_
    refine (run_lift_ok (takeBytes_take (identifierRun cs + 1) (c :: cs)) _).trans ?_
    exact run_bind_ok (run_emit _ (identifierRun cs) rfl) _
  split
  · next hdigit => exact run_bind_ok (run_emit .number _ (prefixLength_cons hdigit cs)) _
  split
  · next hc =>
    subst hc
    exact run_bind_ok (run_emit .stringQuote 0 (by rfl)) _
  cases hscope : bracketScope? c with
  | some scope =>
    exact run_bind_ok (run_emitScoped ⟨.bracket, scope, 0⟩ (utf8Size_of_bracket hscope).symm) _
  | none =>
  simp only
  unfold other
  split
  · next tail h =>
    obtain ⟨rfl, rfl⟩ := List.cons.inj h
    exact run_bind_ok (run_emit .comment _ (lineLength_cons (by decide) _)) _
  · next hsummary =>
    split
    · exact absurd rfl (hsummary _)
    cases hlayout : Step.layout? () c cs with
    | none =>
      refine (run_bind_ok (run_layout?_none xs hlayout) _).trans ?_
      exact run_bind_ok (run_emitChar .text) _
    | some step =>
      obtain ⟨opened, hrun, hnext⟩ := run_layout?_some xs hlayout
      refine (run_bind_ok hrun _).trans ?_
      rw [Option.getD_some, hnext]
      cases opened <;> rfl

theorem follows : Follows scanStep frames grammar := by
  intro xs state c cs
  cases state with
  | code mode => exact loop_rule (run_scanRoot xs c cs)
  | string mode => exact loop_rule (run_string xs mode c cs)
  | comment mode outer => exact loop_rule (run_comment xs mode outer c cs)

theorem scan_eq (source : List Char) :
    scan source = some (.ok ((grammar.tokens source).map Token.patch)) :=
  follows.tokenize_eq rfl source

end SplitEditor.Outline
