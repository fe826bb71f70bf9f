import SplitEditor.Proofs.Highlight.Openings

/-! Block comments nest. A comment is read from its opening to the closing that brings the count of
openings and closings back to zero, and the code around it does not depend on what it holds. -/

namespace SplitEditor

open Pattern

namespace Pattern

def commentEnd? : Nat → List Char → Option Nat
  | _, [] => none
  | unclosed, '/' :: '*' :: cs => (commentEnd? (unclosed + 1) cs).map (2 + ·)
  | unclosed, '*' :: '/' :: cs =>
    if unclosed = 1 then some 2 else (commentEnd? (unclosed - 1) cs).map (2 + ·)
  | unclosed, _ :: cs => (commentEnd? unclosed cs).map (1 + ·)

/-- The length of the comment at the head of a text, if there is one and it ends. -/
def commentLength? : List Char → Option Nat
  | '/' :: '*' :: cs => commentEnd? 0 ('/' :: '*' :: cs)
  | _ => none

variable {c : Char} {cs : List Char} {n unclosed : Nat}

theorem commentEnd?_slash (unclosed : Nat) (cs : List Char) (h : ¬['*'] <+: cs) :
    commentEnd? unclosed ('/' :: cs) = (commentEnd? unclosed cs).map (1 + ·) := by
  rw [commentEnd?]
  · rintro cs' - rfl
    exact h (List.prefix_append ['*'] cs')
  · rintro cs' hslash -
    cases hslash

theorem commentEnd?_star (unclosed : Nat) (cs : List Char) (h : ¬['/'] <+: cs) :
    commentEnd? unclosed ('*' :: cs) = (commentEnd? unclosed cs).map (1 + ·) := by
  rw [commentEnd?]
  · rintro cs' hslash -
    cases hslash
  · rintro cs' - rfl
    exact h (List.prefix_append ['/'] cs')

theorem commentEnd?_plain (hc : (c != '/' && c != '*') = true) (unclosed : Nat) (cs : List Char) :
    commentEnd? unclosed (c :: cs) = (commentEnd? unclosed cs).map (1 + ·) := by
  simp only [Bool.and_eq_true, bne_iff_ne] at hc
  rw [commentEnd?]
  · rintro cs' rfl -
    exact hc.1 rfl
  · rintro cs' rfl -
    exact hc.2 rfl

theorem commentEnd?_run (unclosed : Nat) (cs : List Char) : commentEnd? unclosed cs =
    (commentEnd? unclosed (cs.drop (run (fun d => d != '/' && d != '*') cs))).map
      (run (fun d => d != '/' && d != '*') cs + ·) := by
  induction cs with
  | nil => simp [run, commentEnd?]
  | cons c cs ih =>
    by_cases hc : (c != '/' && c != '*') = true
    · rw [run_cons_of_pos hc, List.drop_succ_cons, commentEnd?_plain hc, ih, Option.map_map]
      refine congrArg (Option.map · _) (funext fun m => ?_)
      simp only [Function.comp_apply]
      omega
    · have hrun : run (fun d => d != '/' && d != '*') (c :: cs) = 0 := by
        rw [run, List.takeWhile_cons_of_neg (by simpa using hc)]
        rfl
      rw [hrun]
      simp

theorem commentEnd?_append (h : commentEnd? unclosed cs = some n) (rest : List Char) :
    commentEnd? unclosed (cs ++ rest) = some n := by
  fun_induction commentEnd? unclosed cs generalizing n with
  | case1 => cases h
  | case2 unclosed cs ih =>
    obtain ⟨k, hk, rfl⟩ := Option.map_eq_some_iff.1 h
    rw [List.cons_append, List.cons_append, commentEnd?, ih hk]
    rfl
  | case3 cs =>
    rw [List.cons_append, List.cons_append, commentEnd?, if_pos rfl]
    exact h
  | case4 unclosed cs hlast ih =>
    obtain ⟨k, hk, rfl⟩ := Option.map_eq_some_iff.1 h
    rw [List.cons_append, List.cons_append, commentEnd?, if_neg hlast, ih hk]
    rfl
  | case5 unclosed c cs hopens hcloses ih =>
    obtain ⟨k, hk, rfl⟩ := Option.map_eq_some_iff.1 h
    -- the mark would have to be in two parts, but the first is not the end of the text
    cases cs with
    | nil => cases hk
    | cons d cs =>
      rw [List.cons_append, List.cons_append, commentEnd?, ← List.cons_append, ih hk]
      · rfl
      · rintro cs' rfl heq
        exact hopens cs rfl (by rw [(List.cons.inj heq).1])
      · rintro cs' rfl heq
        exact hcloses cs rfl (by rw [(List.cons.inj heq).1])

theorem commentLength?_eq_some (h : commentLength? cs = some n) : ∃ body k,
    cs = '/' :: '*' :: body ∧ n = 2 + k ∧ commentEnd? 1 body = some k := by
  unfold commentLength? at h
  split at h
  · next body =>
    obtain ⟨k, hk, rfl⟩ := Option.map_eq_some_iff.1 h
    exact ⟨body, k, rfl, rfl, hk⟩
  · cases h

theorem opens_of_commentLength? (h : commentLength? cs = some n) : Outline.Opens cs := by
  obtain ⟨body, -, rfl, -, -⟩ := commentLength?_eq_some h
  exact .inr (List.prefix_append ['/', '*'] body)

theorem commentLength?_append (h : commentLength? cs = some n) (rest : List Char) :
    commentLength? (cs ++ rest) = some n := by
  obtain ⟨body, k, rfl, rfl, hk⟩ := commentLength?_eq_some h
  exact congrArg (Option.map (2 + ·)) (commentEnd?_append hk rest)

end Pattern

/-! ### The body of a comment -/

namespace Step
variable {μ : Type}

theorem inComment_cases (mode : μ) (outer : Nat) (c : Char) (cs : List Char) : ∃ more next,
    inComment mode outer c cs = one .comment more next ∧ more ≤ cs.length ∧
      (next = .code mode ∧ commentEnd? (outer + 1) (c :: cs) = some (more + 1) ∨
        ∃ outer', next = .comment mode outer' ∧ commentEnd? (outer + 1) (c :: cs) =
          (commentEnd? (outer' + 1) (cs.drop more)).map (more + 1 + ·)) := by
  by_cases hslash : c = '/'
  · subst hslash
    rcases cs with _ | ⟨d, cs⟩
    · exact ⟨0, _, rfl, Nat.le_refl 0, .inr ⟨outer, rfl, rfl⟩⟩
    by_cases hd : d = '*'
    · subst hd
      exact ⟨1, _, rfl, Nat.succ_le_succ (Nat.zero_le _), .inr ⟨outer + 1, rfl, rfl⟩⟩
    · have hprefix : ¬['*'] <+: d :: cs := fun h => hd (List.cons_prefix_cons.1 h).1.symm
      refine ⟨0, .comment mode outer, ?_, Nat.zero_le _, .inr ⟨outer, rfl, ?_⟩⟩
      · rw [inComment_slash, if_neg hd]
      · exact commentEnd?_slash _ _ hprefix
  by_cases hstar : c = '*'
  · subst hstar
    rcases cs with _ | ⟨d, cs⟩
    · exact ⟨0, _, rfl, Nat.le_refl 0, .inr ⟨outer, rfl, rfl⟩⟩
    by_cases hd : d = '/'
    · subst hd
      refine ⟨1, closeComment mode outer, rfl, Nat.succ_le_succ (Nat.zero_le _), ?_⟩
      cases outer with
      | zero => exact .inl ⟨rfl, rfl⟩
      | succ outer => exact .inr ⟨outer, rfl, rfl⟩
    · have hprefix : ¬['/'] <+: d :: cs := fun h => hd (List.cons_prefix_cons.1 h).1.symm
      refine ⟨0, .comment mode outer, ?_, Nat.zero_le _, .inr ⟨outer, rfl, ?_⟩⟩
      · rw [inComment_star, if_neg hd]
      · exact commentEnd?_star _ _ hprefix
  · have hplain : (c != '/' && c != '*') = true := by simp [hslash, hstar]
    have hend := commentEnd?_run (outer + 1) (c :: cs)
    rw [run_cons_of_pos hplain, List.drop_succ_cons] at hend
    refine ⟨run (fun d => d != '/' && d != '*') cs, .comment mode outer, ?_, run_le _ cs,
      .inr ⟨outer, rfl, hend⟩⟩
    simp [inComment, hslash, hstar]

end Step

def Comments (ys : List Lexeme) : Prop := ∀ y ∈ ys, y = .of .comment y.text

theorem comments_cons {w : List Char} {ys : List Lexeme} (h : Comments ys) :
    Comments (.of .comment w :: ys) := List.forall_mem_cons.2 ⟨rfl, h⟩

namespace Grammar
variable {μ : Type} {g : Grammar μ} {text : List Char} {n outer : Nat}

theorem run_of_commentEnd? (g : Grammar μ) (mode : μ)
    (h : commentEnd? (outer + 1) text = some n) :
    n ≤ text.length ∧ ∃ ys, g.Run (.comment mode outer) text ys (.code mode) (text.drop n) ∧
      Comments ys ∧ ys.flatMap Lexeme.text = text.take n := by
  induction text using reading_induction generalizing n outer with
  | nil => cases h
  | cons c cs ih =>
    obtain ⟨more, next, hstep, hmore, ⟨rfl, hend⟩ | ⟨outer', rfl, hend⟩⟩ :=
      Step.inComment_cases mode outer c cs
    · obtain rfl := Option.some.inj (hend.symm.trans h)
      refine ⟨Nat.succ_le_succ hmore, [.of .comment (c :: cs.take more)], ?_, ?_, ?_⟩
      · exact .one _ _ hstep
      · exact comments_cons (fun _ hy => absurd hy List.not_mem_nil)
      · simp [Lexeme.of]
    · rw [hend] at h
      obtain ⟨k, hk, rfl⟩ := Option.map_eq_some_iff.1 h
      obtain ⟨hle, ys, hrun, hcomments, htext⟩ := ih (cs.drop more) (List.drop_suffix more cs) hk
      have hfirst : g.Run (.comment mode outer) (c :: cs) [.of .comment (c :: cs.take more)]
          (.comment mode outer') (cs.drop more) := .one _ _ hstep
      have hcount : more + 1 + k = (more + k) + 1 := Nat.add_right_comm more 1 k
      rw [List.length_drop] at hle
      refine ⟨by rw [List.length_cons]; omega, .of .comment (c :: cs.take more) :: ys, ?_,
        comments_cons hcomments, ?_⟩
      · rw [hcount, List.drop_succ_cons, ← List.drop_drop]
        exact hfirst.trans hrun
      · rw [List.flatMap_cons, htext, hcount, List.take_succ_cons, List.take_add]
        rfl

theorem run_of_commentEnd?_eq_none (g : Grammar μ) (mode : μ)
    (h : commentEnd? (outer + 1) text = none) :
    ∃ ys outer', g.Run (.comment mode outer) text ys (.comment mode outer') [] ∧
      Comments ys ∧ ys.flatMap Lexeme.text = text := by
  induction text using reading_induction generalizing outer with
  | nil => exact ⟨[], outer, .refl _ _, fun _ hy => absurd hy List.not_mem_nil, rfl⟩
  | cons c cs ih =>
    obtain ⟨more, next, hstep, -, ⟨rfl, hend⟩ | ⟨outer', rfl, hend⟩⟩ :=
      Step.inComment_cases mode outer c cs
    · cases hend.symm.trans h
    · rw [hend] at h
      obtain ⟨ys, last, hrun, hcomments, htext⟩ :=
        ih (cs.drop more) (List.drop_suffix more cs) (Option.map_eq_none_iff.1 h)
      have hfirst : g.Run (.comment mode outer) (c :: cs) [.of .comment (c :: cs.take more)]
          (.comment mode outer') (cs.drop more) := .one _ _ hstep
      refine ⟨_, last, hfirst.trans hrun, comments_cons hcomments, ?_⟩
      rw [List.flatMap_append, htext, List.flatMap_singleton]
      exact List.take_append_drop (more + 1) (c :: cs)

def OpensComments (g : Grammar μ) : Prop :=
  ∀ mode cs, g.code mode '/' ('*' :: cs) = .one .comment 1 (.comment mode 0)

theorem OpensComments.run (hopens : g.OpensComments) (mode : μ) (body : List Char) :
    g.Run (.code mode) ('/' :: '*' :: body) [.of .comment ['/', '*']] (.comment mode 0) body := by
  have hstep : g.step (.code mode) '/' ('*' :: body) = .one .comment 1 (.comment mode 0) :=
    hopens mode body
  exact .one _ _ hstep

theorem run_of_commentLength? (hopens : g.OpensComments) (mode : μ)
    (h : commentLength? text = some n) :
    n ≤ text.length ∧ ∃ w ys, g.Run (.code mode) text (.of .comment w :: ys) (.code mode)
        (text.drop n) ∧ Comments ys ∧ w ++ ys.flatMap Lexeme.text = text.take n := by
  obtain ⟨body, k, rfl, rfl, hk⟩ := commentLength?_eq_some h
  obtain ⟨hle, ys, hrun, hcomments, htext⟩ := g.run_of_commentEnd? mode hk
  rw [Nat.add_comm 2 k]
  exact ⟨Nat.succ_le_succ (Nat.succ_le_succ hle), ['/', '*'], ys,
    (hopens.run mode body).trans hrun, hcomments, congrArg (['/', '*'] ++ ·) htext⟩

theorem run_of_commentLength?_eq_none (hopens : g.OpensComments) (mode : μ)
    (hopen : ['/', '*'] <+: text) (h : commentLength? text = none) :
    ∃ ys outer, g.Run (.code mode) text ys (.comment mode outer) [] ∧
      Comments ys ∧ ys.flatMap Lexeme.text = text := by
  obtain ⟨body, rfl⟩ := hopen
  have hbody : commentEnd? 1 body = none := Option.map_eq_none_iff.1 h
  obtain ⟨ys, outer, hrun, hcomments, htext⟩ := g.run_of_commentEnd?_eq_none mode hbody
  exact ⟨_, outer, (hopens.run mode body).trans hrun, comments_cons hcomments,
    congrArg (['/', '*'] ++ ·) htext⟩

end Grammar

/-! ### What a comment is joined to -/

namespace Lexeme
variable {xs ys zs : List Lexeme} {w : List Char}

theorem kinds_comments (h : Comments ys) :
    kinds ys = List.replicate (ys.flatMap text).length .comment :=
  kinds_eq_replicate fun y hy => congrArg kind (h y hy)

theorem join_of (kind : TokenKind) (v w : List Char) (xs : List Lexeme) :
    join (.of kind v) (.of kind w :: xs) = .of kind (v ++ w) :: xs := if_pos ⟨rfl, rfl⟩

theorem joined_comments (h : Comments ys) (w : List Char) (zs : List Lexeme) :
    joined (.of .comment w :: (ys ++ zs)) = joined (.of .comment (w ++ ys.flatMap text) :: zs) := by
  induction ys generalizing w with
  | nil => rw [List.nil_append, List.flatMap_nil, List.append_nil]
  | cons y ys ih =>
    obtain ⟨hy, hys⟩ := List.forall_mem_cons.1 h
    obtain ⟨v, rfl⟩ : ∃ v, y = .of .comment v := ⟨y.text, hy⟩
    have hsame : joined (.of .comment w :: (.of .comment v :: ys ++ zs)) =
        joined (.of .comment (w ++ v) :: (ys ++ zs)) :=
      join_join (x := .of .comment w) (y := .of .comment v) ⟨rfl, rfl⟩ (joined (ys ++ zs))
    rw [hsame, ih hys, List.flatMap_cons, List.append_assoc]
    rfl

theorem exists_joined_around (kind : TokenKind) (xs zs : List Lexeme) :
    ∃ front left right back, front.flatMap text ++ left = xs.flatMap text ∧
      ∀ w, joined (xs ++ .of kind w :: zs) = front ++ .of kind (left ++ w ++ right) :: back := by
  induction xs with
  | nil =>
    have hjoin : ∃ right back, ∀ w,
        join (.of kind w) (joined zs) = .of kind (w ++ right) :: back := by
      cases joined zs with
      | nil => exact ⟨[], [], fun w => by rw [List.append_nil]; rfl⟩
      | cons z rest =>
        by_cases h : kind = z.kind ∧ kind.scope = z.scope
        · exact ⟨z.text, rest, fun w => if_pos h⟩
        · exact ⟨[], z :: rest, fun w => by rw [List.append_nil]; exact if_neg h⟩
    obtain ⟨right, back, hjoin⟩ := hjoin
    exact ⟨[], [], right, back, rfl, hjoin⟩
  | cons x xs ih =>
    obtain ⟨front, left, right, back, htext, hjoined⟩ := ih
    have hcons (w : List Char) : joined (x :: xs ++ .of kind w :: zs) =
        join x (front ++ .of kind (left ++ w ++ right) :: back) := by
      rw [← hjoined]
      rfl
    cases front with
    | nil =>
      by_cases h : x.kind = kind ∧ x.scope = kind.scope
      · obtain ⟨v, rfl⟩ : ∃ v, x = .of kind v := by
          refine ⟨x.text, ?_⟩
          rw [of, ← h.1, ← (h.1 ▸ h.2 : x.scope = x.kind.scope)]
        refine ⟨[], v ++ left, right, back, congrArg (v ++ ·) htext, fun w => ?_⟩
        have hjoin := hcons w
        rw [List.nil_append, join_of, ← List.append_assoc, ← List.append_assoc] at hjoin
        exact hjoin
      · have hsource : [x].flatMap text ++ left = x.text ++ xs.flatMap text := by
          rw [← htext, List.flatMap_singleton]
          rfl
        exact ⟨[x], left, right, back, hsource, fun w => (hcons w).trans (if_neg h)⟩
    | cons y front =>
      refine ⟨join x (y :: front), left, right, back, ?_, fun w => ?_⟩
      · rw [flatMap_text_join, List.append_assoc, htext, List.flatMap_cons]
      · rw [hcons, join_append (List.cons_ne_nil y front)]

end Lexeme

namespace Grammar.Run
variable {μ : Type} {g : Grammar μ} {mode : μ} {source text : List Char} {xs : List Lexeme}
  {n : Nat}

theorem map_lexeme_tokens_of_comment (hopens : g.OpensComments)
    (h : g.Run (.code g.start) source xs (.code mode) text)
    (hlength : commentLength? text = some n) :
    (g.tokens source).map Token.lexeme = Lexeme.joined
      (xs ++ .of .comment (text.take n) :: g.lexemes (.code mode) (text.drop n)) := by
  obtain ⟨-, w, ys, hcomment, hcomments, htext⟩ := run_of_commentLength? hopens mode hlength
  rw [map_lexeme_tokens, h.lexemes_eq, hcomment.lexemes_eq, List.cons_append, ← htext]
  exact Lexeme.joined_append_congr (Lexeme.joined_comments hcomments w _) xs

end Grammar.Run

/-! ### Comments in both languages -/

namespace Language

abbrev Mode : Language → Type
  | asl => Script.Mode
  | wast => Unit

def grammar : (language : Language) → Grammar language.Mode
  | asl => Script.grammar
  | wast => Outline.grammar

theorem tokens_eq (language : Language) (source : String) :
    language.tokens source = language.grammar.tokens source.toList := by
  cases language <;> rfl

theorem inRange (language : Language) : language.grammar.InRange := by
  cases language
  · exact Script.inRange
  · exact Outline.inRange

theorem heedsOpening (language : Language) : language.grammar.HeedsOpening := by
  cases language
  · exact Script.heedsOpening
  · exact Outline.heedsOpening

theorem opensComments (language : Language) : language.grammar.OpensComments := by
  intro mode cs
  cases language
  · cases mode <;> rfl
  · rfl

variable (language : Language) {source : String} {xs : List Lexeme} {mode : language.Mode}
  {text : List Char} {n : Nat}

/-- The comment takes so much of the text, and code goes on behind it in the mode it was in. -/
structure CommentEnds (source : String) (xs : List Lexeme) (mode : language.Mode)
    (text : List Char) (n : Nat) : Prop where
  within : n ≤ text.length
  resumes : ∃ ys, language.grammar.Run (.code mode) text ys (.code mode) (text.drop n) ∧
    Comments ys ∧ ys.flatMap Lexeme.text = text.take n
  kinds : Token.kinds (language.tokens source) = Lexeme.kinds xs ++
    (List.replicate n .comment ++
      Lexeme.kinds (language.grammar.lexemes (.code mode) (text.drop n)))
  /-- Another comment in its place is part of the same token, among the same others. -/
  exchanged : ∃ front left right back, front.flatMap Lexeme.text ++ left = xs.flatMap Lexeme.text ∧
    (language.tokens source).map Token.lexeme =
      front ++ .of .comment (left ++ text.take n ++ right) :: back ∧
    ∀ other, commentLength? other = some other.length →
      (language.tokens (String.ofList (xs.flatMap Lexeme.text ++ (other ++ text.drop n)))).map
        Token.lexeme = front ++ .of .comment (left ++ other ++ right) :: back

structure CommentStaysOpen (source : String) (xs : List Lexeme) (mode : language.Mode)
    (text : List Char) : Prop where
  open_end : ∃ outer, language.grammar.ending (.code language.grammar.start) source.toList =
    .comment mode outer
  kinds : Token.kinds (language.tokens source) =
    Lexeme.kinds xs ++ List.replicate text.length .comment

section Extent
variable (h : language.grammar.Run (.code language.grammar.start) source.toList xs (.code mode)
  text)
include h

theorem commentEnds (hlength : commentLength? text = some n) :
    language.CommentEnds source xs mode text n := by
  obtain ⟨hle, w, ys, hcomment, hcomments, htext⟩ :=
    Grammar.run_of_commentLength? language.opensComments mode hlength
  have hall : Comments (.of .comment w :: ys) := comments_cons hcomments
  constructor
  case within => exact hle
  case resumes => exact ⟨_, hcomment, hall, htext⟩
  case kinds =>
    have htake : (Lexeme.of .comment w :: ys).flatMap Lexeme.text = text.take n := htext
    rw [tokens_eq, (h.trans hcomment).kinds_eq, Lexeme.kinds_append, Lexeme.kinds_comments hall,
      htake, List.length_take, Nat.min_eq_left hle, List.append_assoc]
  case exchanged =>
    obtain ⟨front, left, right, back, hbefore, hjoined⟩ := Lexeme.exists_joined_around .comment xs
      (language.grammar.lexemes (.code mode) (text.drop n))
    refine ⟨front, left, right, back, hbefore, ?_, fun other hother => ?_⟩
    · rw [tokens_eq, h.map_lexeme_tokens_of_comment language.opensComments hlength, hjoined]
    · have hend := commentLength?_append hother (text.drop n)
      have hrun := h
      rw [hrun.flatMap_text] at hrun
      have hrun' := hrun.exchange language.inRange language.heedsOpening
        (opens_of_commentLength? hlength) (opens_of_commentLength? hend)
      rw [tokens_eq, String.toList_ofList,
        hrun'.map_lexeme_tokens_of_comment language.opensComments hend,
        List.take_left' rfl, List.drop_left' rfl, hjoined]

theorem commentStaysOpen (hopen : ['/', '*'] <+: text) (hlength : commentLength? text = none) :
    language.CommentStaysOpen source xs mode text := by
  obtain ⟨ys, outer, hcomment, hcomments, htext⟩ :=
    Grammar.run_of_commentLength?_eq_none language.opensComments mode hopen hlength
  have hrun := h.trans hcomment
  constructor
  case open_end =>
    refine ⟨outer, ?_⟩
    rw [hrun.ending_eq, Grammar.ending]
  case kinds =>
    rw [tokens_eq, hrun.kinds_eq, Grammar.lexemes, Lexeme.kinds_append,
      Lexeme.kinds_comments hcomments, htext]
    exact List.append_nil _

/-- Where code meets the opening of a block comment, exactly what the count of openings and
closings tells is coloured as a comment. The code behind goes on as it was, and what the comment
holds has no part in any other token. -/
theorem comment_extent (hopen : ['/', '*'] <+: text) :
    (∀ n, commentLength? text = some n → language.CommentEnds source xs mode text n) ∧
      (commentLength? text = none → language.CommentStaysOpen source xs mode text) :=
  ⟨fun _ hlength => commentEnds language h hlength, commentStaysOpen language h hopen⟩

end Extent

/-- A name is awaited before the comment and still is behind it. -/
theorem comment_extent_nested :
    Script.grammar.Run (.code .plain) "fn /* a /**/ */ f".toList
        [.of .keyword ['f', 'n'], .of .white [' ']] (.code .named) "/* a /**/ */ f".toList ∧
      ['/', '*'] <+: "/* a /**/ */ f".toList ∧
      asl.CommentEnds "fn /* a /**/ */ f"
        [.of .keyword ['f', 'n'], .of .white [' ']] Script.Mode.named
        "/* a /**/ */ f".toList 12 := by
  have hsource : "fn /* a /**/ */ f".toList = 'f' :: 'n' :: ' ' :: "/* a /**/ */ f".toList := by
    decide
  have hrun := Script.run_fn_blank (c := '/') rfl " * a /**/ */ f".toList.tail
  rw [← show "/* a /**/ */ f".toList = '/' :: " * a /**/ */ f".toList.tail by decide, ← hsource]
    at hrun
  have hopen : ['/', '*'] <+: "/* a /**/ */ f".toList := by decide
  exact ⟨hrun, hopen, (comment_extent asl hrun hopen).1 12 (by decide)⟩

end Language

end SplitEditor
