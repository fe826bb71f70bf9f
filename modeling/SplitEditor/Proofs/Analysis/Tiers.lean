import SplitEditor.Proofs.Analysis.Cursor

/-! What came of a result is a value, a fault of the source or no answer, or a failure of the
binary, and which of these it is can be told from the conversation about it. -/

namespace SplitEditor

namespace Decode

def taggedOk (result value : Handle) : List Reply :=
  [⟨.resultIsOk result, .ok true⟩, ⟨.resultOk result, .ok value⟩]

def taggedError (result error : Handle) : List Reply :=
  [⟨.resultIsOk result, .ok false⟩, ⟨.resultError result, .ok error⟩]

/-- An error value that could be read. It has a place if the handle of its span is not zero. -/
inductive ErrorRead (codec : Codec) (error : Handle) : List Reply → Diagnostic → Prop
  | placeless (message : List UInt8) :
    ErrorRead codec error [⟨.errorMessage error, .ok message⟩, ⟨.errorSpan error, .ok .none⟩]
      ⟨codec.decode message, none⟩
  | placed (message : List UInt8) {handle : Handle} (hhandle : handle ≠ .none) (span : Span) :
    ErrorRead codec error [⟨.errorMessage error, .ok message⟩, ⟨.errorSpan error, .ok handle⟩,
      ⟨.span handle, .ok span⟩] ⟨codec.decode message, some span⟩

inductive CompileLacks (result : Handle) : ResultFault → List Reply → Prop
  | nullResult (h : result = .none) : CompileLacks result .nullResult []
  | okWithoutModule (h : result ≠ .none) :
    CompileLacks result .okWithoutModule (taggedOk result .none)
  | errorWithoutValue (h : result ≠ .none) :
    CompileLacks result .errorWithoutValue (taggedError result .none)

inductive QueryLacks (result : Handle) : ResultFault → List Reply → Prop
  | nullResult (h : result = .none) : QueryLacks result .nullResult []

/-- A missing handle that a hover cannot do without, its span among them. -/
inductive HoverLacks (result : Handle) : ResultFault → List Reply → Prop
  | query {fault : ResultFault} {replies : List Reply} (h : QueryLacks result fault replies) :
    HoverLacks result fault replies
  | hoverWithoutSpan (h : result ≠ .none) {hover : Handle} (hhover : hover ≠ .none) (type : Handle)
      (bytes : List UInt8) : HoverLacks result .hoverWithoutSpan (taggedOk result hover ++
        [⟨.hoverType hover, .ok type⟩, ⟨.bufBytes type, .ok bytes⟩, ⟨.hoverSpan hover, .ok .none⟩])

/-- There is no answer to a query: no value, or an error, which has to be readable. -/
inductive Unanswered (codec : Codec) (result : Handle) : List Reply → Prop
  | valueless : Unanswered codec result (taggedOk result .none)
  | errorless : Unanswered codec result (taggedError result .none)
  | error {error : Handle} (herror : error ≠ .none) {read : List Reply} {d : Diagnostic}
      (hread : ErrorRead codec error read d) :
    Unanswered codec result (taggedError result error ++ read)

inductive CompileCourse (codec : Codec) (entryPoint : String) (result : Handle) :
    List Reply → Except AnalysisError Compilation → Prop
  | compiled (h : result ≠ .none) {buf : Handle} (hbuf : buf ≠ .none) (bytes : List UInt8) :
    CompileCourse codec entryPoint result (taggedOk result buf ++ [⟨.bufBytes buf, .ok bytes⟩])
      (.ok (.compiled bytes))
  | failed (h : result ≠ .none) {error : Handle} (herror : error ≠ .none) {read : List Reply}
      {d : Diagnostic} (hread : ErrorRead codec error read d) :
    CompileCourse codec entryPoint result (taggedError result error ++ read) (.ok (.failed d))
  | lacks {fault : ResultFault} {replies : List Reply} (h : CompileLacks result fault replies) :
    CompileCourse codec entryPoint result replies (.error (.malformedResult entryPoint fault))

inductive QueryCourse {α : Type} (codec : Codec) (entryPoint : String) (result : Handle)
    (Lacks : ResultFault → List Reply → Prop) :
    List Reply → Except AnalysisError (Option α) → Prop
  | unanswered (h : result ≠ .none) {replies : List Reply}
      (hreplies : Unanswered codec result replies) :
    QueryCourse codec entryPoint result Lacks replies (.ok none)
  | answered (h : result ≠ .none) {value : Handle} (hvalue : value ≠ .none) (more : List Reply)
      (a : α) :
    QueryCourse codec entryPoint result Lacks (taggedOk result value ++ more) (.ok (some a))
  | lacks {fault : ResultFault} {replies : List Reply} (h : Lacks fault replies) :
    QueryCourse codec entryPoint result Lacks replies (.error (.malformedResult entryPoint fault))

section Converses
variable {σ α β : Type} {reader : ResultReader σ} {codec : Codec} {entryPoint : String}
  {result : Handle}

theorem converses_require_bind {fault : ResultFault} {handle : Handle} {f : Handle → Decode σ β}
    {g : Handle → Decode (σ × List Reply) β} {C : List Reply → Except AnalysisError β → Prop}
    (hnone : handle = .none → C [] (.error (.malformedResult entryPoint fault)))
    (hsome : handle ≠ .none → Converses (f handle) (g handle) C) :
    Converses (require entryPoint fault handle >>= f) (require entryPoint fault handle >>= g) C :=
  recounts_require_bind (fun h => .whole answered_nil (hnone h)) hsome

theorem converses_diagnostic (error : Handle) :
    Converses (diagnostic reader codec error) (diagnostic reader.recorded codec error)
      fun replies outcome => ∃ d, outcome = .ok d ∧ ErrorRead codec error replies d := by
  refine converses_ask_bind fun message => converses_ask_bind fun handle => ?_
  unfold span?
  -- the span itself is only asked for if its handle is not zero
  by_cases h : handle = .none
  · subst h
    exact converses_bind (converses_pure (converses_pure ⟨_, rfl, .placeless message⟩))
  · rw [Handle.present_of_ne h]
    refine converses_bind (converses_ask_bind fun span => converses_pure ?_)
    exact converses_pure ⟨_, rfl, .placed message h span⟩

theorem converses_compile : Converses (compile reader codec entryPoint result)
    (compile reader.recorded codec entryPoint result) (CompileCourse codec entryPoint result) := by
  refine converses_require_bind (fun h => .lacks (.nullResult h)) fun h => ?_
  refine converses_ask_bind fun ok => ?_
  cases ok with
  | true =>
    refine converses_ask_bind fun buf => converses_require_bind ?_ fun hbuf => ?_
    · rintro rfl
      exact .lacks (.okWithoutModule h)
    · exact converses_ask_bind fun bytes => converses_pure (.compiled h hbuf bytes)
  | false =>
    refine converses_ask_bind fun error => converses_require_bind ?_ fun herror => ?_
    · rintro rfl
      exact .lacks (.errorWithoutValue h)
    · refine converses_bind ((converses_diagnostic error).mono ?_)
      rintro read outcome ⟨d, rfl, hread⟩
      refine converses_pure ?_
      rw [List.append_nil]
      exact .failed h herror hread

theorem converses_value? {C : List Reply → Except AnalysisError (Option Handle) → Prop}
    (hnull : result = .none → C [] (.error (.malformedResult entryPoint .nullResult)))
    (hnone : result ≠ .none → ∀ replies, Unanswered codec result replies → C replies (.ok none))
    (hsome : result ≠ .none → ∀ value, value ≠ .none →
      C (taggedOk result value) (.ok (some value))) :
    Converses (value? reader codec entryPoint result)
      (value? reader.recorded codec entryPoint result) C := by
  refine converses_require_bind hnull fun h => converses_ask_bind fun ok => ?_
  cases ok with
  | true =>
    refine converses_ask_bind fun value => converses_pure ?_
    by_cases hvalue : value = .none
    · subst hvalue
      exact hnone h _ .valueless
    · rw [Handle.present_of_ne hvalue]
      exact hsome h value hvalue
  | false =>
    refine converses_ask_bind fun error => ?_
    by_cases herror : error = .none
    · subst herror
      exact converses_pure (hnone h _ .errorless)
    · simp only [Handle.present_of_ne herror]
      refine converses_bind ((converses_diagnostic error).mono ?_)
      rintro read outcome ⟨d, rfl, hread⟩
      refine converses_bind (converses_log (converses_pure ?_))
      rw [List.append_nil, List.append_nil]
      exact hnone h _ (.error herror hread)

theorem converses_query {α : Type} {f : Option Handle → Decode σ (Option α)}
    {g : Option Handle → Decode (σ × List Reply) (Option α)}
    {Lacks : ResultFault → List Reply → Prop} (hnull : result = .none → Lacks .nullResult [])
    (hf : f none = pure none) (hg : g none = pure none)
    (hvalue : result ≠ .none → ∀ value, value ≠ .none →
      Converses (f (some value)) (g (some value)) fun more =>
        QueryCourse codec entryPoint result Lacks (taggedOk result value ++ more)) :
    Converses (value? reader codec entryPoint result >>= f)
      (value? reader.recorded codec entryPoint result >>= g)
      (QueryCourse codec entryPoint result Lacks) := by
  refine converses_bind (converses_value? (fun h => .lacks (hnull h)) ?_ hvalue)
  intro h replies hreplies
  simp only [hf, hg]
  refine converses_pure ?_
  rw [List.append_nil]
  exact .unanswered h hreplies

theorem converses_hover : Converses (hover reader codec entryPoint result)
    (hover reader.recorded codec entryPoint result)
    (QueryCourse codec entryPoint result (HoverLacks result)) := by
  refine converses_query (fun h => .query (.nullResult h)) rfl rfl fun h hover hhover => ?_
  refine converses_ask_bind fun type => converses_ask_bind fun bytes =>
    converses_ask_bind fun span => converses_require_bind ?_ fun _ => ?_
  · rintro rfl
    exact .lacks (.hoverWithoutSpan h hhover type bytes)
  · exact converses_ask_bind fun span => converses_pure (.answered h hhover _ _)

theorem converses_definition : Converses (definition reader codec entryPoint result)
    (definition reader.recorded codec entryPoint result)
    (QueryCourse codec entryPoint result (QueryLacks result)) :=
  converses_query .nullResult rfl rfl fun h _ hvalue =>
    converses_ask_bind fun _ => converses_pure (.answered h hvalue _ _)

theorem told_of_step {c c' : SpanCursor} {replies : List Reply}
    {item : Option (Except AnalysisError Span)} (h : c.Step replies item c') :
    Told (fun _ outcome => outcome.isOk) replies (item.elim (.ok none) (·.map some)) := by
  cases h with
  | capped => exact .whole answered_nil rfl
  | ended => exact .whole (answered_cons _ _ answered_nil) rfl
  | entryFailed _ e => exact .broken [] _ e answered_nil
  | spanFailed _ _ e => exact .broken [_] _ e (answered_cons _ _ answered_nil)
  | span => exact .whole (answered_cons _ _ (answered_cons _ _ answered_nil)) rfl

theorem next_recorded (reader : ResultReader σ) (c : SpanCursor) (s : σ) (old : List Reply) :
    ∃ replies, c.next reader.recorded (s, old) =
        ((c.next reader s).1, (c.next reader s).2.1, (c.next reader s).2.2, old ++ replies) ∧
      Told (fun _ outcome => outcome.isOk) replies
        ((c.next reader s).1.elim (.ok none) (·.map some)) := by
  cases hfinished : c.finished with
  | true =>
    rw [SpanCursor.next_of_finished _ hfinished, SpanCursor.next_of_finished _ hfinished]
    exact ⟨[], by rw [List.append_nil], .whole answered_nil rfl⟩
  | false =>
    obtain ⟨replies, hrecorded, hstep⟩ := SpanCursor.next_step reader hfinished s old
    exact ⟨replies, hrecorded, told_of_step hstep⟩

theorem collect_recorded (reader : ResultReader σ) (c : SpanCursor) (s : σ) (old : List Reply)
    (spans : List Span) :
    ∃ replies, c.collect reader.recorded (s, old) spans =
        ((c.collect reader s spans).1, (c.collect reader s spans).2.1,
          (c.collect reader s spans).2.2, old ++ replies) ∧
      Told (fun _ outcome => outcome.isOk) replies (c.collect reader s spans).1 := by
  -- along the cursor: each of its steps records what it has asked, and only a failure is an error
  fun_induction SpanCursor.collect reader c s spans generalizing old with
  | case1 c s spans c' s' hnext =>
    obtain ⟨replies, hrecorded, htold⟩ := next_recorded reader c s old
    rw [hnext] at hrecorded htold
    exact ⟨replies, SpanCursor.collect_of_none hrecorded, .whole htold.answered rfl⟩
  | case2 c s spans e c' s' hnext =>
    obtain ⟨replies, hrecorded, htold⟩ := next_recorded reader c s old
    rw [hnext] at hrecorded htold
    exact ⟨replies, SpanCursor.collect_of_error hrecorded, htold.of_error Bool.false_ne_true⟩
  | case3 c s spans span c' s' hnext hagain =>
    obtain ⟨replies, hrecorded, htold⟩ := next_recorded reader c s old
    rw [hnext] at hrecorded htold
    exact ⟨replies, SpanCursor.collect_of_overrun hrecorded hagain, .whole htold.answered rfl⟩
  | case4 c s spans span c' s' hnext hagain ih =>
    obtain ⟨replies, hrecorded, htold⟩ := next_recorded reader c s old
    rw [hnext] at hrecorded htold
    obtain ⟨more, hmore, htold'⟩ := ih (old ++ replies)
    refine ⟨replies ++ more, ?_, htold'.after htold.answered⟩
    rw [SpanCursor.collect_of_span hrecorded hagain, hmore, List.append_assoc]

theorem converses_spans (cursor : SpanCursor) :
    Converses (spans reader cursor) (spans reader.recorded cursor)
      fun _ outcome => outcome.isOk := by
  intro s old events
  obtain ⟨replies, hrecorded, htold⟩ := collect_recorded reader cursor s old []
  refine ⟨replies, _, _, events, run_spans reader cursor s events, ?_, ?_⟩
  · rw [run_spans, hrecorded]
  · refine htold.map _ fun hok => ?_
    cases hfound : (cursor.collect reader s []).1 with
    | error e => rw [hfound] at hok; exact hok
    | ok found => rfl

theorem converses_references {cap : Nat} : Converses (references reader codec entryPoint cap result)
    (references reader.recorded codec entryPoint cap result)
    (QueryCourse codec entryPoint result (QueryLacks result)) := by
  refine converses_query .nullResult rfl rfl fun h _ hvalue => ?_
  refine converses_bind ((converses_spans _).mono ?_)
  rintro replies (e | ⟨found, cursor⟩) hok
  · cases hok
  show Converses (if cursor.truncated then _ else _) (if cursor.truncated then _ else _) _
  split
  · exact converses_bind (converses_log (converses_pure (.answered h hvalue _ _)))
  · exact converses_pure (.answered h hvalue _ _)

end Converses

section Shapes
variable {codec : Codec} {result value value' : Handle} {replies more more' : List Reply}

theorem taggedOk_inj (h : taggedOk result value ++ more = taggedOk result value' ++ more') :
    value = value' ∧ more = more' := by
  simpa [taggedOk] using h

theorem taggedError_inj
    (h : taggedError result value ++ more = taggedError result value' ++ more') :
    value = value' ∧ more = more' := by
  simpa [taggedError] using h

theorem taggedOk_ne_taggedError :
    taggedOk result value ++ more ≠ taggedError result value' ++ more' := by
  simp [taggedOk, taggedError]

theorem answered_taggedOk (result value : Handle) : Answered (taggedOk result value) :=
  answered_cons (.resultIsOk result) true (answered_cons (.resultOk result) value answered_nil)

theorem answered_taggedError (result error : Handle) : Answered (taggedError result error) :=
  answered_cons (.resultIsOk result) false (answered_cons (.resultError result) error answered_nil)

theorem ErrorRead.answered {error : Handle} {d : Diagnostic} (h : ErrorRead codec error replies d) :
    Answered replies := by
  cases h <;> simp [Answered, Except.isOk, Except.toBool]

theorem ErrorRead.unique {error : Handle} {d d' : Diagnostic} (h : ErrorRead codec error replies d)
    (h' : ErrorRead codec error replies d') : d = d' := by
  cases h with
  | placeless message => cases h'; rfl
  | placed message hhandle span => cases h'; rfl

theorem Unanswered.answered (h : Unanswered codec result replies) : Answered replies := by
  cases h with
  | valueless => exact answered_taggedOk _ _
  | errorless => exact answered_taggedError _ _
  | error _ hread => exact answered_append.2 ⟨answered_taggedError _ _, hread.answered⟩

theorem Unanswered.value_eq (h : Unanswered codec result replies)
    (hreplies : replies = taggedOk result value ++ more) : value = .none := by
  cases h with
  | valueless =>
    rw [← List.append_nil (taggedOk result .none)] at hreplies
    exact (taggedOk_inj hreplies).1.symm
  | errorless =>
    rw [← List.append_nil (taggedError result .none)] at hreplies
    exact absurd hreplies.symm taggedOk_ne_taggedError
  | error => exact absurd hreplies.symm taggedOk_ne_taggedError

theorem CompileCourse.of_taggedOk {entryPoint : String} {outcome : Except AnalysisError Compilation}
    (h : CompileCourse codec entryPoint result replies outcome) (hvalue : value ≠ .none)
    (hreplies : replies = taggedOk result value ++ more) :
    ∃ bytes, outcome = .ok (.compiled bytes) ∧ more = [⟨.bufBytes value, .ok bytes⟩] := by
  cases h with
  | compiled _ _ bytes =>
    obtain ⟨rfl, rfl⟩ := taggedOk_inj hreplies
    exact ⟨bytes, rfl, rfl⟩
  | failed => exact absurd hreplies.symm taggedOk_ne_taggedError
  | lacks hlacks =>
    cases hlacks with
    | nullResult => cases hreplies
    | okWithoutModule =>
      rw [← List.append_nil (taggedOk result .none)] at hreplies
      exact absurd (taggedOk_inj hreplies).1.symm hvalue
    | errorWithoutValue =>
      rw [← List.append_nil (taggedError result .none)] at hreplies
      exact absurd hreplies.symm taggedOk_ne_taggedError

theorem CompileCourse.of_taggedError {entryPoint : String}
    {outcome : Except AnalysisError Compilation}
    (h : CompileCourse codec entryPoint result replies outcome) (hvalue : value ≠ .none)
    (hreplies : replies = taggedError result value ++ more) :
    ∃ d, outcome = .ok (.failed d) ∧ ErrorRead codec value more d := by
  cases h with
  | compiled => exact absurd hreplies taggedOk_ne_taggedError
  | failed _ _ hread =>
    obtain ⟨rfl, rfl⟩ := taggedError_inj hreplies
    exact ⟨_, rfl, hread⟩
  | lacks hlacks =>
    cases hlacks with
    | nullResult => cases hreplies
    | okWithoutModule =>
      rw [← List.append_nil (taggedOk result .none)] at hreplies
      exact absurd hreplies taggedOk_ne_taggedError
    | errorWithoutValue =>
      rw [← List.append_nil (taggedError result .none)] at hreplies
      exact absurd (taggedError_inj hreplies).1.symm hvalue

theorem QueryCourse.of_unanswered {α : Type} {entryPoint : String}
    {Lacks : ResultFault → List Reply → Prop} {outcome : Except AnalysisError (Option α)}
    (h : QueryCourse codec entryPoint result Lacks replies outcome)
    (hreplies : Unanswered codec result replies) (hlacks : ∀ fault, ¬Lacks fault replies) :
    outcome = .ok none := by
  cases h with
  | unanswered => rfl
  | answered _ hvalue => exact absurd (hreplies.value_eq rfl) hvalue
  | lacks h => exact absurd h (hlacks _)

end Shapes

/-- A question that failed was the last one, and its error is what came of it. Any other error is
about a missing handle. -/
structure Honest {α : Type} (entryPoint : String) (Lacks : ResultFault → List Reply → Prop)
    (replies : List Reply) (outcome : Except AnalysisError α) : Prop where
  failing : ∀ earlier a e later, replies = earlier ++ ⟨a, .error e⟩ :: later →
    later = [] ∧ outcome = .error e
  error : ∀ e, outcome = .error e → (∃ earlier a, replies = earlier ++ [⟨a, .error e⟩]) ∨
    ∃ fault, e = .malformedResult entryPoint fault ∧ Lacks fault replies

structure CompileTiers (codec : Codec) (entryPoint : String) (result : Handle)
    (replies : List Reply) (outcome : Except AnalysisError Compilation) : Prop
    extends Honest entryPoint (CompileLacks result) replies outcome where
  compiled : ∀ bytes, outcome = .ok (.compiled bytes) ↔ result ≠ .none ∧ ∃ buf, buf ≠ .none ∧
    replies = taggedOk result buf ++ [⟨.bufBytes buf, .ok bytes⟩]
  failed : ∀ d, outcome = .ok (.failed d) ↔ result ≠ .none ∧ ∃ error read, error ≠ .none ∧
    replies = taggedError result error ++ read ∧ ErrorRead codec error read d

structure QueryTiers {α : Type} (codec : Codec) (entryPoint : String) (result : Handle)
    (Lacks : ResultFault → List Reply → Prop) (replies : List Reply)
    (outcome : Except AnalysisError (Option α)) : Prop
    extends Honest entryPoint Lacks replies outcome where
  unanswered : outcome = .ok none ↔ result ≠ .none ∧ Unanswered codec result replies
  answered : ∀ a, outcome = .ok (some a) → result ≠ .none ∧ ∃ value more, value ≠ .none ∧
    replies = taggedOk result value ++ more

section Tiers
variable {σ α : Type} {codec : Codec} {entryPoint : String} {result : Handle} {replies : List Reply}

theorem honest_of_told {C : List Reply → Except AnalysisError α → Prop}
    {Lacks : ResultFault → List Reply → Prop} {outcome : Except AnalysisError α}
    (h : Told C replies outcome) (hlacks : ∀ e, C replies (.error e) →
      ∃ fault, e = .malformedResult entryPoint fault ∧ Lacks fault replies) :
    Honest entryPoint Lacks replies outcome where
  failing _ _ _ _ hreplies := h.failing hreplies
  error e he := by
    subst he
    cases h with
    | broken _ a e => exact .inl ⟨_, a, rfl⟩
    | whole _ hcourse => exact .inr (hlacks e hcourse)

theorem compileTiers_of_told {outcome : Except AnalysisError Compilation}
    (h : Told (CompileCourse codec entryPoint result) replies outcome) :
    CompileTiers codec entryPoint result replies outcome := by
  have hhonest : Honest entryPoint (CompileLacks result) replies outcome := by
    refine honest_of_told h fun e he => ?_
    cases he with
    | lacks hlacks => exact ⟨_, rfl, hlacks⟩
  refine ⟨hhonest, fun bytes => ⟨?_, ?_⟩, fun d => ⟨?_, ?_⟩⟩
  · rintro rfl
    cases h with
    | whole _ hcourse =>
      cases hcourse with
      | compiled hresult hbuf bytes => exact ⟨hresult, _, hbuf, rfl⟩
  · rintro ⟨hresult, buf, hbuf, rfl⟩
    have hcourse := h.course (answered_append.2 ⟨answered_taggedOk result buf,
      answered_cons (.bufBytes buf) bytes answered_nil⟩)
    obtain ⟨bytes', rfl, hbytes⟩ := hcourse.of_taggedOk hbuf rfl
    cases hbytes
    rfl
  · rintro rfl
    cases h with
    | whole _ hcourse =>
      cases hcourse with
      | failed hresult herror hread => exact ⟨hresult, _, _, herror, rfl, hread⟩
  · rintro ⟨hresult, error, read, herror, rfl, hread⟩
    have hcourse := h.course (answered_append.2 ⟨answered_taggedError result error, hread.answered⟩)
    obtain ⟨d', rfl, hread'⟩ := hcourse.of_taggedError herror rfl
    rw [hread.unique hread']

theorem queryTiers_of_told {Lacks : ResultFault → List Reply → Prop}
    {outcome : Except AnalysisError (Option α)}
    (h : Told (QueryCourse codec entryPoint result Lacks) replies outcome)
    (hlacks : ∀ fault, result ≠ .none → Unanswered codec result replies → ¬Lacks fault replies) :
    QueryTiers codec entryPoint result Lacks replies outcome := by
  have hhonest : Honest entryPoint Lacks replies outcome := by
    refine honest_of_told h fun e he => ?_
    cases he with
    | lacks hlacks => exact ⟨_, rfl, hlacks⟩
  refine ⟨hhonest, ⟨?_, ?_⟩, fun a => ?_⟩
  · rintro rfl
    cases h with
    | whole _ hcourse =>
      cases hcourse with
      | unanswered hresult hreplies => exact ⟨hresult, hreplies⟩
  · rintro ⟨hresult, hreplies⟩
    exact (h.course hreplies.answered).of_unanswered hreplies fun fault =>
      hlacks fault hresult hreplies
  · rintro rfl
    cases h with
    | whole _ hcourse =>
      cases hcourse with
      | answered hresult hvalue more => exact ⟨hresult, _, more, hvalue, rfl⟩

/-- Both readers lead to the same outcome, and there is this to say about it and the record. -/
def Shows (x : Decode σ α) (y : Decode (σ × List Reply) α)
    (P : List Reply → Except AnalysisError α → Prop) : Prop :=
  ∀ s events, ∃ replies outcome s' events', x.run (s, events) = (outcome, s', events') ∧
    y.run ((s, []), events) = (outcome, (s', replies), events') ∧ P replies outcome

theorem Recounts.shows {x : Decode σ α} {y : Decode (σ × List Reply) α}
    {C : List Reply → Except AnalysisError α → Prop} (h : Recounts x y C) : Shows x y C :=
  fun s events => h s [] events

theorem Converses.shows {x : Decode σ α} {y : Decode (σ × List Reply) α}
    {C P : List Reply → Except AnalysisError α → Prop} (h : Converses x y C)
    (hP : ∀ replies outcome, Told C replies outcome → P replies outcome) : Shows x y P :=
  (h.recounts.mono hP).shows

/-- Whatever a reader answers and wherever it fails, it can be told from the conversation what came
of a result, and no failure is taken for an answer or an answer for a failure. -/
theorem tiers_apart (reader : ResultReader σ) (codec : Codec) (entryPoint : String) (cap : Nat)
    (result : Handle) :
    Shows (compile reader codec entryPoint result) (compile reader.recorded codec entryPoint result)
        (CompileTiers codec entryPoint result) ∧
      Shows (hover reader codec entryPoint result) (hover reader.recorded codec entryPoint result)
        (QueryTiers codec entryPoint result (HoverLacks result)) ∧
      Shows (definition reader codec entryPoint result)
        (definition reader.recorded codec entryPoint result)
        (QueryTiers codec entryPoint result (QueryLacks result)) ∧
      Shows (references reader codec entryPoint cap result)
        (references reader.recorded codec entryPoint cap result)
        (QueryTiers codec entryPoint result (QueryLacks result)) := by
  have hquery {fault : ResultFault} {replies : List Reply} (hresult : result ≠ .none) :
      ¬QueryLacks result fault replies := by
    rintro ⟨h⟩
    exact hresult h
  refine ⟨converses_compile.shows fun _ _ => compileTiers_of_told,
    converses_hover.shows fun _ _ htold => queryTiers_of_told htold ?_,
    converses_definition.shows fun _ _ htold => queryTiers_of_told htold fun _ h _ => hquery h,
    converses_references.shows fun _ _ htold => queryTiers_of_told htold fun _ h _ => hquery h⟩
  intro fault hresult hreplies hlacks
  cases hlacks with
  | query h => exact hquery hresult h
  | hoverWithoutSpan _ hhover => exact hhover (hreplies.value_eq rfl)

end Tiers

end Decode

end SplitEditor
