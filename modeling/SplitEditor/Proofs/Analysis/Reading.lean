import SplitEditor.Analysis.Host

/-! What taking a result apart does on the side. Whatever relates the states before and after
each question, and before and after each event that is logged, relates those before and after the
whole reading, however it ends. -/

namespace SplitEditor

theorem ok_of_bind_eq_ok {ε α β : Type} {x : Except ε α} {f : α → Except ε β} {b : β}
    (h : x >>= f = .ok b) : ∃ a, x = .ok a ∧ f a = .ok b := by
  cases x with
  | error e => cases h
  | ok a => exact ⟨a, rfl, h⟩

section Run
variable {ε σ α β : Type} {x : ExceptT ε (StateM σ) α} {f : α → ExceptT ε (StateM σ) β} {s s' : σ}

theorem run_bind : (x >>= f).run s = match (x.run s).1 with
    | .ok a => (f a).run (x.run s).2
    | .error e => (.error e, (x.run s).2) := by
  show (match (x.run s).1 with
    | .ok a => (f a).run
    | .error e => (pure (.error e) : StateM σ (Except ε β))) (x.run s).2 = _
  cases (x.run s).1 <;> rfl

theorem run_bind_ok {a : α} (h : x.run s = (.ok a, s')) : (x >>= f).run s = (f a).run s' := by
  rw [run_bind, h]

theorem run_bind_error {e : ε} (h : x.run s = (.error e, s')) :
    (x >>= f).run s = (.error e, s') := by
  rw [run_bind, h]

theorem exists_of_run_bind {b : β} (h : (x >>= f).run s = (.ok b, s')) :
    ∃ a t, x.run s = (.ok a, t) ∧ (f a).run t = (.ok b, s') := by
  cases hx : x.run s with
  | mk result t =>
    cases result with
    | ok a => exact ⟨a, t, rfl, (run_bind_ok hx).symm.trans h⟩
    | error e => cases (run_bind_error hx).symm.trans h

/-- However it ends, the states before and after the action are related. -/
def Keeps (R : σ → σ → Prop) (x : ExceptT ε (StateM σ) α) : Prop := ∀ s, R s (x.run s).2

theorem Keeps.bind {R : σ → σ → Prop} (hx : Keeps R x) (hf : ∀ a, Keeps R (f a))
    (htrans : ∀ {u v w}, R u v → R v w → R u w) : Keeps R (x >>= f) := by
  intro s
  rw [run_bind]
  split
  · exact htrans (hx s) (hf _ _)
  · exact hx s

end Run

namespace SpanCursor
variable {σ : Type} {reader : ResultReader σ} {c c' : SpanCursor} {s s' : σ} {spans : List Span}

theorem collect_of_none (hnext : c.next reader s = (none, c', s')) :
    c.collect reader s spans = (.ok spans.reverse, c', s') := by
  rw [collect]
  split <;> simp_all

theorem collect_of_error {e : AnalysisError} (hnext : c.next reader s = (some (.error e), c', s')) :
    c.collect reader s spans = (.error e, c', s') := by
  rw [collect]
  split <;> simp_all

theorem collect_of_span {span : Span} (hnext : c.next reader s = (some (.ok span), c', s'))
    (hagain : c'.index ≠ 0) :
    c.collect reader s spans = c'.collect reader s' (span :: spans) := by
  rw [collect]
  split <;> simp_all

theorem collect_of_overrun {span : Span} (hnext : c.next reader s = (some (.ok span), c', s'))
    (hagain : c'.index = 0) :
    c.collect reader s spans = (.ok (span :: spans).reverse, c', s') := by
  rw [collect]
  split <;> simp_all

end SpanCursor

def LogEvent.isEnd : LogEvent → Bool
  | entryPointCompleted .. | entryPointFailed .. => true
  | _ => false

def LogEvent.isNote : LogEvent → Bool
  | queryErrorSuppressed .. | referenceCapReached .. => true
  | _ => false

theorem LogEvent.isEnd_of_isNote {event : LogEvent} (h : event.isNote) : event.isEnd = false := by
  cases event with
  | queryErrorSuppressed | referenceCapReached => rfl
  | _ => cases h

namespace Decode
variable {σ α β : Type} {R : σ × List LogEvent → σ × List LogEvent → Prop}
  {reader : ResultReader σ}

/-- The relation holds of doing nothing, of one thing after another, of every question, and of
what is logged on the way. -/
structure Tracks (reader : ResultReader σ) (R : σ × List LogEvent → σ × List LogEvent → Prop) :
    Prop where
  refl : ∀ w, R w w
  trans : ∀ {u v w}, R u v → R v w → R u w
  asked : ∀ a s events, R (s, events) ((reader.read a s).2, events)
  logged : ∀ event s events, event.isNote → R (s, events) (s, events ++ [event])

namespace Tracks
variable (h : Tracks reader R)
include h

theorem keeps_pure (a : α) : Keeps R (pure a : Decode σ α) := fun w => h.refl w

theorem keeps_throw (e : AnalysisError) : Keeps R (throw e : Decode σ α) := fun w => h.refl w

theorem keeps_bind {x : Decode σ α} {f : α → Decode σ β} (hx : Keeps R x)
    (hf : ∀ a, Keeps R (f a)) : Keeps R (x >>= f) := hx.bind hf h.trans

theorem keeps_ask (a : Accessor) : Keeps R (ask reader a) := fun (s, events) => h.asked a s events

theorem keeps_log {event : LogEvent} (hnote : event.isNote) :
    Keeps R (log event : Decode σ Unit) := fun (s, events) => h.logged event s events hnote

theorem keeps_require (entryPoint : String) (fault : ResultFault) (handle : Handle) :
    Keeps R (require entryPoint fault handle : Decode σ Handle) := by
  unfold require
  split
  · exact h.keeps_pure _
  · exact h.keeps_throw _

theorem keeps_span? (handle : Handle) : Keeps R (span? reader handle) := by
  unfold span?
  split
  · exact h.keeps_bind (h.keeps_ask _) fun _ => h.keeps_pure _
  · exact h.keeps_pure _

theorem keeps_diagnostic (codec : Codec) (error : Handle) :
    Keeps R (diagnostic reader codec error) :=
  h.keeps_bind (h.keeps_ask _) fun _ => h.keeps_bind (h.keeps_ask _) fun _ =>
    h.keeps_bind (h.keeps_span? _) fun _ => h.keeps_pure _

theorem keeps_compile (codec : Codec) (entryPoint : String) (result : Handle) :
    Keeps R (compile reader codec entryPoint result) := by
  refine h.keeps_bind (h.keeps_require _ _ _) fun result =>
    h.keeps_bind (h.keeps_ask _) fun ok => ?_
  split
  · exact h.keeps_bind (h.keeps_ask _) fun _ => h.keeps_bind (h.keeps_require _ _ _) fun _ =>
      h.keeps_bind (h.keeps_ask _) fun _ => h.keeps_pure _
  · exact h.keeps_bind (h.keeps_ask _) fun _ => h.keeps_bind (h.keeps_require _ _ _) fun _ =>
      h.keeps_bind (h.keeps_diagnostic _ _) fun _ => h.keeps_pure _

theorem keeps_value? (codec : Codec) (entryPoint : String) (result : Handle) :
    Keeps R (value? reader codec entryPoint result) := by
  refine h.keeps_bind (h.keeps_require _ _ _) fun result =>
    h.keeps_bind (h.keeps_ask _) fun ok => ?_
  split
  · exact h.keeps_bind (h.keeps_ask _) fun _ => h.keeps_pure _
  · refine h.keeps_bind (h.keeps_ask _) fun error => ?_
    cases Handle.present error with
    | some error =>
      exact h.keeps_bind (h.keeps_diagnostic _ _) fun _ =>
        h.keeps_bind (h.keeps_log rfl) fun _ => h.keeps_pure _
    | none => exact h.keeps_pure _

theorem keeps_hover (codec : Codec) (entryPoint : String) (result : Handle) :
    Keeps R (hover reader codec entryPoint result) := by
  refine h.keeps_bind (h.keeps_value? _ _ _) fun value => ?_
  split
  · exact h.keeps_pure _
  · exact h.keeps_bind (h.keeps_ask _) fun _ => h.keeps_bind (h.keeps_ask _) fun _ =>
      h.keeps_bind (h.keeps_ask _) fun _ => h.keeps_bind (h.keeps_require _ _ _) fun _ =>
        h.keeps_bind (h.keeps_ask _) fun _ => h.keeps_pure _

theorem keeps_definition (codec : Codec) (entryPoint : String) (result : Handle) :
    Keeps R (definition reader codec entryPoint result) := by
  refine h.keeps_bind (h.keeps_value? _ _ _) fun value => ?_
  split
  · exact h.keeps_pure _
  · exact h.keeps_bind (h.keeps_ask _) fun _ => h.keeps_pure _

theorem next_state (c : SpanCursor) (s : σ) (events : List LogEvent) :
    R (s, events) ((c.next reader s).2.2, events) := by
  unfold SpanCursor.next
  split
  · exact h.refl _
  split
  · exact h.refl _
  have hget := h.asked (.spansGet c.list c.index) s events
  generalize reader.read (.spansGet c.list c.index) s = answer at hget
  obtain ⟨handle | handle, s₁⟩ := answer
  · exact hget
  simp only
  split
  · exact hget
  · next handle _ =>
    have hspan := h.asked (.span handle) s₁ events
    generalize reader.read (.span handle) s₁ = answer at hspan
    obtain ⟨span | span, s₂⟩ := answer
    · exact h.trans hget hspan
    · exact h.trans hget hspan

theorem collect_state (c : SpanCursor) (s : σ) (spans : List Span) (events : List LogEvent) :
    R (s, events) ((c.collect reader s spans).2.2, events) := by
  fun_induction SpanCursor.collect reader c s spans with
  | case1 c s spans c' s' hnext =>
    have hstate := h.next_state c s events
    rwa [hnext] at hstate
  | case2 c s spans e c' s' hnext =>
    have hstate := h.next_state c s events
    rwa [hnext] at hstate
  | case3 c s spans span c' s' hnext =>
    have hstate := h.next_state c s events
    rwa [hnext] at hstate
  | case4 c s spans span c' s' hnext hagain ih =>
    have hstate := h.next_state c s events
    rw [hnext] at hstate
    exact h.trans hstate ih

theorem keeps_spans (cursor : SpanCursor) : Keeps R (spans reader cursor) :=
  fun (s, events) => h.collect_state cursor s [] events

theorem keeps_references (codec : Codec) (entryPoint : String) (cap : Nat) (result : Handle) :
    Keeps R (references reader codec entryPoint cap result) := by
  refine h.keeps_bind (h.keeps_value? _ _ _) fun value => ?_
  split
  · exact h.keeps_pure _
  · refine h.keeps_bind (h.keeps_spans _) fun (spans, cursor) => ?_
    show Keeps R (if cursor.truncated then _ else _)
    split
    · exact h.keeps_bind (h.keeps_log rfl) fun _ => h.keeps_pure _
    · exact h.keeps_pure _

end Tracks

theorem run_spans (reader : ResultReader σ) (cursor : SpanCursor) (s : σ) (events : List LogEvent) :
    (spans reader cursor).run (s, events) = ((cursor.collect reader s []).1.map
      (·, (cursor.collect reader s []).2.1), (cursor.collect reader s []).2.2, events) := rfl

end Decode

end SplitEditor
