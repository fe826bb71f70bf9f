import SplitEditor.Proofs.Analysis.Reading

/-! Conversations with a reader. A reader can keep a record of what it was asked and what it
answered, and whoever talks to it will not notice. What a decoder makes of a result is read off that
record: it ends with the first answer that fails, or it takes one of the courses of the decoder. -/

namespace SplitEditor

namespace Handle

theorem present_of_ne {handle : Handle} (h : handle ≠ .none) : handle.present = some handle :=
  if_neg fun hword => h (congrArg Handle.mk hword)

end Handle

structure Reply where
  accessor : Accessor
  answer : Except AnalysisError accessor.Answer

def Answered (replies : List Reply) : Prop := ∀ reply ∈ replies, reply.answer.isOk

theorem answered_nil : Answered [] := fun _ hmem => nomatch hmem

theorem answered_append {replies more : List Reply} :
    Answered (replies ++ more) ↔ Answered replies ∧ Answered more := List.forall_mem_append

theorem answered_cons (a : Accessor) (answer : a.Answer) {replies : List Reply}
    (h : Answered replies) : Answered (⟨a, .ok answer⟩ :: replies) :=
  List.forall_mem_cons.2 ⟨rfl, h⟩

def ResultReader.recorded {σ : Type} (reader : ResultReader σ) :
    ResultReader (σ × List Reply) where
  read a := fun (s, replies) =>
    let (answer, s) := reader.read a s
    (answer, s, replies ++ [⟨a, answer⟩])

theorem ResultReader.read_recorded {σ : Type} (reader : ResultReader σ) (a : Accessor) (s : σ)
    (old : List Reply) : reader.recorded.read a (s, old) =
      ((reader.read a s).1, (reader.read a s).2, old ++ [⟨a, (reader.read a s).1⟩]) := rfl

section Told
variable {α : Type} {C D : List Reply → Except AnalysisError α → Prop} {replies more : List Reply}
  {outcome : Except AnalysisError α}

/-- A conversation breaks off with an answer that fails, and that is what came of it. Otherwise it
takes its course. -/
inductive Told (C : List Reply → Except AnalysisError α → Prop) :
    List Reply → Except AnalysisError α → Prop
  | broken (earlier : List Reply) (a : Accessor) (e : AnalysisError) (h : Answered earlier) :
    Told C (earlier ++ [⟨a, .error e⟩]) (.error e)
  | whole {replies : List Reply} {outcome : Except AnalysisError α} (h : Answered replies)
      (hcourse : C replies outcome) : Told C replies outcome

theorem Told.mono (h : Told C replies outcome)
    (hmono : ∀ replies outcome, C replies outcome → D replies outcome) :
    Told D replies outcome := by
  cases h with
  | broken earlier a e h => exact .broken earlier a e h
  | whole h hcourse => exact .whole h (hmono _ _ hcourse)

theorem Told.map {β : Type} {D : List Reply → Except AnalysisError β → Prop}
    (h : Told C replies outcome) (f : α → β) (hmap : C replies outcome → D replies (outcome.map f)) :
    Told D replies (outcome.map f) := by
  cases h with
  | broken earlier a e h => exact .broken earlier a e h
  | whole h hcourse => exact .whole h (hmap hcourse)

theorem Told.after (hreplies : Answered replies)
    (h : Told (fun more outcome => C (replies ++ more) outcome) more outcome) :
    Told C (replies ++ more) outcome := by
  cases h with
  | broken earlier a e h =>
    rw [← List.append_assoc]
    exact .broken _ a e (answered_append.2 ⟨hreplies, h⟩)
  | whole h hcourse => exact .whole (answered_append.2 ⟨hreplies, h⟩) hcourse

theorem Told.answered {a : α} (h : Told C replies (.ok a)) : Answered replies := by
  cases h with
  | whole h => exact h

theorem Told.course (h : Told C replies outcome) (hreplies : Answered replies) :
    C replies outcome := by
  cases h with
  | broken earlier a e =>
    exact (Bool.false_ne_true (hreplies ⟨a, .error e⟩ List.mem_concat_self)).elim
  | whole _ hcourse => exact hcourse

theorem Told.of_error {β : Type} {D : List Reply → Except AnalysisError β → Prop}
    {e : AnalysisError} (h : Told C replies (.error e)) (hcourse : ¬C replies (.error e)) :
    Told D replies (.error e) := by
  cases h with
  | broken earlier a e h => exact .broken earlier a e h
  | whole _ h => exact absurd h hcourse

theorem Told.failing (h : Told C replies outcome) {earlier later : List Reply} {a : Accessor}
    {e : AnalysisError} (hreplies : replies = earlier ++ ⟨a, .error e⟩ :: later) :
    later = [] ∧ outcome = .error e := by
  have hfailed {replies : List Reply} (hmem : ⟨a, .error e⟩ ∈ replies) : ¬Answered replies :=
    fun h => Bool.false_ne_true (h ⟨a, .error e⟩ hmem)
  -- an answer that failed is among those of a broken conversation only, and there it is the last
  cases h with
  | whole h => exact absurd h (hfailed (by simp [hreplies]))
  | broken before a' e' h =>
    rcases List.eq_nil_or_concat later with rfl | ⟨later, last, rfl⟩
    · obtain ⟨-, hlast⟩ := List.append_inj' hreplies rfl
      cases hlast
      exact ⟨rfl, rfl⟩
    · rw [List.concat_eq_append, ← List.cons_append, ← List.append_assoc] at hreplies
      obtain ⟨rfl, -⟩ := List.append_inj' hreplies rfl
      exact absurd h (hfailed (by simp))

end Told

namespace Decode
variable {σ α β : Type} {reader : ResultReader σ} {C D : List Reply → Except AnalysisError α → Prop}

/-- The decoder gets on with a reader as with one that keeps a record, and the record is related to
what came of it, wherever it broke off. -/
def Recounts (x : Decode σ α) (y : Decode (σ × List Reply) α)
    (C : List Reply → Except AnalysisError α → Prop) : Prop :=
  ∀ s old events, ∃ replies outcome s' events', x.run (s, events) = (outcome, s', events') ∧
    y.run ((s, old), events) = (outcome, (s', old ++ replies), events') ∧ C replies outcome

/-- The decoder gets on with a reader as with one that keeps a record, and the record tells what
came of it. -/
def Converses (x : Decode σ α) (y : Decode (σ × List Reply) α)
    (C : List Reply → Except AnalysisError α → Prop) : Prop :=
  ∀ s old events, ∃ replies outcome s' events', x.run (s, events) = (outcome, s', events') ∧
    y.run ((s, old), events) = (outcome, (s', old ++ replies), events') ∧ Told C replies outcome

section Recounts
variable {x : Decode σ α} {y : Decode (σ × List Reply) α}

theorem Recounts.mono (h : Recounts x y C)
    (hmono : ∀ replies outcome, C replies outcome → D replies outcome) : Recounts x y D := by
  intro s old events
  obtain ⟨replies, outcome, s', events', hx, hy, hC⟩ := h s old events
  exact ⟨replies, outcome, s', events', hx, hy, hmono replies outcome hC⟩

theorem Recounts.and (hC : Recounts x y C) (hD : Recounts x y D) :
    Recounts x y fun replies outcome => C replies outcome ∧ D replies outcome := by
  intro s old events
  obtain ⟨replies, outcome, s', events', hx, hy, hC⟩ := hC s old events
  obtain ⟨replies', outcome', s'', events'', -, hy', hD⟩ := hD s old events
  -- there is only one record, and only one outcome
  rw [hy, Prod.mk.injEq, Prod.mk.injEq, Prod.mk.injEq] at hy'
  obtain ⟨rfl, ⟨rfl, hreplies⟩, rfl⟩ := hy'
  obtain rfl := List.append_cancel_left hreplies
  exact ⟨replies, outcome, s', events', hx, hy, hC, hD⟩

theorem recounts_of_outcome {outcome : Except AnalysisError α} (h : C [] outcome) :
    Recounts (ExceptT.mk (pure outcome) : Decode σ α) (ExceptT.mk (pure outcome)) C :=
  fun s old events => ⟨[], outcome, s, events, rfl, by rw [List.append_nil]; rfl, h⟩

theorem recounts_pure {a : α} (h : C [] (.ok a)) :
    Recounts (pure a : Decode σ α) (pure a) C := recounts_of_outcome h

theorem recounts_throw {e : AnalysisError} (h : C [] (.error e)) :
    Recounts (throw e : Decode σ α) (throw e) C := recounts_of_outcome h

theorem recounts_log {event : LogEvent} {C : List Reply → Except AnalysisError Unit → Prop}
    (h : C [] (.ok ())) : Recounts (log event : Decode σ Unit) (log event) C :=
  fun s old events =>
    ⟨[], .ok (), s, events ++ [event], rfl, by rw [List.append_nil]; rfl, h⟩

theorem recounts_ask {a : Accessor} {C : List Reply → Except AnalysisError a.Answer → Prop}
    (h : ∀ answer, C [⟨a, answer⟩] answer) :
    Recounts (ask reader a) (ask reader.recorded a) C :=
  fun s _ events => ⟨[⟨a, (reader.read a s).1⟩], (reader.read a s).1, (reader.read a s).2, events,
    rfl, rfl, h _⟩

theorem recounts_bind {f : α → Decode σ β} {g : α → Decode (σ × List Reply) β}
    {C : List Reply → Except AnalysisError β → Prop}
    (h : Recounts x y fun replies outcome => match outcome with
      | .ok a => Recounts (f a) (g a) fun more outcome => C (replies ++ more) outcome
      | .error e => C replies (.error e)) : Recounts (x >>= f) (y >>= g) C := by
  intro s old events
  obtain ⟨replies, outcome, s', events', hx, hy, hnext⟩ := h s old events
  -- both runs go on, or both end here
  cases outcome with
  | error e => exact ⟨replies, .error e, s', events', run_bind_error hx, run_bind_error hy, hnext⟩
  | ok a =>
    obtain ⟨more, outcome, s'', events'', hf, hg, hC⟩ := hnext s' (old ++ replies) events'
    refine ⟨replies ++ more, outcome, s'', events'', (run_bind_ok hx).trans hf, ?_, hC⟩
    rw [run_bind_ok hy, hg, List.append_assoc]

theorem recounts_require_bind {entryPoint : String} {fault : ResultFault} {handle : Handle}
    {f : Handle → Decode σ β} {g : Handle → Decode (σ × List Reply) β}
    {C : List Reply → Except AnalysisError β → Prop}
    (hnone : handle = .none → C [] (.error (.malformedResult entryPoint fault)))
    (hsome : handle ≠ .none → Recounts (f handle) (g handle) C) :
    Recounts (require entryPoint fault handle >>= f) (require entryPoint fault handle >>= g) C := by
  unfold require
  by_cases h : handle = .none
  · subst h
    exact recounts_bind (recounts_throw (hnone rfl))
  · rw [Handle.present_of_ne h]
    exact recounts_bind (recounts_pure (hsome h))

end Recounts

/-! ### Conversations without failures -/

theorem Converses.recounts {x : Decode σ α} {y : Decode (σ × List Reply) α} (h : Converses x y C) :
    Recounts x y (Told C) := h

theorem Converses.mono {x : Decode σ α} {y : Decode (σ × List Reply) α} (h : Converses x y C)
    (hmono : ∀ replies outcome, C replies outcome → D replies outcome) : Converses x y D :=
  h.recounts.mono fun _ _ htold => htold.mono hmono

theorem converses_pure {a : α} (h : C [] (.ok a)) :
    Converses (pure a : Decode σ α) (pure a) C := recounts_pure (.whole answered_nil h)

theorem converses_log {event : LogEvent} {C : List Reply → Except AnalysisError Unit → Prop}
    (h : C [] (.ok ())) : Converses (log event : Decode σ Unit) (log event) C :=
  recounts_log (.whole answered_nil h)

theorem converses_ask {a : Accessor} {C : List Reply → Except AnalysisError a.Answer → Prop}
    (h : ∀ answer, C [⟨a, .ok answer⟩] (.ok answer)) :
    Converses (ask reader a) (ask reader.recorded a) C := by
  refine recounts_ask fun answer => ?_
  cases answer with
  | error e => exact .broken [] a e answered_nil
  | ok answer => exact .whole (answered_cons a answer answered_nil) (h answer)

theorem converses_bind {x : Decode σ α} {y : Decode (σ × List Reply) α} {f : α → Decode σ β}
    {g : α → Decode (σ × List Reply) β} {C : List Reply → Except AnalysisError β → Prop}
    (h : Converses x y fun replies outcome => match outcome with
      | .ok a => Converses (f a) (g a) fun more outcome => C (replies ++ more) outcome
      | .error e => C replies (.error e)) : Converses (x >>= f) (y >>= g) C := by
  refine recounts_bind (h.recounts.mono ?_)
  rintro replies outcome (⟨earlier, a, e, hearlier⟩ | ⟨hreplies, hnext⟩)
  · exact .broken earlier a e hearlier
  · cases outcome with
    | error e => exact .whole hreplies hnext
    | ok a => exact hnext.recounts.mono fun _ _ htold => htold.after hreplies

theorem converses_ask_bind {a : Accessor} {f : a.Answer → Decode σ β}
    {g : a.Answer → Decode (σ × List Reply) β} {C : List Reply → Except AnalysisError β → Prop}
    (h : ∀ answer, Converses (f answer) (g answer) fun more => C (⟨a, .ok answer⟩ :: more)) :
    Converses (ask reader a >>= f) (ask reader.recorded a >>= g) C :=
  converses_bind (converses_ask h)

end Decode

end SplitEditor
