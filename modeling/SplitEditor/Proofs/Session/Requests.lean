import SplitEditor.Proofs.Session.Overlap

/-! Requests on their own, with nothing coming in between: what they answer, and the session they
leave. A validation takes the steps of a run one after another. -/

namespace SplitEditor

def Settings.load [Wasm.Engine] (settings : Settings) (artifact : Artifact) :
    Except AnalysisError Host :=
  (Host.load artifact settings.fuel settings.codec settings.maxSourceBytes settings.maxReferences).1

namespace Session
variable [Wasm.Engine]

/-- The binary as requests find it: one that is there is kept, whatever the artifact is now. -/
def loaded (s : Session) (artifact : Artifact) : Except AnalysisError Host :=
  match s.host with
  | some b => .ok b
  | none => s.settings.load artifact

def kept (s : Session) (artifact : Artifact) : Session :=
  { s with host := (s.loaded artifact).toOption }

def verdict (s : Session) (artifact : Artifact) (source : String) : Outcome :=
  (s.loaded artifact).bind fun b => (b.compile source).1

def answer (s : Session) (artifact : Artifact) (query : Query) (line column : UInt32) :
    Except AnalysisError (Option Finding) :=
  (s.loaded artifact).bind fun b =>
    (find b s.settings.documentUri query line column s.source).1

def validated (s : Session) (artifact : Artifact) : Session :=
  let outcome := s.verdict artifact s.source
  ({ s.kept artifact with sequencer := ⟨s.sequencer.latest + 1⟩ }.listed outcome.listing?).published
    (outcome.publication s.source)

def ownReport (s : Session) (artifact : Artifact) : Report :=
  (s.verdict artifact s.source).report ⟨s.sequencer.latest + 1⟩ s.source

theorem settings_validated (s : Session) (artifact : Artifact) :
    (s.validated artifact).settings = s.settings := rfl

theorem oblivious_ensureHost (artifact : Artifact) : Oblivious (ensureHost artifact) := by
  refine oblivious_bind oblivious_current fun s => ?_
  cases s.host with
  | some b => exact oblivious_pure _
  | none =>
    refine oblivious_bind (oblivious_log _) fun _ => ?_
    split
    · exact oblivious_bind (oblivious_update _) fun _ => oblivious_pure _
    · exact oblivious_pure _

theorem oblivious_ask {α : Type} (artifact : Artifact)
    (question : Host → Except AnalysisError α × List LogEvent) :
    Oblivious (ask artifact question) := by
  refine oblivious_bind (oblivious_ensureHost artifact) fun loaded => ?_
  cases loaded with
  | error e => exact oblivious_pure _
  | ok b => exact oblivious_bind (oblivious_log _) fun _ => oblivious_pure _

theorem oblivious_finish (artifact : Artifact) (task : Task) :
    Oblivious (finish artifact task) := by
  cases task with
  | validation ticket source =>
    exact oblivious_bind (oblivious_ask artifact _) fun outcome =>
      oblivious_bind (composes_oblivious.apply ticket source outcome) fun _ => oblivious_pure _
  | query query line column source =>
    exact oblivious_bind oblivious_current fun _ =>
      oblivious_bind (oblivious_ask artifact _) fun _ => oblivious_pure _

theorem act_ensureHost (artifact : Artifact) (s : Session) :
    act (ensureHost artifact) s = (s.loaded artifact, s.kept artifact) := by
  obtain ⟨settings, source, output, host, surface, sequencer⟩ := s
  unfold ensureHost
  rw [act_current_bind]
  cases host with
  | some b => rfl
  | none =>
    simp only [kept, loaded, Settings.load]
    generalize Host.load artifact settings.fuel settings.codec settings.maxSourceBytes
      settings.maxReferences = attempt
    obtain ⟨_ | b, events⟩ := attempt
    · rfl
    · rfl

theorem act_ask {α : Type} (artifact : Artifact)
    (question : Host → Except AnalysisError α × List LogEvent) (s : Session) :
    act (ask artifact question) s =
      ((s.loaded artifact).bind fun b => (question b).1, s.kept artifact) := by
  unfold ask
  rw [act_bind, act_ensureHost]
  · cases s.loaded artifact with
    | error e => rfl
    | ok b => rfl
  · intro loaded
    cases loaded with
    | error e => exact oblivious_pure _
    | ok b => exact oblivious_bind (oblivious_log _) fun _ => oblivious_pure _

theorem act_finish_validation (artifact : Artifact) (ticket : Ticket) (source : String)
    (s : Session) : act (finish artifact (.validation ticket source)) s =
      let (report, s') := act (apply ticket source (s.verdict artifact source)) (s.kept artifact)
      (.report report, s') := by
  unfold finish
  rw [act_bind, act_ask, act_bind]
  · rfl
  · exact fun _ => oblivious_pure _
  · exact fun outcome => oblivious_bind (composes_oblivious.apply ticket source outcome) fun _ =>
      oblivious_pure _

theorem act_perform_validate (artifact : Artifact) (s : Session) :
    act (perform artifact .validate) s =
      (.report (s.ownReport artifact), s.validated artifact) := by
  rw [perform, act_bind (oblivious_finish artifact)]
  show act (finish artifact (.validation ⟨s.sequencer.latest + 1⟩ s.source))
    { s with sequencer := ⟨s.sequencer.latest + 1⟩ } = _
  rw [act_finish_validation, act_apply_current _ _ rfl]
  rfl

theorem act_perform_edit (artifact : Artifact) (text : String) (s : Session) :
    act (perform artifact (.edit text)) s =
      act (perform artifact .validate) { s with source := text } := by
  rw [perform, perform, act_bind (oblivious_finish artifact),
    act_bind (oblivious_finish artifact)]
  rfl

theorem act_perform_query (artifact : Artifact) (query : Query) (line column : UInt32)
    (s : Session) : act (perform artifact (.query query line column)) s =
      (.finding (s.answer artifact query line column), s.kept artifact) := by
  rw [perform, act_bind (oblivious_finish artifact)]
  show act (finish artifact (.query query line column s.source)) s = _
  unfold finish
  rw [act_current_bind, act_bind, act_ask]
  · rfl
  · exact fun _ => oblivious_pure _

end Session

end SplitEditor

namespace SplitEditor.Overlap
open Session

def alone (i : Nat) (host : Option Host) (outcome : Outcome) : List Step :=
  [.issue, .read i, .load host, .answer i outcome, .apply i]

theorem run_alone (w : World) (host : Option Host) (outcome : Outcome) :
    (w.run (alone w.validations.length host outcome)).map (fun w' => (w'.reports, w'.session)) =
      let (report, session) :=
        act (Session.apply ⟨w.session.sequencer.latest + 1⟩ w.session.source outcome)
          { w.session with sequencer := ⟨w.session.sequencer.latest + 1⟩, host }
      some (w.reports ++ [report], session) := by
  simp [alone, World.run, World.runOf, World.step, World.move, act_issue, act_readSource,
    World.apply]

theorem exists_run_validate [Wasm.Engine] (artifact : Artifact) (w : World) :
    ∃ host outcome w' report, w.run (alone w.validations.length host outcome) = some w' ∧
      w'.reports = w.reports ++ [report] ∧
      act (perform artifact .validate) w.session = (.report report, w'.session) := by
  have halone := run_alone w (w.session.loaded artifact).toOption
    (w.session.verdict artifact w.session.source)
  rw [act_apply_current _ _ rfl] at halone
  obtain ⟨w', hrun, hw'⟩ := Option.map_eq_some_iff.1 halone
  obtain ⟨hreports, hsession⟩ := Prod.mk.inj hw'
  refine ⟨_, _, w', _, hrun, hreports, ?_⟩
  rw [act_perform_validate, hsession]
  rfl

theorem exists_run_edit [Wasm.Engine] (artifact : Artifact) (w : World) (text : String) :
    ∃ host outcome w' report,
      w.run (.edit text :: alone w.validations.length host outcome) = some w' ∧
      w'.reports = w.reports ++ [report] ∧
      act (perform artifact (.edit text)) w.session = (.report report, w'.session) := by
  obtain ⟨host, outcome, w', report, hrun, hreports, hact⟩ := exists_run_validate artifact
    { w with session := { w.session with source := text } }
  refine ⟨host, outcome, w', report, hrun, hreports, ?_⟩
  rw [act_perform_edit]
  exact hact

end SplitEditor.Overlap
