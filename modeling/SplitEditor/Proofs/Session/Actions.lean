import SplitEditor.Session.Request

/-! What the actions of a session do to it, whatever has been logged before. -/

namespace SplitEditor

def LogEvent.isFetch : LogEvent → Bool
  | artifactLoaded .. | artifactLoadFailed .. => true
  | _ => false

def fetchesIn (events : List LogEvent) : List LogEvent := events.filter LogEvent.isFetch

abbrev Outcome := Except AnalysisError Compilation

namespace Outcome

def status : Outcome → BuildStatus
  | .ok (.compiled _) => .ready
  | .ok (.failed d) => .failed d.message
  | .error _ => .internalError

def markers (source : String) : Outcome → List Marker
  | .ok (.failed ⟨message, some span⟩) =>
    [⟨(SourceLines.ofSource source).toRange span, .error, message⟩]
  | _ => []

def module? : Outcome → Option (List UInt8)
  | .ok (.compiled module) => some module
  | _ => none

def listing? (outcome : Outcome) : Option String :=
  outcome.module?.bind fun module => (Wasm.Listing.render module).toOption

def publication (source : String) (outcome : Outcome) : Publication :=
  ⟨outcome.listing?, outcome.markers source, outcome.status, outcome.module?⟩

def report (ticket : Ticket) (source : String) (outcome : Outcome) : Report :=
  .applied ticket.sequence outcome.status (outcome.markers source) outcome.module?

theorem ofOutcome_eq (ticket : Ticket) (source : String) (outcome : Outcome) :
    (Publication.ofOutcome ticket source outcome).1 = outcome.publication source := by
  rcases outcome with e | module | ⟨message, span⟩
  · rfl
  · simp only [Publication.ofOutcome, publication, listing?, module?, markers, status,
      Option.bind_some]
    cases Wasm.Listing.render module <;> rfl
  · cases span <;> rfl

theorem publication_listing (source : String) (outcome : Outcome) :
    (outcome.publication source).listing = outcome.listing? := rfl

theorem report_publication (ticket : Ticket) (source : String) (outcome : Outcome) :
    (outcome.publication source).report ticket = outcome.report ticket source := rfl

theorem length_markers_le (source : String) (outcome : Outcome) :
    (outcome.markers source).length ≤ 1 := by
  rcases outcome with e | module | ⟨message, _ | span⟩ <;> simp [markers]

theorem length_markers_eq_one_iff (source : String) (outcome : Outcome) :
    (outcome.markers source).length = 1 ↔ (∃ message, outcome.status = .failed message) ∧
      ∃ d, outcome = .ok (.failed d) ∧ d.span.isSome := by
  rcases outcome with e | module | ⟨message, _ | span⟩ <;> simp [markers, status]

theorem status_of_mem_markers {source : String} {outcome : Outcome} {marker : Marker}
    (h : marker ∈ outcome.markers source) : outcome.status = .failed marker.message := by
  rcases outcome with e | module | ⟨message, _ | span⟩ <;> simp_all [markers, status]

theorem isSome_module?_iff (outcome : Outcome) :
    outcome.module?.isSome ↔ outcome.status = .ready := by
  rcases outcome with e | module | d <;> simp [module?, status]

end Outcome

namespace Surface

@[simp] theorem status_setStatus (s : Surface) (status : BuildStatus) :
    (s.setStatus status).status = some status := rfl

@[simp] theorem history_setStatus (s : Surface) (status : BuildStatus) :
    (s.setStatus status).history = s.history ++ [status] := rfl

@[simp] theorem markersOf_setStatus (s : Surface) (status : BuildStatus) (owner : String) :
    (s.setStatus status).markersOf owner = s.markersOf owner := rfl

@[simp] theorem markersOf_setMarkers (s : Surface) (owner : String) (markers : List Marker) :
    (s.setMarkers owner markers).markersOf owner = markers := by
  simp [markersOf, setMarkers]

@[simp] theorem history_setMarkers (s : Surface) (owner : String) (markers : List Marker) :
    (s.setMarkers owner markers).history = s.history := rfl

@[simp] theorem history_setOutput (s : Surface) (text : String) :
    (s.setOutput text).history = s.history := rfl

theorem markersOf_setMarkers_of_ne (s : Surface) {owner other : String} (markers : List Marker)
    (h : other ≠ owner) : (s.setMarkers owner markers).markersOf other = s.markersOf other := by
  have hothers : (s.markers.filter fun entry => entry.1 ≠ owner).lookup other =
      s.markers.lookup other := by
    induction s.markers with
    | nil => rfl
    | cons entry entries ih =>
      by_cases hname : entry.1 = owner
      · have hne : (other == entry.1) = false := beq_false_of_ne (hname ▸ h)
        rw [List.filter_cons_of_neg (by simpa using hname), ih, List.lookup_cons, hne]
      · rw [List.filter_cons_of_pos (by simpa using hname), List.lookup_cons, List.lookup_cons, ih]
  have hne : (other == owner) = false := beq_false_of_ne h
  rw [markersOf, setMarkers, List.lookup_cons, hne]
  exact congrArg (·.getD []) hothers

end Surface

namespace Session

def act {α : Type} (action : SessionM α) (s : Session) : α × Session :=
  let (a, s, _) := action.run (s, [])
  (a, s)

variable {α β : Type}

/-- The action does the same whatever has been logged before, and only adds to it. -/
def Oblivious (action : SessionM α) : Prop :=
  ∀ s events, ∃ new, action.run (s, events) = ((act action s).1, (act action s).2, events ++ new)

theorem oblivious_pure (a : α) : Oblivious (pure a) :=
  fun _ events => ⟨[], by rw [List.append_nil]; rfl⟩

theorem oblivious_current : Oblivious current :=
  fun _ events => ⟨[], by rw [List.append_nil]; rfl⟩

theorem oblivious_update (f : Session → Session) : Oblivious (update f) :=
  fun _ events => ⟨[], by rw [List.append_nil]; rfl⟩

theorem oblivious_log (events : List LogEvent) : Oblivious (log events) :=
  fun _ _ => ⟨events, rfl⟩

theorem act_bind {action : SessionM α} {next : α → SessionM β} (hnext : ∀ a, Oblivious (next a))
    (s : Session) : act (action >>= next) s = act (next (act action s).1) (act action s).2 := by
  obtain ⟨new, h⟩ := hnext (act action s).1 (act action s).2 (action.run (s, [])).2.2
  have hbind : (action >>= next).run (s, []) =
      (next (act action s).1).run ((act action s).2, (action.run (s, [])).2.2) := rfl
  unfold act at h hbind ⊢
  rw [hbind, h]

theorem oblivious_bind {action : SessionM α} {next : α → SessionM β} (haction : Oblivious action)
    (hnext : ∀ a, Oblivious (next a)) : Oblivious (action >>= next) := by
  intro s events
  obtain ⟨new, h⟩ := haction s events
  obtain ⟨new', h'⟩ := hnext (act action s).1 (act action s).2 (events ++ new)
  refine ⟨new ++ new', ?_⟩
  have hbind : (action >>= next).run (s, events) =
      (next (action.run (s, events)).1).run (action.run (s, events)).2 := rfl
  rw [hbind, h, act_bind hnext, ← List.append_assoc]
  exact h'

/-- What holds of the single steps, and of one after the other, holds of what is done without the
binary: no step touches it, and none tells of fetching it. -/
structure Composes (P : (α : Type) → SessionM α → Prop) : Prop where
  pure : ∀ {α : Type} (a : α), P α (pure a)
  current : P Session current
  update : ∀ {f : Session → Session}, (∀ s, (f s).host = s.host) → P Unit (update f)
  log : ∀ {events : List LogEvent}, fetchesIn events = [] → P Unit (log events)
  bind : ∀ {α β : Type} {action : SessionM α} {next : α → SessionM β}, P α action →
    (∀ a, P β (next a)) → P β (action >>= next)

namespace Composes
variable {P : (α : Type) → SessionM α → Prop} (h : Composes P)
include h

theorem publish (ticket : Ticket) (p : Publication) : P Report (publish ticket p) :=
  h.bind (h.update fun _ => rfl) fun _ => h.bind (h.log rfl) fun _ => h.pure _

theorem beginApply (ticket : Ticket) (source : String) (outcome : Outcome) :
    P (Option Publication) (beginApply ticket source outcome) := by
  have hevents : fetchesIn (Publication.ofOutcome ticket source outcome).2 = [] := by
    rcases outcome with e | module | d
    · rfl
    · simp only [Publication.ofOutcome]
      cases Wasm.Listing.render module <;> rfl
    · rfl
  refine h.bind h.current fun s => ?_
  generalize Publication.ofOutcome ticket source outcome = shown at hevents
  obtain ⟨⟨listing, markers, status, module⟩, events⟩ := shown
  split
  · refine h.bind (h.log hevents) fun _ => ?_
    cases listing with
    | some listing => exact h.bind (h.update fun _ => rfl) fun _ => h.pure _
    | none => exact h.bind (h.pure _) fun _ => h.pure _
  · exact h.bind (h.log rfl) fun _ => h.pure _

theorem apply (ticket : Ticket) (source : String) (outcome : Outcome) :
    P Report (apply ticket source outcome) := by
  refine h.bind (h.beginApply ticket source outcome) fun p => ?_
  cases p with
  | some p => exact h.publish ticket p
  | none => exact h.bind h.current fun _ => h.pure _

theorem startValidation : P Task startValidation :=
  h.bind (h.bind h.current fun _ => h.bind (h.update fun _ => rfl) fun _ => h.pure _) fun _ =>
    h.bind (h.bind h.current fun _ => h.bind (h.log rfl) fun _ => h.pure _) fun _ => h.pure _

theorem start (request : Request) : P Task (start request) := by
  cases request with
  | edit text => exact h.bind (h.update fun _ => rfl) fun _ => h.startValidation
  | validate => exact h.startValidation
  | query => exact h.bind h.current fun _ => h.pure _

end Composes

theorem composes_oblivious : Composes fun _ action => Oblivious action where
  pure := oblivious_pure
  current := oblivious_current
  update _ := oblivious_update _
  log _ := oblivious_log _
  bind := oblivious_bind

def listed (s : Session) (listing : Option String) : Session :=
  { s with surface := listing.elim s.surface s.surface.setOutput }

def published (s : Session) (p : Publication) : Session :=
  { s with
    output := p.listing.getD s.output
    surface := (s.surface.setMarkers s.settings.markerOwner p.markers).setStatus p.status }

@[simp] theorem history_listed (s : Session) (listing : Option String) :
    (s.listed listing).surface.history = s.surface.history := by
  cases listing with
  | none => rfl
  | some text => exact Surface.history_setOutput s.surface text

@[simp] theorem history_published (s : Session) (p : Publication) :
    (s.published p).surface.history = s.surface.history ++ [p.status] := by
  unfold published
  rw [Surface.history_setStatus, Surface.history_setMarkers]

@[simp] theorem status_published (s : Session) (p : Publication) :
    (s.published p).surface.status = some p.status := Surface.status_setStatus _ _

@[simp] theorem markersOf_published (s : Session) (p : Publication) :
    (s.published p).surface.markersOf s.settings.markerOwner = p.markers := by
  unfold published
  rw [Surface.markersOf_setStatus, Surface.markersOf_setMarkers]

theorem output_listed (s : Session) (listing : Option String) :
    (s.listed listing).surface.output = listing.getD s.surface.output := by
  cases listing <;> rfl

theorem markersOf_listed (s : Session) (listing : Option String) (owner : String) :
    (s.listed listing).surface.markersOf owner = s.surface.markersOf owner := by
  cases listing <;> rfl

theorem markersOf_published_of_ne (s : Session) (p : Publication) {owner : String}
    (h : owner ≠ s.settings.markerOwner) :
    (s.published p).surface.markersOf owner = s.surface.markersOf owner := by
  unfold published
  rw [Surface.markersOf_setStatus, Surface.markersOf_setMarkers_of_ne _ _ h]

theorem act_current_bind (next : Session → SessionM α) (s : Session) :
    act (current >>= next) s = act (next s) s := rfl

theorem act_issue (s : Session) :
    act issue s =
      (⟨s.sequencer.latest + 1⟩, { s with sequencer := ⟨s.sequencer.latest + 1⟩ }) := rfl

theorem act_readSource (ticket : Ticket) (s : Session) :
    act (readSource ticket) s = (s.source, s) := rfl

theorem act_publish (ticket : Ticket) (p : Publication) (s : Session) :
    act (publish ticket p) s = (p.report ticket, s.published p) := rfl

theorem act_beginApply_current {ticket : Ticket} {s : Session} (source : String)
    (outcome : Outcome) (h : s.sequencer.latest = ticket.sequence) :
    act (beginApply ticket source outcome) s =
      (some (outcome.publication source), s.listed outcome.listing?) := by
  have hc : s.sequencer.isCurrent ticket = true := by simpa [Sequencer.isCurrent] using h
  unfold beginApply
  rw [act_current_bind, if_pos hc, ← Outcome.publication_listing source,
    ← Outcome.ofOutcome_eq ticket source outcome]
  generalize Publication.ofOutcome ticket source outcome = shown
  obtain ⟨⟨listing, _, _, _⟩, _⟩ := shown
  cases listing with
  | some listing => rfl
  | none => rfl

theorem act_beginApply_stale {ticket : Ticket} {s : Session} (source : String)
    (outcome : Outcome) (h : s.sequencer.latest ≠ ticket.sequence) :
    act (beginApply ticket source outcome) s = (none, s) := by
  have hc : ¬s.sequencer.isCurrent ticket = true := by simpa [Sequencer.isCurrent] using h
  unfold beginApply
  rw [act_current_bind, if_neg hc]
  rfl

theorem act_apply (ticket : Ticket) (source : String) (outcome : Outcome) (s : Session) :
    act (apply ticket source outcome) s =
      match act (beginApply ticket source outcome) s with
      | (some p, s') => act (publish ticket p) s'
      | (none, s') => (.superseded ticket.sequence s'.sequencer.latest, s') := by
  unfold apply
  rw [act_bind]
  · generalize act (beginApply ticket source outcome) s = r
    obtain ⟨_ | p, s'⟩ := r
    · rfl
    · rfl
  · intro p
    cases p with
    | some p => exact composes_oblivious.publish ticket p
    | none => exact oblivious_bind oblivious_current fun _ => oblivious_pure _

theorem act_apply_current {ticket : Ticket} {s : Session} (source : String) (outcome : Outcome)
    (h : s.sequencer.latest = ticket.sequence) :
    act (apply ticket source outcome) s =
      (outcome.report ticket source,
        (s.listed outcome.listing?).published (outcome.publication source)) := by
  rw [act_apply, act_beginApply_current source outcome h]
  show act (publish ticket (outcome.publication source)) (s.listed outcome.listing?) = _
  rw [act_publish, Outcome.report_publication]

theorem act_apply_stale {ticket : Ticket} {s : Session} (source : String) (outcome : Outcome)
    (h : s.sequencer.latest ≠ ticket.sequence) :
    act (apply ticket source outcome) s =
      (.superseded ticket.sequence s.sequencer.latest, s) := by
  rw [act_apply, act_beginApply_stale source outcome h]

end Session

end SplitEditor
