import SplitEditor.Proofs.Analysis.Service
import SplitEditor.Proofs.Session.Actions

/-! What the log tells of fetching. Whoever needs the binary fetches the artifact if none is there,
and nobody else does. -/

namespace SplitEditor
open Wasm

theorem fetchesIn_append (events new : List LogEvent) :
    fetchesIn (events ++ new) = fetchesIn events ++ fetchesIn new := List.filter_append ..

theorem fetchesIn_concat {event : LogEvent} (h : event.isFetch = false) (events : List LogEvent) :
    fetchesIn (events ++ [event]) = fetchesIn events := by
  simp [fetchesIn, h]

theorem LogEvent.isFetch_of_isNote {event : LogEvent} (h : event.isNote) :
    event.isFetch = false := by
  cases event with
  | queryErrorSuppressed | referenceCapReached => rfl
  | _ => cases h

theorem Artifact.exists_fetch (artifact : Artifact) :
    ∃ event, artifact.fetch.2 = [event] ∧ event.isFetch := by
  unfold fetch
  cases artifact.checkSize with
  | ok bytes => exact ⟨_, rfl, rfl⟩
  | error e => exact ⟨_, rfl, rfl⟩

theorem Artifact.fetchesIn_fetch (artifact : Artifact) :
    fetchesIn artifact.fetch.2 = artifact.fetch.2 := by
  obtain ⟨event, hevent, hfetch⟩ := artifact.exists_fetch
  rw [hevent, fetchesIn, List.filter_cons_of_pos hfetch]
  rfl

theorem Artifact.fetch_eq_ok_iff {artifact : Artifact} {bytes : List UInt8} :
    artifact.fetch.1 = .ok bytes ↔
      artifact.content = .ok bytes ∧ bytes.length ≤ artifact.maxBytes := by
  unfold fetch checkSize
  cases artifact.content with
  | error fault => exact ⟨nofun, nofun⟩
  | ok found =>
    by_cases hsize : artifact.maxBytes < found.length
    · simp only [if_pos hsize, Except.ok.injEq]
      exact ⟨nofun, fun ⟨hfound, hle⟩ => absurd (hfound ▸ hsize) (Nat.not_lt.2 hle)⟩
    · simp only [if_neg hsize, Except.ok.injEq]
      exact ⟨fun hfound => ⟨hfound, hfound ▸ Nat.le_of_not_lt hsize⟩, And.left⟩

namespace Host

theorem fetchesIn_load [Engine] (artifact : Artifact) (fuel : Nat) (codec : Codec)
    (maxSourceBytes maxReferences : Nat) :
    fetchesIn (load artifact fuel codec maxSourceBytes maxReferences).2 = artifact.fetch.2 := by
  have hfetch := artifact.fetchesIn_fetch
  unfold load
  generalize artifact.fetch = fetched at hfetch
  obtain ⟨e | bytes, events⟩ := fetched
  · exact hfetch
  · simp only
    cases Binary.ofBytes bytes fuel with
    | error e => exact hfetch
    | ok binary => rw [fetchesIn_concat rfl]; exact hfetch

theorem tracks_fetchesIn :
    Decode.Tracks Instance.reader fun w w' => fetchesIn w'.2 = fetchesIn w.2 where
  refl _ := rfl
  trans h h' := h'.trans h
  asked _ _ _ := rfl
  logged _ _ _ hnote := fetchesIn_concat (LogEvent.isFetch_of_isNote hnote) _

theorem fetchesIn_perform (b : Host) (s : Service) (source : String) :
    fetchesIn (b.perform s source).2 = [] := by
  -- once there is an instance, only notes are logged and the end of the request
  have hrequest : Keeps (fun w w' => fetchesIn w'.2 = fetchesIn w.2)
      (b.request s.entry s.outcome source (s.ask b)) := by
    have hlive {α : Type} (action : Live α) :
        Keeps (fun w w' => fetchesIn w'.2 = fetchesIn w.2) (live action) := fun _ => rfl
    have htrack := tracks_fetchesIn
    refine htrack.keeps_bind (hlive _) fun buffer => ?_
    refine htrack.keeps_bind (htrack.keeps_bind (hlive _) fun handle => ?_) fun value => ?_
    · exact Service.keeps_decode_of_tracks htrack b s handle
    refine htrack.keeps_bind (hlive _) fun _ => htrack.keeps_bind (hlive _) fun fuel =>
      htrack.keeps_bind (fun w => ?_) fun _ => htrack.keeps_pure _
    exact fetchesIn_concat rfl w.2
  rw [perform_eq_run]
  unfold run
  simp only
  split
  · rfl
  · cases b.binary.instantiate with
    | error e => rfl
    | ok i =>
      have hran := hrequest (i, [.instanceCreated s.entry.name (Utf8.byteLength source.toList)])
      simp only
      generalize (b.request s.entry s.outcome source (s.ask b)).run _ = ran at hran ⊢
      obtain ⟨e | value, i', events⟩ := ran
      · exact (fetchesIn_concat rfl events).trans hran
      · exact hran

end Host

namespace Session
variable {α β : Type}

theorem fetchesIn_find (b : Host) (uri : String) (query : Query) (line column : UInt32)
    (source : String) : fetchesIn (find b uri query line column source).2 = [] := by
  cases query with
  | hover => exact b.fetchesIn_perform (.hover line _) source
  | definition => exact b.fetchesIn_perform (.definition line _) source
  | references | rename | highlights => exact b.fetchesIn_perform (.references line _) source

def Unfetching (action : SessionM α) : Prop := ∀ w,
  (action.run w).2.1.host = w.1.host ∧ fetchesIn (action.run w).2.2 = fetchesIn w.2

def FetchesIfNone (artifact : Artifact) (action : SessionM α) : Prop := ∀ w,
  fetchesIn (action.run w).2.2 =
    fetchesIn w.2 ++ if w.1.host.isNone then artifact.fetch.2 else []

theorem composes_unfetching : Composes fun _ action => Unfetching action where
  pure _ _ := ⟨rfl, rfl⟩
  current _ := ⟨rfl, rfl⟩
  update hf w := ⟨hf w.1, rfl⟩
  log hevents w := ⟨rfl, (fetchesIn_append w.2 _).trans (by rw [hevents, List.append_nil])⟩
  bind {_ _ action _} haction hnext w :=
    have h := haction w
    have h' := hnext (action.run w).1 (action.run w).2
    ⟨h'.1.trans h.1, h'.2.trans h.2⟩

theorem fetchesIfNone_bind_left {artifact : Artifact} {action : SessionM α}
    {next : α → SessionM β} (haction : FetchesIfNone artifact action)
    (hnext : ∀ a, Unfetching (next a)) : FetchesIfNone artifact (action >>= next) := fun w =>
  (hnext (action.run w).1 (action.run w).2).2.trans (haction w)

theorem fetchesIfNone_bind_right {artifact : Artifact} {action : SessionM α}
    {next : α → SessionM β} (haction : Unfetching action)
    (hnext : ∀ a, FetchesIfNone artifact (next a)) : FetchesIfNone artifact (action >>= next) := by
  intro w
  have h := hnext (action.run w).1 (action.run w).2
  rwa [(haction w).1, (haction w).2] at h

theorem fetchesIfNone_ensureHost [Engine] (artifact : Artifact) :
    FetchesIfNone artifact (ensureHost artifact) := by
  rintro ⟨⟨settings, source, output, host, surface, sequencer⟩, events⟩
  have hcurrent (next : Session → SessionM (Except AnalysisError Host)) (w) :
      (current >>= next).run w = (next w.1).run w := rfl
  unfold ensureHost
  rw [hcurrent]
  cases host with
  | some b => exact (List.append_nil _).symm
  | none =>
    have hload := Host.fetchesIn_load artifact settings.fuel settings.codec
      settings.maxSourceBytes settings.maxReferences
    simp only
    generalize Host.load artifact settings.fuel settings.codec settings.maxSourceBytes
      settings.maxReferences = attempt at hload
    obtain ⟨e | b, new⟩ := attempt
    · exact (fetchesIn_append events new).trans (congrArg _ hload)
    · exact (fetchesIn_append events new).trans (congrArg _ hload)

theorem fetchesIfNone_ask [Engine] (artifact : Artifact)
    {question : Host → Except AnalysisError α × List LogEvent}
    (hquestion : ∀ b, fetchesIn (question b).2 = []) :
    FetchesIfNone artifact (ask artifact question) := by
  refine fetchesIfNone_bind_left (fetchesIfNone_ensureHost artifact) fun loaded => ?_
  cases loaded with
  | error e => exact composes_unfetching.pure _
  | ok b =>
    exact composes_unfetching.bind (composes_unfetching.log (hquestion b)) fun _ =>
      composes_unfetching.pure _

theorem fetchesIfNone_perform [Engine] (artifact : Artifact) (request : Request) :
    FetchesIfNone artifact (perform artifact request) := by
  have h := composes_unfetching
  refine fetchesIfNone_bind_right (h.start request) fun task => ?_
  cases task with
  | validation ticket source =>
    have hask := fetchesIfNone_ask artifact fun b => b.fetchesIn_perform .compile source
    exact fetchesIfNone_bind_left hask fun outcome =>
      h.bind (h.apply ticket source outcome) fun _ => h.pure _
  | query query line column source =>
    refine fetchesIfNone_bind_right h.current fun s => ?_
    have hask := fetchesIfNone_ask artifact fun b =>
      fetchesIn_find b s.settings.documentUri query line column source
    exact fetchesIfNone_bind_left hask fun _ => h.pure _

end Session

end SplitEditor
