import SplitEditor.Proofs.Session.Fetching
import SplitEditor.Proofs.Session.Turns

/-! How a session comes by its binary. Every request fetches the artifact until one of them finds a
binary in it, and that binary is kept. -/

namespace SplitEditor.Sequential
open Session Overlap

/-- The artifact is a core module that can serve as an analysis binary, and not too large. The
binary is used as the settings say. -/
inductive Offers [Wasm.Engine] (settings : Settings) (artifact : Artifact) : Host → Prop
  | good {bytes : List UInt8} {m : Wasm.CoreModule} (hcontent : artifact.content = .ok bytes)
      (hsize : bytes.length ≤ artifact.maxBytes) (hpasses : checkCoreModule bytes = .ok ())
      (hcompiles : Wasm.Engine.compile bytes = some m) (hsuitable : Suitable m) :
    Offers settings artifact ⟨⟨m, settings.fuel⟩, settings.codec, settings.maxSourceBytes,
      settings.maxReferences⟩

def failedWith (s : Session) (e : AnalysisError) : Request → Response
  | .edit _ | .validate => .report (.applied (s.sequencer.latest + 1) .internalError [] none)
  | .query .. => .finding (.error e)

theorem respond_error (s : Session) (e : AnalysisError) (request : Request) :
    respond s (.error e) request = failedWith s e request := by
  cases request <;> rfl

section Loads
variable [Wasm.Engine]

theorem load_eq_ok_iff {settings : Settings} {artifact : Artifact} {b : Host} :
    settings.load artifact = .ok b ↔ Offers settings artifact b := by
  constructor
  · intro h
    unfold Settings.load Host.load at h
    split at h
    · cases h
    · next bytes events hfetch =>
      split at h
      · cases h
      · next binary hbinary =>
        obtain ⟨hpasses, m, hcompiles, hsuitable, rfl⟩ := ofBytes_eq_ok_iff.1 hbinary
        obtain ⟨hcontent, hsize⟩ := Artifact.fetch_eq_ok_iff.1 (congrArg Prod.fst hfetch)
        cases h
        exact .good hcontent hsize hpasses hcompiles hsuitable
  · rintro (@⟨bytes, m, hcontent, hsize, hpasses, hcompiles, hsuitable⟩)
    have hfetch := Artifact.fetch_eq_ok_iff.2 ⟨hcontent, hsize⟩
    have hbinary : Binary.ofBytes bytes settings.fuel = .ok ⟨m, settings.fuel⟩ :=
      ofBytes_eq_ok_iff.2 ⟨hpasses, m, hcompiles, hsuitable, rfl⟩
    unfold Settings.load Host.load
    generalize artifact.fetch = fetched at hfetch
    obtain ⟨result, events⟩ := fetched
    obtain rfl : result = .ok bytes := hfetch
    simp only [hbinary]

def Record.load? (settings : Settings) (r : Record) : Option Host :=
  match r.turn with
  | .ask _ => (settings.load r.artifact).toOption
  | .write _ => none

/-- The first binary that requests with these records found in their artifacts. -/
def firstLoaded (settings : Settings) (records : List Record) : Option Host :=
  records.findSome? (Record.load? settings)

theorem firstLoaded_append (settings : Settings) (records : List Record) (r : Record) :
    firstLoaded settings (records ++ [r]) =
      (firstLoaded settings records).or (r.load? settings) := by
  rw [firstLoaded, List.findSome?_append, List.findSome?_singleton]
  rfl

theorem loaded_toOption (s : Session) (artifact : Artifact) :
    (s.loaded artifact).toOption = s.host.or (s.settings.load artifact).toOption := by
  unfold loaded
  cases s.host <;> rfl

/-- The session holds the first binary that was found. -/
structure Holds (settings : Settings) (records : List Record) (s : Session) : Prop where
  configured : s.settings = settings
  host : s.host = firstLoaded settings records

theorem Holds.turn {settings : Settings} {records : List Record} {s s' : Session} {r : Record}
    (h : Holds settings records s) (hserves : Serves r.artifact s r.turn r.response s') :
    Holds settings (records ++ [r]) s' where
  configured := hserves.settings.trans h.configured
  host := by
    rw [firstLoaded_append, ← h.host, ← h.configured]
    obtain ⟨artifact, turn, before, response, events, after⟩ := r
    cases turn with
    | write text =>
      cases hserves
      exact (Option.or_none ..).symm
    | ask request =>
      exact hserves.responds.2.trans (loaded_toOption s artifact)

def Fits (settings : Settings) (b : Host) : Prop :=
  b.binary.fuel = settings.fuel ∧ b.codec = settings.codec ∧
    b.maxSourceBytes = settings.maxSourceBytes ∧ b.maxReferences = settings.maxReferences

theorem Offers.fits {settings : Settings} {artifact : Artifact} {b : Host}
    (h : Offers settings artifact b) : Fits settings b := by
  cases h with
  | good => exact ⟨rfl, rfl, rfl, rfl⟩

theorem fits_of_firstLoaded {settings : Settings} {records : List Record} {b : Host}
    (h : firstLoaded settings records = some b) : Fits settings b := by
  obtain ⟨r, -, hload⟩ := List.exists_of_findSome?_eq_some h
  unfold Record.load? at hload
  split at hload
  · cases hresult : settings.load r.artifact with
    | error e => rw [hresult] at hload; cases hload
    | ok b' =>
      rw [hresult] at hload
      cases hload
      exact (load_eq_ok_iff.1 hresult).fits
  · cases hload

/-- What a request does about the binary, by what those before it have found. -/
structure LoadsOnce (settings : Settings) (past : List Record) (r : Record) (request : Request) :
    Prop where
  good : ∀ b, settings.load r.artifact = .ok b ↔ Offers settings r.artifact b
  tried : firstLoaded settings past = none → r.before.host = none ∧
    fetchesIn r.events = r.artifact.fetch.2 ∧ (fetchesIn r.events).length = 1
  failed : ∀ e, firstLoaded settings past = none → settings.load r.artifact = .error e →
    r.after.host = none ∧ r.response = some (failedWith r.before e request)
  loaded : ∀ b, firstLoaded settings past = none → settings.load r.artifact = .ok b →
    r.after.host = some b ∧ r.response = some (respond r.before (.ok b) request)
  kept : ∀ b, firstLoaded settings past = some b → fetchesIn r.events = [] ∧
    r.before.host = some b ∧ r.after.host = some b ∧
      r.response = some (respond r.before (.ok b) request)
  fitted : ∀ b, r.after.host = some b → Fits settings b

theorem fetchesIn_record_ask (artifact : Artifact) (request : Request) (s : Session) :
    fetchesIn (record artifact (.ask request) s).events =
      if s.host.isNone then artifact.fetch.2 else [] :=
  fetchesIfNone_perform artifact request (s, [])

/-- Whatever becomes of the artifact, it is fetched by every request until one has loaded a binary
from it, and all requests from then on are answered by that binary. -/
theorem loaded_once (settings : Settings) (turns : List (Artifact × Turn))
    (past future : List Record) (r : Record) (request : Request)
    (h : trace (Session.fresh settings) turns = past ++ r :: future)
    (hrequest : r.turn = .ask request) : LoadsOnce settings past r request := by
  obtain ⟨hbefore, hafter, hr⟩ := trace_induction (P := Holds settings) ⟨rfl, rfl⟩
    (fun _ u artifact turn _ hu => hu.turn (serves_record artifact turn u)) h
  rw [hrequest] at hr
  have hfetches := fetchesIn_record_ask r.artifact request r.before
  rw [← hr, hbefore.host] at hfetches
  have hserves := serves_record r.artifact (.ask request) r.before
  rw [← hr] at hserves
  obtain ⟨hresponse, hhost⟩ := hserves.responds
  -- what the session holds is what the records before have found, so they decide all of it
  rw [Session.loaded, hbefore.host, hbefore.configured] at hresponse hhost
  constructor
  case good => exact fun b => load_eq_ok_iff
  case tried =>
    intro hnone
    obtain ⟨event, hevent, -⟩ := r.artifact.exists_fetch
    rw [hnone] at hfetches
    refine ⟨hbefore.host.trans hnone, hfetches, ?_⟩
    rw [hfetches]
    exact congrArg List.length hevent
  case failed =>
    intro e hnone hload
    rw [hnone, hload] at hresponse hhost
    exact ⟨hhost, hresponse.trans (congrArg some (respond_error r.before e request))⟩
  case loaded =>
    intro b hnone hload
    rw [hnone, hload] at hresponse hhost
    exact ⟨hhost, hresponse⟩
  case kept =>
    intro b hsome
    rw [hsome] at hfetches hresponse hhost
    exact ⟨hfetches, hbefore.host.trans hsome, hhost, hresponse⟩
  case fitted =>
    intro b hb
    exact fits_of_firstLoaded (hafter.host.symm.trans hb)

end Loads

def changingTurns : List (Artifact × Turn) :=
  [(missing, .ask (.query .hover 1 1)), (stubbed, .ask (.query .references 1 1)),
    ({ stubbed with maxBytes := 1 }, .ask .validate)]

theorem report_changingTurns : (@trace .standard (.fresh stubSettings) changingTurns).map
    Record.report? = [none, none, some (.applied 1 .ready [] (some (Wasm.Writer.module [])))] := by
  decide +kernel

theorem loaded_once_stub : ∃ (r₀ r₁ r₂ : Record) (b : Host),
    @trace .standard (.fresh stubSettings) changingTurns = [r₀, r₁, r₂] ∧
      r₀.after.host = none ∧ r₀.response = some (.finding (.error (.io .notFound))) ∧
      (fetchesIn r₁.events).length = 1 ∧ @Offers .standard stubSettings stubbed b ∧
      r₁.response = some (respond r₁.before (.ok b) (.query .references 1 1)) ∧
      fetchesIn r₂.events = [] ∧ r₂.after.host = some b ∧
      r₂.response = some (respond r₂.before (.ok b) .validate) ∧
      r₂.report? = some (.applied 1 .ready [] (some (Wasm.Writer.module []))) := by
  letI : Wasm.Engine := .standard
  obtain ⟨r₀, r₁, r₂, htrace, hturn₀, hturn₁, hturn₂⟩ : ∃ r₀ r₁ r₂ : Record,
      trace (.fresh stubSettings) changingTurns = [r₀, r₁, r₂] ∧
        (r₀.artifact = missing ∧ r₀.turn = .ask (.query .hover 1 1)) ∧
        (r₁.artifact = stubbed ∧ r₁.turn = .ask (.query .references 1 1)) ∧
        r₂.turn = .ask .validate :=
    ⟨_, _, _, rfl, ⟨artifact_record .., turn_record ..⟩, ⟨artifact_record .., turn_record ..⟩,
      turn_record ..⟩
  have hreports := report_changingTurns
  rw [htrace] at hreports
  obtain ⟨b, hb⟩ : ∃ b, stubSettings.load stubbed = .ok b := ok_of_toBool (by decide +kernel)
  have hmissing : stubSettings.load missing = .error (.io .notFound) := rfl
  have honce₀ := loaded_once _ _ [] [r₁, r₂] r₀ _ htrace hturn₀.2
  have honce₁ := loaded_once _ _ [r₀] [r₂] r₁ _ htrace hturn₁.2
  have honce₂ := loaded_once _ _ [r₀, r₁] [] r₂ _ htrace hturn₂
  have hnone : firstLoaded stubSettings [r₀] = none := by
    simp [firstLoaded, Record.load?, hturn₀, hmissing, Except.toOption]
  have hsome : firstLoaded stubSettings [r₀, r₁] = some b := by
    simp [firstLoaded, Record.load?, hturn₀, hturn₁, hmissing, hb, Except.toOption]
  obtain ⟨hhost₀, hresponse₀⟩ := honce₀.failed _ rfl (hturn₀.1 ▸ hmissing)
  obtain ⟨-, hresponse₁⟩ := honce₁.loaded b hnone (hturn₁.1 ▸ hb)
  obtain ⟨hfetches₂, -, hhost₂, hresponse₂⟩ := honce₂.kept b hsome
  exact ⟨r₀, r₁, r₂, b, htrace, hhost₀, hresponse₀, (honce₁.tried hnone).2.2,
    hturn₁.1 ▸ (honce₁.good b).1 (hturn₁.1 ▸ hb), hresponse₁, hfetches₂, hhost₂, hresponse₂,
    (List.cons.inj (List.cons.inj (List.cons.inj hreports).2).2).1⟩

end SplitEditor.Sequential
