import SplitEditor.Proofs.Session.Account
import SplitEditor.Proofs.Session.Turns

/-! What a session shows when it does one thing at a time: the report of a validation, the surface
and the output agree, whatever was asked for in between. -/

namespace SplitEditor.Sequential
open Session Overlap

def statuses (records : List Record) : List BuildStatus :=
  (published (reports records)).map (·.2)

section Append
variable {records : List Record} {r : Record}

theorem reports_append_none (h : r.report? = none) :
    reports (records ++ [r]) = reports records := by
  simp [reports, h]

theorem reports_append_some {report : Report} (h : r.report? = some report) :
    reports (records ++ [r]) = reports records ++ [report] := by
  simp [reports, h]

theorem statuses_append {outcome : Outcome} {ticket : Ticket} {source : String}
    (h : r.report? = some (outcome.report ticket source)) :
    statuses (records ++ [r]) = statuses records ++ [outcome.status] := by
  have hpublished := published_report (reports records) ticket (outcome.publication source)
  rw [Outcome.report_publication] at hpublished
  rw [statuses, reports_append_some h, hpublished, List.map_append]
  rfl

end Append

section Runs
variable [Wasm.Engine] {records : List Record} {r : Record}

def Record.verdict? (r : Record) : Option (String × Outcome) :=
  match r.turn with
  | .ask .validate => some (r.before.source, r.before.verdict r.artifact r.before.source)
  | .ask (.edit text) => some (text, r.before.verdict r.artifact text)
  | _ => none

def Record.listing? (r : Record) : Option String := r.verdict?.bind (·.2.listing?)

/-- The listing of the latest module that was compiled and can be listed. -/
def listing (records : List Record) : String := (records.filterMap Record.listing?).getLast?.getD ""

theorem listing_append (records : List Record) (r : Record) :
    listing (records ++ [r]) = r.listing?.getD (listing records) := by
  rw [listing, listing, List.filterMap_append]
  cases hlisting : r.listing? with
  | none => rw [List.filterMap_cons_none hlisting]; simp
  | some text => rw [List.filterMap_cons_some hlisting]; simp

theorem listing_append_of_verdict {source : String} {outcome : Outcome}
    (h : r.verdict? = some (source, outcome)) :
    listing (records ++ [r]) = outcome.listing?.getD (listing records) := by
  rw [listing_append, Record.listing?, h, Option.bind_some]

/-- What a session shows after turns with these records. Nobody else's markers are touched. -/
structure Shown (settings : Settings) (others : String → List Marker) (records : List Record)
    (s : Session) : Prop where
  configured : s.settings = settings
  history : s.surface.history = statuses records
  output : s.output = listing records
  surfaceOutput : s.surface.output = listing records
  others : ∀ owner, owner ≠ settings.markerOwner → s.surface.markersOf owner = others owner

namespace Shown
variable {settings : Settings} {others : String → List Marker} {records : List Record}
  {s s' : Session} {r : Record}

theorem unreported (h : Shown settings others records s) (hreport : r.report? = none)
    (hverdict : r.verdict? = none) (hsettings : s'.settings = s.settings)
    (houtput : s'.output = s.output) (hsurface : s'.surface = s.surface) :
    Shown settings others (records ++ [r]) s' := by
  have hlisting : listing (records ++ [r]) = listing records := by
    rw [listing_append, Record.listing?, hverdict, Option.bind_none, Option.getD_none]
  constructor
  case configured => exact hsettings.trans h.configured
  case history => rw [hsurface, statuses, reports_append_none hreport]; exact h.history
  case output => rw [houtput, hlisting]; exact h.output
  case surfaceOutput => rw [hsurface, hlisting]; exact h.surfaceOutput
  case others => exact hsurface ▸ h.others

theorem validated (h : Shown settings others records s) (artifact : Artifact)
    (hreport : r.report? = some (s.ownReport artifact))
    (hverdict : r.verdict? = some (s.source, s.verdict artifact s.source)) :
    Shown settings others (records ++ [r]) (s.validated artifact) where
  configured := h.configured
  history := by
    rw [statuses_append hreport, ← h.history, Session.validated, history_published,
      history_listed]
    rfl
  output := by
    rw [listing_append_of_verdict hverdict, ← h.output]
    rfl
  surfaceOutput := by
    rw [listing_append_of_verdict hverdict, ← h.surfaceOutput]
    exact output_listed _ _
  others owner howner := by
    rw [← h.others owner howner, Session.validated, markersOf_published_of_ne,
      markersOf_listed]
    · rfl
    · exact h.configured ▸ howner

theorem turn (h : Shown settings others records r.before)
    (hserves : Serves r.artifact r.before r.turn r.response r.after) :
    Shown settings others (records ++ [r]) r.after := by
  obtain ⟨artifact, turn, before, response, events, after⟩ := r
  change Serves artifact before turn response after at hserves
  cases hserves with
  | write text => exact h.unreported rfl rfl rfl rfl rfl
  | validate => exact h.validated artifact rfl rfl
  | edit text hs' =>
    subst hs'
    have hwritten : Shown settings others records { before with source := text } :=
      ⟨h.configured, h.history, h.output, h.surfaceOutput, h.others⟩
    exact hwritten.validated artifact rfl rfl
  | query => exact h.unreported rfl rfl rfl rfl rfl

end Shown

/-- A source was validated, and what that came to is shown: the report, the surface and the output
agree about it. -/
structure Agree (settings : Settings) (past : List Record) (r : Record) (source : String)
    (outcome : Outcome) (shown : BuildStatus) (marks : List Marker) (bytes : Option (List UInt8)) :
    Prop where
  current : r.after.source = source
  shown_eq : shown = outcome.status
  marks_eq : marks = outcome.markers source
  bytes_eq : bytes = outcome.module?
  status : r.after.surface.status = some shown
  last : r.after.surface.history.getLast? = some shown
  history : r.after.surface.history = statuses (past ++ [r])
  markers : r.after.surface.markersOf settings.markerOwner = marks
  single : marks.length ≤ 1
  marked : marks.length = 1 ↔
    (∃ message, shown = .failed message) ∧ ∃ d, outcome = .ok (.failed d) ∧ d.span.isSome
  message : ∀ marker ∈ marks, shown = .failed marker.message
  module : bytes.isSome ↔ shown = .ready
  listed : r.after.output = outcome.listing?.getD r.before.output
  output : r.after.output = listing (past ++ [r])
  surfaceOutput : r.after.surface.output = r.after.output
  unlisted : outcome.listing? = none →
    r.after.output = r.before.output ∧ r.after.surface.output = r.before.surface.output

/-- Every validation is shown, and nothing else is. -/
structure Coherent (settings : Settings) (others : String → List Marker) (past : List Record)
    (r : Record) : Prop where
  applied : ∀ source outcome, r.verdict? = some (source, outcome) →
    ∃ sequence shown marks bytes, r.report? = some (.applied sequence shown marks bytes)
  agree : ∀ sequence shown marks bytes, r.report? = some (.applied sequence shown marks bytes) →
    ∃ source outcome, r.verdict? = some (source, outcome) ∧
      Agree settings past r source outcome shown marks bytes
  others : ∀ owner, owner ≠ settings.markerOwner → r.after.surface.markersOf owner = others owner

section Validated
variable {settings : Settings} {others : String → List Marker} {past : List Record} {r : Record}

theorem Agree.validated (hbefore : Shown settings others past r.before)
    (hafter : Shown settings others (past ++ [r]) r.after) {s : Session}
    (hsettings : s.settings = settings) (hreport : r.report? = some (s.ownReport r.artifact))
    (hvalidated : r.after = s.validated r.artifact) {outcome : Outcome}
    (houtcome : s.verdict r.artifact s.source = outcome)
    (hverdict : r.verdict? = some (s.source, outcome)) :
    Agree settings past r s.source outcome outcome.status (outcome.markers s.source)
      outcome.module? := by
  rw [ownReport, houtcome] at hreport
  rw [Session.validated, houtcome] at hvalidated
  constructor
  case current => rw [hvalidated]; rfl
  case shown_eq | marks_eq | bytes_eq => rfl
  case status => rw [hvalidated]; exact status_published _ _
  case last => rw [hafter.history, statuses_append hreport, List.getLast?_concat]
  case history => exact hafter.history
  case markers => rw [hvalidated, ← hsettings]; exact markersOf_published _ _
  case single => exact Outcome.length_markers_le s.source outcome
  case marked => exact Outcome.length_markers_eq_one_iff s.source outcome
  case message => exact fun _ => Outcome.status_of_mem_markers
  case module => exact Outcome.isSome_module?_iff outcome
  case listed => rw [hafter.output, listing_append_of_verdict hverdict, hbefore.output]
  case output => exact hafter.output
  case surfaceOutput => rw [hafter.surfaceOutput, hafter.output]
  case unlisted =>
    intro hlisting
    rw [hafter.output, hafter.surfaceOutput, listing_append_of_verdict hverdict, hlisting,
      hbefore.output, hbefore.surfaceOutput]
    exact ⟨rfl, rfl⟩

theorem Coherent.validated (hbefore : Shown settings others past r.before)
    (hafter : Shown settings others (past ++ [r]) r.after) {s : Session}
    (hsettings : s.settings = settings) (hreport : r.report? = some (s.ownReport r.artifact))
    (hvalidated : r.after = s.validated r.artifact)
    (hverdict : r.verdict? = some (s.source, s.verdict r.artifact s.source)) :
    Coherent settings others past r where
  applied _ _ _ := ⟨_, _, _, _, hreport⟩
  agree sequence shown marks bytes h := by
    obtain ⟨-, rfl, rfl, rfl⟩ := Report.applied.inj (Option.some.inj (hreport.symm.trans h))
    exact ⟨_, _, hverdict, .validated hbefore hafter hsettings hreport hvalidated rfl hverdict⟩
  others := hafter.others

theorem Coherent.unreported (hafter : Shown settings others (past ++ [r]) r.after)
    (hreport : r.report? = none) (hverdict : r.verdict? = none) :
    Coherent settings others past r where
  applied _ _ h := nomatch hverdict.symm.trans h
  agree _ _ _ _ h := nomatch hreport.symm.trans h
  others := hafter.others

theorem Coherent.of_serves (hbefore : Shown settings others past r.before)
    (hafter : Shown settings others (past ++ [r]) r.after)
    (hserves : Serves r.artifact r.before r.turn r.response r.after) :
    Coherent settings others past r := by
  obtain ⟨artifact, turn, before, response, events, after⟩ := r
  change Serves artifact before turn response after at hserves
  cases hserves with
  | write text => exact .unreported hafter rfl rfl
  | validate => exact .validated hbefore hafter hbefore.configured rfl rfl rfl
  | edit text hs' =>
    subst hs'
    exact .validated (s := { before with source := text }) hbefore hafter hbefore.configured rfl
      rfl rfl
  | query => exact .unreported hafter rfl rfl

end Validated

end Runs

/-- A session that has done nothing, on a surface where others may have set markers. -/
def opened (settings : Settings) (markers : List (String × List Marker)) : Session :=
  { Session.fresh settings with surface := { Surface.empty with markers } }

theorem shown_opened [Wasm.Engine] (settings : Settings) (markers : List (String × List Marker)) :
    Shown settings (opened settings markers).surface.markersOf [] (opened settings markers) :=
  ⟨rfl, rfl, rfl, rfl, fun _ _ => rfl⟩

/-- Whatever the artifact and the binary do, report, surface and output agree after every
validation. -/
theorem report_surface_agree [Wasm.Engine] (settings : Settings)
    (markers : List (String × List Marker))
    (turns : List (Artifact × Turn)) (past future : List Record) (r : Record)
    (h : trace (opened settings markers) turns = past ++ r :: future) :
    Coherent settings (opened settings markers).surface.markersOf past r := by
  obtain ⟨hbefore, hafter, hr⟩ := trace_induction
    (P := Shown settings (opened settings markers).surface.markersOf)
    (shown_opened settings markers)
    (fun _ u artifact turn _ hu => hu.turn (serves_record artifact turn u)) h
  refine .of_serves hbefore hafter ?_
  have hserves := serves_record r.artifact r.turn r.before
  rwa [← hr] at hserves

def stubTurns : List (Artifact × Turn) :=
  [(stubbed, .ask (.edit "s")), (stubbed, .ask (.edit "f")), (stubbed, .ask (.edit "x"))]

def oops : Marker := ⟨⟨1, 1, 1, 2⟩, .error, "oops"⟩

def linted : Session := opened stubSettings [("lint", [⟨⟨1, 1, 1, 9⟩, .warning, "tab"⟩])]

theorem reports_stubTurns : (@trace .standard linted stubTurns).map Record.report? =
    [some (.applied 1 .ready [] (some (Wasm.Writer.module []))),
      some (.applied 2 (.failed "oops") [oops] none),
      some (.applied 3 .internalError [] none)] := by
  decide +kernel

theorem report_surface_agree_stub : ∃ r₀ r₁ r₂,
    @trace .standard linted stubTurns = [r₀, r₁, r₂] ∧ r₀.after.output = "(module)" ∧
      r₁.after.surface.markersOf "asl" = [oops] ∧ r₁.after.output = "(module)" ∧
      r₂.after.surface.history = [.ready, .failed "oops", .internalError] ∧
      r₂.after.surface.markersOf "asl" = [] ∧ r₂.after.surface.output = "(module)" ∧
      r₂.after.surface.markersOf "lint" = [⟨⟨1, 1, 1, 9⟩, .warning, "tab"⟩] := by
  letI : Wasm.Engine := .standard
  obtain ⟨r₀, r₁, r₂, htrace, hbefore₁, hbefore₂⟩ : ∃ r₀ r₁ r₂ : Record,
      @trace .standard linted stubTurns = [r₀, r₁, r₂] ∧ r₁.before = r₀.after ∧
        r₂.before = r₁.after := ⟨_, _, _, rfl, before_record .., before_record ..⟩
  have hreports := reports_stubTurns
  rw [htrace] at hreports
  obtain ⟨hreport₀, hreports⟩ := List.cons.inj hreports
  obtain ⟨hreport₁, hreports⟩ := List.cons.inj hreports
  obtain ⟨hreport₂, -⟩ := List.cons.inj hreports
  have hcoherent₂ := report_surface_agree _ _ _ [r₀, r₁] [] r₂ htrace
  obtain ⟨_, outcome₀, -, hagree₀⟩ :=
    (report_surface_agree _ _ _ [] [r₁, r₂] r₀ htrace).agree _ _ _ _ hreport₀
  obtain ⟨_, outcome₁, -, hagree₁⟩ :=
    (report_surface_agree _ _ _ [r₀] [r₂] r₁ htrace).agree _ _ _ _ hreport₁
  obtain ⟨_, outcome₂, -, hagree₂⟩ := hcoherent₂.agree _ _ _ _ hreport₂
  have hunlisted {outcome : Outcome} (h : none = outcome.module?) : outcome.listing? = none := by
    rw [Outcome.listing?, ← h, Option.bind_none]
  have houtput₀ : r₀.after.output = "(module)" := by
    have hlisting : outcome₀.listing? = some "(module)" := by
      rw [Outcome.listing?, ← hagree₀.bytes_eq]
      decide +kernel
    rw [hagree₀.listed, hlisting, Option.getD_some]
  have houtput₁ : r₁.after.output = "(module)" := by
    rw [(hagree₁.unlisted (hunlisted hagree₁.bytes_eq)).1, hbefore₁, houtput₀]
  refine ⟨r₀, r₁, r₂, htrace, houtput₀, hagree₁.markers, houtput₁, ?_, hagree₂.markers, ?_,
    hcoherent₂.others "lint" (by decide)⟩
  · have hstatuses : statuses ([r₀, r₁] ++ [r₂]) = [.ready, .failed "oops", .internalError] := by
      simp [statuses, reports, Overlap.published, publishedOf, hreport₀, hreport₁, hreport₂]
    exact hagree₂.history.trans hstatuses
  · rw [hagree₂.surfaceOutput, (hagree₂.unlisted (hunlisted hagree₂.bytes_eq)).1, hbefore₂,
      houtput₁]

end SplitEditor.Sequential
