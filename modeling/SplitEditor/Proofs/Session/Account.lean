import SplitEditor.Proofs.Session.Overlap

/-! The reports of a run, and how they account for its tickets and for what was on its surface. -/

namespace SplitEditor.Overlap
open Session

def publishedOf : Report → Option (UInt64 × BuildStatus)
  | .applied sequence status _ _ => some (sequence, status)
  | .superseded .. => none

def published (reports : List Report) : List (UInt64 × BuildStatus) :=
  reports.filterMap publishedOf

theorem published_report (reports : List Report) (ticket : Ticket) (p : Publication) :
    published (reports ++ [p.report ticket]) =
      published reports ++ [(ticket.sequence, p.status)] := by
  simp [published, publishedOf, Publication.report]

theorem published_superseded (reports : List Report) (sequence latest : UInt64) :
    published (reports ++ [.superseded sequence latest]) = published reports := by
  simp [published, publishedOf]

theorem mem_set_of_report {vs : List Validation} {u v x : Validation} {i : Nat}
    (hi : vs[i]? = some u) (hu : u.report? = none) (hv : v ∈ vs) (hr : v.report?.isSome) :
    v ∈ vs.set i x := by
  obtain ⟨j, hj⟩ := List.getElem?_of_mem hv
  have hij : i ≠ j := by
    rintro rfl
    obtain rfl := Option.some.inj (hi.symm.trans hj)
    rw [hu] at hr
    cases hr
  exact List.mem_of_getElem? ((List.getElem?_set_ne hij).trans hj)

/-- Whatever has been shown belongs to a validation that has reported, and whoever was overtaken
was overtaken by a later ticket. -/
structure Accounted (w : World) : Prop where
  numbered : Numbered w.session.sequencer.latest w.validations
  reported : ∀ p ∈ published w.reports,
    ∃ v ∈ w.validations, v.ticket.sequence = p.1 ∧ v.report?.isSome
  history : w.session.surface.history = (published w.reports).map (·.2)
  overtaken : ∀ sequence latest, .superseded sequence latest ∈ w.reports → sequence < latest

namespace Accounted
variable {w : World}

theorem fresh (settings : Settings) : Accounted (.fresh settings) where
  numbered := .nil
  reported _ hp := by cases hp
  history := rfl
  overtaken _ _ h := by cases h

theorem withSession (h : Accounted w) {s : Session}
    (hsequencer : s.sequencer = w.session.sequencer)
    (hhistory : s.surface.history = w.session.surface.history) :
    Accounted { w with session := s } where
  numbered := hsequencer ▸ h.numbered
  reported := h.reported
  history := hhistory.trans h.history
  overtaken := h.overtaken

theorem move (h : Accounted w) {i : Nat} {ticket : Ticket} {old : Stage}
    (hi : w.validations[i]? = some ⟨ticket, old⟩)
    (hold : Validation.report? ⟨ticket, old⟩ = none) (stage : Stage) :
    Accounted (w.move i ticket stage) where
  numbered := h.numbered.set hi stage
  reported p hp := by
    obtain ⟨v, hv, hs, hr⟩ := h.reported p hp
    exact ⟨v, mem_set_of_report hi hold hv hr, hs, hr⟩
  history := h.history
  overtaken := h.overtaken

theorem issue (h : Accounted w) (hlen : w.validations.length + 1 < UInt64.size) :
    Accounted { w with
      session := { w.session with sequencer := ⟨w.session.sequencer.latest + 1⟩ }
      validations := w.validations ++ [⟨⟨w.session.sequencer.latest + 1⟩, .issued⟩] } where
  numbered := h.numbered.issue hlen
  reported p hp := by
    obtain ⟨v, hv, hs, hr⟩ := h.reported p hp
    exact ⟨v, List.mem_append_left _ hv, hs, hr⟩
  history := h.history
  overtaken := h.overtaken

theorem publish (h : Accounted w) {i : Nat} {ticket : Ticket} {old : Stage} {source : String}
    {outcome : Outcome} {p : Publication} {s : Session}
    (hi : w.validations[i]? = some ⟨ticket, old⟩)
    (hold : Validation.report? ⟨ticket, old⟩ = none)
    (hsequencer : s.sequencer = w.session.sequencer)
    (hhistory : s.surface.history = w.session.surface.history ++ [p.status]) :
    Accounted { w.move i ticket (.reported source outcome (p.report ticket)) with
      session := s
      reports := w.reports ++ [p.report ticket] } := by
  refine ⟨?_, ?_, ?_, ?_⟩
  · show Numbered s.sequencer.latest _
    rw [hsequencer]
    exact h.numbered.set hi _
  · show ∀ q ∈ published (w.reports ++ [_]), _
    rw [published_report]
    intro q hq
    rcases List.mem_append.1 hq with hq | hq
    · obtain ⟨v, hv, hs, hr⟩ := h.reported q hq
      exact ⟨v, mem_set_of_report hi hold hv hr, hs, hr⟩
    · obtain rfl := List.mem_singleton.1 hq
      have hlt := (List.getElem?_eq_some_iff.1 hi).1
      exact ⟨_, List.mem_set hlt _, rfl, rfl⟩
  · show s.surface.history = (published (w.reports ++ [_])).map _
    rw [published_report, hhistory, h.history, List.map_append]
    rfl
  · intro sequence latest hmem
    rcases List.mem_append.1 hmem with hmem | hmem
    · exact h.overtaken sequence latest hmem
    · cases List.mem_singleton.1 hmem

theorem supersede (h : Accounted w) {i : Nat} {ticket : Ticket} {source : String}
    {outcome : Outcome} (hi : w.validations[i]? = some ⟨ticket, .answered source outcome⟩)
    (hc : w.session.sequencer.latest ≠ ticket.sequence) :
    Accounted { w.move i ticket (.reported source outcome
        (.superseded ticket.sequence w.session.sequencer.latest)) with
      reports := w.reports ++ [.superseded ticket.sequence w.session.sequencer.latest] } := by
  refine ⟨h.numbered.set hi _, ?_, ?_, ?_⟩
  · show ∀ p ∈ published (w.reports ++ [_]), _
    rw [published_superseded]
    intro p hp
    obtain ⟨v, hv, hs, hr⟩ := h.reported p hp
    exact ⟨v, mem_set_of_report hi rfl hv hr, hs, hr⟩
  · show _ = (published (w.reports ++ [_])).map _
    rw [published_superseded]
    exact h.history
  · intro sequence latest hmem
    rcases List.mem_append.1 hmem with hmem | hmem
    · exact h.overtaken sequence latest hmem
    · cases List.mem_singleton.1 hmem
      have hle := h.numbered.le_latest (List.mem_of_getElem? hi)
      exact UInt64.lt_of_le_of_ne hle fun heq => hc heq.symm

theorem of_moves {w' : World} {s : Step} (hm : w.Moves s w') (h : Accounted w)
    (hlen : w'.validations.length < UInt64.size) : Accounted w' := by
  cases hm with
  | edit text => exact h.withSession rfl rfl
  | load host => exact h.withSession rfl rfl
  | issue => exact h.issue (by simpa using hlen)
  | read hi => exact h.move hi rfl _
  | answer outcome hi => exact h.move hi rfl _
  | @publish _ _ source outcome hi hc =>
    refine h.publish (p := outcome.publication source) hi rfl rfl ?_
    rw [history_published, history_listed]
  | supersede hi hc => exact h.supersede hi hc

theorem lt_of_current (h : Accounted w) {i : Nat} {v : Validation}
    (hi : w.validations[i]? = some v) (hv : v.report? = none)
    (hc : w.session.sequencer.latest = v.ticket.sequence) {p : UInt64 × BuildStatus}
    (hp : p ∈ published w.reports) : p.1 < v.ticket.sequence := by
  obtain ⟨u, hu, hs, hr⟩ := h.reported p hp
  have hle := h.numbered.le_latest hu
  rw [hs, hc] at hle
  refine UInt64.lt_of_le_of_ne hle fun heq => ?_
  obtain rfl := h.numbered.eq_of_sequence_eq hu (List.mem_of_getElem? hi) (hs.trans heq)
  rw [hv] at hr
  cases hr

end Accounted

end SplitEditor.Overlap
