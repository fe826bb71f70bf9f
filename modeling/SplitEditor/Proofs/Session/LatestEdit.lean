import SplitEditor.Proofs.Session.Account

/-! The latest edit wins, however validations overlap, as long as an outcome is shown in one go. -/

namespace SplitEditor.Overlap
open Session

/-- The surface shows what came of this outcome for this source. -/
def Shows (s : Session) (source : String) (outcome : Outcome) : Prop :=
  s.surface.status = some outcome.status ∧
    s.surface.markersOf s.settings.markerOwner = outcome.markers source

theorem shows_published (s : Session) (source : String) (outcome : Outcome) :
    Shows ((s.listed outcome.listing?).published (outcome.publication source)) source outcome :=
  ⟨status_published _ _, markersOf_published _ _⟩

/-- What is shown gets ever newer, and whoever holds the latest ticket is shown once it has
reported. -/
structure Ordered (w : World) : Prop extends Accounted w where
  increasing : (published w.reports).Pairwise (·.1 < ·.1)
  shown : ∀ v ∈ w.validations, v.ticket.sequence = w.session.sequencer.latest →
    ∀ source outcome report, v.stage = .reported source outcome report →
      report = outcome.report v.ticket source ∧ Shows w.session source outcome

namespace Ordered
variable {w : World}

theorem fresh (settings : Settings) : Ordered (.fresh settings) where
  toAccounted := .fresh settings
  increasing := .nil
  shown _ hv := by cases hv

theorem move (h : Ordered w) {i : Nat} {ticket : Ticket} {old stage : Stage}
    (hi : w.validations[i]? = some ⟨ticket, old⟩)
    (hold : Validation.report? ⟨ticket, old⟩ = none)
    (hstage : ∀ source outcome report, stage ≠ .reported source outcome report) :
    Ordered (w.move i ticket stage) where
  toAccounted := h.toAccounted.move hi hold stage
  increasing := h.increasing
  shown v hv hl source outcome report hr := by
    rcases List.mem_or_eq_of_mem_set hv with hv | rfl
    · exact h.shown v hv hl source outcome report hr
    · exact absurd hr (hstage source outcome report)

theorem issue (h : Ordered w) (hlen : w.validations.length + 1 < UInt64.size) :
    Ordered { w with
      session := { w.session with sequencer := ⟨w.session.sequencer.latest + 1⟩ }
      validations := w.validations ++ [⟨⟨w.session.sequencer.latest + 1⟩, .issued⟩] } where
  toAccounted := h.toAccounted.issue hlen
  increasing := h.increasing
  shown v hv hl source outcome report hr := by
    rcases List.mem_append.1 hv with hv | hv
    · -- an older ticket is not the latest any more
      have hle := UInt64.le_iff_toNat_le.1 (h.numbered.le_latest hv)
      have heq := congrArg UInt64.toNat hl
      rw [(h.numbered.issue hlen).latest_eq, List.length_append] at heq
      rw [h.numbered.latest_eq, heq] at hle
      exact absurd hle (Nat.not_succ_le_self _)
    · obtain rfl := List.mem_singleton.1 hv
      cases hr

theorem publish (h : Ordered w) {w' : World} {i : Nat} {ticket : Ticket} {source : String}
    {outcome : Outcome} (hi : w.validations[i]? = some ⟨ticket, .answered source outcome⟩)
    (hc : w.session.sequencer.latest = ticket.sequence)
    (hw' : w' = { w.move i ticket (.reported source outcome (outcome.report ticket source)) with
      session := (w.session.listed outcome.listing?).published (outcome.publication source)
      reports := w.reports ++ [outcome.report ticket source] })
    (haccount : Accounted w') : Ordered w' := by
  subst hw'
  refine ⟨haccount, ?_, ?_⟩
  · show (published (w.reports ++ [(outcome.publication source).report ticket])).Pairwise _
    rw [published_report, List.pairwise_append]
    refine ⟨h.increasing, List.pairwise_singleton _ _, fun p hp q hq => ?_⟩
    obtain rfl := List.mem_singleton.1 hq
    exact h.lt_of_current hi rfl hc hp
  · intro v hv hl source' outcome' report hr
    rcases List.mem_or_eq_of_mem_set hv with hv | rfl
    · -- nobody else holds the ticket
      obtain rfl := h.numbered.eq_of_sequence_eq hv (List.mem_of_getElem? hi) (hl.trans hc)
      cases hr
    · obtain ⟨rfl, rfl, rfl⟩ := Stage.reported.inj hr
      exact ⟨rfl, shows_published w.session _ _⟩

theorem supersede (h : Ordered w) {i : Nat} {ticket : Ticket} {source : String}
    {outcome : Outcome} (hi : w.validations[i]? = some ⟨ticket, .answered source outcome⟩)
    (hc : w.session.sequencer.latest ≠ ticket.sequence) :
    Ordered { w.move i ticket (.reported source outcome
        (.superseded ticket.sequence w.session.sequencer.latest)) with
      reports := w.reports ++ [.superseded ticket.sequence w.session.sequencer.latest] } := by
  refine ⟨h.toAccounted.supersede hi hc, ?_, ?_⟩
  · show (published (w.reports ++ [_])).Pairwise _
    rw [published_superseded]
    exact h.increasing
  · intro v hv hl source' outcome' report hr
    rcases List.mem_or_eq_of_mem_set hv with hv | rfl
    · exact h.shown v hv hl source' outcome' report hr
    · exact absurd hl.symm hc

theorem of_moves {w' : World} {s : Step} (hm : w.Moves s w') (h : Ordered w)
    (hlen : w'.validations.length < UInt64.size) : Ordered w' := by
  have haccount := h.toAccounted.of_moves hm hlen
  cases hm with
  | edit text => exact ⟨haccount, h.increasing, h.shown⟩
  | load host => exact ⟨haccount, h.increasing, h.shown⟩
  | issue => exact h.issue (by simpa using hlen)
  | read hi => exact h.move hi rfl (by simp)
  | answer outcome hi => exact h.move hi rfl (by simp)
  | publish hi hc => exact h.publish hi hc rfl haccount
  | supersede hi hc => exact h.supersede hi hc

theorem of_run {settings : Settings} {steps : List Step}
    (hrun : (World.fresh settings).run steps = some w) (hlen : w.validations.length < UInt64.size) :
    Ordered w :=
  World.run_induction (P := fun u => u.validations.length < UInt64.size → Ordered u)
    (fun _ hm hu hlen' =>
      of_moves hm (hu (Nat.lt_of_le_of_lt (World.length_le_of_moves hm) hlen')) hlen')
    hrun (fun _ => fresh settings) hlen

end Ordered

def ReadFrom (n : Nat) (text : String) (vs : List Validation) : Prop :=
  ∀ i v, n ≤ i → vs[i]? = some v → ∀ source, v.source? = some source → source = text

theorem ReadFrom.set {n : Nat} {text : String} {vs : List Validation} (h : ReadFrom n text vs)
    {i : Nat} {v : Validation} (hv : n ≤ i → ∀ source, v.source? = some source → source = text) :
    ReadFrom n text (vs.set i v) := by
  intro j u hj hu source hs
  rw [List.getElem?_set] at hu
  split at hu
  · next hij =>
    subst hij
    split at hu
    · obtain rfl := Option.some.inj hu
      exact hv hj source hs
    · cases hu
  · exact h j u hj hu source hs

theorem ReadFrom.of_moves {n : Nat} {text : String} {w w' : World} {s : Step}
    (hm : w.Moves s w') (hs : s.text? = none)
    (h : w.session.source = text ∧ ReadFrom n text w.validations) :
    w'.session.source = text ∧ ReadFrom n text w'.validations := by
  obtain ⟨hsource, hread⟩ := h
  cases hm with
  | edit text => cases hs
  | load host => exact ⟨hsource, hread⟩
  | issue =>
    refine ⟨hsource, fun i v hi hv source hvs => ?_⟩
    rcases Nat.lt_or_ge i w.validations.length with hlt | hge
    · exact hread i v hi ((List.getElem?_append_left hlt).symm.trans hv) source hvs
    · have hv' := (List.getElem?_append_right hge).symm.trans hv
      obtain rfl := List.mem_singleton.1 (List.mem_of_getElem? hv')
      cases hvs
  | read hi => exact ⟨hsource, hread.set fun _ _ hvs => (Option.some.inj hvs).symm.trans hsource⟩
  | answer outcome hi => exact ⟨hsource, hread.set fun hn source hvs => hread _ _ hn hi source hvs⟩
  | publish hi hc => exact ⟨hsource, hread.set fun hn source hvs => hread _ _ hn hi source hvs⟩
  | supersede hi hc => exact ⟨hsource, hread.set fun hn source hvs => hread _ _ hn hi source hvs⟩

theorem readFrom_of_run {w w' : World} {steps : List Step} (h : w.run steps = some w')
    (hsteps : steps.filterMap Step.text? = []) :
    ReadFrom w.validations.length w.session.source w'.validations := by
  have hnone : ∀ s ∈ steps, s.text? = none := by simpa using hsteps
  refine (World.run_induction (P := fun u => u.session.source = w.session.source ∧
    ReadFrom w.validations.length w.session.source u.validations)
    (fun hs hm hu => ReadFrom.of_moves hm (hnone _ hs) hu) h ⟨rfl, ?_⟩).2
  intro i v hi hv
  rw [List.getElem?_eq_none hi] at hv
  cases hv

theorem exists_last_edit (steps : List Step) :
    steps.filterMap Step.text? = [] ∨ ∃ before text after,
      steps = before ++ .edit text :: after ∧ after.filterMap Step.text? = [] := by
  induction steps with
  | nil => exact .inl rfl
  | cons s steps ih =>
    rcases ih with hnone | ⟨before, text, after, rfl, hafter⟩
    · cases s with
      | edit text => exact .inr ⟨[], text, steps, rfl, hnone⟩
      | load | issue | read | answer | apply => exact .inl hnone
    · exact .inr ⟨s :: before, text, after, rfl, hafter⟩

theorem length_lt_of_issue {w w' : World} {steps : List Step} (h : w.run steps = some w')
    (hi : Step.issue ∈ steps) : w.validations.length < w'.validations.length := by
  obtain ⟨before, after, rfl⟩ := List.append_of_mem hi
  rw [World.run_append] at h
  obtain ⟨w₁, h₁, h₂⟩ := Option.bind_eq_some_iff.1 h
  rw [World.run_cons] at h₂
  obtain ⟨w₂, hissue, h₃⟩ := Option.bind_eq_some_iff.1 h₂
  obtain rfl := Option.some.inj hissue
  have hbefore := World.length_le_of_run h₁
  have hafter := World.length_le_of_run h₃
  rw [List.length_append, List.length_singleton] at hafter
  omega

/-- After every edit some validation is issued. -/
def EditsValidated (steps : List Step) : Prop :=
  ∀ text after, (.edit text :: after) <:+ steps → .issue ∈ after

theorem readFrom_lastText {settings : Settings} {steps : List Step} {w : World}
    (hrun : (World.fresh settings).run steps = some w) (hedits : EditsValidated steps) :
    ∃ n, (w.validations ≠ [] → n < w.validations.length) ∧
      ReadFrom n (lastText steps) w.validations := by
  -- all that are issued after the last edit read its text, and there is one
  rcases exists_last_edit steps with hnone | ⟨before, text, after, rfl, hafter⟩
  · refine ⟨0, List.length_pos_iff.2, ?_⟩
    rw [lastText, hnone]
    exact readFrom_of_run hrun hnone
  · have hlast : lastText (before ++ .edit text :: after) = text := by
      simp [lastText, Step.text?, hafter]
    rw [World.run_append] at hrun
    obtain ⟨w₀, -, h₀⟩ := Option.bind_eq_some_iff.1 hrun
    rw [World.run_cons] at h₀
    obtain ⟨w₁, h₁, h₂⟩ := Option.bind_eq_some_iff.1 h₀
    obtain rfl := Option.some.inj h₁
    have hlt := length_lt_of_issue h₂ (hedits text after (List.suffix_append _ _))
    refine ⟨w₀.validations.length, fun _ => hlt, ?_⟩
    rw [hlast]
    exact readFrom_of_run h₂ hafter

theorem settings_of_run {settings : Settings} {steps : List Step} {w : World}
    (hrun : (World.fresh settings).run steps = some w) : w.session.settings = settings := by
  refine World.run_induction (P := fun u => u.session.settings = settings)
    (fun _ hm hu => ?_) hrun rfl
  cases hm <;> exact hu

theorem superseded_of_step {w w' : World} {i : Nat} {sequence latest : UInt64}
    (hstep : w.step (.apply i) = some w')
    (hreport : w'.reports = w.reports ++ [.superseded sequence latest]) :
    w'.session = w.session := by
  cases World.moves_of_step hstep with
  | publish hi hc => cases List.append_cancel_left hreport
  | supersede hi hc => rfl

/-- Once all validations have been applied, the surface shows the last text: the validation with
the largest ticket has read it, reports as applied, and is what the surface shows. -/
theorem latest_edit_wins {settings : Settings} {steps : List Step} {w : World}
    (hrun : (World.fresh settings).run steps = some w) (hcount : w.validations.length < UInt64.size)
    (hedits : EditsValidated steps) (hdone : ∀ v ∈ w.validations, v.report?.isSome) :
    (w.validations ≠ [] → ∃ v ∈ w.validations,
      (∀ u ∈ w.validations, u = v ∨ u.ticket.sequence < v.ticket.sequence) ∧
      ∃ outcome, v.stage =
          .reported (lastText steps) outcome (outcome.report v.ticket (lastText steps)) ∧
        w.session.surface.status = some outcome.status ∧
        w.session.surface.markersOf settings.markerOwner = outcome.markers (lastText steps)) ∧
    (published w.reports).Pairwise (·.1 < ·.1) ∧
    w.session.surface.history = (published w.reports).map (·.2) ∧
    (∀ sequence latest, .superseded sequence latest ∈ w.reports → sequence < latest) ∧
    ∀ before i w₁ w₂ sequence latest, before ++ [.apply i] <+: steps →
      (World.fresh settings).run before = some w₁ → w₁.step (.apply i) = some w₂ →
      w₂.reports = w₁.reports ++ [.superseded sequence latest] → w₂.session = w₁.session := by
  have hord := Ordered.of_run hrun hcount
  refine ⟨fun hne => ?_, hord.increasing, hord.history, hord.overtaken,
    fun _ _ _ _ _ _ _ _ hstep hreport => superseded_of_step hstep hreport⟩
  · obtain ⟨n, hn, hread⟩ := readFrom_lastText hrun hedits
    -- tickets are numbered in the order of issue, so the last one issued has the largest
    have hi := List.getLast?_eq_getElem? (l := w.validations)
    rw [List.getLast?_eq_some_getLast hne] at hi
    have hmem := List.getLast_mem hne
    generalize w.validations.getLast hne = v at hi hmem
    have hlatest : v.ticket.sequence = w.session.sequencer.latest := by
      rw [← UInt64.toNat_inj, hord.numbered.ticket_eq hi.symm, hord.numbered.latest_eq]
      have := List.length_pos_iff.2 hne
      omega
    refine ⟨v, hmem, fun u hu => ?_, ?_⟩
    · by_cases heq : u.ticket.sequence = v.ticket.sequence
      · exact .inl (hord.numbered.eq_of_sequence_eq hu hmem heq)
      · exact .inr (UInt64.lt_of_le_of_ne (hlatest ▸ hord.numbered.le_latest hu) heq)
    · have hv := hdone v hmem
      cases hstage : v.stage with
      | reported source outcome report =>
        obtain ⟨rfl, hstatus, hmarkers⟩ := hord.shown v hmem hlatest _ _ _ hstage
        have hsource : source = lastText steps := by
          refine hread _ v ?_ hi.symm _ (by rw [Validation.source?, hstage])
          have := hn hne
          omega
        rw [settings_of_run hrun] at hmarkers
        subst hsource
        exact ⟨outcome, rfl, hstatus, hmarkers⟩
      | issued | reading | answered | publishing => simp [Validation.report?, hstage] at hv

def overtaking : List Step :=
  [.issue, .read 0, .answer 0 (.error .execution), .apply 0, .edit "fals", .issue, .read 1,
    .edit "é fals", .issue, .read 2, .answer 2 (.ok (.failed ⟨"unknown", some ⟨1, 4, 1, 8⟩⟩)),
    .answer 1 (.ok (.compiled [])), .apply 2, .apply 1]

theorem latest_edit_wins_overtaking :
    ∃ w, (World.fresh plainSettings).run overtaking = some w ∧ w.validations.length < UInt64.size ∧
      EditsValidated overtaking ∧ (∀ v ∈ w.validations, v.report?.isSome) ∧
      published w.reports = [(1, .internalError), (3, .failed "unknown")] ∧
      ∃ v ∈ w.validations, (∀ u ∈ w.validations, u = v ∨ u.ticket.sequence < v.ticket.sequence) ∧
        v.source? = some "é fals" := by
  have hedits : EditsValidated overtaking := by
    intro text after h
    simp [overtaking, List.suffix_cons_iff] at h
    rcases h with ⟨rfl, rfl⟩ | ⟨rfl, rfl⟩ <;> simp
  have hrun : (World.fresh plainSettings).run overtaking = some _ := rfl
  refine ⟨_, hrun, by decide, hedits, by decide, by rfl, ?_⟩
  obtain ⟨v, hv, hlatest, outcome, hstage, -⟩ :=
    (latest_edit_wins hrun (by decide) hedits (by decide)).1 (List.ne_nil_of_length_pos (by decide))
  exact ⟨v, hv, hlatest, by rw [Validation.source?, hstage]; rfl⟩

end SplitEditor.Overlap
