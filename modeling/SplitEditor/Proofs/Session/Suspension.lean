import SplitEditor.Proofs.Session.Account

/-! Showing a listing can be suspended half-way, while the output is not free. Whoever is shown in
the meantime is shown before, and then the older validation goes on without another look at the
tickets. -/

namespace SplitEditor.Overlap
open Session

inductive Substep where
  | whole (s : Step)
  | begin (i : Nat)
  | finish (i : Nat)

namespace World

/-- Showing is suspended only where there is a listing to be put into the output. -/
def substep (w : World) : Substep → Option World
  | .whole s => w.step s
  | .begin i =>
    match w.validations[i]? with
    | some ⟨ticket, .answered source outcome⟩ =>
      match act (beginApply ticket source outcome) w.session with
      | (some p, session) =>
        if p.listing.isSome then
          some { w.move i ticket (.publishing source outcome p) with session }
        else none
      | (none, _) => none
    | _ => none
  | .finish i =>
    match w.validations[i]? with
    | some ⟨ticket, .publishing source outcome p⟩ =>
      let (report, session) := act (publish ticket p) w.session
      some { w.move i ticket (.reported source outcome report) with
        session
        reports := w.reports ++ [report] }
    | _ => none

def subrun (w : World) (steps : List Substep) : Option World := runOf substep w steps

inductive Submoves (w : World) : Substep → World → Prop where
  | whole {s : Step} {w' : World} (h : w.Moves s w') : Submoves w (.whole s) w'
  | begin {i : Nat} {ticket : Ticket} {source : String} {outcome : Outcome}
      (h : w.validations[i]? = some ⟨ticket, .answered source outcome⟩)
      (current : w.session.sequencer.latest = ticket.sequence)
      (listing : outcome.listing?.isSome) :
    Submoves w (.begin i)
      { w.move i ticket (.publishing source outcome (outcome.publication source)) with
        session := w.session.listed outcome.listing? }
  | finish {i : Nat} {ticket : Ticket} {source : String} {outcome : Outcome} {p : Publication}
      (h : w.validations[i]? = some ⟨ticket, .publishing source outcome p⟩) :
    Submoves w (.finish i)
      { w.move i ticket (.reported source outcome (p.report ticket)) with
        session := w.session.published p
        reports := w.reports ++ [p.report ticket] }

theorem submoves_of_substep {w w' : World} {s : Substep} (h : w.substep s = some w') :
    w.Submoves s w' := by
  cases s with
  | whole s => exact .whole (moves_of_step h)
  | begin i =>
    simp only [substep] at h
    split at h
    · next ticket source outcome hv =>
      by_cases hc : w.session.sequencer.latest = ticket.sequence
      · rw [act_beginApply_current source outcome hc] at h
        by_cases hlisting : (outcome.publication source).listing.isSome
        · simp only [if_pos hlisting] at h
          obtain rfl := Option.some.inj h
          exact .begin hv hc hlisting
        · simp only [if_neg hlisting] at h
          cases h
      · rw [act_beginApply_stale source outcome hc] at h
        cases h
    · cases h
  | finish i =>
    simp only [substep] at h
    split at h
    · next ticket source outcome p hv =>
      rw [act_publish] at h
      obtain rfl := Option.some.inj h
      exact .finish hv
    · cases h

theorem substep_begin {w : World} {i : Nat} {ticket : Ticket} {source : String}
    {outcome : Outcome} (h : w.validations[i]? = some ⟨ticket, .answered source outcome⟩)
    (hc : w.session.sequencer.latest = ticket.sequence) (hlisting : outcome.listing?.isSome) :
    w.substep (.begin i) = some
      { w.move i ticket (.publishing source outcome (outcome.publication source)) with
        session := w.session.listed outcome.listing? } := by
  have hpublication : (outcome.publication source).listing.isSome := hlisting
  simp only [substep, h, act_beginApply_current source outcome hc, if_pos hpublication]

theorem length_le_of_submoves {w w' : World} {s : Substep} (h : w.Submoves s w') :
    w.validations.length ≤ w'.validations.length := by
  cases h with
  | whole h => exact length_le_of_moves h
  | begin h | finish h => simp [move]

end World

namespace Accounted
variable {w : World}

theorem of_submoves {w' : World} {s : Substep} (hm : w.Submoves s w') (h : Accounted w)
    (hlen : w'.validations.length < UInt64.size) : Accounted w' := by
  cases hm with
  | whole hm => exact h.of_moves hm hlen
  | begin hi hc hlisting =>
    exact (h.move hi rfl _).withSession rfl (history_listed _ _)
  | finish hi => exact h.publish hi rfl rfl (history_published _ _)

theorem of_subrun {settings : Settings} {steps : List Substep}
    (hrun : (World.fresh settings).subrun steps = some w)
    (hlen : w.validations.length < UInt64.size) : Accounted w :=
  World.runOf_induction (P := fun _ u => u.validations.length < UInt64.size → Accounted u)
    (fun _ _ hs hu hlen => by
      have hm := World.submoves_of_substep hs
      exact of_submoves hm (hu (Nat.lt_of_le_of_lt (World.length_le_of_submoves hm) hlen)) hlen)
    hrun (fun _ => fresh settings) hlen

end Accounted

/-- Every validation that is finished is newer than all that were shown before. -/
def FinishedInOrder (settings : Settings) (steps : List Substep) : Prop :=
  ∀ before i w v, before ++ [.finish i] <+: steps →
    (World.fresh settings).subrun before = some w → w.validations[i]? = some v →
    ∀ p ∈ published w.reports, p.1 < v.ticket.sequence

theorem reports_prefix_of_submoves {w w' : World} {s : Substep} (h : w.Submoves s w') :
    w.reports <+: w'.reports := by
  cases h with
  | whole h =>
    cases h with
    | publish | supersede => exact List.prefix_append _ _
    | edit | load | issue | read | answer => exact List.prefix_refl _
  | begin => exact List.prefix_refl _
  | finish => exact List.prefix_append _ _

theorem reports_prefix_of_subrun {w w' : World} {steps : List Substep}
    (h : w.subrun steps = some w') : w.reports <+: w'.reports :=
  World.runOf_induction (P := fun _ u => w.reports <+: u.reports)
    (fun _ _ hs hu => hu.trans (reports_prefix_of_submoves (World.submoves_of_substep hs))) h
    (List.prefix_refl _)

theorem increasing_of_submoves {w w' : World} {s : Substep} (h : Accounted w)
    (hm : w.Submoves s w') (hinc : (published w.reports).Pairwise (·.1 < ·.1))
    (hfinish : ∀ i v, s = .finish i → w.validations[i]? = some v →
      ∀ p ∈ published w.reports, p.1 < v.ticket.sequence) :
    (published w'.reports).Pairwise (·.1 < ·.1) := by
  have happend : ∀ (ticket : Ticket) (p : Publication),
      (∀ q ∈ published w.reports, q.1 < ticket.sequence) →
        (published (w.reports ++ [p.report ticket])).Pairwise (·.1 < ·.1) := by
    intro ticket p hp
    rw [published_report, List.pairwise_append]
    refine ⟨hinc, List.pairwise_singleton _ _, fun q hq r hr => ?_⟩
    obtain rfl := List.mem_singleton.1 hr
    exact hp q hq
  cases hm with
  | whole hm =>
    cases hm with
    | @publish _ ticket source outcome hi hc =>
      exact happend ticket (outcome.publication source) fun q => h.lt_of_current hi rfl hc
    | supersede hi hc =>
      show (published (w.reports ++ [_])).Pairwise _
      rwa [published_superseded]
    | edit | load | issue | read | answer => exact hinc
  | begin => exact hinc
  | @finish i ticket _ _ p hi => exact happend ticket p (hfinish i _ rfl hi)

/-- What is shown gets ever newer exactly in the runs in which no validation is finished after a
newer one was shown. -/
theorem increasing_iff_finishedInOrder {settings : Settings} {steps : List Substep} {w : World}
    (hrun : (World.fresh settings).subrun steps = some w)
    (hcount : w.validations.length < UInt64.size) :
    (published w.reports).Pairwise (·.1 < ·.1) ↔ FinishedInOrder settings steps := by
  constructor
  · rintro hinc before i w₁ v ⟨after, rfl⟩ hbefore hv p hp
    rw [World.subrun, List.append_assoc, World.runOf_append, ← World.subrun, hbefore,
      Option.bind_some, List.singleton_append, World.runOf_cons] at hrun
    obtain ⟨w₂, hfinish, hafter⟩ := Option.bind_eq_some_iff.1 hrun
    have hreports := reports_prefix_of_subrun hafter
    cases World.submoves_of_substep hfinish with
    | finish hi =>
      obtain rfl := Option.some.inj (hv.symm.trans hi)
      -- what is shown next only goes behind this report
      have hprefix := hreports.filterMap publishedOf
      have hinc₂ := hinc.sublist hprefix.sublist
      rw [← published, published_report, List.pairwise_append] at hinc₂
      exact hinc₂.2.2 p hp _ List.mem_cons_self
  · intro horder
    refine World.runOf_induction (P := fun _ u => u.validations.length < UInt64.size →
      (published u.reports).Pairwise (·.1 < ·.1)) ?_ hrun (fun _ => .nil) hcount
    intro before u u' s hprefix hbefore hs hinc hlen
    have hm := World.submoves_of_substep hs
    -- the accounts are kept even where the order is not
    have hlen' := Nat.lt_of_le_of_lt (World.length_le_of_submoves hm) hlen
    refine increasing_of_submoves (Accounted.of_subrun hbefore hlen') hm (hinc hlen') ?_
    rintro i v rfl hv
    exact horder before i u v hprefix hbefore hv

theorem length_le_of_subrun {w w' : World} {steps : List Substep} (h : w.subrun steps = some w') :
    w.validations.length ≤ w'.validations.length :=
  World.runOf_induction (P := fun _ u => w.validations.length ≤ u.validations.length)
    (fun _ _ hs hu => Nat.le_trans hu (World.length_le_of_submoves (World.submoves_of_substep hs)))
    h (Nat.le_refl _)

theorem finishedInOrder_of_current {settings : Settings} {steps : List Substep} {w : World}
    (hrun : (World.fresh settings).subrun steps = some w)
    (hcount : w.validations.length < UInt64.size)
    (hcurrent : ∀ before i w₁ v, before ++ [.finish i] <+: steps →
      (World.fresh settings).subrun before = some w₁ → w₁.validations[i]? = some v →
      w₁.session.sequencer.latest = v.ticket.sequence) :
    FinishedInOrder settings steps := by
  rintro before i w₁ v hprefix hbefore hv p hp
  have hc := hcurrent before i w₁ v hprefix hbefore hv
  obtain ⟨after, rfl⟩ := hprefix
  rw [World.subrun, List.append_assoc, World.runOf_append, ← World.subrun, hbefore,
    Option.bind_some] at hrun
  have hcount₁ := Nat.lt_of_le_of_lt (length_le_of_subrun hrun) hcount
  rw [List.singleton_append, World.runOf_cons] at hrun
  obtain ⟨w₂, hfinish, -⟩ := Option.bind_eq_some_iff.1 hrun
  cases World.submoves_of_substep hfinish with
  | finish hi =>
    obtain rfl := Option.some.inj (hv.symm.trans hi)
    exact (Accounted.of_subrun hbefore hcount₁).lt_of_current hi rfl hc hp

def suspended (module : List UInt8) : List Substep :=
  [.whole .issue, .whole (.read 0), .whole (.answer 0 (.ok (.compiled module)))] ++
    .begin 0 :: [.whole (.edit "fals"), .whole .issue, .whole (.read 1),
      .whole (.answer 1 (.ok (.failed ⟨"unknown", none⟩))), .whole (.apply 1), .finish 0]

theorem stale_shown (settings : Settings) {module : List UInt8}
    (h : (Outcome.listing? (.ok (.compiled module))).isSome) :
    ∃ w, (World.fresh settings).subrun (suspended module) = some w ∧ w.validations.length = 2 ∧
      published w.reports = [(2, .failed "unknown"), (1, .ready)] ∧
      w.session.surface.status = some .ready := by
  have hbefore : World.runOf World.substep (World.fresh settings)
      [.whole .issue, .whole (.read 0), .whole (.answer 0 (.ok (.compiled module)))] =
        some _ := rfl
  have hshown : ((World.fresh settings).subrun (suspended module)).map (fun w =>
      (w.validations.length, published w.reports, w.session.surface.status)) =
        some (2, [(2, .failed "unknown"), (1, .ready)], some .ready) := by
    unfold World.subrun suspended
    rw [World.runOf_append, hbefore, Option.bind_some, World.runOf_cons,
      @World.substep_begin _ 0 _ _ _ rfl rfl h]
    rfl
  obtain ⟨w, hrun, hw⟩ := Option.map_eq_some_iff.1 hshown
  simp only [Prod.mk.injEq] at hw
  exact ⟨w, hrun, hw⟩

def emptyModule : List UInt8 := [0x00, 0x61, 0x73, 0x6D, 0x01, 0x00, 0x00, 0x00]

theorem render_emptyModule : Wasm.Listing.render emptyModule = .ok "(module)" := by
  have hheader : Wasm.Part.ofHeader? emptyModule = some (.header 1 .module, .module, []) := rfl
  have hparts : Wasm.Part.ofBytes? emptyModule = some [.header 1 .module] := by
    rw [Wasm.Part.ofBytes?, Wasm.Part.readFrom]
    split
    · next hnone => cases hheader.symm.trans hnone
    · next hsome =>
      cases hheader.symm.trans hsome
      rw [Wasm.Part.readFrom]
      rfl
  rw [Wasm.Listing.render, Wasm.Listing.lines?, hparts]
  rfl

theorem listing_emptyModule : (Outcome.listing? (.ok (.compiled emptyModule))).isSome := by
  show (Wasm.Listing.render emptyModule).toOption.isSome
  rw [render_emptyModule]
  rfl

theorem exists_stale_shown : ∃ settings steps w,
    (World.fresh settings).subrun steps = some w ∧ w.validations.length = 2 ∧
      ¬(published w.reports).Pairwise (·.1 < ·.1) := by
  obtain ⟨w, hrun, hlength, hpublished, -⟩ :=
    stale_shown ⟨.native, 0, 0, 0, "asl", "inmemory://model/1"⟩ listing_emptyModule
  refine ⟨_, _, w, hrun, hlength, ?_⟩
  rw [hpublished]
  decide

end SplitEditor.Overlap
