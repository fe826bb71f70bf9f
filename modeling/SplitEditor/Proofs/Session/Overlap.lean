import SplitEditor.Proofs.Session.Actions

/-! Runs of a session whose validations overlap. A validation takes its ticket, reads the source,
gets its answer, and is shown. Between any two of these steps the source may be edited, the binary
loaded, and any other validation may take a step of its own. -/

namespace SplitEditor.Overlap
open Session

inductive Stage where
  | issued
  | reading (source : String)
  | answered (source : String) (outcome : Outcome)
  /-- It was found current, and waits for the output to be free. -/
  | publishing (source : String) (outcome : Outcome) (publication : Publication)
  | reported (source : String) (outcome : Outcome) (report : Report)

structure Validation where
  ticket : Ticket
  stage : Stage

namespace Validation

def source? (v : Validation) : Option String :=
  match v.stage with
  | .issued => none
  | .reading source | .answered source _ | .publishing source .. | .reported source .. =>
    some source

def report? (v : Validation) : Option Report :=
  match v.stage with
  | .reported _ _ report => some report
  | _ => none

end Validation

/-- A session, its validations in the order in which they took their tickets, and the reports in
the order in which they were made. -/
structure World where
  session : Session
  validations : List Validation
  reports : List Report

/-- A step names its validation by its place in the order of issue. -/
inductive Step where
  | edit (text : String)
  | load (host : Option Host)
  | issue
  | read (i : Nat)
  | answer (i : Nat) (outcome : Outcome)
  | apply (i : Nat)

def Step.text? : Step → Option String
  | edit text => some text
  | _ => none

def lastText (steps : List Step) : String :=
  (steps.filterMap Step.text?).getLast?.getD Session.initialSource

def plainSettings : Settings := ⟨.native, 0, 0, 0, "asl", "inmemory://model/1"⟩

namespace World

def fresh (settings : Settings) : World := ⟨.fresh settings, [], []⟩

def move (w : World) (i : Nat) (ticket : Ticket) (stage : Stage) : World :=
  { w with validations := w.validations.set i ⟨ticket, stage⟩ }

def apply (w : World) (i : Nat) (ticket : Ticket) (source : String) (outcome : Outcome) : World :=
  let (report, session) := act (Session.apply ticket source outcome) w.session
  { w.move i ticket (.reported source outcome report) with
    session := session
    reports := w.reports ++ [report] }

/-- A step, unless its validation is not that far. -/
def step (w : World) : Step → Option World
  | .edit text => some { w with session := (act (Session.setSource text) w.session).2 }
  | .load host => some { w with session := { w.session with host } }
  | .issue =>
    let (ticket, session) := act Session.issue w.session
    some { w with session, validations := w.validations ++ [⟨ticket, .issued⟩] }
  | .read i =>
    match w.validations[i]? with
    | some ⟨ticket, .issued⟩ =>
      let (source, session) := act (Session.readSource ticket) w.session
      some { w.move i ticket (.reading source) with session }
    | _ => none
  | .answer i outcome =>
    match w.validations[i]? with
    | some ⟨ticket, .reading source⟩ => some (w.move i ticket (.answered source outcome))
    | _ => none
  | .apply i =>
    match w.validations[i]? with
    | some ⟨ticket, .answered source outcome⟩ => some (w.apply i ticket source outcome)
    | _ => none

def runOf {σ : Type} (step : World → σ → Option World) (w : World) (steps : List σ) :
    Option World :=
  steps.foldlM step w

def run (w : World) (steps : List Step) : Option World := runOf step w steps

/-- What a step does to the world, spelled out. -/
inductive Moves (w : World) : Step → World → Prop where
  | edit (text : String) :
    Moves w (.edit text) { w with session := { w.session with source := text } }
  | load (host : Option Host) : Moves w (.load host) { w with session := { w.session with host } }
  | issue :
    Moves w .issue
      { w with
        session := { w.session with sequencer := ⟨w.session.sequencer.latest + 1⟩ }
        validations := w.validations ++ [⟨⟨w.session.sequencer.latest + 1⟩, .issued⟩] }
  | read {i : Nat} {ticket : Ticket} (h : w.validations[i]? = some ⟨ticket, .issued⟩) :
    Moves w (.read i) (w.move i ticket (.reading w.session.source))
  | answer {i : Nat} {ticket : Ticket} {source : String} (outcome : Outcome)
      (h : w.validations[i]? = some ⟨ticket, .reading source⟩) :
    Moves w (.answer i outcome) (w.move i ticket (.answered source outcome))
  | publish {i : Nat} {ticket : Ticket} {source : String} {outcome : Outcome}
      (h : w.validations[i]? = some ⟨ticket, .answered source outcome⟩)
      (current : w.session.sequencer.latest = ticket.sequence) :
    Moves w (.apply i)
      { w.move i ticket (.reported source outcome (outcome.report ticket source)) with
        session := (w.session.listed outcome.listing?).published (outcome.publication source)
        reports := w.reports ++ [outcome.report ticket source] }
  | supersede {i : Nat} {ticket : Ticket} {source : String} {outcome : Outcome}
      (h : w.validations[i]? = some ⟨ticket, .answered source outcome⟩)
      (stale : w.session.sequencer.latest ≠ ticket.sequence) :
    Moves w (.apply i)
      { w.move i ticket (.reported source outcome
          (.superseded ticket.sequence w.session.sequencer.latest)) with
        reports := w.reports ++ [.superseded ticket.sequence w.session.sequencer.latest] }

theorem moves_of_step {w w' : World} {s : Step} (h : w.step s = some w') : w.Moves s w' := by
  cases s with
  | edit text =>
    obtain rfl := Option.some.inj h
    exact .edit text
  | load host =>
    obtain rfl := Option.some.inj h
    exact .load host
  | issue =>
    obtain rfl := Option.some.inj h
    exact .issue
  | read i =>
    simp only [step] at h
    split at h
    · next ticket hv =>
      obtain rfl := Option.some.inj h
      exact .read hv
    · cases h
  | answer i outcome =>
    simp only [step] at h
    split at h
    · next ticket source hv =>
      obtain rfl := Option.some.inj h
      exact .answer outcome hv
    · cases h
  | apply i =>
    simp only [step] at h
    split at h
    · next ticket source outcome hv =>
      obtain rfl := Option.some.inj h
      unfold apply
      by_cases hc : w.session.sequencer.latest = ticket.sequence
      · rw [act_apply_current source outcome hc]
        exact .publish hv hc
      · rw [act_apply_stale source outcome hc]
        exact .supersede hv hc
    · cases h

section
variable {σ : Type} {step : World → σ → Option World}

theorem runOf_append (w : World) (before after : List σ) :
    runOf step w (before ++ after) = (runOf step w before).bind (runOf step · after) := by
  simp [runOf, List.foldlM_append]

theorem runOf_cons (w : World) (s : σ) (steps : List σ) :
    runOf step w (s :: steps) = (step w s).bind (runOf step · steps) := rfl

/-- What holds at first and is kept by every step of a run holds after it. A step may count on
the steps before it. -/
theorem runOf_induction {P : List σ → World → Prop} {w w' : World} {steps : List σ}
    (hstep : ∀ {before u u' s}, before ++ [s] <+: steps → runOf step w before = some u →
      step u s = some u' → P before u → P (before ++ [s]) u')
    (hrun : runOf step w steps = some w') (hw : P [] w) : P steps w' := by
  -- on the steps still to come, with those behind them kept apart
  suffices ∀ before after u, before ++ after = steps → runOf step w before = some u →
      runOf step u after = some w' → P before u → P steps w' from
    this [] steps w rfl rfl hrun hw
  intro before after
  induction after generalizing before with
  | nil =>
    rintro u rfl - hafter hu
    obtain rfl := Option.some.inj hafter
    rwa [List.append_nil]
  | cons s after ih =>
    intro u hsteps hbefore hafter hu
    rw [runOf_cons] at hafter
    obtain ⟨u', hs, hafter⟩ := Option.bind_eq_some_iff.1 hafter
    have hprefix : before ++ [s] <+: steps := ⟨after, by rw [List.append_assoc]; exact hsteps⟩
    refine ih (before ++ [s]) u' (by rw [List.append_assoc]; exact hsteps) ?_ hafter
      (hstep hprefix hbefore hs hu)
    rw [runOf_append, hbefore, Option.bind_some, runOf_cons, hs]
    rfl

end

theorem run_append (w : World) (before after : List Step) :
    w.run (before ++ after) = (w.run before).bind (·.run after) := runOf_append w before after

theorem run_cons (w : World) (s : Step) (steps : List Step) :
    w.run (s :: steps) = (w.step s).bind (·.run steps) := runOf_cons w s steps

theorem run_induction {P : World → Prop} {w w' : World} {steps : List Step}
    (hstep : ∀ {u u' s}, s ∈ steps → u.Moves s u' → P u → P u') (h : w.run steps = some w')
    (hw : P w) : P w' :=
  runOf_induction (P := fun _ => P)
    (fun hs _ hu => hstep (hs.subset (List.mem_append_right _ List.mem_cons_self))
      (moves_of_step hu)) h hw

theorem length_le_of_moves {w w' : World} {s : Step} (h : w.Moves s w') :
    w.validations.length ≤ w'.validations.length := by
  cases h <;> simp [move]

theorem length_le_of_run {w w' : World} {steps : List Step} (h : w.run steps = some w') :
    w.validations.length ≤ w'.validations.length :=
  run_induction (P := fun u => w.validations.length ≤ u.validations.length)
    (fun _ hm hu => Nat.le_trans hu (length_le_of_moves hm)) h (Nat.le_refl _)

end World

/-- Tickets are numbered in the order of issue, and the session has counted them all. -/
structure Numbered (latest : UInt64) (vs : List Validation) : Prop where
  latest_eq : latest.toNat = vs.length
  ticket_eq : ∀ {i : Nat} {v : Validation}, vs[i]? = some v → v.ticket.sequence.toNat = i + 1

namespace Numbered
variable {latest : UInt64} {vs : List Validation}

theorem nil : Numbered 0 [] := ⟨rfl, by simp⟩

theorem set (h : Numbered latest vs) {i : Nat} {ticket : Ticket} {old : Stage}
    (hi : vs[i]? = some ⟨ticket, old⟩) (stage : Stage) :
    Numbered latest (vs.set i ⟨ticket, stage⟩) := by
  refine ⟨by simpa using h.latest_eq, fun {j v} hj => ?_⟩
  rw [List.getElem?_set] at hj
  split at hj
  · next hij =>
    subst hij
    split at hj
    · have ht := h.ticket_eq hi
      obtain rfl := Option.some.inj hj
      exact ht
    · cases hj
  · exact h.ticket_eq hj

theorem issue (h : Numbered latest vs) (hlen : vs.length + 1 < UInt64.size) :
    Numbered (latest + 1) (vs ++ [⟨⟨latest + 1⟩, .issued⟩]) := by
  have hlatest : (latest + 1).toNat = vs.length + 1 := by
    rw [UInt64.toNat_add, h.latest_eq, UInt64.toNat_one]
    exact Nat.mod_eq_of_lt hlen
  refine ⟨by simpa using hlatest, fun {j v} hj => ?_⟩
  rcases Nat.lt_or_ge j vs.length with hlt | hge
  · rw [List.getElem?_append_left hlt] at hj
    exact h.ticket_eq hj
  · rw [List.getElem?_append_right hge, List.getElem?_singleton] at hj
    split at hj
    · next hz =>
      obtain rfl := Option.some.inj hj
      rw [hlatest]
      omega
    · cases hj

theorem le_latest (h : Numbered latest vs) {v : Validation} (hv : v ∈ vs) :
    v.ticket.sequence ≤ latest := by
  obtain ⟨i, hi⟩ := List.getElem?_of_mem hv
  obtain ⟨hlt, -⟩ := List.getElem?_eq_some_iff.1 hi
  rw [UInt64.le_iff_toNat_le, h.ticket_eq hi, h.latest_eq]
  exact hlt

theorem eq_of_sequence_eq (h : Numbered latest vs) {u v : Validation} (hu : u ∈ vs) (hv : v ∈ vs)
    (huv : u.ticket.sequence = v.ticket.sequence) : u = v := by
  obtain ⟨i, hi⟩ := List.getElem?_of_mem hu
  obtain ⟨j, hj⟩ := List.getElem?_of_mem hv
  have hij : i + 1 = j + 1 := by rw [← h.ticket_eq hi, ← h.ticket_eq hj, huv]
  obtain rfl : i = j := Nat.succ.inj hij
  exact Option.some.inj (hi.symm.trans hj)

end Numbered

end SplitEditor.Overlap
