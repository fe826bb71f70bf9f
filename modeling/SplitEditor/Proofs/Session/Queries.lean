import SplitEditor.Proofs.Session.Turns

/-! Runs of a session that differ in their queries only. A query changes nothing but whether the
binary is there already, and whoever needs the binary next would have fetched the same one. -/

namespace SplitEditor

namespace Session
variable [Wasm.Engine] {artifact : Artifact} {s s' : Session}

theorem loaded_of_host (hsettings : s'.settings = s.settings)
    (hhost : s'.host = (s.loaded artifact).toOption) : s'.loaded artifact = s.loaded artifact := by
  rw [loaded, hhost, hsettings]
  unfold loaded
  cases s.host with
  | some b => rfl
  | none =>
    show _ = s.settings.load artifact
    cases s.settings.load artifact <;> rfl

theorem loaded_kept (artifact : Artifact) (s : Session) :
    (s.kept artifact).loaded artifact = s.loaded artifact := loaded_of_host rfl rfl

theorem kept_kept (artifact : Artifact) (s : Session) :
    (s.kept artifact).kept artifact = s.kept artifact := by
  rw [kept, loaded_kept]
  rfl

theorem validated_kept (artifact : Artifact) (s : Session) :
    (s.kept artifact).validated artifact = s.validated artifact := by
  rw [validated, verdict, loaded_kept, kept_kept]
  rfl

end Session

end SplitEditor

namespace SplitEditor.Sequential
open Session Overlap

def Turn.isUpdate : Turn → Bool
  | .ask (.query ..) => false
  | _ => true

section Alike
variable [Wasm.Engine]

/-- The sessions are the same once both have asked for the binary. -/
def Alike (artifact : Artifact) (s s' : Session) : Prop := s.kept artifact = s'.kept artifact

namespace Alike
variable {artifact : Artifact} {s s' : Session}

theorem loaded_eq (h : Alike artifact s s') : s.loaded artifact = s'.loaded artifact := by
  rw [← loaded_kept artifact s, ← loaded_kept artifact s', show s.kept artifact = _ from h]

theorem validated_eq (h : Alike artifact s s') : s.validated artifact = s'.validated artifact := by
  rw [← validated_kept artifact s, ← validated_kept artifact s', show s.kept artifact = _ from h]

theorem write (h : Alike artifact s s') (text : String) :
    Alike artifact { s with source := text } { s' with source := text } := by
  show { s.kept artifact with source := text } = { s'.kept artifact with source := text }
  rw [show s.kept artifact = _ from h]

theorem response_eq (h : Alike artifact s s') (turn : Turn) :
    (record artifact turn s).response = (record artifact turn s').response := by
  cases turn with
  | write text => rfl
  | ask request =>
    have hkept (s : Session) (loaded : Except AnalysisError Host) :
        respond s loaded request = respond (s.kept artifact) loaded request := by
      cases request <;> rfl
    rw [(serves_record artifact _ s).responds.1, (serves_record artifact _ s').responds.1,
      h.loaded_eq, hkept s, hkept s', show s.kept artifact = _ from h]

theorem after (h : Alike artifact s s') (turn : Turn) :
    Alike artifact (record artifact turn s).after (record artifact turn s').after := by
  have hvalidated {s s' : Session} (h : Alike artifact s s') :
      Alike artifact (s.validated artifact) (s'.validated artifact) :=
    congrArg (kept · artifact) h.validated_eq
  cases turn with
  | write text => exact h.write text
  | ask request =>
    rw [(record_ask artifact request s).2, (record_ask artifact request s').2]
    cases request with
    | edit text =>
      rw [act_perform_edit, act_perform_edit, act_perform_validate, act_perform_validate]
      exact hvalidated (h.write text)
    | validate =>
      rw [act_perform_validate, act_perform_validate]
      exact hvalidated h
    | query =>
      rw [act_perform_query, act_perform_query]
      exact congrArg (kept · artifact) h

end Alike

theorem alike_of_not_isUpdate {turn : Turn} (hturn : turn.isUpdate = false) (artifact : Artifact)
    (s : Session) :
    (record artifact turn s).report? = none ∧ Alike artifact (record artifact turn s).after s := by
  match turn with
  | .ask (.query query line column) =>
    have hresponse := (serves_record artifact (.ask (.query query line column)) s).responds.1
    refine ⟨by rw [Record.report?, hresponse]; rfl, ?_⟩
    rw [(record_ask artifact _ s).2, act_perform_query]
    exact kept_kept artifact s
  | .write _ | .ask .validate | .ask (.edit _) => cases hturn

theorem reports_filter (artifact : Artifact) (turns : List Turn) {s s' : Session}
    (h : Alike artifact s s') :
    let updates := turns.filter Turn.isUpdate
    reports (trace s (turns.map (artifact, ·))) = reports (trace s' (updates.map (artifact, ·))) ∧
      Alike artifact (finish s (turns.map (artifact, ·)))
        (finish s' (updates.map (artifact, ·))) := by
  -- a query leaves a session that is alike, from which the other run has not moved on
  induction turns generalizing s s' with
  | nil => exact ⟨rfl, h⟩
  | cons turn turns ih =>
    cases hturn : turn.isUpdate with
    | false =>
      obtain ⟨hreport, halike⟩ := alike_of_not_isUpdate hturn artifact s
      obtain ⟨hreports, hfinish⟩ := ih (s := (record artifact turn s).after) (halike.trans h)
      rw [List.filter_cons_of_neg (by simp [hturn])]
      refine ⟨?_, hfinish⟩
      rw [← hreports, List.map_cons, trace, reports, List.filterMap_cons_none hreport]
      rfl
    | true =>
      obtain ⟨hreports, hfinish⟩ := ih (h.after turn)
      rw [List.filter_cons_of_pos hturn]
      refine ⟨?_, hfinish⟩
      have hreport : (record artifact turn s).report? = (record artifact turn s').report? := by
        rw [Record.report?, Record.report?, h.response_eq]
      simp only [List.map_cons, trace, reports, List.filterMap_cons, hreport]
      rw [← reports, ← reports, hreports]

/-- Two runs with this artifact cannot be told apart by anything but the answers to their queries,
and these are what a session that has done nothing would answer for the source as it is then. -/
structure Unnoticed (settings : Settings) (artifact : Artifact) (turns turns' : List Turn) :
    Prop where
  reports : reports (trace (.fresh settings) (turns.map (artifact, ·))) =
    reports (trace (.fresh settings) (turns'.map (artifact, ·)))
  /-- The sessions differ at most in whether the binary is there. -/
  session : { finish (.fresh settings) (turns.map (artifact, ·)) with host := none } =
    { finish (.fresh settings) (turns'.map (artifact, ·)) with host := none }
  answers : ∀ past r future query line column,
    trace (.fresh settings) (turns.map (artifact, ·)) = past ++ r :: future →
      r.turn = .ask (.query query line column) → r.response = some (.finding
        ({ Session.fresh settings with source := r.before.source }.answer artifact query line
          column))

theorem loaded_after (artifact : Artifact) (turn : Turn) (s : Session) :
    (record artifact turn s).after.loaded artifact = s.loaded artifact := by
  cases turn with
  | write text => rfl
  | ask request =>
    have hserves := serves_record artifact (.ask request) s
    exact loaded_of_host hserves.settings hserves.responds.2

/-- The session and its records have the settings and the artifact they are supposed to have. -/
structure Fixed (settings : Settings) (artifact : Artifact) (past : List Record) (s : Session) :
    Prop where
  configured : s.settings = settings
  loads : s.loaded artifact = settings.load artifact
  fetched : ∀ r ∈ past, r.artifact = artifact

theorem answer_of_trace {settings : Settings} {artifact : Artifact} {turns : List Turn}
    {past future : List Record} {r : Record} {query : Query} {line column : UInt32}
    (h : trace (.fresh settings) (turns.map (artifact, ·)) = past ++ r :: future)
    (hturn : r.turn = .ask (.query query line column)) : r.response = some (.finding
      ({ Session.fresh settings with source := r.before.source }.answer artifact query line
        column)) := by
  have hstep (past : List Record) (u : Session) (artifact' : Artifact) (turn : Turn)
      (hmem : (artifact', turn) ∈ turns.map (artifact, ·)) (hu : Fixed settings artifact past u) :
      Fixed settings artifact (past ++ [record artifact' turn u])
        (record artifact' turn u).after := by
    obtain ⟨_, -, heq⟩ := List.mem_map.1 hmem
    obtain ⟨rfl, -⟩ := Prod.mk.inj heq
    exact ⟨(serves_record artifact turn u).settings.trans hu.configured,
      (loaded_after artifact turn u).trans hu.loads,
      List.forall_mem_append.2 ⟨hu.fetched, List.forall_mem_singleton.2 rfl⟩⟩
  obtain ⟨hbefore, hafter, hr⟩ := trace_induction (P := Fixed settings artifact)
    ⟨rfl, rfl, by simp⟩ hstep h
  rw [hturn, hafter.fetched r (by simp)] at hr
  have hresponse := (serves_record artifact (.ask (.query query line column)) r.before).responds.1
  rw [← hr, hbefore.loads] at hresponse
  rw [hresponse, respond, hbefore.configured]
  rfl

/-- Queries can be asked anywhere in a run, and it goes on as if they had not been. -/
theorem queries_unnoticed (settings : Settings) (artifact : Artifact) (turns turns' : List Turn)
    (h : turns.filter Turn.isUpdate = turns'.filter Turn.isUpdate) :
    Unnoticed settings artifact turns turns' := by
  have hfresh : Alike artifact (.fresh settings) (.fresh settings) := rfl
  obtain ⟨hreports, halike⟩ := reports_filter artifact turns hfresh
  obtain ⟨hreports', halike'⟩ := reports_filter artifact turns' hfresh
  rw [← h] at hreports' halike'
  constructor
  case reports => rw [hreports, hreports']
  case session =>
    exact congrArg (fun s : Session => { s with host := none }) (halike.trans halike'.symm)
  case answers => exact fun _ _ _ _ _ _ => answer_of_trace

end Alike

def curiousTurns : List Turn :=
  [.ask (.query .references 1 1), .ask (.edit "f"), .ask (.query .hover 1 1), .ask .validate,
    .ask (.query (.rename "x") 1 1)]

theorem eq_ok_of_toOption {ε α : Type} {result : Except ε α} {a : α}
    (h : result.toOption = some a) : result = .ok a := by
  cases result with
  | error e => cases h
  | ok a' => rw [Option.some.inj h]

theorem queries_unnoticed_stub :
    curiousTurns.filter Turn.isUpdate = [.ask (.edit "f"), .ask .validate] ∧
      reports (@trace .standard (.fresh stubSettings) (curiousTurns.map (stubbed, ·))) =
        [.applied 1 (.failed "oops") [⟨⟨1, 1, 1, 2⟩, .error, "oops"⟩] none,
          .applied 2 (.failed "oops") [⟨⟨1, 1, 1, 2⟩, .error, "oops"⟩] none] ∧
      ∃ r future, @trace .standard (.fresh stubSettings) (curiousTurns.map (stubbed, ·)) =
        r :: future ∧ r.response = some (.finding (.ok (some (.references [])))) := by
  letI : Wasm.Engine := .standard
  have hunnoticed := queries_unnoticed stubSettings stubbed curiousTurns
    [.ask (.edit "f"), .ask .validate] (by decide)
  have hupdates : reports (trace (.fresh stubSettings)
      ([.ask (.edit "f"), .ask .validate].map (stubbed, ·))) =
        [.applied 1 (.failed "oops") [⟨⟨1, 1, 1, 2⟩, .error, "oops"⟩] none,
          .applied 2 (.failed "oops") [⟨⟨1, 1, 1, 2⟩, .error, "oops"⟩] none] := by decide +kernel
  have hanswer : ((Session.fresh stubSettings).answer stubbed .references 1 1).toOption =
      some (some (.references [])) := by decide +kernel
  refine ⟨by decide, hunnoticed.reports.trans hupdates, _, _, rfl, ?_⟩
  have hresponse := hunnoticed.answers [] _ _ .references 1 1 rfl (turn_record ..)
  rw [hresponse, before_record]
  exact congrArg (fun found => some (Response.finding found)) (eq_ok_of_toOption hanswer)

end SplitEditor.Sequential
