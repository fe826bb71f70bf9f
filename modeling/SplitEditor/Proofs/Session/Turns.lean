import SplitEditor.Proofs.Analysis.Admission
import SplitEditor.Proofs.Session.Requests

/-! Sessions that do one thing at a time: every request has its response before the next turn. A
turn is recorded with the session before and after it, its response and what was logged. -/

namespace SplitEditor.Sequential
open Session
variable [Wasm.Engine]

inductive Turn where
  | write (text : String)
  | ask (request : Request)
  deriving Repr, DecidableEq

def Turn.take (artifact : Artifact) : Turn → SessionM (Option Response)
  | .write text => do
    setSource text
    return none
  | .ask request => do return some (← perform artifact request)

structure Record where
  artifact : Artifact
  turn : Turn
  before : Session
  response : Option Response
  events : List LogEvent
  after : Session

def record (artifact : Artifact) (turn : Turn) (s : Session) : Record :=
  let (response, after, events) := (turn.take artifact).run (s, [])
  ⟨artifact, turn, s, response, events, after⟩

@[simp] theorem artifact_record (artifact : Artifact) (turn : Turn) (s : Session) :
    (record artifact turn s).artifact = artifact := rfl

@[simp] theorem turn_record (artifact : Artifact) (turn : Turn) (s : Session) :
    (record artifact turn s).turn = turn := rfl

@[simp] theorem before_record (artifact : Artifact) (turn : Turn) (s : Session) :
    (record artifact turn s).before = s := rfl

def trace (s : Session) : List (Artifact × Turn) → List Record
  | [] => []
  | (artifact, turn) :: turns =>
    record artifact turn s :: trace (record artifact turn s).after turns

def finish (s : Session) (turns : List (Artifact × Turn)) : Session :=
  turns.foldl (fun s (artifact, turn) => (record artifact turn s).after) s

def Record.report? (r : Record) : Option Report :=
  match r.response with
  | some (.report report) => some report
  | _ => none

def reports (records : List Record) : List Report := records.filterMap Record.report?

inductive Serves (artifact : Artifact) (s : Session) : Turn → Option Response → Session → Prop
  | write (text : String) : Serves artifact s (.write text) none { s with source := text }
  | validate :
      Serves artifact s (.ask .validate) (some (.report (s.ownReport artifact)))
        (s.validated artifact)
  | edit (text : String) {s' : Session} (h : s' = { s with source := text }) :
      Serves artifact s (.ask (.edit text)) (some (.report (s'.ownReport artifact)))
        (s'.validated artifact)
  | query (query : Query) (line column : UInt32) :
      Serves artifact s (.ask (.query query line column))
        (some (.finding (s.answer artifact query line column))) (s.kept artifact)

/-- How a request is answered once looking for the binary has come to this. -/
def respond (s : Session) (loaded : Except AnalysisError Host) : Request → Response
  | .edit text =>
    .report (Outcome.report ⟨s.sequencer.latest + 1⟩ text (loaded.bind fun b => (b.compile text).1))
  | .validate =>
    .report (Outcome.report ⟨s.sequencer.latest + 1⟩ s.source
      (loaded.bind fun b => (b.compile s.source).1))
  | .query query line column =>
    .finding (loaded.bind fun b => (find b s.settings.documentUri query line column s.source).1)

theorem Serves.responds {artifact : Artifact} {s s' : Session} {request : Request}
    {response : Option Response} (h : Serves artifact s (.ask request) response s') :
    response = some (respond s (s.loaded artifact) request) ∧
      s'.host = (s.loaded artifact).toOption := by
  cases h with
  | validate => exact ⟨rfl, rfl⟩
  | edit text hs' => subst hs'; exact ⟨rfl, rfl⟩
  | query => exact ⟨rfl, rfl⟩

theorem Serves.settings {artifact : Artifact} {s s' : Session} {turn : Turn}
    {response : Option Response} (h : Serves artifact s turn response s') :
    s'.settings = s.settings := by
  cases h with
  | edit text hs' => subst hs'; exact settings_validated _ _
  | validate => exact settings_validated _ _
  | write | query => rfl

theorem record_ask (artifact : Artifact) (request : Request) (s : Session) :
    (record artifact (.ask request) s).response = some (act (perform artifact request) s).1 ∧
      (record artifact (.ask request) s).after = (act (perform artifact request) s).2 :=
  ⟨rfl, rfl⟩

theorem serves_record (artifact : Artifact) (turn : Turn) (s : Session) :
    Serves artifact s turn (record artifact turn s).response (record artifact turn s).after := by
  cases turn with
  | write text => exact .write text
  | ask request =>
    obtain ⟨hresponse, hafter⟩ := record_ask artifact request s
    rw [hresponse, hafter]
    cases request with
    | edit text =>
      rw [act_perform_edit, act_perform_validate]
      exact .edit text rfl
    | validate =>
      rw [act_perform_validate]
      exact .validate
    | query query line column =>
      rw [act_perform_query]
      exact .query query line column

/-- What holds at first and is kept by every turn holds before and after each of them. It may be
about the turns so far. -/
theorem trace_induction {P : List Record → Session → Prop} {s : Session} (hstart : P [] s)
    {turns : List (Artifact × Turn)} (hturn : ∀ past u artifact turn, (artifact, turn) ∈ turns →
      P past u → P (past ++ [record artifact turn u]) (record artifact turn u).after)
    {past future : List Record} {r : Record} (h : trace s turns = past ++ r :: future) :
    P past r.before ∧ P (past ++ [r]) r.after ∧ r = record r.artifact r.turn r.before := by
  -- on the turns still to come, with the records behind them kept apart
  suffices ∀ behind s, P behind s → trace s turns = past ++ r :: future →
      P (behind ++ past) r.before ∧ P (behind ++ past ++ [r]) r.after ∧
        r = record r.artifact r.turn r.before from this [] s hstart h
  clear h hstart s
  induction turns generalizing past with
  | nil =>
    intro behind s _ h
    cases past <;> cases h
  | cons turn turns ih =>
    intro behind s hbehind h
    obtain ⟨artifact, turn⟩ := turn
    have hnext := hturn behind s artifact turn List.mem_cons_self hbehind
    cases past with
    | nil =>
      obtain ⟨rfl, -⟩ := List.cons.inj h
      rw [List.append_nil]
      exact ⟨hbehind, hnext, rfl⟩
    | cons first past =>
      obtain ⟨rfl, hrest⟩ := List.cons.inj h
      rw [List.append_cons]
      exact ih (fun past u artifact turn hmem => hturn past u artifact turn
        (List.mem_cons_of_mem _ hmem)) _ _ hnext hrest

def missing : Artifact := ⟨"asl.wasm", .error .notFound, 0, false⟩

def stubbed : Artifact := ⟨"asl.wasm", .ok (stub [0x00, 0x01] 0), 1000, false⟩

def stubSettings : Settings := ⟨.native, 1000, 100, 10, "asl", "inmemory://model/1"⟩

end SplitEditor.Sequential
