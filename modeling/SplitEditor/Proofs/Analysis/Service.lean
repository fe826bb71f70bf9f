import SplitEditor.Proofs.Analysis.Calls

/-! The four services of a binary as one, and a request for any of them together with the calls
of exports it makes. -/

namespace SplitEditor

open Wasm Instance

inductive Service where
  | compile
  | hover (line column : UInt32)
  | definition (line column : UInt32)
  | references (line column : UInt32)

namespace Service

@[reducible]
def Answer : Service → Type
  | compile => Compilation
  | hover .. => Option SymbolType
  | definition .. => Option Span
  | references .. => Option (List Span)

def entry : Service → Entry
  | compile => .compile
  | hover .. => .hover
  | definition .. => .definition
  | references .. => .references

def arguments : Service → List UInt32
  | compile => []
  | hover line column | definition line column | references line column => [line, column]

def Fits (s : Service) : Prop := ∀ w ∈ s.arguments, w < 0x80000000

def outcome : (s : Service) → s.Answer → String
  | compile => Host.compilationOutcome
  | hover .. | definition .. | references .. => Host.queryOutcome

def start : Service → UploadedSource → Live Handle
  | compile, buffer => Instance.compile buffer
  | hover line column, buffer => query .hover buffer line column
  | definition line column, buffer => query .definition buffer line column
  | references line column, buffer => query .references buffer line column

def decode (b : Host) : (s : Service) → Handle → Decode Instance s.Answer
  | compile => Decode.compile reader b.codec Entry.compile.name
  | hover .. => Decode.hover reader b.codec Entry.hover.name
  | definition .. => Decode.definition reader b.codec Entry.definition.name
  | references .. => Decode.references reader b.codec Entry.references.name b.maxReferences

def ask (b : Host) (s : Service) (buffer : UploadedSource) : Decode Instance s.Answer := do
  s.decode b (← Host.live (s.start buffer))

variable {s : Service} {buffer : UploadedSource}

theorem start_of_fits (h : s.Fits) :
    s.start buffer = do return ⟨← call s.entry (buffer.ptr :: s.arguments)⟩ := by
  cases s with
  | compile => rfl
  | hover line column => exact if_pos ⟨h _ (by simp [arguments]), h _ (by simp [arguments])⟩
  | definition line column => exact if_pos ⟨h _ (by simp [arguments]), h _ (by simp [arguments])⟩
  | references line column => exact if_pos ⟨h _ (by simp [arguments]), h _ (by simp [arguments])⟩

theorem start_of_not_fits (h : ¬s.Fits) : ∃ e, s.start buffer = throw e := by
  have hpair (e : Entry) {line column : UInt32}
      (h : ¬∀ w ∈ [line, column], w < (0x80000000 : UInt32)) :
      query e buffer line column = throw (.invalidPosition line column) :=
    if_neg fun hfits => h (by simpa using hfits)
  cases s with
  | compile => exact absurd (fun w hw => nomatch hw) h
  | hover line column => exact ⟨_, hpair .hover h⟩
  | definition line column => exact ⟨_, hpair .definition h⟩
  | references line column => exact ⟨_, hpair .references h⟩

theorem keeps_decode_of_tracks {R : Instance × List LogEvent → Instance × List LogEvent → Prop}
    (h : Decode.Tracks reader R) (b : Host) (s : Service) (handle : Handle) :
    Keeps R (s.decode b handle) := by
  cases s with
  | compile => exact h.keeps_compile _ _ _
  | hover => exact h.keeps_hover _ _ _
  | definition => exact h.keeps_definition _ _ _
  | references => exact h.keeps_references _ _ _ _

theorem keeps_decode (b : Host) (s : Service) (handle : Handle) :
    Keeps ReadsAndLogs (s.decode b handle) := keeps_decode_of_tracks tracks_readsAndLogs b s handle

end Service

/-- A request as seen from outside: what it came to, the calls of exports and the log. -/
structure Exchange (α : Type) where
  result : Except AnalysisError α
  calls : List Call
  events : List LogEvent

namespace Host
variable (b : Host) (s : Service) (source : String)

def perform : Except AnalysisError s.Answer × List LogEvent :=
  match s with
  | .compile => b.compile source
  | .hover line column => b.hover source line column
  | .definition line column => b.definition source line column
  | .references line column => b.references source line column

def conduct (i : Instance) : Except AnalysisError s.Answer × Instance × List LogEvent :=
  (b.request s.entry s.outcome source (s.ask b)).run
    (i, [.instanceCreated s.entry.name (Utf8.byteLength source.toList)])

def failure (error : AnalysisError) (calls : List Call) (events : List LogEvent) :
    Exchange s.Answer :=
  ⟨.error error, calls, events ++ [.entryPointFailed s.entry.name error.message]⟩

def seen : Except AnalysisError s.Answer × Instance × List LogEvent → Exchange s.Answer
  | (.ok value, i, events) => ⟨.ok value, i.calls.reverse, events⟩
  | (.error error, i, events) => failure s error i.calls.reverse events

def exchange : Exchange s.Answer :=
  if b.maxSourceBytes < Utf8.byteLength source.toList then
    failure s (.sourceTooLarge (Utf8.byteLength source.toList) b.maxSourceBytes) [] []
  else
    match b.binary.instantiate with
    | .error error => failure s error [] []
    | .ok i => seen s (b.conduct s source i)

theorem perform_eq_run : b.perform s source = b.run s.entry s.outcome source (s.ask b) := by
  cases s <;> rfl

theorem perform_eq_exchange :
    b.perform s source = ((b.exchange s source).result, (b.exchange s source).events) := by
  rw [perform_eq_run]
  simp only [run, exchange]
  split
  · rfl
  · cases b.binary.instantiate with
    | error e => rfl
    | ok i =>
      simp only [conduct]
      cases (b.request s.entry s.outcome source (s.ask b)).run (i, _) with
      | mk result left => cases result <;> rfl

end Host

end SplitEditor
