import SplitEditor.Proofs.Analysis.Course

/-! What is seen of a request from outside: memory for the source, the one question, accessors,
and the memory back; a value only if all of it succeeds, and one line at the end of the log. -/

namespace SplitEditor

open Wasm Instance

def Binary.Deallocates (b : Binary) : Prop :=
  ∃ body, body? b.module Interface.deallocName Interface.deallocType = some body

theorem Instance.fresh_of_resolve {m : CoreModule} {fuel : Nat} {store : Store} {i : Instance}
    (h : resolve m fuel store = .ok i) : i.calls = [] ∧
      i.dealloc = body? m Interface.deallocName Interface.deallocType := by
  unfold resolve at h
  split at h
  · cases h
  · cases h
    exact ⟨rfl, rfl⟩

theorem Binary.fresh {b : Binary} {i : Instance} (h : b.instantiate = .ok i) : i.calls = [] ∧
    i.dealloc = body? b.module Interface.deallocName Interface.deallocType := by
  obtain ⟨_, -, h⟩ := ok_of_bind_eq_ok h
  obtain ⟨_, -, h⟩ := ok_of_bind_eq_ok h
  obtain ⟨_, -, h⟩ := ok_of_bind_eq_ok h
  exact fresh_of_resolve h

namespace Exchange

def Quiet (events : List LogEvent) : Prop := ∀ event ∈ events, event.isEnd = false

section Seen
variable (b : Host) (s : Service) (source : String)

structure Creates (i : Instance) : Prop where
  size : Utf8.byteLength source.toList ≤ b.maxSourceBytes
  instantiate : b.binary.instantiate = .ok i

/-- The memory at the address is given back: there is an answer and somebody to take it. -/
def Releases (i : Instance) (ptr : UInt32) : Prop :=
  (∃ value i' events, Answers b s source i ptr value i' events) ∧ b.binary.Deallocates

def allocation : Call := (Entry.alloc.name, [room source])

def question (ptr : UInt32) : Call := (s.entry.name, ptr :: s.arguments)

def deallocation (ptr : UInt32) : Call := (Interface.deallocName, [ptr, room source])

/-- What is said in a request, between the host and the binary and to the log. -/
structure Follows (x : Exchange s.Answer) : Prop where
  oversized : b.maxSourceBytes < Utf8.byteLength source.toList → x.calls = [] ∧
    x.result = .error (.sourceTooLarge (Utf8.byteLength source.toList) b.maxSourceBytes) ∧
    ∀ name size, .instanceCreated name size ∉ x.events
  uncreated : (∀ i, ¬Creates b source i) → x.calls = []
  unaddressable : ¬Addressable source → x.calls = []
  refused : ∀ i, Creates b source i → Addressable source →
    (¬s.Fits ∨ ∀ ptr store, ¬i.Grants (room source) ptr store) → x.calls = [allocation source]
  asked : ∀ i ptr store, Creates b source i → Addressable source → s.Fits →
    i.Grants (room source) ptr store → ∃ accessors, (∀ c ∈ accessors, IsAccessorCall c) ∧
      (Releases b s source i ptr → x.calls =
        [allocation source, question s ptr] ++ accessors ++ [deallocation source ptr]) ∧
      (¬Releases b s source i ptr → x.calls =
        [allocation source, question s ptr] ++ accessors)
  succeeds : ∀ value, x.result = .ok value ↔ ∃ i ptr i' events, Creates b source i ∧
    Answers b s source i ptr value i' events ∧ i'.Frees ptr (room source)
  completed : ∀ value, x.result = .ok value → ∃ before fuel, Quiet before ∧
    x.events = before ++ [.entryPointCompleted s.entry.name (s.outcome value) fuel]
  failed : ∀ e, x.result = .error e → ∃ before, Quiet before ∧
    x.events = before ++ [.entryPointFailed s.entry.name e.message]

end Seen

section Follows
variable {b : Host} {s : Service} {source : String} {i i' asked : Instance} {ptr ptr' : UInt32}
  {store : Store} {value : s.Answer} {answer : Option UInt32}
  {w : Except AnalysisError s.Answer × Instance × List LogEvent}

theorem exchange_oversized
    (h : b.maxSourceBytes < Utf8.byteLength source.toList) : b.exchange s source = Host.failure s
      (.sourceTooLarge (Utf8.byteLength source.toList) b.maxSourceBytes) [] [] := if_pos h

theorem exchange_created (h : Creates b source i) :
    b.exchange s source = Host.seen s (b.conduct s source i) := by
  rw [Host.exchange, if_neg (Nat.not_lt_of_le h.size), h.instantiate]

theorem exchange_uncreated (h : ∀ i, ¬Creates b source i) :
    ∃ e, b.exchange s source = Host.failure s e [] [] := by
  by_cases hsize : b.maxSourceBytes < Utf8.byteLength source.toList
  · exact ⟨_, exchange_oversized hsize⟩
  · rw [Host.exchange, if_neg hsize]
    cases hi : b.binary.instantiate with
    | error e => exact ⟨e, rfl⟩
    | ok i => exact absurd ⟨Nat.le_of_not_lt hsize, hi⟩ (h i)

theorem Asks.calls (h : Asks b s source i ptr answer asked) :
    asked.calls = question s ptr :: allocation source :: i.calls ∧ asked.dealloc = i.dealloc := by
  obtain ⟨store, memory, after, -, -, -, rfl⟩ := h.call
  exact ⟨rfl, rfl⟩

theorem Asks.granted (h : Asks b s source i ptr answer asked)
    (hgrants : i.Grants (room source) ptr' store) : ptr = ptr' := by
  obtain ⟨store, memory, after, hgrants', -⟩ := h.call
  exact (grants_unique hgrants' hgrants).1

theorem Asks.reads_calls (h : Asks b s source i ptr answer asked) (hreads : asked.Reads i')
    (hfresh : i.calls = []) : ∃ accessors, (∀ c ∈ accessors, IsAccessorCall c) ∧
      i'.calls.reverse = [allocation source, question s ptr] ++ accessors := by
  obtain ⟨new, hnew, haccessors⟩ := hreads.calls
  refine ⟨new.reverse, fun c hc => haccessors c (List.mem_reverse.1 hc), ?_⟩
  rw [hnew, h.calls.1, hfresh]
  simp

theorem Answers.calls_released {events : List LogEvent} {body : Body} {after : Store}
    (answers : Answers b s source i ptr value i' events) (dealloc : i'.dealloc = some body)
    (hcreates : Creates b source i) : Releases b s source i ptr ∧
      ∃ accessors, (∀ c ∈ accessors, IsAccessorCall c) ∧
        (i'.called Interface.deallocName [ptr, room source] after).calls.reverse =
          [allocation source, question s ptr] ++ accessors ++ [deallocation source ptr] := by
  obtain ⟨hfresh, hdealloc⟩ := Binary.fresh hcreates.instantiate
  obtain ⟨word, asked, asks, reads⟩ := answers.asks
  obtain ⟨accessors, haccessors, hcalls⟩ := asks.reads_calls reads.1 hfresh
  rw [reads.1.dealloc, asks.calls.2, hdealloc] at dealloc
  have hreleases : Releases b s source i ptr := ⟨⟨_, _, _, answers⟩, body, dealloc⟩
  refine ⟨hreleases, accessors, haccessors, ?_⟩
  rw [called, List.reverse_cons, hcalls]
  rfl

theorem Goes.calls_asked (goes : Goes b s source i w) (hcreates : Creates b source i)
    (addressable : Addressable source) (fits : s.Fits)
    (hgrants : i.Grants (room source) ptr store) :
    ∃ accessors, (∀ c ∈ accessors, IsAccessorCall c) ∧
      (Releases b s source i ptr → w.2.1.calls.reverse =
        [allocation source, question s ptr] ++ accessors ++ [deallocation source ptr]) ∧
      (¬Releases b s source i ptr → w.2.1.calls.reverse =
        [allocation source, question s ptr] ++ accessors) := by
  obtain ⟨hfresh, hdealloc⟩ := Binary.fresh hcreates.instantiate
  cases goes with
  | unaddressable h => exact absurd addressable h
  | denied _ h => exact absurd hgrants (h ptr store)
  | misplaced _ h => exact absurd fits h
  | unanswered asks reads answers =>
    obtain rfl := asks.granted hgrants
    obtain ⟨accessors, haccessors, hcalls⟩ := asks.reads_calls reads.1 hfresh
    refine ⟨accessors, haccessors, fun h => ?_, fun _ => hcalls⟩
    obtain ⟨⟨value, i', events, h⟩, -⟩ := h
    exact absurd h (answers _ _ _ _)
  | kept answers dealloc =>
    obtain ⟨word, asked, asks, reads⟩ := answers.asks
    obtain rfl := asks.granted hgrants
    obtain ⟨accessors, haccessors, hcalls⟩ := asks.reads_calls reads.1 hfresh
    refine ⟨accessors, haccessors, fun h => ?_, fun _ => hcalls⟩
    obtain ⟨-, body, hbody⟩ := h
    rw [reads.1.dealloc, asks.calls.2, hdealloc, hbody] at dealloc
    cases dealloc
  -- Whether the last call traps makes no difference to the calls.
  | released answers dealloc _ left | unreleased answers dealloc _ left =>
    subst left
    obtain ⟨store', hgrants'⟩ := answers.admitted.2.2
    obtain ⟨rfl, -⟩ := grants_unique hgrants' hgrants
    obtain ⟨hreleases, accessors, haccessors, hcalls⟩ :=
      answers.calls_released dealloc hcreates
    exact ⟨accessors, haccessors, fun _ => hcalls, fun h => absurd hreleases h⟩

theorem Goes.calls_refused (goes : Goes b s source i w) (hfresh : i.calls = [])
    (addressable : Addressable source)
    (hrefused : ¬s.Fits ∨ ∀ ptr store, ¬i.Grants (room source) ptr store) :
    w.2.1.calls.reverse = [allocation source] := by
  have hasks {ptr answer asked} (asks : Asks b s source i ptr answer asked) : False := by
    obtain ⟨store, memory, after, hgrants, -⟩ := asks.call
    exact hrefused.elim (· asks.fits) (· ptr store hgrants)
  cases goes with
  | unaddressable h => exact absurd addressable h
  | denied _ h => rw [called, hfresh]; rfl
  | misplaced _ h => rw [uploaded, called, hfresh]; rfl
  | unanswered asks => exact (hasks asks).elim
  | kept answers | released answers | unreleased answers =>
    obtain ⟨word, asked, asks, -⟩ := answers
    exact (hasks asks).elim

theorem Goes.calls_unaddressable (goes : Goes b s source i w) (h : ¬Addressable source) :
    w.2.1 = i := by
  cases goes with
  | unaddressable => rfl
  | denied addressable => exact absurd addressable h
  | misplaced addressable => exact absurd addressable h
  | unanswered asks => exact absurd asks.addressable h
  | kept answers | released answers | unreleased answers => exact absurd answers.admitted.1 h

theorem Goes.not_ok {e : AnalysisError} (h : ∀ ptr i' events,
    Answers b s source i ptr value i' events → ¬i'.Frees ptr (room source)) :
    (.error e : Except AnalysisError s.Answer) = .ok value ↔
      ∃ ptr i' events, Answers b s source i ptr value i' events ∧ i'.Frees ptr (room source) := by
  constructor
  · intro herror
    cases herror
  · rintro ⟨ptr, i', events, answers, frees⟩
    exact absurd frees (h ptr i' events answers)

theorem Goes.ok_unique {value' : s.Answer} {events : List LogEvent}
    (answers : Answers b s source i ptr value i' events) (frees : i'.Frees ptr (room source)) :
    (.ok value : Except AnalysisError s.Answer) = .ok value' ↔ ∃ ptr i' events,
      Answers b s source i ptr value' i' events ∧ i'.Frees ptr (room source) := by
  constructor
  · intro hok
    cases hok
    exact ⟨ptr, i', events, answers, frees⟩
  · rintro ⟨ptr', i'', events', answers', -⟩
    rw [(answers.unique answers').2.1]

theorem Goes.ok_iff (goes : Goes b s source i w) (value : s.Answer) : w.1 = .ok value ↔
    ∃ ptr i' events, Answers b s source i ptr value i' events ∧ i'.Frees ptr (room source) := by
  cases goes with
  | unaddressable h =>
    exact Goes.not_ok fun ptr i' events answers => absurd answers.admitted.1 h
  | denied _ h =>
    refine Goes.not_ok fun ptr i' events answers => ?_
    obtain ⟨-, -, store, hgrants⟩ := answers.admitted
    exact absurd hgrants (h ptr store)
  | misplaced _ h =>
    exact Goes.not_ok fun ptr i' events answers => absurd answers.admitted.2.1 h
  | unanswered asks _ h =>
    exact Goes.not_ok fun ptr i' events answers => absurd answers (h ptr value i' events)
  | kept answers dealloc =>
    exact Goes.ok_unique answers fun body hbody => nomatch dealloc.symm.trans hbody
  | released answers dealloc frees =>
    refine Goes.ok_unique answers fun body hbody => ?_
    obtain rfl := Option.some.inj (dealloc.symm.trans hbody)
    rw [frees]
    rfl
  | unreleased answers dealloc traps =>
    refine Goes.not_ok fun ptr' i'' events' answers' frees => ?_
    obtain ⟨rfl, -, rfl⟩ := answers.unique answers'
    have hsome := frees _ dealloc
    rw [traps] at hsome
    cases hsome

theorem quiet_opening : Quiet (opening s source) := List.forall_mem_singleton.2 rfl

theorem Quiet.reads {events : List LogEvent}
    (h : ReadsAndLogs (asked, opening s source) (i', events)) : Quiet events := by
  obtain ⟨-, new, rfl, hnew⟩ := h
  exact List.forall_mem_append.2 ⟨quiet_opening, hnew⟩

theorem Goes.quiet {e : AnalysisError} {events : List LogEvent}
    (goes : Goes b s source i (.error e, i', events)) : Quiet events := by
  cases goes with
  | unaddressable | denied | misplaced => exact quiet_opening
  | unanswered _ reads => exact .reads reads
  | unreleased answers =>
    obtain ⟨word, asked, -, reads⟩ := answers.asks
    exact .reads reads

theorem Goes.completed {events : List LogEvent}
    (goes : Goes b s source i (.ok value, i', events)) : ∃ before fuel, Quiet before ∧
      events = before ++ [.entryPointCompleted s.entry.name (s.outcome value) fuel] := by
  cases goes with
  | kept answers | released answers =>
    obtain ⟨word, asked, -, reads⟩ := answers.asks
    exact ⟨_, _, .reads reads, rfl⟩

theorem follows_uncreated (h : ∀ i, ¬Creates b source i) :
    Follows b s source (b.exchange s source) := by
  obtain ⟨e, hexchange⟩ : ∃ e, b.exchange s source = Host.failure s e [] [] :=
    exchange_uncreated h
  constructor
  case oversized =>
    intro hsize
    rw [exchange_oversized hsize]
    exact ⟨rfl, rfl, fun name size hmem => by cases List.mem_singleton.1 hmem⟩
  case succeeds =>
    intro value
    rw [hexchange]
    constructor
    · intro hok
      cases hok
    · rintro ⟨i, ptr, i', events, hcreates, -⟩
      exact absurd hcreates (h i)
  case completed =>
    intro value hok
    rw [hexchange] at hok
    cases hok
  case failed =>
    intro e' herror
    rw [hexchange] at herror ⊢
    cases herror
    exact ⟨[], List.forall_mem_nil _, rfl⟩
  case uncreated => exact fun _ => by rw [hexchange]; rfl
  case unaddressable => exact fun _ => by rw [hexchange]; rfl
  case refused => exact fun i hcreates => absurd hcreates (h i)
  case asked => exact fun i _ _ hcreates => absurd hcreates (h i)

theorem seen_calls : (Host.seen s w).calls = w.2.1.calls.reverse := by
  obtain ⟨e | value, i, events⟩ := w <;> rfl

theorem seen_result : (Host.seen s w).result = w.1 := by
  obtain ⟨e | value, i, events⟩ := w <;> rfl

theorem follows_created (hcreates : Creates b source i) :
    Follows b s source (b.exchange s source) := by
  have goes : Goes b s source i (b.conduct s source i) := goes_conduct
  have hfresh := (Binary.fresh hcreates.instantiate).1
  have hunique {i'} (h : Creates b source i') : i' = i :=
    Except.ok.inj (h.instantiate.symm.trans hcreates.instantiate)
  rw [exchange_created hcreates]
  generalize b.conduct s source i = w at goes
  constructor
  case oversized => exact fun h => absurd hcreates.size (Nat.not_le_of_lt h)
  case uncreated => exact fun h => absurd hcreates (h i)
  case unaddressable =>
    intro h
    rw [seen_calls, goes.calls_unaddressable h, hfresh]
    rfl
  case refused =>
    intro i' hcreates' addressable hrefused
    obtain rfl := hunique hcreates'
    rw [seen_calls]
    exact goes.calls_refused hfresh addressable hrefused
  case asked =>
    intro i' ptr store hcreates' addressable fits hgrants
    obtain rfl := hunique hcreates'
    rw [seen_calls]
    exact goes.calls_asked hcreates addressable fits hgrants
  case succeeds =>
    intro value
    rw [seen_result, goes.ok_iff]
    constructor
    · rintro ⟨ptr, i', events, answers, frees⟩
      exact ⟨i, ptr, i', events, hcreates, answers, frees⟩
    · rintro ⟨i₀, ptr, i', events, hcreates', answers, frees⟩
      obtain rfl := hunique hcreates'
      exact ⟨ptr, i', events, answers, frees⟩
  case completed =>
    obtain ⟨e | value, i', events⟩ := w
    · intro value herror
      cases herror
    · intro value' hok
      cases hok
      exact goes.completed
  case failed =>
    obtain ⟨e | value, i', events⟩ := w
    · intro e' herror
      cases herror
      exact ⟨events, goes.quiet, rfl⟩
    · intro e hok
      cases hok

end Follows

end Exchange

/-- Whatever the binary does, a request keeps to the protocol. -/
theorem Host.perform_follows (b : Host) (s : Service) (source : String) :
    b.perform s source = ((b.exchange s source).result, (b.exchange s source).events) ∧
      Exchange.Follows b s source (b.exchange s source) := by
  refine ⟨b.perform_eq_exchange s source, ?_⟩
  by_cases h : ∃ i, Exchange.Creates b source i
  · obtain ⟨i, hcreates⟩ := h
    exact Exchange.follows_created hcreates
  · exact Exchange.follows_uncreated fun i hcreates => h ⟨i, hcreates⟩

end SplitEditor
