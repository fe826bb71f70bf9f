import SplitEditor.Proofs.Analysis.Service

/-! The ways a request can go, spelled out once: how far the host and the binary get, and the
instance and the log they leave. Every request goes one of them. -/

namespace SplitEditor.Exchange

open Wasm Instance

section Request
variable (b : Host) (s : Service) (source : String) (i : Instance)

def room : UInt32 := UInt32.ofNat (Utf8.byteLength source.toList + 1)

def Addressable : Prop := Utf8.byteLength source.toList + 1 ≤ sourceLimit

def opening : List LogEvent := [.instanceCreated s.entry.name (Utf8.byteLength source.toList)]

def uploaded (store : Store) (memory : Memory) : Instance :=
  i.called Entry.alloc.name [room source] { store with memory }

/-- The source lies at the address and the service has been called with it. -/
structure Asks (ptr : UInt32) (answer : Option UInt32) (asked : Instance) : Prop where
  addressable : Addressable source
  fits : s.Fits
  call : ∃ store memory after,
    i.Grants (room source) ptr store ∧
    store.memory.write ptr.toNat (b.codec.encodeSource source) = some memory ∧
    i.functions s.entry (ptr :: s.arguments) { store with memory } = (answer, after) ∧
    asked = (uploaded source i store memory).called s.entry.name (ptr :: s.arguments) after

def Answers (ptr : UInt32) (value : s.Answer) (i' : Instance) (events : List LogEvent) : Prop :=
  ∃ word asked, Asks b s source i ptr (some word) asked ∧
    (s.decode b ⟨word⟩).run (asked, opening s source) = (.ok value, i', events)

/-- The ways a request can go: what it comes to, the instance it leaves and what is logged. -/
inductive Goes : Except AnalysisError s.Answer × Instance × List LogEvent → Prop
  | unaddressable {e : AnalysisError} (addressable : ¬Addressable source) :
      Goes (.error e, i, opening s source)
  | denied {e : AnalysisError} {store : Store} (addressable : Addressable source)
      (denies : ∀ ptr store, ¬i.Grants (room source) ptr store) :
      Goes (.error e, i.called Entry.alloc.name [room source] store, opening s source)
  | misplaced {e : AnalysisError} {store : Store} {memory : Memory}
      (addressable : Addressable source) (fits : ¬s.Fits) :
      Goes (.error e, uploaded source i store memory, opening s source)
  | unanswered {e : AnalysisError} {ptr : UInt32} {answer : Option UInt32}
      {asked i' : Instance} {events : List LogEvent} (asks : Asks b s source i ptr answer asked)
      (reads : ReadsAndLogs (asked, opening s source) (i', events))
      (answers : ∀ ptr value i' events, ¬Answers b s source i ptr value i' events) :
      Goes (.error e, i', events)
  | kept {ptr : UInt32} {i' : Instance} {value : s.Answer} {events : List LogEvent}
      (answers : Answers b s source i ptr value i' events) (dealloc : i'.dealloc = none) :
      Goes (.ok value, i',
        events ++ [.entryPointCompleted s.entry.name (s.outcome value) i'.fuelConsumed])
  | released {ptr word : UInt32} {i' i'' : Instance} {value : s.Answer}
      {events : List LogEvent} {body : Body} {store : Store}
      (answers : Answers b s source i ptr value i' events) (dealloc : i'.dealloc = some body)
      (frees : body [ptr, room source] i'.store = (some word, store))
      (left : i'' = i'.called Interface.deallocName [ptr, room source] store) :
      Goes (.ok value, i'',
        events ++ [.entryPointCompleted s.entry.name (s.outcome value) i''.fuelConsumed])
  | unreleased {e : AnalysisError} {ptr : UInt32} {i' i'' : Instance} {value : s.Answer}
      {events : List LogEvent} {body : Body} {store : Store}
      (answers : Answers b s source i ptr value i' events) (dealloc : i'.dealloc = some body)
      (traps : body [ptr, room source] i'.store = (none, store))
      (left : i'' = i'.called Interface.deallocName [ptr, room source] store) :
      Goes (.error e, i'', events)

end Request

section Inversion
variable {b : Host} {s : Service} {source : String} {i i' i'' asked asked' : Instance}
  {ptr ptr' n : UInt32} {answer answer' : Option UInt32} {store store' : Store}
  {value value' : s.Answer} {events events' : List LogEvent}

theorem grants_unique (h : i.Grants n ptr store) (h' : i.Grants n ptr' store') :
    ptr = ptr' ∧ store = store' := by
  have heq := h.returned.symm.trans h'.returned
  simpa using heq

theorem Asks.unique (h : Asks b s source i ptr answer asked)
    (h' : Asks b s source i ptr' answer' asked') :
    ptr = ptr' ∧ answer = answer' ∧ asked = asked' := by
  obtain ⟨store, memory, after, hgrants, hwrite, hcall, rfl⟩ := h.call
  obtain ⟨store', memory', after', hgrants', hwrite', hcall', rfl⟩ := h'.call
  obtain ⟨rfl, rfl⟩ := grants_unique hgrants hgrants'
  obtain rfl : memory = memory' := Option.some.inj (hwrite.symm.trans hwrite')
  obtain ⟨rfl, rfl⟩ : answer = answer' ∧ after = after' := by
    simpa using hcall.symm.trans hcall'
  exact ⟨rfl, rfl, rfl⟩

theorem Answers.unique (h : Answers b s source i ptr value i' events)
    (h' : Answers b s source i ptr' value' i'' events') :
    ptr = ptr' ∧ value = value' ∧ i' = i'' := by
  obtain ⟨word, asked, hasks, hdecode⟩ := h
  obtain ⟨word', asked', hasks', hdecode'⟩ := h'
  obtain ⟨rfl, hword, rfl⟩ := hasks.unique hasks'
  obtain rfl : word = word' := Option.some.inj hword
  obtain ⟨hvalue, hleft⟩ := Prod.mk.inj (hdecode.symm.trans hdecode')
  exact ⟨rfl, Except.ok.inj hvalue, (Prod.mk.inj hleft).1⟩

theorem Answers.asks (h : Answers b s source i ptr value i' events) :
    ∃ word asked, Asks b s source i ptr (some word) asked ∧
      ReadsAndLogs (asked, opening s source) (i', events) := by
  obtain ⟨word, asked, hasks, hdecode⟩ := h
  have hkeeps := s.keeps_decode b ⟨word⟩ (asked, opening s source)
  rw [hdecode] at hkeeps
  exact ⟨word, asked, hasks, hkeeps⟩

theorem Answers.admitted (h : Answers b s source i ptr value i' events) :
    Addressable source ∧ s.Fits ∧ ∃ store, i.Grants (room source) ptr store := by
  obtain ⟨word, asked, asks, -⟩ := h
  obtain ⟨store, memory, after, hgrants, -⟩ := asks.call
  exact ⟨asks.addressable, asks.fits, store, hgrants⟩

end Inversion

section Live
variable {α : Type} {action : Live α} {i i' : Instance} {events : List LogEvent}

theorem run_live (action : Live α) (i : Instance) (events : List LogEvent) :
    (Host.live action).run (i, events) = ((action.run i).1, (action.run i).2, events) := rfl

theorem run_live_ok {a : α} (h : action.run i = (.ok a, i')) :
    (Host.live action).run (i, events) = (.ok a, i', events) := by
  rw [run_live, h]

theorem run_live_error {e : AnalysisError} (h : action.run i = (.error e, i')) :
    (Host.live action).run (i, events) = (.error e, i', events) := by
  rw [run_live, h]

end Live

section Ask
variable {b : Host} {s : Service} {i : Instance} {ptr len word : UInt32} {after : Store}
  {events : List LogEvent}

theorem run_ask_trap (fits : s.Fits)
    (h : i.functions s.entry (ptr :: s.arguments) i.store = (none, after)) :
    (s.ask b ⟨ptr, len⟩).run (i, events) =
      (.error .execution, i.called s.entry.name (ptr :: s.arguments) after, events) := by
  refine run_bind_error (run_live_error ?_)
  rw [Service.start_of_fits fits]
  exact run_bind_error (run_call_none h)

theorem run_ask_handle (fits : s.Fits)
    (h : i.functions s.entry (ptr :: s.arguments) i.store = (some word, after)) :
    (s.ask b ⟨ptr, len⟩).run (i, events) =
      (s.decode b ⟨word⟩).run (i.called s.entry.name (ptr :: s.arguments) after, events) := by
  refine run_bind_ok (run_live_ok ?_)
  rw [Service.start_of_fits fits]
  exact run_bind_ok (run_call_some h)

theorem run_ask_misplaced (fits : ¬s.Fits) :
    ∃ e, (s.ask b ⟨ptr, len⟩).run (i, events) = (.error e, i, events) := by
  obtain ⟨e, hstart⟩ : ∃ e, s.start ⟨ptr, len⟩ = throw e := Service.start_of_not_fits fits
  refine ⟨e, run_bind_error (run_live_error ?_)⟩
  rw [hstart]
  rfl

end Ask

section Conduct
variable {b : Host} {s : Service} {source : String} {i i' asked : Instance} {ptr word : UInt32}
  {store : Store} {memory : Memory} {value : s.Answer} {events : List LogEvent}

theorem not_answers_of_trap (asks : Asks b s source i ptr none asked) :
    ∀ ptr value i' events, ¬Answers b s source i ptr value i' events := by
  rintro ptr value i' events ⟨word, asked, hasks, -⟩
  cases (asks.unique hasks).2.1

theorem not_answers_of_error {e : AnalysisError}
    (asks : Asks b s source i ptr (some word) asked)
    (hdecode : (s.decode b ⟨word⟩).run (asked, opening s source) = (.error e, i', events)) :
    ∀ ptr value i' events, ¬Answers b s source i ptr value i' events := by
  rintro ptr value i' events ⟨word, asked, hasks, hdecode'⟩
  obtain ⟨rfl, hword, rfl⟩ := asks.unique hasks
  cases Option.some.inj hword
  cases hdecode.symm.trans hdecode'

theorem goes_answered (answers : Answers b s source i ptr value i' events) :
    Goes b s source i ((do
      Host.live (release ⟨ptr, room source⟩)
      let fuel ← Host.live (return (← get).fuelConsumed)
      Decode.log (.entryPointCompleted s.entry.name (s.outcome value) fuel)
      return value : Decode Instance s.Answer).run (i', events)) := by
  cases dealloc : i'.dealloc with
  | none =>
    rw [run_bind_ok (run_live_ok (run_release_none dealloc))]
    exact .kept answers dealloc
  | some body =>
    cases hcall : body [ptr, room source] i'.store with
    | mk result store =>
      cases result with
      | some word =>
        rw [run_bind_ok (run_live_ok (run_release_some dealloc hcall))]
        exact .released answers dealloc hcall rfl
      | none =>
        rw [run_bind_error (run_live_error (run_release_trap dealloc hcall))]
        exact .unreleased answers dealloc hcall rfl

theorem goes_uploaded (addressable : Addressable source)
    (hgrants : i.Grants (room source) ptr store)
    (hwrite : store.memory.write ptr.toNat (b.codec.encodeSource source) = some memory)
    (hupload : (upload b.codec source).run i =
      (.ok ⟨ptr, room source⟩, uploaded source i store memory)) :
    Goes b s source i (b.conduct s source i) := by
  have hlive : (Host.live (upload b.codec source)).run (i, opening s source) =
      (.ok ⟨ptr, room source⟩, uploaded source i store memory, opening s source) :=
    run_live_ok hupload
  have hconduct : b.conduct s source i = _ := run_bind_ok hlive
  rw [hconduct]
  -- The position is only looked at once the source is in memory.
  by_cases fits : s.Fits
  · cases hcall : i.functions s.entry (ptr :: s.arguments) { store with memory } with
    | mk answer after =>
      have asks : Asks b s source i ptr answer _ :=
        ⟨addressable, fits, store, memory, after, hgrants, hwrite, hcall, rfl⟩
      cases answer with
      | none =>
        rw [run_bind_error (run_ask_trap fits hcall)]
        exact .unanswered asks (tracks_readsAndLogs.refl _) (not_answers_of_trap asks)
      | some word =>
        have hkeeps := s.keeps_decode b ⟨word⟩ ((uploaded source i store memory).called
          s.entry.name (ptr :: s.arguments) after, opening s source)
        cases hdecode : (s.decode b ⟨word⟩).run ((uploaded source i store memory).called
            s.entry.name (ptr :: s.arguments) after, opening s source) with
        | mk result left =>
          cases result with
          | ok value =>
            rw [run_bind_ok ((run_ask_handle fits hcall).trans hdecode)]
            exact goes_answered ⟨word, _, asks, hdecode⟩
          | error e =>
            rw [run_bind_error ((run_ask_handle fits hcall).trans hdecode)]
            rw [hdecode] at hkeeps
            exact .unanswered asks hkeeps (not_answers_of_error asks hdecode)
  · obtain ⟨e, hask⟩ : ∃ e, (s.ask b ⟨ptr, room source⟩).run (uploaded source i store memory,
        opening s source) = (.error e, _) := run_ask_misplaced fits
    rw [run_bind_error hask]
    exact .misplaced addressable fits

/-- Every request goes one of these ways. -/
theorem goes_conduct : Goes b s source i (b.conduct s source i) := by
  by_cases addressable : Addressable source
  · by_cases hgrants : ∃ ptr store, i.Grants (room source) ptr store
    · obtain ⟨ptr, store, hgrants⟩ := hgrants
      obtain ⟨memory, hwrite, hupload⟩ := run_upload_granted addressable rfl hgrants
      exact goes_uploaded addressable hgrants hwrite hupload
    · have denies : ∀ ptr store, ¬i.Grants (room source) ptr store :=
        fun ptr store h => hgrants ⟨ptr, store, h⟩
      obtain ⟨e, store, hupload⟩ := run_upload_denied addressable rfl denies
      have hconduct : b.conduct s source i = _ := run_bind_error (run_live_error hupload)
      rw [hconduct]
      exact .denied addressable denies
  · obtain ⟨e, hupload⟩ := run_upload_unaddressable (Nat.lt_of_not_le addressable)
    have hconduct : b.conduct s source i = _ := run_bind_error (run_live_error hupload)
    rw [hconduct]
    exact .unaddressable addressable

end Conduct

end SplitEditor.Exchange
