import SplitEditor.Proofs.Analysis.References
import SplitEditor.Proofs.Analysis.Tiers

/-! Handles that are not there. A zero handle that was answered is the end of a reading, and nothing
is asked about it, except for the handle of a hover's type, which is read through unseen. -/

namespace SplitEditor

/-- The handle that a question was answered with. -/
def Reply.handle? : Reply → Option Handle
  | ⟨.resultOk _, .ok handle⟩ => some handle
  | ⟨.resultError _, .ok handle⟩ => some handle
  | ⟨.errorSpan _, .ok handle⟩ => some handle
  | ⟨.hoverType _, .ok handle⟩ => some handle
  | ⟨.hoverSpan _, .ok handle⟩ => some handle
  | ⟨.spansGet _ _, .ok handle⟩ => some handle
  | _ => none

theorem Reply.handle?_error (a : Accessor) (e : AnalysisError) :
    Reply.handle? ⟨a, .error e⟩ = none := by
  cases a <;> rfl

def Reply.Present (Asks : Accessor → Prop) (reply : Reply) : Prop :=
  Asks reply.accessor ∧ reply.handle? ≠ some .none

/-- A question about a handle that is there, other than the one for the type of a hover. -/
def Accessor.Checked (a : Accessor) : Prop := a.handle ≠ .none ∧ ∀ hover, a ≠ .hoverType hover

namespace Decode

/-- Only such questions were asked. A zero handle among the answers is the last of them, and leads
to an outcome for what is absent. -/
structure Guarded {α : Type} (Asks : Accessor → Prop) (Absent : Except AnalysisError α → Prop)
    (replies : List Reply) (outcome : Except AnalysisError α) : Prop where
  asks : ∀ reply ∈ replies, Asks reply.accessor
  last : replies.Pairwise fun reply _ => reply.handle? ≠ some .none
  absent : ∀ reply ∈ replies, reply.handle? = some .none → Absent outcome

section Guarded
variable {σ α β : Type} {reader : ResultReader σ} {Asks Asks' : Accessor → Prop}
  {A : Except AnalysisError α → Prop} {B : Except AnalysisError β → Prop}
  {replies more front : List Reply} {outcome : Except AnalysisError β} {a : α}

theorem guarded_nil : Guarded Asks B [] outcome where
  asks _ hmem := nomatch hmem
  last := .nil
  absent _ hmem := nomatch hmem

theorem Guarded.mono (h : Guarded Asks B replies outcome)
    (hAsks : ∀ a, Asks a → Asks' a) : Guarded Asks' B replies outcome :=
  { h with asks := fun reply hmem => hAsks _ (h.asks reply hmem) }

theorem Guarded.behind (hfront : ∀ reply ∈ front, reply.Present Asks)
    (h : Guarded Asks B more outcome) : Guarded Asks B (front ++ more) outcome where
  asks := List.forall_mem_append.2 ⟨fun reply hmem => (hfront reply hmem).1, h.asks⟩
  last := by
    refine List.pairwise_append.2 ⟨?_, h.last, fun reply hmem _ _ => (hfront reply hmem).2⟩
    exact List.pairwise_of_forall_mem_list fun reply hmem _ _ => (hfront reply hmem).2
  absent := List.forall_mem_append.2
    ⟨fun reply hmem hzero => absurd hzero (hfront reply hmem).2, h.absent⟩

theorem guarded_of_present (hfront : ∀ reply ∈ front, reply.Present Asks) :
    Guarded Asks B front outcome :=
  List.append_nil front ▸ guarded_nil.behind hfront

theorem Guarded.imp {outcome' : Except AnalysisError α} (h : Guarded Asks A replies outcome')
    (hB : A outcome' → B outcome) : Guarded Asks B replies outcome where
  asks := h.asks
  last := h.last
  absent reply hmem hzero := hB (h.absent reply hmem hzero)

theorem Guarded.present (h : Guarded Asks A replies (.ok a)) (ha : ¬A (.ok a)) :
    ∀ reply ∈ replies, reply.Present Asks :=
  fun reply hmem => ⟨h.asks reply hmem, fun hzero => ha (h.absent reply hmem hzero)⟩

theorem guards_bind {x : Decode σ α} {y : Decode (σ × List Reply) α} {f : α → Decode σ β}
    {g : α → Decode (σ × List Reply) β} (hx : Recounts x y (Guarded Asks A))
    (hsilent : ∀ a, A (.ok a) → Recounts (f a) (g a) fun more outcome => more = [] ∧ B outcome)
    (hgo : ∀ a, ¬A (.ok a) → Recounts (f a) (g a) (Guarded Asks B))
    (herror : ∀ e, A (.error e) → B (.error e)) :
    Recounts (x >>= f) (y >>= g) (Guarded Asks B) := by
  refine recounts_bind (hx.mono ?_)
  rintro replies (e | a) h
  · exact h.imp (herror e)
  by_cases ha : A (.ok a)
  · refine (hsilent a ha).mono ?_
    rintro _ outcome ⟨rfl, hB⟩
    rw [List.append_nil]
    exact h.imp fun _ => hB
  · exact (hgo a ha).mono fun _ _ hmore => hmore.behind (h.present ha)

theorem guards_ask {a : Accessor} (ha : Asks a) :
    Recounts (ask reader a) (ask reader.recorded a)
      (Guarded Asks fun outcome => Reply.handle? ⟨a, outcome⟩ = some .none) :=
  recounts_ask fun _ => ⟨List.forall_mem_singleton.2 ha, List.pairwise_singleton _ _,
    List.forall_mem_singleton.2 id⟩

theorem guards_ask_bind {a : Accessor} {f : a.Answer → Decode σ β}
    {g : a.Answer → Decode (σ × List Reply) β} (ha : Asks a)
    (hsilent : ∀ answer, Reply.handle? ⟨a, .ok answer⟩ = some .none →
      Recounts (f answer) (g answer) fun more outcome => more = [] ∧ B outcome)
    (hgo : ∀ answer, Reply.handle? ⟨a, .ok answer⟩ ≠ some .none →
      Recounts (f answer) (g answer) (Guarded Asks B)) :
    Recounts (ask reader a >>= f) (ask reader.recorded a >>= g) (Guarded Asks B) := by
  refine guards_bind (guards_ask ha) hsilent hgo fun e hzero => ?_
  rw [Reply.handle?_error] at hzero
  cases hzero

theorem guards_return {x : Decode σ α} {y : Decode (σ × List Reply) α} {f : α → β}
    (hx : Recounts x y (Guarded Asks A)) (hB : ∀ a, A (.ok a) → B (.ok (f a)))
    (herror : ∀ e, A (.error e) → B (.error e)) :
    Recounts (x >>= fun a => pure (f a)) (y >>= fun a => pure (f a)) (Guarded Asks B) :=
  guards_bind hx (fun a ha => recounts_pure ⟨rfl, hB a ha⟩) (fun _ _ => recounts_pure guarded_nil)
    herror

theorem guards_plain {a : Accessor} {f : a.Answer → β} (ha : Asks a)
    (hplain : ∀ answer, Reply.handle? ⟨a, answer⟩ = none) :
    Recounts (ask reader a >>= fun answer => pure (f answer))
      (ask reader.recorded a >>= fun answer => pure (f answer)) (Guarded Asks B) := by
  refine guards_return (guards_ask ha) (fun answer hzero => ?_) fun e hzero => ?_
  · rw [hplain] at hzero
    cases hzero
  · rw [hplain] at hzero
    cases hzero

end Guarded

/-! ### The decoders -/

section Decoders
variable {σ : Type} {reader : ResultReader σ} {codec : Codec} {entryPoint : String}
  {result : Handle}

def Malformed {α : Type} (entryPoint : String) (outcome : Except AnalysisError α) : Prop :=
  ∃ fault, outcome = .error (.malformedResult entryPoint fault)

def Placeless (outcome : Except AnalysisError Diagnostic) : Prop :=
  ∃ message, outcome = .ok ⟨message, none⟩

def CompileAbsent (entryPoint : String) (outcome : Except AnalysisError Compilation) : Prop :=
  Malformed entryPoint outcome ∨ ∃ message, outcome = .ok (.failed ⟨message, none⟩)

def QueryAbsent {α : Type} (entryPoint : String) (outcome : Except AnalysisError (Option α)) :
    Prop := Malformed entryPoint outcome ∨ outcome = .ok none

theorem guards_span? {handle : Handle} (h : handle ≠ .none) :
    Recounts (span? reader handle) (span? reader.recorded handle)
      (Guarded Accessor.Checked fun _ => False) := by
  unfold span?
  rw [Handle.present_of_ne h]
  exact guards_plain ⟨h, nofun⟩ fun _ => rfl

theorem guards_diagnostic {error : Handle} (herror : error ≠ .none) :
    Recounts (diagnostic reader codec error) (diagnostic reader.recorded codec error)
      (Guarded Accessor.Checked Placeless) := by
  refine guards_ask_bind ⟨herror, nofun⟩ nofun fun message _ => ?_
  -- the message is kept where the span is missing
  refine guards_ask_bind ⟨herror, nofun⟩ (fun handle hzero => ?_) fun handle hhandle => ?_
  · obtain rfl : handle = .none := Option.some.inj hzero
    exact recounts_bind (recounts_pure (recounts_pure ⟨rfl, _, rfl⟩))
  · have hhandle : handle ≠ .none := fun h => hhandle (congrArg some h)
    exact guards_return (guards_span? hhandle) (fun _ => False.elim) fun _ => False.elim

theorem silent_require {α : Type} {fault : ResultFault} {handle : Handle} {f : Handle → Decode σ α}
    {g : Handle → Decode (σ × List Reply) α} {B : Except AnalysisError α → Prop}
    (hzero : some handle = some Handle.none)
    (hB : ∀ outcome, Malformed entryPoint outcome → B outcome) :
    Recounts (require entryPoint fault handle >>= f) (require entryPoint fault handle >>= g)
      fun more outcome => more = [] ∧ B outcome :=
  recounts_require_bind (fun _ => ⟨rfl, hB _ ⟨fault, rfl⟩⟩)
    fun hhandle => absurd (Option.some.inj hzero) hhandle

theorem recounts_require {α : Type} {fault : ResultFault} {handle : Handle}
    {f : Handle → Decode σ α} {g : Handle → Decode (σ × List Reply) α}
    {C : List Reply → Except AnalysisError α → Prop} (hpresent : some handle ≠ some Handle.none)
    (h : handle ≠ .none → Recounts (f handle) (g handle) C) :
    Recounts (require entryPoint fault handle >>= f) (require entryPoint fault handle >>= g) C :=
  recounts_require_bind (fun hnone => absurd (congrArg some hnone) hpresent) h

theorem guards_compile : Recounts (compile reader codec entryPoint result)
    (compile reader.recorded codec entryPoint result)
    (Guarded Accessor.Checked (CompileAbsent entryPoint)) := by
  refine recounts_require_bind (fun _ => guarded_nil) fun h => ?_
  refine guards_ask_bind ⟨h, nofun⟩ nofun fun ok _ => ?_
  cases ok with
  | true =>
    refine guards_ask_bind ⟨h, nofun⟩ (fun _ hzero => silent_require hzero fun _ => .inl)
      fun buf hpresent => recounts_require hpresent fun hbuf => ?_
    exact guards_plain ⟨hbuf, nofun⟩ fun _ => rfl
  | false =>
    refine guards_ask_bind ⟨h, nofun⟩ (fun _ hzero => silent_require hzero fun _ => .inl)
      fun error hpresent => recounts_require hpresent fun herror => ?_
    refine guards_return (guards_diagnostic herror) ?_ nofun
    rintro _ ⟨message, ⟨⟩⟩
    exact .inr ⟨message, rfl⟩

theorem guards_value? : Recounts (value? reader codec entryPoint result)
    (value? reader.recorded codec entryPoint result)
    (Guarded Accessor.Checked (QueryAbsent entryPoint)) := by
  refine recounts_require_bind (fun _ => guarded_nil) fun h => ?_
  refine guards_ask_bind ⟨h, nofun⟩ nofun fun ok _ => ?_
  cases ok with
  | true =>
    refine guards_return (guards_ask ⟨h, nofun⟩) (fun value hzero => ?_) nofun
    obtain rfl : value = .none := Option.some.inj hzero
    exact .inr rfl
  | false =>
    refine guards_ask_bind ⟨h, nofun⟩ (fun error hzero => ?_) fun error hpresent => ?_
    · obtain rfl : error = .none := Option.some.inj hzero
      exact recounts_pure ⟨rfl, .inr rfl⟩
    · have herror : error ≠ .none := fun h => hpresent (congrArg some h)
      simp only [Handle.present_of_ne herror]
      refine guards_bind (guards_diagnostic herror) (fun _ _ => ?_) (fun _ _ => ?_) nofun
      · exact recounts_bind (recounts_log (recounts_pure ⟨rfl, .inr rfl⟩))
      · exact recounts_bind (recounts_log (recounts_pure guarded_nil))

theorem recounts_query {α : Type} {f : Option Handle → Decode σ (Option α)}
    {g : Option Handle → Decode (σ × List Reply) (Option α)}
    {C : List Reply → Except AnalysisError (Option α) → Prop} (hf : f none = pure none)
    (hg : g none = pure none)
    (hend : ∀ replies outcome, Guarded Accessor.Checked (QueryAbsent entryPoint) replies outcome →
      C replies outcome)
    (hvalue : ∀ value, value ≠ .none → ∀ replies : List Reply,
      (∀ reply ∈ replies, reply.Present Accessor.Checked) →
      Recounts (f (some value)) (g (some value)) fun more => C (replies ++ more)) :
    Recounts (value? reader codec entryPoint result >>= f)
      (value? reader.recorded codec entryPoint result >>= g) C := by
  have hpresent : Recounts (value? reader codec entryPoint result)
      (value? reader.recorded codec entryPoint result)
      fun _ outcome => ∀ value, outcome = .ok (some value) → value ≠ .none := by
    have htold : Converses (value? reader codec entryPoint result)
        (value? reader.recorded codec entryPoint result)
        fun _ outcome => ∀ value, outcome = .ok (some value) → value ≠ .none :=
      converses_value? (fun _ => nofun) (fun _ _ _ => nofun) fun _ value h => by rintro _ ⟨⟩; exact h
    refine htold.recounts.mono fun replies outcome h value hvalue => ?_
    subst hvalue
    exact h.course h.answered value rfl
  refine recounts_bind ((guards_value?.and hpresent).mono ?_)
  rintro replies (e | _ | value) ⟨h, hpresent⟩
  · refine hend replies _ (h.imp ?_)
    rintro (⟨fault, ⟨⟩⟩ | ⟨⟨⟩⟩)
    exact .inl ⟨fault, rfl⟩
  · simp only [hf, hg]
    refine recounts_pure ?_
    rw [List.append_nil]
    exact hend replies _ (h.imp fun _ => .inr rfl)
  · refine hvalue value (hpresent value rfl) replies (h.present ?_)
    rintro (⟨_, ⟨⟩⟩ | ⟨⟨⟩⟩)

theorem guards_definition : Recounts (definition reader codec entryPoint result)
    (definition reader.recorded codec entryPoint result)
    (Guarded Accessor.Checked (QueryAbsent entryPoint)) := by
  refine recounts_query rfl rfl (fun _ _ => id) fun value hvalue front hfront => ?_
  have hspan : Recounts (ask reader (.span value) >>= fun span => pure (some span))
      (ask reader.recorded (.span value) >>= fun span => pure (some span))
      (Guarded Accessor.Checked (QueryAbsent entryPoint)) :=
    guards_plain ⟨hvalue, nofun⟩ fun _ => rfl
  exact hspan.mono fun _ _ => Guarded.behind hfront

/-! ### Lists -/

theorem present_entries {list : Handle} (hlist : list ≠ .none) (index : Nat)
    {found : List (Handle × Span)} (hfound : ∀ entry ∈ found, entry.1 ≠ .none) :
    ∀ reply ∈ entries list index found, reply.Present Accessor.Checked := by
  induction found generalizing index with
  | nil => exact fun _ hmem => nomatch hmem
  | cons entry found ih =>
    obtain ⟨hentry, hfound⟩ := List.forall_mem_cons.1 hfound
    have hhandle : some entry.1 ≠ some Handle.none := mt Option.some.inj hentry
    refine List.forall_mem_cons.2 ⟨⟨⟨hlist, nofun⟩, hhandle⟩, ?_⟩
    exact List.forall_mem_cons.2 ⟨⟨⟨hentry, nofun⟩, nofun⟩, ih (index + 1) hfound⟩

theorem guarded_of_listRead {list : Handle} {cap index : Nat} {replies : List Reply}
    {outcome : Except AnalysisError (List Span)} {truncated : Bool} (hlist : list ≠ .none)
    (h : ListRead list cap index replies outcome truncated) :
    Guarded Accessor.Checked (fun outcome => ∃ spans, outcome = .ok spans) replies outcome := by
  have hentry (index : UInt32) : (Accessor.spansGet list index).Checked := ⟨hlist, nofun⟩
  cases h with
  | ended found hfound =>
    exact .behind (present_entries hlist index hfound) ⟨List.forall_mem_singleton.2 (hentry _),
      List.pairwise_singleton _ _, fun _ _ _ => ⟨_, rfl⟩⟩
  | capped found hfound => exact guarded_of_present (present_entries hlist index hfound)
  | entryFailed found hfound _ e =>
    refine .behind (present_entries hlist index hfound) (guarded_of_present ?_)
    exact List.forall_mem_singleton.2 ⟨hentry _, nofun⟩
  | @spanFailed found hfound _ handle hhandle e =>
    have hpresent : some handle ≠ some Handle.none := mt Option.some.inj hhandle
    refine .behind (present_entries hlist index hfound) (guarded_of_present ?_)
    refine List.forall_mem_cons.2 ⟨⟨hentry _, hpresent⟩, ?_⟩
    exact List.forall_mem_singleton.2 ⟨⟨hhandle, nofun⟩, nofun⟩

theorem guards_spans {list : Handle} (hlist : list ≠ .none) (cap : Nat) :
    Recounts (spans reader { list, cap }) (spans reader.recorded { list, cap })
      (Guarded Accessor.Checked fun outcome => ∃ read, outcome = .ok read) := by
  intro s old events
  obtain ⟨replies, outcome, cursor, s', hspans, hrecorded, hread⟩ :=
    exists_listRead reader list cap s old events
  have hguarded : Guarded Accessor.Checked (fun outcome => ∃ spans, outcome = .ok spans) replies
      outcome := by
    obtain hread | ⟨-, ⟨found, hfound⟩⟩ := hread
    · exact guarded_of_listRead hlist hread
    · exact guarded_of_present (present_entries hlist 0 hfound)
  refine ⟨replies, _, s', events, hspans, hrecorded, hguarded.imp ?_⟩
  rintro ⟨spans, rfl⟩
  exact ⟨(spans, cursor), rfl⟩

/-- What comes of a query for a list where a handle is missing: the end of the list, if it is that
of an entry. -/
def ListAbsent (entryPoint : String) (outcome : Except AnalysisError (Option (List Span))) : Prop :=
  QueryAbsent entryPoint outcome ∨ ∃ spans, outcome = .ok (some spans)

theorem guards_references {cap : Nat} : Recounts (references reader codec entryPoint cap result)
    (references reader.recorded codec entryPoint cap result)
    (Guarded Accessor.Checked (ListAbsent entryPoint)) := by
  refine recounts_query rfl rfl (fun _ _ h => h.imp .inl) fun list hlist front hfront => ?_
  refine Recounts.mono (guards_bind (guards_spans hlist cap) ?_ ?_ nofun) fun _ _ =>
    Guarded.behind hfront
  · rintro ⟨spans, cursor⟩ -
    show Recounts (if cursor.truncated then _ else _) (if cursor.truncated then _ else _) _
    split
    · exact recounts_bind (recounts_log (recounts_pure ⟨rfl, .inr ⟨spans, rfl⟩⟩))
    · exact recounts_pure ⟨rfl, .inr ⟨spans, rfl⟩⟩
  · exact fun read hread => absurd ⟨read, rfl⟩ hread

/-! ### Hovers -/

/-- How a hover is read. Where its type is missing the bytes behind the zero handle are asked for
all the same, and the reading goes on to the span. -/
inductive HoverReading (entryPoint : String) :
    List Reply → Except AnalysisError (Option SymbolType) → Prop
  | guarded {replies : List Reply} {outcome : Except AnalysisError (Option SymbolType)}
      (htype : ∀ hover, ⟨.hoverType hover, .ok .none⟩ ∉ replies)
      (h : Guarded (·.handle ≠ .none) (QueryAbsent entryPoint) replies outcome) :
    HoverReading entryPoint replies outcome
  | readThrough {earlier later : List Reply} {hover : Handle}
      {outcome : Except AnalysisError (Option SymbolType)} (bytes : Except AnalysisError (List UInt8))
      (hearlier : ∀ reply ∈ earlier, reply.Present (·.handle ≠ .none))
      (hhover : hover ≠ .none)
      (hlater : Guarded (·.handle ≠ .none) (QueryAbsent entryPoint) later outcome) :
    HoverReading entryPoint
      (earlier ++ ⟨.hoverType hover, .ok .none⟩ :: ⟨.bufBytes .none, bytes⟩ :: later) outcome

theorem HoverReading.of_checked {replies : List Reply}
    {outcome : Except AnalysisError (Option SymbolType)}
    (h : Guarded Accessor.Checked (QueryAbsent entryPoint) replies outcome) :
    HoverReading entryPoint replies outcome :=
  .guarded (fun hover hmem => (h.asks _ hmem).2 hover rfl) (h.mono fun _ => And.left)

theorem HoverReading.behind {front more : List Reply}
    {outcome : Except AnalysisError (Option SymbolType)}
    (hfront : ∀ reply ∈ front, reply.Present (·.handle ≠ .none))
    (h : HoverReading entryPoint more outcome) : HoverReading entryPoint (front ++ more) outcome := by
  cases h with
  | guarded htype h =>
    refine .guarded (fun hover hmem => ?_) (h.behind hfront)
    rcases List.mem_append.1 hmem with hmem | hmem
    · exact (hfront _ hmem).2 rfl
    · exact htype hover hmem
  | readThrough bytes hearlier hhover hlater =>
    rw [← List.append_assoc]
    exact .readThrough bytes (List.forall_mem_append.2 ⟨hfront, hearlier⟩) hhover hlater

theorem HoverReading.type {hover : Handle} (hhover : hover ≠ .none) (type : Handle)
    (bytes : Except AnalysisError (List UInt8)) {more : List Reply}
    {outcome : Except AnalysisError (Option SymbolType)}
    (h : Guarded Accessor.Checked (QueryAbsent entryPoint) more outcome) :
    HoverReading entryPoint
      (⟨.hoverType hover, .ok type⟩ :: ⟨.bufBytes type, bytes⟩ :: more) outcome := by
  by_cases htype : type = .none
  · subst htype
    have hnothing : ∀ reply ∈ ([] : List Reply), reply.Present (·.handle ≠ .none) := nofun
    exact .readThrough bytes hnothing hhover (h.mono fun _ => And.left)
  · have hpresent : some type ≠ some Handle.none := mt Option.some.inj htype
    have hasked : ∀ reply ∈ ([⟨.hoverType hover, .ok type⟩, ⟨.bufBytes type, bytes⟩] : List Reply),
        reply.Present (·.handle ≠ .none) :=
      List.forall_mem_cons.2 ⟨⟨hhover, hpresent⟩, List.forall_mem_singleton.2 ⟨htype, nofun⟩⟩
    exact .behind hasked (.of_checked h)

theorem guards_hoverSpan {hover : Handle} (hhover : hover ≠ .none) (type : String) :
    Recounts (α := Option SymbolType)
      (do
        let span ← require entryPoint .hoverWithoutSpan (← ask reader (.hoverSpan hover))
        return some ⟨type, ← ask reader (.span span)⟩)
      (do
        let span ← require entryPoint .hoverWithoutSpan (← ask reader.recorded (.hoverSpan hover))
        return some ⟨type, ← ask reader.recorded (.span span)⟩)
      (Guarded Accessor.Checked (QueryAbsent entryPoint)) := by
  refine guards_ask_bind ⟨hhover, nofun⟩ (fun _ hzero => silent_require hzero fun _ => .inl)
    fun handle hpresent => recounts_require hpresent fun hspan => ?_
  exact guards_plain ⟨hspan, nofun⟩ fun _ => rfl

theorem recounts_hover : Recounts (hover reader codec entryPoint result)
    (hover reader.recorded codec entryPoint result) (HoverReading entryPoint) := by
  refine recounts_query rfl rfl (fun _ _ => .of_checked) fun hover hhover front hfront => ?_
  have hbehind (more : List Reply) (outcome : Except AnalysisError (Option SymbolType)) :
      HoverReading entryPoint more outcome → HoverReading entryPoint (front ++ more) outcome :=
    .behind fun reply hmem => ⟨(hfront reply hmem).1.1, (hfront reply hmem).2⟩
  refine Recounts.mono (recounts_bind (recounts_ask fun answer => ?_)) hbehind
  cases answer with
  | error e =>
    have hasked : ∀ reply ∈ ([⟨.hoverType hover, .error e⟩] : List Reply),
        reply.Present (·.handle ≠ .none) := List.forall_mem_singleton.2 ⟨hhover, nofun⟩
    exact .behind hasked (.of_checked guarded_nil)
  | ok type =>
    refine recounts_bind (recounts_ask fun bytes => ?_)
    cases bytes with
    | error e => exact .type hhover type (.error e) guarded_nil
    | ok bytes => exact (guards_hoverSpan hhover _).mono fun _ _ => .type hhover type (.ok bytes)

theorem shows_of_guards {α : Type} {x : Decode σ α} {y : Decode (σ × List Reply) α}
    {B : Except AnalysisError α → Prop} (h : Recounts x y (Guarded Accessor.Checked B)) :
    Shows x y (Guarded (·.handle ≠ .none) B) :=
  (h.mono fun _ _ hguarded => hguarded.mono fun _ => And.left).shows

/-- Whatever a reader answers, no question is about the zero handle and nothing is asked once it was
answered, but for the type of a hover: the bytes behind it are asked for in any case. -/
theorem handles_guarded (reader : ResultReader σ) (codec : Codec) (entryPoint : String) (cap : Nat)
    (result : Handle) :
    Shows (compile reader codec entryPoint result) (compile reader.recorded codec entryPoint result)
        (Guarded (·.handle ≠ .none) (CompileAbsent entryPoint)) ∧
      Shows (definition reader codec entryPoint result)
        (definition reader.recorded codec entryPoint result)
        (Guarded (·.handle ≠ .none) (QueryAbsent entryPoint)) ∧
      Shows (references reader codec entryPoint cap result)
        (references reader.recorded codec entryPoint cap result)
        (Guarded (·.handle ≠ .none) (ListAbsent entryPoint)) ∧
      Shows (hover reader codec entryPoint result) (hover reader.recorded codec entryPoint result)
        (HoverReading entryPoint) :=
  ⟨shows_of_guards guards_compile, shows_of_guards guards_definition,
    shows_of_guards guards_references, recounts_hover.shows⟩

end Decoders

/-- A reader with a hover that has no type, and with bytes to read at zero. -/
def typeless : ResultReader Unit where
  read a s := (.ok (match a with
    | .resultIsOk _ => true
    | .resultOk _ => ⟨52⟩
    | .hoverSpan _ => ⟨71⟩
    | .span _ => ⟨1, 1, 1, 5⟩
    | .bufBytes _ => [0x6E, 0x75, 0x6C, 0x6C]
    | .errorMessage _ => []
    | .resultError _ | .errorSpan _ | .hoverType _ | .spansGet .. => Handle.none), s)

/-- They are taken for the type. -/
theorem typeless_read_through :
    (hover typeless.recorded .native "ASL_test" ⟨22⟩).run (((), []), []) =
      (.ok (some ⟨"null", ⟨1, 1, 1, 5⟩⟩), ((), [⟨.resultIsOk ⟨22⟩, .ok true⟩,
        ⟨.resultOk ⟨22⟩, .ok ⟨52⟩⟩, ⟨.hoverType ⟨52⟩, .ok .none⟩,
        ⟨.bufBytes .none, .ok [0x6E, 0x75, 0x6C, 0x6C]⟩, ⟨.hoverSpan ⟨52⟩, .ok ⟨71⟩⟩,
        ⟨.span ⟨71⟩, .ok ⟨1, 1, 1, 5⟩⟩]), []) := by
  rfl

end Decode

end SplitEditor
