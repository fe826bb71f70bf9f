import SplitEditor.Proofs.Analysis.Cursor
import SplitEditor.Proofs.Analysis.FieldLoads
import SplitEditor.Proofs.Analysis.Fields
import SplitEditor.Proofs.Text.Codec

/-! Taking a result apart gives back what was laid out in memory. -/

namespace SplitEditor

open Wasm Instance

namespace SpanCursor
variable {σ : Type} {reader : ResultReader σ} {c c' : SpanCursor} {s s' s'' : σ} {h : Handle}
  {span : Span}

theorem next_of_capped (hopen : c.finished = false) (hcap : c.cap ≤ c.index.toNat) :
    c.next reader s = (none, { c with finished := true, truncated := true }, s) := by
  rw [next, hopen, if_neg Bool.false_ne_true, if_pos hcap]

theorem next_of_end (hopen : c.finished = false) (hcap : c.index.toNat < c.cap)
    (hget : reader.read (.spansGet c.list c.index) s = (.ok h, s')) (hzero : h.word = 0) :
    c.next reader s = (none, { c with finished := true }, s') := by
  have hpresent : h.present = none := if_pos hzero
  rw [next, hopen, if_neg Bool.false_ne_true, if_neg (Nat.not_le_of_lt hcap), hget]
  simp only [hpresent]

theorem next_of_span (hopen : c.finished = false) (hcap : c.index.toNat < c.cap)
    (hget : reader.read (.spansGet c.list c.index) s = (.ok h, s')) (hpresent : h.word ≠ 0)
    (hspan : reader.read (.span h) s' = (.ok span, s'')) :
    c.next reader s = (some (.ok span), { c with index := c.index + 1 }, s'') := by
  have hpresent : h.present = some h := if_neg hpresent
  rw [next, hopen, if_neg Bool.false_ne_true, if_neg (Nat.not_le_of_lt hcap), hget]
  simp only [hpresent, hspan]

end SpanCursor

namespace Layout

variable {functions : Entry → Body} {cost : Nat} {m : Memory}

abbrev ReadyToRead (functions : Entry → Body) (cost : Nat) (m : Memory) (k : Nat)
    (w : Instance × List LogEvent) : Prop := Ready functions cost m k w.1

section Decode
variable (hloads : Loads functions cost) {codec : Codec} {entryPoint : String} {h : Handle}
include hloads

omit hloads in
theorem gives_ask {a : Accessor} {value : a.Answer} {calls : Nat}
    (ha : Gives (Ready functions cost m) (answer a) value calls) :
    Gives (ReadyToRead functions cost m) (Decode.ask reader a) value calls := by
  rintro k ⟨i, events⟩ hready
  obtain ⟨i', hrun, hready'⟩ := ha k i hready
  refine ⟨(i', events), ?_, hready'⟩
  show (match (answer a).run i with | (result, i) => (result, i, events)) = _
  rw [hrun]

omit hloads in
theorem gives_require {fault : ResultFault} (hpresent : h.word ≠ 0) :
    Gives (ReadyToRead functions cost m) (Decode.require entryPoint fault h) h 0 := by
  rw [Decode.require, Handle.present, if_neg hpresent]
  exact gives_pure h

def spanCalls : Option Span → Nat
  | none => 0
  | some _ => 4

def valueCalls {α : Type} (calls : α → Nat) : Option α → Nat
  | none => 2
  | some a => calls a + 2

theorem gives_span? {span : Option Span} (hspan : SpanAt? m h span) :
    Gives (ReadyToRead functions cost m) (Decode.span? reader h) span (spanCalls span) := by
  cases span with
  | none =>
    have hzero : h.word = 0 := hspan
    rw [Decode.span?, Handle.present, if_pos hzero]
    exact gives_pure none
  | some span =>
    have hat : SpanAt m h span := hspan
    rw [Decode.span?, Handle.present, if_neg hat.present]
    exact gives_return (gives_ask (gives_span hloads hat))

theorem gives_diagnostic {d : Diagnostic} (hd : ErrorAt m h d) :
    Gives (ReadyToRead functions cost m) (Decode.diagnostic reader codec h) d
      (spanCalls d.span + 3) := by
  obtain ⟨ptr, len, span, hrecord, hread, hspan⟩ := hd.words
  have hmessage : Gives (Ready functions cost m) (answer (.errorMessage h))
      (Utf8.encode d.message.toList) 2 := gives_bytesAt hloads rfl rfl hrecord hread
  have hhandle : Gives (Ready functions cost m) (answer (.errorSpan h)) ⟨span⟩ 1 :=
    gives_return (gives_field hloads rfl hrecord rfl)
  have hread : Gives (ReadyToRead functions cost m) (Decode.diagnostic reader codec h)
      ⟨codec.decode (Utf8.encode d.message.toList), d.span⟩ (spanCalls d.span + 1 + 2) :=
    gives_bind (gives_ask hmessage) <| gives_bind (gives_ask hhandle) <|
      gives_return (gives_span? hloads hspan)
  rwa [Codec.decode_utf8] at hread

theorem gives_value {value : UInt32} (hok : OkAt m h value) :
    Gives (ReadyToRead functions cost m) (Decode.value? reader codec entryPoint h)
      (Handle.present ⟨value⟩) 2 := by
  obtain ⟨tag, htag, hrecord⟩ := hok.words
  have hisOk : (tag != 0) = true := bne_iff_ne.2 htag
  refine gives_bind (gives_require hok.present) <|
    gives_bind (gives_ask (gives_tag hloads hrecord)) ?_
  rw [if_pos hisOk]
  exact gives_return (gives_ask (gives_ok hloads htag hrecord))

theorem gives_compiled {buf : UInt32} {bytes : List UInt8} (hok : OkAt m h buf)
    (hbuf : BufAt m ⟨buf⟩ bytes) : Gives (ReadyToRead functions cost m)
      (Decode.compile reader codec entryPoint h) (.compiled bytes) 4 := by
  obtain ⟨tag, htag, hrecord⟩ := hok.words
  have hisOk : (tag != 0) = true := bne_iff_ne.2 htag
  refine gives_bind (gives_require hok.present) <|
    gives_bind (gives_ask (gives_tag hloads hrecord)) ?_
  rw [if_pos hisOk]
  exact gives_bind (gives_ask (gives_ok hloads htag hrecord)) <|
    gives_bind (gives_require hbuf.present) <|
    gives_return (gives_ask (gives_buf hloads hbuf))

theorem gives_failed {error : UInt32} {d : Diagnostic} (hfail : FailAt m h error)
    (hd : ErrorAt m ⟨error⟩ d) : Gives (ReadyToRead functions cost m)
      (Decode.compile reader codec entryPoint h) (.failed d) (spanCalls d.span + 5) := by
  have hisError : ((0 : UInt32) != 0) = false := rfl
  show Gives _ _ _ (spanCalls d.span + 3 + 0 + 1 + 1 + 0)
  refine gives_bind (gives_require hfail.present) <|
    gives_bind (gives_ask (gives_tag hloads hfail.words)) ?_
  rw [hisError, if_neg Bool.false_ne_true]
  exact gives_bind (gives_ask (gives_error hloads hfail.words)) <|
    gives_bind (gives_require hd.present) <|
    gives_return (gives_diagnostic hloads hd)

theorem gives_hover {answer : Option SymbolType} (hat : ValueAt m h (HoverAt m) answer) :
    Gives (ReadyToRead functions cost m) (Decode.hover reader codec entryPoint h) answer
      (valueCalls (fun _ => 8) answer) := by
  cases answer with
  | none =>
    have hok : OkAt m h 0 := hat
    exact gives_bind (gives_value hloads hok) (gives_pure none)
  | some t =>
    obtain ⟨value, hok, hhover⟩ := hat
    obtain ⟨type, span, hrecord, htype, hspan⟩ := hhover.words
    have hpresent : Handle.present ⟨value⟩ = some ⟨value⟩ := if_neg hhover.present
    have hbuf : Gives (Ready functions cost m) (answer (.hoverType ⟨value⟩)) ⟨type⟩ 1 :=
      gives_return (gives_field hloads rfl hrecord rfl)
    have hspanOf : Gives (Ready functions cost m) (answer (.hoverSpan ⟨value⟩)) ⟨span⟩ 1 :=
      gives_return (gives_field hloads rfl hrecord rfl)
    have hread : Gives (ReadyToRead functions cost m) (Decode.hover reader codec entryPoint h)
        (some ⟨codec.decode (Utf8.encode t.type.toList), t.span⟩) 10 := by
      refine gives_bind (gives_value hloads hok) ?_
      rw [hpresent]
      exact gives_bind (gives_ask hbuf) <| gives_bind (gives_ask (gives_buf hloads htype)) <|
        gives_bind (gives_ask hspanOf) <| gives_bind (gives_require hspan.present) <|
        gives_return (gives_ask (gives_span hloads hspan))
    rwa [Codec.decode_utf8] at hread

theorem gives_definition {answer : Option Span} (hat : ValueAt m h (SpanAt m) answer) :
    Gives (ReadyToRead functions cost m) (Decode.definition reader codec entryPoint h) answer
      (valueCalls (fun _ => 4) answer) := by
  cases answer with
  | none =>
    have hok : OkAt m h 0 := hat
    exact gives_bind (gives_value hloads hok) (gives_pure none)
  | some span =>
    obtain ⟨value, hok, hspan⟩ := hat
    have hpresent : Handle.present ⟨value⟩ = some ⟨value⟩ := if_neg hspan.present
    refine gives_bind (gives_value hloads hok) ?_
    rw [hpresent]
    exact gives_return (gives_ask (gives_span hloads hspan))

omit hloads in
theorem collect_capped {c : SpanCursor} (hopen : c.finished = false) (hcap : c.cap ≤ c.index.toNat)
    {read spans : List Span} {k n : Nat} {i : Instance}
    (hready : Ready functions cost m (k + n) i) : ∃ c' i', c.collect reader i read =
      (.ok (read.reverse ++ spans.take (c.cap - c.index.toNat)), c', i') ∧
      Ready functions cost m k i' := by
  rw [Nat.sub_eq_zero_of_le hcap, List.take_zero, List.append_nil]
  exact ⟨_, i, SpanCursor.collect_of_none (SpanCursor.next_of_capped hopen hcap), hready.mono⟩

theorem collect_spans {handles : List UInt32} {list : Handle}
    (hshort : handles.length < 0x80000000)
    (hrecord : Record m list.word (UInt32.ofNat handles.length :: handles)) {left : List UInt32}
    {spans : List Span} (hspans : List.Forall₂ (fun word span => SpanAt m ⟨word⟩ span) left spans)
    {c : SpanCursor} (hlist : c.list = list) (hopen : c.finished = false)
    (hleft : handles.drop c.index.toNat = left) (hindex : c.index.toNat ≤ handles.length)
    (read : List Span) {k : Nat} {i : Instance}
    (hready : Ready functions cost m (k + (5 * spans.length + 1)) i) :
    ∃ c' i', c.collect reader i read =
      (.ok (read.reverse ++ spans.take (c.cap - c.index.toNat)), c', i') ∧
      Ready functions cost m k i' := by
  -- on the spans that are left, which the handles from the cursor on are the handles of
  induction hspans generalizing c read i with
  | nil =>
    by_cases hcap : c.cap ≤ c.index.toNat
    · exact collect_capped hopen hcap hready
    · have hend : handles.getD c.index.toNat 0 = 0 := by
        rw [List.getD_eq_getElem?_getD, List.getElem?_eq_none (List.drop_eq_nil_iff.1 hleft)]
        rfl
      obtain ⟨i', hget, hready'⟩ := gives_entry hloads hshort hrecord
        (Nat.lt_of_le_of_lt hindex hshort) k i hready
      rw [hend, ← hlist] at hget
      rw [List.take_nil, List.append_nil]
      exact ⟨_, i', SpanCursor.collect_of_none
        (SpanCursor.next_of_end hopen (Nat.lt_of_not_le hcap) hget rfl), hready'⟩
  | @cons w span left spans hspan hspans ih =>
    by_cases hcap : c.cap ≤ c.index.toNat
    · exact collect_capped hopen hcap hready
    · have hlt : c.index.toNat < handles.length := by
        have hlength := congrArg List.length hleft
        rw [List.length_drop, List.length_cons] at hlength
        omega
      have hw : handles[c.index.toNat]? = some w := by
        rw [← List.head?_drop, hleft, List.head?_cons]
      have hentry : handles.getD c.index.toNat 0 = w := by
        rw [List.getD_eq_getElem?_getD, hw, Option.getD_some]
      rw [List.length_cons] at hready
      have hcalls : k + (5 * (spans.length + 1) + 1) =
          k + (5 * spans.length + 1) + 4 + 1 := by omega
      rw [hcalls] at hready
      obtain ⟨i', hget, hready'⟩ := gives_entry hloads hshort hrecord
        (Nat.lt_trans hlt hshort) _ i hready
      rw [hentry, ← hlist] at hget
      obtain ⟨i'', hread, hready''⟩ := gives_span hloads hspan _ i' hready'
      have hnext : c.next reader i = (some (.ok span), { c with index := c.index + 1 }, i'') :=
        SpanCursor.next_of_span hopen (Nat.lt_of_not_le hcap) hget hspan.present hread
      have hcount : c.index + 1 ≠ 0 := SpanCursor.add_one_ne_zero
        (Nat.lt_of_le_of_lt hlt (Nat.lt_trans hshort (by decide)))
      have hsucc := SpanCursor.toNat_succ hcount
      have hrest : handles.drop (c.index + 1).toNat = left := by
        rw [hsucc, ← List.drop_drop, hleft]
        rfl
      obtain ⟨c', i₁, hcollect, hready₁⟩ := ih (c := { c with index := c.index + 1 }) hlist hopen
        hrest (Nat.le_trans (Nat.le_of_eq hsucc) hlt) (span :: read) hready''
      refine ⟨c', i₁, ?_, hready₁⟩
      have htake : c.cap - c.index.toNat = c.cap - (c.index + 1).toNat + 1 := by omega
      rw [SpanCursor.collect_of_span hnext hcount, hcollect, List.reverse_cons, List.append_assoc,
        htake, List.take_succ_cons]
      rfl

theorem gives_references {cap : Nat} {answer : Option (List Span)}
    (hat : ValueAt m h (SpansAt m) answer) :
    Gives (ReadyToRead functions cost m) (Decode.references reader codec entryPoint cap h)
      (answer.map (List.take cap)) (valueCalls (5 * ·.length + 1) answer) := by
  cases answer with
  | none =>
    have hok : OkAt m h 0 := hat
    exact gives_bind (gives_value hloads hok) (gives_pure none)
  | some spans =>
    obtain ⟨value, hok, hspans⟩ := hat
    obtain ⟨handles, hrecord, hat⟩ := hspans.words
    have hpresent : Handle.present ⟨value⟩ = some ⟨value⟩ := if_neg hspans.present
    show Gives _ _ _ (5 * spans.length + 1 + 2)
    refine gives_bind (gives_value hloads hok) ?_
    rw [hpresent]
    rintro k ⟨i, events⟩ hready
    rw [← hat.length_eq] at hrecord
    have hshort : handles.length < 0x80000000 := hat.length_eq ▸ hspans.short
    obtain ⟨c', i', hcollect, hready'⟩ := collect_spans hloads hshort hrecord hat
      (c := { list := ⟨value⟩, cap }) rfl rfl rfl (Nat.zero_le _) [] hready
    have hread : (Decode.spans reader { list := ⟨value⟩, cap }).run (i, events) =
        (.ok (spans.take cap, c'), i', events) := by
      show (match SpanCursor.collect reader { list := ⟨value⟩, cap } i [] with
        | (spans, cursor, i) => (spans.map (·, cursor), i, events)) = _
      rw [hcollect]
      rfl
    -- A list cut short is logged, which changes nothing about the answer.
    cases htruncated : c'.truncated with
    | false =>
      refine ⟨(i', events), (run_bind_ok hread).trans ?_, hready'⟩
      simp only [htruncated]
      rfl
    | true =>
      refine ⟨(i', events ++ [.referenceCapReached cap]), (run_bind_ok hread).trans ?_, hready'⟩
      simp only [htruncated]
      rfl

end Decode

end Layout

namespace Service

def readings : (s : Service) → s.Answer → Nat
  | compile, .compiled _ => 4
  | compile, .failed d => Layout.spanCalls d.span + 5
  | hover .., answer => Layout.valueCalls (fun _ => 8) answer
  | definition .., answer => Layout.valueCalls (fun _ => 4) answer
  | references .., answer => Layout.valueCalls (5 * ·.length + 1) answer

def capped (cap : Nat) : (s : Service) → s.Answer → s.Answer
  | compile, answer => answer
  | hover .., answer => answer
  | definition .., answer => answer
  | references .., answer => answer.map (List.take cap)

end Service

namespace Layout

theorem gives_decode {functions : Entry → Body} {cost : Nat} {m : Memory}
    (hloads : Loads functions cost) (b : Host) (s : Service) {h : Handle} {answer : s.Answer}
    (hplaced : Placed m h s answer) : Gives (ReadyToRead functions cost m) (s.decode b h)
      (s.capped b.maxReferences answer) (s.readings answer) := by
  cases s with
  | compile =>
    cases answer with
    | compiled bytes =>
      obtain ⟨buf, hok, hbuf⟩ := hplaced
      exact gives_compiled hloads hok hbuf
    | failed d =>
      obtain ⟨error, hfail, hd⟩ := hplaced
      exact gives_failed hloads hfail hd
  | hover => exact gives_hover hloads hplaced
  | definition => exact gives_definition hloads hplaced
  | references => exact gives_references hloads hplaced

/-- Reading a result gives back the answer that was laid out, wherever it lies. -/
theorem decode_placed (b : Host) (s : Service) (i : Instance) (h : Handle) (answer : s.Answer)
    (events : List LogEvent) (cost : Nat) (hloads : Loads i.functions cost)
    (hplaced : Placed i.store.memory h s answer)
    (hfuel : s.readings answer * cost ≤ i.store.fuel) :
    ∃ i' events', (s.decode b h).run (i, events) =
      (.ok (s.capped b.maxReferences answer), i', events') := by
  have hready : Ready i.functions cost i.store.memory (0 + s.readings answer) i :=
    ⟨rfl, rfl, by rwa [Nat.zero_add]⟩
  obtain ⟨⟨i', events'⟩, hrun, -⟩ := gives_decode hloads b s hplaced 0 (i, events) hready
  exact ⟨i', events', hrun⟩

def farMemory : Memory where
  pages := Memory.pageLimit
  limit := none
  cells := Memory.put ∅ 0x80000000 <|
    [1, 0x80000008, 2, 0x80000014, 0x80000024, 1, 1, 1, 6, 2, 3, 2, 8].flatMap (Memory.bytesOf 4)

theorem farMemory_placed (line column : UInt32) :
    Placed farMemory (Handle.ofInt (-0x80000000)) (.references line column)
      (some [⟨1, 1, 1, 6⟩, ⟨2, 3, 2, 8⟩]) := by
  exact ⟨0x80000008, ⟨by decide, 1, by decide, by decide +kernel⟩, by decide, by decide,
    [0x80000014, 0x80000024], by decide +kernel, .cons ⟨by decide, by decide +kernel⟩ <|
    .cons ⟨by decide, by decide +kernel⟩ .nil⟩

def farInstance : Instance where
  functions e := accessors.body (index e)
  dealloc := none
  store := ⟨farMemory, #[], #[], #[], #[], 1000⟩
  budget := 1000
  calls := []

def farHost : Host := ⟨⟨⟨[], [], farInstance.store, [], none⟩, 1000⟩, .manual, 0, 5000⟩

theorem decode_placed_far : ∃ i' events',
    ((Service.references 1 1).decode farHost (Handle.ofInt (-0x80000000))).run (farInstance, []) =
      (.ok (some [⟨1, 1, 1, 6⟩, ⟨2, 3, 2, 8⟩]), i', events') :=
  decode_placed farHost (.references 1 1) farInstance (Handle.ofInt (-0x80000000))
    (some [⟨1, 1, 1, 6⟩, ⟨2, 3, 2, 8⟩]) [] 20 loads_accessors (farMemory_placed 1 1) (by decide)

end Layout

end SplitEditor
