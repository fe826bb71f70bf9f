import SplitEditor.Proofs.Analysis.Cursor

/-! A list of spans read up to its end. The list is asked for one entry after another, never for
one twice, and no more often than the cap allows; the zero handle, a failure or the cap ends it. -/

namespace SplitEditor

def entries (list : Handle) : Nat → List (Handle × Span) → List Reply
  | _, [] => []
  | index, (handle, span) :: found =>
    ⟨.spansGet list (UInt32.ofNat index), .ok handle⟩ :: ⟨.span handle, .ok span⟩ ::
      entries list (index + 1) found

def Accessor.isEntry : Accessor → Bool
  | spansGet .. => true
  | _ => false

def entryQuestions (replies : List Reply) : List Accessor :=
  (replies.map Reply.accessor).filter Accessor.isEntry

/-- What is read of a list from an index on, and whether the cap cut it off. -/
inductive ListRead (list : Handle) (cap index : Nat) :
    List Reply → Except AnalysisError (List Span) → Bool → Prop
  | ended (found : List (Handle × Span)) (hfound : ∀ entry ∈ found, entry.1 ≠ .none)
      (h : index + found.length < cap) :
    ListRead list cap index
      (entries list index found ++
        [⟨.spansGet list (UInt32.ofNat (index + found.length)), .ok .none⟩])
      (.ok (found.map Prod.snd)) false
  | capped (found : List (Handle × Span)) (hfound : ∀ entry ∈ found, entry.1 ≠ .none)
      (h : index + found.length = cap) :
    ListRead list cap index (entries list index found) (.ok (found.map Prod.snd)) true
  | entryFailed (found : List (Handle × Span)) (hfound : ∀ entry ∈ found, entry.1 ≠ .none)
      (h : index + found.length < cap) (e : AnalysisError) :
    ListRead list cap index
      (entries list index found ++
        [⟨.spansGet list (UInt32.ofNat (index + found.length)), .error e⟩])
      (.error e) false
  | spanFailed (found : List (Handle × Span)) (hfound : ∀ entry ∈ found, entry.1 ≠ .none)
      (h : index + found.length < cap) {handle : Handle} (hhandle : handle ≠ .none)
      (e : AnalysisError) :
    ListRead list cap index
      (entries list index found ++
        [⟨.spansGet list (UInt32.ofNat (index + found.length)), .ok handle⟩,
          ⟨.span handle, .error e⟩])
      (.error e) false

/-- What is read of a list with entries at all the indices there are. -/
inductive Overrun (list : Handle) (index : Nat) :
    List Reply → Except AnalysisError (List Span) → Prop
  | behind (found : List (Handle × Span)) (hfound : ∀ entry ∈ found, entry.1 ≠ .none)
      (h : index + found.length = UInt32.size) :
    Overrun list index (entries list index found) (.ok (found.map Prod.snd))

section Reading
variable {σ : Type} {list handle : Handle} {cap index : Nat} {replies : List Reply}
  {outcome : Except AnalysisError (List Span)} {truncated : Bool}

theorem ListRead.cons (h : ListRead list cap (index + 1) replies outcome truncated)
    (hhandle : handle ≠ .none) (span : Span) :
    ListRead list cap index
      (⟨.spansGet list (UInt32.ofNat index), .ok handle⟩ :: ⟨.span handle, .ok span⟩ :: replies)
      (outcome.map (span :: ·)) truncated := by
  have hlength (found : List (Handle × Span)) :
      index + 1 + found.length = index + ((handle, span) :: found).length := by
    rw [List.length_cons]
    omega
  have hall {found : List (Handle × Span)} (hfound : ∀ entry ∈ found, entry.1 ≠ .none) :
      ∀ entry ∈ (handle, span) :: found, entry.1 ≠ .none := List.forall_mem_cons.2 ⟨hhandle, hfound⟩
  cases h with
  | ended found hfound h =>
    rw [hlength] at h ⊢
    exact .ended _ (hall hfound) h
  | capped found hfound h => exact .capped _ (hall hfound) (hlength found ▸ h)
  | entryFailed found hfound h e =>
    rw [hlength] at h ⊢
    exact .entryFailed _ (hall hfound) h e
  | spanFailed found hfound h hhandle' e =>
    rw [hlength] at h ⊢
    exact .spanFailed _ (hall hfound) h hhandle' e

theorem Overrun.cons (h : Overrun list (index + 1) replies outcome) (hhandle : handle ≠ .none)
    (span : Span) :
    Overrun list index
      (⟨.spansGet list (UInt32.ofNat index), .ok handle⟩ :: ⟨.span handle, .ok span⟩ :: replies)
      (outcome.map (span :: ·)) := by
  cases h with
  | behind found hfound h =>
    refine .behind ((handle, span) :: found) (List.forall_mem_cons.2 ⟨hhandle, hfound⟩) ?_
    rw [List.length_cons, ← Nat.add_assoc, ← h, Nat.add_right_comm]

theorem listRead_of_over {c c' : SpanCursor} (hstep : SpanCursor.Step c replies none c')
    (hfull : c.truncated = false) (hle : c.index.toNat ≤ c.cap) :
    ListRead c.list c.cap c.index.toNat replies (.ok []) c'.truncated := by
  cases hstep with
  | capped hcap => exact .capped [] (List.forall_mem_nil _) (Nat.le_antisymm hle hcap)
  | ended hlt =>
    have hread : ListRead c.list c.cap c.index.toNat
        [⟨.spansGet c.list (.ofNat c.index.toNat), .ok .none⟩] (.ok []) false :=
      .ended [] (List.forall_mem_nil _) hlt
    rwa [UInt32.ofNat_toNat, ← hfull] at hread

theorem listRead_of_failed {c c' : SpanCursor} {e : AnalysisError}
    (hstep : SpanCursor.Step c replies (some (.error e)) c') (hfull : c.truncated = false) :
    ListRead c.list c.cap c.index.toNat replies (.error e) c'.truncated := by
  cases hstep with
  | entryFailed hlt =>
    have hread : ListRead c.list c.cap c.index.toNat
        [⟨.spansGet c.list (.ofNat c.index.toNat), .error e⟩] (.error e) false :=
      .entryFailed [] (List.forall_mem_nil _) hlt e
    rwa [UInt32.ofNat_toNat, ← hfull] at hread
  | @spanFailed hlt handle hhandle =>
    have hread : ListRead c.list c.cap c.index.toNat
        [⟨.spansGet c.list (.ofNat c.index.toNat), .ok handle⟩, ⟨.span handle, .error e⟩]
        (.error e) false := .spanFailed [] (List.forall_mem_nil _) hlt hhandle e
    rwa [UInt32.ofNat_toNat, ← hfull] at hread

theorem collect_listRead (reader : ResultReader σ) (c : SpanCursor) (s : σ) (old : List Reply)
    (spans : List Span) (hopen : c.finished = false) (hfull : c.truncated = false)
    (hle : c.index.toNat ≤ c.cap) :
    ∃ replies outcome c' s',
      c.collect reader s spans = (outcome.map (spans.reverse ++ ·), c', s') ∧
      c.collect reader.recorded (s, old) spans =
        (outcome.map (spans.reverse ++ ·), c', s', old ++ replies) ∧
      (ListRead c.list c.cap c.index.toNat replies outcome c'.truncated ∨
        ¬reader.Counts c.cap ∧ Overrun c.list c.index.toNat replies outcome) := by
  -- the first step tells what is read at the index, the others are about the list behind it
  fun_induction SpanCursor.collect reader c s spans generalizing old with
  | case1 c s spans c' s' hnext =>
    obtain ⟨replies, hrecorded, hstep⟩ := SpanCursor.next_step reader hopen s old
    rw [hnext] at hrecorded hstep
    refine ⟨replies, .ok [], c', s', ?_, ?_, .inl (listRead_of_over hstep hfull hle)⟩
    · rw [Except.map, List.append_nil]
    · rw [Except.map, List.append_nil, SpanCursor.collect_of_none hrecorded]
  | case2 c s spans e c' s' hnext =>
    obtain ⟨replies, hrecorded, hstep⟩ := SpanCursor.next_step reader hopen s old
    rw [hnext] at hrecorded hstep
    exact ⟨replies, .error e, c', s', rfl, SpanCursor.collect_of_error hrecorded,
      .inl (listRead_of_failed hstep hfull)⟩
  | case3 c s spans span c' s' hnext hagain =>
    have hcounts : ¬reader.Counts c.cap := fun hcounts =>
      SpanCursor.index_ne_zero hcounts hnext hagain
    obtain ⟨replies, hrecorded, hstep⟩ := SpanCursor.next_step reader hopen s old
    rw [hnext] at hrecorded hstep
    cases hstep with
    | @span hlt handle hhandle span =>
      have hread : Overrun c.list c.index.toNat
          [⟨.spansGet c.list (.ofNat c.index.toNat), .ok handle⟩, ⟨.span handle, .ok span⟩]
          (.ok [span]) := .behind [(handle, span)] (List.forall_mem_singleton.2 hhandle)
            (SpanCursor.toNat_add_one_eq_size hagain)
      rw [UInt32.ofNat_toNat] at hread
      refine ⟨_, .ok [span], { c with index := c.index + 1 }, s', ?_, ?_, .inr ⟨hcounts, hread⟩⟩
      · rw [List.reverse_cons]
        rfl
      · rw [SpanCursor.collect_of_overrun hrecorded hagain, List.reverse_cons]
        rfl
  | case4 c s spans span c' s' hnext hagain ih =>
    obtain ⟨replies, hrecorded, hstep⟩ := SpanCursor.next_step reader hopen s old
    rw [hnext] at hrecorded hstep
    cases hstep with
    | @span hlt handle hhandle span =>
      have hsucc := SpanCursor.toNat_succ hagain
      obtain ⟨more, outcome, c', s', hcollect, hcollect', hread⟩ :=
        ih (old ++ _) hopen hfull (Nat.le_trans (Nat.le_of_eq hsucc) hlt)
      simp only [hsucc] at hread
      have hfirst := hread.imp (·.cons hhandle span) (And.imp_right (·.cons hhandle span))
      rw [UInt32.ofNat_toNat] at hfirst
      have hmap : (outcome.map (span :: ·)).map (spans.reverse ++ ·) =
          outcome.map ((span :: spans).reverse ++ ·) := by
        cases outcome <;> simp [Except.map]
      refine ⟨_, outcome.map (span :: ·), c', s', ?_, ?_, hfirst⟩
      · rw [hcollect, hmap]
      · rw [SpanCursor.collect_of_span hrecorded hagain, hcollect', hmap, List.append_assoc]
        rfl

/-! ### Which entries are asked for -/

theorem entryQuestions_append (replies more : List Reply) :
    entryQuestions (replies ++ more) = entryQuestions replies ++ entryQuestions more := by
  rw [entryQuestions, List.map_append, List.filter_append]
  rfl

theorem entryQuestions_entries (list : Handle) (index : Nat) (found : List (Handle × Span)) :
    entryQuestions (entries list index found) =
      (List.range' index found.length).map (.spansGet list <| .ofNat ·) := by
  induction found generalizing index with
  | nil => rfl
  | cons entry found ih =>
    rw [List.length_cons, List.range'_succ, List.map_cons, ← ih]
    rfl

theorem ListRead.asked (h : ListRead list cap 0 replies outcome truncated) :
    ∃ k ≤ cap, entryQuestions replies = (List.range k).map (.spansGet list <| .ofNat ·) ∧
      ∀ spans, outcome = .ok spans → k = if truncated then cap else spans.length + 1 := by
  have hlast (found : List (Handle × Span)) (behind : List Reply)
      (hbehind : entryQuestions behind = [.spansGet list (.ofNat (0 + found.length))]) :
      entryQuestions (entries list 0 found ++ behind) =
        (List.range (found.length + 1)).map (.spansGet list <| .ofNat ·) := by
    rw [entryQuestions_append, entryQuestions_entries, hbehind, List.range_succ, List.map_append,
      List.range_eq_range', Nat.zero_add]
    rfl
  have hlt {found : List (Handle × Span)} (h : 0 + found.length < cap) : found.length + 1 ≤ cap :=
    Nat.zero_add found.length ▸ h
  cases h with
  | ended found hfound h =>
    refine ⟨_, hlt h, hlast found _ rfl, ?_⟩
    rintro spans ⟨⟩
    rw [List.length_map]
    rfl
  | capped found hfound h =>
    rw [Nat.zero_add] at h
    refine ⟨_, Nat.le_of_eq h, ?_, fun _ _ => h⟩
    rw [entryQuestions_entries, List.range_eq_range']
  | entryFailed found hfound h e =>
    exact ⟨_, hlt h, hlast found _ rfl, fun _ herror => nomatch herror⟩
  | spanFailed found hfound h hhandle e =>
    exact ⟨_, hlt h, hlast found _ rfl, fun _ herror => nomatch herror⟩

end Reading

namespace Decode
variable {σ : Type}

theorem exists_listRead (reader : ResultReader σ) (list : Handle) (cap : Nat) (s : σ)
    (old : List Reply) (events : List LogEvent) :
    ∃ replies outcome cursor s',
      (spans reader { list, cap }).run (s, events) = (outcome.map (·, cursor), s', events) ∧
      (spans reader.recorded { list, cap }).run ((s, old), events) =
        (outcome.map (·, cursor), (s', old ++ replies), events) ∧
      (ListRead list cap 0 replies outcome cursor.truncated ∨
        ¬reader.Counts cap ∧ Overrun list 0 replies outcome) := by
  obtain ⟨replies, outcome, cursor, s', hcollect, hrecorded, hread⟩ :=
    collect_listRead reader { list, cap } s old [] rfl rfl (Nat.zero_le cap)
  have hmap : outcome.map (([] : List Span).reverse ++ ·) = outcome := by cases outcome <;> rfl
  rw [hmap] at hcollect hrecorded
  refine ⟨replies, outcome, cursor, s', ?_, ?_, hread⟩
  · rw [run_spans, hcollect]
  · rw [run_spans, hrecorded]

def endless : ResultReader Unit where
  read a _ := (.ok (match a with
    | .resultIsOk _ => true
    | .bufBytes _ | .errorMessage _ => []
    | .span _ => ⟨1, 1, 1, 5⟩
    | .resultOk _ | .resultError _ | .errorSpan _ | .hoverType _ | .hoverSpan _ | .spansGet .. =>
      ⟨1⟩), ())

end Decode

end SplitEditor
