import SplitEditor.Analysis.Accessor

/-! The spans of a list, one by one. The list itself has no length: it is asked for index after
index until a zero handle comes, an answer fails, or as many spans as allowed have been read. -/

namespace SplitEditor

structure SpanCursor where
  list : Handle
  cap : Nat
  /-- A word, so it starts again behind the greatest one. -/
  index : UInt32 := 0
  finished : Bool := false
  truncated : Bool := false
  deriving Repr, DecidableEq

namespace SpanCursor

variable {σ : Type}

/-- The next span, or the error in its place; nothing once the reading is over. -/
def next (reader : ResultReader σ) (c : SpanCursor) (s : σ) :
    Option (Except AnalysisError Span) × SpanCursor × σ :=
  if c.finished then (none, c, s)
  else if c.cap ≤ c.index.toNat then (none, { c with finished := true, truncated := true }, s)
  else
    match reader.read (.spansGet c.list c.index) s with
    | (.error e, s) => (some (.error e), { c with finished := true }, s)
    | (.ok handle, s) =>
      match Handle.present handle with
      | none => (none, { c with finished := true }, s)
      | some handle =>
        match reader.read (.span handle) s with
        | (.error e, s) => (some (.error e), { c with finished := true }, s)
        | (.ok span, s) => (some (.ok span), { c with index := c.index + 1 }, s)

theorem toNat_succ {index : UInt32} (h : index + 1 ≠ 0) : (index + 1).toNat = index.toNat + 1 := by
  have hne : (index + 1).toNat ≠ 0 := fun hzero => h (UInt32.toNat_inj.1 hzero)
  rw [UInt32.toNat_add, UInt32.toNat_one] at hne ⊢
  have hlt := index.toNat_lt
  omega

theorem next_ok {reader : ResultReader σ} {c c' : SpanCursor} {s s' : σ} {span : Span}
    (h : c.next reader s = (some (.ok span), c', s')) :
    c.index.toNat < c.cap ∧ (∃ handle, (reader.read (.spansGet c.list c.index) s).1 = .ok handle) ∧
      c' = { c with index := c.index + 1 } := by
  unfold next at h
  split at h
  · simp at h
  · split at h
    · simp at h
    · rename_i hcap
      split at h
      · simp at h
      · rename_i handle _ hanswer
        split at h
        · simp at h
        · split at h
          · simp at h
          · simp only [Prod.mk.injEq] at h
            exact ⟨Nat.lt_of_not_le hcap, ⟨handle, congrArg Prod.fst hanswer⟩, h.2.1.symm⟩

/-- All spans up to the end, after those already read, latest first. Where the index starts again
the reading breaks off, as there is no telling whether such a list ends. -/
def collect (reader : ResultReader σ) (c : SpanCursor) (s : σ) (spans : List Span) :
    Except AnalysisError (List Span) × SpanCursor × σ :=
  match _h : c.next reader s with
  | (none, c, s) => (.ok spans.reverse, c, s)
  | (some (.error e), c, s) => (.error e, c, s)
  | (some (.ok span), c, s) =>
    if _hagain : c.index = 0 then (.ok (span :: spans).reverse, c, s)
    else collect reader c s (span :: spans)
termination_by UInt32.size - c.index.toNat
decreasing_by
  obtain ⟨-, -, rfl⟩ := next_ok ‹_›
  have hnext := toNat_succ _hagain
  have hlt := UInt32.toNat_lt_size (SpanCursor.index ‹_›)
  simp only
  omega

end SpanCursor

end SplitEditor
