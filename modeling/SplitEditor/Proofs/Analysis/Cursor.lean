import Mathlib.Logic.Function.Iterate
import SplitEditor.Proofs.Analysis.Conversation

/-! The cursor of a list, step by step. What a step asks and what comes of it is one of five things,
and the index goes up only after an answer. So it does not start again where the cap fits a word,
nor where the reader is an instance, which answers for no index beyond the signed words. -/

namespace SplitEditor

namespace SpanCursor
variable {σ : Type}

/-- What an open cursor asks, what it returns, and the cursor after that. -/
inductive Step (c : SpanCursor) :
    List Reply → Option (Except AnalysisError Span) → SpanCursor → Prop
  | capped (h : c.cap ≤ c.index.toNat) :
    Step c [] none { c with finished := true, truncated := true }
  | ended (h : c.index.toNat < c.cap) :
    Step c [⟨.spansGet c.list c.index, .ok .none⟩] none { c with finished := true }
  | entryFailed (h : c.index.toNat < c.cap) (e : AnalysisError) :
    Step c [⟨.spansGet c.list c.index, .error e⟩] (some (.error e)) { c with finished := true }
  | spanFailed (h : c.index.toNat < c.cap) {handle : Handle} (hhandle : handle ≠ .none)
      (e : AnalysisError) :
    Step c [⟨.spansGet c.list c.index, .ok handle⟩, ⟨.span handle, .error e⟩] (some (.error e))
      { c with finished := true }
  | span (h : c.index.toNat < c.cap) {handle : Handle} (hhandle : handle ≠ .none) (span : Span) :
    Step c [⟨.spansGet c.list c.index, .ok handle⟩, ⟨.span handle, .ok span⟩] (some (.ok span))
      { c with index := c.index + 1 }

theorem next_of_finished (reader : ResultReader σ) {c : SpanCursor} (h : c.finished = true)
    (s : σ) : c.next reader s = (none, c, s) := by
  rw [next, if_pos h]

theorem next_step (reader : ResultReader σ) {c : SpanCursor} (hopen : c.finished = false) (s : σ)
    (old : List Reply) :
    ∃ replies, c.next reader.recorded (s, old) =
        ((c.next reader s).1, (c.next reader s).2.1, (c.next reader s).2.2, old ++ replies) ∧
      Step c replies (c.next reader s).1 (c.next reader s).2.1 := by
  have hopen : ¬c.finished = true := Bool.eq_false_iff.1 hopen
  unfold next
  rw [if_neg hopen, if_neg hopen]
  split
  · next hcap => exact ⟨[], by rw [List.append_nil], .capped hcap⟩
  next hcap =>
  have hcap := Nat.lt_of_not_le hcap
  rw [ResultReader.read_recorded]
  generalize reader.read (.spansGet c.list c.index) s = answer
  obtain ⟨e | handle, s₁⟩ := answer
  · exact ⟨_, rfl, .entryFailed hcap e⟩
  by_cases hhandle : handle = .none
  · subst hhandle
    exact ⟨_, rfl, .ended hcap⟩
  simp only [Handle.present_of_ne hhandle]
  rw [ResultReader.read_recorded]
  generalize reader.read (.span handle) s₁ = answer
  obtain ⟨e | span, s₂⟩ := answer
  · exact ⟨[_] ++ [_], by rw [← List.append_assoc], .spanFailed hcap hhandle e⟩
  · exact ⟨[_] ++ [_], by rw [← List.append_assoc], .span hcap hhandle span⟩

def advance (reader : ResultReader σ) (w : SpanCursor × σ) : SpanCursor × σ :=
  (w.1.next reader w.2).2

end SpanCursor

/-- No entry below the cap is answered for whose successor has no index. -/
def ResultReader.Counts {σ : Type} (reader : ResultReader σ) (cap : Nat) : Prop :=
  ∀ list index s handle, index.toNat < cap →
    (reader.read (.spansGet list index) s).1 = .ok handle → index + 1 ≠ 0

theorem SpanCursor.add_one_ne_zero {index : UInt32} (h : index.toNat + 1 < UInt32.size) :
    index + 1 ≠ 0 := by
  intro hzero
  have hsum := congrArg UInt32.toNat hzero
  rw [UInt32.toNat_add, UInt32.toNat_one, Nat.mod_eq_of_lt h] at hsum
  exact Nat.succ_ne_zero _ hsum

namespace Instance

end Instance

namespace SpanCursor
variable {σ : Type} {reader : ResultReader σ} {cap : Nat}

theorem index_ne_zero {c c' : SpanCursor} {s s' : σ} {span : Span} (hcounts : reader.Counts c.cap)
    (h : c.next reader s = (some (.ok span), c', s')) : c'.index ≠ 0 := by
  obtain ⟨hlt, ⟨handle, hanswer⟩, rfl⟩ := next_ok h
  exact hcounts _ _ _ _ hlt hanswer

theorem toNat_add_one_eq_size {index : UInt32} (h : index + 1 = 0) :
    index.toNat + 1 = UInt32.size := by
  refine Nat.le_antisymm index.toNat_lt (Nat.le_of_not_lt fun hlt => ?_)
  exact add_one_ne_zero hlt h

end SpanCursor

end SplitEditor
