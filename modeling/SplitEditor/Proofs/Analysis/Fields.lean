import SplitEditor.Proofs.Analysis.Layout

/-! Questions about records, answered by an instance. The functions that do it only use up fuel,
so it is enough to count their calls. -/

namespace SplitEditor

open Wasm Instance

section Gives
variable {ε σ α β : Type} {I : Nat → σ → Prop}

/-- The action returns the value, and of the calls that may be made uses up so many. -/
def Gives (I : Nat → σ → Prop) (x : ExceptT ε (StateM σ) α) (a : α) (calls : Nat) : Prop :=
  ∀ k s, I (k + calls) s → ∃ s', x.run s = (.ok a, s') ∧ I k s'

theorem gives_pure (a : α) : Gives I (pure a : ExceptT ε (StateM σ) α) a 0 :=
  fun _ s hs => ⟨s, rfl, hs⟩

theorem gives_bind {x : ExceptT ε (StateM σ) α} {f : α → ExceptT ε (StateM σ) β} {a : α} {b : β}
    {m n : Nat} (hx : Gives I x a m) (hf : Gives I (f a) b n) : Gives I (x >>= f) b (n + m) := by
  intro k s hs
  rw [← Nat.add_assoc] at hs
  obtain ⟨t, hrun, ht⟩ := hx (k + n) s hs
  obtain ⟨s', hrun', hs'⟩ := hf k t ht
  exact ⟨s', (run_bind_ok hrun).trans hrun', hs'⟩

theorem gives_return {x : ExceptT ε (StateM σ) α} {f : α → β} {a : α} {m : Nat}
    (hx : Gives I x a m) : Gives I (x >>= fun y => pure (f y)) (f a) m := by
  have hbind : Gives I (x >>= fun y => pure (f y)) (f a) (0 + m) := gives_bind hx (gives_pure _)
  rwa [Nat.zero_add] at hbind

end Gives

namespace Layout

variable {functions : Entry → Body} {cost : Nat} {m : Memory}

structure Ready (functions : Entry → Body) (cost : Nat) (m : Memory) (k : Nat) (i : Instance) :
    Prop where
  functions : i.functions = functions
  memory : i.store.memory = m
  fuel : k * cost ≤ i.store.fuel

theorem Ready.mono {k n : Nat} {i : Instance} (h : Ready functions cost m (k + n) i) :
    Ready functions cost m k i where
  functions := h.functions
  memory := h.memory
  fuel := Nat.le_trans (Nat.mul_le_mul_right cost (Nat.le_add_right k n)) h.fuel

theorem gives_call {e : Entry} {args : List UInt32} {w : UInt32}
    (h : Returns (functions e) args cost m w) :
    Gives (Ready functions cost m) (call e args) w 1 := by
  intro k i hready
  have hfuel : (k + 1) * cost ≤ i.store.fuel := hready.fuel
  rw [Nat.succ_mul] at hfuel
  obtain ⟨fuel, hbody, hleft⟩ := h i.store hready.memory (by omega)
  rw [← hready.functions] at hbody
  exact ⟨_, run_call_some hbody, hready.functions, hready.memory, by simp only [called]; omega⟩

section Answers
variable (hloads : Loads functions cost)
include hloads

theorem gives_field {e : Entry} {h : Handle} {words : List UInt32} {k : Nat} {w : UInt32}
    (he : field? e = some k) (hrecord : Record m h.word words) (hk : words[k]? = some w) :
    Gives (Ready functions cost m) (field e h) w 1 :=
  gives_call (hloads.field he (hrecord k w hk))

omit hloads in
theorem gives_readBytes {ptr len : UInt32} {bytes : List UInt8}
    (h : m.read ptr.toNat len.toNat = some bytes) :
    Gives (Ready functions cost m) (readBytes ptr len) bytes 0 := by
  intro k i hready
  rw [← hready.memory] at h
  exact ⟨i, run_readBytes h, hready⟩

theorem gives_bytesAt {ptr len : Entry} {h : Handle} {words : List UInt32} {p n : UInt32}
    {bytes : List UInt8} (hptr : field? ptr = some 0) (hlen : field? len = some 1)
    (hrecord : Record m h.word (p :: n :: words))
    (hread : m.read p.toNat n.toNat = some bytes) :
    Gives (Ready functions cost m) (bytesAt ptr len h) bytes 2 :=
  gives_bind (gives_field hloads hptr hrecord rfl) <|
    gives_bind (gives_field hloads hlen hrecord rfl) (gives_readBytes hread)

theorem gives_span {h : Handle} {span : Span} (hspan : SpanAt m h span) :
    Gives (Ready functions cost m) (answer (.span h)) span 4 :=
  gives_bind (gives_field hloads rfl hspan.words rfl) <|
    gives_bind (gives_field hloads rfl hspan.words rfl) <|
    gives_bind (gives_field hloads rfl hspan.words rfl) <|
    gives_return (gives_field hloads rfl hspan.words rfl)

theorem gives_buf {h : Handle} {bytes : List UInt8} (hbuf : BufAt m h bytes) :
    Gives (Ready functions cost m) (answer (.bufBytes h)) bytes 2 := by
  obtain ⟨ptr, len, hrecord, hread⟩ := hbuf.words
  exact gives_bytesAt hloads rfl rfl hrecord hread

theorem gives_tag {h : Handle} {tag value : UInt32} (hrecord : Record m h.word [tag, value]) :
    Gives (Ready functions cost m) (answer (.resultIsOk h)) (tag != 0) 1 :=
  gives_return (gives_field hloads rfl hrecord rfl)

theorem gives_ok {h : Handle} {tag value : UInt32} (htag : tag ≠ 0)
    (hrecord : Record m h.word [tag, value]) :
    Gives (Ready functions cost m) (answer (.resultOk h)) ⟨value⟩ 1 :=
  gives_return (gives_call (hloads.ok htag hrecord))

theorem gives_error {h : Handle} {value : UInt32} (hrecord : Record m h.word [0, value]) :
    Gives (Ready functions cost m) (answer (.resultError h)) ⟨value⟩ 1 :=
  gives_return (gives_call (hloads.error hrecord))

theorem gives_entry {h : Handle} {handles : List UInt32} {index : UInt32}
    (hshort : handles.length < 0x80000000)
    (hrecord : Record m h.word (UInt32.ofNat handles.length :: handles))
    (hindex : index < 0x80000000) :
    Gives (Ready functions cost m) (answer (.spansGet h index)) ⟨handles.getD index.toNat 0⟩ 1 := by
  have hentry := hloads.entry (k := index.toNat) hshort hrecord hindex
  rw [UInt32.ofNat_toNat] at hentry
  simp only [answer, if_pos hindex]
  exact gives_return (gives_call hentry)

end Answers

end Layout

end SplitEditor
