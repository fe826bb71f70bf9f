import SplitEditor.Proofs.Analysis.Reading
import SplitEditor.Proofs.Text.Codec
import SplitEditor.Proofs.Text.Cut

/-! The calls of exports that the host makes on an instance, step by step. -/

namespace SplitEditor

open Wasm

abbrev Call := String × List UInt32

def Entry.isAccessor : Entry → Bool
  | alloc | compile | hover | definition | references => false
  | _ => true

def IsAccessorCall (c : Call) : Prop := ∃ e : Entry, e.isAccessor ∧ c.1 = e.name

namespace Instance
variable {i i' i'' : Instance} {α β : Type} {handle : Handle}

def called (i : Instance) (name : String) (args : List UInt32) (store : Store) : Instance :=
  { i with store, calls := (name, args) :: i.calls }

theorem run_invoke_some {name : String} {body : Body} {args : List UInt32} {n : UInt32}
    {store : Store} (h : body args i.store = (some n, store)) :
    (invoke name body args).run i = (.ok n, i.called name args store) := by
  simp only [invoke, ExceptT.run, ExceptT.mk, h]
  rfl

theorem run_invoke_none {name : String} {body : Body} {args : List UInt32} {store : Store}
    (h : body args i.store = (none, store)) :
    (invoke name body args).run i = (.error .execution, i.called name args store) := by
  simp only [invoke, ExceptT.run, ExceptT.mk, h]
  rfl

theorem run_call_some {e : Entry} {args : List UInt32} {n : UInt32} {store : Store}
    (h : i.functions e args i.store = (some n, store)) :
    (call e args).run i = (.ok n, i.called e.name args store) := run_invoke_some h

theorem run_call_none {e : Entry} {args : List UInt32} {store : Store}
    (h : i.functions e args i.store = (none, store)) :
    (call e args).run i = (.error .execution, i.called e.name args store) := run_invoke_none h

theorem exists_of_run_call {e : Entry} {args : List UInt32} {n : UInt32}
    (h : (call e args).run i = (.ok n, i')) : ∃ store,
      i.functions e args i.store = (some n, store) ∧ i' = i.called e.name args store := by
  cases hcall : i.functions e args i.store with
  | mk result store =>
    cases result with
    | some m =>
      cases (run_call_some hcall).symm.trans h
      exact ⟨store, rfl, rfl⟩
    | none => cases (run_call_none hcall).symm.trans h

/-! ### Accessor calls -/

theorem keeps_call {R : Instance → Instance → Prop} {e : Entry} {args : List UInt32}
    (h : ∀ i store, R i (i.called e.name args store)) : Keeps R (call e args) := by
  intro i
  cases hcall : i.functions e args i.store with
  | mk result store =>
    cases result with
    | some n => exact run_call_some hcall ▸ h i store
    | none => exact run_call_none hcall ▸ h i store

/-- The relation holds of doing nothing, of one thing after another, and of calling an accessor
with as many words as it takes. -/
structure Respects (R : Instance → Instance → Prop) : Prop where
  refl : ∀ i, R i i
  trans : ∀ {i i' i''}, R i i' → R i' i'' → R i i''
  called : ∀ {e : Entry} {args : List UInt32}, e.isAccessor → args.length = e.arity →
    ∀ i store, R i (i.called e.name args store)

namespace Respects
variable {R : Instance → Instance → Prop} (h : Respects R)
include h

theorem keeps_pure (a : α) : Keeps R (pure a : Live α) := fun i => h.refl i

theorem keeps_throw (e : AnalysisError) : Keeps R (throw e : Live α) := fun i => h.refl i

theorem keeps_get : Keeps R (get : Live Instance) := fun i => h.refl i

theorem keeps_bind {x : Live α} {f : α → Live β} (hx : Keeps R x) (hf : ∀ a, Keeps R (f a)) :
    Keeps R (x >>= f) := hx.bind hf h.trans

theorem keeps_field {e : Entry} (he : e.isAccessor) (harity : e.arity = 1) (handle : Handle) :
    Keeps R (field e handle) := keeps_call (h.called he harity.symm)

theorem keeps_checkBounds (ptr len : UInt32) : Keeps R (checkBounds ptr len) := by
  refine h.keeps_bind h.keeps_get fun i => ?_
  split
  · exact h.keeps_pure _
  · exact h.keeps_throw _

theorem keeps_readBytes (ptr len : UInt32) : Keeps R (readBytes ptr len) := by
  unfold readBytes
  split
  · exact h.keeps_pure _
  · refine h.keeps_bind (h.keeps_checkBounds ptr len) fun _ =>
      h.keeps_bind h.keeps_get fun i => ?_
    split
    · exact h.keeps_pure _
    · exact h.keeps_throw _

theorem keeps_bytesAt {ptr len : Entry} (hptr : Keeps R (field ptr handle))
    (hlen : Keeps R (field len handle)) : Keeps R (bytesAt ptr len handle) :=
  h.keeps_bind hptr fun _ => h.keeps_bind hlen fun _ => h.keeps_readBytes _ _

theorem keeps_answer (a : Accessor) : Keeps R (answer a) := by
  cases a with
  | resultIsOk handle => exact h.keeps_bind (h.keeps_field rfl rfl handle) fun _ => h.keeps_pure _
  | resultOk handle => exact h.keeps_bind (h.keeps_field rfl rfl handle) fun _ => h.keeps_pure _
  | resultError handle => exact h.keeps_bind (h.keeps_field rfl rfl handle) fun _ => h.keeps_pure _
  | bufBytes handle =>
    exact h.keeps_bytesAt (h.keeps_field rfl rfl handle) (h.keeps_field rfl rfl handle)
  | errorMessage handle =>
    exact h.keeps_bytesAt (h.keeps_field rfl rfl handle) (h.keeps_field rfl rfl handle)
  | errorSpan handle => exact h.keeps_bind (h.keeps_field rfl rfl handle) fun _ => h.keeps_pure _
  | span handle =>
    exact h.keeps_bind (h.keeps_field rfl rfl handle) fun _ =>
      h.keeps_bind (h.keeps_field rfl rfl handle) fun _ =>
        h.keeps_bind (h.keeps_field rfl rfl handle) fun _ =>
          h.keeps_bind (h.keeps_field rfl rfl handle) fun _ => h.keeps_pure _
  | hoverType handle => exact h.keeps_bind (h.keeps_field rfl rfl handle) fun _ => h.keeps_pure _
  | hoverSpan handle => exact h.keeps_bind (h.keeps_field rfl rfl handle) fun _ => h.keeps_pure _
  | spansGet handle index =>
    simp only [answer]
    split
    · exact h.keeps_bind (keeps_call (h.called rfl rfl)) fun _ => h.keeps_pure _
    · exact h.keeps_throw _

theorem tracks : Decode.Tracks reader fun w w' => R w.1 w'.1 where
  refl w := h.refl w.1
  trans hfirst hthen := h.trans hfirst hthen
  asked a i _ := h.keeps_answer a i
  logged _ i _ _ := h.refl i

end Respects

theorem exists_new_trans {P : Call → Prop} {calls calls' calls'' : List Call}
    (h : ∃ new, calls' = new ++ calls ∧ ∀ c ∈ new, P c)
    (h' : ∃ new, calls'' = new ++ calls' ∧ ∀ c ∈ new, P c) :
    ∃ new, calls'' = new ++ calls ∧ ∀ c ∈ new, P c := by
  obtain ⟨new, rfl, hnew⟩ := h
  obtain ⟨new', rfl, hnew'⟩ := h'
  exact ⟨new' ++ new, (List.append_assoc _ _ _).symm, List.forall_mem_append.2 ⟨hnew', hnew⟩⟩

structure Reads (i i' : Instance) : Prop where
  dealloc : i'.dealloc = i.dealloc
  calls : ∃ new, i'.calls = new ++ i.calls ∧ ∀ c ∈ new, IsAccessorCall c

theorem respects_reads : Respects Reads where
  refl _ := ⟨rfl, [], rfl, by simp⟩
  trans h h' := ⟨h'.dealloc.trans h.dealloc, exists_new_trans h.calls h'.calls⟩
  called {e args} he _ _ _ :=
    ⟨rfl, [(e.name, args)], rfl, List.forall_mem_singleton.2 ⟨e, he, rfl⟩⟩

def ReadsAndLogs (w w' : Instance × List LogEvent) : Prop :=
  Reads w.1 w'.1 ∧ ∃ new, w'.2 = w.2 ++ new ∧ ∀ event ∈ new, event.isEnd = false

theorem tracks_readsAndLogs : Decode.Tracks Instance.reader ReadsAndLogs where
  refl w := ⟨respects_reads.refl w.1, [], (List.append_nil _).symm, by simp⟩
  trans := by
    rintro u v w ⟨hreads, new, hnew, hend⟩ ⟨hreads', new', hnew', hend'⟩
    refine ⟨respects_reads.trans hreads hreads', new ++ new', ?_, ?_⟩
    · rw [hnew', hnew, List.append_assoc]
    · exact List.forall_mem_append.2 ⟨hend, hend'⟩
  asked a i events :=
    ⟨respects_reads.keeps_answer a i, [], (List.append_nil _).symm, by simp⟩
  logged event i events hnote :=
    ⟨respects_reads.refl i, [event], rfl,
      List.forall_mem_singleton.2 (LogEvent.isEnd_of_isNote hnote)⟩

/-! ### Handing a source over and taking it back -/

/-- A call for so many bytes is granted: the address is not zero, and the bytes lie in memory. -/
structure Grants (i : Instance) (n ptr : UInt32) (store : Store) : Prop where
  returned : i.functions .alloc [n] i.store = (some ptr, store)
  nonzero : ptr ≠ 0
  inside : ptr.toNat + n.toNat ≤ store.memory.size

theorem length_encodeSource (codec : Codec) (text : String) :
    (codec.encodeSource text).length = Utf8.byteLength text.toList + 1 := by
  rw [Codec.encodeSource, Codec.encode_eq, List.length_append, Utf8.length_encode,
    List.length_singleton]

theorem run_checkBounds (i : Instance) (ptr len : UInt32) :
    (checkBounds ptr len).run i = if ptr.toNat + len.toNat ≤ i.store.memory.size then (.ok (), i)
      else (.error (i.outOfBounds ptr len), i) := by
  have hget : (get : Live Instance).run i = (.ok i, i) := rfl
  rw [checkBounds, run_bind_ok hget]
  split <;> rfl

theorem run_readBytes {ptr len : UInt32} {bytes : List UInt8}
    (h : i.store.memory.read ptr.toNat len.toNat = some bytes) :
    (readBytes ptr len).run i = (.ok bytes, i) := by
  have hin : ptr.toNat + len.toNat ≤ i.store.memory.size :=
    (Option.ite_none_right_eq_some.1 h).1
  by_cases hzero : len = 0
  · subst hzero
    have hempty : bytes = [] := (Option.some.inj ((if_pos hin).symm.trans h)).symm
    rw [readBytes, if_pos rfl, hempty]
    rfl
  · have hcheck := run_checkBounds i ptr len
    have hget : (get : Live Instance).run i = (.ok i, i) := rfl
    rw [if_pos hin] at hcheck
    rw [readBytes, if_neg hzero, run_bind_ok hcheck, run_bind_ok hget]
    simp only [h]
    rfl

theorem run_readBytes_error {ptr len : UInt32} (hlen : len ≠ 0)
    (hout : i.store.memory.size < ptr.toNat + len.toNat) :
    (readBytes ptr len).run i = (.error (i.outOfBounds ptr len), i) := by
  have hcheck := run_checkBounds i ptr len
  rw [if_neg (Nat.not_le_of_lt hout)] at hcheck
  rw [readBytes, if_neg hlen, run_bind_error hcheck]

theorem run_writeBytes {ptr : UInt32} {bytes : List UInt8} {memory : Memory}
    (h : i.store.memory.write ptr.toNat bytes = some memory) :
    (writeBytes ptr bytes).run i = (.ok (), { i with store := { i.store with memory } }) := by
  have hget : (get : Live Instance).run i = (.ok i, i) := rfl
  rw [writeBytes, run_bind_ok hget]
  simp only [h]
  rfl

section Upload
variable {codec : Codec} {text : String} {n ptr : UInt32} {store : Store}

theorem run_upload_oversized (h : sourceLimit < Utf8.byteLength text.toList + 1) :
    (upload codec text).run i =
      (.error (.sourceTooLarge (Utf8.byteLength text.toList + 1) sourceLimit), i) := by
  rw [← length_encodeSource codec] at h ⊢
  unfold upload
  simp only [if_pos h]
  rfl

theorem run_upload_unaddressable (h : sourceLimit < Utf8.byteLength text.toList + 1) :
    ∃ e, (upload codec text).run i = (.error e, i) := ⟨_, run_upload_oversized h⟩

section Denied
variable (hlimit : Utf8.byteLength text.toList + 1 ≤ sourceLimit)
  (hn : n = UInt32.ofNat (Utf8.byteLength text.toList + 1))
include hlimit hn

theorem run_upload_trapped (halloc : i.functions .alloc [n] i.store = (none, store)) :
    (upload codec text).run i = (.error .execution, i.called Entry.alloc.name [n] store) := by
  unfold upload
  rw [← length_encodeSource codec] at hlimit hn
  simp only [if_neg (Nat.not_lt_of_le hlimit), ← hn]
  exact run_bind_error (run_call_none halloc)

theorem run_upload_refused (halloc : i.functions .alloc [n] i.store = (some 0, store)) :
    (upload codec text).run i =
      (.error (.allocationFailed (Utf8.byteLength text.toList + 1)),
        i.called Entry.alloc.name [n] store) := by
  unfold upload
  rw [← length_encodeSource codec] at hlimit hn ⊢
  simp only [if_neg (Nat.not_lt_of_le hlimit), ← hn]
  rw [run_bind_ok (run_call_some halloc), if_pos rfl]
  rfl

theorem run_upload_misplaced (halloc : i.functions .alloc [n] i.store = (some ptr, store))
    (hzero : ptr ≠ 0) (hout : store.memory.size < ptr.toNat + n.toNat) :
    (upload codec text).run i = (.error (.outOfBounds ptr n store.memory.size),
      i.called Entry.alloc.name [n] store) := by
  unfold upload
  rw [← length_encodeSource codec] at hlimit hn
  simp only [if_neg (Nat.not_lt_of_le hlimit), ← hn]
  have hcheck := run_checkBounds (i.called Entry.alloc.name [n] store) ptr n
  rw [if_neg (show ¬_ ≤ (i.called Entry.alloc.name [n] store).store.memory.size from
    Nat.not_le_of_lt hout)] at hcheck
  rw [run_bind_ok (run_call_some halloc)]
  simp only [if_neg hzero]
  exact run_bind_error hcheck

theorem run_upload_denied (h : ∀ ptr store, ¬i.Grants n ptr store) :
    ∃ e store, (upload codec text).run i = (.error e, i.called Entry.alloc.name [n] store) := by
  cases halloc : i.functions .alloc [n] i.store with
  | mk result store =>
    cases result with
    | none => exact ⟨_, store, run_upload_trapped hlimit hn halloc⟩
    | some ptr =>
      by_cases hzero : ptr = 0
      · exact ⟨_, store, run_upload_refused hlimit hn (hzero ▸ halloc)⟩
      · exact ⟨_, store, run_upload_misplaced hlimit hn halloc hzero
          (Nat.lt_of_not_le fun hin => h ptr store ⟨halloc, hzero, hin⟩)⟩

end Denied

theorem run_upload_granted (hlimit : Utf8.byteLength text.toList + 1 ≤ sourceLimit)
    (hn : n = UInt32.ofNat (Utf8.byteLength text.toList + 1)) (h : i.Grants n ptr store) :
    ∃ memory, store.memory.write ptr.toNat (codec.encodeSource text) = some memory ∧
      (upload codec text).run i =
        (.ok ⟨ptr, n⟩, i.called Entry.alloc.name [n] { store with memory }) := by
  rw [← length_encodeSource codec] at hlimit hn
  have hlength : n.toNat = (codec.encodeSource text).length := by
    rw [hn, UInt32.toNat_ofNat_of_lt' (Nat.lt_of_le_of_lt hlimit (by decide))]
  -- Whoever passes the check can be written to, so the write cannot fail after it.
  have hwrite : store.memory.write ptr.toNat (codec.encodeSource text) = some _ :=
    if_pos (hlength ▸ h.inside)
  refine ⟨_, hwrite, ?_⟩
  unfold upload
  simp only [if_neg (Nat.not_lt_of_le hlimit), ← hn]
  rw [run_bind_ok (run_call_some h.returned)]
  simp only [if_neg h.nonzero]
  have hcheck := run_checkBounds (i.called Entry.alloc.name [n] store) ptr n
  rw [if_pos (show _ ≤ (i.called Entry.alloc.name [n] store).store.memory.size from h.inside)]
    at hcheck
  rw [run_bind_ok hcheck, run_bind_ok (run_writeBytes (i := i.called Entry.alloc.name [n] store)
    hwrite)]
  rfl

end Upload

section Release
variable {ptr len word : UInt32} {body : Body} {store : Store}

theorem run_release_none (h : i.dealloc = none) : (release ⟨ptr, len⟩).run i = (.ok (), i) := by
  have hget : (get : Live Instance).run i = (.ok i, i) := rfl
  rw [release, run_bind_ok hget]
  simp only [h]
  rfl

theorem run_release_some (h : i.dealloc = some body)
    (hcall : body [ptr, len] i.store = (some word, store)) : (release ⟨ptr, len⟩).run i =
      (.ok (), i.called Interface.deallocName [ptr, len] store) := by
  have hget : (get : Live Instance).run i = (.ok i, i) := rfl
  rw [release, run_bind_ok hget]
  simp only [h]
  exact run_bind_ok (run_invoke_some hcall)

theorem run_release_trap (h : i.dealloc = some body)
    (hcall : body [ptr, len] i.store = (none, store)) : (release ⟨ptr, len⟩).run i =
      (.error .execution, i.called Interface.deallocName [ptr, len] store) := by
  have hget : (get : Live Instance).run i = (.ok i, i) := rfl
  rw [release, run_bind_ok hget]
  simp only [h]
  exact run_bind_error (run_invoke_none hcall)

end Release

def Frees (i : Instance) (ptr n : UInt32) : Prop :=
  ∀ body, i.dealloc = some body → ((body [ptr, n] i.store).1).isSome

end Instance

end SplitEditor
