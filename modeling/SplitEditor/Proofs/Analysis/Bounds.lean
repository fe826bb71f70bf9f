import SplitEditor.Proofs.Analysis.RoundTrip
import SplitEditor.Proofs.Analysis.Uploading

/-! Memory is read and written within its bounds only, whatever address and length a binary
reports, and only within them can it be. Both come as signed words and are taken as unsigned. -/

namespace SplitEditor

open Wasm

def unsigned (n : Int32) : Nat := (n.toInt % 0x100000000).toNat

theorem toNat_toUInt32 (n : Int32) : n.toUInt32.toNat = unsigned n := by
  show n.toBitVec.toNat = (n.toBitVec.toInt % 0x100000000).toNat
  have hlt := n.toBitVec.isLt
  rw [BitVec.toInt_eq_toNat_cond]
  split <;> omega

namespace Instance

def InBounds (m : Memory) (ptr len : UInt32) : Prop :=
  ptr.toUInt64 ≤ ptr.toUInt64 + len.toUInt64 ∧
    ptr.toUInt64 + len.toUInt64 ≤ UInt64.ofNat m.size

/-- The bytes come from where the binary said, in the memory as it was when it had said so. -/
def Reported (i : Instance) (ptr len : Entry) (h : Handle) (bytes : List UInt8)
    (i' : Instance) : Prop :=
  ∃ p n between, i.functions ptr [h.word] i.store = (some p, between) ∧
    i.functions len [h.word] between = (some n, i'.store) ∧
    (n = 0 ∨ p.toNat + n.toNat ≤ i'.store.memory.size) ∧
    bytes = (List.range' p.toNat n.toNat).map i'.store.memory.byte

/-- All access of the host to the memory of an instance. -/
structure BoundsChecked (i : Instance) : Prop where
  checked : ∀ ptr len : UInt32,
    (checkBounds ptr len).run i = (.ok (), i) ↔ InBounds i.store.memory ptr len
  read : ∀ ptr len : Int32, len = 0 ∨ unsigned ptr + unsigned len ≤ i.store.memory.size →
    (readBytes ptr.toUInt32 len.toUInt32).run i =
      (.ok ((List.range' (unsigned ptr) (unsigned len)).map i.store.memory.byte), i)
  outside : ∀ ptr len : Int32, ¬(len = 0 ∨ unsigned ptr + unsigned len ≤ i.store.memory.size) →
    (readBytes ptr.toUInt32 len.toUInt32).run i =
      (.error (.outOfBounds ptr.toUInt32 len.toUInt32 i.store.memory.size), i)
  engine : ∀ ptr len : UInt32, (checkBounds ptr len).run i = (.ok (), i) →
    (i.store.memory.read ptr.toNat len.toNat).isSome ∧
      ∀ bytes, bytes.length = len.toNat → (i.store.memory.write ptr.toNat bytes).isSome
  uploaded : ∀ codec text ptr store i', Exchange.Addressable text →
    i.functions .alloc [Exchange.room text] i.store = (some ptr, store) → ptr ≠ 0 →
    i' = i.called Entry.alloc.name [Exchange.room text] store →
    (checkBounds ptr (Exchange.room text)).run i' = (.ok (), i') →
    ∃ b, ((upload codec text).run i).1 = .ok b
  buffers : ∀ h bytes i', (answer (.bufBytes h)).run i = (.ok bytes, i') →
    Reported i .bufPtr .bufLen h bytes i'
  messages : ∀ h bytes i', (answer (.errorMessage h)).run i = (.ok bytes, i') →
    Reported i .errorMsgPtr .errorMsgLen h bytes i'

variable {i i' : Instance} {ptr len : UInt32} {bytes : List UInt8}

theorem inBounds_iff {m : Memory} (h : m.pages ≤ Memory.pageLimit) :
    InBounds m ptr len ↔ ptr.toNat + len.toNat ≤ m.size := by
  have hptr : ptr.toNat < 2 ^ 32 := ptr.toNat_lt
  have hlen : len.toNat < 2 ^ 32 := len.toNat_lt
  have hsize : m.size ≤ 65536 * 65536 := Nat.mul_le_mul_right Memory.pageSize h
  have hofNat : (UInt64.ofNat m.size).toNat = m.size :=
    UInt64.toNat_ofNat_of_lt' (Nat.lt_of_le_of_lt hsize (by decide))
  have hsum : (ptr.toUInt64 + len.toUInt64).toNat = ptr.toNat + len.toNat := by
    rw [UInt64.toNat_add, UInt32.toNat_toUInt64, UInt32.toNat_toUInt64]
    exact Nat.mod_eq_of_lt (by omega)
  rw [InBounds, UInt64.le_iff_toNat_le, UInt64.le_iff_toNat_le, hsum, hofNat,
    UInt32.toNat_toUInt64]
  exact and_iff_right (Nat.le_add_right _ _)

theorem run_checkBounds_ok_iff :
    (checkBounds ptr len).run i = (.ok (), i) ↔ ptr.toNat + len.toNat ≤ i.store.memory.size := by
  rw [run_checkBounds]
  split
  · next hin => exact iff_of_true rfl hin
  · next hout => exact iff_of_false (fun h => nomatch congrArg Prod.fst h) hout

theorem eq_of_run_readBytes (h : (readBytes ptr len).run i = (.ok bytes, i')) : i' = i ∧
    (len = 0 ∨ ptr.toNat + len.toNat ≤ i.store.memory.size) ∧
    bytes = (List.range' ptr.toNat len.toNat).map i.store.memory.byte := by
  by_cases hlen : len = 0
  · subst hlen
    rw [readBytes, if_pos rfl] at h
    cases h
    exact ⟨rfl, .inl rfl, rfl⟩
  by_cases hin : ptr.toNat + len.toNat ≤ i.store.memory.size
  · rw [run_readBytes (if_pos hin)] at h
    cases h
    exact ⟨rfl, .inr hin, rfl⟩
  · rw [run_readBytes_error hlen (Nat.lt_of_not_le hin)] at h
    cases h

theorem reported_of_bytesAt {ptr len : Entry} {h : Handle}
    (hrun : (bytesAt ptr len h).run i = (.ok bytes, i')) : Reported i ptr len h bytes i' := by
  obtain ⟨p, i₁, hcall₁, hrun⟩ := exists_of_run_bind hrun
  obtain ⟨n, i₂, hcall₂, hread⟩ := exists_of_run_bind hrun
  obtain ⟨between, hptr, rfl⟩ := exists_of_run_call hcall₁
  obtain ⟨after, hlen, rfl⟩ := exists_of_run_call hcall₂
  obtain ⟨rfl, hin, rfl⟩ := eq_of_run_readBytes hread
  exact ⟨p, n, between, hptr, hlen, hin, rfl⟩

/-- All access to a memory of no more than the pages there can be is checked, and the check is
exact. -/
theorem bounds_checked (i : Instance) (h : i.store.memory.pages ≤ Memory.pageLimit) :
    BoundsChecked i := by
  constructor
  case checked =>
    intro ptr len
    rw [run_checkBounds_ok_iff, inBounds_iff h]
  case read =>
    intro ptr len hin
    rw [← toNat_toUInt32, ← toNat_toUInt32] at hin ⊢
    rcases hin with rfl | hin
    · rfl
    · exact run_readBytes (if_pos hin)
  case outside =>
    intro ptr len hout
    rw [not_or, ← toNat_toUInt32, ← toNat_toUInt32] at hout
    refine run_readBytes_error (fun hlen => hout.1 ?_) (Nat.lt_of_not_le hout.2)
    exact Int32.toBitVec.inj (congrArg UInt32.toBitVec hlen)
  case engine =>
    intro ptr len hcheck
    have hin := run_checkBounds_ok_iff.1 hcheck
    refine ⟨Memory.isSome_read_iff.2 hin, fun bytes hbytes => ?_⟩
    rwa [Memory.isSome_write_iff, hbytes]
  case uploaded =>
    rintro codec text ptr store i' haddressable halloc hzero rfl hcheck
    have hin := run_checkBounds_ok_iff.1 hcheck
    exact exists_upload_iff.2 ⟨haddressable, ptr, store, halloc, hzero, hin⟩
  case buffers => exact fun h bytes i' => reported_of_bytesAt
  case messages => exact fun h bytes i' => reported_of_bytesAt

/-- In a memory of four gigabytes a negative address is one in its upper half. From the last
address on, there are not as many bytes as a word can count. -/
theorem bounds_checked_far : Layout.farInstance.store.memory.pages ≤ Memory.pageLimit ∧
    (readBytes (-0x80000000 : Int32).toUInt32 (4 : Int32).toUInt32).run Layout.farInstance =
      (.ok [1, 0, 0, 0], Layout.farInstance) ∧
    (readBytes (-1 : Int32).toUInt32 (-1 : Int32).toUInt32).run Layout.farInstance =
      (.error (.outOfBounds 0xFFFFFFFF 0xFFFFFFFF 0x100000000), Layout.farInstance) := by
  have hpages : Layout.farInstance.store.memory.pages ≤ Memory.pageLimit := by decide
  have hchecked : BoundsChecked Layout.farInstance := bounds_checked Layout.farInstance hpages
  refine ⟨hpages, ?_, hchecked.outside (-1) (-1) (by decide)⟩
  have hbytes : (List.range' (unsigned (-0x80000000)) (unsigned 4)).map
      Layout.farInstance.store.memory.byte = [1, 0, 0, 0] := by decide +kernel
  rw [← hbytes]
  exact hchecked.read (-0x80000000) 4 (by decide)

end Instance

end SplitEditor
