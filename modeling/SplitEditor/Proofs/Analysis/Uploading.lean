import Mathlib.Data.List.TakeWhile
import SplitEditor.Proofs.Analysis.Course
import SplitEditor.Proofs.Wasm.Contents

/-! What uploading a source does to memory: the bytes of the source and a zero byte lie where the
binary said, and all else is as the binary left it. -/

namespace SplitEditor

open Wasm

namespace Utf8

theorem zero_mem_encode_iff (text : List Char) : 0 ∈ encode text ↔ '\x00' ∈ text := by
  rw [encode, List.mem_flatMap]
  constructor
  · rintro ⟨c, hc, hzero⟩
    have hnat : c.toNat = 0 := eq_of_mem_encodeChar hzero (by decide)
    rwa [show c = '\x00' from Char.toNat_inj.1 hnat] at hc
  · exact fun hc => ⟨'\x00', hc, by decide⟩

theorem takeWhile_encode_iff (text : List Char) :
    (encode text).takeWhile (· != 0) = encode text ↔ '\x00' ∉ text := by
  rw [List.takeWhile_eq_self_iff, ← zero_mem_encode_iff]
  constructor
  · exact fun h hzero => absurd (h 0 hzero) (by decide)
  · exact fun h b hb => bne_iff_ne.2 fun hzero => h (hzero ▸ hb)

end Utf8

namespace Instance

open Exchange

/-- The source lies in the memory, and all else is as it was before. -/
structure Holds (text : String) (before after : Memory) (b : UploadedSource) : Prop where
  length : b.len.toNat = Utf8.byteLength text.toList + 1
  extent : after.pages = before.pages ∧ after.limit = before.limit
  content : after.read b.ptr.toNat b.len.toNat = some (Utf8.encode text.toList ++ [0])
  frame : ∀ k, k < b.ptr.toNat ∨ b.ptr.toNat + b.len.toNat ≤ k → after.byte k = before.byte k
  /-- What is read up to a zero byte is all of the source, unless it has one in it. -/
  string : after.string b.ptr.toNat = Utf8.encode text.toList ↔ '\x00' ∉ text.toList

/-- What uploading a source comes to, and the instance it leaves. -/
structure Uploads (i : Instance) (text : String)
    (w : Except AnalysisError UploadedSource × Instance) : Prop where
  uploaded : ∀ b, w.1 = .ok b → ∃ store memory,
    i.functions .alloc [room text] i.store = (some b.ptr, store) ∧
    w.2 = i.called Entry.alloc.name [room text] { store with memory } ∧
    Holds text store.memory memory b ∧ ∃ bytes,
      (readBytes b.ptr (b.len - 1)).run w.2 = (.ok bytes, w.2) ∧
      ∀ reader : Codec, reader.decode bytes = text
  returns : (∃ b, w.1 = .ok b) ↔
    Addressable text ∧ ∃ ptr store, i.Grants (room text) ptr store
  refused : ∀ store, Addressable text →
    i.functions .alloc [room text] i.store = (some 0, store) →
    w = (.error (.allocationFailed (Utf8.byteLength text.toList + 1)),
      i.called Entry.alloc.name [room text] store)
  misplaced : ∀ ptr store, Addressable text →
    i.functions .alloc [room text] i.store = (some ptr, store) → ptr ≠ 0 →
    store.memory.size < ptr.toNat + (room text).toNat →
    w = (.error (.outOfBounds ptr (room text) store.memory.size),
      i.called Entry.alloc.name [room text] store)

variable {i : Instance} {text : String} {codec : Codec} {ptr : UInt32} {store : Store}
  {memory before after : Memory} {b : UploadedSource}

theorem toNat_room (h : Addressable text) :
    (room text).toNat = Utf8.byteLength text.toList + 1 :=
  UInt32.toNat_ofNat_of_lt' (Nat.lt_of_le_of_lt h (by decide))

theorem holds_of_write (h : Addressable text)
    (hwrite : before.write ptr.toNat (codec.encodeSource text) = some after) :
    Holds text before after ⟨ptr, room text⟩ := by
  have hlength : (room text).toNat = (codec.encodeSource text).length := by
    rw [toNat_room h, length_encodeSource]
  have hcontent := Memory.read_write hwrite
  have hsource : codec.encodeSource text = Utf8.encode text.toList ++ [0] := by
    rw [Codec.encodeSource, Codec.encode_eq]
  constructor
  case length => exact toNat_room h
  case extent =>
    rw [(Memory.eq_of_write hwrite).2]
    exact ⟨rfl, rfl⟩
  case content =>
    show after.read ptr.toNat (room text).toNat = _
    rw [hlength, hcontent, hsource]
  case frame =>
    intro k hk
    exact Memory.byte_write_outside hwrite (hlength ▸ hk)
  case string =>
    rw [hsource] at hcontent
    rw [Memory.string_of_read hcontent]
    exact Utf8.takeWhile_encode_iff text.toList

theorem Holds.read_back (h : Holds text before i.store.memory b) :
    (readBytes b.ptr (b.len - 1)).run i = (.ok (Utf8.encode text.toList), i) := by
  have hlen : (b.len - 1).toNat = (Utf8.encode text.toList).length := by
    have hone : (1 : UInt32) ≤ b.len := UInt32.le_iff_toNat_le.2 (by rw [h.length]; simp)
    rw [UInt32.toNat_sub_of_le _ _ hone, h.length, Utf8.length_encode]
    rfl
  have hcontent := h.content
  rw [h.length, ← Utf8.length_encode, ← List.length_singleton (a := (0 : UInt8)),
    ← List.length_append] at hcontent
  obtain ⟨hread, -⟩ := Memory.read_append hcontent
  rw [← hlen] at hread
  exact run_readBytes hread

theorem exists_write_of_upload (h : ((upload codec text).run i).1 = .ok b) :
    Addressable text ∧ ∃ ptr store memory, b = ⟨ptr, room text⟩ ∧ i.Grants (room text) ptr store ∧
      store.memory.write ptr.toNat (codec.encodeSource text) = some memory ∧
      ((upload codec text).run i).2 =
        i.called Entry.alloc.name [room text] { store with memory } := by
  have haddressable : Addressable text := Nat.le_of_not_lt fun hlimit => by
    rw [run_upload_oversized hlimit] at h
    cases h
  by_cases hgrants : ∃ ptr store, i.Grants (room text) ptr store
  · obtain ⟨ptr, store, hgrants⟩ := hgrants
    obtain ⟨memory, hwrite, hrun⟩ := @run_upload_granted i codec text _ _ _ haddressable rfl hgrants
    rw [hrun] at h ⊢
    exact ⟨haddressable, ptr, store, memory, (Except.ok.inj h).symm, hgrants, hwrite, rfl⟩
  · obtain ⟨e, store, hrun⟩ := @run_upload_denied i codec text _ haddressable rfl
      fun ptr store h => hgrants ⟨ptr, store, h⟩
    rw [hrun] at h
    cases h

theorem exists_upload_iff : (∃ b, ((upload codec text).run i).1 = .ok b) ↔
    Addressable text ∧ ∃ ptr store, i.Grants (room text) ptr store := by
  constructor
  · rintro ⟨b, hb⟩
    obtain ⟨haddressable, ptr, store, -, -, hgrants, -⟩ := exists_write_of_upload hb
    exact ⟨haddressable, ptr, store, hgrants⟩
  · rintro ⟨haddressable, ptr, store, hgrants⟩
    obtain ⟨memory, -, hrun⟩ := @run_upload_granted i codec text _ _ _ haddressable rfl hgrants
    exact ⟨_, congrArg Prod.fst hrun⟩

/-- Either the source is uploaded whole, or the memory is as the binary left it. -/
theorem upload_exact (i : Instance) (codec : Codec) (text : String) :
    Uploads i text ((upload codec text).run i) := by
  constructor
  case uploaded =>
    intro b hb
    obtain ⟨haddressable, ptr, store, memory, rfl, hgrants, hwrite, hleft⟩ :=
      exists_write_of_upload hb
    have hholds := holds_of_write haddressable hwrite
    rw [hleft]
    exact ⟨store, memory, hgrants.returned, rfl, hholds, _, hholds.read_back,
      fun reader => reader.decode_utf8 text⟩
  case returns => exact exists_upload_iff
  case refused => exact fun store haddressable => run_upload_refused haddressable rfl
  case misplaced => exact fun ptr store haddressable => run_upload_misplaced haddressable rfl

end Instance

end SplitEditor
