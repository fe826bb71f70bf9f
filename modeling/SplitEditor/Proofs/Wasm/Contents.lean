import SplitEditor.Wasm.Memory

/-! What a memory holds: a range that was written reads as what was written there, and every byte
outside of it is as before. -/

namespace SplitEditor.Wasm.Memory

variable {m m' : Memory} {address length k : Nat} {bytes : List UInt8} {b : UInt8}

theorem getD_insert (cells : Std.TreeMap Nat UInt8) :
    (cells.insert address b).getD k 0 = if address = k then b else cells.getD k 0 := by
  simp only [Std.TreeMap.getD_insert, Nat.compare_eq_eq]

theorem getD_put_outside {cells : Std.TreeMap Nat UInt8}
    (h : k < address ∨ address + bytes.length ≤ k) :
    (put cells address bytes).getD k 0 = cells.getD k 0 := by
  induction bytes generalizing cells address with
  | nil => rfl
  | cons b bytes ih =>
    rw [List.length_cons] at h
    rw [put, ih (by omega), getD_insert, if_neg (by omega)]

theorem getD_put_inside {cells : Std.TreeMap Nat UInt8} (h : bytes[k]? = some b) :
    (put cells address bytes).getD (address + k) 0 = b := by
  induction bytes generalizing cells address k with
  | nil => cases h
  | cons c bytes ih =>
    rw [put]
    cases k with
    | zero =>
      obtain rfl := Option.some.inj h
      show (put _ (address + 1) bytes).getD address 0 = c
      rw [getD_put_outside (.inl (Nat.lt_add_one address)), getD_insert, if_pos rfl]
    | succ k =>
      rw [Nat.add_comm k 1, ← Nat.add_assoc]
      exact ih h

theorem read_eq_some_iff : m.read address length = some bytes ↔
    address + length ≤ m.size ∧ bytes = (List.range' address length).map m.byte := by
  rw [read, Option.ite_none_right_eq_some, Option.some.injEq]
  exact and_congr_right fun _ => eq_comm

theorem isSome_read_iff : (m.read address length).isSome ↔ address + length ≤ m.size := by
  rw [read]
  split <;> simp_all

theorem isSome_write_iff : (m.write address bytes).isSome ↔ address + bytes.length ≤ m.size := by
  rw [write]
  split <;> simp_all

section Write
variable (h : m.write address bytes = some m')
include h

theorem eq_of_write : address + bytes.length ≤ m.size ∧
    m' = { m with cells := put m.cells address bytes } := by
  rw [write] at h
  split at h
  · next hin => exact ⟨hin, (Option.some.inj h).symm⟩
  · cases h

theorem size_write : m'.size = m.size := by
  rw [(eq_of_write h).2]
  rfl

theorem byte_write_outside (hk : k < address ∨ address + bytes.length ≤ k) :
    m'.byte k = m.byte k := by
  rw [(eq_of_write h).2]
  exact getD_put_outside hk

theorem byte_write_inside (hk : bytes[k]? = some b) : m'.byte (address + k) = b := by
  rw [(eq_of_write h).2]
  exact getD_put_inside hk

theorem read_write : m'.read address bytes.length = some bytes := by
  have hin : address + bytes.length ≤ m'.size := by
    rw [size_write h]
    exact (eq_of_write h).1
  refine read_eq_some_iff.2 ⟨hin, List.ext_getElem? fun k => ?_⟩
  rw [List.getElem?_map]
  by_cases hk : k < bytes.length
  · rw [List.getElem?_range' hk, Option.map_some, Nat.one_mul, List.getElem?_eq_getElem hk,
      byte_write_inside h (List.getElem?_eq_getElem hk)]
  · rw [List.getElem?_eq_none (Nat.le_of_not_lt hk), List.getElem?_eq_none, Option.map_none]
    rw [List.length_range']
    exact Nat.le_of_not_lt hk

end Write

section Parts
variable {first rest : List UInt8}

theorem read_append (h : m.read address (first ++ rest).length = some (first ++ rest)) :
    m.read address first.length = some first ∧
      rest = (List.range' (address + first.length) rest.length).map m.byte := by
  obtain ⟨hin, hbytes⟩ := read_eq_some_iff.1 h
  rw [List.length_append] at hin hbytes
  rw [← List.range'_append, List.map_append, Nat.one_mul] at hbytes
  obtain ⟨hfirst, hrest⟩ := List.append_inj hbytes (by simp)
  exact ⟨read_eq_some_iff.2 ⟨by omega, hfirst⟩, hrest⟩

def string (m : Memory) (address : Nat) : List UInt8 :=
  ((List.range' address (m.size - address)).map m.byte).takeWhile (· != 0)

theorem string_of_read (h : m.read address (bytes ++ [0]).length = some (bytes ++ [0])) :
    m.string address = bytes.takeWhile (· != 0) := by
  obtain ⟨hin, hbytes⟩ := read_eq_some_iff.1 h
  obtain ⟨behind, hbehind⟩ : ∃ behind, (List.range' address (m.size - address)).map m.byte =
      bytes ++ 0 :: behind := by
    have hsize : m.size - address = (bytes ++ [0]).length +
        (m.size - address - (bytes ++ [0]).length) := by omega
    rw [hsize, ← List.range'_append, List.map_append, ← hbytes, List.append_assoc]
    exact ⟨_, rfl⟩
  rw [string, hbehind]
  clear h hin hbytes hbehind
  induction bytes with
  | nil => rfl
  | cons b bytes ih => rw [List.cons_append, List.takeWhile_cons, List.takeWhile_cons, ih]

end Parts

end SplitEditor.Wasm.Memory
