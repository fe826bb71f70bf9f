import SplitEditor.Proofs.Text.Locality

/-! Units and bytes that are not those of a text. Every surrogate without its other half comes back
as U+FFFD and no other unit changes; bytes come back unchanged exactly if they are UTF-8. -/

namespace SplitEditor

namespace Utf16

/-- A high surrogate with no low one behind it, or a low one with no high one before it. -/
def isUnpaired (units : List UInt16) (i : Nat) : Bool :=
  units[i]?.any fun u => isHigh u && !units[i + 1]?.any isLow ||
    isLow u && !(decide (0 < i) && units[i - 1]?.any isHigh)

def repaired (units : List UInt16) : List UInt16 :=
  units.mapIdx fun i u => if isUnpaired units i then 0xFFFD else u

theorem isUnpaired_append (front back : List UInt16) (u : UInt16) :
    isUnpaired (front ++ u :: back) front.length =
      (isHigh u && !back.head?.any isLow || isLow u && !front.getLast?.any isHigh) := by
  have hat : (front ++ u :: back)[front.length]? = some u := by simp
  have hbehind : (front ++ u :: back)[front.length + 1]? = back.head? := by
    rw [List.getElem?_append_right (Nat.le_succ _), List.head?_eq_getElem?]
    simp
  have hbefore : (decide (0 < front.length) && (front ++ u :: back)[front.length - 1]?.any isHigh) =
      front.getLast?.any isHigh := by
    cases front with
    | nil => rfl
    | cons v front =>
      have hlast : (v :: front).length - 1 < (v :: front).length := Nat.lt_succ_self front.length
      have hpos : decide (0 < (v :: front).length) = true := decide_eq_true (Nat.succ_pos _)
      rw [List.getElem?_append_left hlast, ← List.getLast?_eq_getElem?, hpos, Bool.true_and]
  simp only [isUnpaired, hat, Option.any_some, hbehind, hbefore]

theorem not_isLow_of_isHigh {u : UInt16} (h : isHigh u = true) : isLow u = false := by
  rw [isHigh_eq_true] at h
  rw [Bool.eq_false_iff, ne_eq, isLow_eq_true]
  omega

theorem not_isHigh_of_isLow {u : UInt16} (h : isLow u = true) : isHigh u = false := by
  rw [isLow_eq_true] at h
  rw [Bool.eq_false_iff, ne_eq, isHigh_eq_true]
  omega

theorem split_join {high low : UInt16} (hh : isHigh high = true) (hl : isLow low = true) :
    split (join high low) = [high, low] := by
  rw [isHigh_eq_true] at hh
  rw [isLow_eq_true] at hl
  have hge : 0x10000 ≤ join high low := Nat.le_add_right _ _
  have hhigh : 0xD800 + (join high low - 0x10000) / 1024 = high.toNat := by
    unfold join
    omega
  have hlow : 0xDC00 + (join high low - 0x10000) % 1024 = low.toNat := by
    unfold join
    omega
  rw [split_of_ge hge, hhigh, hlow, UInt16.ofNat_toNat, UInt16.ofNat_toNat]

theorem split_lone (u : UInt16) :
    split (lone u) = [if isHigh u || isLow u then 0xFFFD else u] := by
  have hlt : lone u < 0x10000 := by
    unfold lone
    split
    · decide
    · exact u.toNat_lt
  rw [split_of_lt hlt, lone]
  split
  · rfl
  · rw [UInt16.ofNat_toNat]

def repairedAfter (front units : List UInt16) : List UInt16 :=
  units.mapIdx fun i u => if isUnpaired (front ++ units) (front.length + i) then 0xFFFD else u

theorem repairedAfter_nil (units : List UInt16) : repairedAfter [] units = repaired units := by
  simp [repairedAfter, repaired]

theorem repairedAfter_cons (front units : List UInt16) (u : UInt16) :
    repairedAfter front (u :: units) =
      (if isHigh u && !units.head?.any isLow || isLow u && !front.getLast?.any isHigh then 0xFFFD
        else u) :: repairedAfter (front ++ [u]) units := by
  rw [repairedAfter, List.mapIdx_cons, Nat.add_zero, isUnpaired_append]
  refine congrArg (_ :: ·) ?_
  rw [repairedAfter, List.append_assoc, List.singleton_append, List.length_append,
    List.length_singleton]
  simp only [Nat.add_assoc, Nat.add_comm 1]

theorem unpaired_iff_surrogate {high low before behind : Bool} (hbefore : (before && low) = false)
    (hbehind : (high && behind) = false) :
    (high && !behind || low && !before) = (high || low) := by
  revert high low before behind
  decide

theorem repairedAfter_lone {front units : List UInt16} {u : UInt16}
    (hbefore : (front.getLast?.any isHigh && isLow u) = false)
    (hbehind : (isHigh u && units.head?.any isLow) = false) :
    repairedAfter front (u :: units) = split (lone u) ++ repairedAfter (front ++ [u]) units := by
  rw [repairedAfter_cons, unpaired_iff_surrogate hbefore hbehind, split_lone]
  rfl

theorem repairedAfter_pair {front units : List UInt16} {high low : UInt16}
    (hh : isHigh high = true) (hl : isLow low = true) :
    repairedAfter front (high :: low :: units) =
      split (join high low) ++ repairedAfter (front ++ [high] ++ [low]) units := by
  rw [repairedAfter_cons, repairedAfter_cons, split_join hh hl]
  simp [hh, hl, not_isLow_of_isHigh hh, not_isHigh_of_isLow hl]

theorem flatMap_split_points (front units : List UInt16)
    (hcut : (front.getLast?.any isHigh && units.head?.any isLow) = false) :
    (points units).flatMap split = repairedAfter front units := by
  fun_induction points units generalizing front with
  | case1 => rfl
  | case2 u =>
    rw [repairedAfter_lone hcut (Bool.and_false _)]
    rfl
  | case3 u v units hpair ih =>
    obtain ⟨hhigh, hlow⟩ := Bool.and_eq_true_iff.1 hpair
    have hnext : ((front ++ [u] ++ [v]).getLast?.any isHigh && units.head?.any isLow) = false := by
      rw [List.getLast?_concat, Option.any_some, not_isHigh_of_isLow hlow, Bool.false_and]
    rw [List.flatMap_cons, ih _ hnext, repairedAfter_pair hhigh hlow]
  | case4 u v units hpair ih =>
    have hbehind : (isHigh u && (v :: units).head?.any isLow) = false := Bool.eq_false_iff.2 hpair
    have hnext : ((front ++ [u]).getLast?.any isHigh && (v :: units).head?.any isLow) = false := by
      rwa [List.getLast?_concat]
    rw [List.flatMap_cons, ih _ hnext, repairedAfter_lone hcut hbehind]

theorem flatMap_split_points_eq_repaired (units : List UInt16) :
    (points units).flatMap split = repaired units := by
  rw [← repairedAfter_nil]
  exact flatMap_split_points [] units (Bool.false_and _)

theorem not_isUnpaired_of_repaired {units : List UInt16} (h : repaired units = units) (i : Nat) :
    isUnpaired units i = false := by
  cases hu : units[i]? with
  | none => rw [isUnpaired, hu, Option.any_none]
  | some u =>
    have hat : (repaired units)[i]? = some u := h.symm ▸ hu
    rw [repaired, List.getElem?_mapIdx, hu, Option.map_some, Option.some.injEq] at hat
    cases hunpaired : isUnpaired units i with
    | false => rfl
    | true =>
      -- the unit would be U+FFFD, which is no surrogate
      rw [if_pos hunpaired] at hat
      subst hat
      rw [isUnpaired, hu] at hunpaired
      cases hunpaired

theorem points_eq_toNat_decode (units : List UInt16) :
    points units = (decode units).map Char.toNat := by
  have hlone (u : UInt16) : (lone u).isValidChar := by
    unfold lone Nat.isValidChar
    split
    · decide
    · next h =>
      rw [Bool.or_eq_true, isHigh_eq_true, isLow_eq_true] at h
      have hlt := u.toNat_lt
      omega
  have hvalid : ∀ point ∈ points units, point.isValidChar := by
    fun_induction points units with
    | case1 => exact fun _ hmem => nomatch hmem
    | case2 u => exact List.forall_mem_singleton.2 (hlone u)
    | case3 u v units hpair ih =>
      refine List.forall_mem_cons.2 ⟨.inr ?_, ih⟩
      unfold join
      omega
    | case4 u v units hpair ih => exact List.forall_mem_cons.2 ⟨hlone u, ih⟩
  have hback : (points units).map (Char.toNat ∘ Char.ofNat) = (points units).map id :=
    List.map_congr_left fun point hpoint => toNat_ofNat (hvalid point hpoint)
  rw [decode, List.map_map, hback, List.map_id]

theorem encode_decode_eq_repaired (units : List UInt16) :
    encode (decode units) = repaired units := by
  rw [← flatMap_split_points_eq_repaired, points_eq_toNat_decode, List.flatMap_map]
  rfl

-- a high surrogate before a pair, and a low one behind it
example : encode (decode [0xD800, 0xD83D, 0xDE00, 0xDE00]) = [0xFFFD, 0xD83D, 0xDE00, 0xFFFD] := by
  decide

end Utf16

namespace Utf8

theorem isValidUTF8_iff {bytes : List UInt8} :
    bytes.toByteArray.IsValidUTF8 ↔ ∃ text, bytes = encode text := by
  constructor
  · rintro ⟨text, htext⟩
    refine ⟨text, ?_⟩
    rw [← List.toList_data_toByteArray (l := bytes), htext, List.utf8Encode,
      List.toList_data_toByteArray]
    rfl
  · rintro ⟨text, rfl⟩
    exact ⟨text, rfl⟩

theorem encode_decode_iff {bytes : List UInt8} :
    encode (Transcode.decode bytes) = bytes ↔ bytes.toByteArray.IsValidUTF8 := by
  rw [isValidUTF8_iff]
  constructor
  · exact fun h => ⟨_, h.symm⟩
  · rintro ⟨text, rfl⟩
    rw [Transcode.decode_encode]

end Utf8

namespace Transcode

theorem toUtf8_eq (units : List UInt16) : toUtf8 units = Utf8.encode (Utf16.decode units) := by
  rw [toUtf8, Utf16.points_eq_toNat_decode, List.flatMap_map]
  exact congrArg ((Utf16.decode units).flatMap ·) (funext pointBytes_toNat)

/-- Units survive the way through bytes but for unpaired surrogates, of which the way from bytes
makes none; and bytes survive the way through units if and only if they are UTF-8. -/
theorem transcoders_repair (units : List UInt16) (bytes : List UInt8) :
    (toUtf8 units).toByteArray.IsValidUTF8 ∧ ofUtf8 (toUtf8 units) = Utf16.repaired units ∧
      (∀ i, Utf16.isUnpaired (ofUtf8 bytes) i = false) ∧
      Utf16.encode (Utf16.decode (ofUtf8 bytes)) = ofUtf8 bytes ∧
      (ofUtf8 bytes).length ≤ bytes.length ∧
      (toUtf8 (ofUtf8 bytes) = bytes ↔ bytes.toByteArray.IsValidUTF8) := by
  have hkept : Utf16.repaired (ofUtf8 bytes) = ofUtf8 bytes := by
    rw [← Utf16.encode_decode_eq_repaired]
    exact encode_decode bytes
  refine ⟨?_, ?_, Utf16.not_isUnpaired_of_repaired hkept, encode_decode bytes,
    length_ofUtf8_le bytes, ?_⟩
  · exact Utf8.isValidUTF8_iff.2 ⟨_, toUtf8_eq units⟩
  · rw [toUtf8_eq, ofUtf8_encode, Utf16.encode_decode_eq_repaired]
  · rw [toUtf8_eq]
    exact Utf8.encode_decode_iff

end Transcode

end SplitEditor
