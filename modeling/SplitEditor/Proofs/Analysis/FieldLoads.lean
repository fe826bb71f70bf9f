import SplitEditor.Proofs.Analysis.Layout
import SplitEditor.Proofs.Wasm.Steps

/-! Code that takes records apart: a field is one load. The value of a result depends on its tag,
and an entry of a list on its count; a count of all ones is a list without an end. -/

namespace SplitEditor.Layout

open Wasm Program

def fieldCode (k : Nat) : List Code := [.plain (.localGet 0), .plain (.load .word (4 * k))]

def okCode : List Code :=
  [.plain (.localGet 0), .plain (.load .word 0), .cond 0 1 (fieldCode 1) [.plain (.const (.i32 0))]]

def errorCode : List Code :=
  [.plain (.localGet 0), .plain (.load .word 0), .cond 0 1 [.plain (.const (.i32 0))] (fieldCode 1)]

def endlessCode : List Code :=
  [.plain (.localGet 0), .plain (.load .word 4), .plain .ret]

def boundedCode : List Code :=
  [.cond 0 0 [.plain (.const (.i32 0)), .plain .ret] [],
    .plain (.localGet 0), .plain (.localGet 1), .plain (.const (.i32 2)),
    .plain (.numeric (.intBinary .w32 .shl)), .plain (.numeric (.intBinary .w32 .add)),
    .plain (.load .word 4)]

def entryCode : List Code :=
  [.plain (.localGet 0), .plain (.load .word 0), .plain (.localSet 2),
    .plain (.localGet 2), .plain (.const (.i32 0xFFFFFFFF)),
    .plain (.numeric (.intCompare .w32 .eq)), .cond 0 0 endlessCode [],
    .plain (.localGet 1), .plain (.localGet 2), .plain (.numeric (.intCompare .w32 .geU))] ++
    boundedCode

def function (params : Nat) (locals : List ValueType) (code : List Code) : Function :=
  ⟨⟨List.replicate params .i32, [.i32]⟩, locals, code⟩

def accessors : Program where
  types := []
  functions := #[function 1 [] (fieldCode 0), function 1 [] (fieldCode 1),
    function 1 [] (fieldCode 2), function 1 [] (fieldCode 3), function 1 [] okCode,
    function 1 [] errorCode, function 2 [.i32] entryCode]

def index : Entry → Nat
  | .resultOk => 4
  | .resultError => 5
  | .spansGet => 6
  | e => (field? e).getD 7

section Run
variable {p : Program} {m : Memory} {args : List UInt32}

theorem returns_of_run {f : Function} {k steps cost : Nat} {w : UInt32}
    (hf : p.functions[k]? = some f) (hsteps : steps ≤ cost)
    (hrun : ∀ fuel store, store.memory = m → p.run (fuel + steps)
      (callee f (args.reverse.map .i32)) [] store = (some [.i32 w], { store with fuel })) :
    Returns (p.body k) args cost m w := by
  intro store hm hfuel
  obtain ⟨fuel, hbudget⟩ : ∃ fuel, store.fuel = fuel + steps :=
    ⟨store.fuel - steps, by omega⟩
  refine ⟨fuel, ?_, by omega⟩
  simp only [body, hf, hbudget, hrun fuel store hm]

theorem run_word {fuel offset : Nat} {base w : UInt32} {rest : List Code}
    {stack locals : List Value} {labels : List Label} {store : Store} (hm : store.memory = m)
    (hw : Word m (base.toNat + offset) w) :
    p.run (fuel + 1) ⟨.plain (.load .word offset) :: rest, .i32 base :: stack, labels, locals, 1⟩
      [] store = p.run fuel ⟨rest, .i32 w :: stack, labels, locals, 1⟩ [] store :=
  run_load (hm ▸ hw.load) (Access.value_word w)

theorem run_field {k fuel : Nat} {h w : UInt32} {stack : List Value} {labels : List Label}
    {store : Store} (hm : store.memory = m) (hw : Word m (h.toNat + 4 * k) w) :
    p.run (fuel + 2) ⟨fieldCode k, stack, labels, [.i32 h], 1⟩ [] store =
      p.run fuel ⟨[], .i32 w :: stack, labels, [.i32 h], 1⟩ [] store := by
  rw [fieldCode, run_localGet rfl, run_word hm hw]

theorem returns_field {k cost : Nat} {h w : UInt32}
    (hf : p.functions[k]? = some (function 1 [] (fieldCode k))) (hcost : 3 ≤ cost)
    (hw : Word m (h.toNat + 4 * k) w) : Returns (p.body k) [h] cost m w := by
  refine returns_of_run hf hcost fun fuel store hm => ?_
  show p.run (fuel + 1 + 2) ⟨fieldCode k, [], [], [.i32 h], 1⟩ [] store = _
  rw [run_field hm hw, run_leave]
  rfl

theorem returns_ok {k cost : Nat} {h tag w : UInt32}
    (hf : p.functions[k]? = some (function 1 [] okCode)) (hcost : 7 ≤ cost) (htag : tag ≠ 0)
    (hrecord : Record m h [tag, w]) : Returns (p.body k) [h] cost m w := by
  refine returns_of_run hf hcost fun fuel store hm => ?_
  show p.run (fuel + 7) ⟨okCode, [], [], [.i32 h], 1⟩ [] store = _
  rw [okCode, run_localGet rfl, run_word hm (hrecord 0 tag rfl),
    run_cond_nonzero htag, run_field hm (hrecord 1 w rfl), run_end, run_leave]
  rfl

theorem returns_error {k cost : Nat} {h w : UInt32}
    (hf : p.functions[k]? = some (function 1 [] errorCode)) (hcost : 7 ≤ cost)
    (hrecord : Record m h [0, w]) : Returns (p.body k) [h] cost m w := by
  refine returns_of_run hf hcost fun fuel store hm => ?_
  show p.run (fuel + 7) ⟨errorCode, [], [], [.i32 h], 1⟩ [] store = _
  rw [errorCode, run_localGet rfl, run_word hm (hrecord 0 0 rfl),
    run_cond_zero, run_field hm (hrecord 1 w rfl), run_end, run_leave]
  rfl

theorem run_entry_count {fuel : Nat} {h count k : UInt32} {store : Store}
    (hm : store.memory = m) (hcount : Word m h.toNat count) (hend : count ≠ 0xFFFFFFFF) :
    p.run (fuel + 11) ⟨entryCode, [], [], [.i32 h, .i32 k, .i32 0], 1⟩ [] store =
      p.run fuel ⟨boundedCode, [Value.ofBool (count.toNat ≤ k.toNat)], [],
        [.i32 h, .i32 k, .i32 count], 1⟩ [] store := by
  have hne : (count.toNat == (0xFFFFFFFF : UInt32).toNat) = false :=
    beq_false_of_ne fun heq => hend (UInt32.toNat.inj heq)
  have heq : (Numeric.intCompare .w32 .eq).eval [.i32 0xFFFFFFFF, .i32 count] =
      some [Value.ofBool (count.toNat == (0xFFFFFFFF : UInt32).toNat)] := rfl
  have hge : (Numeric.intCompare .w32 .geU).eval [.i32 count, .i32 k] =
      some [Value.ofBool (count.toNat ≤ k.toNat)] := rfl
  rw [hne] at heq
  simp only [entryCode, List.cons_append, List.nil_append]
  rw [run_localGet rfl, run_word hm hcount, run_localSet, run_localGet rfl,
    run_const, run_numeric heq]
  show p.run (fuel + 5) ⟨.cond 0 0 endlessCode [] :: _, [.i32 0], [], _, 1⟩ [] store = _
  rw [run_cond_zero, run_end]
  show p.run (fuel + 3) ⟨.plain (.localGet 1) :: _, [], [], [.i32 h, .i32 k, .i32 count], 1⟩ []
    store = _
  rw [run_localGet rfl, run_localGet rfl, run_numeric hge]

theorem run_bounded_past {fuel : Nat} {h k count : UInt32} {store : Store}
    (hpast : count.toNat ≤ k.toNat) :
    p.run (fuel + 3) ⟨boundedCode, [Value.ofBool (count.toNat ≤ k.toNat)], [],
      [.i32 h, .i32 k, .i32 count], 1⟩ [] store = (some [.i32 0], { store with fuel }) := by
  rw [decide_eq_true hpast, boundedCode]
  show p.run (fuel + 3) ⟨.cond 0 0 _ _ :: _, [.i32 1], [], _, 1⟩ [] store = _
  rw [run_cond_nonzero (by decide), run_const, run_ret]
  rfl

theorem toNat_entry {h k : UInt32} (hk : h.toNat + 4 * (k.toNat + 1) + 4 ≤ UInt32.size) :
    (UInt32.ofNat ((h.toNat + (UInt32.ofNat ((k.toNat <<< 2) % 0x100000000)).toNat) %
      0x100000000)).toNat + 4 = h.toNat + 4 * (k.toNat + 1) := by
  have hsize : UInt32.size = 4294967296 := rfl
  have hshift : k.toNat <<< 2 = 4 * k.toNat := by rw [Nat.shiftLeft_eq, Nat.mul_comm]
  rw [hshift, UInt32.toNat_ofNat', UInt32.toNat_ofNat']
  omega

theorem run_bounded_within {fuel : Nat} {h k count w : UInt32} {store : Store}
    (hm : store.memory = m) (hin : k.toNat < count.toNat)
    (hw : Word m (h.toNat + 4 * (k.toNat + 1)) w) :
    p.run (fuel + 9) ⟨boundedCode, [Value.ofBool (count.toNat ≤ k.toNat)], [],
      [.i32 h, .i32 k, .i32 count], 1⟩ [] store = (some [.i32 w], { store with fuel }) := by
  have hshl : (Numeric.intBinary .w32 .shl).eval [.i32 2, .i32 k, .i32 h] =
      some [.i32 (UInt32.ofNat ((k.toNat <<< 2) % 0x100000000)), .i32 h] := rfl
  have hadd (n : UInt32) : (Numeric.intBinary .w32 .add).eval [.i32 n, .i32 h] =
      some [.i32 (UInt32.ofNat ((h.toNat + n.toNat) % 0x100000000))] := rfl
  rw [← toNat_entry hw.addressable] at hw
  rw [decide_eq_false (Nat.not_le_of_lt hin), boundedCode]
  show p.run (fuel + 9) ⟨.cond 0 0 _ _ :: _, [.i32 0], [], _, 1⟩ [] store = _
  rw [run_cond_zero, run_end]
  show p.run (fuel + 7) ⟨.plain (.localGet 0) :: _, [], [], [.i32 h, .i32 k, .i32 count], 1⟩ []
    store = _
  rw [run_localGet rfl, run_localGet rfl, run_const, run_numeric hshl, run_numeric (hadd _),
    run_word hm hw, run_leave]
  rfl

theorem returns_entry {j cost : Nat} {h : UInt32} {handles : List UInt32} {k : Nat}
    (hf : p.functions[j]? = some (function 2 [.i32] entryCode)) (hcost : 20 ≤ cost)
    (hshort : handles.length < 0x80000000)
    (hrecord : Record m h (UInt32.ofNat handles.length :: handles)) (hk : k < 0x80000000) :
    Returns (p.body j) [h, UInt32.ofNat k] cost m (handles.getD k 0) := by
  have hcount : (UInt32.ofNat handles.length).toNat = handles.length :=
    UInt32.toNat_ofNat_of_lt' (Nat.lt_trans hshort (by decide))
  have hindex : (UInt32.ofNat k).toNat = k :=
    UInt32.toNat_ofNat_of_lt' (Nat.lt_trans hk (by decide))
  -- A count of all ones would be read as no count at all.
  have hend : UInt32.ofNat handles.length ≠ 0xFFFFFFFF := by
    intro heq
    rw [heq] at hcount
    rw [← hcount] at hshort
    exact absurd hshort (by decide)
  have hword : Word m h.toNat (UInt32.ofNat handles.length) := hrecord 0 _ rfl
  rw [List.getD_eq_getElem?_getD]
  by_cases hin : k < handles.length
  · have hentry : (UInt32.ofNat handles.length :: handles)[k + 1]? = some handles[k] := by
      rw [List.getElem?_cons_succ, List.getElem?_eq_getElem hin]
    have hw := hrecord (k + 1) _ hentry
    rw [List.getElem?_eq_getElem hin, Option.getD_some]
    refine returns_of_run hf hcost fun fuel store hm => ?_
    show p.run (fuel + 9 + 11) ⟨entryCode, [], [], [.i32 h, .i32 (UInt32.ofNat k), .i32 0], 1⟩ []
      store = _
    rw [run_entry_count hm hword hend]
    exact run_bounded_within hm (by rwa [hindex, hcount]) (by rwa [hindex])
  · have hpast : handles.length ≤ k := Nat.le_of_not_lt hin
    rw [List.getElem?_eq_none hpast, Option.getD_none]
    refine returns_of_run hf (Nat.le_trans (by decide : 14 ≤ 20) hcost) fun fuel store hm => ?_
    show p.run (fuel + 3 + 11) ⟨entryCode, [], [], [.i32 h, .i32 (UInt32.ofNat k), .i32 0], 1⟩ []
      store = _
    rw [run_entry_count hm hword hend]
    exact run_bounded_past (by rwa [hindex, hcount])

end Run

theorem loads_accessors : Loads (fun e => accessors.body (index e)) 20 where
  field := by
    intro e k m h w he hw
    cases e <;> cases he <;> exact returns_field rfl (by decide) hw
  ok htag hrecord := returns_ok rfl (by decide) htag hrecord
  error hrecord := returns_error rfl (by decide) hrecord
  entry hshort hrecord hk := returns_entry rfl (by decide) hshort hrecord hk

end SplitEditor.Layout
