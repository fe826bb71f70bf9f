import SplitEditor.Wasm.Machine

/-! Single steps of a run, one lemma per instruction. Each takes one unit of fuel. -/

namespace SplitEditor.Wasm

def Access.word : Access := ⟨.i32, 4, false⟩

theorem Access.value_word (w : UInt32) : Access.word.value w.toNat = .i32 w :=
  congrArg Value.i32 UInt32.ofNat_toNat

namespace Program

variable {p : Program} {fuel : Nat} {rest : List Code} {stack : List Value} {labels : List Label}
  {locals : List Value} {results : Nat} {callers : List Frame} {store : Store}

theorem run_of_step {f f' : Frame} {callers' : List Frame} {store' : Store}
    (h : p.step f callers store = .running f' callers' store') :
    p.run (fuel + 1) f callers store = p.run fuel f' callers' store' := by
  rw [run, h]

theorem run_plain {f f' : Frame} {op : Op} {store' : Store}
    (hstep : p.step f callers store = match Frame.plain { f with code := rest } op store with
      | some (f, store) => .running f callers store
      | none => .trapped store)
    (h : Frame.plain { f with code := rest } op store = some (f', store')) :
    p.run (fuel + 1) f callers store = p.run fuel f' callers store' := by
  rw [h] at hstep
  exact run_of_step hstep

theorem run_localGet {i : Nat} {v : Value} (h : locals[i]? = some v) :
    p.run (fuel + 1) ⟨.plain (.localGet i) :: rest, stack, labels, locals, results⟩ callers store =
      p.run fuel ⟨rest, v :: stack, labels, locals, results⟩ callers store := by
  have hplain : Frame.plain ⟨rest, stack, labels, locals, results⟩ (.localGet i) store =
      locals[i]?.bind fun v => some (⟨rest, v :: stack, labels, locals, results⟩, store) := rfl
  rw [h, Option.bind_some] at hplain
  exact run_plain rfl hplain

theorem run_localSet {i : Nat} {v : Value} :
    p.run (fuel + 1) ⟨.plain (.localSet i) :: rest, v :: stack, labels, locals, results⟩ callers
      store = p.run fuel ⟨rest, stack, labels, locals.set i v, results⟩ callers store :=
  run_of_step rfl

theorem run_const {v : Value} :
    p.run (fuel + 1) ⟨.plain (.const v) :: rest, stack, labels, locals, results⟩ callers store =
      p.run fuel ⟨rest, v :: stack, labels, locals, results⟩ callers store :=
  run_of_step rfl

theorem run_load {a : Access} {base w : UInt32} {offset n : Nat}
    (h : store.memory.load (base.toNat + offset) a.bytes = some n) (hw : a.value n = .i32 w) :
    p.run (fuel + 1) ⟨.plain (.load a offset) :: rest, .i32 base :: stack, labels, locals,
      results⟩ callers store =
      p.run fuel ⟨rest, .i32 w :: stack, labels, locals, results⟩ callers store := by
  have hplain : Frame.plain ⟨rest, .i32 base :: stack, labels, locals, results⟩
      (.load a offset) store =
        (store.memory.load (base.toNat + offset) a.bytes).bind fun n =>
          some (⟨rest, a.value n :: stack, labels, locals, results⟩, store) := rfl
  rw [h, Option.bind_some, hw] at hplain
  exact run_plain rfl hplain

theorem run_numeric {op : Numeric} {left : List Value} (h : op.eval stack = some left) :
    p.run (fuel + 1) ⟨.plain (.numeric op) :: rest, stack, labels, locals, results⟩ callers store =
      p.run fuel ⟨rest, left, labels, locals, results⟩ callers store := by
  have hplain : Frame.plain ⟨rest, stack, labels, locals, results⟩ (.numeric op) store =
      (op.eval stack).bind fun left => some (⟨rest, left, labels, locals, results⟩, store) := rfl
  rw [h, Option.bind_some] at hplain
  exact run_plain rfl hplain

theorem run_cond_zero {params arity : Nat} {yes no : List Code} :
    p.run (fuel + 1) ⟨.cond params arity yes no :: rest, .i32 0 :: stack, labels, locals, results⟩
      callers store = p.run fuel ⟨no, stack.take params,
        ⟨arity, rest, rest, stack.drop params⟩ :: labels, locals, results⟩ callers store := rfl

theorem run_cond_nonzero {params arity : Nat} {yes no : List Code} {c : UInt32} (h : c ≠ 0) :
    p.run (fuel + 1) ⟨.cond params arity yes no :: rest, .i32 c :: stack, labels, locals, results⟩
      callers store = p.run fuel ⟨yes, stack.take params,
        ⟨arity, rest, rest, stack.drop params⟩ :: labels, locals, results⟩ callers store := by
  refine run_of_step ?_
  show Outcome.running (Frame.enter ⟨_, stack, labels, locals, results⟩ params arity
    (if c = 0 then no else yes) rest rest) callers store = _
  rw [if_neg h]
  rfl

theorem run_end {label : Label} :
    p.run (fuel + 1) ⟨[], stack, label :: labels, locals, results⟩ callers store =
      p.run fuel ⟨label.rest, stack ++ label.stack, labels, locals, results⟩ callers store := rfl

theorem run_leave : p.run (fuel + 1) ⟨[], stack, [], locals, results⟩ [] store =
    (some (stack.take results), { store with fuel }) := rfl

theorem run_ret :
    p.run (fuel + 1) ⟨.plain .ret :: rest, stack, labels, locals, results⟩ [] store =
      (some (stack.take results), { store with fuel }) := rfl

end Program

end SplitEditor.Wasm
