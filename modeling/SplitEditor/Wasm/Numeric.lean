import SplitEditor.Wasm.Type

/-! Values of a running module and the instructions that only compute. Integers of both widths
share their operations: a width gives the modulus. Floats are kept as their bits. -/

namespace SplitEditor.Wasm

inductive Value where
  | i32 (n : UInt32)
  | i64 (n : UInt64)
  | f32 (bits : UInt32)
  | f64 (bits : UInt64)
  | ref (index : Option Nat)
  deriving Repr, DecidableEq

def ValueType.zero : ValueType → Value
  | i32 => .i32 0
  | i64 => .i64 0
  | f32 => .f32 0
  | f64 => .f64 0
  | v128 | ref _ => .ref none

inductive Width where
  | w32
  | w64
  deriving Repr, DecidableEq

namespace Width

def bits : Width → Nat
  | w32 => 32
  | w64 => 64

def int : Width → ValueType
  | w32 => .i32
  | w64 => .i64

def float : Width → ValueType
  | w32 => .f32
  | w64 => .f64

def modulus : Width → Nat
  | w32 => 0x100000000
  | w64 => 0x10000000000000000

def half : Width → Nat
  | w32 => 0x80000000
  | w64 => 0x8000000000000000

def signed (w : Width) (n : Nat) : Int := if n < w.half then n else n - w.modulus

def wrap (w : Width) (n : Int) : Nat := (n % w.modulus).toNat

def value (w : Width) (n : Nat) : Value :=
  match w with
  | w32 => .i32 (UInt32.ofNat n)
  | w64 => .i64 (UInt64.ofNat n)

def nat? : Width → Value → Option Nat
  | w32, .i32 n => some n.toNat
  | w64, .i64 n => some n.toNat
  | _, _ => none

def ofFloat (w : Width) (x : Float) : Value :=
  match w with
  | w32 => .f32 x.toFloat32.toBits
  | w64 => .f64 x.toBits

def float? : Width → Value → Option Float
  | w32, .f32 n => some (Float32.ofBits n).toFloat
  | w64, .f64 n => some (Float.ofBits n)
  | _, _ => none

end Width

def Value.ofBool (b : Bool) : Value := .i32 (if b then 1 else 0)

inductive IntUnary where
  | clz
  | ctz
  | popcnt
  | extendFrom (bits : Nat)
  deriving Repr, DecidableEq

inductive IntBinary where
  | add
  | sub
  | mul
  | divS
  | divU
  | remS
  | remU
  | and
  | or
  | xor
  | shl
  | shrS
  | shrU
  | rotl
  | rotr
  deriving Repr, DecidableEq

inductive IntCompare where
  | eq
  | ne
  | ltS
  | ltU
  | gtS
  | gtU
  | leS
  | leU
  | geS
  | geU
  deriving Repr, DecidableEq

inductive FloatUnary where
  | abs
  | neg
  | ceil
  | floor
  | trunc
  | nearest
  | sqrt
  deriving Repr, DecidableEq

inductive FloatBinary where
  | add
  | sub
  | mul
  | div
  | min
  | max
  | copysign
  deriving Repr, DecidableEq

inductive FloatCompare where
  | eq
  | ne
  | lt
  | gt
  | le
  | ge
  deriving Repr, DecidableEq

inductive Numeric where
  | eqz (w : Width)
  | intCompare (w : Width) (op : IntCompare)
  | intUnary (w : Width) (op : IntUnary)
  | intBinary (w : Width) (op : IntBinary)
  | floatCompare (w : Width) (op : FloatCompare)
  | floatUnary (w : Width) (op : FloatUnary)
  | floatBinary (w : Width) (op : FloatBinary)
  | narrow
  | widen (signed : Bool)
  /-- From a float to an integer. A number out of range traps, or becomes the nearest. -/
  | truncate (dest source : Width) (signed saturating : Bool)
  | convert (dest source : Width) (signed : Bool)
  | demote
  | promote
  | floatBits (w : Width)
  | floatOfBits (w : Width)
  deriving Repr, DecidableEq

namespace IntUnary

def trailingZeros : Nat → Nat → Nat
  | 0, _ => 0
  | bits + 1, n => if n % 2 = 1 then 0 else trailingZeros bits (n / 2) + 1

def ones : Nat → Nat → Nat
  | 0, _ => 0
  | bits + 1, n => n % 2 + ones bits (n / 2)

def eval (w : Width) (op : IntUnary) (n : Nat) : Nat :=
  match op with
  | clz => if n = 0 then w.bits else w.bits - 1 - n.log2
  | ctz => trailingZeros w.bits n
  | popcnt => ones w.bits n
  | extendFrom bits =>
    let count : Nat := 1 <<< bits
    let low := n % count
    if low < count / 2 then low else w.wrap (low - count)

end IntUnary

namespace IntBinary

def all : List IntBinary :=
  [add, sub, mul, divS, divU, remS, remU, and, or, xor, shl, shrS, shrU, rotl, rotr]

/-- Nothing for a division by zero or a quotient that is too large. -/
def eval (w : Width) (op : IntBinary) (a b : Nat) : Option Nat :=
  let modulus := w.modulus
  let shift := b % w.bits
  match op with
  | add => some ((a + b) % modulus)
  | sub => some ((a + modulus - b) % modulus)
  | mul => some (a * b % modulus)
  | divS =>
    let q := (w.signed a).tdiv (w.signed b)
    if b = 0 ∨ q = w.half then none else some (w.wrap q)
  | divU => if b = 0 then none else some (a / b)
  | remS => if b = 0 then none else some (w.wrap ((w.signed a).tmod (w.signed b)))
  | remU => if b = 0 then none else some (a % b)
  | and => some (a &&& b)
  | or => some (a ||| b)
  | xor => some (a ^^^ b)
  | shl => some ((a <<< shift) % modulus)
  | shrS => some (w.wrap (w.signed a >>> shift))
  | shrU => some (a >>> shift)
  | rotl => some ((a <<< shift ||| a >>> (w.bits - shift)) % modulus)
  | rotr => some ((a >>> shift ||| a <<< (w.bits - shift)) % modulus)

end IntBinary

namespace IntCompare

def all : List IntCompare := [eq, ne, ltS, ltU, gtS, gtU, leS, leU, geS, geU]

def eval (w : Width) (op : IntCompare) (a b : Nat) : Bool :=
  match op with
  | eq => a == b
  | ne => a != b
  | ltS => w.signed a < w.signed b
  | ltU => a < b
  | gtS => w.signed b < w.signed a
  | gtU => b < a
  | leS => w.signed a ≤ w.signed b
  | leU => a ≤ b
  | geS => w.signed b ≤ w.signed a
  | geU => b ≤ a

end IntCompare

namespace FloatUnary

def all : List FloatUnary := [abs, neg, ceil, floor, trunc, nearest, sqrt]

/-- The nearest whole number, the even one of two. -/
def roundEven (x : Float) : Float :=
  let low := x.floor
  let d := x - low
  if d < 0.5 then (if x < 0.0 && low == 0.0 then -0.0 else low)
  else if 0.5 < d then (if x < 0.0 && low + 1.0 == 0.0 then -0.0 else low + 1.0)
  else
    let half := low / 2.0
    if half.floor == half then low else if x < 0.0 && low + 1.0 == 0.0 then -0.0 else low + 1.0

def eval (op : FloatUnary) (x : Float) : Float :=
  match op with
  | abs => x.abs
  | neg => -x
  | ceil => x.ceil
  | floor => x.floor
  | trunc => if x < 0.0 then x.ceil else x.floor
  | nearest => if x.isNaN || x.isInf || x == 0.0 then x else roundEven x
  | sqrt => x.sqrt

end FloatUnary

namespace FloatBinary

def all : List FloatBinary := [add, sub, mul, div, min, max, copysign]

def isNegative (x : Float) : Bool := x.toBits >>> 63 != 0

def eval (op : FloatBinary) (x y : Float) : Float :=
  match op with
  | add => x + y
  | sub => x - y
  | mul => x * y
  | div => x / y
  | min =>
    if x.isNaN || y.isNaN then x + y
    else if x == y then (if isNegative x then x else y)
    else if x < y then x else y
  | max =>
    if x.isNaN || y.isNaN then x + y
    else if x == y then (if isNegative x then y else x)
    else if x < y then y else x
  | copysign => if isNegative x == isNegative y then x else -x

end FloatBinary

namespace FloatCompare

def all : List FloatCompare := [eq, ne, lt, gt, le, ge]

def eval (op : FloatCompare) (x y : Float) : Bool :=
  match op with
  | eq => x == y
  | ne => x != y
  | lt => x < y
  | gt => y < x
  | le => x ≤ y
  | ge => y ≤ x

end FloatCompare

/-- The whole number a finite float has when its fraction is cut off. -/
def truncated (x : Float) : Int :=
  let bits := x.toBits.toNat
  let hidden := 0x10000000000000
  let exponent := bits / hidden % 2048
  let mantissa := bits % hidden + hidden
  let n : Nat :=
    if exponent < 1023 then 0
    else if exponent ≤ 1075 then mantissa >>> (1075 - exponent)
    else mantissa <<< (exponent - 1075)
  if bits < 0x8000000000000000 then n else -n

namespace Numeric

def bounds (w : Width) (signed : Bool) : Int × Int :=
  if signed then (-w.half, w.half - 1) else (0, w.modulus - 1)

def truncateTo (w : Width) (signed saturating : Bool) (x : Float) : Option Nat :=
  let (least, greatest) := bounds w signed
  if x.isNaN then (if saturating then some 0 else none)
  else if x.isInf then
    if saturating then some (w.wrap (if x < 0.0 then least else greatest)) else none
  else
    let n := truncated x
    if least ≤ n ∧ n ≤ greatest then some (w.wrap n)
    else if saturating then some (w.wrap (if n < least then least else greatest))
    else none

def floatOf (dest : Width) (n : Int) : Value :=
  match dest with
  | .w32 => .f32 (Float32.ofInt n).toBits
  | .w64 => .f64 (Float.ofInt n).toBits

def type : Numeric → FuncType
  | eqz w => ⟨[w.int], [.i32]⟩
  | intCompare w _ => ⟨[w.int, w.int], [.i32]⟩
  | intUnary w _ => ⟨[w.int], [w.int]⟩
  | intBinary w _ => ⟨[w.int, w.int], [w.int]⟩
  | floatCompare w _ => ⟨[w.float, w.float], [.i32]⟩
  | floatUnary w _ => ⟨[w.float], [w.float]⟩
  | floatBinary w _ => ⟨[w.float, w.float], [w.float]⟩
  | narrow => ⟨[.i64], [.i32]⟩
  | widen _ => ⟨[.i32], [.i64]⟩
  | truncate dest source _ _ => ⟨[source.float], [dest.int]⟩
  | convert dest source _ => ⟨[source.int], [dest.float]⟩
  | demote => ⟨[.f64], [.f32]⟩
  | promote => ⟨[.f32], [.f64]⟩
  | floatBits w => ⟨[w.float], [w.int]⟩
  | floatOfBits w => ⟨[w.int], [w.float]⟩

/-- Applies an operation to the operand stack, whose last operand comes first. -/
def eval (op : Numeric) (stack : List Value) : Option (List Value) :=
  match op, stack with
  | eqz w, a :: rest => do return Value.ofBool ((← w.nat? a) == 0) :: rest
  | intCompare w op, b :: a :: rest => do
    return Value.ofBool (op.eval w (← w.nat? a) (← w.nat? b)) :: rest
  | intUnary w op, a :: rest => do return w.value (op.eval w (← w.nat? a)) :: rest
  | intBinary w op, b :: a :: rest => do
    return w.value (← op.eval w (← w.nat? a) (← w.nat? b)) :: rest
  | floatCompare w op, b :: a :: rest => do
    return Value.ofBool (op.eval (← w.float? a) (← w.float? b)) :: rest
  | floatUnary w op, a :: rest => do return w.ofFloat (op.eval (← w.float? a)) :: rest
  | floatBinary w op, b :: a :: rest => do
    return w.ofFloat (op.eval (← w.float? a) (← w.float? b)) :: rest
  | narrow, .i64 n :: rest => some (.i32 n.toUInt32 :: rest)
  | widen signed, .i32 n :: rest =>
    let wide := if signed then Width.w64.wrap (Width.w32.signed n.toNat) else n.toNat
    some (Width.w64.value wide :: rest)
  | truncate dest source signed saturating, a :: rest => do
    return dest.value (← truncateTo dest signed saturating (← source.float? a)) :: rest
  | convert dest source signed, a :: rest => do
    let n ← source.nat? a
    return floatOf dest (if signed then source.signed n else n) :: rest
  | demote, .f64 n :: rest => some (.f32 (Float.ofBits n).toFloat32.toBits :: rest)
  | promote, .f32 n :: rest => some (.f64 (Float32.ofBits n).toFloat.toBits :: rest)
  | floatBits .w32, .f32 n :: rest => some (.i32 n :: rest)
  | floatBits .w64, .f64 n :: rest => some (.i64 n :: rest)
  | floatOfBits .w32, .i32 n :: rest => some (.f32 n :: rest)
  | floatOfBits .w64, .i64 n :: rest => some (.f64 n :: rest)
  | _, _ => none

/-- The operation of a code between 0x45 and 0xC4. -/
def ofCode? (code : Nat) : Option Numeric :=
  let nth {α : Type} (first : Nat) (ops : List α) (op : α → Numeric) : Option Numeric :=
    if first ≤ code then (ops[code - first]?).map op else none
  let truncations (saturating : Bool) : List Numeric :=
    [truncate .w32 .w32 true saturating, truncate .w32 .w32 false saturating,
      truncate .w32 .w64 true saturating, truncate .w32 .w64 false saturating]
  let longTruncations (saturating : Bool) : List Numeric :=
    [truncate .w64 .w32 true saturating, truncate .w64 .w32 false saturating,
      truncate .w64 .w64 true saturating, truncate .w64 .w64 false saturating]
  let converts (dest : Width) : List Numeric :=
    [convert dest .w32 true, convert dest .w32 false, convert dest .w64 true, convert dest .w64 false]
  nth 0x45 [eqz .w32] id <|> nth 0x46 IntCompare.all (intCompare .w32) <|>
  nth 0x50 [eqz .w64] id <|> nth 0x51 IntCompare.all (intCompare .w64) <|>
  nth 0x5B FloatCompare.all (floatCompare .w32) <|>
  nth 0x61 FloatCompare.all (floatCompare .w64) <|>
  nth 0x67 [.clz, .ctz, .popcnt] (intUnary .w32) <|> nth 0x6A IntBinary.all (intBinary .w32) <|>
  nth 0x79 [.clz, .ctz, .popcnt] (intUnary .w64) <|> nth 0x7C IntBinary.all (intBinary .w64) <|>
  nth 0x8B FloatUnary.all (floatUnary .w32) <|> nth 0x92 FloatBinary.all (floatBinary .w32) <|>
  nth 0x99 FloatUnary.all (floatUnary .w64) <|> nth 0xA0 FloatBinary.all (floatBinary .w64) <|>
  nth 0xA7 ([narrow] ++ truncations false ++ [widen true, widen false] ++ longTruncations false ++
    converts .w32 ++ [demote] ++ converts .w64 ++
    [promote, floatBits .w32, floatBits .w64, floatOfBits .w32, floatOfBits .w64]) id <|>
  nth 0xC0 [.extendFrom 8, .extendFrom 16] (intUnary .w32) <|>
  nth 0xC2 [.extendFrom 8, .extendFrom 16, .extendFrom 32] (intUnary .w64)

def saturating? (code : Nat) : Option Numeric :=
  if code < 8 then
    some (truncate (if code < 4 then .w32 else .w64) (if code % 4 < 2 then .w32 else .w64)
      (code % 2 == 0) true)
  else none

end Numeric

end SplitEditor.Wasm
