import Diamond.Operators.SmallInt
import Mathlib

/-!
# The Int opcodes

Model of the arithmetic, shift, bitwise and comparison handlers of `run_chunk`
(`src/vm_run_chunk.c`) and of the slow paths they share (`src/vm_operators.c`), on Int operands. An
instruction can stand in the bytecode in three forms: the generic one, the `_INT` one that
quickening writes over it and deoptimization takes back, and the `_INT_K` one with a constant right
operand. A `Site` is the instruction's own byte with the VM's quickening counters; `execute` runs it
once.

Branches for Float, String, Array, Time and Instance operands are left out: no pair of Ints takes
them, and for the remaining kinds of `DiamondValue` (nil and Bool) they end in a `TypeError`, or in
nil for `<=>`.
-/

namespace Diamond.Operators
open Bignum

/-- The opcodes with Int operands (C `DiamondOpCode`). -/
inductive OpCode where
  | add | subtract | multiply | divide | modulo
  | addInt | subtractInt | multiplyInt | divideInt
  | addIntK | subtractIntK | multiplyIntK | moduloIntK
  | shiftLeft | shiftRight | bitwiseAnd | bitwiseOr | bitwiseXor
  | less | lessEqual | greater | greaterEqual | equal | notEqual | compare
  | lessInt | lessEqualInt | greaterInt | greaterEqualInt | equalInt | notEqualInt
  | lessIntK | lessEqualIntK | greaterIntK | greaterEqualIntK | equalIntK | notEqualIntK
  deriving DecidableEq, Repr

/-- The failing `DiamondVmStatus` values, with the text in `vm->error` where the handler sets it. -/
inductive VmError where
  | outOfMemory
  | divisionByZero
  | integerOverflow (error : String)
  | typeError
  | invalidBytecode
  deriving DecidableEq, Repr

/-- What an instruction leaves in its destination register, or the status it stops with. -/
abbrev Result := Except VmError DiamondValue

/-- An instruction in the bytecode and the VM's quickening state. -/
structure Site where
  code : OpCode
  quickening : Bool
  observations : ℕ
  threshold : ℕ
  quickenedSites : ℕ
  deoptimizedSites : ℕ
  deriving DecidableEq, Repr

/-- `vm->quickening && ++vm->quickening_observations >= vm->quickening_threshold`, and the rewrite
to `specialized` when it holds. -/
def Site.observe (site : Site) (specialized : OpCode) : Site :=
  if site.quickening then
    let site := { site with observations := site.observations + 1 }
    if site.observations ≥ site.threshold then
      { site with code := specialized, quickenedSites := site.quickenedSites + 1 }
    else site
  else site

def Site.deoptimize (site : Site) (generic : OpCode) : Site :=
  { site with code := generic, deoptimizedSites := site.deoptimizedSites + 1 }

def valueIsBignum : DiamondValue → Bool
  | .bignum _ _ => true
  | _ => false

def isIntValue : DiamondValue → Bool
  | .int _ => true
  | v => valueIsBignum v

/-- The check for `DIAMOND_VALUE_NIL` after every Bignum operation. -/
def fromBignum : DiamondValue → Result
  | .nil => .error .outOfMemory
  | v => .ok v

/-! ## Slow paths -/

def addFallback (mem : Alloc) (left right : DiamondValue) : Result :=
  if isIntValue left && isIntValue right && (valueIsBignum left || valueIsBignum right) then
    fromBignum (diamondBignumAdd mem (diamondIntView left) (diamondIntView right))
  else .error .typeError

def moduloSlow (mem : Alloc) (left right : DiamondValue) : Result :=
  match left, right with
  | .int a, .int b =>
    if b = 0 then .error .divisionByZero
    else if b = -1 then .ok (.int 0)
    else .ok (.int (floorRemainder a b))
  | _, _ =>
    if isIntValue left && isIntValue right then
      if diamondBignumCompare (diamondIntView right) (diamondIntViewInt64 0) = .eq then
        .error .divisionByZero
      else
        fromBignum (diamondBignumModuloFloored mem (diamondIntView left) (diamondIntView right))
    else .error .typeError

/-- The `generic` opcode of `int_arith_slow`. -/
def arithGeneric : OpCode → OpCode
  | .addInt => .add
  | .subtractInt => .subtract
  | .multiplyInt => .multiply
  | .divideInt => .divide
  | code => code

/-- `int_arith_slow` on a pair that is not two immediates. -/
def arithMismatch (mem : Alloc) (generic : OpCode) (left right : DiamondValue) : Result :=
  if generic = .add then addFallback mem left right
  else if isIntValue left && isIntValue right && (valueIsBignum left || valueIsBignum right) then
    let leftView := diamondIntView left
    let rightView := diamondIntView right
    if generic = .subtract then fromBignum (diamondBignumSubtract mem leftView rightView)
    else if generic = .multiply then fromBignum (diamondBignumMultiply mem leftView rightView)
    else if diamondBignumCompare rightView (diamondIntViewInt64 0) = .eq then .error .divisionByZero
    else fromBignum (diamondBignumDivideFloored mem leftView rightView)
  else .error .typeError

/-- `int_arith_slow` on two immediates. -/
def arithPlain (mem : Alloc) (generic : OpCode) (left right : Int64) : Result :=
  let leftView := diamondIntView (.int left)
  let rightView := diamondIntView (.int right)
  if generic = .divide then
    if right = 0 then .error .divisionByZero
    else if left = Int64.minValue ∧ right = -1 then fromBignum (diamondBignumNegate mem leftView)
    else .ok (.int (diamondIntFloorDivide left right))
  else if generic = .add then fromBignum (diamondBignumAdd mem leftView rightView)
  else if generic = .subtract then fromBignum (diamondBignumSubtract mem leftView rightView)
  else fromBignum (diamondBignumMultiply mem leftView rightView)

def intArithSlow (mem : Alloc) (site : Site) (opcode : OpCode) (left right : DiamondValue) :
    Site × Result :=
  if opcode = .modulo then (site, moduloSlow mem left right)
  else
    let generic := arithGeneric opcode
    match left, right with
    | .int a, .int b => (site, arithPlain mem generic a b)
    | _, _ =>
      (if generic ≠ opcode then site.deoptimize generic else site,
        arithMismatch mem generic left right)

/-- The `generic` opcode of `compare_int_slow`. -/
def compareGeneric : OpCode → OpCode
  | .lessInt => .less
  | .lessEqualInt => .lessEqual
  | .greaterInt => .greater
  | .greaterEqualInt => .greaterEqual
  | code => code

def compareIntSlow (site : Site) (opcode : OpCode) (left right : DiamondValue) : Site × Result :=
  let generic := compareGeneric opcode
  let site := if generic ≠ opcode then site.deoptimize generic else site
  if isIntValue left && isIntValue right && (valueIsBignum left || valueIsBignum right) then
    let comparison := diamondBignumCompare (diamondIntView left) (diamondIntView right)
    let answer :=
      if generic = .less then comparison = .lt
      else if generic = .lessEqual then comparison ≠ .gt
      else if generic = .greater then comparison = .gt
      else comparison ≠ .lt
    (site, .ok (.bool answer))
  else (site, .error .typeError)

/-- C `values_equal` on nil, Bool and Int. -/
def valuesEqual (left right : DiamondValue) : Bool :=
  if valueIsBignum left || valueIsBignum right then
    if !isIntValue left || !isIntValue right then false
    else diamondBignumCompare (diamondIntView left) (diamondIntView right) = .eq
  else left = right

/-- C `diamond_jit_equal_general`; no Int is an Instance, so no `==` method is looked up. -/
def equalGeneral (left right : DiamondValue) (negate : Bool) : Result :=
  let equal := valuesEqual left right
  .ok (.bool (if negate then !equal else equal))

def intConstantSlow (mem : Alloc) (site : Site) (opcode : OpCode) (left right : DiamondValue) :
    Site × Result :=
  match opcode with
  | .addIntK => intArithSlow mem site .add left right
  | .subtractIntK => intArithSlow mem site .subtract left right
  | .multiplyIntK => intArithSlow mem site .multiply left right
  | .moduloIntK => intArithSlow mem site .modulo left right
  | .lessIntK => compareIntSlow site .less left right
  | .lessEqualIntK => compareIntSlow site .lessEqual left right
  | .greaterIntK => compareIntSlow site .greater left right
  | .greaterEqualIntK => compareIntSlow site .greaterEqual left right
  | .equalIntK => (site, equalGeneral left right false)
  | .notEqualIntK => (site, equalGeneral left right true)
  | _ => (site, .error .invalidBytecode)

/-! ## Handlers -/

/-- Stores the result of a checked operation, or goes on with `slow` when it overflowed. -/
def storeChecked (site : Site) (value : Option Int64) (slow : Site × Result) : Site × Result :=
  match value with
  | some value => (site, .ok (.int value))
  | none => slow

def opAdd (mem : Alloc) (site : Site) (left right : DiamondValue) : Site × Result :=
  match left, right with
  | .int a, .int b =>
    let site := site.observe .addInt
    storeChecked site (ckdAdd a b)
      (site, fromBignum (diamondBignumAdd mem (diamondIntView left) (diamondIntView right)))
  | _, _ => (site, addFallback mem left right)

/-- The rewrite at the head of the shared arithmetic handler: the site, and the opcode to go on
with. -/
def quickenArith (site : Site) (opcode : OpCode) : Site × OpCode :=
  match opcode with
  | .subtract => (site.observe .subtractInt, (site.observe .subtractInt).code)
  | .multiply => (site.observe .multiplyInt, (site.observe .multiplyInt).code)
  | .divide => (site.observe .divideInt, (site.observe .divideInt).code)
  | _ => (site, opcode)

/-- The shared arithmetic handler on two immediates, with the opcode settled. -/
def arithInts (mem : Alloc) (site : Site) (opcode : OpCode) (a b : Int64) : Site × Result :=
  if opcode = .divideInt ∨ opcode = .divide then
    if b ≠ 0 ∧ ¬ (a = Int64.minValue ∧ b = -1) then (site, .ok (.int (diamondIntFloorDivide a b)))
    else intArithSlow mem site opcode (.int a) (.int b)
  else
    let value :=
      if opcode = .addInt then ckdAdd a b
      else if opcode = .subtractInt ∨ opcode = .subtract then ckdSub a b
      else if opcode = .multiplyInt ∨ opcode = .multiply then ckdMul a b
      else some 0
    storeChecked site value (intArithSlow mem site opcode (.int a) (.int b))

/-- The shared handler at `op_SUBTRACT`, which the `_INT` forms fall back to. -/
def opSubtract (mem : Alloc) (site : Site) (left right : DiamondValue) : Site × Result :=
  match left, right with
  | .int a, .int b =>
    let (site, opcode) := quickenArith site site.code
    arithInts mem site opcode a b
  | _, _ => intArithSlow mem site site.code left right

/-- The `_INT` register forms of `+`, `-` and `*` (C `INT_REGISTER_ARITHMETIC`). -/
def intRegisterArithmetic (checkedOp : Int64 → Int64 → Option Int64) (mem : Alloc) (site : Site)
    (left right : DiamondValue) : Site × Result :=
  match left, right with
  | .int a, .int b => storeChecked site (checkedOp a b) (opSubtract mem site left right)
  | _, _ => opSubtract mem site left right

/-- `op_SHIFT_LEFT`, Int operands. -/
def opShiftLeft (mem : Alloc) (left right : DiamondValue) : Result :=
  if isIntValue left && isIntValue right then
    match right with
    | .int amount =>
      if amount.toInt < 0 ∨ amount.toInt > 2 ^ 20 then
        .error (.integerOverflow "shift amount must be between 0 and 1048576")
      else
        let wide := fromBignum (diamondBignumShiftLeft mem (diamondIntView left) amount.toInt.toNat)
        match left with
        | .int a =>
          if amount.toInt < 64 ∧
              shiftRightArithmetic (shiftLeftWrap a amount.toInt.toNat) amount.toInt.toNat = a then
            .ok (.int (shiftLeftWrap a amount.toInt.toNat))
          else wide
        | _ => wide
    | _ => .error (.integerOverflow "shift amount must be between 0 and 1048576")
  else .error .typeError

def opShiftRight (mem : Alloc) (left right : DiamondValue) : Result :=
  if !isIntValue left || !isIntValue right then .error .typeError
  else
    match right with
    | .int amount =>
      if amount.toInt < 0 then
        .error (.integerOverflow "shift amount must not be negative")
      else
        match left with
        | .int a =>
          if amount.toInt ≥ 64 then .ok (.int (if a < 0 then -1 else 0))
          else .ok (.int (shiftRightArithmetic a amount.toInt.toNat))
        | _ =>
          fromBignum (diamondBignumShiftRight mem (diamondIntView left) amount.toInt.toNat)
    | _ => .error (.integerOverflow "shift amount must not be negative")

/-- `op_BITWISE_AND`, `op_BITWISE_OR` and `op_BITWISE_XOR`. -/
def opBitwise (op : BitwiseOp) (mem : Alloc) (left right : DiamondValue) : Result :=
  match left, right with
  | .int a, .int b => .ok (.int (bitwiseInt64 op a b))
  | _, _ =>
    if isIntValue left && isIntValue right then
      fromBignum (diamondBignumBitwise mem op (diamondIntView left) (diamondIntView right))
    else .error .typeError

def opModulo (mem : Alloc) (site : Site) (left right : DiamondValue) : Site × Result :=
  match left, right with
  | .int a, .int b =>
    if b ≠ 0 ∧ b ≠ -1 then (site, .ok (.int (floorRemainder a b)))
    else intArithSlow mem site .modulo left right
  | _, _ => intArithSlow mem site .modulo left right

/-- The rewrite at the head of the shared comparison handler. -/
def quickenCompare (site : Site) (opcode : OpCode) : Site × OpCode :=
  match opcode with
  | .less => (site.observe .lessInt, (site.observe .lessInt).code)
  | .lessEqual => (site.observe .lessEqualInt, (site.observe .lessEqualInt).code)
  | .greater => (site.observe .greaterInt, (site.observe .greaterInt).code)
  | .greaterEqual => (site.observe .greaterEqualInt, (site.observe .greaterEqualInt).code)
  | _ => (site, opcode)

/-- The comparison of the shared handler on two immediates, with the opcode settled. -/
def compareInts (opcode : OpCode) (a b : Int64) : Bool :=
  if opcode = .lessInt ∨ opcode = .less then a < b
  else if opcode = .lessEqualInt ∨ opcode = .lessEqual then a ≤ b
  else if opcode = .greaterInt ∨ opcode = .greater then a > b
  else a ≥ b

/-- The shared handler at `op_LESS`. -/
def opLess (site : Site) (left right : DiamondValue) : Site × Result :=
  match left, right with
  | .int a, .int b =>
    let (site, opcode) := quickenCompare site site.code
    (site, .ok (.bool (compareInts opcode a b)))
  | _, _ => compareIntSlow site site.code left right

/-- `op_EQUAL` and `op_NOT_EQUAL`, with the `_INT` forms that fall back to them. -/
def opEqual (site : Site) (left right : DiamondValue) : Site × Result :=
  match left, right with
  | .int a, .int b =>
    let site :=
      match site.code with
      | .equal => site.observe .equalInt
      | .notEqual => site.observe .notEqualInt
      | _ => site
    let negate : Bool := site.code = .notEqualInt ∨ site.code = .notEqual
    (site, .ok (.bool (if negate then !(a == b) else a == b)))
  | _, _ =>
    let site :=
      match site.code with
      | .equalInt => site.deoptimize .equal
      | .notEqualInt => site.deoptimize .notEqual
      | _ => site
    (site, equalGeneral left right (site.code = .notEqual))

/-- The `_INT` register forms of the comparisons (C `INT_REGISTER_COMPARISON`). -/
def intRegisterComparison (compare : Int64 → Int64 → Bool)
    (family : Site → DiamondValue → DiamondValue → Site × Result) (site : Site)
    (left right : DiamondValue) : Site × Result :=
  match left, right with
  | .int a, .int b => (site, .ok (.bool (compare a b)))
  | _, _ => family site left right

def opCompare (left right : DiamondValue) : Result :=
  match left, right with
  | .int a, .int b => .ok (.int (if a < b then -1 else if a > b then 1 else 0))
  | _, _ =>
    if isIntValue left && isIntValue right then
      match diamondBignumCompare (diamondIntView left) (diamondIntView right) with
      | .lt => .ok (.int (-1))
      | .gt => .ok (.int 1)
      | .eq => .ok (.int 0)
    else .ok .nil

/-- The `_INT_K` arithmetic forms (C `INT_K_ARITHMETIC`). -/
def intKArithmetic (checkedOp : Int64 → Int64 → Option Int64) (mem : Alloc) (site : Site)
    (left right : DiamondValue) : Site × Result :=
  match left, right with
  | .int a, .int b =>
    storeChecked site (checkedOp a b) (intConstantSlow mem site site.code left right)
  | _, _ => intConstantSlow mem site site.code left right

/-- The `_INT_K` comparison forms (C `INT_K_COMPARISON`). -/
def intKComparison (compare : Int64 → Int64 → Bool) (mem : Alloc) (site : Site)
    (left right : DiamondValue) : Site × Result :=
  match left, right with
  | .int a, .int b => (site, .ok (.bool (compare a b)))
  | _, _ => intConstantSlow mem site site.code left right

def opModuloIntK (mem : Alloc) (site : Site) (left right : DiamondValue) : Site × Result :=
  match left, right with
  | .int a, .int b =>
    if b ≠ 0 ∧ b ≠ -1 then (site, .ok (.int (floorRemainder a b)))
    else intConstantSlow mem site site.code left right
  | _, _ => intConstantSlow mem site site.code left right

/-- One execution of the instruction at `site` on the values of its operand registers. -/
def execute (mem : Alloc) (site : Site) (left right : DiamondValue) : Site × Result :=
  match site.code with
  | .add => opAdd mem site left right
  | .subtract | .multiply | .divide | .divideInt => opSubtract mem site left right
  | .addInt => intRegisterArithmetic ckdAdd mem site left right
  | .subtractInt => intRegisterArithmetic ckdSub mem site left right
  | .multiplyInt => intRegisterArithmetic ckdMul mem site left right
  | .addIntK => intKArithmetic ckdAdd mem site left right
  | .subtractIntK => intKArithmetic ckdSub mem site left right
  | .multiplyIntK => intKArithmetic ckdMul mem site left right
  | .modulo => opModulo mem site left right
  | .moduloIntK => opModuloIntK mem site left right
  | .shiftLeft => (site, opShiftLeft mem left right)
  | .shiftRight => (site, opShiftRight mem left right)
  | .bitwiseAnd => (site, opBitwise .and mem left right)
  | .bitwiseOr => (site, opBitwise .or mem left right)
  | .bitwiseXor => (site, opBitwise .xor mem left right)
  | .less | .lessEqual | .greater | .greaterEqual => opLess site left right
  | .lessInt => intRegisterComparison (fun a b => a < b) opLess site left right
  | .lessEqualInt => intRegisterComparison (fun a b => a ≤ b) opLess site left right
  | .greaterInt => intRegisterComparison (fun a b => a > b) opLess site left right
  | .greaterEqualInt => intRegisterComparison (fun a b => a ≥ b) opLess site left right
  | .equal | .notEqual => opEqual site left right
  | .equalInt => intRegisterComparison (fun a b => a == b) opEqual site left right
  | .notEqualInt => intRegisterComparison (fun a b => a != b) opEqual site left right
  | .lessIntK => intKComparison (fun a b => a < b) mem site left right
  | .lessEqualIntK => intKComparison (fun a b => a ≤ b) mem site left right
  | .greaterIntK => intKComparison (fun a b => a > b) mem site left right
  | .greaterEqualIntK => intKComparison (fun a b => a ≥ b) mem site left right
  | .equalIntK => intKComparison (fun a b => a == b) mem site left right
  | .notEqualIntK => intKComparison (fun a b => a != b) mem site left right
  | .compare => (site, opCompare left right)

end Diamond.Operators
