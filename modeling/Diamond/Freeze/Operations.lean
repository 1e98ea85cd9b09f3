import Diamond.Freeze.Objects

/-!
# Operations that write

Model of everything that writes to an Array, Hash or Instance which the program can already refer
to: `diamond_jit_index_set` and `collection_invoke_helper` in `src/vm_collections.c`; `INDEX_SET`,
`SHIFT_LEFT`, `SET_IVAR_NAME`, `RAISE` and `collection_invoke_fast` in `src/vm_run_chunk.c`;
`diamond_jit_set_ivar` in `src/vm.c`; `trivial_setter_result`, `diamond_jit_super_call`,
`install_backtrace` and `raise_capture_backtrace_helper` in `src/vm_calls.c`.

Operands are any values, as registers may hold them.  All other operations of the interpreter and
the native methods either write nothing to these objects, or build a new object and fill it before
the program can refer to it; `allocate` stands for these.
-/

namespace Diamond.Freeze

open Hash (hashSet hashDelete hashClear)

section

variable (env : Environment) (mem : Memory) (vm : DiamondVm)

/-! ## Index assignment -/

def arrayIndexSet (a : Address) (frozen : Bool) (array : DiamondArray) (index source : DiamondValue) :
    Outcome × DiamondVm :=
  let violates := (Outcome.failed .typeError (some "array element violates its type annotation"), vm)
  if frozen then
    (.failed .frozenError none, vm)
  else
    match resolveArrayRange env vm index array.values.length with
    | some (.error text) => (.failed .indexError (some text), vm)
    | some (.ok (start, length)) =>
      let mismatch := (Outcome.failed .typeError (some
        ("range assignment requires a replacement Array of exactly " ++ toString length ++
          " element(s)")), vm)
      match vm.object? source with
      | some (_, ⟨_, .array replacement⟩) =>
        if replacement.values.length ≠ length then
          mismatch
        else if !replacement.values.all (arrayValueSatisfiesConstraints env vm array) then
          violates
        else
          (afterBarrier mem none, vm.store a (.array { array with
            values := array.values.take start ++ replacement.values ++
              array.values.drop (start + length) }))
      | _ => mismatch
    | none =>
      match index with
      | .integer original =>
        let position := if original < 0 then original + array.values.length else original
        if position < 0 ∨ position ≥ array.values.length then
          (.failed .indexError (some (outOfBounds original array.values.length)), vm)
        else if !arrayValueSatisfiesConstraints env vm array source then
          violates
        else
          (afterBarrier mem none,
            vm.store a (.array { array with values := array.values.set position.toNat source }))
      | _ => (.failed .typeError (some
          ("Array#[]= index must be an Int or Range, got " ++ env.formatType vm index)), vm)

def diamondJitIndexSet (receiver index source : DiamondValue) : Option (Outcome × DiamondVm) :=
  let undefined := (Outcome.failed .typeError
    (some ("undefined method '[]=' for " ++ env.formatType vm receiver)), vm)
  match vm.object? receiver with
  | none => some undefined
  | some (a, object) =>
    match object.payload with
    | .hash table constraints =>
      if object.frozen then
        some (.failed .frozenError none, vm)
      else if !hashEntrySatisfiesConstraints env vm constraints index source then
        some (.failed .typeError (some "hash entry violates its type annotation"), vm)
      else
        match hashSet (env.hashValue vm) (env.valuesEqual vm) mem.toMemory table index source with
        | none => none
        | some (table, true) => some (.ok none, vm.store a (.hash table constraints))
        | some (table, false) =>
          some (.failed .outOfMemory none, vm.store a (.hash table constraints))
    | .string => some (.failed .typeError (some "String does not support element assignment"), vm)
    | .inst cls _ => some (if env.hasMethod cls "[]=" then (.calls, vm) else undefined)
    | .array array => some (arrayIndexSet env mem vm a object.frozen array index source)
    | .bignum | .other => some undefined

/-- `INDEX_SET`, with its own path for an Array without constraints. -/
def indexSet (receiver index source : DiamondValue) : Option (Outcome × DiamondVm) :=
  match vm.object? receiver, index with
  | some (a, ⟨frozen, .array array⟩), .integer position =>
    if 0 ≤ position ∧ position < array.values.length ∧ ¬frozen ∧ array.constraints = [] then
      some (afterBarrier mem none,
        vm.store a (.array { array with values := array.values.set position.toNat source }))
    else
      diamondJitIndexSet env mem vm receiver index source
  | _, _ => diamondJitIndexSet env mem vm receiver index source

/-! ## `<<` -/

def maxShiftBits : ℤ := 2 ^ 20

def isIntValue (value : DiamondValue) : Bool :=
  match value, vm.object? value with
  | .integer _, _ => true
  | _, some (_, ⟨_, .bignum⟩) => true
  | _, _ => false

def shiftInts (left right : DiamondValue) : Outcome × DiamondVm :=
  let promoted :=
    if mem.object then (Outcome.ok (some (.object vm.heap.length)), vm.allocate .bignum)
    else (.failed .outOfMemory none, vm)
  let rejected := (Outcome.failed .integerOverflow
    (some ("shift amount must be between 0 and " ++ toString maxShiftBits)), vm)
  match right with
  | .integer amount =>
    if amount < 0 ∨ amount > maxShiftBits then
      rejected
    else
      match left with
      | .integer value =>
        let shifted := value * 2 ^ amount.toNat
        if -2 ^ 63 ≤ shifted ∧ shifted < 2 ^ 63 then (.ok (some (.integer shifted)), vm)
        else promoted
      | _ => promoted
  | _ => rejected

def shiftLeft (left right : DiamondValue) : Outcome × DiamondVm :=
  if isIntValue vm left && isIntValue vm right then
    shiftInts mem vm left right
  else
    match vm.object? left with
    | some (a, ⟨_, .array array⟩) =>
      if !arrayValueSatisfiesConstraints env vm array right then
        (.failed .typeError (some "array element violates its type annotation"), vm)
      else
        -- No test of `frozen` here, unlike everywhere else.
        afterPush left (arrayPush mem vm a array right)
    | _ => (.failed .typeError
        (some "'<<' expects an Int shift amount or a value to push onto an Array"), vm)

/-! ## Fields -/

def diamondJitSetIvar (receiver : DiamondValue) (field : ℕ) (value : DiamondValue) :
    Outcome × DiamondVm :=
  match vm.object? receiver with
  | some (a, ⟨frozen, .inst cls fields⟩) =>
    if frozen then
      (.failed .frozenError none, vm)
    else if field ≥ fields.length then
      (.failed .invalidBytecode none, vm)
    else
      (afterBarrier mem none, vm.store a (.inst cls (fields.set field value)))
  | _ => (.failed .typeError none, vm)

def setIvarName (receiver : DiamondValue) (name : String) (value : DiamondValue) :
    Outcome × DiamondVm :=
  match vm.object? receiver with
  | some (a, ⟨frozen, .inst cls fields⟩) =>
    match env.fieldIndex cls name with
    | some field =>
      if field ≥ fields.length then
        (.failed .invalidBytecode none, vm)
      else if frozen then
        (.failed .frozenError none, vm)
      else
        (afterBarrier mem none, vm.store a (.inst cls (fields.set field value)))
    | none => (.failed .invalidBytecode none, vm)
  | _ => (.failed .invalidBytecode none, vm)

/-- `trivial_setter_result`, and the setter of a call site that has classified its method: without
the shortcut the method is called.  `passes` is the check of the argument's type. -/
def setterCall (receiver : DiamondValue) (field : ℕ) (argument : DiamondValue) (passes : Bool) :
    Outcome × DiamondVm :=
  match vm.object? receiver with
  | some (_, ⟨frozen, .inst _ fields⟩) =>
    if frozen ∨ field ≥ fields.length ∨ !passes then
      (.calls, vm)
    else
      match diamondJitSetIvar mem vm receiver field argument with
      | (.ok _, vm) => (.ok (some argument), vm)
      | (_, vm) => (.calls, vm)
  | _ => (.calls, vm)

/-- `diamond_jit_super_call`: the constructor of Exception, unless a superclass has the method. -/
def superCall (self : DiamondValue) (owner : ℕ) (name : String) (arguments : List DiamondValue) :
    Outcome × DiamondVm :=
  match vm.object? self with
  | some (a, ⟨_, .inst cls fields⟩) =>
    if !env.hasSuperclass owner then
      (.failed .typeError none, vm)
    else if env.superHasMethod owner name then
      (.calls, vm)
    else if env.superIsException owner ∧ name = "initialize" then
      match arguments with
      | [] => (afterBarrier mem (some .nil), vm)
      | [message] =>
        (afterBarrier mem (some .nil), vm.store a (.inst cls (fields.set 0 message)))
      | [message, cause] =>
        (afterBarrier mem (some .nil), vm.store a (.inst cls ((fields.set 0 message).set 1 cause)))
      | _ => (.failed .arityError none, vm)
    else
      (.failed .typeError none, vm)
  | _ => (.failed .typeError none, vm)

/-- `backtrace_append_live_frames`, up to the allocation that fails or the last frame. -/
def backtraceAppendLiveFrames (backtrace : Address) : ℕ → DiamondVm → DiamondVm
  | 0, vm => vm
  | frames + 1, vm =>
    let entry := DiamondValue.object vm.heap.length
    let vm := vm.allocate .string
    match vm.heap[backtrace]? with
    | some ⟨_, .array array⟩ =>
      backtraceAppendLiveFrames backtrace frames (arrayPush mem vm backtrace array entry).1
    | _ => vm

/-- `install_backtrace`, and the lines it is filled with, for the exception at `a`. -/
def installBacktrace (a : Address) (cls : ℕ) (fields : List DiamondValue) (frames : ℕ) : DiamondVm :=
  if !env.isException cls ∨ fields.length ≤ 2 ∨ !mem.object then
    vm
  else
    let backtrace := vm.heap.length
    let vm := (vm.allocate (.array ⟨[], 0, []⟩)).store a
      (.inst cls (fields.set 2 (.object backtrace)))
    if mem.barrier then backtraceAppendLiveFrames mem backtrace frames vm else vm

def hasBacktrace (fields : List DiamondValue) : Bool :=
  match (fields[2]?).bind vm.object? with
  | some (_, ⟨_, .array _⟩) => true
  | _ => false

/-- `RAISE`, up to its handlers: `raise_capture_backtrace_helper`. -/
def raise (exception : DiamondValue) (frames : ℕ) : Outcome × DiamondVm :=
  match vm.object? exception with
  | some (a, ⟨_, .inst cls fields⟩) =>
    if hasBacktrace vm fields then (.failed .exception none, vm)
    else (.failed .exception none, installBacktrace env mem vm a cls fields frames)
  | _ => (.failed .exception none, vm)

/-! ## Native methods -/

def Method.name : Method → String
  | .push => "push"
  | .pop => "pop"
  | .clear => "clear"
  | .delete => "delete"
  | .dup => "dup"
  | .freeze => "freeze"
  | .deepFreeze => "deep_freeze"

def hashInvoke (a : Address) (frozen : Bool) (table : Hash.DiamondHash DiamondValue DiamondValue)
    (constraints : List (ℕ × ℕ)) (method : Method) (arguments : List DiamondValue) :
    Option (Outcome × DiamondVm) :=
  match method, arguments with
  | .clear, [] =>
    if frozen then
      some (.failed .frozenError none, vm)
    else
      some (.ok (some (.object a)), vm.store a (.hash (hashClear table) constraints))
  | .delete, [key] =>
    if frozen then
      some (.failed .frozenError none, vm)
    else
      match hashDelete (env.hashValue vm) (env.valuesEqual vm) mem.toMemory table key with
      | none => none
      | some (table, removed, true) =>
        some (.ok (some (removed.getD .nil)), vm.store a (.hash table constraints))
      | some (table, _, false) =>
        some (.failed .outOfMemory none, vm.store a (.hash table constraints))
  | .clear, _ | .delete, _ => some (.failed .arityError none, vm)
  | _, _ => some (.failed .typeError (some
      ("undefined method '" ++ method.name ++ "' for Hash" ++ env.suggestion .hash method)), vm)

def arrayInvoke (a : Address) (frozen : Bool) (array : DiamondArray) (method : Method)
    (arguments : List DiamondValue) : Outcome × DiamondVm :=
  match method, arguments with
  | .push, [value] =>
    if frozen then
      (.failed .frozenError none, vm)
    else if !arrayValueSatisfiesConstraints env vm array value then
      (.failed .typeError (some "array element violates its type annotation"), vm)
    else
      afterPush (.object a) (arrayPush mem vm a array value)
  | .pop, [] =>
    if frozen then
      (.failed .frozenError none, vm)
    else
      (.ok (some (array.values.getLast?.getD .nil)),
        vm.store a (.array { array with values := array.values.dropLast }))
  | .push, _ | .pop, _ => (.failed .arityError none, vm)
  | _, _ => (.failed .typeError (some
      ("undefined method '" ++ method.name ++ "' for Array" ++ env.suggestion .array method)), vm)

/-- `collection_invoke_fast`: `push` at the call site; `none` leaves the call to the helper. -/
def collectionInvokeFast (a : Address) (object : DiamondObject) (method : Method)
    (arguments : List DiamondValue) : Option (Outcome × DiamondVm) :=
  match object.payload, method, arguments with
  | .array array, .push, [value] =>
    if object.frozen ∨ !env.extensionCached .array .push ∨ env.extension .array .push ∨
        !arrayValueSatisfiesConstraints env vm array value then
      none
    else
      some (afterPush (.object a) (arrayPush mem vm a array value))
  | _, _, _ => none

def collectionInvoke (a : Address) (object : DiamondObject) (method : Method)
    (arguments : List DiamondValue) : Option (Outcome × DiamondVm) :=
  match collectionInvokeFast env mem vm a object method arguments with
  | some result => some result
  | none =>
    match object.payload with
    | .array array =>
      if env.extension .array method then some (.calls, vm)
      else some (arrayInvoke env mem vm a object.frozen array method arguments)
    | .hash table constraints =>
      if env.extension .hash method then some (.calls, vm)
      else hashInvoke env mem vm a object.frozen table constraints method arguments
    | _ => some (.calls, vm)

/-- `INVOKE` of `dup`, `freeze` or `deep_freeze`: a method of an Instance comes first, then the
arguments are counted. -/
def universalInvoke (receiver : DiamondValue) (name : String) (arguments : List DiamondValue)
    (native : Option (Outcome × DiamondVm)) : Option (Outcome × DiamondVm) :=
  match vm.object? receiver with
  | some (_, ⟨_, .inst cls _⟩) =>
    if env.hasMethod cls name then some (.calls, vm)
    else if arguments ≠ [] then some (.failed .arityError none, vm)
    else native
  | some (_, ⟨_, .bignum⟩) | some (_, ⟨_, .other⟩) => some (.calls, vm)
  | _ => if arguments ≠ [] then some (.failed .arityError none, vm) else native

/-- `INVOKE`; `memory` is for the walk of a deep freeze. -/
def invoke (memory : WalkMemory) (receiver : DiamondValue) (method : Method)
    (arguments : List DiamondValue) :
    Option (Outcome × DiamondVm) :=
  match method with
  | .dup => universalInvoke env vm receiver "dup" arguments (some (diamondJitDup env mem vm receiver))
  | .freeze =>
    universalInvoke env vm receiver "freeze" arguments (some (diamondJitFreeze env vm receiver))
  | .deepFreeze =>
    universalInvoke env vm receiver "deep_freeze" arguments (diamondDeepFreeze memory vm receiver)
  | method =>
    match vm.object? receiver with
    | some (a, object) => collectionInvoke env mem vm a object method arguments
    | none => some (.calls, vm)

end

/-! ## Steps -/

inductive Operation
  | indexSet (receiver index source : DiamondValue)
  | shiftLeft (left right : DiamondValue)
  | setIvar (receiver : DiamondValue) (field : ℕ) (value : DiamondValue)
  | setIvarName (receiver : DiamondValue) (name : String) (value : DiamondValue)
  | setterCall (receiver : DiamondValue) (field : ℕ) (argument : DiamondValue) (passes : Bool)
  | superCall (self : DiamondValue) (owner : ℕ) (name : String) (arguments : List DiamondValue)
  | raise (exception : DiamondValue) (frames : ℕ)
  | invoke (memory : WalkMemory) (receiver : DiamondValue) (method : Method)
      (arguments : List DiamondValue)
  | allocate (payload : Payload)

def execute (env : Environment) (mem : Memory) (vm : DiamondVm) :
    Operation → Option (Outcome × DiamondVm)
  | .indexSet receiver index source => indexSet env mem vm receiver index source
  | .shiftLeft left right => some (shiftLeft env mem vm left right)
  | .setIvar receiver field value => some (diamondJitSetIvar mem vm receiver field value)
  | .setIvarName receiver name value => some (setIvarName env mem vm receiver name value)
  | .setterCall receiver field argument passes =>
    some (setterCall mem vm receiver field argument passes)
  | .superCall self owner name arguments => some (superCall env mem vm self owner name arguments)
  | .raise exception frames => some (raise env mem vm exception frames)
  | .invoke memory receiver method arguments => invoke env mem vm memory receiver method arguments
  | .allocate payload =>
    if mem.object then some (.ok (some (.object vm.heap.length)), vm.allocate payload)
    else some (.failed .outOfMemory none, vm)

end Diamond.Freeze
