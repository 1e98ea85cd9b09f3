import Diamond.Hash.Refinement
import Diamond.Lib.Binary64

/-!
# Keys

Model of `hash_value` and `values_equal` in `src/vm_values.c` on scalars, Strings, Symbols and the
objects that are compared by identity.  Arrays, Hashes, Bignums and Times, which compare and hash by
content, are left out.
-/

namespace Diamond.Hash

/-- The keys: `address` is the address of an object without an equality of its own. -/
inductive Key
  | nil
  | undefined
  | bool (value : Bool)
  | int (value : Int64)
  | float (bits : UInt64)
  | classIndex (index : UInt64)
  | string (bytes : List UInt8)
  | symbol (bytes : List UInt8)
  | object (address : UInt64)
  deriving DecidableEq, Repr

def hashMix64 (value : UInt64) : UInt64 :=
  let value := value ^^^ (value >>> 33)
  let value := value * 0xff51afd7ed558ccd
  let value := value ^^^ (value >>> 33)
  let value := value * 0xc4ceb9fe1a85ec53
  value ^^^ (value >>> 33)

def hashBytes (data : List UInt8) : UInt64 :=
  data.foldl (fun hash byte => (hash ^^^ byte.toUInt64) * 0x100000001b3) 0xcbf29ce484222325

/-- The Float case of `hash_value`: a Float that is an `int64_t` is hashed as that Int. -/
def hashFloat (bits : UInt64) : UInt64 :=
  let real := Binary64.scaled bits
  if Binary64.isFinite bits ∧ -2 ^ 63 * Binary64.scale ≤ real ∧ real < 2 ^ 63 * Binary64.scale ∧
      real = Binary64.ofInt (Binary64.truncate bits) * Binary64.scale then
    hashMix64 (UInt64.ofInt (Binary64.truncate bits))
  else
    hashMix64 bits

def hashValue : Key → UInt64
  | .nil => hashMix64 0
  | .undefined => hashMix64 0xffffffffffffffff
  | .bool value => hashMix64 (if value then 1 else 2)
  | .int value => hashMix64 value.toUInt64
  | .float bits => hashFloat bits
  | .classIndex index => hashMix64 index
  | .string bytes => hashBytes bytes
  | .symbol bytes => hashBytes bytes
  | .object address => hashMix64 address

/-- `(double)integer==real`. -/
def intEqualsFloat (integer : Int64) (real : UInt64) : Bool :=
  Binary64.isFinite real && Binary64.ofInt integer.toInt * Binary64.scale == Binary64.scaled real

def valuesEqual : Key → Key → Bool
  | .int left, .float right => intEqualsFloat left right
  | .float left, .int right => intEqualsFloat right left
  | .nil, .nil => true
  | .undefined, .undefined => true
  | .bool left, .bool right => left == right
  | .int left, .int right => left == right
  | .float left, .float right => Binary64.eq left right
  | .classIndex left, .classIndex right => left == right
  | .string left, .string right => left == right
  | .symbol left, .symbol right => left == right
  | .object left, .object right => left == right
  | _, _ => false

/-- The Int `2 ^ 53 + 1` and the Float `2 ^ 53` are equal, since the Int is rounded for the
comparison, but hash differently: a value stored under the one is not found under the other. -/
theorem hash_misses_equal_key :
    ∃ h : DiamondHash Key ℕ, Run hashValue valuesEqual [.new, .set 0 (.int 9007199254740993) 1] [h] ∧
      valuesEqual (.int 9007199254740993) (.float 0x4340000000000000) = true ∧
      hashLookup hashValue valuesEqual h (.float 0x4340000000000000) = none ∧
      assocLookup valuesEqual h.contents (.float 0x4340000000000000) = some 1 := by
  obtain ⟨h, hrun, hcontents⟩ := exists_run_set hashValue valuesEqual (.int 9007199254740993) 1
  have hequal : valuesEqual (.int 9007199254740993) (.float 0x4340000000000000) = true := by
    decide +kernel
  have hne : hashValue (.int 9007199254740993) ≠ hashValue (.float 0x4340000000000000) := by
    decide +kernel
  refine ⟨h, hrun, hequal, ?_, ?_⟩
  · rw [hashLookup_contents (hrun.contents.1 h (List.mem_singleton.2 rfl)), hcontents]
    simp [assocLookup, keyMatch, hne]
  · rw [hcontents]
    simp [assocLookup, hequal]

/-- The Hash with the one entry `"a" => 1`. -/
def entryTable : DiamondHash Key ℕ :=
  ⟨[⟨.string [97], 1, 0xaf63dc4c8601ec8c⟩], 8, [none, none, none, none, some 0, none, none, none]⟩

theorem failed_update_intact_iff_entryTable :
    Intact hashValue valuesEqual (allocateHash : DiamondHash Key ℕ) allocateHash ∧
    ¬ Intact hashValue valuesEqual entryTable { entryTable with entries := [] } :=
  ⟨((failed_update_intact_iff hashValue valuesEqual ⟨false, true, true⟩ allocateHash _
      (.string [97])).1 1 (by decide +kernel)).2 rfl,
    (failed_update_intact_iff hashValue valuesEqual ⟨true, false, true⟩ entryTable _
      (.string [97])).2 (some 1) (by decide +kernel)⟩

/-- A deletion without memory for the bucket table reports the failure and has lost the entry; an
insertion without memory for the write barrier has made its entry. -/
theorem failed_deletion_loses_entry :
    hashSet hashValue valuesEqual ⟨true, true, true⟩ allocateHash (.string [97]) 1 =
      some (entryTable, true) ∧
    hashDelete hashValue valuesEqual ⟨true, false, true⟩ entryTable (.string [97]) =
      some ({ entryTable with entries := [] }, some 1, false) ∧
    hashSet hashValue valuesEqual ⟨true, true, false⟩ allocateHash (.string [97]) 1 =
      some (entryTable, false) := by
  decide +kernel

end Diamond.Hash
