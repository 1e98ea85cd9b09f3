import Diamond.Freeze.Safety

/-!
# Ranges as indices

Model of the Array case of `diamond_jit_index_get` in `src/vm_collections.c`, and the slice that a
Range denotes.  A bound is an Int of any size: one that does not fit `int64_t` is a Bignum, of which
`resolve_array_range` sees nothing but that it is no small Int.  A Bignum at the end of a Range is
taken for the missing end of an endless one, which is wrong if it is negative.
-/

namespace Diamond.Freeze

/-- `diamond_jit_index_get` for an Array. -/
def arrayIndexGet (env : Environment) (mem : Memory) (vm : DiamondVm) (array : DiamondArray)
    (index : DiamondValue) : Outcome × DiamondVm :=
  match resolveArrayRange env vm index array.values.length with
  | some (.error text) => (.failed .indexError (some text), vm)
  | some (.ok (start, length)) =>
    if mem.object then
      (.ok (some (.object vm.heap.length)),
        vm.allocate (.array ⟨(array.values.drop start).take length, length, []⟩))
    else
      (.failed .outOfMemory none, vm)
  | none =>
    match index with
    | .integer original =>
      let position := if original < 0 then original + array.values.length else original
      if position < 0 ∨ position ≥ array.values.length then
        (.failed .indexError (some (outOfBounds original array.values.length)), vm)
      else
        (.ok (array.values[position.toNat]?), vm)
    | _ => (.failed .typeError (some
        ("Array#[] index must be an Int or Range, got " ++ env.formatType vm index)), vm)

/-- `n` fits `int64_t`. -/
def IsSmall (n : ℤ) : Prop := -2 ^ 63 ≤ n ∧ n < 2 ^ 63
  deriving Decidable

inductive IntBound (vm : DiamondVm) : DiamondValue → ℤ → Prop
  | small {n} (h : IsSmall n) : IntBound vm (.integer n) n
  | big {a frozen n} (ho : vm.heap[a]? = some ⟨frozen, .bignum⟩) (h : ¬IsSmall n) :
      IntBound vm (.object a) n

/-- The index is an instance of Range with these bounds. -/
structure IsRange (env : Environment) (vm : DiamondVm) (index : DiamondValue) (start : ℤ)
    (stop : Option ℤ) (exclusive : Bool) : Prop where
  inst : ∃ a frozen cls first last, vm.object? index =
      some (a, ⟨frozen, .inst cls [first, last, .boolean exclusive]⟩) ∧
    env.rangeClass = some cls ∧ IntBound vm first start ∧
    (last = .nil ∧ stop = none ∨ ∃ n, stop = some n ∧ IntBound vm last n)
  integer : ∀ n, env.asInteger (.integer n) = n
  boolean : ∀ b, env.asBoolean (.boolean b) = b

/-- A negative bound counts from the end. -/
def fromEnd (count : ℕ) (bound : ℤ) : ℤ := if bound < 0 then bound + count else bound

/-- The slots before the end of a Range. -/
def Until (count : ℕ) (exclusive : Bool) (stop : ℤ) (i : ℕ) : Prop :=
  if exclusive then i < fromEnd count stop else i ≤ fromEnd count stop

/-- The slots of an Array of `count` elements that a Range denotes. -/
def InSlice (count : ℕ) (start : ℤ) (stop : Option ℤ) (exclusive : Bool) (i : ℕ) : Prop :=
  i < count ∧ fromEnd count start ≤ i ∧ ∀ last, stop = some last → Until count exclusive last i

variable {env : Environment} {mem : Memory} {vm : DiamondVm} {index : DiamondValue} {start : ℤ}
variable {stop : Option ℤ} {exclusive : Bool}

/-- `resolve_array_range` disregards an end that is not small. -/
lemma resolveArrayRange_spec (hrange : IsRange env vm index start stop exclusive)
    (hstart : IsSmall start) (count : ℕ) : (fromEnd count start < 0 ∨ count < fromEnd count start) ∧
      resolveArrayRange env vm index count = some (.error (outOfBounds start count)) ∨
    ∃ first length : ℕ, resolveArrayRange env vm index count = some (.ok (first, length)) ∧
      (first : ℤ) = fromEnd count start ∧ first + length ≤ count ∧
      ∀ i, first ≤ i ∧ i < first + length ↔ i < count ∧ first ≤ i ∧
        ∀ last, stop = some last → IsSmall last → Until count exclusive last i := by
  obtain ⟨⟨a, _, _, _, high, hobject, hclass, hlow, hhigh⟩, hinteger, hboolean⟩ := hrange
  -- What is read of the end: `last`, which counts if `exclusive`.
  have hread : ∃ last exclusive', resolveArrayRange env vm index count =
      (if fromEnd count start < 0 ∨ fromEnd count start > count then
        some (.error (outOfBounds start count))
      else some (.ok ((fromEnd count start).toNat,
        min (if fromEnd count last < fromEnd count start then 0
          else (fromEnd count last - fromEnd count start).toNat + if exclusive' then 0 else 1)
          (count - (fromEnd count start).toNat)))) ∧
      ∀ i < count, Until count exclusive' last i ↔
        ∀ last, stop = some last → IsSmall last → Until count exclusive last i := by
    cases hlow with
    | big _ hnot => exact absurd hstart hnot
    | small =>
      rcases hhigh with ⟨rfl, rfl⟩ | ⟨n, rfl, hsmall | ⟨_, hbig⟩⟩
      · refine ⟨-1, false, by simp [resolveArrayRange, hobject, hclass, hinteger, fromEnd], ?_⟩
        simp [Until, fromEnd]
        omega
      · refine ⟨n, exclusive, ?_, by simp [hsmall]⟩
        simp [resolveArrayRange, hobject, hclass, hinteger, hboolean, fromEnd]
        rfl
      · refine ⟨-1, false, by simp [resolveArrayRange, hobject, hclass, hinteger, fromEnd], ?_⟩
        simp [Until, fromEnd, hbig]
        omega
  obtain ⟨last, exclusive', hresolve, huntil⟩ := hread
  by_cases hbounds : fromEnd count start < 0 ∨ fromEnd count start > count
  · exact .inl ⟨hbounds, hresolve.trans (if_pos hbounds)⟩
  · refine .inr ⟨_, _, hresolve.trans (if_neg hbounds), by omega, by omega, fun i => ?_⟩
    refine Iff.trans ?_ (and_congr_right fun hi => and_congr_right fun _ => huntil i hi)
    unfold Until
    cases exclusive' <;> simp only [Bool.false_eq_true, if_true, if_false] <;> split_ifs <;> omega

/-- Reading and assigning by a Range whose start is small refuse it, or address the same slots of
the Array.  These are the slots that the Range denotes exactly when it does not end below all small
Ints, or starts behind the last slot. -/
theorem array_range_slots_iff (hrange : IsRange env vm index start stop exclusive)
    (hstart : IsSmall start) (array : DiamondArray) (hcount : array.values.length < 2 ^ 63) :
    ((fromEnd array.values.length start < 0 ∨ array.values.length < fromEnd array.values.length start) ∧
      ∀ mem a source, (arrayIndexGet env mem vm array index).1 =
          .failed .indexError (some (outOfBounds start array.values.length)) ∧
        (arrayIndexSet env mem vm a false array index source).1 =
          .failed .indexError (some (outOfBounds start array.values.length))) ∨
    ∃ first length : ℕ, first + length ≤ array.values.length ∧
      ((∀ i, first ≤ i ∧ i < first + length ↔ InSlice array.values.length start stop exclusive i) ↔
        first = array.values.length ∨ ∀ last, stop = some last → -2 ^ 63 ≤ last) ∧
      (∀ mem, mem.object = true → arrayIndexGet env mem vm array index =
        (.ok (some (.object vm.heap.length)),
          vm.allocate (.array ⟨(array.values.drop first).take length, length, []⟩))) ∧
      ∀ mem a source b frozen replacement, vm.object? source = some (b, ⟨frozen, .array replacement⟩) →
        replacement.values.length = length →
        replacement.values.all (arrayValueSatisfiesConstraints env vm array) = true →
        arrayIndexSet env mem vm a false array index source =
          (afterBarrier mem none, vm.store a (.array { array with
            values := array.values.take first ++ replacement.values ++
              array.values.drop (first + length) })) := by
  rcases resolveArrayRange_spec hrange hstart array.values.length with
    ⟨hout, herror⟩ | ⟨first, length, hok, hfirst, hinside, hslots⟩
  · refine .inl ⟨hout, fun mem a source => ?_⟩
    simp [arrayIndexGet, arrayIndexSet, herror]
  refine .inr ⟨first, length, hinside, ?_, ?_, ?_⟩
  · simp only [hslots, InSlice, ← hfirst, Int.ofNat_le]
    constructor
    · intro hexact
      by_contra hnot
      push Not at hnot
      obtain ⟨hne, last, rfl, hlast⟩ := hnot
      -- The first slot is addressed, as the end is not seen, but not denoted.
      have hdenoted := ((hexact first).1 ⟨by omega, le_refl _, fun l hl hsmall => by
        cases hl; exact absurd hsmall.1 (by omega)⟩).2.2 last rfl
      unfold Until fromEnd at hdenoted
      split_ifs at hdenoted <;> omega
    · intro hor i
      refine and_congr_right fun hi => and_congr_right fun hle => forall₂_congr fun last hlast => ?_
      refine ⟨fun himp => ?_, fun huntil _ => huntil⟩
      by_cases hsmall : IsSmall last
      · exact himp hsmall
      · have hlow := hor.resolve_left (by omega) last hlast
        unfold IsSmall at hsmall
        unfold Until fromEnd
        split_ifs <;> omega
  · intro mem hmem
    simp [arrayIndexGet, hok, hmem]
  · intro mem a source b frozen replacement hsource hlength hall
    simp [arrayIndexSet, hok, hsource, hlength, hall]

/-- A Range from 0 to a Bignum, and the Array `[1, 2]`. -/
def rangeVm : DiamondVm where
  heap := [⟨false, .array ⟨[.integer 1, .integer 2], 2, []⟩⟩, ⟨false, .bignum⟩,
    ⟨false, .inst 0 [.integer 0, .object 1, .boolean false]⟩]

def rangeEnvironment : Environment :=
  { plainEnvironment with
    rangeClass := some 0
    asInteger := fun
      | .integer n => n
      | _ => 0
    asBoolean := fun
      | .boolean b => b
      | _ => false }

lemma isRange_rangeVm {n : ℤ} (h : ¬IsSmall n) :
    IsRange rangeEnvironment rangeVm (.object 2) 0 (some n) false :=
  ⟨⟨2, false, 0, .integer 0, .object 1, rfl, rfl, .small (by decide), .inr ⟨n, rfl, .big rfl h⟩⟩,
    fun _ => rfl, fun _ => rfl⟩

/-- `[1, 2][0..-(2**64)]` is the whole Array, where the Range denotes no slot. -/
theorem negative_end_ignored :
    IsRange rangeEnvironment rangeVm (.object 2) 0 (some (-2 ^ 64)) false ∧
    (∀ i, ¬InSlice 2 0 (some (-2 ^ 64)) false i) ∧
    arrayIndexGet rangeEnvironment enoughMemory rangeVm ⟨[.integer 1, .integer 2], 2, []⟩ (.object 2) =
      (.ok (some (.object 3)), rangeVm.allocate (.array ⟨[.integer 1, .integer 2], 2, []⟩)) := by
  refine ⟨isRange_rangeVm (by decide), fun i hi => ?_, rfl⟩
  have huntil := hi.2.2 _ rfl
  simp only [Until, fromEnd] at huntil
  split_ifs at huntil <;> omega

theorem array_range_slots_iff_rangeVm :
    ∃ first length : ℕ, ∀ i, first ≤ i ∧ i < first + length ↔ InSlice 2 0 (some (2 ^ 64)) false i := by
  rcases array_range_slots_iff (isRange_rangeVm (n := 2 ^ 64) (by decide)) (by decide)
    ⟨[.integer 1, .integer 2], 2, []⟩ (by decide) with ⟨hout, -⟩ | ⟨first, length, -, hiff, -⟩
  · exact absurd hout (by decide)
  · exact ⟨first, length, hiff.2 (.inr fun _ hlast => by cases hlast; decide)⟩

end Diamond.Freeze
