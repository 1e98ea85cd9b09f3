import Diamond.Operators.Dispatch

/-!
# The Int operators are exact in every form

Every form of an instruction, quickened or not, answers as the generic one, and the generic one
with the mathematical meaning of its operator.
-/

namespace Diamond.Operators
open Bignum Int64 Int

attribute [local simp] compareInts compare_view

inductive Operator where
  | add | subtract | multiply | divide | modulo
  | shiftLeft | shiftRight | bitwiseAnd | bitwiseOr | bitwiseXor
  | less | lessEqual | greater | greaterEqual | equal | notEqual | compare
  deriving DecidableEq, Repr

/-- The operator an instruction computes, whatever its form. -/
def OpCode.operator : OpCode → Operator
  | .add | .addInt | .addIntK => .add
  | .subtract | .subtractInt | .subtractIntK => .subtract
  | .multiply | .multiplyInt | .multiplyIntK => .multiply
  | .divide | .divideInt => .divide
  | .modulo | .moduloIntK => .modulo
  | .shiftLeft => .shiftLeft
  | .shiftRight => .shiftRight
  | .bitwiseAnd => .bitwiseAnd
  | .bitwiseOr => .bitwiseOr
  | .bitwiseXor => .bitwiseXor
  | .less | .lessInt | .lessIntK => .less
  | .lessEqual | .lessEqualInt | .lessEqualIntK => .lessEqual
  | .greater | .greaterInt | .greaterIntK => .greater
  | .greaterEqual | .greaterEqualInt | .greaterEqualIntK => .greaterEqual
  | .equal | .equalInt | .equalIntK => .equal
  | .notEqual | .notEqualInt | .notEqualIntK => .notEqual
  | .compare => .compare

/-- An outcome in mathematical terms. -/
inductive Outcome where
  | int (n : ℤ)
  | bool (b : Bool)
  | error (e : VmError)

/-- The meaning of an operator on integers. Division and modulo are floored and undefined for a zero
divisor; `<<` is defined for the amounts up to `DIAMOND_MAX_SHIFT_BITS` and `>>` for the nonnegative
amounts of `int64_t`. -/
def Operator.meaning : Operator → ℤ → ℤ → Outcome
  | .add, a, b => .int (a + b)
  | .subtract, a, b => .int (a - b)
  | .multiply, a, b => .int (a * b)
  | .divide, a, b => if b = 0 then .error .divisionByZero else .int (a.fdiv b)
  | .modulo, a, b => if b = 0 then .error .divisionByZero else .int (a.fmod b)
  | .shiftLeft, a, b =>
    if 0 ≤ b ∧ b ≤ 2 ^ 20 then .int (a * 2 ^ b.toNat)
    else .error (.integerOverflow "shift amount must be between 0 and 1048576")
  | .shiftRight, a, b =>
    if 0 ≤ b ∧ b < 2 ^ 63 then .int (a.fdiv (2 ^ b.toNat))
    else .error (.integerOverflow "shift amount must not be negative")
  | .bitwiseAnd, a, b => .int (a.land b)
  | .bitwiseOr, a, b => .int (a.lor b)
  | .bitwiseXor, a, b => .int (a.xor b)
  | .less, a, b => .bool (a < b)
  | .lessEqual, a, b => .bool (a ≤ b)
  | .greater, a, b => .bool (a > b)
  | .greaterEqual, a, b => .bool (a ≥ b)
  | .equal, a, b => .bool (a = b)
  | .notEqual, a, b => .bool (a ≠ b)
  | .compare, a, b => .int (if a < b then -1 else if a > b then 1 else 0)

attribute [local simp] Operator.meaning

/-- The answer of an instruction is an outcome: the integer in canonical form, the Bool or the
error. An integer that needs a Bignum may instead end in `OUT_OF_MEMORY`, after a failed allocation.
-/
def Agrees (mem : Alloc) (result : Result) : Outcome → Prop
  | .int n =>
    (∃ v, result = .ok v ∧ Canonical v n) ∨ result = .error .outOfMemory ∧ ∃ k, mem k = false
  | .bool b => result = .ok (.bool b)
  | .error e => result = .error e

attribute [local simp] Agrees

/-! ## Pairs of Ints -/

def Mixed (left right : DiamondValue) : Prop :=
  isIntValue left ∧ isIntValue right ∧ (valueIsBignum left || valueIsBignum right)

lemma plain_or_mixed (a b : IntValue) :
    (∃ i j, (a.raw = .int i ∧ b.raw = .int j) ∧ a.toInt = i.toInt ∧ b.toInt = j.toInt) ∨
      Mixed a.raw b.raw := by
  obtain ⟨x, m, ha⟩ := a
  obtain ⟨y, n, hb⟩ := b
  cases ha with
  | int i =>
    cases hb with
    | int j => exact .inl ⟨i, j, ⟨rfl, rfl⟩, rfl, rfl⟩
    | bignum => exact .inr ⟨rfl, rfl, rfl⟩
  | bignum =>
    cases hb with
    | int | bignum => exact .inr ⟨rfl, rfl, rfl⟩

lemma Mixed.cases {left right} (h : Mixed left right) :
    (∃ i s L, left = .int i ∧ right = .bignum s L) ∨ (∃ s L j, left = .bignum s L ∧ right = .int j) ∨
      ∃ s L t M, left = .bignum s L ∧ right = .bignum t M := by
  obtain ⟨hl, hr, hbig⟩ := h
  cases left <;> cases right <;> simp_all [isIntValue, valueIsBignum]

/-! ## Every form gives one answer -/

/-- A checked result, or the Bignum an overflow promotes to. -/
def promote (value : Option Int64) (bignum : DiamondValue) : Result :=
  match value with
  | some value => .ok (.int value)
  | none => fromBignum bignum

def plainResult (op : Operator) (mem : Alloc) (i j : Int64) : Result :=
  let left := diamondIntView (.int i)
  let right := diamondIntView (.int j)
  match op with
  | .add => promote (ckdAdd i j) (diamondBignumAdd mem left right)
  | .subtract => promote (ckdSub i j) (diamondBignumSubtract mem left right)
  | .multiply => promote (ckdMul i j) (diamondBignumMultiply mem left right)
  | .divide => arithPlain mem .divide i j
  | .modulo => moduloSlow mem (.int i) (.int j)
  | .shiftLeft => opShiftLeft mem (.int i) (.int j)
  | .shiftRight => opShiftRight mem (.int i) (.int j)
  | .bitwiseAnd => .ok (.int (bitwiseInt64 .and i j))
  | .bitwiseOr => .ok (.int (bitwiseInt64 .or i j))
  | .bitwiseXor => .ok (.int (bitwiseInt64 .xor i j))
  | .less => .ok (.bool (i < j))
  | .lessEqual => .ok (.bool (i ≤ j))
  | .greater => .ok (.bool (i > j))
  | .greaterEqual => .ok (.bool (i ≥ j))
  | .equal => .ok (.bool (i == j))
  | .notEqual => .ok (.bool (i != j))
  | .compare => opCompare (.int i) (.int j)

attribute [local simp] plainResult

def mixedResult (op : Operator) (mem : Alloc) (left right : DiamondValue) : Result :=
  let comparison := diamondBignumCompare (diamondIntView left) (diamondIntView right)
  match op with
  | .add => addFallback mem left right
  | .subtract => arithMismatch mem .subtract left right
  | .multiply => arithMismatch mem .multiply left right
  | .divide => arithMismatch mem .divide left right
  | .modulo => moduloSlow mem left right
  | .shiftLeft => opShiftLeft mem left right
  | .shiftRight => opShiftRight mem left right
  | .bitwiseAnd => opBitwise .and mem left right
  | .bitwiseOr => opBitwise .or mem left right
  | .bitwiseXor => opBitwise .xor mem left right
  | .less => .ok (.bool (comparison = .lt))
  | .lessEqual => .ok (.bool (comparison ≠ .gt))
  | .greater => .ok (.bool (comparison = .gt))
  | .greaterEqual => .ok (.bool (comparison ≠ .lt))
  | .equal => .ok (.bool (comparison = .eq))
  | .notEqual => .ok (.bool (!(comparison = .eq)))
  | .compare => opCompare left right

attribute [local simp] mixedResult

lemma execute_mixed {left right} (h : Mixed left right) (mem : Alloc) (site : Site) :
    (execute mem site left right).2 = mixedResult site.code.operator mem left right := by
  obtain ⟨code, _, _, _, _, _⟩ := site
  rcases h.cases with ⟨i, s, L, rfl, rfl⟩ | ⟨s, L, j, rfl, rfl⟩ | ⟨s, L, t, M, rfl, rfl⟩ <;>
    cases code <;> rfl

lemma observe_code (site : Site) (specialized : OpCode) :
    (site.observe specialized).code = site.code ∨ (site.observe specialized).code = specialized := by
  unfold Site.observe
  split_ifs
  · dsimp only
    split_ifs
    · exact .inr rfl
    · exact .inl rfl
  · exact .inl rfl

/-- The opcodes that reach the shared arithmetic handler. -/
def arithForms : List OpCode :=
  [.addInt, .subtract, .subtractInt, .multiply, .multiplyInt, .divide, .divideInt]

variable {site : Site} {slow : Site × Result}

lemma storeChecked_result {value bignum} (h : value = none → slow.2 = fromBignum bignum) :
    (storeChecked site value slow).2 = promote value bignum := by
  cases value with
  | none => exact h rfl
  | some => rfl

variable {mem : Alloc}

/-- The floored division of the handler, which leaves its two special cases to the slow path. -/
lemma divide_of_slow {i j} (h : slow.2 = arithPlain mem .divide i j) :
    (if j ≠ 0 ∧ ¬ (i = Int64.minValue ∧ j = -1) then
      ((site, .ok (.int (diamondIntFloorDivide i j))) : Site × Result) else slow).2 =
        arithPlain mem .divide i j := by
  split_ifs with hfast
  · simp only [arithPlain, if_true, if_neg hfast.1, if_neg hfast.2]
  · exact h

/-- The floored remainder of the handlers, which leave the divisors 0 and -1 to the slow path. -/
lemma modulo_of_slow (mem : Alloc) {i j} (h : slow.2 = moduloSlow mem (.int i) (.int j)) :
    (if j ≠ 0 ∧ j ≠ -1 then ((site, .ok (.int (floorRemainder i j))) : Site × Result) else slow).2
      = moduloSlow mem (.int i) (.int j) := by
  split_ifs with hfast
  · simp only [moduloSlow, if_neg hfast.1, if_neg hfast.2]
  · exact h

lemma arithInts_result (mem : Alloc) (site : Site) (i j : Int64) {code} (h : code ∈ arithForms) :
    (arithInts mem site code i j).2 = plainResult code.operator mem i j := by
  simp only [arithForms, List.mem_cons, List.not_mem_nil, or_false] at h
  rcases h with rfl | rfl | rfl | rfl | rfl | rfl | rfl
  · exact storeChecked_result fun _ => rfl
  · exact storeChecked_result fun _ => rfl
  · exact storeChecked_result fun _ => rfl
  · exact storeChecked_result fun _ => rfl
  · exact storeChecked_result fun _ => rfl
  all_goals exact divide_of_slow rfl

lemma quickenArith_code (h : site.code ∈ arithForms) :
    (quickenArith site site.code).2 ∈ arithForms ∧
      (quickenArith site site.code).2.operator = site.code.operator := by
  have hobserve {specialized : OpCode} (hforms : specialized ∈ arithForms)
      (hop : specialized.operator = site.code.operator) :
      (site.observe specialized).code ∈ arithForms ∧
        (site.observe specialized).code.operator = site.code.operator := by
    rcases observe_code site specialized with hc | hc <;> simp [hc, h, hforms, hop]
  unfold quickenArith
  split
  case h_4 => exact ⟨h, rfl⟩
  all_goals exact hobserve (by simp [arithForms]) (by simp [*, OpCode.operator])

lemma opSubtract_plain (mem : Alloc) (h : site.code ∈ arithForms) (i j : Int64) :
    (opSubtract mem site (.int i) (.int j)).2 = plainResult site.code.operator mem i j := by
  obtain ⟨hforms, hop⟩ := quickenArith_code h
  rw [← hop, ← arithInts_result mem (quickenArith site site.code).1 i j hforms]
  rfl

lemma opLess_plain (site : Site) (i j : Int64) :
    (opLess site (.int i) (.int j)).2 = .ok (.bool (compareInts site.code i j)) := by
  simp only [opLess]
  unfold quickenCompare
  split
  · rename_i h
    rcases observe_code site .lessInt with hc | hc <;> simp [hc, h]
  · rename_i h
    rcases observe_code site .lessEqualInt with hc | hc <;> simp [hc, h]
  · rename_i h
    rcases observe_code site .greaterInt with hc | hc <;> simp [hc, h]
  · rename_i h
    rcases observe_code site .greaterEqualInt with hc | hc <;> simp [hc, h]
  · rfl

lemma opEqual_plain (site : Site) (i j : Int64) : (opEqual site (.int i) (.int j)).2 = .ok (.bool
      (if site.code = .notEqualInt ∨ site.code = .notEqual then i != j else i == j)) := by
  simp only [opEqual]
  split
  · rename_i h
    rcases observe_code site .equalInt with hc | hc <;> simp [hc, h]
  · rename_i h
    rcases observe_code site .notEqualInt with hc | hc <;> simp [hc, h, bne]
  · simp [bne]

lemma execute_plain (i j : Int64) (mem : Alloc) (site : Site) :
    (execute mem site (.int i) (.int j)).2 = plainResult site.code.operator mem i j := by
  obtain ⟨code, q, o, t, c, d⟩ := site
  cases code
  case add => exact storeChecked_result fun _ => rfl
  case subtract | multiply | divide | divideInt =>
    exact opSubtract_plain mem (by simp [arithForms]) i j
  case addInt | subtractInt | multiplyInt =>
    refine storeChecked_result fun h => ?_
    rw [opSubtract_plain mem (by simp [arithForms])]
    simp only [plainResult, OpCode.operator, h, promote]
  case addIntK | subtractIntK | multiplyIntK => exact storeChecked_result fun _ => rfl
  case modulo | moduloIntK => exact modulo_of_slow mem rfl
  case less | lessEqual | greater | greaterEqual => exact opLess_plain _ i j
  case equal | notEqual => exact opEqual_plain _ i j
  all_goals rfl

lemma execute_congr (mem : Alloc) (site site' : Site)
    (h : site.code.operator = site'.code.operator) (a b : IntValue) :
    (execute mem site a.raw b.raw).2 = (execute mem site' a.raw b.raw).2 := by
  rcases plain_or_mixed a b with ⟨i, j, ⟨ha, hb⟩, -⟩ | hmixed
  · rw [ha, hb, execute_plain, execute_plain, h]
  · rw [execute_mixed hmixed, execute_mixed hmixed, h]

/-! ## Exactness -/

variable {v : DiamondValue} {n : ℤ}

lemma Agrees.of_returns (h : Returns mem v n) : Agrees mem (fromBignum v) (.int n) := by
  rcases h with hcanonical | ⟨rfl, hmem⟩
  · cases hcanonical with
    | int i => exact .inl ⟨_, rfl, .int i⟩
    | bignum hbelow hlast ht hout => exact .inl ⟨_, rfl, .bignum hbelow hlast ht hout⟩
  · exact .inr ⟨rfl, hmem⟩

lemma Agrees.of_toInt {v} (h : v.toInt = n) : Agrees mem (.ok (.int v)) (.int n) :=
  .inl ⟨_, rfl, canonical_int h⟩

lemma Agrees.promote {bignum} (h : Returns mem bignum n) :
    Agrees mem (promote (checked n) bignum) (.int n) := by
  unfold checked
  split_ifs with hfits
  · exact .of_toInt (toInt_ofInt hfits)
  · exact .of_returns h

lemma view_int (i : Int64) : diamondIntView (.int i) = viewOf i.toInt := (Canonical.int i).view

open Operator

lemma divide_plain_agrees (mem : Alloc) (i j : Int64) :
    Agrees mem (arithPlain mem .divide i j) (Operator.divide.meaning i.toInt j.toInt) := by
  have hzero : j = 0 ↔ j.toInt = 0 := by rw [← toInt_inj, toInt_zero]
  simp only [arithPlain, if_true, meaning]
  by_cases h0 : j = 0
  · rw [if_pos h0, if_pos (hzero.1 h0)]
    rfl
  rw [if_neg h0, if_neg (mt hzero.2 h0)]
  split_ifs with hmin
  · obtain ⟨rfl, rfl⟩ := hmin
    rw [view_int]
    exact .of_returns (negate_view_returns mem _)
  · exact .of_toInt (floor_divide_toInt h0 hmin)

lemma modulo_plain_agrees (mem : Alloc) (i j : Int64) :
    Agrees mem (moduloSlow mem (.int i) (.int j)) (Operator.modulo.meaning i.toInt j.toInt) := by
  have hzero : j = 0 ↔ j.toInt = 0 := by rw [← toInt_inj, toInt_zero]
  simp only [moduloSlow, meaning]
  by_cases h0 : j = 0
  · rw [if_pos h0, if_pos (hzero.1 h0)]
    rfl
  rw [if_neg h0, if_neg (mt hzero.2 h0)]
  split_ifs with hone
  · subst hone
    refine .of_toInt ?_
    have hdvd : (-1 : Int64).toInt ∣ i.toInt := ⟨-i.toInt, by simp⟩
    exact (fmod_eq_zero_of_dvd hdvd).symm
  · exact .of_toInt (floor_remainder_toInt h0)

lemma isIntValue_raw (a : IntValue) : isIntValue a.raw = true := by
  obtain ⟨x, m, ha⟩ := a
  cases ha <;> rfl

lemma shift_left_int_agrees (mem : Alloc) (a : IntValue) (j : Int64) :
    Agrees mem (opShiftLeft mem a.raw (.int j)) (Operator.shiftLeft.meaning a.toInt j.toInt) := by
  have hwide (n : ℕ) : Agrees mem (fromBignum (diamondBignumShiftLeft mem (diamondIntView a.raw) n))
      (.int (a.toInt * 2 ^ n)) := by
    rw [a.canonical.view]
    exact .of_returns (shift_left_view_returns mem _ _)
  have hint : isIntValue (.int j) = true := rfl
  simp only [opShiftLeft, isIntValue_raw, hint, Bool.and_self, if_true, meaning]
  by_cases hj : 0 ≤ j.toInt ∧ j.toInt ≤ 2 ^ 20
  · rw [if_neg (by omega), if_pos hj]
    split
    · rename_i i ha
      split_ifs with hfast
      · have hi : i.toInt = a.toInt := (ha ▸ a.canonical : Canonical (.int i) a.toInt).toInt_eq
        rw [← hi]
        exact .of_toInt (shift_left_wrap_toInt (by omega) hfast.2)
      · exact hwide _
    · exact hwide _
  · rw [if_pos (by omega), if_neg hj]
    rfl

lemma shift_right_int_agrees (mem : Alloc) (a : IntValue) (j : Int64) :
    Agrees mem (opShiftRight mem a.raw (.int j)) (Operator.shiftRight.meaning a.toInt j.toInt) := by
  have hint : isIntValue (.int j) = true := rfl
  have hlt := j.toInt_lt
  simp only [opShiftRight, isIntValue_raw, hint, Bool.not_true, Bool.or_self, Bool.false_eq_true,
    if_false, meaning]
  by_cases hj : 0 ≤ j.toInt
  · rw [if_neg (by omega), if_pos ⟨hj, hlt⟩]
    split
    · rename_i i ha
      have hi : i.toInt = a.toInt := (ha ▸ a.canonical : Canonical (.int i) a.toInt).toInt_eq
      rw [← hi]
      split_ifs with hwide hneg
      · refine .of_toInt ?_
        rw [fdiv_two_pow_of_le i (by omega), if_pos ((lt_zero_iff i).1 hneg)]
        rfl
      · refine .of_toInt ?_
        rw [fdiv_two_pow_of_le i (by omega), if_neg (mt (lt_zero_iff i).2 hneg)]
        rfl
      · exact .of_toInt (shift_right_arithmetic_toInt i _)
    · rw [a.canonical.view]
      exact .of_returns (shift_right_view_returns mem _ _)
  · rw [if_pos (by omega), if_neg (by omega)]
    rfl

lemma shift_agrees (mem : Alloc) (a b : IntValue) :
    Agrees mem (opShiftLeft mem a.raw b.raw) (Operator.shiftLeft.meaning a.toInt b.toInt) ∧
      Agrees mem (opShiftRight mem a.raw b.raw) (Operator.shiftRight.meaning a.toInt b.toInt) := by
  obtain ⟨y, n, hcanonical⟩ := b
  cases hcanonical with
  | int j => exact ⟨shift_left_int_agrees mem a j, shift_right_int_agrees mem a j⟩
  | bignum _ _ _ hout =>
    simp only [FitsInt64] at hout
    have hint (s L) : isIntValue (.bignum s L) = true := rfl
    simp only [opShiftLeft, opShiftRight, isIntValue_raw, hint, meaning, Bool.and_self,
      if_true, Bool.not_true, Bool.or_self, Bool.false_eq_true, if_false]
    rw [if_neg (by omega), if_neg (by omega)]
    exact ⟨rfl, rfl⟩

lemma plain_agrees (op : Operator) (mem : Alloc) (i j : Int64) :
    Agrees mem (plainResult op mem i j) (op.meaning i.toInt j.toInt) := by
  cases op with
  | add =>
    simp only [plainResult, view_int]
    exact .promote (add_view_returns mem _ _)
  | subtract =>
    simp only [plainResult, view_int]
    exact .promote (subtract_view_returns mem _ _)
  | multiply =>
    simp only [plainResult, view_int]
    exact .promote (multiply_view_returns mem _ _)
  | divide => exact divide_plain_agrees mem i j
  | modulo => exact modulo_plain_agrees mem i j
  | shiftLeft => exact (shift_agrees mem ⟨_, _, .int i⟩ ⟨_, _, .int j⟩).1
  | shiftRight => exact (shift_agrees mem ⟨_, _, .int i⟩ ⟨_, _, .int j⟩).2
  | bitwiseAnd => exact .of_toInt ((bitwise_int64_toInt .and i j).trans (by rw [← bitwise_and]; rfl))
  | bitwiseOr => exact .of_toInt ((bitwise_int64_toInt .or i j).trans (by rw [← bitwise_or]; rfl))
  | bitwiseXor => exact .of_toInt ((bitwise_int64_toInt .xor i j).trans (by rw [← bitwise_xor]; rfl))
  | less | greater => simp [lt_iff_toInt_lt]
  | lessEqual | greaterEqual =>
    simp [le_iff_toInt_le]
  | equal =>
    have heq : (i == j) = decide (i.toInt = j.toInt) := by
      rw [Bool.eq_iff_iff, beq_iff_eq, decide_eq_true_eq, toInt_inj]
    simp [heq]
  | notEqual =>
    have hne : (i != j) = decide (i.toInt ≠ j.toInt) := by
      rw [Bool.eq_iff_iff, bne_iff_ne, decide_eq_true_eq, ne_eq, ne_eq, toInt_inj]
    simp [hne]
  | compare =>
    refine .of_toInt ?_
    simp only [gt_iff_lt, lt_iff_toInt_lt]
    split_ifs <;> rfl

lemma compare_zero_eq (n : ℤ) :
    diamondBignumCompare (viewOf n) (diamondIntViewInt64 0) = .eq ↔ n = 0 := by
  have hview : diamondIntViewInt64 0 = viewOf 0 := view_int 0
  rw [hview, compare_view, compare_eq_iff_eq]

section Mixed

variable {left right : DiamondValue} (h : Mixed left right) (mem : Alloc)
include h

lemma moduloSlow_mixed : moduloSlow mem left right =
      if diamondBignumCompare (diamondIntView right) (diamondIntViewInt64 0) = .eq then
        .error .divisionByZero else
        fromBignum (diamondBignumModuloFloored mem (diamondIntView left) (diamondIntView right)) := by
  rcases h.cases with ⟨i, s, L, rfl, rfl⟩ | ⟨s, L, j, rfl, rfl⟩ | ⟨s, L, t, M, rfl, rfl⟩ <;> rfl

lemma opBitwise_mixed (op : BitwiseOp) : opBitwise op mem left right =
      fromBignum (diamondBignumBitwise mem op (diamondIntView left) (diamondIntView right)) := by
  rcases h.cases with ⟨i, s, L, rfl, rfl⟩ | ⟨s, L, j, rfl, rfl⟩ | ⟨s, L, t, M, rfl, rfl⟩ <;> rfl

lemma opCompare_mixed : opCompare left right =
      match diamondBignumCompare (diamondIntView left) (diamondIntView right) with
      | .lt => .ok (.int (-1))
      | .gt => .ok (.int 1)
      | .eq => .ok (.int 0) := by
  rcases h.cases with ⟨i, s, L, rfl, rfl⟩ | ⟨s, L, j, rfl, rfl⟩ | ⟨s, L, t, M, rfl, rfl⟩ <;> rfl

end Mixed

lemma mixed_agrees (op : Operator) (mem : Alloc) (a b : IntValue) (h : Mixed a.raw b.raw) :
    Agrees mem (mixedResult op mem a.raw b.raw) (op.meaning a.toInt b.toInt) := by
  obtain ⟨ha, hb, hbig⟩ := id h
  have va := a.canonical.view
  have vb := b.canonical.view
  cases op
  case shiftLeft => exact (shift_agrees mem a b).1
  case shiftRight => exact (shift_agrees mem a b).2
  all_goals simp only [mixedResult, addFallback, arithMismatch, moduloSlow_mixed h,
    opBitwise_mixed h, opCompare_mixed h, ha, hb, hbig, Bool.and_self, if_true, va, vb, reduceCtorEq,
    if_false, compare_zero_eq, meaning]
  case add => exact .of_returns (add_view_returns mem _ _)
  case subtract => exact .of_returns (subtract_view_returns mem _ _)
  case multiply => exact .of_returns (multiply_view_returns mem _ _)
  case divide =>
    split_ifs with h0
    · rfl
    · exact .of_returns (divide_view_returns mem _ h0)
  case modulo =>
    split_ifs with h0
    · rfl
    · exact .of_returns (modulo_view_returns mem _ h0)
  case bitwiseAnd =>
    rw [← bitwise_and]
    exact .of_returns (bitwise_view_returns mem _ _ .and)
  case bitwiseOr =>
    rw [← bitwise_or]
    exact .of_returns (bitwise_view_returns mem _ _ .or)
  case bitwiseXor =>
    rw [← bitwise_xor]
    exact .of_returns (bitwise_view_returns mem _ _ .xor)
  case less | greaterEqual => simp [compare_lt_iff_lt]
  case lessEqual | greater => simp [compare_gt_iff_gt]
  case equal | notEqual => simp
  case compare =>
    rw [compare_view]
    rcases lt_trichotomy a.toInt b.toInt with hlt | heq | hgt
    · rw [compare_lt_iff_lt.2 hlt, if_pos hlt]
      exact .of_toInt rfl
    · rw [compare_eq_iff_eq.2 heq, if_neg heq.not_lt, if_neg heq.not_gt]
      exact .of_toInt rfl
    · rw [compare_gt_iff_gt.2 hgt, if_neg hgt.not_gt, if_pos hgt]
      exact .of_toInt rfl

/-- Every answer of an instruction on two Ints is the meaning of its operator. -/
lemma execute_agrees (mem : Alloc) (site : Site) (a b : IntValue) :
    Agrees mem (execute mem site a.raw b.raw).2 (site.code.operator.meaning a.toInt b.toInt) := by
  rcases plain_or_mixed a b with ⟨i, j, ⟨ha, hb⟩, hi, hj⟩ | hmixed
  · rw [ha, hb, execute_plain, hi, hj]
    exact plain_agrees _ mem i j
  · rw [execute_mixed hmixed]
    exact mixed_agrees _ mem a b hmixed

/-- Observing a site keeps the operator if the specialized opcode computes it too. -/
lemma observe_operator {specialized} (h : specialized.operator = site.code.operator) :
    (site.observe specialized).code.operator = site.code.operator := by
  rcases observe_code site specialized with hc | hc <;> rw [hc]
  exact h

lemma intArithSlow_site (mem : Alloc) (site : Site) (code : OpCode) (i j : Int64) :
    (intArithSlow mem site code (.int i) (.int j)).1 = site := by
  unfold intArithSlow
  split_ifs <;> rfl

/-- A checked handler ends at its own site or at the one its slow path leaves. -/
lemma storeChecked_site {P : Site → Prop} (hsite : P site) (hslow : P slow.1) (value : Option Int64) :
    P (storeChecked site value slow).1 := by
  cases value with
  | none => exact hslow
  | some => exact hsite

lemma arithInts_site (mem : Alloc) (site : Site) (code : OpCode) (i j : Int64) :
    (arithInts mem site code i j).1 = site := by
  unfold arithInts
  split_ifs
  · rfl
  · exact intArithSlow_site mem site code i j
  all_goals exact storeChecked_site (P := (· = site)) rfl (intArithSlow_site mem site code i j) _

lemma opSubtract_operator (mem : Alloc) (site : Site) (i j : Int64) :
    (opSubtract mem site (.int i) (.int j)).1.code.operator = site.code.operator := by
  have hsite : (opSubtract mem site (.int i) (.int j)).1 = (quickenArith site site.code).1 :=
    arithInts_site mem _ _ i j
  rw [hsite]
  unfold quickenArith
  split
  case h_4 => rfl
  all_goals exact observe_operator (by simp [*, OpCode.operator])

lemma opLess_operator (site : Site) (i j : Int64) :
    (opLess site (.int i) (.int j)).1.code.operator = site.code.operator := by
  have hsite : (opLess site (.int i) (.int j)).1 = (quickenCompare site site.code).1 := rfl
  rw [hsite]
  unfold quickenCompare
  split
  case h_5 => rfl
  all_goals exact observe_operator (by simp [*, OpCode.operator])

lemma opEqual_operator (site : Site) (i j : Int64) :
    (opEqual site (.int i) (.int j)).1.code.operator = site.code.operator := by
  simp only [opEqual]
  split
  case h_3 => rfl
  all_goals exact observe_operator (by simp [*, OpCode.operator])

/-- Quickening and deoptimization rewrite an instruction to another form of its operator, whatever
the operands are. -/
lemma execute_operator (mem : Alloc) (site : Site) (left right : DiamondValue) :
    (execute mem site left right).1.code.operator = site.code.operator := by
  obtain ⟨code, q, o, t, c, d⟩ := site
  by_cases hplain : ∃ i j, left = .int i ∧ right = .int j
  · obtain ⟨i, j, rfl, rfl⟩ := hplain
    cases code
    case add =>
      have hobserve : ((⟨.add, q, o, t, c, d⟩ : Site).observe .addInt).code.operator = .add :=
        observe_operator rfl
      exact storeChecked_site (P := (·.code.operator = .add)) hobserve hobserve _
    case addInt =>
      exact storeChecked_site (P := (·.code.operator = .add)) rfl (opSubtract_operator mem _ i j) _
    case subtractInt =>
      exact storeChecked_site (P := (·.code.operator = .subtract)) rfl
        (opSubtract_operator mem _ i j) _
    case multiplyInt =>
      exact storeChecked_site (P := (·.code.operator = .multiply)) rfl
        (opSubtract_operator mem _ i j) _
    case addIntK => exact storeChecked_site (P := (·.code.operator = .add)) rfl rfl _
    case subtractIntK => exact storeChecked_site (P := (·.code.operator = .subtract)) rfl rfl _
    case multiplyIntK => exact storeChecked_site (P := (·.code.operator = .multiply)) rfl rfl _
    case modulo | moduloIntK =>
      simp only [execute, opModulo, opModuloIntK]
      split_ifs <;> rfl
    case subtract | multiply | divide | divideInt => exact opSubtract_operator mem _ i j
    case less | lessEqual | greater | greaterEqual => exact opLess_operator _ i j
    case equal | notEqual => exact opEqual_operator _ i j
    all_goals rfl
  · -- only deoptimization rewrites the bytecode here
    cases left <;> cases right <;> cases code <;> first | rfl | simp at hplain

/-- The site after a history of executions with their operands. -/
def runSite (site : Site) : List (Alloc × DiamondValue × DiamondValue) → Site
  | [] => site
  | (mem, left, right) :: history => runSite (execute mem site left right).1 history

lemma runSite_operator (site : Site) (history : List (Alloc × DiamondValue × DiamondValue)) :
    (runSite site history).code.operator = site.code.operator := by
  induction history generalizing site with
  | nil => rfl
  | cons entry _ ih =>
    obtain ⟨_, _, _⟩ := entry
    rw [runSite, ih, execute_operator]

/-- The opcodes `int_arith_slow` is called with. -/
def slowForms : List OpCode :=
  [.add, .subtract, .multiply, .divide, .modulo, .addInt, .subtractInt, .multiplyInt, .divideInt]

lemma intArithSlow_agrees (mem : Alloc) (site : Site) {code} (hcode : code ∈ slowForms)
    (a b : IntValue) : Agrees mem (intArithSlow mem site code a.raw b.raw).2
      (code.operator.meaning a.toInt b.toInt) := by
  simp only [slowForms, List.mem_cons, List.not_mem_nil, or_false] at hcode
  rcases plain_or_mixed a b with ⟨i, j, ⟨ha, hb⟩, hi, hj⟩ | hmixed
  · have hadd := add_view_returns mem i.toInt j.toInt
    have hsub := subtract_view_returns mem i.toInt j.toInt
    have hmul := multiply_view_returns mem i.toInt j.toInt
    rw [← view_int, ← view_int] at hadd hsub hmul
    rw [ha, hb, hi, hj]
    rcases hcode with rfl | rfl | rfl | rfl | rfl | rfl | rfl | rfl | rfl
    · exact .of_returns hadd
    · exact .of_returns hsub
    · exact .of_returns hmul
    · exact divide_plain_agrees mem i j
    · exact modulo_plain_agrees mem i j
    · exact .of_returns hadd
    · exact .of_returns hsub
    · exact .of_returns hmul
    · exact divide_plain_agrees mem i j
  · have hresult : (intArithSlow mem site code a.raw b.raw).2
        = mixedResult code.operator mem a.raw b.raw := by
      rcases hmixed.cases with ⟨i, s, L, ha, hb⟩ | ⟨s, L, j, ha, hb⟩ | ⟨s, L, t, M, ha, hb⟩ <;>
        rw [ha, hb] <;>
        rcases hcode with rfl | rfl | rfl | rfl | rfl | rfl | rfl | rfl | rfl <;> rfl
    rw [hresult]
    exact mixed_agrees _ mem a b hmixed

lemma Agrees.eq_ok {result} (h : Agrees mem result (.int n)) (hv : Returns mem v n)
    (hmem : ∀ k, mem k = true) : result = .ok v := by
  rcases h with ⟨_, rfl, hcanonical⟩ | ⟨_, k, hk⟩
  · rcases hv with hv | ⟨_, k, hk⟩
    · rw [hcanonical.unique hv]
    · exact absurd (hmem k) (by rw [hk]; exact Bool.false_ne_true)
  · exact absurd (hmem k) (by rw [hk]; exact Bool.false_ne_true)

lemma fmod_bounds (a : ℤ) {b} (hb : b ≠ 0) :
    |a.fmod b| < |b| ∧ (a.fmod b = 0 ∨ (a.fmod b).sign = b.sign) := by
  have hnonneg := emod_nonneg a hb
  have hlt := emod_lt_abs a hb
  have hdvd : b ∣ a ↔ a % b = 0 := dvd_iff_emod_eq_zero
  rw [fmod_eq_emod]
  rcases lt_or_gt_of_ne hb with hneg | hpos
  · rw [abs_of_neg hneg] at hlt ⊢
    rw [sign_eq_neg_one_of_neg hneg, sign_eq_neg_one_iff_neg, abs_lt]
    split_ifs <;> omega
  · rw [abs_of_pos hpos] at hlt ⊢
    rw [sign_eq_one_of_pos hpos, sign_eq_one_iff_pos, abs_lt, if_pos (.inl hpos.le)]
    omega

/-- An answer is the integer `n`, and the value that a Bignum routine gives for it when no allocation
fails. -/
def AnswersAs (mem : Alloc) (v : DiamondValue) (n : ℤ) (result : Result) : Prop :=
  Agrees mem result (.int n) ∧ ((∀ k, mem k = true) → result = .ok v)

lemma AnswersAs.of_agrees {result o}
    (h : Agrees mem result o) (ho : o = .int n) (hv : Returns mem v n) : AnswersAs mem v n result := by
  subst ho
  exact ⟨h, h.eq_ok hv⟩

/-- Quotient and remainder of any Ints are floored, in the Bignum routines and in every form of the
instructions, whichever path they take. -/
theorem floored_division_exact (mem : Alloc) (a b : IntValue) (hb : b.toInt ≠ 0) :
    let quotient := diamondBignumDivideFloored mem (diamondIntView a.raw) (diamondIntView b.raw)
    let remainder := diamondBignumModuloFloored mem (diamondIntView a.raw) (diamondIntView b.raw)
    ∃ q r : ℤ, a.toInt = q * b.toInt + r ∧ |r| < |b.toInt| ∧ (r = 0 ∨ r.sign = b.toInt.sign) ∧
      Returns mem quotient q ∧ Returns mem remainder r ∧
      ∀ site : Site,
        (site.code.operator = .divide → AnswersAs mem quotient q (execute mem site a.raw b.raw).2) ∧
        (site.code.operator = .modulo →
          AnswersAs mem remainder r (execute mem site a.raw b.raw).2) ∧
        ∀ code ∈ slowForms,
          (code.operator = .divide →
            AnswersAs mem quotient q (intArithSlow mem site code a.raw b.raw).2) ∧
          (code.operator = .modulo →
            AnswersAs mem remainder r (intArithSlow mem site code a.raw b.raw).2) := by
  intro quotient remainder
  have hquotient : Returns mem quotient (a.toInt.fdiv b.toInt) := by
    have hview := divide_view_returns mem a.toInt hb
    rwa [← a.canonical.view, ← b.canonical.view] at hview
  have hremainder : Returns mem remainder (a.toInt.fmod b.toInt) := by
    have hview := modulo_view_returns mem a.toInt hb
    rwa [← a.canonical.view, ← b.canonical.view] at hview
  have hdivide : divide.meaning a.toInt b.toInt = .int (a.toInt.fdiv b.toInt) := if_neg hb
  have hmodulo : modulo.meaning a.toInt b.toInt = .int (a.toInt.fmod b.toInt) := if_neg hb
  refine ⟨_, _, ?_, ?_, ?_, hquotient, hremainder, fun site => ⟨fun hop => ?_, fun hop => ?_,
    fun code hcode => ⟨fun hop => ?_, fun hop => ?_⟩⟩⟩
  · rw [mul_comm]
    exact (Int.mul_fdiv_add_fmod a.toInt b.toInt).symm
  · exact (fmod_bounds _ hb).1
  · exact (fmod_bounds _ hb).2
  · exact .of_agrees (hop ▸ execute_agrees mem site a b) hdivide hquotient
  · exact .of_agrees (hop ▸ execute_agrees mem site a b) hmodulo hremainder
  · exact .of_agrees (hop ▸ intArithSlow_agrees mem site hcode a b) hdivide hquotient
  · exact .of_agrees (hop ▸ intArithSlow_agrees mem site hcode a b) hmodulo hremainder

theorem floored_division_exact_min : ∃ q r : ℤ, Int64.minValue.toInt = q * (-1 : Int64).toInt + r ∧
      Returns (fun _ => true) (diamondBignumDivideFloored (fun _ => true)
        (diamondIntView (.int Int64.minValue)) (diamondIntView (.int (-1)))) q := by
  obtain ⟨q, r, hsum, -, -, hquotient, -⟩ := floored_division_exact (fun _ => true)
    ⟨_, _, .int Int64.minValue⟩ ⟨_, _, .int (-1)⟩ (by decide)
  exact ⟨q, r, hsum, hquotient⟩

/-- On all Ints, small or Bignum, an instruction answers with the exact integer or Bool of its
operator, or with the operator's error, after any history of its site. All forms of the instruction
give the same answer, and so does the slow path on its own. -/
theorem int_operators_exact (site : Site) (history : List (Alloc × DiamondValue × DiamondValue))
    (mem : Alloc) (a b : IntValue) : Agrees mem (execute mem (runSite site history) a.raw b.raw).2
        (site.code.operator.meaning a.toInt b.toInt) ∧
      (∀ form : Site, form.code.operator = site.code.operator →
        (execute mem form a.raw b.raw).2 = (execute mem (runSite site history) a.raw b.raw).2) ∧
      ∀ code ∈ slowForms, code.operator = site.code.operator →
        Agrees mem (intArithSlow mem (runSite site history) code a.raw b.raw).2
          (site.code.operator.meaning a.toInt b.toInt) := by
  have hop := runSite_operator site history
  refine ⟨?_, ?_, ?_⟩
  · rw [← hop]
    exact execute_agrees mem _ a b
  · intro form hform
    exact execute_congr mem form _ (hform.trans hop.symm) a b
  · intro code hcode hcodeop
    rw [← hcodeop]
    exact intArithSlow_agrees mem _ hcode a b

end Diamond.Operators
