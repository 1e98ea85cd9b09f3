import Mathlib.Data.Int.Cast.Basic
import Mathlib.Data.List.Basic
import Mathlib.Data.List.TakeDrop

/-!
# Lazy pipelines

Model of `LazyEnumerator` in `lib/core.d6`, over blocks without side effects.  A run of `each_until`
comes with the number of elements that it pulled from the source.
-/

namespace Diamond.Prelude

open List

/-- An entry of `@operations`. -/
inductive Operation (V : Type*)
  | map (transform : V → V)
  | select (transform : V → Bool)
  | reject (transform : V → Bool)

/-- A finite source. -/
inductive Source (V : Type*)
  | array (values : List V)
  | hash (pairs : List (V × V))
  | range (start stop : ℤ) (exclusive : Bool)
  | enumerable (items : List V)

structure LazyEnumerator (V : Type*) where
  source : Source V
  operations : List (Operation V)

variable {V σ : Type*}

def LazyEnumerator.append (lazy : LazyEnumerator V) (operation : Operation V) : LazyEnumerator V :=
  ⟨lazy.source, lazy.operations ++ [operation]⟩

/-- The loop of `array_each_until`, `hash_each_until` and `Range#each_until`. -/
def arrayEachUntil (callback : V → σ → Bool × σ) : List V → σ → ℕ × σ
  | [], state => (0, state)
  | value :: values, state =>
    if (callback value state).1 then
      let rest := arrayEachUntil callback values (callback value state).2
      (rest.1 + 1, rest.2)
    else
      (1, (callback value state).2)

attribute [local simp] arrayEachUntil

/-- `Enumerable#each_until`: the `each` of the class goes on to its end. -/
def enumerableEachUntil (callback : V → σ → Bool × σ) (items : List V) (state : σ) : ℕ × σ :=
  (items.length, (items.foldl (fun (visited : Bool × σ) value =>
    if visited.1 then callback value visited.2 else visited) (true, state)).2)

/-- `process`, up to the call of the callback for a value that is accepted. -/
def process : List (Operation V) → V → Option V
  | [], value => some value
  | .map transform :: operations, value => process operations (transform value)
  | .select transform :: operations, value =>
    if transform value then process operations value else none
  | .reject transform :: operations, value =>
    if transform value then none else process operations value

/-- One stage on a whole Array: `array_map`, `diamond_array_select` or `array_reject`. -/
def Operation.eager : Operation V → List V → List V
  | .map transform, values => values.map transform
  | .select transform, values => values.filter transform
  | .reject transform, values => values.filter (!transform ·)

def eagerly (operations : List (Operation V)) (values : List V) : List V :=
  operations.foldl (fun values operation => operation.eager values) values

def takeValue (count : ℤ) (value : V) (result : List V) : Bool × List V :=
  (decide ((result ++ [value]).length < count), result ++ [value])

variable [IntCast V]

def Source.elements : Source V → List V
  | .array values => values
  | .hash pairs => pairs.map Prod.snd
  | .range start stop exclusive =>
    (List.range ((if exclusive then stop else stop + 1) - start).toNat).map
      fun i => ((start + i : ℤ) : V)
  | .enumerable items => items

def Source.eachUntil (callback : V → σ → Bool × σ) (state : σ) : Source V → ℕ × σ
  | .enumerable items => enumerableEachUntil callback items state
  | source => arrayEachUntil callback source.elements state

namespace LazyEnumerator
variable (lazy : LazyEnumerator V)

def eachUntil (callback : V → σ → Bool × σ) (state : σ) : ℕ × σ :=
  lazy.source.eachUntil (fun value state =>
    ((process lazy.operations value).elim (true, state) (callback · state))) state

def each (callback : V → σ → σ) (state : σ) : ℕ × σ :=
  lazy.eachUntil (fun value state => (true, callback value state)) state

def take (count : ℤ) : ℕ × List V :=
  if count > 0 then lazy.eachUntil (takeValue count) [] else (0, [])

def find (callback : V → Bool) : ℕ × Option V :=
  lazy.eachUntil (fun value result => if callback value then (false, some value) else (true, result))
    none

def any (callback : V → Bool) : ℕ × Bool :=
  lazy.eachUntil (fun value _ => (!callback value, callback value)) false

def all (callback : V → Bool) : ℕ × Bool :=
  lazy.eachUntil (fun value _ => (callback value, callback value)) true

def force : List V := (lazy.each (fun item result => result ++ [item]) []).2

end LazyEnumerator

section
omit [IntCast V]

lemma eagerly_eq (operations : List (Operation V)) (values : List V) :
    eagerly operations values = values.filterMap (process operations) := by
  induction operations generalizing values with
  | nil => exact filterMap_some.symm
  | cons operation _ ih =>
    refine (ih _).trans ?_
    cases operation <;> simp [Operation.eager, process, filterMap_filter]
    case reject => exact congrArg (List.filterMap · values) (funext fun x => by split <;> simp_all)

lemma enumerableEachUntil_state (callback : V → σ → Bool × σ) (items : List V) (state : σ) :
    (enumerableEachUntil callback items state).2 = (arrayEachUntil callback items state).2 := by
  induction items generalizing state with
  | nil => rfl
  | cons value _ ih =>
    rcases hcall : callback value state with ⟨_ | _, next⟩
    · simp only [enumerableEachUntil, arrayEachUntil, foldl_cons, hcall, if_true]
      rw [foldl_fixed' (fun _ => if_neg Bool.false_ne_true)]
      rfl
    · simpa [enumerableEachUntil, hcall] using ih next

lemma arrayEachUntil_take {count : ℤ} (values result : List V) (h : result.length < count) :
    (arrayEachUntil (takeValue count) values result).2 =
      result ++ values.take (count.toNat - result.length) := by
  induction values generalizing result with
  | nil => simp
  | cons _ _ ih =>
    obtain ⟨n, hn⟩ := Nat.exists_eq_succ_of_ne_zero (n := count.toNat - result.length) (by omega)
    simp only [arrayEachUntil, takeValue, decide_eq_true_eq, hn, take_succ_cons]
    split
    · rename_i hnext
      simp [ih _ hnext, show count.toNat - (result.length + 1) = n by omega]
    · rename_i hlast
      simp only [length_append, length_singleton] at hlast
      simp [show n = 0 by omega]

/-- The loop stops at the element that gives the last of the results. -/
lemma arrayEachUntil_pulled {count : ℤ} (operations : List (Operation V)) (values result : List V)
    (h : result.length < count) (k : ℕ)
    (hk : count ≤ result.length + ((values.take k).filterMap (process operations)).length) :
    (arrayEachUntil (fun value state =>
      (process operations value).elim (true, state) (takeValue count · state)) values result).1 ≤ k := by
  induction values generalizing result k with
  | nil => exact Nat.zero_le k
  | cons value _ ih =>
    cases k with
    | zero => simp at hk; omega
    | succ k =>
      cases hprocess : process operations value with
      | none => simpa [hprocess] using ih result h k (by simpa [hprocess] using hk)
      | some =>
        simp only [arrayEachUntil, hprocess, Option.elim, takeValue, decide_eq_true_eq]
        split
        · rename_i hnext
          refine Nat.succ_le_succ (ih _ hnext k ?_)
          simp [hprocess] at hk ⊢
          omega
        · exact Nat.succ_le_succ (Nat.zero_le k)

end

/-- The callback sees what the stages give for the whole source, until it stops. -/
lemma eachUntil_state (lazy : LazyEnumerator V) (callback : V → σ → Bool × σ) (state : σ) :
    (lazy.eachUntil callback state).2 =
      (arrayEachUntil callback (eagerly lazy.operations lazy.source.elements) state).2 := by
  have hsource : ∀ (source : Source V) (callback : V → σ → Bool × σ),
      (source.eachUntil callback state).2 = (arrayEachUntil callback source.elements state).2 := by
    intro source callback
    cases source <;> first | rfl | exact enumerableEachUntil_state _ _ _
  rw [LazyEnumerator.eachUntil, hsource, eagerly_eq]
  clear hsource
  induction lazy.source.elements generalizing state with
  | nil => rfl
  | cons value _ ih =>
    cases hprocess : process lazy.operations value with
    | none => simp [hprocess, ih]
    | some =>
      rw [filterMap_cons_some hprocess]
      simp only [arrayEachUntil, hprocess, Option.elim_some]
      split
      · exact ih _
      · rfl

/-- A pipeline gives what its stages give one after the other on Arrays.  `take` pulls no element
after the one that completes its result, unless the source has no `each_until` of its own. -/
theorem lazy_eq_eager (lazy : LazyEnumerator V) (count : ℤ) (p : V → Bool) :
    let results := eagerly lazy.operations lazy.source.elements
    lazy.force = results ∧ (lazy.take count).2 = results.take count.toNat ∧
      (lazy.find p).2 = results.find? p ∧ (lazy.any p).2 = results.any p ∧
      (lazy.all p).2 = results.all p ∧
      (∀ operation, eagerly (lazy.append operation).operations lazy.source.elements =
        operation.eager results) ∧
      ((∀ items, lazy.source ≠ .enumerable items) → ∀ k,
        count ≤ (eagerly lazy.operations (lazy.source.elements.take k)).length →
          (lazy.take count).1 ≤ k) := by
  have hcollect : ∀ values before : List V,
      (arrayEachUntil (fun item result => (true, result ++ [item])) values before).2 =
        before ++ values := by
    intro values
    induction values <;> simp [*]
  refine ⟨(eachUntil_state ..).trans (hcollect _ []), ?_, ?_, ?_, ?_,
    fun operation => List.foldl_append, fun hsource k hk => ?_⟩
  · unfold LazyEnumerator.take
    split
    · rename_i hpos
      exact (eachUntil_state ..).trans (arrayEachUntil_take _ [] hpos)
    · simp [Int.toNat_of_nonpos (Int.not_lt.1 ‹_›)]
  case refine_5 =>
    unfold LazyEnumerator.take
    split
    · rename_i hpos
      rw [eagerly_eq] at hk
      have hpulled := arrayEachUntil_pulled _ lazy.source.elements [] hpos k (by simpa using hk)
      rcases lazy with ⟨_ | _ | _ | _, _⟩
      case enumerable => exact absurd rfl (hsource _)
      all_goals exact hpulled
    · exact Nat.zero_le k
  all_goals
    refine (eachUntil_state ..).trans ?_
    induction eagerly lazy.operations lazy.source.elements with
    | nil => rfl
    | cons value _ ih => cases hp : p value <;> simp [hp, ih]

/-- Of an Enumerable that has only `each`, `take(1)` pulls all. -/
theorem take_pulls_all : (⟨.enumerable [1, 2], []⟩ : LazyEnumerator ℤ).take 1 = (2, [1]) := by
  decide

end Diamond.Prelude
