import Mathlib.Data.List.DropRight
import Mathlib.Tactic

/-!
# Positional numerals

Little-endian digit lists over an arbitrary base, on top of Mathlib's `Nat.ofDigits` and
`Nat.digits`. `Below b L` says that every digit of `L` is a digit of base `b`; `Normal b L` adds
that there is no leading zero, so that `L` is *the* numeral of its value (`Normal.eq_digits`).
`trim` drops leading zeros, and `compareTop` compares two digit lists of one length from the most
significant end.
-/

namespace Diamond.Positional

open List Nat

open Nat (ofDigits digits)

/-- Every entry of the list is a digit of base `b`. -/
def Below (b : ℕ) (L : List ℕ) : Prop := ∀ d ∈ L, d < b

/-- A digit list with no leading zero. -/
structure Normal (b : ℕ) (L : List ℕ) : Prop where
  below : Below b L
  top : ∀ h : L ≠ [], L.getLast h ≠ 0

lemma below_nil {b} : Below b [] := by
  intro d hd
  cases hd

lemma below_cons {b d L} : Below b (d :: L) ↔ d < b ∧ Below b L := by
  simp [Below]

lemma below_append {b L M} : Below b (L ++ M) ↔ Below b L ∧ Below b M := by
  simp only [Below, mem_append]
  constructor
  · intro h
    exact ⟨fun d hd => h d (.inl hd), fun d hd => h d (.inr hd)⟩
  · rintro ⟨hL, hM⟩ d (hd | hd)
    · exact hL d hd
    · exact hM d hd

lemma below_reverse {b L} : Below b L.reverse ↔ Below b L := by
  simp [Below]

lemma below_replicate_zero {b n} (hb : 0 < b) : Below b (replicate n 0) := by
  intro d hd
  rw [eq_of_mem_replicate hd]
  exact hb

/-- Reading past the end of a numeral gives the digit zero. -/
lemma Below.headD {b L} (hb : 0 < b) (h : Below b L) : L.headD 0 < b := by
  cases L with
  | nil => exact hb
  | cons => exact (below_cons.1 h).1

lemma Below.tail {b L} (h : Below b L) : Below b L.tail := by
  cases L with
  | nil => exact h
  | cons => exact (below_cons.1 h).2

/-- A numeral is its lowest digit plus the base times the rest, also past its end. -/
lemma ofDigits_headD_tail (b : ℕ) (L : List ℕ) :
    ofDigits b L = L.headD 0 + b * ofDigits b L.tail := by
  cases L with
  | nil => simp
  | cons => simp [ofDigits_cons]

lemma Below.ofDigits_lt {b L} (hb : 1 < b) (h : Below b L) : ofDigits b L < b ^ L.length :=
  ofDigits_lt_base_pow_length hb h

/-- A normal digit list is the numeral of its value. -/
lemma Normal.eq_digits {b L} (hb : 1 < b) (h : Normal b L) : L = digits b (ofDigits b L) :=
  (digits_ofDigits b hb L h.below h.top).symm

/-- Numerals are normal. -/
lemma normal_digits {b : ℕ} (hb : 1 < b) (n : ℕ) : Normal b (digits b n) where
  below := fun _ hd => digits_lt_base hb hd
  top := fun h => getLast_digit_ne_zero b (digits_ne_nil_iff_ne_zero.1 h)

/-- A normal digit list of `n` digits is at least the weight of its top digit. -/
lemma Normal.pow_le {b L} (hb : 1 < b) (h : Normal b L) (hL : L ≠ []) :
    b ^ (L.length - 1) ≤ ofDigits b L := by
  have hpos : 0 < L.length := length_pos_iff.2 hL
  obtain ⟨c, rfl⟩ : ∃ c, b = c + 2 := ⟨b - 2, by omega⟩
  have hle := pow_length_le_mul_ofDigits (b := c) hL (h.top hL)
  rw [show L.length = (L.length - 1) + 1 by omega, pow_succ] at hle
  nlinarith [hle]

/-- A digit list at least as large as the weight of its top position has no leading zero. -/
lemma Normal.of_pow_le {b L} (hb : 1 < b) (h : Below b L)
    (hle : L ≠ [] → b ^ (L.length - 1) ≤ ofDigits b L) : Normal b L where
  below := h
  top := by
    intro hL hz
    specialize hle hL
    -- the digits below a zero top digit cannot reach the weight of the top position
    obtain ⟨M, d, rfl⟩ := eq_nil_or_concat L |>.resolve_left hL
    simp only [concat_eq_append, getLast_append_singleton] at hz
    subst hz
    have hM : Below b M := (below_append.1 (by simpa using h)).1
    have hlt := hM.ofDigits_lt hb
    simp [ofDigits_append] at hle
    omega

/-- Drops leading zeros. -/
def trim (L : List ℕ) : List ℕ := L.rdropWhile (· == 0)

lemma Below.trim {b L} (h : Below b L) : Below b (trim L) :=
  fun d hd => h d (( rdropWhile_prefix _ L).subset hd)

/-- A trimmed digit list is normal. -/
lemma trim_normal {b L} (h : Below b L) : Normal b (trim L) where
  below := h.trim
  top := by
    intro hL
    have := rdropWhile_last_not (fun d : ℕ => d == 0) L hL
    simpa [trim] using this

/-- Trimming keeps the value. -/
lemma ofDigits_trim (b : ℕ) (L : List ℕ) : ofDigits b (trim L) = ofDigits b L := by
  induction L using reverseRecOn with
  | nil => rfl
  | append_singleton L d ih =>
    by_cases hd : d = 0
    · subst hd
      rw [trim, rdropWhile_concat_pos _ _ _ (by simp)]
      rw [show rdropWhile (fun d => d == 0) L = trim L from rfl, ih]
      simp
    · rw [trim, rdropWhile_concat_neg _ _ _ (by simpa using hd)]

/-- Trimming gives the numeral of the value. -/
lemma trim_eq_digits {b L} (hb : 1 < b) (h : Below b L) : trim L = digits b (ofDigits b L) := by
  rw [(trim_normal h).eq_digits hb, ofDigits_trim]

/-- The number that a run of digits denotes, the most significant one first. -/
def horner (radix : ℕ) (run : List ℕ) : ℕ := run.foldl (fun n d => n * radix + d) 0

lemma horner_eq_ofDigits (radix : ℕ) (run : List ℕ) :
    horner radix run = ofDigits radix run.reverse := by
  induction run using reverseRecOn with
  | nil => rfl
  | append_singleton run d ih =>
    rw [horner, foldl_append, reverse_append, reverse_singleton,
      singleton_append, ofDigits_cons, ← ih]
    show horner radix run * radix + d = d + radix * horner radix run
    ring

/-- Compares two digit lists given most significant digit first. -/
def compareTop : List ℕ → List ℕ → Ordering
  | x :: xs, y :: ys => if x = y then compareTop xs ys else if x < y then .lt else .gt
  | _, _ => .eq

/-- Digit by digit comparison orders lists of one length by value. -/
lemma compareTop_reverse {b} (hb : 1 < b) :
    ∀ {X Y : List ℕ}, X.length = Y.length → Below b X → Below b Y →
      compareTop X Y = compare (ofDigits b X.reverse) (ofDigits b Y.reverse)
  | [], [], _, _, _ => by simp [compareTop]
  | x :: X, y :: Y, hlen, hX, hY => by
    obtain ⟨hx, hX⟩ := below_cons.1 hX
    obtain ⟨hy, hY⟩ := below_cons.1 hY
    have hlen' : X.length = Y.length := by simpa using hlen
    have ih := compareTop_reverse hb hlen' hX hY
    have lX := (below_reverse.2 hX).ofDigits_lt hb
    have lY := (below_reverse.2 hY).ofDigits_lt hb
    simp only [length_reverse] at lX lY
    rw [← hlen'] at lY
    simp only [compareTop, reverse_cons, Nat.ofDigits_append, Nat.ofDigits_singleton,
      length_reverse, ← hlen']
    split_ifs with hxy hlt
    · subst hxy
      rw [ih]
      simp only [compare, compareOfLessAndEq]
      split_ifs <;> first | rfl | omega
    · -- a smaller leading digit decides, whatever follows
      have : b ^ X.length * (x + 1) ≤ b ^ X.length * y := Nat.mul_le_mul_left _ hlt
      rw [Nat.mul_add] at this
      symm
      rw [Nat.compare_eq_lt]
      omega
    · have : b ^ X.length * (y + 1) ≤ b ^ X.length * x := Nat.mul_le_mul_left _ (by omega)
      rw [Nat.mul_add] at this
      symm
      rw [Nat.compare_eq_gt]
      omega

end Diamond.Positional
