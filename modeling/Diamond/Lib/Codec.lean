import Mathlib.Data.List.DropRight
import Mathlib.Data.Nat.Digits.Defs

/-!
# Readers of byte strings

A `Reader` takes bytes off the front of its input or fails.  `Reads r bytes a` says that `r` reads
`bytes` as the value `a` whatever follows them; the rules below compose it along the reader's
structure, so that a decoder is shown to invert an encoder piece by piece.
-/

namespace Diamond.Codec

open List

abbrev Bytes := List UInt8

/-- A decoder: the value read and the rest of the input. -/
abbrev Reader := StateT Bytes Option

variable {α β : Type}

/-- The next `n` bytes. -/
def take (n : ℕ) : Reader Bytes := fun input =>
  if n ≤ input.length then some (input.take n, input.drop n) else none

/-- Fails unless the condition holds. -/
def require (p : Prop) [Decidable p] : Reader Unit := fun input =>
  if p then some ((), input) else none

/-- Fails unless `count` records of `size` bytes fit in what is left. -/
def fits (count size : ℕ) : Reader Unit := fun input =>
  if input.length / size < count then none else some ((), input)

/-- `n` values, one after the other. -/
def many (r : Reader α) : ℕ → Reader (List α)
  | 0 => pure []
  | n + 1 => do
    let a ← r
    let as ← many r n
    return a :: as

/-- A number of a given width, least significant byte first. -/
def toBytes : ℕ → ℕ → Bytes
  | 0, _ => []
  | width + 1, n => UInt8.ofNat (n % 256) :: toBytes width (n / 256)

def ofBytes : Bytes → ℕ
  | [] => 0
  | b :: bs => b.toNat + 256 * ofBytes bs

/-- A number that takes `width` bytes. -/
def word (width : ℕ) : Reader ℕ := ofBytes <$> take width

/-- A byte string of a fixed length. -/
@[ext]
structure Block (n : ℕ) where
  bytes : Bytes
  length_bytes : bytes.length = n
  deriving DecidableEq

/-- The next `n` bytes as a block. -/
def block (n : ℕ) : Reader (Block n) := fun input =>
  if h : n ≤ input.length then some (⟨input.take n, List.length_take_of_le h⟩, input.drop n)
  else none

/-- The block of zeros. -/
def Block.zero (n : ℕ) : Block n := ⟨List.replicate n 0, List.length_replicate⟩

/-- The reader reads `bytes` as `a`, whatever follows them. -/
def Reads (r : Reader α) (bytes : Bytes) (a : α) : Prop :=
  ∀ rest, r (bytes ++ rest) = some (a, rest)

lemma Reads.pure (a : α) : Reads (Pure.pure a) [] a := fun _ => rfl

variable {r : Reader α} {bytes : Bytes}

lemma Reads.bind {k : α → Reader β} {bytes' a} {b : β} (hr : Reads r bytes a)
    (hk : Reads (k a) bytes' b) : Reads (r >>= k) (bytes ++ bytes') b := by
  intro rest
  show (r (bytes ++ bytes' ++ rest)).bind (fun p => k p.1 p.2) = some (b, rest)
  rw [append_assoc, hr, Option.bind_some]
  exact hk rest

/-- The last step of a reader. -/
lemma Reads.map {f : α → β} {a} (hr : Reads r bytes a) : Reads (f <$> r) bytes (f a) := by
  intro rest
  show (r (bytes ++ rest)).bind (fun p => some (f p.1, p.2)) = some (f a, rest)
  rw [hr, Option.bind_some]

lemma Reads.take {n} (h : bytes.length = n) : Reads (Codec.take n) bytes bytes := by
  intro rest
  have hle : n ≤ (bytes ++ rest).length := by
    rw [length_append, h]
    exact Nat.le_add_right _ _
  rw [Codec.take, if_pos hle, take_left' h, drop_left' h]

lemma Reads.block {n} (x : Block n) : Reads (Codec.block n) x.bytes x := by
  intro rest
  have hle : n ≤ (x.bytes ++ rest).length := by
    rw [length_append, x.length_bytes]
    exact Nat.le_add_right _ _
  simp only [Codec.block, dif_pos hle, take_left' x.length_bytes, drop_left' x.length_bytes]

/-- A check that passes takes nothing. -/
lemma Reads.require {p : Prop} [Decidable p] {k : Unit → Reader α} {a} (h : p)
    (hk : Reads (k ()) bytes a) : Reads (Codec.require p >>= k) bytes a := by
  intro rest
  show (Codec.require p (bytes ++ rest)).bind (fun q => k q.1 q.2) = some (a, rest)
  rw [Codec.require, if_pos h]
  exact hk rest

/-- The check against what is left passes before a reader that takes at least that much. -/
lemma Reads.fits {count size a} (hsize : 0 < size) (hbytes : count * size ≤ bytes.length)
    (hr : Reads r bytes a) : Reads (do Codec.fits count size; r) bytes a := by
  intro rest
  have hfits : ¬(bytes ++ rest).length / size < count := by
    rw [not_lt, Nat.le_div_iff_mul_le hsize, length_append]
    exact hbytes.trans (Nat.le_add_right _ _)
  show (Codec.fits count size (bytes ++ rest)).bind (fun p => r p.2) = some (a, rest)
  rw [Codec.fits, if_neg hfits, Option.bind_some]
  exact hr rest

/-- A sequence of records, each read as its image under `f`. -/
lemma Reads.many {r} {write : α → Bytes} {f : α → β} {as : List α}
    (h : ∀ a ∈ as, Reads r (write a) (f a)) :
    Reads (Codec.many r as.length) (as.flatMap write) (as.map f) := by
  induction as with
  | nil => exact Reads.pure []
  | cons a as ih =>
    rw [flatMap_cons]
    apply Reads.bind (h a mem_cons_self)
    rw [← append_nil (as.flatMap write)]
    apply Reads.bind (ih fun a ha => h a (mem_cons_of_mem _ ha))
    exact Reads.pure _

/-- A sequence of records that are read as they were written. -/
lemma Reads.all {write as n} (h : ∀ a ∈ as, Reads r (write a) a)
    (hn : as.length = n) : Reads (Codec.many r n) (as.flatMap write) as := by
  subst hn
  have hread : Reads (Codec.many r as.length) (as.flatMap write) (as.map id) := Reads.many h
  rwa [map_id] at hread

@[simp]
lemma length_toBytes (width n : ℕ) : (toBytes width n).length = width := by
  induction width generalizing n with
  | zero => rfl
  | succ _ ih => rw [toBytes, length_cons, ih]

lemma ofBytes_toBytes {width n} (h : n < 256 ^ width) : ofBytes (toBytes width n) = n := by
  induction width generalizing n with
  | zero =>
    rw [Nat.pow_zero, Nat.lt_one_iff] at h
    exact h.symm
  | succ width ih =>
    have hdiv : n / 256 < 256 ^ width := by
      apply Nat.div_lt_of_lt_mul
      rwa [Nat.pow_succ, Nat.mul_comm] at h
    have hmod : (UInt8.ofNat (n % 256)).toNat = n % 256 :=
      UInt8.toNat_ofNat_of_lt (Nat.mod_lt _ (by decide))
    rw [toBytes, ofBytes, ih hdiv, hmod, Nat.mod_add_div]

lemma Reads.word {width n} (h : n < 256 ^ width) :
    Reads (Codec.word width) (toBytes width n) n := by
  have hread : Reads (Codec.word width) (toBytes width n) (ofBytes (toBytes width n)) :=
    (Reads.take (length_toBytes width n)).map
  rwa [ofBytes_toBytes h] at hread

end Diamond.Codec
