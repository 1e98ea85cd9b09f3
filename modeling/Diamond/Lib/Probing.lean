import Mathlib.Data.List.GetD
import Mathlib.Data.List.Perm.Subperm
import Mathlib.Data.Nat.ModEq

/-!
# Open addressing

A table of slots, each empty or holding an index, in which an index is put into the first empty slot
at or after its home slot and is searched for along the same way.  `Chain` is the invariant: every
index stands behind smaller ones only, on an unbroken way from its home.  From it a search finds the
smallest index that matches (`Chain.search_eq_some`), whatever the match is.

The way from slot to slot is a function `next`; the invariant does not depend on it, only that a way
exists to every slot does (`Round`).
-/

namespace Diamond.Probing

open List Nat

variable {table : List (Option ℕ)} {next : ℕ → ℕ} {home : ℕ → ℕ} {count : ℕ}

/-- The first index that satisfies `p` among the next `probes` slots from `slot`, up to an empty
one. -/
def search (table : List (Option ℕ)) (next : ℕ → ℕ) (p : ℕ → Bool) : ℕ → ℕ → Option ℕ
  | 0, _ => none
  | probes + 1, slot =>
    match table.getD slot none with
    | none => none
    | some index => if p index then some index else search table next p probes (next slot)

/-- The first empty one of the next `probes` slots from `slot`. -/
def firstFree (table : List (Option ℕ)) (next : ℕ → ℕ) : ℕ → ℕ → Option ℕ
  | 0, _ => none
  | probes + 1, slot =>
    match table.getD slot none with
    | none => some slot
    | some _ => firstFree table next probes (next slot)

/-- `Path table next Q s d t`: from slot `s` one comes in `d` steps to slot `t`, past slots that
hold indices satisfying `Q`. -/
inductive Path (table : List (Option ℕ)) (next : ℕ → ℕ) (Q : ℕ → Prop) : ℕ → ℕ → ℕ → Prop
  | here {s} : Path table next Q s 0 s
  | step {s d t index} : table.getD s none = some index → Q index →
      Path table next Q (next s) d t → Path table next Q s (d + 1) t

variable {s t probes : ℕ} {p : ℕ → Bool}

lemma Path.mono {Q Q' d} (h : Path table next Q s d t) (hQ : ∀ i, Q i → Q' i) :
    Path table next Q' s d t := by
  induction h with
  | here => exact .here
  | step hs hi _ ih => exact .step hs (hQ _ hi) ih

/-- Filling an empty slot breaks no path. -/
lemma Path.set {Q d u index} (h : Path table next Q s d t)
    (hu : table.getD u none = none) : Path (table.set u (some index)) next Q s d t := by
  induction h with
  | here => exact .here
  | @step s d t i hs hi _ ih =>
    refine .step ?_ hi ih
    have hne : u ≠ s := by
      rintro rfl
      rw [hu] at hs
      cases hs
    rw [← hs]
    simp only [getD_eq_getElem?_getD, getElem?_set_ne hne]

/-- A search runs down a path of indices that do not match. -/
lemma Path.search {d i} (h : Path table next (fun j => p j = false) s d t)
    (ht : table.getD t none = some i) (hp : p i = true) (hd : d < probes) :
    search table next p probes s = some i := by
  induction h generalizing probes with
  | here =>
    cases probes with
    | zero => cases hd
    | succ => simp only [Probing.search, ht, hp, if_true]
  | step hs hj _ ih =>
    cases probes with
    | zero => cases hd
    | succ =>
      simp only [Probing.search, hs, hj]
      exact ih ht (lt_of_succ_lt_succ hd)

lemma search_matches {probes slot i} (h : search table next p probes slot = some i) :
    p i = true := by
  fun_induction search table next p probes slot <;> grind

/-- A search that no index in the table matches finds nothing. -/
lemma search_eq_none (h : ∀ s i, table.getD s none = some i → p i = false) (probes slot : ℕ) :
    search table next p probes slot = none := by
  induction probes generalizing slot with
  | zero => rfl
  | succ _ ih =>
    cases hs : table.getD slot none with
    | none => simp only [search, hs]
    | some i =>
      simp only [search, hs, h slot i hs]
      exact ih (next slot)

/-- The free slot found is at the end of a path. -/
lemma path_of_firstFree (h : firstFree table next probes s = some t) :
    ∃ d < probes, Path table next (fun i => ∃ u, table.getD u none = some i) s d t ∧
      table.getD t none = none := by
  induction probes generalizing s with
  | zero => cases h
  | succ _ ih =>
    cases hs : table.getD s none with simp only [firstFree, hs] at h
    | none =>
      cases h
      exact ⟨0, succ_pos _, .here, hs⟩
    | some =>
      obtain ⟨d, hd, hpath, ht⟩ := ih h
      exact ⟨d + 1, succ_lt_succ hd, .step hs ⟨s, hs⟩ hpath, ht⟩

/-- If no free slot is found, all slots on the way are taken. -/
lemma taken_of_firstFree (h : firstFree table next probes s = none) :
    ∀ d < probes, table.getD (next^[d] s) none ≠ none := by
  induction probes generalizing s with
  | zero =>
    intro d hd
    cases hd
  | succ _ ih =>
    intro d hd
    cases hs : table.getD s none with simp only [firstFree, hs] at h
    | none =>
      cases h
    | some =>
      cases d with
      | zero =>
        intro hnone
        cases hs.symm.trans hnone
      | succ d => exact ih h d (lt_of_succ_lt_succ hd)

/-- A free slot found from within the table is within it. -/
lemma firstFree_lt {n} (hnext : ∀ s < n, next s < n) (hs : s < n)
    (h : firstFree table next probes s = some t) : t < n := by
  induction probes generalizing s with
  | zero => cases h
  | succ _ ih =>
    cases hslot : table.getD s none with simp only [firstFree, hslot] at h
    | none =>
      cases h
      exact hs
    | some =>
      exact ih (hnext s hs) h

/-- From every slot the way leads to every slot. -/
def Round (next : ℕ → ℕ) (n : ℕ) : Prop := ∀ s < n, ∀ t < n, ∃ d < n, next^[d] s = t

/-- Going to the next slot, and from the last to the first, is a round. -/
lemma round_of_mod {n} (hnext : ∀ s < n, next s = (s + 1) % n) : Round next n := by
  intro s hs t ht
  have hpos : 0 < n := Nat.lt_of_le_of_lt (Nat.zero_le _) hs
  have hiter : ∀ d, next^[d] s = (s + d) % n := by
    intro d
    induction d with
    | zero => exact (mod_eq_of_lt hs).symm
    | succ d ih =>
      rw [Function.iterate_succ_apply', ih, hnext _ (mod_lt _ hpos), mod_add_mod, Nat.add_assoc]
  refine ⟨(t + (n - s)) % n, mod_lt _ hpos, ?_⟩
  rw [hiter, add_mod_mod, show s + (t + (n - s)) = t + n by omega, add_mod_right, mod_eq_of_lt ht]

/-- A table that is not full has a free slot on every way round. -/
lemma exists_firstFree (hround : Round next table.length)
    (hcount : table.countP Option.isSome < table.length) (hs : s < table.length) :
    ∃ t, firstFree table next table.length s = some t := by
  rw [← Option.isSome_iff_exists, Option.isSome_iff_ne_none]
  intro hnone
  -- Every slot would be taken.
  have hall : ∀ x ∈ table, x.isSome = true := by
    intro x hx
    obtain ⟨t, ht, rfl⟩ := mem_iff_getElem.1 hx
    obtain ⟨d, hd, rfl⟩ := hround s hs t ht
    have htaken := taken_of_firstFree hnone d hd
    rw [getD_eq_getElem _ _ ht] at htaken
    exact Option.isSome_iff_ne_none.2 htaken
  rw [countP_eq_length.2 hall] at hcount
  exact lt_irrefl _ hcount

/-! ## The invariant -/

/-- The table holds the indices below `count`, each behind smaller ones on its way from `home`. -/
structure Chain (table : List (Option ℕ)) (next : ℕ → ℕ) (home : ℕ → ℕ) (count : ℕ) : Prop where
  within : ∀ s i, table.getD s none = some i → i < count
  reach : ∀ i < count, ∃ d < table.length, ∃ t,
    Path table next (· < i) (home i) d t ∧ table.getD t none = some i
  occupied : table.countP Option.isSome = count

/-- An empty table. -/
lemma Chain.empty (n : ℕ) : Chain (List.replicate n none) next home 0 := by
  refine ⟨fun s i h => ?_, fun i hi => absurd hi (Nat.not_lt_zero i), ?_⟩
  · rw [getD_eq_getElem?_getD, getElem?_replicate] at h
    split at h <;> cases h
  · simp [countP_replicate]

section
variable (h : Chain table next home count)
include h

/-- Putting the next index into the free slot found for it. -/
lemma Chain.insert (ht : firstFree table next table.length (home count) = some t)
    (hlt : t < table.length) : Chain (table.set t (some count)) next home (count + 1) := by
  obtain ⟨d, hd, hpath, hfree⟩ := path_of_firstFree ht
  have hset : (table.set t (some count)).getD t none = some count := by
    rw [getD_eq_getElem?_getD, getElem?_set_self hlt]
    rfl
  refine ⟨fun s i hs => ?_, fun i hi => ?_, ?_⟩
  · by_cases hst : t = s
    · subst hst
      rw [hset] at hs
      cases hs
      exact Nat.lt_succ_self _
    · rw [getD_eq_getElem?_getD, getElem?_set_ne hst, ← getD_eq_getElem?_getD] at hs
      exact Nat.lt_succ_of_lt (h.within s i hs)
  · rw [length_set]
    rcases Nat.lt_succ_iff_lt_or_eq.1 hi with hi | rfl
    · obtain ⟨d, hd, u, hu, hi⟩ := h.reach i hi
      have hne : t ≠ u := by
        rintro rfl
        rw [hfree] at hi
        cases hi
      refine ⟨d, hd, u, hu.set hfree, ?_⟩
      rw [getD_eq_getElem?_getD, getElem?_set_ne hne, ← getD_eq_getElem?_getD, hi]
    · refine ⟨d, hd, t, ?_, hset⟩
      exact (hpath.mono fun j ⟨u, hu⟩ => h.within u j hu).set hfree
  · have hnone : table[t] = none := by
      rwa [getD_eq_getElem _ _ hlt] at hfree
    rw [countP_set hlt, h.occupied, hnone]
    simp

/-- The way may be computed differently, and so may the homes. -/
lemma Chain.congr {home'} (hhome : ∀ i < count, home' i = home i) :
    Chain table next home' count := by
  refine ⟨h.within, fun i hi => ?_, h.occupied⟩
  rw [hhome i hi]
  exact h.reach i hi

/-- A search from a home finds the smallest index that matches, if all that match live there. -/
lemma Chain.search_eq_some {i} (hi : i < count)
    (hp : p i = true) (hmin : ∀ j < i, p j = false) (hs : home i = s) :
    search table next p table.length s = some i := by
  obtain ⟨d, hd, t, hpath, ht⟩ := h.reach i hi
  rw [hs] at hpath
  exact (hpath.mono hmin).search ht hp hd

/-- A search that nothing matches finds nothing. -/
lemma Chain.search_eq_none (hp : ∀ i < count, p i = false)
    (probes s : ℕ) : search table next p probes s = none :=
  Probing.search_eq_none (fun u i hu => hp i (h.within u i hu)) probes s

end

/-! ## Tables of entries in any order -/

/-- The table holds exactly these entries, each on an unbroken way from its home. -/
structure Holds (table : List (Option ℕ)) (next : ℕ → ℕ) (home : ℕ → ℕ) (entries : List ℕ) :
    Prop where
  within : ∀ s i, table.getD s none = some i → i ∈ entries
  reach : ∀ i ∈ entries, ∃ d < table.length, ∃ t,
    Path table next (· ≠ i) (home i) d t ∧ table.getD t none = some i
  occupied : table.countP Option.isSome = entries.length

lemma Holds.empty (n : ℕ) : Holds (List.replicate n none) next home [] := by
  refine ⟨fun s i h => ?_, fun i hi => absurd hi not_mem_nil, by simp [countP_replicate]⟩
  rw [getD_eq_getElem?_getD, getElem?_replicate] at h
  split at h <;> cases h

section
variable {entries : List ℕ} (h : Holds table next home entries)
include h

lemma Holds.perm {entries'} (hperm : entries.Perm entries') : Holds table next home entries' :=
  ⟨fun s i hs => hperm.mem_iff.1 (h.within s i hs), fun i hi => h.reach i (hperm.mem_iff.2 hi),
    h.occupied.trans hperm.length_eq⟩

/-- Putting a new entry into the free slot found for it. -/
lemma Holds.insert {i} (hnew : i ∉ entries)
    (ht : firstFree table next table.length (home i) = some t) (hlt : t < table.length) :
    Holds (table.set t (some i)) next home (i :: entries) := by
  obtain ⟨d, hd, hpath, hfree⟩ := path_of_firstFree ht
  have hset : (table.set t (some i)).getD t none = some i := by
    rw [getD_eq_getElem?_getD, getElem?_set_self hlt]
    rfl
  have hother {u} (hu : t ≠ u) : (table.set t (some i)).getD u none = table.getD u none := by
    rw [getD_eq_getElem?_getD, getElem?_set_ne hu, ← getD_eq_getElem?_getD]
  refine ⟨fun s j hs => ?_, fun j hj => ?_, ?_⟩
  · by_cases hst : t = s
    · subst hst
      rw [hset] at hs
      cases hs
      exact mem_cons_self
    · rw [hother hst] at hs
      exact mem_cons_of_mem _ (h.within s j hs)
  · rw [length_set]
    rcases mem_cons.1 hj with rfl | hj
    · refine ⟨d, hd, t, (hpath.mono ?_).set hfree, hset⟩
      rintro k ⟨u, hu⟩ rfl
      exact hnew (h.within u k hu)
    · obtain ⟨d, hd, u, hu, hj⟩ := h.reach j hj
      have hne : t ≠ u := by
        rintro rfl
        rw [hfree] at hj
        cases hj
      exact ⟨d, hd, u, hu.set hfree, (hother hne).trans hj⟩
  · have hnone : table[t] = none := by
      rwa [getD_eq_getElem _ _ hlt] at hfree
    rw [countP_set hlt, h.occupied, hnone]
    simp

/-- A search for an entry from its home finds it exactly if it is there. -/
lemma Holds.search_isSome (i : ℕ) :
    (search table next (· == i) table.length (home i)).isSome = true ↔ i ∈ entries := by
  refine ⟨fun hfound => ?_, fun hi => ?_⟩
  · by_contra hnot
    have hnone : ∀ s j, table.getD s none = some j → (j == i) = false := by
      intro s j hs
      refine beq_eq_false_iff_ne.2 ?_
      rintro rfl
      exact hnot (h.within s j hs)
    rw [search_eq_none hnone] at hfound
    cases hfound
  · obtain ⟨d, hd, t, hpath, ht⟩ := h.reach i hi
    have hsearch := (hpath.mono fun j hj => beq_eq_false_iff_ne.2 hj).search ht (beq_self_eq_true i) hd
    exact Option.isSome_iff_exists.2 ⟨i, hsearch⟩

/-- The slots that are taken list the entries. -/
lemma Holds.filterMap_perm (hnodup : entries.Nodup) : (table.filterMap id).Perm entries := by
  have hsub : entries ⊆ table.filterMap id := by
    intro i hi
    obtain ⟨_, -, t, -, ht⟩ := h.reach i hi
    refine mem_filterMap.2 ⟨some i, ?_, rfl⟩
    rw [getD_eq_getElem?_getD] at ht
    exact mem_of_getElem? (Option.getD_eq_iff.1 ht |>.resolve_right (by simp))
  refine ((subperm_of_subset hnodup hsub).perm_of_length_le ?_).symm
  rw [length_filterMap_eq_countP, ← h.occupied]
  exact le_of_eq rfl

end

end Diamond.Probing
