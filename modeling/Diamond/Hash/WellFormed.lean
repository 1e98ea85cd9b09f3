import Diamond.Hash.Table

/-!
# Well-formed hash tables

The invariant of the table and what it gives: `hash_find` returns the first entry, in insertion
order, whose hash and key match.  No assumption on the hash function or on the equality is needed:
entries with the same hash have the same home bucket, and of these the older stands first.
-/

namespace Diamond.Hash
open Probing List

variable {K V : Type*} {hash : K → UInt64} {equal : K → K → Bool} {h h' : DiamondHash K V}
variable {mem : Memory} {key : K} {value : V} {ok : Bool}

/-- The home bucket of the entry at each index, in a table of `n` buckets. -/
def homes (entries : List (DiamondHashEntry K V)) (n i : ℕ) : ℕ :=
  match entries[i]? with
  | some entry => homeSlot n entry.hash
  | none => 0

def Memory.Enough (mem : Memory) : Prop :=
  mem.entries = true ∧ mem.buckets = true ∧ mem.barrier = true

/-- The invariant of a hash table. -/
structure WellFormed (hash : K → UInt64) (h : DiamondHash K V) : Prop where
  cached : ∀ entry ∈ h.entries, entry.hash = hash entry.key
  shape : h.bucketCapacity = 0 ∨ ∃ k, 3 ≤ k ∧ h.bucketCapacity = 2 ^ k
  load : h.entries = [] ∨ h.count * 4 < h.bucketCapacity * 3
  fits : h.count ≤ h.capacity
  chain : Chain h.buckets (nextSlot h.bucketCapacity) (homes h.entries h.bucketCapacity) h.count

lemma nextSlot_two_pow (k slot : ℕ) : nextSlot (2 ^ k) slot = (slot + 1) % 2 ^ k :=
  Nat.and_two_pow_sub_one_eq_mod _ _

lemma homeSlot_lt (k : ℕ) (hash : UInt64) : homeSlot (2 ^ k) hash < 2 ^ k := by
  rw [homeSlot, Nat.and_two_pow_sub_one_eq_mod]
  exact Nat.mod_lt _ (Nat.two_pow_pos k)

lemma round_nextSlot (k : ℕ) : Round (nextSlot (2 ^ k)) (2 ^ k) :=
  round_of_mod fun s _ => nextSlot_two_pow k s

lemma placeIndex_chain {buckets home k count keyHash}
    (hlength : buckets.length = 2 ^ k) (hcount : count < 2 ^ k)
    (hhome : homeSlot (2 ^ k) keyHash = home count)
    (hchain : Chain buckets (nextSlot (2 ^ k)) home count) :
    ∃ buckets', placeIndex buckets keyHash count = some buckets' ∧ buckets'.length = 2 ^ k ∧
      Chain buckets' (nextSlot (2 ^ k)) home (count + 1) := by
  have hround : Round (nextSlot (2 ^ k)) buckets.length := by
    rw [hlength]
    exact round_nextSlot k
  have hs : home count < buckets.length := by
    rw [hlength, ← hhome]
    exact homeSlot_lt k keyHash
  obtain ⟨t, ht⟩ := exists_firstFree hround (by rwa [hchain.occupied, hlength]) hs
  have hlt : t < buckets.length := by
    refine firstFree_lt (fun s _ => ?_) hs ht
    rw [nextSlot_two_pow, hlength]
    exact Nat.mod_lt _ (Nat.two_pow_pos k)
  refine ⟨buckets.set t (some count), ?_, ?_, hchain.insert ht hlt⟩
  · rw [hlength] at ht
    simp only [placeIndex, hlength, hhome, ht]
  · rw [length_set, hlength]

lemma rehashLoop_chain {k all} (hcount : all.length < 2 ^ k)
    (rest : List (DiamondHashEntry K V)) (buckets : List (Option ℕ)) (i : ℕ)
    (hrest : all.drop i = rest) (hi : i + rest.length = all.length)
    (hlength : buckets.length = 2 ^ k)
    (hchain : Chain buckets (nextSlot (2 ^ k)) (homes all (2 ^ k)) i) :
    ∃ buckets', rehashLoop rest i buckets = some buckets' ∧ buckets'.length = 2 ^ k ∧
      Chain buckets' (nextSlot (2 ^ k)) (homes all (2 ^ k)) all.length := by
  induction rest generalizing buckets i with
  | nil =>
    rw [length_nil, Nat.add_zero] at hi
    subst hi
    exact ⟨buckets, rfl, hlength, hchain⟩
  | cons entry rest ih =>
    rw [length_cons] at hi
    have hentry : all[i]? = some entry := by
      rw [← head?_drop, hrest, head?_cons]
    have hhome : homeSlot (2 ^ k) entry.hash = homes all (2 ^ k) i := by
      simp only [homes, hentry]
    obtain ⟨buckets₁, hplace, hlength₁, hchain₁⟩ := placeIndex_chain hlength (by omega) hhome hchain
    have hdrop : all.drop (i + 1) = rest := by
      rw [← tail_drop, hrest, tail_cons]
    obtain ⟨buckets₂, hloop, hlength₂, hchain₂⟩ :=
      ih buckets₁ (i + 1) hdrop (by omega) hlength₁ hchain₁
    refine ⟨buckets₂, ?_, hlength₂, hchain₂⟩
    simp only [rehashLoop, hplace, hloop]

/-- `hash_rehash` returns, with the invariant restored for the new number of buckets. -/
lemma hashRehash_chain {k} (h : DiamondHash K V) (hcount : h.count < 2 ^ k)
    (hmem : mem.buckets = true) :
    ∃ buckets, hashRehash mem h (2 ^ k) = some ({ h with buckets := buckets }, true) ∧
      buckets.length = 2 ^ k ∧
      Chain buckets (nextSlot (2 ^ k)) (homes h.entries (2 ^ k)) h.count := by
  obtain ⟨buckets, hloop, hlength, hchain⟩ := rehashLoop_chain hcount h.entries
    (List.replicate (2 ^ k) none) 0 rfl (Nat.zero_add _) length_replicate (Chain.empty _)
  refine ⟨buckets, ?_, hlength, hchain⟩
  simp only [hashRehash, hmem, if_true, hloop]

lemma homes_of_matchesKey {n i} (hmatch : matchesKey hash equal h key i = true) :
    homes h.entries n i = homeSlot n (hash key) := by
  unfold matchesKey at hmatch
  unfold homes
  cases hentry : h.entries[i]? with
  | none => simp [hentry] at hmatch
  | some =>
    simp only [hentry, Bool.and_eq_true, beq_iff_eq] at hmatch ⊢
    rw [hmatch.1]

lemma matchesKey_eq (i : ℕ) (hi : i < h.entries.length) : matchesKey hash equal h key i =
      (h.entries[i].hash == hash key && equal h.entries[i].key key) := by
  simp only [matchesKey, getElem?_eq_getElem hi]

lemma hashFind_eq (hwf : WellFormed hash h) (key : K) : hashFind hash equal h key =
      h.entries.findIdx? fun entry => entry.hash == hash key && equal entry.key key := by
  unfold hashFind
  split
  case isTrue hzero =>
    rcases hwf.load with hnil | hload
    · rw [hnil]
      rfl
    · rw [hzero] at hload
      omega
  case isFalse =>
    cases hfind : h.entries.findIdx? fun entry => entry.hash == hash key && equal entry.key key with
    | none =>
      apply hwf.chain.search_eq_none
      intro i hi
      rw [matchesKey_eq i hi]
      exact Bool.eq_false_iff.2 (by simpa using findIdx?_eq_none_iff.1 hfind _ (getElem_mem hi))
    | some i =>
      obtain ⟨hi, hmatch, hmin⟩ := findIdx?_eq_some_iff_getElem.1 hfind
      rw [← matchesKey_eq i hi] at hmatch
      refine hwf.chain.search_eq_some hi hmatch (fun j hj => ?_) (homes_of_matchesKey hmatch)
      rw [matchesKey_eq j (hj.trans hi)]
      exact Bool.eq_false_iff.2 (hmin j hj)

/-! ## The operations keep the invariant -/

lemma wellFormed_allocateHash : WellFormed hash (allocateHash : DiamondHash K V) :=
  ⟨by simp [allocateHash], .inl rfl, .inl rfl, le_refl 0, Chain.empty 0⟩

lemma homes_modify {entries : List (DiamondHashEntry K V)} {n i} :
    homes (entries.modify i fun e => { e with value := value }) n = homes entries n := by
  funext j
  unfold homes
  rw [getElem?_modify]
  cases entries[j]? with
  | none => rfl
  | some =>
    by_cases hij : i = j
    all_goals simp [hij]

section
variable (hwf : WellFormed hash h)
include hwf

lemma WellFormed.overwrite (i : ℕ) :
    WellFormed hash { h with entries := h.entries.modify i fun e => { e with value := value } } := by
  have hlength : (h.entries.modify i fun e => { e with value := value }).length = h.entries.length :=
    length_modify _ _ _
  refine ⟨fun _ hentry => ?_, hwf.shape, ?_, ?_, ?_⟩
  · obtain ⟨j, hj, rfl⟩ := mem_iff_getElem.1 hentry
    have hold := hwf.cached h.entries[j] (getElem_mem (by rwa [← hlength]))
    rw [getElem_modify]
    split
    all_goals exact hold
  · refine hwf.load.imp (fun hnil => ?_) (fun hload => ?_)
    · rw [← length_eq_zero_iff] at hnil ⊢
      exact hlength.trans hnil
    · simpa only [DiamondHash.count, DiamondHash.bucketCapacity, hlength] using hload
  · simpa only [DiamondHash.count, hlength] using hwf.fits
  · simpa only [DiamondHash.count, DiamondHash.bucketCapacity, hlength, homes_modify] using hwf.chain

/-- Growing the entries leaves the rest of the table alone and makes room for one more. -/
lemma growEntries_wellFormed (hgrow : growEntries mem h = (h', true)) :
    WellFormed hash h' ∧ h'.entries = h.entries ∧ h'.count < h'.capacity := by
  unfold growEntries at hgrow
  have hfits := hwf.fits
  split at hgrow
  case isTrue =>
    split at hgrow
    case isTrue =>
      cases hgrow
      have hroom : h.count < if h.capacity < 8 then 8 else h.capacity * 2 := by
        split <;> omega
      exact ⟨⟨hwf.cached, hwf.shape, hwf.load, hroom.le, hwf.chain⟩, rfl, hroom⟩
    case isFalse => cases hgrow
  case isFalse hroom =>
    cases hgrow
    exact ⟨hwf, rfl, lt_of_le_of_ne hfits hroom⟩

lemma WellFormed.rehashed {k buckets} (hk : 3 ≤ k)
    (hload : h.count * 4 < 2 ^ k * 3) (hlength : buckets.length = 2 ^ k)
    (hchain : Chain buckets (nextSlot (2 ^ k)) (homes h.entries (2 ^ k)) h.count) :
    WellFormed hash { h with buckets := buckets } := by
  refine ⟨hwf.cached, .inr ⟨k, hk, hlength⟩, .inr ?_, hwf.fits, ?_⟩
  · simpa only [DiamondHash.count, DiamondHash.bucketCapacity, hlength] using hload
  · simpa only [DiamondHash.count, DiamondHash.bucketCapacity, hlength] using hchain

/-- Growing the bucket table returns, and leaves it with room for one more entry. -/
lemma growBuckets_wellFormed (mem : Memory) :
    ∃ h' ok, growBuckets mem h = some (h', ok) ∧ (mem.buckets = true → ok = true) ∧ (ok = true →
      WellFormed hash h' ∧ h'.entries = h.entries ∧ h'.capacity = h.capacity ∧
        (h'.count + 1) * 4 < h'.bucketCapacity * 3) := by
  unfold growBuckets
  split
  case isFalse hroom =>
    push Not at hroom
    exact ⟨h, true, rfl, fun _ => rfl, fun _ => ⟨hwf, rfl, rfl, hroom.2⟩⟩
  case isTrue =>
    -- The new number of buckets is a power of two, with more than twice the entries' room.
    obtain ⟨k, hk, hcapacity, hload⟩ : ∃ k, 3 ≤ k ∧
        (if h.bucketCapacity = 0 then 8 else h.bucketCapacity * 2) = 2 ^ k ∧
        (h.count + 1) * 4 < 2 ^ k * 3 := by
      have hcount : h.bucketCapacity = 0 → h.count = 0 := by
        intro hzero
        rcases hwf.load with hnil | hload
        · rw [DiamondHash.count, hnil, length_nil]
        · omega
      rcases hwf.shape with hzero | ⟨k, hk, hpow⟩
      · exact ⟨3, le_refl 3, if_pos hzero, by rw [hcount hzero]; decide⟩
      have hpos : 2 ^ 3 ≤ 2 ^ k := Nat.pow_le_pow_right (by decide) hk
      refine ⟨k + 1, by omega, ?_, ?_⟩
      · rw [if_neg (by omega), hpow, pow_succ]
      · rcases hwf.load with hnil | hload
        · rw [DiamondHash.count, hnil, length_nil, pow_succ]
          omega
        · rw [pow_succ]
          omega
    rw [hcapacity]
    by_cases hmem : mem.buckets = true
    · have hcount : h.count < 2 ^ k := by omega
      obtain ⟨buckets, hrehash, hlength, hchain⟩ := hashRehash_chain h hcount hmem
      refine ⟨_, true, hrehash, fun _ => rfl, fun _ => ⟨?_, rfl, rfl, ?_⟩⟩
      · exact hwf.rehashed hk (by omega) hlength hchain
      · simpa only [DiamondHash.count, DiamondHash.bucketCapacity, hlength] using hload
    · exact ⟨h, false, if_neg hmem, fun hmem' => absurd hmem' hmem, by simp⟩

end

lemma homes_append {entries rest : List (DiamondHashEntry K V)} {n i}
    (hi : i < entries.length) : homes (entries ++ rest) n i = homes entries n i := by
  simp only [homes, getElem?_append_left hi]

section
variable (hwf : WellFormed hash h)
include hwf

lemma hashAppend_wellFormed (hroom : h.count < h.capacity)
    (hload : (h.count + 1) * 4 < h.bucketCapacity * 3) (mem : Memory) (key : K) (value : V) :
    ∃ h', hashAppend hash mem h key value = some (h', mem.barrier) ∧ WellFormed hash h' ∧
      h'.entries = h.entries ++ [⟨key, value, hash key⟩] := by
  obtain ⟨k, hk, hpow⟩ : ∃ k, 3 ≤ k ∧ h.bucketCapacity = 2 ^ k := by
    rcases hwf.shape with hzero | hpow
    · omega
    · exact hpow
  have hchain := hwf.chain
  rw [hpow] at hchain hload
  set entries := h.entries ++ [⟨key, value, hash key⟩] with hentries
  have hhomes : Chain h.buckets (nextSlot (2 ^ k)) (homes entries (2 ^ k)) h.count :=
    hchain.congr fun i hi => homes_append hi
  have hhome : homeSlot (2 ^ k) (hash key) = homes entries (2 ^ k) h.count := by
    simp [homes, hentries, DiamondHash.count]
  obtain ⟨buckets, hplace, hlength, hchain'⟩ := placeIndex_chain hpow (by omega) hhome hhomes
  have hcount : entries.length = h.count + 1 := by simp [hentries, DiamondHash.count]
  refine ⟨⟨entries, h.capacity, buckets⟩, ?_, ⟨?_, .inr ⟨k, hk, hlength⟩, .inr ?_, ?_, ?_⟩, rfl⟩
  · simp only [hashAppend, hplace]
    rfl
  · intro entry hentry
    rcases mem_append.1 hentry with hentry | hentry
    · exact hwf.cached entry hentry
    · rw [mem_singleton.1 hentry]
  · simpa only [DiamondHash.count, DiamondHash.bucketCapacity, hlength, hcount] using hload
  · rw [DiamondHash.count, hcount]
    exact hroom
  · simpa only [DiamondHash.count, DiamondHash.bucketCapacity, hlength, hcount] using hchain'

lemma WellFormed.erase {index} (hindex : index < h.count) (mem : Memory) :
    ∃ h' ok, hashRehash mem { h with entries := h.entries.eraseIdx index } h.bucketCapacity =
      some (h', ok) ∧ (mem.buckets = true → ok = true) ∧
        (ok = true → WellFormed hash h' ∧ h'.entries = h.entries.eraseIdx index) := by
  have hlength : (h.entries.eraseIdx index).length = h.count - 1 := length_eraseIdx_of_lt hindex
  obtain ⟨k, hk, hpow⟩ : ∃ k, 3 ≤ k ∧ h.bucketCapacity = 2 ^ k := by
    rcases hwf.shape with hzero | hpow
    · rcases hwf.load with hnil | hload
      · rw [DiamondHash.count, hnil] at hindex
        cases hindex
      · omega
    · exact hpow
  have hload : h.count * 4 < 2 ^ k * 3 := by
    rcases hwf.load with hnil | hload
    · rw [DiamondHash.count, hnil] at hindex
      cases hindex
    · rwa [hpow] at hload
  by_cases hmem : mem.buckets = true
  · set erased : DiamondHash K V := { h with entries := h.entries.eraseIdx index } with herased
    have hcount : erased.count = h.count - 1 := hlength
    obtain ⟨buckets, hrehash, hlength', hchain⟩ := hashRehash_chain (k := k) erased (by omega) hmem
    rw [hpow]
    refine ⟨_, true, hrehash, fun _ => rfl,
      fun _ => ⟨⟨?_, .inr ⟨k, hk, hlength'⟩, .inr ?_, ?_, ?_⟩, rfl⟩⟩
    · intro entry hentry
      exact hwf.cached entry (mem_of_mem_eraseIdx hentry)
    · change erased.count * 4 < buckets.length * 3
      omega
    · change erased.count ≤ h.capacity
      have := hwf.fits
      omega
    · simpa only [DiamondHash.count, DiamondHash.bucketCapacity, hlength'] using hchain
  · exact ⟨_, false, if_neg hmem, fun hmem' => absurd hmem' hmem, by simp⟩

lemma WellFormed.clear : WellFormed hash (hashClear h) := by
  refine ⟨by simp [hashClear], ?_, .inl rfl, Nat.zero_le _, ?_⟩
  · simpa only [hashClear, DiamondHash.bucketCapacity, length_replicate] using hwf.shape
  · exact Chain.empty _

lemma WellFormed.clone (hclone : hashCloneContents mem h = (h', true)) :
    WellFormed hash h' ∧ h'.entries = h.entries := by
  unfold hashCloneContents at hclone
  split at hclone
  case isTrue hempty =>
    cases hclone
    exact ⟨wellFormed_allocateHash, (length_eq_zero_iff.1 hempty).symm⟩
  case isFalse =>
    split at hclone
    case isTrue =>
      cases hclone
      exact ⟨⟨hwf.cached, hwf.shape, hwf.load, le_refl _, hwf.chain⟩, rfl⟩
    case isFalse => cases hclone

/-- Every live entry is found by probing from the home bucket of its own hash. -/
lemma WellFormed.reachable (index : ℕ) (hindex : index < h.count) :
    ∃ entry, h.entries[index]? = some entry ∧
      search h.buckets (nextSlot h.bucketCapacity) (· == index) h.bucketCapacity
        (homeSlot h.bucketCapacity (hash entry.key)) = some index := by
  refine ⟨h.entries[index], getElem?_eq_getElem hindex, ?_⟩
  refine hwf.chain.search_eq_some hindex (beq_self_eq_true index) (fun j hj => ?_) ?_
  · exact beq_eq_false_iff_ne.2 hj.ne
  · rw [homes, getElem?_eq_getElem hindex, ← hwf.cached _ (getElem_mem hindex)]

end

end Diamond.Hash
