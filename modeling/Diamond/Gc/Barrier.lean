import Diamond.Gc.Collector

/-!
# What a barriered write does

Every write of `DiamondVm.write` replaces the payload of one object and may remember it:
`DiamondVm.store` says so once, and `Written` lists the writes in that form, with the slots each of
them changes.  The rest of the file is about card tables: a dirty card stays dirty until it is
scanned, and the barriers make dirty the cards of the slots they are called for.
-/

namespace Diamond.Gc

open List Storage

attribute [local simp] Payload.rows DiamondVm.update

variable {vm vm' : DiamondVm} {a : Address} {o : DiamondObject} {storage : Storage}

/-! ## Cards -/

def Storage.Dirty (storage : Storage) (index : ℕ) : Prop :=
  ∃ cards, storage.dirtyCards = some cards ∧ cards[index / cardSize]? = some true

/-- The cards that `mark_card_dirty` sets one of. -/
def Storage.cards (storage : Storage) : List Bool :=
  match storage.dirtyCards with
  | none => List.replicate (if storage.cardCount = 0 then 1 else storage.cardCount) false
  | some cards =>
    if storage.cardCount > cards.length then
      cards ++ List.replicate (storage.cardCount - cards.length) false
    else
      cards

lemma cardCount_le_length_cards : storage.cardCount ≤ storage.cards.length := by
  unfold cards
  cases storage.dirtyCards with dsimp only
  | none =>
    rw [length_replicate]
    split <;> omega
  | some =>
    split
    · rw [length_append, length_replicate]
      omega
    · omega

lemma getElem?_cards {cards : List Bool} {card : ℕ} (hcards : storage.dirtyCards = some cards)
    (hcard : cards[card]? = some true) : storage.cards[card]? = some true := by
  unfold Storage.cards
  rw [hcards]
  dsimp only
  split
  · have hlt : card < cards.length := (List.getElem?_eq_some_iff.1 hcard).1
    rw [getElem?_append_left hlt, hcard]
  · exact hcard

variable {index : ℕ}

lemma Storage.Dirty.markCardDirty (h : storage.Dirty index) (i : ℕ) :
    (storage.markCardDirty i).Dirty index := by
  obtain ⟨_, hcards, hdirty⟩ := h
  refine ⟨_, rfl, ?_⟩
  have hkept := getElem?_cards hcards hdirty
  rw [getElem?_set]
  split
  case isTrue heq =>
    rw [if_pos]
    rw [heq]
    exact (List.getElem?_eq_some_iff.1 hkept).1
  case isFalse => exact hkept

lemma div_lt_cardCount (h : index < storage.capacity) : index / cardSize < storage.cardCount := by
  unfold cardCount cardSize
  omega

lemma dirty_markCardDirty {index i} (hcapacity : index < storage.capacity)
    (hcard : index / cardSize = i / cardSize) : (storage.markCardDirty i).Dirty index := by
  refine ⟨_, rfl, ?_⟩
  rw [hcard, getElem?_set_self]
  rw [← hcard]
  exact (div_lt_cardCount hcapacity).trans_le cardCount_le_length_cards

def Storage.markCardsDirty (storage : Storage) : ℕ → ℕ → Storage
  | _, 0 => storage
  | card, count + 1 => (storage.markCardDirty (card * cardSize)).markCardsDirty (card + 1) count

lemma Storage.Dirty.markCardsDirty (h : storage.Dirty index) (card count : ℕ) :
    (storage.markCardsDirty card count).Dirty index := by
  induction count generalizing storage card with
  | zero => exact h
  | succ _ ih => exact ih (h.markCardDirty _) _

lemma capacity_markCardsDirty (card count : ℕ) :
    (storage.markCardsDirty card count).capacity = storage.capacity := by
  induction count generalizing storage card with
  | zero => rfl
  | succ _ ih => exact ih ..

lemma dirty_markCardsDirty {index card count} (hcapacity : index < storage.capacity)
    (hlow : card ≤ index / cardSize) (hhigh : index / cardSize < card + count) :
    (storage.markCardsDirty card count).Dirty index := by
  induction count generalizing storage card with
  | zero => omega
  | succ _ ih =>
    rcases hlow.eq_or_lt with heq | hlt
    · -- The first card of the loop is the slot's own; later ones leave it dirty.
      rw [markCardsDirty]
      apply Storage.Dirty.markCardsDirty
      apply dirty_markCardDirty hcapacity
      rw [Nat.mul_div_cancel _ (by decide), heq]
    · exact ih hcapacity hlt (by omega)

/-! ## Payloads -/

variable (payload : Payload) (f : Storage → Storage)

@[simp]
lemma children_mapStorage : (payload.mapStorage f).children = payload.children := by
  cases payload <;> rfl

@[simp]
lemma rows_mapStorage : (payload.mapStorage f).rows = payload.rows := by
  cases payload <;> rfl

lemma storage_mapStorage : (payload.mapStorage f).storage? = payload.storage?.map f := by
  cases payload <;> rfl

lemma mem_children_iff {payload : Payload} {v : Value} (h : payload.storage? = some storage) :
    v ∈ payload.children ↔ ∃ row ∈ payload.rows, v ∈ row := by
  cases payload with
  | string | slots => cases h
  | array => simp [Payload.children]
  | hash => simp [Payload.children, or_comm]

/-! ## Writes in one form -/

/-- Replaces the payload of the object at `a` and, if `remember`, remembers it. -/
def DiamondVm.store (vm : DiamondVm) (a : Address) (o : DiamondObject) (payload : Payload)
    (remember : Bool) : DiamondVm :=
  { vm with
    heap := Function.update vm.heap a
      (some { o with payload := payload, remembered := o.remembered || remember })
    rememberedSet :=
      if remember && !o.remembered then vm.rememberedSet ++ [a] else vm.rememberedSet }

attribute [local simp] DiamondVm.store

open DiamondVm

lemma setPayload_eq_store (ho : vm.heap a = some o) (payload : Payload) :
    vm.setPayload a payload = vm.store a o payload false := by
  simp [setPayload, ho]

lemma gcWriteBarrier_store :
    (vm.store a o payload false).gcWriteBarrier a = vm.store a o payload o.old := by
  cases hold : o.old <;> cases hremembered : o.remembered <;>
    simp [gcWriteBarrier, hold, hremembered]

variable (remember : Bool)

lemma isOld_store : (vm.store a o payload remember).isOld a = o.old := by
  simp [isOld]

lemma markCardDirty_store (index : ℕ) : (vm.store a o payload remember).markCardDirty a index =
      vm.store a o (payload.mapStorage (·.markCardDirty index)) remember := by
  simp [DiamondVm.markCardDirty]

lemma markCardsDirty_store (card count : ℕ) :
    (vm.store a o payload remember).markCardsDirty a card count =
      vm.store a o (payload.mapStorage (·.markCardsDirty card count)) remember := by
  induction count generalizing payload card with
  | zero => cases payload <;> rfl
  | succ _ ih =>
    rw [DiamondVm.markCardsDirty, markCardDirty_store, ih]
    cases payload <;> rfl

lemma gcWriteBarrierIndex_store (index : ℕ) :
    (vm.store a o payload false).gcWriteBarrierIndex a index =
      vm.store a o (if o.old then payload.mapStorage (·.markCardDirty index) else payload) o.old := by
  unfold gcWriteBarrierIndex
  rw [isOld_store, gcWriteBarrier_store, markCardDirty_store]
  cases o.old <;> rfl

/-- The cards that `gc_write_barrier_range` makes dirty. -/
def Storage.markRangeDirty (storage : Storage) (start count : ℕ) : Storage :=
  if count = 0 then storage
  else storage.markCardsDirty (start / cardSize)
    ((start + count - 1) / cardSize + 1 - start / cardSize)

lemma gcWriteBarrierRange_store (start count : ℕ) :
    (vm.store a o payload false).gcWriteBarrierRange a start count =
      vm.store a o (if o.old then payload.mapStorage (·.markRangeDirty start count) else payload)
        o.old := by
  unfold gcWriteBarrierRange
  rw [isOld_store, gcWriteBarrier_store]
  cases hold : o.old with
  | false => rfl
  | true =>
    by_cases hcount : count = 0
    · cases payload <;> simp [hcount, markRangeDirty, Payload.mapStorage]
    · simp only [hcount, if_true, if_false, markRangeDirty]
      exact markCardsDirty_store ..

/-- A barrier on the storage: it keeps the capacity and the dirty cards, and makes dirty those of
the slots in `changed`. -/
structure Dirties (f : Storage → Storage) (changed : ℕ → Prop) : Prop where
  capacity : ∀ storage, (f storage).capacity = storage.capacity
  keeps : ∀ storage index, storage.Dirty index → (f storage).Dirty index
  changed : ∀ storage index, changed index → index < storage.capacity → (f storage).Dirty index

lemma dirties_index (index : ℕ) : Dirties (·.markCardDirty index) (· = index) := by
  constructor
  case capacity => exact fun _ => rfl
  case keeps => exact fun _ _ h => h.markCardDirty index
  case changed =>
    intro _ i hi hcapacity
    apply dirty_markCardDirty hcapacity
    rw [hi]

lemma dirties_range (start count : ℕ) :
    Dirties (·.markRangeDirty start count) fun index => start ≤ index ∧ index < start + count := by
  constructor
  case capacity =>
    intro storage
    unfold markRangeDirty
    split
    · rfl
    · exact capacity_markCardsDirty ..
  case keeps =>
    intro storage index h
    unfold markRangeDirty
    split
    · exact h
    · exact h.markCardsDirty _ _
  case changed =>
    intro storage index ⟨hlow, hhigh⟩ hcapacity
    unfold markRangeDirty
    rw [if_neg (by omega)]
    apply dirty_markCardsDirty hcapacity
    · exact Nat.div_le_div_right hlow
    · have : index / cardSize ≤ (start + count - 1) / cardSize := Nat.div_le_div_right (by omega)
      omega

/-- What a write may do to an object `o`: `payload` is the new payload, and `remember` tells whether
the barrier remembers the object. -/
structure Written (o : DiamondObject) (values : List Value) (payload : Payload) (remember : Bool) :
    Prop where
  remembers : remember = true → o.old = true
  values : ∀ v ∈ payload.children, v ∈ o.payload.children ∨ v ∈ values
  forgets : o.old = true → remember = false → ∀ v ∈ payload.children, v ∈ o.payload.children
  fits : o.payload.Fits → payload.Fits
  cards : o.old = true → o.payload.Fits → ∀ storage', payload.storage? = some storage' →
    ∀ i row, payload.rows[i]? = some row → storage'.Dirty i ∨ ∃ storage,
      o.payload.storage? = some storage ∧ o.payload.rows[i]? = some row ∧
        (storage.Dirty i → storage'.Dirty i)

variable {values : List Value}

/-- A write to a container: `raw` is the payload before the barrier `f`. -/
lemma Written.container {raw storage' f changed} (hf : Dirties f changed)
    (hstorage : o.payload.storage? = some storage) (hraw : raw.storage? = some storage')
    (hcards : storage'.dirtyCards = storage.dirtyCards) (hfits : o.payload.Fits → raw.Fits)
    (hvalues : ∀ v ∈ raw.children, v ∈ o.payload.children ∨ v ∈ values)
    (hrows : ∀ i row, raw.rows[i]? = some row → o.payload.rows[i]? = some row ∨ changed i) :
    Written o values (if o.old then raw.mapStorage f else raw) o.old := by
  constructor
  case remembers => exact id
  case values =>
    intro v hv
    apply hvalues
    cases hold : o.old <;> simpa [hold] using hv
  case forgets =>
    intro hold hnot
    rw [hold] at hnot
    cases hnot
  case fits =>
    intro h
    cases hold : o.old with
    | false => exact hfits h
    | true =>
      intro s hs
      rw [if_pos rfl, storage_mapStorage, hraw] at hs
      cases hs
      rw [if_pos rfl, rows_mapStorage, hf.capacity]
      exact hfits h storage' hraw
  case cards =>
    intro hold hfit s hs i row hrow
    rw [if_pos hold, storage_mapStorage, hraw] at hs
    cases hs
    rw [if_pos hold, rows_mapStorage] at hrow
    rcases hrows i row hrow with hsame | hchanged
    · refine .inr ⟨storage, hstorage, hsame, fun hdirty => hf.keeps _ _ ?_⟩
      unfold Storage.Dirty at hdirty ⊢
      rwa [hcards]
    · have hlt : i < raw.rows.length := (List.getElem?_eq_some_iff.1 hrow).1
      exact .inl (hf.changed _ _ hchanged (hlt.trans_le (hfits hfit storage' hraw)))

/-- A write that only drops slots from the end of a container needs no barrier. -/
lemma Written.truncates {payload} (storage : Storage)
    (hstorage : o.payload.storage? = some storage) (hpayload : payload.storage? = some storage)
    (hrows : payload.rows <+: o.payload.rows) : Written o values payload false := by
  have hkept : ∀ v ∈ payload.children, v ∈ o.payload.children := by
    intro v hv
    rw [mem_children_iff hpayload] at hv
    obtain ⟨row, hrow, hv⟩ := hv
    rw [mem_children_iff hstorage]
    exact ⟨row, hrows.subset hrow, hv⟩
  constructor
  case remembers => exact (by simp)
  case values => exact fun v hv => .inl (hkept v hv)
  case forgets => exact fun _ _ => hkept
  case fits =>
    intro h s hs
    rw [hpayload] at hs
    cases hs
    exact hrows.length_le.trans (h storage hstorage)
  case cards =>
    intro _ _ s hs i row hrow
    rw [hpayload] at hs
    cases hs
    obtain ⟨_, htail⟩ := hrows
    have hlt : i < payload.rows.length := (List.getElem?_eq_some_iff.1 hrow).1
    refine .inr ⟨storage, hstorage, ?_, id⟩
    rw [← htail, getElem?_append_left hlt, hrow]

lemma getElem?_setRange (values replacement : List Value) (start i : ℕ)
    (hi : i < start ∨ start + replacement.length ≤ i) :
    (setRange values start replacement)[i]? = values[i]? := by
  induction replacement generalizing values start with
  | nil => rfl
  | cons _ _ ih =>
    rw [length_cons] at hi
    rw [setRange, ih _ _ (by omega), getElem?_set_ne (by omega)]

lemma length_setRange (values replacement : List Value) (start : ℕ) :
    (setRange values start replacement).length = values.length := by
  induction replacement generalizing values start with
  | nil => rfl
  | cons _ _ ih => rw [setRange, ih, length_set]

lemma mem_setRange {values replacement start v}
    (h : v ∈ setRange values start replacement) : v ∈ values ∨ v ∈ replacement := by
  induction replacement generalizing values start with
  | nil => exact .inl h
  | cons _ _ ih =>
    rcases ih h with h | h
    · rcases mem_or_eq_of_mem_set h with h | h
      · exact .inl h
      · exact .inr (h ▸ mem_cons_self)
    · exact .inr (mem_cons_of_mem _ h)

lemma dirtyCards_grow (count : ℕ) : (storage.grow count).dirtyCards = storage.dirtyCards := by
  unfold grow
  split <;> rfl

lemma lt_capacity_grow {count} (h : count ≤ storage.capacity) :
    count < (storage.grow count).capacity := by
  unfold grow
  split
  · dsimp only
    split <;> omega
  · omega

lemma fits_array : (Payload.array values storage).Fits ↔ values.length ≤ storage.capacity := by
  simp [Payload.Fits, Payload.storage?]

lemma fits_hash {entries} :
    (Payload.hash entries storage).Fits ↔ entries.length ≤ storage.capacity := by
  simp [Payload.Fits, Payload.storage?]

lemma rows_map {α : Type*} {f} {xs ys : List α} {changed : ℕ → Prop}
    (h : ∀ i < ys.length, ys[i]? = xs[i]? ∨ changed i) (i : ℕ) (row : List Value)
    (hrow : (ys.map f)[i]? = some row) : (xs.map f)[i]? = some row ∨ changed i := by
  have hlt : i < (ys.map f).length := (List.getElem?_eq_some_iff.1 hrow).1
  rw [length_map] at hlt
  rw [getElem?_map] at hrow ⊢
  rcases h i hlt with hsame | hchanged
  · exact .inl (hsame ▸ hrow)
  · exact .inr hchanged

lemma getElem?_push {α : Type*} (xs : List α) (x : α) (i : ℕ) (hi : i < (xs ++ [x]).length) :
    (xs ++ [x])[i]? = xs[i]? ∨ i = xs.length := by
  rw [length_append, length_singleton] at hi
  rcases Nat.lt_succ_iff_lt_or_eq.1 hi with hlt | heq
  · exact .inl (getElem?_append_left hlt)
  · exact .inr heq

lemma mem_set {value v} (h : v ∈ values.set index value) : v ∈ values ∨ v ∈ [value] := by
  rcases mem_or_eq_of_mem_set h with h | rfl
  · exact .inl h
  · exact .inr (mem_singleton_self v)

section Writes

variable {values : List Value} {entries : List (Value × Value)} {index : ℕ} {key value : Value}

lemma written_field (hpayload : o.payload = .slots values) :
    Written o [value] (.slots (values.set index value)) o.old := by
  constructor
  case remembers => exact id
  case values =>
    intro v hv
    rw [hpayload]
    exact mem_set hv
  case forgets => exact fun hold hnot => absurd (hold.symm.trans hnot) (by decide)
  case fits => exact fun _ storage hstorage => (by cases hstorage)
  case cards => exact fun _ _ storage hstorage => (by cases hstorage)

section
variable (hpayload : o.payload = .array values storage)
include hpayload

lemma written_arraySet : Written o [value]
      (if o.old then (Payload.array (values.set index value) storage).mapStorage
          (·.markCardDirty index) else .array (values.set index value) storage) o.old := by
  apply Written.container (dirties_index index) (hpayload ▸ rfl) rfl rfl
  · rw [hpayload, fits_array, fits_array, length_set]
    exact id
  · intro v hv
    rw [hpayload]
    exact mem_set hv
  rw [hpayload]
  apply rows_map
  intro i _
  by_cases hi : i = index
  · exact .inr hi
  · exact .inl (getElem?_set_ne (Ne.symm hi))

lemma written_arrayRange {start replacement} : Written o replacement
      (if o.old then (Payload.array (setRange values start replacement) storage).mapStorage
          (·.markRangeDirty start replacement.length)
        else .array (setRange values start replacement) storage) o.old := by
  apply Written.container (dirties_range start replacement.length) (hpayload ▸ rfl) rfl rfl
  · rw [hpayload, fits_array, fits_array, length_setRange]
    exact id
  · intro v hv
    rw [hpayload]
    exact mem_setRange hv
  rw [hpayload]
  apply rows_map
  intro i _
  by_cases hi : start ≤ i ∧ i < start + replacement.length
  · exact .inr hi
  · exact .inl (getElem?_setRange _ _ _ _ (by omega))

lemma written_arrayPush : Written o [value]
      (if o.old then (Payload.array (values ++ [value]) (storage.grow values.length)).mapStorage
          (·.markCardDirty values.length)
        else .array (values ++ [value]) (storage.grow values.length)) o.old := by
  apply Written.container (dirties_index _) (hpayload ▸ rfl) rfl (dirtyCards_grow _)
  · rw [hpayload, fits_array, fits_array, length_append]
    exact lt_capacity_grow
  · intro v hv
    rw [hpayload]
    exact mem_append.1 hv
  · rw [hpayload]
    exact rows_map (getElem?_push values value)

end

section
variable (hpayload : o.payload = .hash entries storage)
include hpayload

lemma written_hashOverwrite : Written o [value]
      (if o.old then (Payload.hash (entries.modify index fun e => (e.1, value)) storage).mapStorage
          (·.markCardDirty index)
        else .hash (entries.modify index fun e => (e.1, value)) storage) o.old := by
  apply Written.container (dirties_index index) (hpayload ▸ rfl) rfl rfl
  · rw [hpayload, fits_hash, fits_hash, length_modify]
    exact id
  · intro v hv
    obtain ⟨e', he', hv⟩ := mem_flatMap.1 hv
    obtain ⟨i, hi⟩ := mem_iff_getElem?.1 he'
    rw [getElem?_modify, Option.map_eq_map, Option.map_eq_some_iff] at hi
    obtain ⟨e, he, heq⟩ := hi
    have hmem : e ∈ entries := mem_of_getElem? he
    rw [hpayload]
    -- The entry has its old key, and its old value or the new one.
    have hkey : e'.1 = e.1 := by
      rw [← heq]
      split <;> rfl
    have hvalue : e'.2 = e.2 ∨ e'.2 = value := by
      rw [← heq]
      split
      · exact .inr rfl
      · exact .inl rfl
    rcases mem_pair.1 hv with rfl | rfl
    · exact .inl (mem_flatMap.2 ⟨e, hmem, by simp [hkey]⟩)
    · rcases hvalue with hsame | hnew
      · exact .inl (mem_flatMap.2 ⟨e, hmem, by simp [hsame]⟩)
      · exact .inr (by simp [hnew])
  · rw [hpayload]
    apply rows_map
    intro i _
    by_cases hi : i = index
    · exact .inr hi
    · exact .inl (by simp [Ne.symm hi])

lemma written_hashInsert : Written o [key, value]
      (if o.old then (Payload.hash (entries ++ [(key, value)])
          (storage.grow entries.length)).mapStorage (·.markCardDirty entries.length)
        else .hash (entries ++ [(key, value)]) (storage.grow entries.length)) o.old := by
  apply Written.container (dirties_index _) (hpayload ▸ rfl) rfl (dirtyCards_grow _)
  · rw [hpayload, fits_hash, fits_hash, length_append]
    exact lt_capacity_grow
  · intro v hv
    rw [hpayload]
    simpa [Payload.children, or_assoc] using hv
  · rw [hpayload]
    exact rows_map (getElem?_push entries (key, value))

/-- Deleting an entry moves the later ones down one place, and their cards are made dirty. -/
lemma written_hashDelete (hindex : index < entries.length) : Written o []
      (if o.old then (Payload.hash (entries.eraseIdx index) storage).mapStorage
          (·.markRangeDirty index (entries.length - 1 - index))
        else .hash (entries.eraseIdx index) storage) o.old := by
  have hlength := length_eraseIdx_of_lt hindex
  apply Written.container (dirties_range _ _) (hpayload ▸ rfl) rfl rfl
  · rw [hpayload, fits_hash, fits_hash, hlength]
    omega
  · intro v hv
    obtain ⟨e, he, hv⟩ := mem_flatMap.1 hv
    rw [hpayload]
    exact .inl (mem_flatMap.2 ⟨e, mem_of_mem_eraseIdx he, hv⟩)
  rw [hpayload]
  apply rows_map
  intro i hi
  rw [hlength] at hi
  by_cases hlt : i < index
  · exact .inl (getElem?_eraseIdx_of_lt hlt)
  · exact .inr (by omega)

end

end Writes

lemma written_of_write {w} (h : vm.write a w = some vm') :
    ∃ o payload remember, vm.heap a = some o ∧ Written o w.values payload remember ∧
      vm' = vm.store a o payload remember := by
  unfold write at h
  cases ho : vm.heap a with rw [ho] at h
  | none =>
    cases h
  | some o =>
    dsimp only at h
    simp only [setPayload_eq_store ho, gcWriteBarrier_store, gcWriteBarrierIndex_store,
      gcWriteBarrierRange_store] at h
    split at h
    case h_1 hpayload =>
      split at h <;> cases h
      exact ⟨o, _, _, rfl, written_field hpayload, rfl⟩
    case h_2 hpayload =>
      split at h <;> cases h
      exact ⟨o, _, _, rfl, written_arraySet hpayload, rfl⟩
    case h_3 hpayload =>
      split at h <;> cases h
      exact ⟨o, _, _, rfl, written_arrayRange hpayload, rfl⟩
    case h_4 hpayload =>
      cases h
      exact ⟨o, _, _, rfl, written_arrayPush hpayload, rfl⟩
    case h_5 values storage hpayload =>
      cases h
      refine ⟨o, _, _, rfl, .truncates storage (hpayload ▸ rfl) rfl ?_, rfl⟩
      have hdropped : values.dropLast <+: values := dropLast_prefix values
      rw [hpayload]
      exact hdropped.map _
    case h_6 hpayload =>
      split at h <;> cases h
      exact ⟨o, _, _, rfl, written_hashOverwrite hpayload, rfl⟩
    case h_7 hpayload =>
      cases h
      exact ⟨o, _, _, rfl, written_hashInsert hpayload, rfl⟩
    case h_8 hpayload =>
      split at h <;> cases h
      case isTrue hindex => exact ⟨o, _, _, rfl, written_hashDelete hpayload hindex, rfl⟩
    case h_9 storage hpayload =>
      cases h
      refine ⟨o, _, _, rfl, .truncates storage (hpayload ▸ rfl) rfl ?_, rfl⟩
      exact nil_prefix
    case h_10 => cases h

end Diamond.Gc
