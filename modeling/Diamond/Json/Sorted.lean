import Diamond.Json.RoundTrip

/-!
# Writing with sorted keys

With `sort_keys` the entries of a Hash are written in the order of their keys, so the order in which
they were inserted leaves no trace in the text.
-/

namespace Diamond.Json
open List
open Codec (Bytes)
open Hash (Key)

variable {F : Type}

/-- A Hash as the VM keeps it, with String keys only. -/
def StringKeys (entries : List (Key × Value F)) : Prop :=
  (entries.map Prod.fst).Nodup ∧ ∀ key ∈ entries.map Prod.fst, ∃ name, key = .string name

/-- The same Arrays and leaves, and Hashes that are equal as maps. -/
inductive SameMaps : Value F → Value F → Prop
  | refl (v) : SameMaps v v
  | array {values others} : Forall₂ SameMaps values others → SameMaps (.array values) (.array others)
  | hash {entries others} : StringKeys entries →
      (entries.map Prod.fst).Perm (others.map Prod.fst) →
      (∀ e ∈ entries, ∀ f ∈ others, e.1 = f.1 → SameMaps e.2 f.2) →
      SameMaps (.hash entries) (.hash others)

variable (env : Environment F) {writer : JsonWriter} {entries others : List (Key × Value F)}

lemma jsonKeyCompare_ne_gt {a b : Bytes} {i j} :
    jsonKeyCompare (a, i) (b, j) ≠ .gt ↔ a < b ∨ a = b ∧ i ≤ j := by
  induction a generalizing b with
  | nil => cases b <;> simp [jsonKeyCompare, memcmp, Nat.compare_eq_gt]
  | cons x a ih =>
    cases b with
    | nil => simp [jsonKeyCompare, memcmp]
    | cons y b =>
      have hstep : jsonKeyCompare (x :: a, i) (y :: b, j) =
          if x = y then jsonKeyCompare (a, i) (b, j) else if x < y then .lt else .gt := by
        simp only [jsonKeyCompare, length_cons, Nat.succ_min_succ, take_succ_cons, memcmp]
        split_ifs <;> simp_all
      rw [hstep, cons_lt_cons_iff]
      split_ifs with heq hlt
      · simp [ih, heq]
      · simp [hlt]
      · simp [heq, hlt]

/-- Keys in strictly ascending byte order. -/
def Ascending (keys : List Key) : Prop := keys.Pairwise fun k l => keyText env k < keyText env l

lemma jsonSortedOrder_ascending (h : StringKeys entries) :
    Ascending env ((jsonSortedOrder env entries).map Prod.fst) := by
  let before (x y : (Key × Value F) × ℕ) : Prop :=
    jsonKeyCompare (keyText env x.1.1, x.2) (keyText env y.1.1, y.2) ≠ .gt
  have htotal : Std.Total before := ⟨fun x y => by
    simp only [before, jsonKeyCompare_ne_gt]
    have := List.le_total (keyText env x.1.1) (keyText env y.1.1)
    grind [List.le_iff_lt_or_eq]⟩
  have htrans : IsTrans _ before := ⟨fun x y z hxy hyz => by
    simp only [before, jsonKeyCompare_ne_gt] at *
    have := @List.lt_trans UInt8 _ _ (keyText env x.1.1) (keyText env y.1.1) (keyText env z.1.1)
    grind⟩
  have hsorted := pairwise_insertionSort before entries.zipIdx
  have hperm := ((jsonSortedOrder_perm env entries).map Prod.fst)
  have hne := hperm.nodup_iff.2 h.1
  have hstring := fun key hkey => h.2 key (hperm.mem_iff.1 hkey)
  simp only [Ascending, Nodup, jsonSortedOrder, map_map, pairwise_map] at hne hstring ⊢
  refine (hsorted.and hne).imp_of_mem fun {x y} hx hy hxy => ?_
  rcases jsonKeyCompare_ne_gt.1 hxy.1 with hlt | ⟨heq, -⟩
  · exact hlt
  · obtain ⟨name, hname⟩ := hstring _ (mem_map_of_mem hx)
    obtain ⟨name', hname'⟩ := hstring _ (mem_map_of_mem hy)
    simp_all [keyText]

/-- The order in which `json_write_value` takes the entries. -/
lemma order_ascending (hsort : writer.sortKeys) (h : StringKeys entries) :
    Ascending env ((if writer.sortKeys ∧ 1 < entries.length then jsonSortedOrder env entries
      else entries).map Prod.fst) := by
  split_ifs with hlength
  · exact jsonSortedOrder_ascending env h
  · match entries with
    | [] | [_] => simp [Ascending]
    | _ :: _ :: _ => simp [hsort] at hlength

lemma ascending_unique {keys keys' : List Key} (h : Ascending env keys) (h' : Ascending env keys')
    (hperm : keys.Perm keys') : keys = keys' :=
  hperm.eq_of_pairwise (fun _ _ _ _ hlt hgt => absurd hgt (List.lt_asymm hlt)) h h'

lemma mapM_writeEntry {element : Value F → Result Bytes}
    (hkeys : entries.map Prod.fst = others.map Prod.fst)
    (h : ∀ e ∈ entries, ∀ f ∈ others, e.1 = f.1 → element e.2 = element f.2) :
    entries.mapM (writeEntry env writer element) = others.mapM (writeEntry env writer element) := by
  induction entries generalizing others with
  | nil => rw [map_eq_nil_iff.1 hkeys.symm]
  | cons e entries ih =>
    obtain ⟨f, rest, rfl, hf, hrest⟩ := map_eq_cons_iff.1 hkeys.symm
    have helement := h e mem_cons_self f mem_cons_self hf.symm
    rw [mapM_cons, mapM_cons, ih hrest.symm fun e he f hf => h e (.tail _ he) f (.tail _ hf)]
    simp only [writeEntry, hf, helement]

lemma writeValueWith_sameMaps (hsort : writer.sortKeys) {nesting element} {v w : Value F}
    (helement : ∀ f ∈ element, ∀ v w : Value F, SameMaps v w → f v = f w) (h : SameMaps v w) :
    writeValueWith env writer nesting element v = writeValueWith env writer nesting element w := by
  cases element with
  | none => cases h <;> rfl
  | some element =>
    cases h with
    | refl => rfl
    | @array values others h =>
      have hmap : values.mapM element = others.mapM element := by
        induction h with
        | nil => rfl
        | cons hvw _ ih => rw [mapM_cons, mapM_cons, ih, helement element rfl _ _ hvw]
      simp only [writeValueWith, hmap]
    | @hash entries others hkeys hperm hvalues =>
      have hkeys' : StringKeys others :=
        ⟨hperm.nodup_iff.1 hkeys.1, fun key hkey => hkeys.2 key (hperm.mem_iff.2 hkey)⟩
      have horder := (order_perm env writer entries).1
      have horder' := (order_perm env writer others).1
      have heq := ascending_unique env (order_ascending env hsort hkeys)
        (order_ascending env hsort hkeys') ((horder.map _).trans (hperm.trans (horder'.map _).symm))
      simp only [writeValueWith, mapM_writeEntry env heq fun e he f hf hef =>
        helement element rfl _ _ (hvalues e (horder.mem_iff.1 he) f (horder'.mem_iff.1 hf) hef)]

lemma write_sameMaps (hsort : writer.sortKeys) (levels : ℕ) {v w : Value F} (h : SameMaps v w) :
    jsonWriteValue env writer levels v = jsonWriteValue env writer levels w := by
  induction levels generalizing v w with
  | zero => exact writeValueWith_sameMaps env hsort nofun h
  | succ levels ih =>
    refine writeValueWith_sameMaps env hsort (fun f hf v w h => ?_) h
    cases hf
    exact ih h

end Diamond.Json
