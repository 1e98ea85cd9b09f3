import Diamond.Hash.WellFormed
import Mathlib.Data.List.Find

/-!
# Hash tables represent association lists

The reference model is an association list in insertion order, with a comparison of keys as its
parameter.  Every run of operations on hash tables represents the run of the reference model that
compares keys as `hash_find` does, by hash and by `values_equal` (`Run.contents`).  It represents
the one that compares them by `values_equal` alone exactly when the hash function respects that
equality on the keys used (`hash_represents_iff`).
-/

namespace Diamond.Hash

open List DiamondHash

variable {K V : Type*}

/-! ## The reference model -/

section
variable (same : K → K → Bool)

def assocLookup (l : List (K × V)) (key : K) : Option V :=
  (l.find? fun e => same e.1 key).map Prod.snd

/-- Overwriting keeps an entry's place; a new entry goes to the end. -/
def assocSet (l : List (K × V)) (key : K) (value : V) : List (K × V) :=
  match l.findIdx? fun e => same e.1 key with
  | some i => l.modify i fun e => (e.1, value)
  | none => l ++ [(key, value)]

lemma assocSet_assocSet {key} (hkey : same key key = true) (l : List (K × V)) (value value' : V) :
    assocSet same (assocSet same l key value) key value' = assocSet same l key value' := by
  rw [assocSet, assocSet]
  cases hfind : l.findIdx? fun e => same e.1 key with
  | some i =>
    have hkeys : (l.modify i fun e => (e.1, value)).map Prod.fst = l.map Prod.fst := by
      apply ext_getElem?
      intro j
      rw [getElem?_map, getElem?_map, getElem?_modify]
      cases l[j]? with
      | none => rfl
      | some e =>
        show some (if i = j then (e.1, value) else e).1 = some e.1
        split_ifs <;> rfl
    have hfind' : ((l.modify i fun e => (e.1, value)).findIdx? fun e => same e.1 key) = some i := by
      have hmap : ∀ m : List (K × V), (m.findIdx? fun e => same e.1 key) =
          (m.map Prod.fst).findIdx? fun k => same k key := by
        intro m
        rw [findIdx?_map]
        rfl
      rw [hmap, hkeys, ← hmap, hfind]
    dsimp only
    rw [hfind']
    dsimp only
    rw [modify_modify_eq, assocSet, hfind]
    rfl
  | none =>
    have hfind' : ((l ++ [(key, value)]).findIdx? fun e => same e.1 key) = some l.length := by
      rw [findIdx?_append, hfind, findIdx?_singleton, if_pos hkey]
      simp
    dsimp only
    rw [hfind', assocSet, hfind]
    dsimp only
    rw [modify_eq_take_cons_drop (by simp)]
    simp

def assocDelete (l : List (K × V)) (key : K) : List (K × V) :=
  match l.findIdx? fun e => same e.1 key with
  | some i => l.eraseIdx i
  | none => l

end

/-- The operations on the hash tables of a program, which are numbered as they are made. -/
inductive Operation (K V : Type*)
  | new
  | set (table : ℕ) (key : K) (value : V)
  | delete (table : ℕ) (key : K)
  | clear (table : ℕ)
  | clone (table : ℕ)

def Operation.key? : Operation K V → Option K
  | .set _ key _ => some key
  | .delete _ key => some key
  | _ => none

def assocApply (same : K → K → Bool) (ls : List (List (K × V))) :
    Operation K V → List (List (K × V))
  | .new => ls ++ [[]]
  | .set table key value => ls.modify table fun l => assocSet same l key value
  | .delete table key => ls.modify table fun l => assocDelete same l key
  | .clear table => ls.modify table fun _ => []
  | .clone table => ls ++ [ls.getD table []]

def reference (same : K → K → Bool) (ops : List (Operation K V)) : List (List (K × V)) :=
  ops.foldl (assocApply same) []

/-! ## Runs of the hash tables -/

/-- What a table shows: its keys and values in iteration order. -/
def DiamondHash.contents (h : DiamondHash K V) : List (K × V) :=
  h.entries.map fun entry => (entry.key, entry.value)

/-- One operation on table number `table`; `none` if there is no such table or the operation does
not return. -/
def onTable (hs : List (DiamondHash K V)) (table : ℕ)
    (f : DiamondHash K V → Option (DiamondHash K V × Bool)) :
    Option (List (DiamondHash K V) × Bool) :=
  match hs[table]? with
  | none => none
  | some h =>
    match f h with
    | none => none
    | some (h', ok) => some (hs.set table h', ok)

section
variable (hash : K → UInt64) (equal : K → K → Bool)

/-- An operation on the hash tables, and whether it had the memory it needs. -/
def apply (mem : Memory) (hs : List (DiamondHash K V)) :
    Operation K V → Option (List (DiamondHash K V) × Bool)
  | .new => some (hs ++ [allocateHash], true)
  | .set table key value => onTable hs table fun h => hashSet hash equal mem h key value
  | .delete table key => onTable hs table fun h =>
      (hashDelete hash equal mem h key).map fun r => (r.1, r.2.2)
  | .clear table => onTable hs table fun h => some (hashClear h, true)
  | .clone table =>
    match hs[table]? with
    | none => none
    | some h => some (hs ++ [(hashCloneContents mem h).1], (hashCloneContents mem h).2)

/-- The runs: each operation finds the memory it needs, since a program that runs out of it ends. -/
inductive Run : List (Operation K V) → List (DiamondHash K V) → Prop
  | nil : Run [] []
  | step {ops hs hs' op} (h : Run ops hs) (mem : Memory)
      (happly : apply hash equal mem hs op = some (hs', true)) : Run (ops ++ [op]) hs'

def keyMatch (k k' : K) : Bool := hash k == hash k' && equal k k'

end

variable {hash : K → UInt64} {equal : K → K → Bool} {h h' : DiamondHash K V} {mem : Memory}
variable {key : K} {value : V} {ops : List (Operation K V)} {hs hs' : List (DiamondHash K V)}

lemma findIdx?_congr {α : Type*} {p q : α → Bool} {l : List α} (hpq : ∀ x ∈ l, p x = q x) :
    l.findIdx? p = l.findIdx? q := by
  induction l with
  | nil => rfl
  | cons x l ih =>
    rw [findIdx?_cons, findIdx?_cons, hpq x mem_cons_self,
      ih fun y hy => hpq y (mem_cons_of_mem _ hy)]

lemma map_modify {α β : Type*} {g : α → β} {f} {f' : β → β} {l : List α} {i}
    (hcomm : ∀ x ∈ l, g (f x) = f' (g x)) : (l.modify i f).map g = (l.map g).modify i f' := by
  refine ext_getElem? fun j => ?_
  rw [getElem?_map, getElem?_modify, getElem?_modify, getElem?_map]
  cases hj : l[j]? with
  | none => rfl
  | some x =>
    by_cases hij : i = j
    · simp [hij, hcomm x (mem_of_getElem? hj)]
    · simp [hij]

section
variable (hwf : WellFormed hash h)
include hwf

lemma findIdx?_contents (key : K) :
    hashFind hash equal h key = h.contents.findIdx? fun e => keyMatch hash equal e.1 key := by
  rw [hashFind_eq hwf, contents, findIdx?_map]
  refine findIdx?_congr fun entry hentry => ?_
  rw [Function.comp, keyMatch, hwf.cached entry hentry]

lemma hashLookup_contents (key : K) :
    hashLookup hash equal h key = assocLookup (keyMatch hash equal) h.contents key := by
  unfold hashLookup assocLookup
  rw [findIdx?_contents hwf, find?_eq_bind_findIdx?_getElem?]
  cases h.contents.findIdx? fun e => keyMatch hash equal e.1 key with
  | none => rfl
  | some =>
    simp only [contents, Option.bind_some, getElem?_map, Option.map_map]
    rfl

/-- `hash_set` returns, and with memory it sets the key in the association list. -/
lemma hashSet_contents (mem : Memory) (key : K) (value : V) :
    ∃ h' ok, hashSet hash equal mem h key value = some (h', ok) ∧ (mem.Enough → ok = true) ∧
      (ok = true → WellFormed hash h' ∧
        h'.contents = assocSet (keyMatch hash equal) h.contents key value) := by
  unfold hashSet assocSet
  rw [findIdx?_contents hwf]
  cases h.contents.findIdx? fun e => keyMatch hash equal e.1 key with
  | some i =>
    refine ⟨_, mem.barrier, rfl, fun hmem => hmem.2.2, fun _ => ⟨hwf.overwrite i, ?_⟩⟩
    exact map_modify fun _ _ => rfl
  | none =>
    dsimp only
    rcases hgrow : growEntries mem h with ⟨h₁, _ | _⟩
    · refine ⟨h₁, false, rfl, fun hmem => ?_, by simp⟩
      rw [growEntries, hmem.1] at hgrow
      split at hgrow <;> cases hgrow
    obtain ⟨hwf₁, hentries₁, hroom⟩ := growEntries_wellFormed hwf hgrow
    obtain ⟨h₂, ok, hgrow₂, hmem₂, hok⟩ := growBuckets_wellFormed hwf₁ mem
    simp only [hgrow₂]
    cases ok with
    | false => exact ⟨h₂, false, rfl, fun hmem => hmem₂ hmem.2.1, by simp⟩
    | true =>
      obtain ⟨hwf₂, hentries₂, hcapacity, hload⟩ := hok rfl
      have hroom₂ : h₂.count < h₂.capacity := by
        rw [DiamondHash.count, hentries₂, hcapacity]
        exact hroom
      obtain ⟨h₃, happend, hwf₃, hentries₃⟩ := hashAppend_wellFormed hwf₂ hroom₂ hload mem key value
      refine ⟨h₃, mem.barrier, happend, fun hmem => hmem.2.2, fun _ => ⟨hwf₃, ?_⟩⟩
      simp only [contents, hentries₃, hentries₂, hentries₁, map_append, map_cons, map_nil]

/-- `hash_delete` returns, and with memory it deletes the key from the association list. -/
lemma hashDelete_contents (mem : Memory) (key : K) : ∃ h' ok, hashDelete hash equal mem h key =
        some (h', assocLookup (keyMatch hash equal) h.contents key, ok) ∧ (mem.Enough → ok = true) ∧
      (ok = true → WellFormed hash h' ∧
        h'.contents = assocDelete (keyMatch hash equal) h.contents key) := by
  rw [← hashLookup_contents hwf]
  unfold hashDelete assocDelete hashLookup
  rw [findIdx?_contents hwf]
  cases hidx : h.contents.findIdx? fun e => keyMatch hash equal e.1 key with
  | none => exact ⟨h, true, rfl, fun _ => rfl, fun _ => ⟨hwf, rfl⟩⟩
  | some i =>
    have hi : i < h.count := by
      obtain ⟨hi, -⟩ := findIdx?_eq_some_iff_getElem.1 hidx
      simpa [DiamondHash.contents, DiamondHash.count] using hi
    obtain ⟨h', ok, hrehash, hmem, hok⟩ := hwf.erase hi mem
    refine ⟨h', ok && mem.barrier, ?_, fun henough => ?_, fun hand => ?_⟩
    · simp only [hrehash]
    · rw [hmem henough.2.1, henough.2.2, Bool.and_self]
    · obtain ⟨hwf', hentries⟩ := hok (Bool.and_eq_true_iff.1 hand).1
      refine ⟨hwf', ?_⟩
      simp only [contents, hentries, eraseIdx_map]

end

lemma onTable_contents {table f g} (hwf : ∀ h ∈ hs, WellFormed hash h)
    (hf : ∀ h h', WellFormed hash h → f h = some (h', true) →
      WellFormed hash h' ∧ h'.contents = g h.contents)
    (happly : onTable hs table f = some (hs', true)) : (∀ h ∈ hs', WellFormed hash h) ∧
      hs'.map DiamondHash.contents = (hs.map DiamondHash.contents).modify table g := by
  unfold onTable at happly
  cases hh : hs[table]? with
  | none => simp [hh] at happly
  | some h =>
    cases hfh : f h with
    | none => simp [hh, hfh] at happly
    | some r =>
      obtain ⟨h', _⟩ := r
      simp only [hh, hfh, Option.some.injEq, Prod.mk.injEq] at happly
      obtain ⟨rfl, rfl⟩ := happly
      obtain ⟨hwf', hcontents⟩ := hf h h' (hwf h (mem_of_getElem? hh)) hfh
      refine ⟨fun h₁ hh₁ => ?_, ?_⟩
      · rcases mem_or_eq_of_mem_set hh₁ with hh₁ | rfl
        · exact hwf h₁ hh₁
        · exact hwf'
      refine ext_getElem? fun j => ?_
      rw [getElem?_map, getElem?_set, getElem?_modify, getElem?_map]
      obtain ⟨hlt, rfl⟩ := List.getElem?_eq_some_iff.1 hh
      by_cases hj : table = j
      · subst hj
        simp [hlt, hcontents]
      · simp [hj]

/-- Every operation that has the memory it needs acts on the association lists. -/
lemma apply_contents {op} (hwf : ∀ h ∈ hs, WellFormed hash h)
    (happly : apply hash equal mem hs op = some (hs', true)) : (∀ h ∈ hs', WellFormed hash h) ∧
      hs'.map DiamondHash.contents =
        assocApply (keyMatch hash equal) (hs.map DiamondHash.contents) op := by
  have happend : ∀ {h : DiamondHash K V}, WellFormed hash h → ∀ h₁ ∈ hs ++ [h], WellFormed hash h₁ := by
    intro h hh h₁ hh₁
    rcases mem_append.1 hh₁ with hh₁ | hh₁
    · exact hwf h₁ hh₁
    · rwa [mem_singleton.1 hh₁]
  cases op with
  | new =>
    cases happly
    exact ⟨happend wellFormed_allocateHash, by simp [assocApply, DiamondHash.contents, allocateHash]⟩
  | set _ key value =>
    refine onTable_contents hwf (fun h h' hh heq => ?_) happly
    obtain ⟨h₁, _, hset, -, hok⟩ := hashSet_contents hh mem key value
    rw [hset] at heq
    cases heq
    exact hok rfl
  | delete _ key =>
    refine onTable_contents hwf (fun h h' hh heq => ?_) happly
    obtain ⟨h₁, _, hdelete, -, hok⟩ := hashDelete_contents hh mem key
    rw [hdelete] at heq
    cases heq
    exact hok rfl
  | clear table =>
    replace happly : onTable hs table (fun h => some (hashClear h, true)) = some (hs', true) := happly
    refine onTable_contents hwf (fun h h' hh heq => ?_) happly
    cases heq
    exact ⟨hh.clear, rfl⟩
  | clone table =>
    unfold apply at happly
    cases hh : hs[table]? with
    | none => simp [hh] at happly
    | some h =>
      simp only [hh, Option.some.injEq, Prod.mk.injEq] at happly
      obtain ⟨rfl, hok⟩ := happly
      obtain ⟨hwf', hentries⟩ := (hwf h (mem_of_getElem? hh)).clone
        (show hashCloneContents mem h = (_, true) from Prod.ext rfl hok)
      refine ⟨happend hwf', ?_⟩
      simp only [assocApply, map_append, map_cons, map_nil,
        getD_eq_getElem?_getD, getElem?_map, hh, Option.map_some, Option.getD_some]
      rw [DiamondHash.contents, hentries]
      rfl

/-- Every run represents the reference model that compares keys as `hash_find` does. -/
lemma Run.contents (hrun : Run hash equal ops hs) : (∀ h ∈ hs, WellFormed hash h) ∧
      hs.map DiamondHash.contents = reference (keyMatch hash equal) ops := by
  induction hrun with
  | nil => exact ⟨by simp, rfl⟩
  | step _ _ happly ih =>
    obtain ⟨hwf, hcontents⟩ := ih
    obtain ⟨hwf', hcontents'⟩ := apply_contents hwf happly
    refine ⟨hwf', ?_⟩
    rw [hcontents', hcontents, reference, reference, foldl_append]
    rfl

/-! ## Comparing keys by equality alone -/

def KeysIn (S : Set K) (l : List (K × V)) : Prop := ∀ e ∈ l, e.1 ∈ S

variable {S : Set K} {same same' : K → K → Bool} {l : List (K × V)}

lemma KeysIn.set (hl : KeysIn S l) (hkey : key ∈ S) : KeysIn S (assocSet same l key value) := by
  unfold assocSet
  cases l.findIdx? fun e => same e.1 key with
  | none =>
    intro e he
    rcases mem_append.1 he with he | he
    · exact hl e he
    · rwa [mem_singleton.1 he]
  | some =>
    intro e he
    obtain ⟨j, hj, rfl⟩ := mem_iff_getElem.1 he
    rw [length_modify] at hj
    have hold := hl l[j] (getElem_mem hj)
    rw [getElem_modify]
    split
    all_goals exact hold

lemma KeysIn.delete (hl : KeysIn S l) : KeysIn S (assocDelete same l key) := by
  unfold assocDelete
  cases l.findIdx? fun e => same e.1 key with
  | none => exact hl
  | some => exact fun e he => hl e (mem_of_mem_eraseIdx he)

lemma KeysIn.findIdx?_eq (hl : KeysIn S l) (hkey : key ∈ S)
    (hsame : ∀ k ∈ S, ∀ k' ∈ S, same k k' = same' k k') :
    (l.findIdx? fun e => same e.1 key) = l.findIdx? fun e => same' e.1 key :=
  findIdx?_congr fun e he => hsame e.1 (hl e he) key hkey

lemma assocApply_congr {ls : List (List (K × V))} {op : Operation K V}
    (hls : ∀ l ∈ ls, KeysIn S l) (hop : ∀ k, op.key? = some k → k ∈ S)
    (hsame : ∀ k ∈ S, ∀ k' ∈ S, same k k' = same' k k') :
    assocApply same ls op = assocApply same' ls op ∧ ∀ l ∈ assocApply same ls op, KeysIn S l := by
  have hmodify : ∀ {table : ℕ} {f : List (K × V) → List (K × V)},
      (∀ l, KeysIn S l → KeysIn S (f l)) → ∀ l ∈ ls.modify table f, KeysIn S l := by
    intro table f hf l hl
    obtain ⟨j, hj, rfl⟩ := mem_iff_getElem.1 hl
    rw [length_modify] at hj
    rw [getElem_modify]
    split
    · exact hf _ (hls _ (getElem_mem hj))
    · exact hls _ (getElem_mem hj)
  have hcongr : ∀ {table : ℕ} {f f' : List (K × V) → List (K × V)},
      (∀ l, KeysIn S l → f l = f' l) → ls.modify table f = ls.modify table f' := by
    intro table f f' hf
    refine ext_getElem? fun j => ?_
    rw [getElem?_modify, getElem?_modify]
    cases hj : ls[j]? with
    | none => rfl
    | some l => simp [hf l (hls l (mem_of_getElem? hj))]
  cases op with
  | new =>
    refine ⟨rfl, forall_mem_append.2 ⟨hls, forall_mem_singleton.2 ?_⟩⟩
    exact fun e he => by cases he
  | set _ key =>
    have hkey := hop key rfl
    refine ⟨hcongr fun l hl => ?_, hmodify fun l hl => hl.set hkey⟩
    rw [assocSet, assocSet, hl.findIdx?_eq hkey hsame]
  | delete _ key =>
    have hkey := hop key rfl
    refine ⟨hcongr fun l hl => ?_, hmodify fun l hl => hl.delete⟩
    rw [assocDelete, assocDelete, hl.findIdx?_eq hkey hsame]
  | clear => exact ⟨rfl, hmodify fun l _ e he => by cases he⟩
  | clone table =>
    refine ⟨rfl, forall_mem_append.2 ⟨hls, forall_mem_singleton.2 ?_⟩⟩
    rw [getD_eq_getElem?_getD]
    cases hj : ls[table]? with
    | none => exact fun e he => by cases he
    | some l => exact hls l (mem_of_getElem? hj)

lemma reference_congr (hops : ∀ op ∈ ops, ∀ k, op.key? = some k → k ∈ S)
    (hsame : ∀ k ∈ S, ∀ k' ∈ S, same k k' = same' k k') :
    reference same ops = reference same' ops ∧ ∀ l ∈ reference same ops, KeysIn S l := by
  induction ops using List.reverseRecOn with
  | nil => exact ⟨rfl, by simp [reference]⟩
  | append_singleton _ op ih =>
    obtain ⟨heq, hkeys⟩ := ih fun op' hop' => hops op' (mem_append_left _ hop')
    have hop := hops op (mem_append_right _ (mem_singleton.2 rfl))
    obtain ⟨heq', hkeys'⟩ := assocApply_congr hkeys hop hsame
    simp only [reference, foldl_append, foldl_cons, foldl_nil] at heq hkeys heq' hkeys' ⊢
    exact ⟨by rw [heq', heq], hkeys'⟩

lemma assocLookup_congr (hl : KeysIn S l) (hkey : key ∈ S)
    (hsame : ∀ k ∈ S, ∀ k' ∈ S, same k k' = same' k k') :
    assocLookup same l key = assocLookup same' l key := by
  rw [assocLookup, assocLookup, find?_congr fun e he => hsame e.1 (hl e he) key hkey]

/-- A program that ran `ops` on keys from `S` has the tables `hs`: they show what the reference
model holds, a lookup gives what the model gives, every live entry is found by probing from its own
hash, and insertion and deletion return. -/
structure Represents (hash : K → UInt64) (equal : K → K → Bool) (S : Set K)
    (ops : List (Operation K V)) (hs : List (DiamondHash K V)) : Prop where
  contents : hs.map DiamondHash.contents = reference equal ops
  lookup : ∀ h ∈ hs, ∀ key ∈ S, hashLookup hash equal h key = assocLookup equal h.contents key
  reachable : ∀ h ∈ hs, ∀ index < h.count, ∃ entry, h.entries[index]? = some entry ∧
    Probing.search h.buckets (nextSlot h.bucketCapacity) (· == index) h.bucketCapacity
      (homeSlot h.bucketCapacity (hash entry.key)) = some index
  returns : ∀ h ∈ hs, ∀ mem key value, (hashSet hash equal mem h key value).isSome ∧
    (hashDelete hash equal mem h key).isSome

section
variable (hS : ∀ k ∈ S, ∀ k' ∈ S, equal k k' = true → hash k = hash k')
include hS

/-- On keys whose equality the hash function respects, the two comparisons agree. -/
lemma keyMatch_eq : ∀ k ∈ S, ∀ k' ∈ S, keyMatch hash equal k k' = equal k k' := by
  intro k hk k' hk'
  unfold keyMatch
  cases hequal : equal k k' with
  | false => exact Bool.and_false _
  | true => rw [hS k hk k' hk' hequal, beq_self_eq_true, Bool.and_self]

lemma Run.represents (hops : ∀ op ∈ ops, ∀ k, op.key? = some k → k ∈ S)
    (hrun : Run hash equal ops hs) : Represents hash equal S ops hs := by
  obtain ⟨hwf, hcontents⟩ := hrun.contents
  obtain ⟨heq, hkeys⟩ := reference_congr hops (keyMatch_eq hS)
  refine ⟨hcontents.trans heq, fun h hh key hkey => ?_, fun h hh => (hwf h hh).reachable, ?_⟩
  · rw [hashLookup_contents (hwf h hh)]
    refine assocLookup_congr (hkeys _ ?_) hkey (keyMatch_eq hS)
    rw [← hcontents]
    exact mem_map_of_mem hh
  · intro h hh mem key value
    obtain ⟨h₁, _, hset, -⟩ := hashSet_contents (hwf h hh) mem key value
    obtain ⟨h₂, _, hdelete, -⟩ := hashDelete_contents (hwf h hh) mem key
    rw [hset, hdelete]
    exact ⟨rfl, rfl⟩

end

lemma exists_run_set (hash : K → UInt64) (equal : K → K → Bool) (key : K) (value : V) :
    ∃ h, Run hash equal [.new, .set 0 key value] [h] ∧ h.contents = [(key, value)] := by
  obtain ⟨h, _, hset, hmem, hok⟩ :=
    @hashSet_contents K V hash equal _ wellFormed_allocateHash ⟨true, true, true⟩ key value
  obtain rfl := hmem ⟨rfl, rfl, rfl⟩
  have hnew : Run hash equal [.new] [(allocateHash : DiamondHash K V)] :=
    .step .nil ⟨true, true, true⟩ rfl
  refine ⟨h, .step hnew ⟨true, true, true⟩ ?_, (hok rfl).2⟩
  simp only [apply, onTable, getElem?_cons_zero, hset, set_cons_zero]

/-- The hash tables of every run on keys from `S` represent the association lists of the reference
model that compares keys by equality exactly when equal keys of `S` have the same hash. -/
theorem hash_represents_iff [Inhabited V] (hash : K → UInt64) (equal : K → K → Bool) (S : Set K) :
    (∀ (ops : List (Operation K V)) hs, (∀ op ∈ ops, ∀ k, op.key? = some k → k ∈ S) →
      Run hash equal ops hs → Represents hash equal S ops hs) ↔
    ∀ k ∈ S, ∀ k' ∈ S, equal k k' = true → hash k = hash k' := by
  constructor
  · intro hall k hk k' hk' hequal
    obtain ⟨h, hrun, hcontents⟩ := exists_run_set hash equal k (default : V)
    have hops : ∀ op ∈ [Operation.new, .set 0 k (default : V)], ∀ k₁, op.key? = some k₁ → k₁ ∈ S := by
      intro op hop k₁ hk₁
      rcases List.mem_cons.1 hop with rfl | hop
      · cases hk₁
      · rw [List.mem_singleton.1 hop] at hk₁
        cases hk₁
        exact hk
    have hlookup := (hall _ _ hops hrun).lookup h (List.mem_singleton.2 rfl) k' hk'
    -- The reference model finds the value; the table looks for an entry with the hash of `k'`.
    rw [hashLookup_contents (hrun.contents.1 h (List.mem_singleton.2 rfl)), hcontents] at hlookup
    by_contra hne
    simp [assocLookup, keyMatch, hequal, hne] at hlookup
  · intro hS ops hs hops hrun
    exact hrun.represents hS hops

/-- Whatever the hash function and the equality are, the tables of every run are well formed, and
they hold and find what the reference model does that compares keys by hash and equality. -/
theorem run_refines_matching {ops : List (Operation K V)} {hs} (hrun : Run hash equal ops hs) :
    hs.map DiamondHash.contents = reference (keyMatch hash equal) ops ∧
    ∀ h ∈ hs, WellFormed hash h ∧ ∀ key,
      hashLookup hash equal h key = assocLookup (keyMatch hash equal) h.contents key := by
  obtain ⟨hwf, hcontents⟩ := hrun.contents
  exact ⟨hcontents, fun h hh => ⟨hwf h hh, hashLookup_contents (hwf h hh)⟩⟩

theorem run_refines_matching_set : ∃ h : DiamondHash ℕ ℕ,
    h.contents = [(1, 2)] ∧ WellFormed (fun _ => 0) h := by
  obtain ⟨h, hrun, hcontents⟩ := exists_run_set (fun _ : ℕ => 0) (fun a b => a == b) 1 2
  exact ⟨h, hcontents, ((run_refines_matching hrun).2 h (mem_singleton.2 rfl)).1⟩

/-! ## Running out of memory -/

/-- The second table holds what the first does, in the same order, and lookups find it there. -/
def Intact (hash : K → UInt64) (equal : K → K → Bool) (h h' : DiamondHash K V) : Prop :=
  h'.contents = h.contents ∧ ∀ key, hashFind hash equal h' key = hashFind hash equal h key

/-- `hash_set` finds no memory for more entries or for more buckets. -/
def growthFails (mem : Memory) (h : DiamondHash K V) : Bool :=
  match growEntries mem h with
  | (_, false) => true
  | (h, true) =>
    match growBuckets mem h with
    | some (_, false) => true
    | _ => false

lemma hashFind_lt {i} (hfind : hashFind hash equal h key = some i) : i < h.count := by
  unfold hashFind at hfind
  split at hfind
  · cases hfind
  have hmatch := Probing.search_matches hfind
  unfold matchesKey at hmatch
  split at hmatch
  · next hentry => exact (List.getElem?_eq_some_iff.1 hentry).1
  · cases hmatch

lemma growEntries_eq (mem : Memory) (h : DiamondHash K V) :
    ∃ capacity, (growEntries mem h).1 = { h with capacity := capacity } := by
  unfold growEntries
  split_ifs <;> exact ⟨_, rfl⟩

/-- `hash_rehash` leaves the entries alone, and everything when it fails. -/
lemma hashRehash_entries {n ok} (hrehash : hashRehash mem h n = some (h', ok)) :
    h'.entries = h.entries ∧ (ok = false → h' = h) := by
  unfold hashRehash at hrehash
  split at hrehash
  · split at hrehash
    · cases hrehash
    · cases hrehash
      exact ⟨rfl, by simp⟩
  · cases hrehash
    exact ⟨rfl, fun _ => rfl⟩

lemma growBuckets_entries {ok} (hgrow : growBuckets mem h = some (h', ok)) :
    h'.entries = h.entries ∧ (ok = false → h' = h) := by
  unfold growBuckets at hgrow
  split at hgrow
  · exact hashRehash_entries hgrow
  · cases hgrow
    exact ⟨rfl, fun _ => rfl⟩

/-- A growth that fails changes nothing but the capacity. -/
lemma hashSet_growthFails (hfind : hashFind hash equal h key = none)
    (hset : hashSet hash equal mem h key value = some (h', false)) :
    if growthFails mem h then Intact hash equal h h' else h'.count = h.count + 1 := by
  obtain ⟨_, hcapacity⟩ := growEntries_eq mem h
  rw [hashSet, hfind] at hset
  unfold growthFails
  rcases hgrow : growEntries mem h with ⟨h₁, _ | _⟩
  · simp only [hgrow] at hset hcapacity
    cases hset
    rw [hcapacity]
    exact ⟨rfl, fun _ => rfl⟩
  · simp only [hgrow] at hset hcapacity
    rcases hbuckets : growBuckets mem h₁ with _ | ⟨h₂, _ | _⟩
    · simp only [hbuckets] at hset
      cases hset
    · simp only [hbuckets] at hset ⊢
      cases hset
      rw [(growBuckets_entries hbuckets).2 rfl, hcapacity]
      exact ⟨rfl, fun _ => rfl⟩
    · simp only [hbuckets, hashAppend] at hset ⊢
      split at hset
      · cases hset
      · simp only [Option.some.injEq, Prod.mk.injEq] at hset
        rw [← hset.1, if_neg (by decide), DiamondHash.count, (growBuckets_entries hbuckets).1,
          length_append, length_singleton, hcapacity]
        rfl

lemma hashDelete_false {removed}
    (hdelete : hashDelete hash equal mem h key = some (h', removed, false)) :
    h'.count + 1 = h.count := by
  unfold hashDelete at hdelete
  split at hdelete
  · cases hdelete
  · next _ hfind =>
    have hlength := length_eraseIdx_of_lt (hashFind_lt hfind)
    have hlt := hashFind_lt hfind
    split at hdelete
    · cases hdelete
    · next hrehash =>
      simp only [Option.some.injEq, Prod.mk.injEq] at hdelete
      rw [← hdelete.1, DiamondHash.count, (hashRehash_entries hrehash).1, hlength]
      exact Nat.sub_add_cancel (Nat.zero_lt_of_lt hlt)

lemma count_contents (hcontents : h'.contents = h.contents) : h'.count = h.count := by
  simpa [DiamondHash.contents, DiamondHash.count] using congrArg List.length hcontents

lemma overwrite_intact {i} (hi : i < h.count) : Intact hash equal h
    { h with entries := h.entries.modify i fun e => { e with value := value } } ↔
      h.entries[i].value = value := by
  constructor
  · intro hintact
    have hat := congrArg (·[i]?) hintact.1
    have hget : h.entries[i]? = some h.entries[i] := getElem?_eq_getElem hi
    simp [DiamondHash.contents, hget] at hat
    exact hat.symm
  · intro hvalue
    have hsame : (h.entries.modify i fun e => { e with value := value }) = h.entries := by
      refine ext_getElem? fun j => ?_
      rw [getElem?_modify]
      by_cases hij : i = j
      · subst hij
        rw [getElem?_eq_getElem hi]
        simp [← hvalue]
      · simp [hij]
    rw [hsame]
    exact ⟨rfl, fun _ => rfl⟩

/-- A failed insertion leaves the Hash as it was exactly when it fails for want of room, or when the
value it has already written is the one that stood there; a failed deletion never does. -/
theorem failed_update_intact_iff (hash : K → UInt64) (equal : K → K → Bool) (mem : Memory)
    (h h' : DiamondHash K V) (key : K) :
    (∀ value, hashSet hash equal mem h key value = some (h', false) →
      (Intact hash equal h h' ↔
        match hashFind hash equal h key with
        | none => growthFails mem h = true
        | some i => (h.entries[i]?).map DiamondHashEntry.value = some value)) ∧
    (∀ removed, hashDelete hash equal mem h key = some (h', removed, false) →
      ¬ Intact hash equal h h') := by
  refine ⟨fun value hset => ?_, fun removed hdelete hintact => ?_⟩
  · cases hfind : hashFind hash equal h key with
    | none =>
      have hgrowth := hashSet_growthFails hfind hset
      refine ⟨fun hintact => ?_, fun hfails => by rwa [if_pos hfails] at hgrowth⟩
      by_contra hfails
      rw [if_neg hfails, count_contents hintact.1] at hgrowth
      omega
    | some =>
      have hi := hashFind_lt hfind
      rw [hashSet, hfind] at hset
      simp only [Option.some.injEq, Prod.mk.injEq] at hset
      rw [← hset.1, overwrite_intact hi]
      simp only [List.getElem?_eq_getElem hi, Option.map_some, Option.some.injEq]
  · have hcount := hashDelete_false hdelete
    rw [count_contents hintact.1] at hcount
    omega

end Diamond.Hash
