import Diamond.Facet.Precedence
import Diamond.Facet.Resolve

/-!
# The version that is chosen

`registry_best_version` and `pick_best_matching_tag` keep the best version so far, by
`semver_compare`.  The registry's chooser stops at the locked version.
-/

namespace Diamond.Facet

open List
open Codec (Bytes)
open Bignum (isDigit decimal printUnsigned)
open Std (TransCmp)

/-- The releases that are not yanked and satisfy the constraint. -/
def matchingReleases (constraint : SemverConstraint) (records : List ManifestValue) :
    List (Bytes × Semver) :=
  records.filterMap fun record =>
    match versionRecord record with
    | some (version, false, v) => if semverSatisfies v constraint then some (version, v) else none
    | _ => none

attribute [local simp] matchingReleases

def matchingTags (constraint : SemverConstraint) (tags : List Bytes) : List (Bytes × Semver) :=
  tags.filterMap fun tag =>
    match semverParse tag with
    | some v => if semverSatisfies v constraint then some (tag, v) else none
    | none => none

/-- The records that the registry's chooser reads: those up to the locked version, if it matches. -/
def recordsRead (constraint : SemverConstraint) (preferred : Bytes) :
    List ManifestValue → List ManifestValue
  | [] => []
  | record :: rest =>
    match versionRecord record with
    | some (version, false, v) =>
      if semverSatisfies v constraint ∧ version = preferred then [record]
      else record :: recordsRead constraint preferred rest
    | _ => record :: recordsRead constraint preferred rest

/-- The loop of both choosers, over the versions that match. -/
def chooseLoop (preferred : Bytes) : Option (Bytes × Semver) → List (Bytes × Semver) →
    Option (Bytes × Semver)
  | best, [] => best
  | best, candidate :: rest =>
    if candidate.1 = preferred then some candidate
    else if best.all fun b => semverCompare candidate.2 b.2 == .gt then
      chooseLoop preferred (some candidate) rest
    else chooseLoop preferred best rest

attribute [local simp] chooseLoop

/-- What a chooser owes: the preferred version if it matches, otherwise one that no other exceeds
in precedence. -/
def Chooses (preferred : Bytes) (candidates : List (Bytes × Semver)) :
    Option (Bytes × Semver) → Prop
  | none => candidates = []
  | some r => r ∈ candidates ∧ (preferred ∈ candidates.map Prod.fst → r.1 = preferred) ∧
    (preferred ∉ candidates.map Prod.fst →
      ∀ c ∈ candidates, (versionOf r.1).precedence (versionOf c.1) ≠ .lt)

variable {constraint : SemverConstraint} {preferred : Bytes} {best : Option (Bytes × Semver)}

lemma versionRecord_some {record version yanked candidate}
    (h : versionRecord record = some (version, yanked, candidate)) :
    diamondManifestGetString record (text ['v', 'e', 'r', 's', 'i', 'o', 'n']) facetMaxRef =
        some version ∧
      semverParse version = some candidate ∧ canonicalRegistryVersion version = true := by
  rw [versionRecord.eq_def] at h
  split at h
  · simp only [Option.bind_eq_bind, Option.bind_eq_some_iff] at h
    obtain ⟨_, _, _, hversion, _, _, _, hparse, h⟩ := h
    split_ifs at h with hcanonical
    cases h
    exact ⟨hversion, hparse, hcanonical⟩
  · cases h

lemma mem_matchingTags {tags c} : c ∈ matchingTags constraint tags ↔
    c.1 ∈ tags ∧ semverParse c.1 = some c.2 ∧ semverSatisfies c.2 constraint = true := by
  rw [matchingTags, mem_filterMap]
  constructor
  · rintro ⟨tag, hmem, htag⟩
    split at htag
    · next hparse =>
      split_ifs at htag with hsat
      cases htag
      exact ⟨hmem, hparse, hsat⟩
    · cases htag
  · rintro ⟨hmem, hparse, hsat⟩
    exact ⟨c.1, hmem, by simp [hparse, hsat]⟩

lemma mem_matchingReleases {records c} : c ∈ matchingReleases constraint records ↔
    ∃ record ∈ records, versionRecord record = some (c.1, false, c.2) ∧
      semverSatisfies c.2 constraint = true := by
  rw [matchingReleases, mem_filterMap]
  refine exists_congr fun record => and_congr_right fun _ => ⟨fun hc => ?_, ?_⟩
  · split at hc
    · next hrecord =>
      split_ifs at hc with hsat
      cases hc
      exact ⟨hrecord, hsat⟩
    · cases hc
  · rintro ⟨hrecord, hsat⟩
    simp [hrecord, hsat]

/-- The loop fails only on a record that it reads and that is not valid. -/
lemma bestVersionLoop_cases (entry : FacetPendingSemver) (preferred : Bytes)
    (best : Option (Bytes × Semver)) (records : List ManifestValue) :
    bestVersionLoop entry preferred best records =
        .ok (chooseLoop preferred best (matchingReleases entry.constraint records)) ∨
      (∃ e, bestVersionLoop entry preferred best records = .error e) ∧
        ∃ r ∈ recordsRead entry.constraint preferred records, versionRecord r = none := by
  induction records generalizing best with
  | nil => exact .inl rfl
  | cons record records ih =>
    rw [bestVersionLoop, matchingReleases, filterMap_cons, recordsRead]
    cases hrecord : versionRecord record with
    | none => exact .inr ⟨⟨_, rfl⟩, record, mem_cons_self, hrecord⟩
    | some r =>
      obtain ⟨version, yanked, v⟩ := r
      -- with the best version after this record, the loops go on alike
      have hnext (best) := (ih best).imp_right (And.imp_right fun ⟨r, hr, hnone⟩ =>
        (⟨r, mem_cons_of_mem record hr, hnone⟩ : ∃ r ∈ record :: recordsRead entry.constraint
          preferred records, versionRecord r = none))
      cases yanked with
      | true => exact hnext best
      | false =>
        cases hsat : semverSatisfies v entry.constraint with
        | false => simpa [hsat] using hnext best
        | true =>
          by_cases hpreferred : version = preferred
          · cases best <;> simp [hpreferred, hsat]
          cases best with
          | none => simpa [hpreferred, hsat] using hnext (some (version, v))
          | some b =>
            by_cases hgt : semverCompare v b.2 = .gt
            · simpa [hpreferred, hsat, hgt] using hnext (some (version, v))
            · simpa [hpreferred, hsat, hgt] using hnext (some b)

lemma bestVersionLoop_ok {entry records r}
    (h : bestVersionLoop entry preferred best records = .ok r) :
    r = chooseLoop preferred best (matchingReleases entry.constraint records) := by
  rcases bestVersionLoop_cases entry preferred best records with hok | ⟨⟨e, herror⟩, -⟩
  · exact Except.ok.inj (h.symm.trans hok)
  · cases h.symm.trans herror

lemma pickBestLoop_eq {tags} :
    pickBestLoop constraint best tags = chooseLoop [] best (matchingTags constraint tags) := by
  induction tags generalizing best with
  | nil => rfl
  | cons tag _ ih =>
    rw [pickBestLoop, matchingTags, filterMap_cons]
    cases hparse : semverParse tag with
    | none => exact ih
    | some v =>
      have hne : tag ≠ [] := by
        rintro rfl
        cases hparse
      cases hsat : semverSatisfies v constraint with
      | false => simpa [hsat, matchingTags] using ih
      | true => cases best <;> simp [hne, hsat, ih, matchingTags]

lemma chooseLoop_eq_none {candidates} (h : chooseLoop preferred best candidates = none) :
    best = none ∧ candidates = [] := by
  induction candidates generalizing best with
  | nil => exact ⟨h, rfl⟩
  | cons c rest ih =>
    rw [chooseLoop] at h
    split_ifs at h with _ htake
    · cases (ih h).1
    · rw [(ih h).1] at htake
      exact absurd rfl htake

/-- The result is the preferred candidate, or at least as high as all others. -/
lemma chooseLoop_eq_some {candidates r} (h : chooseLoop preferred best candidates = some r) :
    (best = some r ∨ r ∈ candidates) ∧ if preferred ∈ candidates.map Prod.fst then r.1 = preferred
      else ∀ c, best = some c ∨ c ∈ candidates → (semverCompare c.2 r.2).isLE := by
  induction candidates generalizing best with
  | nil =>
    refine ⟨.inl h, ?_⟩
    rintro c (hc | hc)
    · cases hc.symm.trans h
      simp [Std.ReflCmp.compare_self]
    · cases hc
  | cons candidate rest ih =>
    rw [chooseLoop] at h
    split_ifs at h with hpreferred htake
    · cases h
      exact ⟨.inr mem_cons_self, by simp [hpreferred]⟩
    all_goals
      obtain ⟨hmem, hbest⟩ := ih h
      simp only [map_cons, mem_cons, Ne.symm hpreferred, false_or]
    · refine ⟨.inr (hmem.imp (fun h => (Option.some.inj h).symm) id), ?_⟩
      split_ifs at hbest ⊢
      · exact hbest
      rintro c (rfl | rfl | hc)
      · have hgt : semverCompare candidate.2 c.2 = .gt := by simpa using htake
        have hle : (semverCompare c.2 candidate.2).isLE := by
          rw [semverCompare_swap, hgt]
          rfl
        exact TransCmp.isLE_trans hle (hbest _ (.inl rfl))
      · exact hbest _ (.inl rfl)
      · exact hbest _ (.inr hc)
    · refine ⟨hmem.imp_right .inr, ?_⟩
      split_ifs at hbest ⊢
      · exact hbest
      rintro c (hc | rfl | hc)
      · exact hbest _ (.inl hc)
      · obtain ⟨b, rfl⟩ : ∃ b, best = some b := by
          cases best with
          | none => exact absurd rfl htake
          | some b => exact ⟨b, rfl⟩
        have hle : (semverCompare c.2 b.2).isLE := by simpa [Ordering.isLE_iff_ne_gt] using htake
        exact TransCmp.isLE_trans hle (hbest _ (.inl rfl))
      · exact hbest _ (.inr hc)

lemma mem_of_chooseLoop {candidates r} (h : chooseLoop preferred none candidates = some r) :
    r ∈ candidates :=
  (chooseLoop_eq_some h).1.resolve_left (Option.some_ne_none r).symm

/-- The loop chooses rightly if the result is discerned from the other candidates. -/
lemma chooses_of_loop {candidates} (hparse : ∀ c ∈ candidates, semverParse c.1 = some c.2)
    (hdiscerned : ∀ r ∈ chooseLoop preferred none candidates, ∀ c ∈ candidates,
      (versionOf r.1).Discerned (versionOf c.1)) :
    Chooses preferred candidates (chooseLoop preferred none candidates) := by
  cases hloop : chooseLoop preferred none candidates with
  | none => exact (chooseLoop_eq_none hloop).2
  | some r =>
    have hmem := mem_of_chooseLoop hloop
    have hbest := (chooseLoop_eq_some hloop).2
    refine ⟨hmem, fun hlisted => by rwa [if_pos hlisted] at hbest, fun hlisted c hc => ?_⟩
    rw [if_neg hlisted] at hbest
    rw [← Version.precedence_cutOff (hdiscerned r hloop c hc), ← semverCompare_cutOff
      (semverParse_reads (hparse r hmem)) (semverParse_reads (hparse c hc)), semverCompare_swap]
    have hle := hbest c (.inr hc)
    cases hcompare : semverCompare c.2 r.2 with
    | lt | eq => decide
    | gt => simp [hcompare] at hle

/-! ## The versions of a registry -/

/-- A number that is printed is read as itself, up to the next byte that is no digit. -/
lemma takeWhile_printUnsigned (n : ℕ) {rest : Bytes} (hrest : ∀ c ∈ rest.head?, isDigit c = false) :
    decimal ((printUnsigned n ++ rest).takeWhile isDigit) = n ∧
      (printUnsigned n ++ rest).dropWhile isDigit = rest := by
  have hdigits : ∀ c ∈ printUnsigned n, isDigit c = true := (Bignum.digits_printUnsigned n).digit
  have hstop : rest.takeWhile isDigit = [] ∧ rest.dropWhile isDigit = rest := by
    cases rest with
    | nil => exact ⟨rfl, rfl⟩
    | cons c => simp [hrest c rfl]
  rw [takeWhile_append_of_pos hdigits, dropWhile_append_of_pos hdigits, hstop.1, hstop.2,
    append_nil]
  exact ⟨Bignum.decimal_printUnsigned n, rfl⟩

/-- The fields of a canonical version are read without being cut off. -/
lemma versionOf_canonical {chars v} (h : canonicalRegistryVersion chars = true)
    (hparse : semverParse chars = some v) : (versionOf chars).major = v.major.toNat ∧
      (versionOf chars).minor = v.minor.toNat ∧ (versionOf chars).patch = v.patch.toNat := by
  rw [canonicalRegistryVersion] at h
  split at h
  · cases h
  · next hstart =>
    have hv : withoutV chars = chars := by
      rw [withoutV, if_neg]
      tauto
    rw [hparse] at h
    simp only [Bool.and_eq_true, beq_iff_eq] at h
    have hsplit : ∃ rest : Bytes, (∀ c ∈ rest.head?, isDigit c = false) ∧
        chars = printUnsigned v.major.toNat ++ byte '.' :: (printUnsigned v.minor.toNat ++
          byte '.' :: (printUnsigned v.patch.toNat ++ rest)) := by
      refine ⟨(if v.prerelease = [] then [] else byte '-' :: v.prerelease) ++
        (if v.build = [] then [] else byte '+' :: v.build), ?_, ?_⟩
      · split <;> split <;> simp <;> decide
      · rw [h.2, semverFormat]
        simp only [append_assoc, cons_append, nil_append]
    obtain ⟨rest, hrest, rfl⟩ := hsplit
    have hdot (rest : Bytes) : ∀ c ∈ (byte '.' :: rest).head?, isDigit c = false := by
      simp
      decide
    have hfield (n : ℕ) (rest : Bytes) := takeWhile_printUnsigned n (hdot rest)
    simp only [versionOf, hv, afterNumber, (hfield _ _).1, (hfield _ _).2, tail_cons,
      (takeWhile_printUnsigned _ hrest).1, and_self]

/-- Of the numbers that an `unsigned long` holds no two are cut off to the same one. -/
lemma discerned_of_toNat (a b : UInt64) : Discerned a.toNat b.toNat := by
  have ha := a.toNat_lt
  have hb := b.toNat_lt
  unfold Discerned
  omega

lemma discerned_of_canonical {chars chars' v w} (h : canonicalRegistryVersion chars = true)
    (h' : canonicalRegistryVersion chars' = true) (hv : semverParse chars = some v)
    (hw : semverParse chars' = some w) (hrelease : v.prerelease = []) :
    (versionOf chars).Discerned (versionOf chars') := by
  obtain ⟨hmajor, hminor, hpatch⟩ := versionOf_canonical h hv
  obtain ⟨hmajor', hminor', hpatch'⟩ := versionOf_canonical h' hw
  have hnone : (versionOf chars).prerelease = [] :=
    (semverParse_reads hv).prerelease.elim And.right fun hsome => absurd hrelease hsome.1
  rw [Version.Discerned, hmajor, hmajor', hminor, hminor', hpatch, hpatch', hnone]
  exact ⟨discerned_of_toNat _ _, fun _ => ⟨discerned_of_toNat _ _, fun _ =>
    ⟨discerned_of_toNat _ _, fun _ => trivial⟩⟩⟩

end Diamond.Facet
