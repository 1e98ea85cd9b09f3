import Diamond.Facet.Semver

/-!
# Precedence of versions

The order of Semantic Versioning, section 11, on the versions that texts stand for: numbers are
integers of any length.  `semver_compare` is that order on the versions with every number cut off at
the largest `unsigned long`, which is what `strtoul` gives; so it is the order itself as long as at
the first place where the versions differ not both numbers are cut off.
-/

namespace Diamond.Facet

open List

open Codec (Bytes)
open Bignum (isDigit decimal digitValue)
open Std (TransCmp OrientedCmp)

/-! ## The order of section 11 -/

inductive Identifier
  | numeric (number : ℕ)
  | alphanumeric (chars : Bytes)
  deriving DecidableEq, Repr

structure Version where
  major : ℕ
  minor : ℕ
  patch : ℕ
  prerelease : List Identifier
  deriving DecidableEq, Repr

/-- Numeric identifiers by their numbers and below the others, those by their bytes. -/
def Identifier.precedence : Identifier → Identifier → Ordering
  | .numeric a, .numeric b => compare a b
  | .numeric _, .alphanumeric _ => .lt
  | .alphanumeric _, .numeric _ => .gt
  | .alphanumeric a, .alphanumeric b => a.compareLex compare b

/-- A prerelease is below the release; fewer identifiers are below more of them. -/
def prereleasePrecedence (a b : List Identifier) : Ordering :=
  if a = [] then (if b = [] then .eq else .gt)
  else if b = [] then .lt
  else a.compareLex Identifier.precedence b

def Version.precedence (a b : Version) : Ordering :=
  (compare a.major b.major).then ((compare a.minor b.minor).then
    ((compare a.patch b.patch).then (prereleasePrecedence a.prerelease b.prerelease)))

/-! ## The version that a text stands for -/

def identifier (chars : Bytes) : Identifier :=
  if isAllDigits chars then .numeric (decimal chars) else .alphanumeric chars

def identifiers (run : Bytes) : List Identifier := (run.splitOn (byte '.')).map identifier

def afterNumber (cursor : Bytes) : Bytes := (cursor.dropWhile isDigit).tail

/-- The prerelease, up to the build metadata. -/
def prereleaseOf (cursor : Bytes) : List Identifier :=
  if cursor.head? = some (byte '-') then
    identifiers (cursor.tail.takeWhile fun c => c ≠ byte '+')
  else []

def withoutV (source : Bytes) : Bytes :=
  if source.head? = some (byte 'v') ∨ source.head? = some (byte 'V') then source.tail else source

def versionOf (source : Bytes) : Version where
  major := decimal ((withoutV source).takeWhile isDigit)
  minor := decimal ((afterNumber (withoutV source)).takeWhile isDigit)
  patch := decimal ((afterNumber (afterNumber (withoutV source))).takeWhile isDigit)
  prerelease := prereleaseOf ((afterNumber (afterNumber (withoutV source))).dropWhile isDigit)

/-! ## Numbers that fit -/

def cutOff (n : ℕ) : ℕ := min n (2 ^ 64 - 1)

def Identifier.cutOff : Identifier → Identifier
  | .numeric n => .numeric (Facet.cutOff n)
  | .alphanumeric chars => .alphanumeric chars

def Version.cutOff (v : Version) : Version :=
  ⟨Facet.cutOff v.major, Facet.cutOff v.minor, Facet.cutOff v.patch,
    v.prerelease.map Identifier.cutOff⟩

/-- Two numbers that compare alike when they are cut off. -/
def Discerned (a b : ℕ) : Prop := a = b ∨ a < 2 ^ 64 - 1 ∨ b < 2 ^ 64 - 1

instance (a b : ℕ) : Decidable (Discerned a b) := inferInstanceAs (Decidable (_ ∨ _ ∨ _))

def Identifier.Discerned : Identifier → Identifier → Prop
  | .numeric a, .numeric b => Facet.Discerned a b
  | _, _ => True

instance (i j : Identifier) : Decidable (i.Discerned j) := by
  unfold Identifier.Discerned
  split <;> infer_instance

/-- The identifiers up to the first place where the two differ are discerned. -/
def identifiersDiscerned : List Identifier → List Identifier → Prop
  | i :: is, j :: js => i.Discerned j ∧ (i.precedence j = .eq → identifiersDiscerned is js)
  | _, _ => True

instance decidableIdentifiersDiscerned : (is js : List Identifier) →
    Decidable (identifiersDiscerned is js)
  | _ :: is, _ :: js =>
    have := decidableIdentifiersDiscerned is js
    inferInstanceAs (Decidable (_ ∧ (_ → _)))
  | [], _ | _ :: _, [] => inferInstanceAs (Decidable True)

/-- At the first place where the two versions differ, not both numbers are at least the largest
`unsigned long`. -/
def Version.Discerned (v w : Version) : Prop :=
  Facet.Discerned v.major w.major ∧ (v.major = w.major →
    Facet.Discerned v.minor w.minor ∧ (v.minor = w.minor →
      Facet.Discerned v.patch w.patch ∧ (v.patch = w.patch →
        identifiersDiscerned v.prerelease w.prerelease)))

instance (v w : Version) : Decidable (v.Discerned w) :=
  inferInstanceAs (Decidable (_ ∧ (_ → _ ∧ (_ → _ ∧ (_ → _)))))

lemma compare_cutOff {a b} (h : Discerned a b) : compare (cutOff a) (cutOff b) = compare a b := by
  rcases lt_trichotomy a b with hab | hab | hab
  · rw [Nat.compare_eq_lt.2 hab, Nat.compare_eq_lt, cutOff, cutOff]
    unfold Discerned at h
    omega
  · rw [hab]
    exact (Nat.compare_eq_eq.2 rfl).trans (Nat.compare_eq_eq.2 rfl).symm
  · rw [Nat.compare_eq_gt.2 hab, Nat.compare_eq_gt, cutOff, cutOff]
    unfold Discerned at h
    omega

lemma Identifier.precedence_cutOff {i j : Identifier} (h : i.Discerned j) :
    i.cutOff.precedence j.cutOff = i.precedence j := by
  cases i with
  | numeric =>
    cases j with
    | numeric => exact compare_cutOff h
    | alphanumeric => rfl
  | alphanumeric => cases j <;> rfl

/-- What comes after the first place counts only if that place is equal. -/
lemma then_congr {first next next' : Ordering} (h : first = .eq → next = next') :
    first.then next = first.then next' := by
  cases first with
  | lt | gt => rfl
  | eq => exact h rfl

lemma prereleasePrecedence_cutOff {is js : List Identifier} (h : identifiersDiscerned is js) :
    prereleasePrecedence (is.map Identifier.cutOff) (js.map Identifier.cutOff) =
      prereleasePrecedence is js := by
  have hlex : (is.map Identifier.cutOff).compareLex Identifier.precedence
      (js.map Identifier.cutOff) = is.compareLex Identifier.precedence js := by
    induction is generalizing js with
    | nil => cases js <;> rfl
    | cons i is ih =>
      cases js with
      | nil => rfl
      | cons j =>
        rw [List.map_cons, List.map_cons, List.compareLex_cons_cons, List.compareLex_cons_cons,
          Identifier.precedence_cutOff h.1]
        exact then_congr fun heq => ih (h.2 heq)
  simp only [prereleasePrecedence, map_eq_nil_iff, hlex]

/-- Cutting off changes nothing between two versions that are discerned. -/
lemma Version.precedence_cutOff {v w : Version} (h : v.Discerned w) :
    v.cutOff.precedence w.cutOff = v.precedence w := by
  rw [Version.precedence, Version.precedence]
  simp only [Version.cutOff]
  rw [compare_cutOff h.1]
  refine then_congr fun hmajor => ?_
  have hminor := h.2 (Nat.compare_eq_eq.1 hmajor)
  rw [compare_cutOff hminor.1]
  refine then_congr fun hsame => ?_
  have hpatch := hminor.2 (Nat.compare_eq_eq.1 hsame)
  rw [compare_cutOff hpatch.1]
  exact then_congr fun hsame => prereleasePrecedence_cutOff (hpatch.2 (Nat.compare_eq_eq.1 hsame))

/-! ## Reading numbers -/

lemma toNat_strtoul (digits : Bytes) : (strtoul digits).toNat = cutOff (decimal digits) := by
  rw [strtoul, cutOff, UInt64.toNat_ofNat']
  exact Nat.mod_eq_of_lt (lt_of_le_of_lt (min_le_right _ _) (by norm_num))

lemma compare_toNat (a b : UInt64) : compare a b = compare a.toNat b.toNat := by
  change compareOfLessAndEq a b = compareOfLessAndEq a.toNat b.toNat
  simp only [compareOfLessAndEq, UInt64.lt_iff_toNat_lt, ← UInt64.toNat_inj]

lemma pow_le_decimal {c} (rest : Bytes) (hc : isDigit c = true) (hzero : c ≠ byte '0') :
    10 ^ rest.length ≤ decimal (c :: rest) := by
  have hvalue : 1 ≤ digitValue c := by
    have hge : 48 ≤ c := by
      rw [isDigit, Bool.and_eq_true, decide_eq_true_eq] at hc
      exact hc.1
    have hge' : 48 ≤ c.toNat := UInt8.le_iff_toNat_le.1 hge
    have hne : c.toNat ≠ 48 := fun h => hzero (UInt8.toNat_inj.1 h)
    rw [digitValue]
    omega
  have hsplit := Bignum.decimal_append [c] rest
  have hsingle : decimal [c] = digitValue c := by
    rw [decimal, foldl_cons, foldl_nil, Nat.zero_mul, Nat.zero_add]
  rw [singleton_append, hsingle] at hsplit
  rw [hsplit]
  exact (Nat.le_mul_of_pos_left _ hvalue).trans (Nat.le_add_right _ _)

/-- The first 31 digits decide whether a number is cut off. -/
lemma identifierValue_toNat {field} (hdigits : isAllDigits field = true)
    (hends : identifierEnds true field = true) :
    (identifierValue field).toNat = cutOff (decimal field) := by
  rw [identifierValue, toNat_strtoul]
  rcases Nat.lt_or_ge 31 field.length with hlong | hshort
  · -- Both numbers are cut off.
    have hfirst : 2 ^ 64 - 1 ≤ decimal (field.take 31) := by
      cases field with
      | nil => cases hlong.not_ge (Nat.zero_le _)
      | cons c rest =>
        have hc : isDigit c = true := by
          simp only [isAllDigits, all_cons, Bool.and_eq_true] at hdigits
          exact hdigits.2.1
        have hzero : c ≠ byte '0' := by
          rintro rfl
          simp only [identifierEnds, hdigits, head?_cons, Bool.and_true, Bool.true_and,
            beq_self_eq_true, Bool.and_eq_true, Bool.not_eq_true', decide_eq_false_iff_not] at hends
          exact hends.2 (by omega)
        have hpow := pow_le_decimal (rest.take 30) hc hzero
        rw [take_succ_cons]
        refine le_trans ?_ hpow
        rw [length_take, min_eq_left]
        · norm_num
        · rw [length_cons] at hlong
          omega
    have hall : decimal (field.take 31) ≤ decimal field := by
      have hsplit := Bignum.decimal_append (field.take 31) (field.drop 31)
      rw [take_append_drop] at hsplit
      rw [hsplit]
      exact (Nat.le_mul_of_pos_right _ (by positivity)).trans (Nat.le_add_right _ _)
    rw [cutOff, cutOff, min_eq_right hfirst, min_eq_right (hfirst.trans hall)]
  · rw [take_of_length_le hshort]

/-! ## Reading prereleases -/

lemma splitOn_cons (c dot : UInt8) (rest : Bytes) : (c :: rest).splitOn dot =
      if c = dot then [] :: rest.splitOn dot else (rest.splitOn dot).modifyHead (List.cons c) := by
  rw [splitOn, splitOnP_cons_eq_if_modifyHead]
  simp only [beq_iff_eq]
  rfl

lemma splitOn_ne_nil (dot : UInt8) (run : Bytes) : run.splitOn dot ≠ [] := splitOnP_ne_nil _ _

/-- The fields that are compared are those between dots, if none of them is empty. -/
lemma prereleaseFields_eq {run} (h : ∀ field ∈ (run.splitOn (byte '.')).tail, field ≠ []) :
    prereleaseFields run = if run = [] then [] else run.splitOn (byte '.') := by
  induction run with
  | nil => rfl
  | cons c rest ih =>
    rw [splitOn_cons] at h
    rw [prereleaseFields.eq_def, splitOn_cons, if_neg (cons_ne_nil c rest)]
    dsimp only
    split
    · next hdot =>
      rw [if_pos hdot, tail_cons] at h
      have hrest : rest ≠ [] := by
        rintro rfl
        exact h [] (by simp) rfl
      rw [ih fun field hfield => h field (mem_of_mem_tail hfield), if_neg hrest]
    · next hdot =>
      rw [if_neg hdot] at h
      cases rest with
      | nil => simp
      | cons d rest =>
        have htail : ((d :: rest).splitOn (byte '.')).tail =
            (((d :: rest).splitOn (byte '.')).modifyHead (cons c)).tail := by
          cases (d :: rest).splitOn (byte '.') <;> rfl
        rw [ih (htail ▸ h), if_neg (cons_ne_nil d rest)]
        cases hsplit : (d :: rest).splitOn (byte '.') with
        | nil => exact absurd hsplit (splitOn_ne_nil _ _)
        | cons => rfl

/-- A run that is copied goes up to the stop, and all its identifiers are well formed. -/
lemma identifierRun_some {stop check current cursor rest}
    (h : identifierRun (some stop) check current cursor = some rest) :
    rest = cursor.dropWhile (fun c => c ≠ stop) ∧
      ∀ field ∈ ((cursor.takeWhile fun c => c ≠ stop).splitOn (byte '.')).modifyHead (current ++ ·),
        identifierEnds check field = true := by
  induction cursor generalizing current with rw [identifierRun] at h
  | nil =>
    split at h
    · next hends =>
      cases h
      refine ⟨rfl, fun field hfield => ?_⟩
      simp at hfield
      rwa [hfield]
    · cases h
  | cons c cursor ih =>
    split at h
    · next hstop =>
      cases hstop
      split at h
      · next hends =>
        cases h
        refine ⟨by simp, fun field hfield => ?_⟩
        simp at hfield
        rwa [hfield]
      · cases h
    · next hstop =>
      have hne : c ≠ stop := fun heq => hstop (congrArg some heq)
      have htake : (c :: cursor).takeWhile (fun c => decide (c ≠ stop)) =
          c :: cursor.takeWhile fun c => c ≠ stop := by simp [hne]
      have hdrop : (c :: cursor).dropWhile (fun c => decide (c ≠ stop)) =
          cursor.dropWhile fun c => c ≠ stop := by simp [hne]
      obtain ⟨_, _, hsplit⟩ := exists_cons_of_ne_nil
        (splitOn_ne_nil (byte '.') (cursor.takeWhile fun c => decide (c ≠ stop)))
      rw [htake, hdrop, splitOn_cons, hsplit]
      split at h
      · next hdot =>
        split at h
        · next hends =>
          obtain ⟨hrest, hfields⟩ := ih h
          refine ⟨hrest, fun field hfield => ?_⟩
          rw [if_pos hdot, modifyHead_cons, append_nil] at hfield
          rcases mem_cons.1 hfield with rfl | hfield
          · exact hends
          · rw [hsplit] at hfields
            exact hfields field hfield
        · cases h
      · next hdot =>
        split at h
        · obtain ⟨hrest, hfields⟩ := ih h
          rw [hsplit] at hfields
          refine ⟨hrest, fun field hfield => hfields field ?_⟩
          rw [if_neg hdot] at hfield
          simpa using hfield
        · cases h

open Option

lemma optionalRun_prerelease {cursor run rest}
    (h : optionalRun '-' (some (byte '+')) true cursor = some (run, rest)) :
    run = [] ∧ prereleaseOf cursor = [] ∨ run ≠ [] ∧ prereleaseOf cursor = identifiers run ∧
        ∀ field ∈ run.splitOn (byte '.'), identifierEnds true field = true := by
  rw [optionalRun] at h
  split at h
  · next hdash =>
    rw [copyIdentifierRun] at h
    obtain ⟨_, hafter, hrun⟩ := bind_eq_some_iff.1 h
    dsimp only at hrun
    split at hrun
    · cases hrun
    · next hlength =>
      cases hrun
      obtain ⟨hrest, hfields⟩ := identifierRun_some hafter
      have htake : cursor.tail.take (cursor.tail.length - rest.length) =
          cursor.tail.takeWhile fun c => c ≠ byte '+' := by
        have hsplit := cursor.tail.takeWhile_append_dropWhile (p := fun c => decide (c ≠ byte '+'))
        have hlen := congrArg length hsplit
        rw [length_append, ← hrest] at hlen
        rw [show cursor.tail.length - rest.length =
          (cursor.tail.takeWhile fun c => decide (c ≠ byte '+')).length by omega]
        nth_rewrite 2 [← hsplit]
        exact take_left
      rw [htake] at hlength ⊢
      rw [not_or] at hlength
      refine .inr ⟨hlength.1, by rw [prereleaseOf, if_pos hdash], ?_⟩
      have hid : ∀ fields : List Bytes, fields.modifyHead (([] : Bytes) ++ ·) = fields := by
        intro fields
        cases fields <;> rfl
      rwa [hid] at hfields
  · next hdash =>
    cases h
    exact .inl ⟨rfl, by rw [prereleaseOf, if_neg hdash]⟩

/-! ## Reading versions -/

structure Reads (v : Semver) (w : Version) : Prop where
  major : v.major.toNat = cutOff w.major
  minor : v.minor.toNat = cutOff w.minor
  patch : v.patch.toNat = cutOff w.patch
  prerelease : v.prerelease = [] ∧ w.prerelease = [] ∨
    v.prerelease ≠ [] ∧ w.prerelease = identifiers v.prerelease ∧
      ∀ field ∈ v.prerelease.splitOn (byte '.'), identifierEnds true field = true

lemma parseNumericField_some {cursor rest n} (h : parseNumericField cursor = some (n, rest)) :
    n.toNat = cutOff (decimal (cursor.takeWhile isDigit)) ∧ rest = cursor.dropWhile isDigit := by
  simp only [parseNumericField] at h
  split at h
  · cases h
  · split at h
    · cases h
    · cases h
      exact ⟨toNat_strtoul _, rfl⟩

lemma expect_some {c cursor rest} (h : expect c cursor = some rest) : rest = cursor.tail := by
  rw [expect] at h
  split at h
  · exact (some.inj h).symm
  · cases h

lemma semverParse_reads {source v} (h : semverParse source = some v) :
    Reads v (versionOf source) := by
  simp only [semverParse, bind_eq_bind, bind_eq_some_iff, Prod.exists] at h
  obtain ⟨_, _, hmajor, _, hdot, _, _, hminor, _, hdot', _, _, hpatch, _, _,
    hprerelease, _, _, -, hend⟩ := h
  split at hend
  · cases hend
    obtain ⟨hmajor', rfl⟩ := parseNumericField_some hmajor
    obtain rfl := expect_some hdot
    obtain ⟨hminor', rfl⟩ := parseNumericField_some hminor
    obtain rfl := expect_some hdot'
    obtain ⟨hpatch', rfl⟩ := parseNumericField_some hpatch
    exact ⟨hmajor', hminor', hpatch', optionalRun_prerelease hprerelease⟩
  · cases hend

/-! ## The comparison -/

lemma comparePrereleaseIdentifier_identifier {a b} (ha : identifierEnds true a = true)
    (hb : identifierEnds true b = true) :
    comparePrereleaseIdentifier a b = (identifier a).cutOff.precedence (identifier b).cutOff := by
  rw [comparePrereleaseIdentifier, identifier, identifier]
  cases hdigits : isAllDigits a with
  | true =>
    cases hdigits' : isAllDigits b with
    | true =>
      rw [compare_toNat, identifierValue_toNat hdigits ha, identifierValue_toNat hdigits' hb]
      rfl
    | false => rfl
  | false =>
    cases hdigits' : isAllDigits b with
    | true | false => rfl

lemma compareLex_identifiers {as bs : List Bytes}
    (ha : ∀ field ∈ as, identifierEnds true field = true)
    (hb : ∀ field ∈ bs, identifierEnds true field = true) :
    as.compareLex comparePrereleaseIdentifier bs =
      ((as.map identifier).map Identifier.cutOff).compareLex Identifier.precedence
        ((bs.map identifier).map Identifier.cutOff) := by
  induction as generalizing bs with
  | nil => cases bs <;> rfl
  | cons a _ ih =>
    cases bs with
    | nil => rfl
    | cons b =>
      simp only [List.map_cons, List.compareLex_cons_cons]
      rw [comparePrereleaseIdentifier_identifier (ha a List.mem_cons_self) (hb b List.mem_cons_self),
        ih (fun field hfield => ha field (mem_cons_of_mem _ hfield)) fun field hfield =>
          hb field (mem_cons_of_mem _ hfield)]

lemma identifiers_ne_nil (run : Bytes) : identifiers run ≠ [] := by
  rw [identifiers, Ne, map_eq_nil_iff]
  exact splitOn_ne_nil _ _

lemma comparePrerelease_identifiers {a b} (ha : a ≠ []) (hb : b ≠ [])
    (hfields : ∀ field ∈ a.splitOn (byte '.'), identifierEnds true field = true)
    (hfields' : ∀ field ∈ b.splitOn (byte '.'), identifierEnds true field = true) :
    comparePrerelease a b = ((identifiers a).map Identifier.cutOff).compareLex Identifier.precedence
        ((identifiers b).map Identifier.cutOff) := by
  have hne : ∀ field, identifierEnds true field = true → field ≠ [] := by
    rintro field hends rfl
    cases hends
  rw [comparePrerelease,
    prereleaseFields_eq fun field h => hne field (hfields field (mem_of_mem_tail h)),
    prereleaseFields_eq fun field h => hne field (hfields' field (mem_of_mem_tail h)),
    if_neg ha, if_neg hb]
  exact compareLex_identifiers hfields hfields'

lemma semverCompare_cutOff {a b v w} (ha : Reads a v) (hb : Reads b w) :
    semverCompare a b = v.cutOff.precedence w.cutOff := by
  have hprerelease : (if (a.prerelease ≠ []) ≠ (b.prerelease ≠ []) then
      if a.prerelease ≠ [] then Ordering.lt else .gt
      else if a.prerelease = [] then .eq else comparePrerelease a.prerelease b.prerelease) =
      prereleasePrecedence (v.prerelease.map .cutOff)
        (w.prerelease.map .cutOff) := by
    rw [prereleasePrecedence]
    simp only [map_eq_nil_iff]
    rcases ha.prerelease with ⟨hrun, hv⟩ | ⟨hrun, hv, hfields⟩
    · rcases hb.prerelease with ⟨hrun', hw⟩ | ⟨hrun', hw, hfields'⟩
      · simp [hrun, hrun', hv, hw]
      · simp [hrun, hrun', hv, hw, identifiers_ne_nil]
    · rcases hb.prerelease with ⟨hrun', hw⟩ | ⟨hrun', hw, hfields'⟩
      · simp [hrun, hrun', hv, hw, identifiers_ne_nil]
      · rw [hv, hw, comparePrerelease_identifiers hrun hrun' hfields hfields']
        simp [hrun, hrun', identifiers_ne_nil]
  rw [semverCompare, hprerelease, Version.precedence, compare_toNat, compare_toNat a.minor,
    compare_toNat a.patch, ha.major, ha.minor, ha.patch, hb.major, hb.minor, hb.patch]
  simp only [Version.cutOff]
  cases compare (cutOff v.major) (cutOff w.major) with
  | lt | gt => rfl
  | eq =>
    cases compare (cutOff v.minor) (cutOff w.minor) with
    | lt | gt => rfl
    | eq => cases compare (cutOff v.patch) (cutOff w.patch) <;> rfl

/-- On versions that the parser accepts, `semver_compare` is the order of section 11 unless at the
first place where the two differ both numbers are at least the largest `unsigned long`.  It is a
total preorder in any case. -/
theorem semverCompare_precedence (s t : Bytes) (a b c : Semver) :
    (semverParse s = some a → semverParse t = some b → (versionOf s).Discerned (versionOf t) →
      semverCompare a b = (versionOf s).precedence (versionOf t)) ∧
    semverCompare b a = (semverCompare a b).swap ∧
    ((semverCompare a b).isLE → (semverCompare b c).isLE → (semverCompare a c).isLE) := by
  refine ⟨?_, semverCompare_swap a b, TransCmp.isLE_trans⟩
  intro ha hb hdiscerned
  rw [semverCompare_cutOff (semverParse_reads ha) (semverParse_reads hb),
    Version.precedence_cutOff hdiscerned]

/-- Large numbers before and after the first place that differs do no harm. -/
theorem semverCompare_precedence_large :
    ∃ a b, semverParse (text "18446744073709551616.2.0-alpha.1".toList) = some a ∧
      semverParse (text "v18446744073709551616.2.0-alpha.beta.18446744073709551616".toList) =
        some b ∧
      semverCompare a b = (versionOf (text "18446744073709551616.2.0-alpha.1".toList)).precedence
        (versionOf (text "v18446744073709551616.2.0-alpha.beta.18446744073709551616".toList)) :=
  ⟨⟨18446744073709551615, 2, 0, text "alpha.1".toList, []⟩,
    ⟨18446744073709551615, 2, 0, text "alpha.beta.18446744073709551616".toList, []⟩,
    by decide +kernel, by decide +kernel,
    (semverCompare_precedence _ _ _ _ ⟨1, 2, 3, [], []⟩).1 (by decide +kernel) (by decide +kernel)
      (by decide +kernel)⟩

/-- Numbers that do not fit are equal to the largest one, in the three fields and in prerelease
identifiers. -/
theorem large_numbers_equal :
    (∃ a b, semverParse (text "18446744073709551615.0.0".toList) = some a ∧
      semverParse (text "18446744073709551616.0.0".toList) = some b ∧ semverCompare a b = .eq ∧
      (versionOf (text "18446744073709551615.0.0".toList)).precedence
        (versionOf (text "18446744073709551616.0.0".toList)) = .lt) ∧
    ∃ a b, semverParse (text "1.0.0-18446744073709551615".toList) = some a ∧
      semverParse (text "1.0.0-18446744073709551616".toList) = some b ∧ semverCompare a b = .eq ∧
      (versionOf (text "1.0.0-18446744073709551615".toList)).precedence
        (versionOf (text "1.0.0-18446744073709551616".toList)) = .lt :=
  ⟨⟨⟨18446744073709551615, 0, 0, [], []⟩, ⟨18446744073709551615, 0, 0, [], []⟩, by decide +kernel,
      by decide +kernel, by decide +kernel, by decide +kernel⟩,
    ⟨1, 0, 0, text "18446744073709551615".toList, []⟩,
    ⟨1, 0, 0, text "18446744073709551616".toList, []⟩, by decide +kernel, by decide +kernel,
    by decide +kernel, by decide +kernel⟩

/-! ## Carets and tildes -/

/-- The version keeps the leftmost nonzero field of `base`, and the zeros to its left. -/
def KeepsLeftmost (base v : Semver) : Prop :=
  v.major = base.major ∧ (base.major = 0 →
    v.minor = base.minor ∧ (base.minor = 0 → v.patch = base.patch))

def KeepsMinor (base v : Semver) : Prop := v.major = base.major ∧ v.minor = base.minor

/-- The constraint admits the releases at or above `base` that keep its fields, and no others. -/
def AdmitsExactly (source : Bytes) (base : Semver) (keeps : Semver → Prop) : Prop :=
  ∃ c, semverConstraintParse source = some c ∧ ∀ v, semverSatisfies v c = true ↔
    v.prerelease = [] ∧ semverCompare v base ≠ .lt ∧ keeps v

/-- The field that `caret_upper_bound` increments. -/
def caretField (base : Semver) : UInt64 :=
  if 0 < base.major then base.major else if 0 < base.minor then base.minor else base.patch

/-- The order of the three fields. -/
def Below (v w : Semver) : Prop :=
  v.major.toNat < w.major.toNat ∨ v.major.toNat = w.major.toNat ∧
    (v.minor.toNat < w.minor.toNat ∨ v.minor.toNat = w.minor.toNat ∧ v.patch.toNat < w.patch.toNat)

lemma semverCompare_lt_iff {v} (hv : v.prerelease = []) (w : Semver) :
    semverCompare v w = .lt ↔ Below v w := by
  have hlast : (compare 1 (if w.prerelease = [] then 1 else 0)).then
      (comparePrerelease [] w.prerelease) ≠ .lt := by
    by_cases hw : w.prerelease = []
    · rw [hw]
      decide
    · rw [if_neg hw]
      nofun
  simp only [semverCompare_eq, compareLex, compareOn, hv, if_true]
  rw [Ordering.then_eq_lt, Ordering.then_eq_lt, Ordering.then_eq_lt]
  simp only [compare_toNat, Nat.compare_eq_lt, Nat.compare_eq_eq, hlast, and_false, or_false, Below]

lemma satisfies_between_iff {v base upper} :
    semverSatisfies v ⟨some ⟨base, true⟩, some ⟨upper, false⟩⟩ = true ↔
      v.prerelease = [] ∧ semverCompare v base ≠ .lt ∧ semverCompare v upper = .lt := by
  rw [semverSatisfies]
  by_cases hv : v.prerelease = []
  · simp only [hv, ne_eq, not_true_eq_false, if_false, true_and]
    cases semverCompare v base <;> cases semverCompare v upper <;> decide
  · simp [hv]

/-- An upper bound that has not wrapped around is exact; otherwise `base` itself, as a release, is
not below it. -/
lemma admits_iff {source base keeps} {P : Prop} (upper : Semver)
    (hparse : semverConstraintParse source = some ⟨some ⟨base, true⟩, some ⟨upper, false⟩⟩)
    (hself : keeps { base with prerelease := [] })
    (hexact : P → ∀ v, ¬Below v base → (Below v upper ↔ keeps v)) (hwraps : ¬P → ¬Below base upper) :
    AdmitsExactly source base keeps ↔ P := by
  constructor
  · rintro ⟨c, hc, hall⟩
    cases hparse.symm.trans hc
    by_contra hP
    have hrelease : semverCompare { base with prerelease := [] } base ≠ .lt := by
      simp [semverCompare_lt_iff, Below]
    have hsatisfies := satisfies_between_iff.1 ((hall _).2 ⟨rfl, hrelease, hself⟩)
    have hbelow := (semverCompare_lt_iff rfl _).1 hsatisfies.2.2
    exact hwraps hP hbelow
  · intro hP
    refine ⟨_, hparse, fun v => satisfies_between_iff.trans (and_congr_right fun hv => ?_)⟩
    rw [Ne, semverCompare_lt_iff hv, semverCompare_lt_iff hv]
    exact and_congr_right (hexact hP v)

lemma caret_admits_iff {rest base} (h : semverParse rest = some base) :
    AdmitsExactly (byte '^' :: rest) base (KeepsLeftmost base) ↔
      (caretField base).toNat < 2 ^ 64 - 1 := by
  refine admits_iff (caretUpperBound base) ?_ ⟨rfl, fun _ => ⟨rfl, fun _ => rfl⟩⟩ ?_ ?_
  · rw [semverConstraintParse, dropWhile_cons_of_neg (by decide)]
    simp [h]
  all_goals
    simp only [Below, KeepsLeftmost, caretField, caretUpperBound, ← UInt64.toNat_inj,
      UInt64.lt_iff_toNat_lt, UInt64.toNat_zero]
    split_ifs <;> simp only [UInt64.toNat_add, UInt64.toNat_one, UInt64.toNat_zero] <;> omega

lemma tilde_admits_iff {rest base} (h : semverParse rest = some base) :
    AdmitsExactly (byte '~' :: rest) base (KeepsMinor base) ↔ base.minor.toNat < 2 ^ 64 - 1 := by
  refine admits_iff (tildeUpperBound base) ?_ ⟨rfl, rfl⟩ ?_ ?_
  · rw [semverConstraintParse, dropWhile_cons_of_neg (by decide)]
    simp [h, byte]
  all_goals
    simp only [Below, KeepsMinor, tildeUpperBound, ← UInt64.toNat_inj, UInt64.toNat_add,
      UInt64.toNat_one, UInt64.toNat_zero]
    omega

end Diamond.Facet
