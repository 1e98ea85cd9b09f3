import Diamond.Bignum.Decimal
import Diamond.Lib.Codec
import Diamond.Lib.Ranges

/-!
# Semantic versions

Model of `src/semver.c`.  Texts are C strings, lists of bytes without a NUL.  A constraint is a pair
of optional bounds; the facts about intersections are those of ranges over any transitive
comparison.
-/

namespace Diamond.Facet
open Codec (Bytes)
open Bignum (isDigit decimal printUnsigned)
open Ranges (Bound meets tighter compatible)
open Std (TransCmp OrientedCmp)

def text (chars : List Char) : Bytes := chars.map fun c => UInt8.ofNat c.toNat

def byte (c : Char) : UInt8 := UInt8.ofNat c.toNat

def isAlpha (c : UInt8) : Bool := (65 ≤ c && c ≤ 90) || (97 ≤ c && c ≤ 122)

def isSpace (c : UInt8) : Bool := c == 32 || (9 ≤ c && c ≤ 13)

def isIdentifierChar (c : UInt8) : Bool := isAlpha c || isDigit c || c == byte '-'

def isAllDigits (chars : Bytes) : Bool := chars != [] && chars.all isDigit

/-- C `strtoul` on digits: the largest `unsigned long` when the number does not fit. -/
def strtoul (digits : Bytes) : UInt64 := UInt64.ofNat (min (decimal digits) (2 ^ 64 - 1))

structure Semver where
  major : UInt64
  minor : UInt64
  patch : UInt64
  prerelease : Bytes
  build : Bytes
  deriving DecidableEq, Repr

/-! ## Parsing -/

def parseNumericField (cursor : Bytes) : Option (UInt64 × Bytes) :=
  let digits := cursor.takeWhile isDigit
  if digits = [] then none
  else if 1 < digits.length ∧ digits.head? = some (byte '0') then none
  else some (strtoul digits, cursor.dropWhile isDigit)

/-- What `copy_identifier_run` requires of an identifier when it ends. -/
def identifierEnds (checkLeadingZero : Bool) (identifier : Bytes) : Bool :=
  identifier != [] && !(checkLeadingZero && isAllDigits identifier &&
    decide (1 < identifier.length) && identifier.head? == some (byte '0'))

/-- The loop of `copy_identifier_run`, with the identifier it is in: what follows the run. -/
def identifierRun (stop : Option UInt8) (checkLeadingZero : Bool) : Bytes → Bytes → Option Bytes
  | identifier, [] => if identifierEnds checkLeadingZero identifier then some [] else none
  | identifier, c :: rest =>
    if some c = stop then
      if identifierEnds checkLeadingZero identifier then some (c :: rest) else none
    else if c = byte '.' then
      if identifierEnds checkLeadingZero identifier then
        identifierRun stop checkLeadingZero [] rest
      else none
    else if isIdentifierChar c then
      identifierRun stop checkLeadingZero (identifier ++ [c]) rest
    else none

def semverMaxIdentifiers : ℕ := 256

def copyIdentifierRun (stop : Option UInt8) (checkLeadingZero : Bool) (cursor : Bytes) :
    Option (Bytes × Bytes) := do
  let rest ← identifierRun stop checkLeadingZero [] cursor
  let run := cursor.take (cursor.length - rest.length)
  if run = [] ∨ semverMaxIdentifiers ≤ run.length then none else some (run, rest)

def expect (c : Char) (cursor : Bytes) : Option Bytes :=
  if cursor.head? = some (byte c) then some cursor.tail else none

/-- The optional part of a version that starts with this character. -/
def optionalRun (c : Char) (stop : Option UInt8) (checkLeadingZero : Bool) (cursor : Bytes) :
    Option (Bytes × Bytes) :=
  if cursor.head? = some (byte c) then copyIdentifierRun stop checkLeadingZero cursor.tail
  else some ([], cursor)

def semverParse (source : Bytes) : Option Semver := do
  let cursor :=
    if source.head? = some (byte 'v') ∨ source.head? = some (byte 'V') then source.tail else source
  let (major, cursor) ← parseNumericField cursor
  let cursor ← expect '.' cursor
  let (minor, cursor) ← parseNumericField cursor
  let cursor ← expect '.' cursor
  let (patch, cursor) ← parseNumericField cursor
  let (prerelease, cursor) ← optionalRun '-' (some (byte '+')) true cursor
  let (build, cursor) ← optionalRun '+' none false cursor
  if cursor = [] then some ⟨major, minor, patch, prerelease, build⟩ else none

def semverFormat (v : Semver) : Bytes :=
  printUnsigned v.major.toNat ++ [byte '.'] ++ printUnsigned v.minor.toNat ++ [byte '.'] ++
    printUnsigned v.patch.toNat ++ (if v.prerelease = [] then [] else byte '-' :: v.prerelease) ++
    (if v.build = [] then [] else byte '+' :: v.build)

/-! ## Precedence -/

/-- The fields of a prerelease as `compare_prerelease` steps through them. -/
def prereleaseFields : Bytes → List Bytes
  | [] => []
  | c :: rest =>
    if c = byte '.' then [] :: prereleaseFields rest
    else
      match rest, prereleaseFields rest with
      | [], _ => [[c]]
      | _ :: _, [] => [[c]]
      | _ :: _, field :: fields => (c :: field) :: fields

/-- The number of a numeric identifier, read from at most 31 of its digits. -/
def identifierValue (identifier : Bytes) : UInt64 := strtoul (identifier.take 31)

/-- `compare_prerelease_identifier`.  Comparing bytes and then lengths is the order of byte lists.
-/
def comparePrereleaseIdentifier (a b : Bytes) : Ordering :=
  match isAllDigits a, isAllDigits b with
  | true, true => compare (identifierValue a) (identifierValue b)
  | true, false => .lt
  | false, true => .gt
  | false, false => a.compareLex compare b

def comparePrerelease (a b : Bytes) : Ordering :=
  (prereleaseFields a).compareLex comparePrereleaseIdentifier (prereleaseFields b)

def semverCompare (a b : Semver) : Ordering :=
  match compare a.major b.major with
  | .eq =>
    match compare a.minor b.minor with
    | .eq =>
      match compare a.patch b.patch with
      | .eq =>
        if (a.prerelease ≠ []) ≠ (b.prerelease ≠ []) then
          if a.prerelease ≠ [] then .lt else .gt
        else if a.prerelease = [] then .eq
        else comparePrerelease a.prerelease b.prerelease
      | order => order
    | order => order
  | order => order

/-! ## Constraints -/

/-- C `SemverConstraint`: a bound is absent when its `has_` flag is off. -/
structure SemverConstraint where
  min : Option (Bound Semver)
  max : Option (Bound Semver)
  deriving DecidableEq, Repr

/-- `caret_upper_bound`; the numbers wrap around. -/
def caretUpperBound (v : Semver) : Semver :=
  if 0 < v.major then ⟨v.major + 1, 0, 0, [], []⟩
  else if 0 < v.minor then ⟨v.major, v.minor + 1, 0, [], []⟩
  else ⟨v.major, v.minor, v.patch + 1, [], []⟩

def tildeUpperBound (v : Semver) : Semver := ⟨v.major, v.minor + 1, 0, [], []⟩

inductive CompareOp
  | exact
  | gte
  | lte
  | gt
  | lt
  deriving DecidableEq, Repr

def parseComparatorTerm (term : Bytes) : Option (CompareOp × Semver) :=
  if (text ['>', '=']).isPrefixOf term then (semverParse (term.drop 2)).map (.gte, ·)
  else if (text ['<', '=']).isPrefixOf term then (semverParse (term.drop 2)).map (.lte, ·)
  else if term.head? = some (byte '>') then (semverParse term.tail).map (.gt, ·)
  else if term.head? = some (byte '<') then (semverParse term.tail).map (.lt, ·)
  else if term.head? = some (byte '=') then (semverParse term.tail).map (.exact, ·)
  else (semverParse term).map (.exact, ·)

def applyComparator (out : SemverConstraint) (op : CompareOp) (version : Semver) :
    Option SemverConstraint :=
  match op with
  | .exact =>
    if out.min.isSome ∨ out.max.isSome then none else some ⟨some ⟨version, true⟩, some ⟨version, true⟩⟩
  | .gte | .gt =>
    if out.min.isSome then none else some { out with min := some ⟨version, op = .gte⟩ }
  | .lte | .lt =>
    if out.max.isSome then none else some { out with max := some ⟨version, op = .lte⟩ }

/-- The terms of a constraint: its runs of bytes that are not spaces. -/
def terms : Bytes → List Bytes
  | [] => []
  | c :: rest =>
    if isSpace c then terms rest
    else
      match rest, terms rest with
      | [], _ => [[c]]
      | next :: _, others =>
        if isSpace next then [c] :: others
        else
          match others with
          | [] => [[c]]
          | term :: others => (c :: term) :: others

def parseTerms (out : SemverConstraint) (termCount : ℕ) : List Bytes → Option SemverConstraint
  | [] => if 0 < termCount then some out else none
  | term :: rest =>
    if termCount = 4 then none
    else do
      let (op, version) ← parseComparatorTerm term
      let out ← applyComparator out op version
      parseTerms out (termCount + 1) rest

def semverConstraintParse (source : Bytes) : Option SemverConstraint :=
  match source.dropWhile isSpace with
  | [] => none
  | c :: rest =>
    if c = byte '^' then
      (semverParse rest).map fun v => ⟨some ⟨v, true⟩, some ⟨caretUpperBound v, false⟩⟩
    else if c = byte '~' then
      (semverParse rest).map fun v => ⟨some ⟨v, true⟩, some ⟨tildeUpperBound v, false⟩⟩
    else if 256 ≤ (c :: rest).length then none
    else parseTerms ⟨none, none⟩ 0 (terms (c :: rest))

def semverSatisfies (version : Semver) (constraint : SemverConstraint) : Bool :=
  if version.prerelease ≠ [] then false
  else
    (match constraint.min with
      | none => true
      | some b =>
        match semverCompare version b.value with
        | .lt => false
        | .eq => b.inclusive
        | .gt => true) &&
    (match constraint.max with
      | none => true
      | some b =>
        match semverCompare version b.value with
        | .gt => false
        | .eq => b.inclusive
        | .lt => true)

def intersectMin : Option (Bound Semver) → Option (Bound Semver) → Option (Bound Semver)
  | some a, some b =>
    match semverCompare a.value b.value with
    | .gt => some a
    | .lt => some b
    | .eq => some ⟨a.value, a.inclusive && b.inclusive⟩
  | some a, none => some a
  | none, b => b

def intersectMax : Option (Bound Semver) → Option (Bound Semver) → Option (Bound Semver)
  | some a, some b =>
    match semverCompare a.value b.value with
    | .lt => some a
    | .gt => some b
    | .eq => some ⟨a.value, a.inclusive && b.inclusive⟩
  | some a, none => some a
  | none, b => b

def semverConstraintIntersect (a b : SemverConstraint) : Option SemverConstraint :=
  let result : SemverConstraint := ⟨intersectMin a.min b.min, intersectMax a.max b.max⟩
  match result.min, result.max with
  | some lower, some upper =>
    match semverCompare lower.value upper.value with
    | .gt => none
    | .eq => if lower.inclusive && upper.inclusive then some result else none
    | .lt => some result
  | _, _ => some result

def formatBound (strict loose : List Char) (b : Bound Semver) : Bytes :=
  text (if b.inclusive then loose else strict) ++ semverFormat b.value

def semverConstraintFormat (constraint : SemverConstraint) : Bytes :=
  match constraint.min, constraint.max with
  | none, none => text ['*']
  | some lower, none => formatBound ['>'] ['>', '='] lower
  | none, some upper => formatBound ['<'] ['<', '='] upper
  | some lower, some upper =>
    if lower.inclusive && upper.inclusive && semverCompare lower.value upper.value == .eq then
      semverFormat lower.value
    else formatBound ['>'] ['>', '='] lower ++ [byte ' '] ++ formatBound ['<'] ['<', '='] upper

/-! ## Precedence is a preorder -/

lemma transCmp_comap {α β : Type} {cmp} [TransCmp cmp] (f : α → β) :
    TransCmp fun a b => cmp (f a) (f b) where
  eq_swap := OrientedCmp.eq_swap
  isLE_trans := TransCmp.isLE_trans

/-- Numeric identifiers come first, by their numbers; the others follow, by their bytes. -/
lemma comparePrereleaseIdentifier_eq : comparePrereleaseIdentifier =
      compareLex (compareOn fun a => if isAllDigits a then 0 else 1)
        (compareLex (compareOn fun a => if isAllDigits a then identifierValue a else 0)
          (compareOn fun a => if isAllDigits a then [] else a)) := by
  funext a b
  rw [comparePrereleaseIdentifier]
  cases ha : isAllDigits a with
  | true =>
    cases hb : isAllDigits b with
    | true => simp [compareLex, compareOn, ha, hb]
    | false => simp only [compareLex, compareOn, ha, hb]; rfl
  | false =>
    cases hb : isAllDigits b with
    | true => simp only [compareLex, compareOn, ha, hb]; rfl
    | false => simp [compareLex, compareOn, ha, hb]; rfl

instance : TransCmp comparePrereleaseIdentifier := by
  rw [comparePrereleaseIdentifier_eq]
  infer_instance

/-- The numbers in turn, then a prerelease before the release, then the prereleases. -/
lemma semverCompare_eq :
    semverCompare = compareLex (compareOn Semver.major) (compareLex (compareOn Semver.minor)
      (compareLex (compareOn Semver.patch)
        (compareLex (compareOn fun v => if v.prerelease = [] then 1 else 0)
          fun a b => comparePrerelease a.prerelease b.prerelease))) := by
  funext a b
  simp only [semverCompare, compareLex, compareOn]
  cases compare a.major b.major with
  | lt | gt => rfl
  | eq =>
    cases compare a.minor b.minor with
    | lt | gt => rfl
    | eq =>
      cases compare a.patch b.patch with
      | lt | gt => rfl
      | eq =>
        by_cases ha : a.prerelease = []
        · by_cases hb : b.prerelease = []
          · simp [ha, hb, comparePrerelease, prereleaseFields]
            rfl
          · simp [ha, hb]
            rfl
        · by_cases hb : b.prerelease = []
          · simp [ha, hb]
            rfl
          · simp [ha, hb]

instance : TransCmp semverCompare := by
  have hprerelease : TransCmp fun a b : Semver => comparePrerelease a.prerelease b.prerelease :=
    transCmp_comap fun v : Semver => prereleaseFields v.prerelease
  rw [semverCompare_eq]
  infer_instance

lemma semverCompare_swap (a b : Semver) : semverCompare b a = (semverCompare a b).swap :=
  OrientedCmp.eq_swap

/-! ## Intersections -/

lemma semverSatisfies_eq (v : Semver) (c : SemverConstraint) :
    semverSatisfies v c = (decide (v.prerelease = []) && (meets semverCompare c.min v &&
      meets (fun a b => semverCompare b a) c.max v)) := by
  have hmax : (match c.max with
      | none => true
      | some b =>
        match semverCompare v b.value with
        | .gt => false
        | .eq => b.inclusive
        | .lt => true) = meets (fun a b => semverCompare b a) c.max v := by
    cases c.max with
    | none => rfl
    | some b =>
      simp only [meets, semverCompare_swap v b.value]
      cases semverCompare v b.value <;> rfl
  rw [semverSatisfies, hmax]
  by_cases hv : v.prerelease = []
  · rw [if_neg (not_not.2 hv), decide_eq_true hv, Bool.true_and]
    cases c.min <;> rfl
  · rw [if_pos hv, decide_eq_false hv, Bool.false_and]

variable (a b : Option (Bound Semver))

lemma intersectMin_eq : intersectMin a b = tighter semverCompare a b := by
  cases a <;> cases b <;> rfl

lemma intersectMax_eq : intersectMax a b = tighter (fun x y => semverCompare y x) a b := by
  cases a with
  | none => cases b <;> rfl
  | some a =>
    cases b with
    | none => rfl
    | some b =>
      simp only [intersectMax, tighter, semverCompare_swap a.value b.value]
      cases semverCompare a.value b.value <;> rfl

lemma semverConstraintIntersect_eq (a b : SemverConstraint) : semverConstraintIntersect a b =
      if compatible semverCompare (intersectMin a.min b.min) (intersectMax a.max b.max) then
        some ⟨intersectMin a.min b.min, intersectMax a.max b.max⟩ else none := by
  rw [semverConstraintIntersect]
  cases intersectMin a.min b.min with
  | none => rfl
  | some lower =>
    cases intersectMax a.max b.max with
    | none => rfl
    | some upper =>
      cases horder : semverCompare lower.value upper.value <;> simp [compatible, horder]

/-- The bounds of an intersection are met when those of both constraints are. -/
lemma satisfies_bounds (a b : SemverConstraint) (v : Semver) :
    (decide (v.prerelease = []) && (meets semverCompare (intersectMin a.min b.min) v &&
      meets (fun x y => semverCompare y x) (intersectMax a.max b.max) v)) =
      (semverSatisfies v a && semverSatisfies v b) := by
  rw [semverSatisfies_eq, semverSatisfies_eq, intersectMin_eq, intersectMax_eq, Ranges.meets_tighter,
    Ranges.meets_tighter]
  cases decide (v.prerelease = []) with
  | false => rfl
  | true =>
    simp only [Bool.true_and]
    rw [Bool.and_assoc, Bool.and_assoc, Bool.and_left_comm (meets semverCompare b.min v)]

lemma semverSatisfies_intersect {a b merged}
    (h : semverConstraintIntersect a b = some merged) (v : Semver) :
    semverSatisfies v merged = (semverSatisfies v a && semverSatisfies v b) := by
  rw [semverConstraintIntersect_eq] at h
  split_ifs at h
  rw [← Option.some.inj h, semverSatisfies_eq]
  exact satisfies_bounds a b v

/-- An intersection is refused only when no version satisfies both constraints. -/
lemma not_satisfies_of_intersect_none {a b}
    (h : semverConstraintIntersect a b = none) (v : Semver) :
    (semverSatisfies v a && semverSatisfies v b) = false := by
  rw [semverConstraintIntersect_eq] at h
  split_ifs at h with hcompatible
  rw [← satisfies_bounds]
  cases hmin : meets semverCompare (intersectMin a.min b.min) v with
  | false => rw [Bool.false_and, Bool.and_false]
  | true =>
    rw [Ranges.not_meets_of_not_compatible (Bool.eq_false_iff.2 hcompatible) hmin, Bool.and_false,
      Bool.and_false]

/-- An intersection is satisfied by the versions that satisfy both constraints, and is refused only
when there are none. -/
theorem intersect_satisfied_iff (a b : SemverConstraint) : match semverConstraintIntersect a b with
    | some c => ∀ v, semverSatisfies v c = true ↔
        semverSatisfies v a = true ∧ semverSatisfies v b = true
    | none => ∀ v, ¬(semverSatisfies v a = true ∧ semverSatisfies v b = true) := by
  cases h : semverConstraintIntersect a b with
  | some =>
    intro v
    rw [semverSatisfies_intersect h, Bool.and_eq_true]
  | none =>
    intro v hboth
    have hnone := not_satisfies_of_intersect_none h v
    rw [hboth.1, hboth.2] at hnone
    cases hnone

end Diamond.Facet
