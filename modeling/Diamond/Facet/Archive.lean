import Diamond.Facet.Paths

/-!
# Paths of an archive

`facet` refuses two paths of one archive that a file system may not hold together.
-/

namespace Diamond.Facet

open List

open Codec (Bytes)

/-- An ASCII letter in lower case. -/
def fold (c : UInt8) : UInt8 := if c ≥ byte 'A' ∧ c ≤ byte 'Z' then c + 32 else c

/-- The comparison of two components of one length, byte by byte. -/
def equalFolded : Bytes → Bytes → Bool
  | left :: a, right :: b => if fold left ≠ fold right then false else equalFolded a b
  | _, _ => true

/-- The loop over the components.  Where one path ends, the paths conflict unless both do. -/
def conflictLoop : List Bytes → List Bytes → Bool
  | left :: a, right :: b =>
    if left.length ≠ right.length then false
    else if ¬equalFolded left right then false
    else if left ≠ right then true
    else conflictLoop a b
  | a, b => a.isEmpty != b.isEmpty

def archivePathConflict (a b : Bytes) : Bool := conflictLoop (components a) (components b)

/-- On a file system that ignores ASCII case only one of the two can be created: some first
components of theirs differ in case only, or one is a directory that the other is in. -/
def Collide (a b : List Bytes) : Prop :=
  (∃ count, (a.take count).map (map fold) = (b.take count).map (map fold) ∧
    a.take count ≠ b.take count) ∨ (a <+: b ∨ b <+: a) ∧ a ≠ b

lemma equalFolded_iff {left right : Bytes} (hlength : left.length = right.length) :
    equalFolded left right = true ↔ left.map fold = right.map fold := by
  induction left generalizing right with
  | nil => simp [eq_nil_of_length_eq_zero hlength.symm, equalFolded]
  | cons _ _ ih =>
    cases right with
    | nil => cases hlength
    | cons => simp [equalFolded, ih (Nat.succ.inj hlength)]

lemma collide_cons {left right a b} : Collide (left :: a) (right :: b) ↔
    left.map fold = right.map fold ∧ (left ≠ right ∨ Collide a b) := by
  by_cases heq : left = right
  · subst heq
    constructor
    · rintro (⟨_ | count, hfold, hne⟩ | ⟨hstart, hne⟩)
      · exact absurd rfl hne
      · exact ⟨rfl, .inr (.inl ⟨count, by simpa using hfold, by simpa using hne⟩)⟩
      · exact ⟨rfl, .inr (.inr ⟨by simpa using hstart, by simpa using hne⟩)⟩
    · rintro ⟨-, hne | ⟨count, hfold, hne⟩ | ⟨hstart, hne⟩⟩
      · exact absurd rfl hne
      · exact .inl ⟨count + 1, by simpa using hfold, by simpa using hne⟩
      · exact .inr ⟨by simpa using hstart, by simpa using hne⟩
  · constructor
    · rintro (⟨_ | count, hfold, hne⟩ | ⟨hstart, -⟩)
      · exact absurd rfl hne
      · exact ⟨(cons.inj hfold).1, .inl heq⟩
      · simp [cons_prefix_cons, heq, Ne.symm heq] at hstart
    · rintro ⟨hfold, -⟩
      exact .inl ⟨1, by simp [hfold], by simp [heq]⟩

lemma conflictLoop_iff (a b : List Bytes) : conflictLoop a b = true ↔ Collide a b := by
  induction a generalizing b with
  | nil => cases b <;> simp [conflictLoop, Collide]
  | cons left a ih =>
    cases b with
    | nil => simp [conflictLoop, Collide]
    | cons right b =>
      rw [conflictLoop, collide_cons, ← ih]
      by_cases hlength : left.length = right.length
      · rw [← equalFolded_iff hlength]
        by_cases heq : left = right <;> simp [hlength, heq]
      · -- The early exit: letters keep the length of a component.
        have hfold : left.map fold ≠ right.map fold := by
          intro h
          exact hlength (by simpa using congrArg length h)
        simp [hlength, hfold]

theorem archivePathConflict_iff (a b : Bytes) :
    archivePathConflict a b = true ↔ Collide (components a) (components b) :=
  conflictLoop_iff ..

end Diamond.Facet
