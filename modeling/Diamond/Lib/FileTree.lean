import Mathlib.Tactic

/-!
# File trees

A file tree is the list of its entries, each at a path of components.  Removing, placing and moving
a subtree are seen through `under`, the tree below a path: an operation on one path says nothing
about a path that is `Apart` from it.
-/

namespace Diamond.FileTree

open List

section
variable {κ : Type}

/-- Neither path is inside the other. -/
def Apart (p q : List κ) : Prop := ¬p <+: q ∧ ¬q <+: p

instance [DecidableEq κ] (p q : List κ) : Decidable (Apart p q) :=
  inferInstanceAs (Decidable (_ ∧ _))

lemma Apart.symm {p q : List κ} (h : Apart p q) : Apart q p := ⟨h.2, h.1⟩

/-- No path has two prefixes that are apart. -/
lemma Apart.not_both {p q r : List κ} (h : Apart p q) (hp : p <+: r) : ¬q <+: r := by
  intro hq
  rcases prefix_or_prefix_of_prefix hp hq with hpq | hqp
  · exact h.1 hpq
  · exact h.2 hqp

end

abbrev Tree (κ ε : Type) := List (List κ × ε)

section
variable {κ ε : Type} [DecidableEq κ]

/-- The tree below a path. -/
def under (p : List κ) (t : Tree κ ε) : Tree κ ε :=
  t.filterMap fun e => if p <+: e.1 then some (e.1.drop p.length, e.2) else none

/-- There is something at a path or below. -/
def occupied (p : List κ) (t : Tree κ ε) : Bool := !(under p t).isEmpty

/-- The entry at a path. -/
def entry (p : List κ) (t : Tree κ ε) : Option ε := (under p t).lookup []

/-- The tree without what is at a path and below. -/
def erase (p : List κ) (t : Tree κ ε) : Tree κ ε := t.filter fun e => !decide (p <+: e.1)

/-- The tree with another one in the place of what is at a path and below. -/
def graft (p : List κ) (placed t : Tree κ ε) : Tree κ ε :=
  erase p t ++ placed.map fun e => (p ++ e.1, e.2)

/-- The tree with what is at `p` moved to `q`. -/
def move (p q : List κ) (t : Tree κ ε) : Tree κ ε := graft q (under p t) (erase p t)

lemma under_append (p : List κ) (t t' : Tree κ ε) : under p (t ++ t') = under p t ++ under p t' :=
  filterMap_append

variable (p q : List κ) (t : Tree κ ε)

/-- What is below a path below a path. -/
lemma under_under : under q (under p t) = under (p ++ q) t := by
  rw [under, under, under, filterMap_filterMap]
  refine filterMap_congr fun e _ => ?_
  by_cases hp : p <+: e.1
  · obtain ⟨r, hr⟩ := hp
    simp [← hr, prefix_append_right_inj]
  · have hpq : ¬p ++ q <+: e.1 := fun h => hp ((prefix_append p q).trans h)
    simp [hp, hpq]

lemma occupied_under : occupied q (under p t) = occupied (p ++ q) t := by
  rw [occupied, occupied, under_under]

lemma entry_under : entry q (under p t) = entry (p ++ q) t := by
  rw [entry, entry, under_under]

section
variable {p q : List κ} {t placed : Tree κ ε}

lemma under_erase_self : under p (erase p t) = [] := by
  rw [under, erase, filterMap_eq_nil_iff]
  intro e he
  have hnot := (mem_filter.1 he).2
  simp only [Bool.not_eq_true', decide_eq_false_iff_not] at hnot
  rw [if_neg hnot]

lemma under_erase (h : Apart p q) : under q (erase p t) = under q t := by
  rw [under, under, erase, filterMap_filter]
  refine filterMap_congr fun e _ => ?_
  by_cases hq : q <+: e.1
  · simp [hq, h.symm.not_both hq]
  · simp [hq]

lemma under_map_self : under p (placed.map fun e => (p ++ e.1, e.2)) = placed := by
  rw [under, filterMap_map]
  simp

lemma under_map (h : Apart p q) : under q (placed.map fun e => (p ++ e.1, e.2)) = [] := by
  rw [under, filterMap_eq_nil_iff]
  intro e he
  obtain ⟨e', _, rfl⟩ := mem_map.1 he
  exact if_neg (h.not_both (prefix_append p e'.1))

lemma under_graft_self : under p (graft p placed t) = placed := by
  rw [graft, under_append, under_erase_self, under_map_self, nil_append]

lemma under_graft (h : Apart p q) : under q (graft p placed t) = under q t := by
  rw [graft, under_append, under_erase h, under_map h, append_nil]

end

end

end Diamond.FileTree
