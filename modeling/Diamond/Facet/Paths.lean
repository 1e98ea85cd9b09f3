import Diamond.Facet.System
import Diamond.Lib.FileTree

/-!
# Where a path leads

Facet builds paths by joining names with slashes.  `normal` is the path that such a text stands for
below the current directory, as long as no symbolic link is on the way: empty components and `.`
stay where they are and `..` goes up.  A name that is one component stays in the directory it is
joined to.
-/

namespace Diamond.Facet

open List

open Codec (Bytes)

def dot : Bytes := text ['.']

def dotdot : Bytes := text ['.', '.']

def components (path : Bytes) : List Bytes := path.splitOn (byte '/')

/-- One component of a path, from the reversed path walked so far. -/
def walk (here : List Bytes) (component : Bytes) : List Bytes :=
  if component = [] ∨ component = dot then here
  else if component = dotdot then
    match here with
    | [] => [dotdot]
    | top :: rest => if top = dotdot then dotdot :: here else rest
  else component :: here

def normal (path : Bytes) : List Bytes := ((components path).foldl walk []).reverse

structure IsComponent (name : Bytes) : Prop where
  ne_nil : name ≠ []
  no_slash : byte '/' ∉ name
  ne_dot : name ≠ dot
  ne_dotdot : name ≠ dotdot

instance (name : Bytes) : Decidable (IsComponent name) :=
  decidable_of_iff (name ≠ [] ∧ byte '/' ∉ name ∧ name ≠ dot ∧ name ≠ dotdot)
    ⟨fun h => ⟨h.1, h.2.1, h.2.2.1, h.2.2.2⟩, fun h => ⟨h.1, h.2, h.3, h.4⟩⟩

lemma components_join (directory name : Bytes) :
    components (join directory name) = components directory ++ components name :=
  splitOn_append_cons_self _ _

lemma walk_of_ne {here c} (hnil : c ≠ []) (hdot : c ≠ dot) (hup : c ≠ dotdot) :
    walk here c = c :: here := by
  rw [walk.eq_def, if_neg (not_or.2 ⟨hnil, hdot⟩), if_neg hup]

lemma normal_join (directory name : Bytes) : normal (join directory name) =
      ((components name).foldl walk (normal directory).reverse).reverse := by
  rw [normal, normal, components_join, foldl_append, reverse_reverse]

section
variable {name : Bytes}

lemma IsComponent.components (h : IsComponent name) : components name = [name] :=
  splitOn_eq_singleton h.no_slash

lemma IsComponent.normal_join (h : IsComponent name) (directory : Bytes) :
    normal (join directory name) = normal directory ++ [name] := by
  rw [Facet.normal_join, h.components, foldl_cons, foldl_nil,
    walk_of_ne h.ne_nil h.ne_dot h.ne_dotdot, reverse_cons, reverse_reverse]

end

end Diamond.Facet
