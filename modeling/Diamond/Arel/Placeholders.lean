import Diamond.Arel.Layout
import Diamond.Lib.Fallible

/-!
# Placeholders and their values

The layout of every node, and that the visitor's text and values fit it.  Values get lost in one case:
a membership in an empty list renders its left side, which pushes values, and then does not use the
text.
-/

namespace Diamond.Arel

open List

open Codec (Bytes)
open Fallible (except_bind_eq_ok)
open Bignum (printUnsigned isDigit)

variable {V : Type}

/-! ## Layouts -/

def attributeText (table : Table) (name : Bytes) : Bytes :=
  quotedText table.referenceName ++ (lit "." ++ quotedText name)

def tableText (table : Table) : Bytes :=
  match table.tableAlias with
  | none => quotedText table.name
  | some tableAlias => quotedText table.name ++ (lit " AS " ++ quotedText tableAlias)

def boundPieces (keyword : Bytes) (value : Option ℤ) (bind : Bool) (ofInt : ℤ → V) :
    List (Piece V) :=
  match value with
  | none => []
  | some n => if bind then written keyword ++ [.hole (ofInt n)] else written (keyword ++ printInt n)

def Visitor.paginationPieces (visitor : Visitor) (limit offset : Option ℤ) (bind : Bool)
    (ofInt : ℤ → V) : List (Piece V) :=
  (if visitor.offsetNeedsLimit ∧ limit = none ∧ offset ≠ none then written (lit " LIMIT -1")
    else boundPieces (lit " LIMIT ") limit bind ofInt) ++
  boundPieces (lit " OFFSET ") offset bind ofInt

def ctePieces (recursive : Bool) (entries : List (List (Piece V))) : List (Piece V) :=
  if entries = [] then []
  else written (lit (if recursive then "WITH RECURSIVE " else "WITH ")) ++
    (joinPieces (lit ", ") entries ++ written (lit " "))

def branchPieces (sql : List (Piece V)) (grouped : Bool) : List (Piece V) :=
  if grouped then written (lit "SELECT * FROM (") ++ (sql ++ written (lit ")")) else sql

abbrev LayoutOf (V : Type) : Kind → Type
  | .expression => List (Piece V)
  | .source => List (Piece V)
  | .query => List (Piece V)
  | .expressions => List (List (Piece V))
  | .joins => List (List (Piece V))
  | .ctes => List (List (Piece V))

def Node.layout (visitor : Visitor) (ofInt : ℤ → V) : {kind : Kind} → Node V kind → LayoutOf V kind
  | _, .attributeNode table name => written (attributeText table name)
  | _, .predicate left operator right =>
    let before := left.layout visitor ofInt
    match right with
    | .nil => before ++ written (lit (if operator = lit "=" then " IS NULL" else " IS NOT NULL"))
    | .attributeNode table name => before ++ written (spaced operator ++ attributeText table name)
    | .literal value => before ++ written (spaced operator ++ renderLiteral value)
    | .value bound => before ++ (written (spaced operator) ++ [.hole bound])
  | _, .logical left operator right =>
    written (lit "(") ++ (left.layout visitor ofInt ++ (written (spaced operator) ++
      (right.layout visitor ofInt ++ written (lit ")"))))
  | _, .membership left values negated =>
    if values.isEmpty then written (lit (if negated then "1 = 1" else "1 = 0"))
    else
      left.layout visitor ofInt ++ (written (lit (if negated then " NOT IN (" else " IN (")) ++
        (joinPieces (lit ", ") (values.map fun value => [.hole value]) ++ written (lit ")")))
  | _, .membershipQuery left query negated =>
    left.layout visitor ofInt ++ (written (lit (if negated then " NOT IN (" else " IN (")) ++
      (query.layout visitor ofInt ++ written (lit ")")))
  | _, .between left lower upper negated =>
    left.layout visitor ofInt ++ (written (lit (if negated then " NOT BETWEEN " else " BETWEEN ")) ++
      ([.hole lower] ++ (written (lit " AND ") ++ [.hole upper])))
  | _, .collation inner name =>
    inner.layout visitor ofInt ++ written (lit " COLLATE " ++ quotedText name)
  | _, .exist query negated =>
    written (lit (if negated then "NOT EXISTS (" else "EXISTS (")) ++
      (query.layout visitor ofInt ++ written (lit ")"))
  | _, .scalarSubquery query => written (lit "(") ++ (query.layout visitor ofInt ++ written (lit ")"))
  | _, .function name arguments distinct =>
    written (name ++ lit (if distinct then "(DISTINCT " else "(")) ++
      (joinPieces (lit ", ") (arguments.layout visitor ofInt) ++ written (lit ")"))
  | _, .qualifiedStar table => written (quotedText table.referenceName ++ lit ".*")
  | _, .not inner => written (lit "(NOT ") ++ (inner.layout visitor ofInt ++ written (lit ")"))
  | _, .ordering inner direction nulls =>
    match nulls with
    | none => inner.layout visitor ofInt ++ written (lit " " ++ direction)
    | some nulls =>
      inner.layout visitor ofInt ++ written (lit " " ++ (direction ++ (lit " NULLS " ++ nulls)))
  | _, .aliased inner name => inner.layout visitor ofInt ++ written (lit " AS " ++ quotedText name)
  | _, .rawSql sql params => rawPieces sql params
  | _, .excludedAttribute name => written (lit "excluded." ++ quotedText name)
  | _, .conflictAttribute name => written (quotedText name)
  | _, .binary left operator right =>
    written (lit "(") ++ (left.layout visitor ofInt ++ (written (spaced operator) ++
      (right.layout visitor ofInt ++ written (lit ")"))))
  | _, .binaryBound left operator right =>
    written (lit "(") ++ (left.layout visitor ofInt ++ (written (spaced operator) ++
      ([.hole right] ++ written (lit ")"))))
  | _, .literal value => written (renderLiteral value)
  | _, .cast inner typeName =>
    written (lit "CAST(") ++ (inner.layout visitor ofInt ++
      written (lit " AS " ++ (typeName ++ lit ")")))
  | _, .string sql => written sql
  | _, .nil => []
  | _, .cons first rest => first.layout visitor ofInt :: rest.layout visitor ofInt
  | _, .noJoin => []
  | _, .joinOn kind table condition rest =>
    (written (kind ++ (lit " JOIN " ++ (tableText table ++ lit " ON "))) ++
      condition.layout visitor ofInt) :: rest.layout visitor ofInt
  | _, .joinCross kind table rest =>
    written (kind ++ (lit " JOIN " ++ tableText table)) :: rest.layout visitor ofInt
  | _, .noCte => []
  | _, .cte name _ query rest =>
    (written (quotedText name ++ lit " AS (") ++ (query.layout visitor ofInt ++ written (lit ")"))) ::
      rest.layout visitor ofInt
  | _, .tableSource table quoted => written (if quoted then tableText table else table.name)
  | _, .subquery query referenceName =>
    written (lit "(") ++ (query.layout visitor ofInt ++
      written (lit ") AS " ++ quotedText referenceName))
  | _, .select ctes distinct projections source joins _ predicates groups havings orderings limit
      offset bindLimits =>
    ctePieces ctes.anyRecursive (ctes.layout visitor ofInt) ++
      (written (lit (if distinct then "SELECT DISTINCT " else "SELECT ")) ++
        (joinPieces (lit ", ") (projections.layout visitor ofInt) ++ (written (lit " FROM ") ++
          (source.layout visitor ofInt ++
            (((joins.layout visitor ofInt).flatMap fun join => written (lit " ") ++ join) ++
              (clausePieces (lit " WHERE ") (lit " AND ") (predicates.layout visitor ofInt) ++
                (clausePieces (lit " GROUP BY ") (lit ", ") (groups.layout visitor ofInt) ++
                  (clausePieces (lit " HAVING ") (lit " AND ") (havings.layout visitor ofInt) ++
                    (clausePieces (lit " ORDER BY ") (lit ", ") (orderings.layout visitor ofInt) ++
                      visitor.paginationPieces limit offset bindLimits ofInt)))))))))
  | _, .compound left operator right orderings limit offset =>
    branchPieces (left.layout visitor ofInt) left.isCompound ++
      (written (spaced operator) ++
        (branchPieces (right.layout visitor ofInt) right.isCompound ++
          (clausePieces (lit " ORDER BY ") (lit ", ") (orderings.layout visitor ofInt) ++
            visitor.paginationPieces limit offset true ofInt)))

/-- How many values are bound in the left sides of memberships in an empty list. -/
def Node.lost (visitor : Visitor) (ofInt : ℤ → V) : {kind : Kind} → Node V kind → ℕ
  | _, .predicate left _ _ | _, .between left _ _ _ | _, .binaryBound left _ _ =>
    left.lost visitor ofInt
  | _, .logical left _ right | _, .binary left _ right =>
    left.lost visitor ofInt + right.lost visitor ofInt
  | _, .membership left bound _ =>
    if bound.isEmpty then (values (left.layout visitor ofInt)).length + left.lost visitor ofInt
    else left.lost visitor ofInt
  | _, .membershipQuery left query _ => left.lost visitor ofInt + query.lost visitor ofInt
  | _, .collation inner _ | _, .not inner | _, .ordering inner _ _ | _, .aliased inner _
  | _, .cast inner _ => inner.lost visitor ofInt
  | _, .exist query _ | _, .scalarSubquery query | _, .subquery query _ => query.lost visitor ofInt
  | _, .function _ arguments _ => arguments.lost visitor ofInt
  | _, .cons first rest => first.lost visitor ofInt + rest.lost visitor ofInt
  | _, .joinOn _ _ condition rest => condition.lost visitor ofInt + rest.lost visitor ofInt
  | _, .joinCross _ _ rest => rest.lost visitor ofInt
  | _, .cte _ _ query rest => query.lost visitor ofInt + rest.lost visitor ofInt
  | _, .select ctes _ projections source joins _ predicates groups havings orderings _ _ _ =>
    ctes.lost visitor ofInt + (projections.lost visitor ofInt + (source.lost visitor ofInt +
      (joins.lost visitor ofInt + (predicates.lost visitor ofInt + (groups.lost visitor ofInt +
        (havings.lost visitor ofInt + orderings.lost visitor ofInt))))))
  | _, .compound left _ right orderings _ _ =>
    left.lost visitor ofInt + (right.lost visitor ofInt + orderings.lost visitor ofInt)
  | _, _ => 0

/-! ## Proper trees -/

def Table.Proper (table : Table) : Prop := Plain table.name ∧ ∀ a ∈ table.tableAlias, Plain a

/-- Fragments have as many values as placeholders, and no name has a question mark. -/
def Node.Proper : {kind : Kind} → Node V kind → Prop
  | _, .attributeNode table name => table.Proper ∧ Plain name
  | _, .predicate left operator right =>
    left.Proper ∧ Plain operator ∧
      match right with
      | .attributeNode table name => table.Proper ∧ Plain name
      | _ => True
  | _, .logical left operator right | _, .binary left operator right =>
    left.Proper ∧ Plain operator ∧ right.Proper
  | _, .membership left _ _ | _, .between left _ _ _ => left.Proper
  | _, .membershipQuery left query _ => left.Proper ∧ query.Proper
  | _, .collation inner name | _, .aliased inner name | _, .cast inner name =>
    inner.Proper ∧ Plain name
  | _, .exist query _ | _, .scalarSubquery query => query.Proper
  | _, .function name arguments _ => Plain name ∧ arguments.Proper
  | _, .qualifiedStar table => table.Proper
  | _, .not inner => inner.Proper
  | _, .ordering inner direction nulls => inner.Proper ∧ Plain direction ∧ ∀ n ∈ nulls, Plain n
  | _, .rawSql sql params => sql.count mark = params.length
  | _, .excludedAttribute name | _, .conflictAttribute name => Plain name
  | _, .binaryBound left operator _ => left.Proper ∧ Plain operator
  | _, .literal _ => True
  | _, .string sql => Plain sql
  | _, .nil => True
  | _, .cons first rest => first.Proper ∧ rest.Proper
  | _, .noJoin => True
  | _, .joinOn kind table condition rest =>
    Plain kind ∧ table.Proper ∧ condition.Proper ∧ rest.Proper
  | _, .joinCross kind table rest => Plain kind ∧ table.Proper ∧ rest.Proper
  | _, .noCte => True
  | _, .cte name _ query rest => Plain name ∧ query.Proper ∧ rest.Proper
  | _, .tableSource table _ => table.Proper
  | _, .subquery query referenceName => query.Proper ∧ Plain referenceName
  | _, .select ctes _ projections source joins _ predicates groups havings orderings _ _ _ =>
    ctes.Proper ∧ projections.Proper ∧ source.Proper ∧ joins.Proper ∧ predicates.Proper ∧
      groups.Proper ∧ havings.Proper ∧ orderings.Proper
  | _, .compound left operator right orderings _ _ =>
    left.Proper ∧ Plain operator ∧ right.Proper ∧ orderings.Proper

/-! ## Texts of names and numbers -/

variable {name text : Bytes} {pieces : List (Piece V)}

lemma plain_quotedText (h : Plain name) : Plain (quotedText name) := by
  intro hmem
  rw [quotedText, mem_append, mem_cons, mem_flatMap, mem_singleton] at hmem
  rcases hmem with (hmem | ⟨c, hc, hmem⟩) | hmem
  · exact absurd hmem (by decide)
  · split at hmem
    · exact absurd hmem (by decide)
    · rw [← mem_singleton.1 hmem] at hc
      exact h hc
  · exact absurd hmem (by decide)

lemma plain_printInt (n : ℤ) : Plain (printInt n) := by
  have hdigits : Plain (printUnsigned n.natAbs) := by
    intro hmem
    have hdigit := (Bignum.digits_printUnsigned n.natAbs).digit mark hmem
    exact absurd hdigit (by decide)
  rw [printInt]
  split
  · exact .append (by decide) hdigits
  · exact hdigits

lemma plain_renderLiteral (value : Literal) : Plain (renderLiteral value) := by
  cases value with
  | int n => exact plain_printInt n
  | bool b => cases b <;> decide

variable {table : Table}

lemma Table.Proper.referenceName (h : table.Proper) : Plain table.referenceName := by
  rw [Table.referenceName]
  cases halias : table.tableAlias with
  | none => exact h.1
  | some a => exact h.2 a halias

lemma plain_tableText (h : table.Proper) : Plain (tableText table) := by
  rw [tableText]
  cases halias : table.tableAlias with
  | none => exact plain_quotedText h.1
  | some a =>
    exact (plain_quotedText h.1).append (.append (by decide) (plain_quotedText (h.2 a halias)))

lemma plain_attributeText (h : table.Proper) (hname : Plain name) :
    Plain (attributeText table name) :=
  (plain_quotedText h.referenceName).append (.append (by decide) (plain_quotedText hname))

lemma plain_spaced {operator} (h : Plain operator) : Plain (spaced operator) :=
  .append (by decide) (h.append (by decide))

lemma fits_bound {keyword} (h : Plain keyword) (value : Option ℤ) (bind : Bool) (ofInt : ℤ → V) :
    Fits (renderBound keyword value bind ofInt).1 (renderBound keyword value bind ofInt).2
      (boundPieces keyword value bind ofInt) 0 := by
  cases value with
  | none => exact fits_nil
  | some n =>
    cases bind with
    | true => exact (fits_hole (ofInt n)).after h
    | false => exact fits_written (h.append (plain_printInt n))

lemma fits_pagination (visitor : Visitor) (limit offset : Option ℤ) (bind : Bool) (ofInt : ℤ → V) :
    Fits (visitor.renderPagination limit offset bind ofInt).1
      (visitor.renderPagination limit offset bind ofInt).2
      (visitor.paginationPieces limit offset bind ofInt) 0 := by
  have hoffset := fits_bound (show Plain (lit " OFFSET ") by decide) offset bind ofInt
  rw [Visitor.renderPagination, Visitor.paginationPieces]
  split
  · exact (fits_written (show Plain (lit " LIMIT -1") by decide)).append hoffset
  · exact (fits_bound (show Plain (lit " LIMIT ") by decide) limit bind ofInt).append hoffset

/-! ## What the parts return -/

lemma quoteIdentifier_ok (h : quoteIdentifier name = .ok text) : text = quotedText name := by
  rw [quoteIdentifier] at h
  split at h
  · cases h
  · cases h
    rfl

lemma renderAttribute_ok {scope} (h : renderAttribute scope table name = .ok text) :
    text = attributeText table name := by
  rw [renderAttribute] at h
  split at h
  · obtain ⟨_, hrelation, h⟩ := except_bind_eq_ok.1 h
    obtain ⟨_, hcolumn, h⟩ := except_bind_eq_ok.1 h
    cases h
    rw [quoteIdentifier_ok hrelation, quoteIdentifier_ok hcolumn, attributeText]
  · cases h

lemma renderTable_ok (h : renderTable table = .ok text) : text = tableText table := by
  rw [renderTable] at h
  obtain ⟨_, hsql, h⟩ := except_bind_eq_ok.1 h
  rw [tableText]
  cases halias : table.tableAlias with rw [halias] at h
  | none =>
    cases h
    exact quoteIdentifier_ok hsql
  | some =>
    obtain ⟨_, hquoted, h⟩ := except_bind_eq_ok.1 h
    cases h
    rw [quoteIdentifier_ok hsql, quoteIdentifier_ok hquoted]

/-- What is rendered for a node fits its layout. -/
def FitsNode : (kind : Kind) → Rendered V kind → LayoutOf V kind → ℕ → Prop
  | .expression, r, layout, lost => Fits r.1 r.2 layout lost
  | .source, r, layout, lost => Fits r.1 r.2 layout lost
  | .query, r, layout, lost => Fits r.1 r.2 layout lost
  | .expressions, r, layout, lost => FitsAll r.1 r.2 layout lost
  | .joins, r, layout, lost => FitsAll r.1 r.2 layout lost
  | .ctes, r, layout, lost => FitsAll r.1 r.2 layout lost

/-! ## Rendering -/

variable {lost : ℕ}

/-- A text that is not used: the values that it pushed have no hole. -/
lemma Fits.unused {text' pushed} (h : Fits text pushed pieces lost)
    (hplain : Plain text') : Fits text' pushed (written text') ((values pieces).length + lost) := by
  obtain ⟨hspelled, hmarked, -, -⟩ := fits_written (V := V) hplain
  refine ⟨hspelled, hmarked, ?_, fun hzero => ?_⟩
  · rw [values_written, h.count, length_nil, Nat.zero_add]
  · rw [values_written]
    exact eq_nil_of_length_eq_zero (h.count.trans hzero)

lemma Fits.branch {pushed} (h : Fits text pushed pieces lost) (grouped : Bool) :
    Fits (compoundBranch text grouped) pushed (branchPieces pieces grouped) lost := by
  cases grouped with
  | true => exact (h.before (by decide)).after (by decide)
  | false => exact h

section
variable {texts : List Bytes} {pushed : List V} {segments : List (List (Piece V))} {lost : ℕ}

lemma FitsAll.cte (h : FitsAll texts pushed segments lost) (recursive : Bool) :
    Fits (ctePrefix recursive texts) pushed (ctePieces recursive segments) lost := by
  have hjoin := h.join (show Plain (lit ", ") by decide)
  rw [ctePrefix, ctePieces]
  by_cases hnil : segments = []
  · rw [if_pos (h.texts_eq_nil.2 hnil), if_pos hnil]
    rwa [h.texts_eq_nil.2 hnil, hnil] at hjoin
  · rw [if_neg (fun htexts => hnil (h.texts_eq_nil.1 htexts)), if_neg hnil]
    refine (hjoin.before (by decide)).after ?_
    cases recursive <;> decide

lemma FitsAll.joined (h : FitsAll texts pushed segments lost) :
    Fits (texts.flatMap fun join => lit " " ++ join) pushed
      (segments.flatMap fun join => written (lit " ") ++ join) lost := by
  have hspell : ∀ segments : List (List (Piece V)),
      spell (segments.flatMap fun join => written (lit " ") ++ join) =
        (segments.map spell).flatMap fun join => lit " " ++ join := by
    intro segments
    induction segments with
    | nil => rfl
    | cons _ _ ih =>
      rw [map_cons, flatMap_cons, flatMap_cons, ← ih]
      exact map_append
  have hvalues : ∀ segments : List (List (Piece V)),
      values (segments.flatMap fun join => written (lit " ") ++ join) = segments.flatMap values := by
    intro segments
    induction segments with
    | nil => rfl
    | cons _ _ ih =>
      rw [flatMap_cons, flatMap_cons, values_append, values_append, values_written, ih, nil_append]
  constructor
  case spelled => rw [hspell, h.spelled]
  case marked =>
    intro c hc
    obtain ⟨segment, hsegment, hc⟩ := mem_flatMap.1 hc
    rcases mem_append.1 hc with hc | hc
    · exact (fits_written (V := V) (show Plain (lit " ") by decide)).marked c hc
    · exact h.marked segment hsegment c hc
  case count => rw [hvalues, h.count]
  case order => exact fun hzero => by rw [hvalues, h.order hzero]

end

lemma plain_lit_if {a b} (condition : Bool) (h : Plain (lit a) ∧ Plain (lit b) := by decide) :
    Plain (lit (if condition then a else b)) := by
  cases condition
  · exact h.2
  · exact h.1

section
variable {A : Type} {k : Bytes × List V → Except String A} {a : A}

lemma fits_bind {part}
    (hpart : ∀ {r}, part = .ok r → Fits r.1 r.2 pieces lost) (h : part >>= k = .ok a) :
    ∃ text pushed, Fits text pushed pieces lost ∧ k (text, pushed) = .ok a := by
  obtain ⟨⟨text, pushed⟩, hok, h⟩ := except_bind_eq_ok.1 h
  exact ⟨text, pushed, hpart hok, h⟩

lemma fitsAll_bind {k} {part : Except String (List Bytes × List V)} {segments}
    (hpart : ∀ {r}, part = .ok r → FitsAll r.1 r.2 segments lost) (h : part >>= k = .ok a) :
    ∃ texts pushed, FitsAll texts pushed segments lost ∧ k (texts, pushed) = .ok a := by
  obtain ⟨⟨texts, pushed⟩, hok, h⟩ := except_bind_eq_ok.1 h
  exact ⟨texts, pushed, hpart hok, h⟩

lemma quoted_bind {k} (h : quoteIdentifier name >>= k = .ok a) : k (quotedText name) = .ok a := by
  obtain ⟨_, hquoted, h⟩ := except_bind_eq_ok.1 h
  rwa [quoteIdentifier_ok hquoted] at h

end

lemma render_fits (visitor : Visitor) (ofInt : ℤ → V) {kind} (node : Node V kind)
    (scope : Scope) (hproper : node.Proper) {r} (h : node.render visitor ofInt scope = .ok r) :
    FitsNode kind r (node.layout visitor ofInt) (node.lost visitor ofInt) := by
  induction node generalizing scope with
  | attributeNode =>
    obtain ⟨_, htext, h⟩ := except_bind_eq_ok.1 h
    cases h
    rw [renderAttribute_ok htext]
    exact fits_written (plain_attributeText hproper.1 hproper.2)
  | predicate _ operator right ih =>
    obtain ⟨_, _, hl, h⟩ := fits_bind (ih scope hproper.1) h
    have hoperator := plain_spaced hproper.2.1
    cases right with
    | nil =>
      dsimp only at h
      split at h
      · next heq =>
        cases h
        change Fits _ _ (_ ++ written (lit (if operator = lit "=" then _ else _))) _
        rw [if_pos heq]
        exact hl.before
      · next hne =>
        split at h
        · cases h
          change Fits _ _ (_ ++ written (lit (if operator = lit "=" then _ else _))) _
          rw [if_neg hne]
          exact hl.before
        · cases h
    | attributeNode =>
      obtain ⟨_, hcolumn, h⟩ := except_bind_eq_ok.1 h
      cases h
      rw [renderAttribute_ok hcolumn]
      exact hl.before (hoperator.append (plain_attributeText hproper.2.2.1 hproper.2.2.2))
    | literal value =>
      cases h
      exact hl.before (hoperator.append (plain_renderLiteral value))
    | value bound =>
      cases h
      exact hl.append ((fits_hole bound).after hoperator)
  | logical _ _ _ ihl ihr =>
    obtain ⟨_, _, hl, h⟩ := fits_bind (ihl scope hproper.1) h
    obtain ⟨_, _, hr, h⟩ := fits_bind (ihr scope hproper.2.2) h
    cases h
    exact (hl.append (hr.before.after (plain_spaced hproper.2.1))).after
  | membership _ bound negated ih =>
    obtain ⟨_, _, hl, h⟩ := fits_bind (ih scope hproper) h
    cases bound with
    | nil =>
      cases h
      exact hl.unused (plain_lit_if negated)
    | cons value bound =>
      cases h
      exact hl.append ((fits_holes (value :: bound)).join.before.after (plain_lit_if negated))
  | membershipQuery _ _ negated ihl ihq =>
    obtain ⟨_, _, hl, h⟩ := fits_bind (ihl scope hproper.1) h
    obtain ⟨_, bound, hq, h⟩ := fits_bind (ihq scope hproper.2) h
    cases h
    exact hl.append (hq.before.after (plain_lit_if negated))
  | between _ lower upper negated ih =>
    obtain ⟨_, _, hl, h⟩ := fits_bind (ih scope hproper) h
    cases h
    exact hl.append (((fits_hole lower).append (fits_hole upper).after).after
      (plain_lit_if negated))
  | collation _ _ ih | aliased _ _ ih =>
    obtain ⟨_, _, hi, h⟩ := fits_bind (ih scope hproper.1) h
    replace h := quoted_bind h
    cases h
    exact hi.before (plain_quotedText hproper.2).after
  | exist _ negated ih =>
    obtain ⟨_, bound, hq, h⟩ := fits_bind (ih scope hproper) h
    cases h
    exact hq.before.after (plain_lit_if negated)
  | scalarSubquery _ ih =>
    obtain ⟨_, bound, hq, h⟩ := fits_bind (ih scope hproper) h
    cases h
    exact hq.before.after
  | function _ _ distinct ih =>
    obtain ⟨_, _, ha, h⟩ := fitsAll_bind (ih scope hproper.2) h
    cases h
    exact ha.join.before.after (hproper.1.append (plain_lit_if distinct))
  | qualifiedStar =>
    rw [Node.render] at h
    split at h
    · replace h := quoted_bind h
      cases h
      exact fits_written (plain_quotedText (Table.Proper.referenceName hproper)).append
    · cases h
  | not _ ih =>
    obtain ⟨_, _, hi, h⟩ := fits_bind (ih scope hproper) h
    cases h
    exact hi.before.after
  | ordering _ _ nulls ih =>
    obtain ⟨_, _, hi, h⟩ := fits_bind (ih scope hproper.1) h
    cases nulls with
    | none =>
      cases h
      exact hi.before hproper.2.1.after
    | some nulls =>
      obtain ⟨-, -, h⟩ := except_bind_eq_ok.1 h
      cases h
      exact hi.before (hproper.2.1.append (hproper.2.2 nulls rfl).after).after
  | rawSql =>
    cases h
    exact fits_raw hproper
  | excludedAttribute =>
    obtain ⟨-, -, h⟩ := except_bind_eq_ok.1 h
    replace h := quoted_bind h
    cases h
    exact fits_written (plain_quotedText hproper).after
  | conflictAttribute =>
    replace h := quoted_bind h
    cases h
    exact fits_written (plain_quotedText hproper)
  | binary _ _ _ ihl ihr =>
    obtain ⟨-, -, h⟩ := except_bind_eq_ok.1 h
    obtain ⟨_, _, hl, h⟩ := fits_bind (ihl scope hproper.1) h
    obtain ⟨_, _, hr, h⟩ := fits_bind (ihr scope hproper.2.2) h
    cases h
    exact (hl.append (hr.before.after (plain_spaced hproper.2.1))).after
  | binaryBound _ _ right ih =>
    obtain ⟨-, -, h⟩ := except_bind_eq_ok.1 h
    obtain ⟨_, _, hl, h⟩ := fits_bind (ih scope hproper.1) h
    cases h
    exact (hl.append ((fits_hole right).before.after (plain_spaced hproper.2))).after
  | literal value =>
    cases h
    exact fits_written (plain_renderLiteral value)
  | cast _ _ ih =>
    obtain ⟨_, _, hi, h⟩ := fits_bind (ih scope hproper.1) h
    cases h
    exact (hi.before hproper.2.append.after).after
  | string =>
    cases h
    exact fits_written hproper
  | nil | noJoin | noCte =>
    cases h
    exact fitsAll_nil
  | cons _ _ ihf ihr =>
    obtain ⟨⟨_, _⟩, hfirst, h⟩ := except_bind_eq_ok.1 h
    obtain ⟨⟨_, _⟩, hrest, h⟩ := except_bind_eq_ok.1 h
    cases h
    exact .cons (ihf scope hproper.1 hfirst) (ihr scope hproper.2 hrest)
  | joinOn _ _ _ _ ihc ihr =>
    obtain ⟨_, hrelation, h⟩ := except_bind_eq_ok.1 h
    obtain ⟨_, _, hc, h⟩ := fits_bind (ihc scope hproper.2.2.1) h
    obtain ⟨⟨_, _⟩, hrest, h⟩ := except_bind_eq_ok.1 h
    cases h
    rw [renderTable_ok hrelation]
    exact .cons (hc.after (hproper.1.append (plain_tableText hproper.2.1).append.after))
      (ihr scope hproper.2.2.2 hrest)
  | joinCross _ _ _ ih =>
    obtain ⟨_, hrelation, h⟩ := except_bind_eq_ok.1 h
    obtain ⟨⟨_, _⟩, hrest, h⟩ := except_bind_eq_ok.1 h
    cases h
    rw [renderTable_ok hrelation]
    have hall := FitsAll.cons (fits_written (V := V) (hproper.1.append
      (.append (show Plain (lit " JOIN ") by decide) (plain_tableText hproper.2.1))))
      (ih scope hproper.2.2 hrest)
    rw [nil_append, Nat.zero_add] at hall
    exact hall
  | cte _ _ _ _ ihq ihr =>
    obtain ⟨-, -, h⟩ := except_bind_eq_ok.1 h
    obtain ⟨_, bound, hq, h⟩ := fits_bind (ihq scope hproper.2.1) h
    replace h := quoted_bind h
    obtain ⟨⟨_, _⟩, hrest, h⟩ := except_bind_eq_ok.1 h
    cases h
    exact .cons (hq.before.after (plain_quotedText hproper.1).append) (ihr scope hproper.2.2 hrest)
  | tableSource _ quoted =>
    cases quoted with
    | true =>
      obtain ⟨_, hsql, h⟩ := except_bind_eq_ok.1 h
      cases h
      rw [renderTable_ok hsql]
      exact fits_written (plain_tableText hproper)
    | false =>
      cases h
      exact fits_written hproper.1
  | subquery _ _ ih =>
    obtain ⟨_, bound, hq, h⟩ := fits_bind (ih scope hproper.1) h
    replace h := quoted_bind h
    cases h
    exact (hq.before (plain_quotedText hproper.2).after).after
  | select ctes distinct projections source joins correlations predicates groups havings orderings
      limit offset bindLimits ihc ihp ihs ihj ihw ihg ihh iho =>
    obtain ⟨hpc, hpp, hps, hpj, hpw, hpg, hph, hpo⟩ := hproper
    obtain ⟨_, _, hc, h⟩ := fitsAll_bind (ihc scope hpc) h
    obtain ⟨_, _, hp, h⟩ := fitsAll_bind (ihp _ hpp) h
    obtain ⟨_, _, hs, h⟩ := fits_bind (ihs _ hps) h
    obtain ⟨joined, _, hj, h⟩ := fitsAll_bind (ihj _ hpj) h
    obtain ⟨_, _, hw, h⟩ := fitsAll_bind (ihw _ hpw) h
    obtain ⟨_, _, hg, h⟩ := fitsAll_bind (ihg _ hpg) h
    obtain ⟨having, _, hh, h⟩ := fitsAll_bind (ihh _ hph) h
    obtain ⟨_, _, ho, h⟩ := fitsAll_bind (iho _ hpo) h
    cases h
    exact (hc.cte ctes.anyRecursive).append ((hp.join.append (hs.append (hj.joined.append
      (hw.clause.append (hg.clause.append (hh.clause.append (ho.clause.append
        (fits_pagination visitor limit offset bindLimits ofInt))))))).after).after
          (plain_lit_if distinct))
  | compound _ _ _ _ limit offset ihl ihr iho =>
    obtain ⟨_, _, hl, h⟩ := fits_bind (ihl scope hproper.1) h
    obtain ⟨_, _, hr, h⟩ := fits_bind (ihr scope hproper.2.2.1) h
    obtain ⟨_, _, ho, h⟩ := fitsAll_bind (iho scope hproper.2.2.2) h
    cases h
    exact (hl.branch _).append (((hr.branch _).append
      (ho.clause.append
        (fits_pagination visitor limit offset true ofInt))).after (plain_spaced hproper.2.1))

end Diamond.Arel
