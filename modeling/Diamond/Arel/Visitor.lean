import Diamond.Bignum.Decimal
import Diamond.Lib.Codec

/-!
# Rendering queries

Model of `Visitor` in `packages/arel/lib/arel/visitor.d6` with the nodes it visits, of
`CompoundQuery#render_default`, and of the pagination of the SQLite and PostgreSQL visitors.

A tree is one inductive family over the kinds of nodes; a list of nodes is a kind of its own.  The
list `params` that the source pushes to is what a render function returns next to its text: the values
it pushes, in the order of the pushes.  `@query`, which the source sets while it renders a query, is
here the relations whose attributes are allowed; outside of a query all are.
-/

namespace Diamond.Arel

open Codec (Bytes)
open Bignum (printUnsigned)

def lit (chars : String) : Bytes := chars.toList.map fun c => UInt8.ofNat c.toNat

/-- `?` -/
def mark : UInt8 := 63

/-- `Array#join` -/
def joinWith (separator : Bytes) : List Bytes → Bytes
  | [] => []
  | [text] => text
  | text :: next :: texts => text ++ (separator ++ joinWith separator (next :: texts))

def downcase (text : Bytes) : Bytes := text.map fun c => if 65 ≤ c ∧ c ≤ 90 then c + 32 else c

def printInt (n : ℤ) : Bytes :=
  if n < 0 then lit "-" ++ printUnsigned n.natAbs else printUnsigned n.natAbs

structure Table where
  name : Bytes
  tableAlias : Option Bytes
  deriving DecidableEq

def Table.referenceName (table : Table) : Bytes := table.tableAlias.getD table.name

inductive Literal
  | int (value : ℤ)
  | bool (value : Bool)
  deriving DecidableEq

variable {V : Type}

inductive Operand (V : Type)
  | nil
  | attributeNode (table : Table) (name : Bytes)
  | literal (value : Literal)
  | value (bound : V)

inductive Kind
  | expression
  | expressions
  | joins
  | ctes
  | source
  | query

/-- The nodes.  A membership holds a list of values or a query, and the right side of a binary
expression is a value if `bind_right?`. -/
inductive Node (V : Type) : Kind → Type
  | attributeNode (table : Table) (name : Bytes) : Node V .expression
  | predicate (left : Node V .expression) (operator : Bytes) (right : Operand V) :
      Node V .expression
  | logical (left : Node V .expression) (operator : Bytes) (right : Node V .expression) :
      Node V .expression
  | membership (left : Node V .expression) (values : List V) (negated : Bool) : Node V .expression
  | membershipQuery (left : Node V .expression) (query : Node V .query) (negated : Bool) :
      Node V .expression
  | between (left : Node V .expression) (lower upper : V) (negated : Bool) : Node V .expression
  | collation (inner : Node V .expression) (name : Bytes) : Node V .expression
  | exist (query : Node V .query) (negated : Bool) : Node V .expression
  | scalarSubquery (query : Node V .query) : Node V .expression
  | function (name : Bytes) (arguments : Node V .expressions) (distinct : Bool) : Node V .expression
  | qualifiedStar (table : Table) : Node V .expression
  | not (inner : Node V .expression) : Node V .expression
  | ordering (inner : Node V .expression) (direction : Bytes) (nulls : Option Bytes) :
      Node V .expression
  | aliased (inner : Node V .expression) (name : Bytes) : Node V .expression
  | rawSql (sql : Bytes) (params : List V) : Node V .expression
  | excludedAttribute (name : Bytes) : Node V .expression
  | conflictAttribute (name : Bytes) : Node V .expression
  | binary (left : Node V .expression) (operator : Bytes) (right : Node V .expression) :
      Node V .expression
  | binaryBound (left : Node V .expression) (operator : Bytes) (right : V) : Node V .expression
  | literal (value : Literal) : Node V .expression
  | cast (inner : Node V .expression) (typeName : Bytes) : Node V .expression
  | string (sql : Bytes) : Node V .expression
  | nil : Node V .expressions
  | cons (first : Node V .expression) (rest : Node V .expressions) : Node V .expressions
  | noJoin : Node V .joins
  | joinOn (kind : Bytes) (table : Table) (condition : Node V .expression) (rest : Node V .joins) :
      Node V .joins
  | joinCross (kind : Bytes) (table : Table) (rest : Node V .joins) : Node V .joins
  | noCte : Node V .ctes
  | cte (name : Bytes) (recursive : Bool) (query : Node V .query) (rest : Node V .ctes) :
      Node V .ctes
  | tableSource (table : Table) (quoted : Bool) : Node V .source
  | subquery (query : Node V .query) (referenceName : Bytes) : Node V .source
  | select (ctes : Node V .ctes) (distinct : Bool) (projections : Node V .expressions)
      (source : Node V .source) (joins : Node V .joins) (correlations : List Table)
      (predicates groups havings orderings : Node V .expressions) (limit offset : Option ℤ)
      (bindLimits : Bool) : Node V .query
  | compound (left : Node V .query) (operator : Bytes) (right : Node V .query)
      (orderings : Node V .expressions) (limit offset : Option ℤ) : Node V .query

/-! ## Parts -/

/-- A visitor: its name, its extensions, and whether an OFFSET needs a LIMIT. -/
structure Visitor where
  name : String
  supportsExtension : String → Bool
  offsetNeedsLimit : Bool

def sqliteVisitor : Visitor where
  name := "SQLite"
  supportsExtension name :=
    name ≠ "per-column default values" && name ≠ "named-constraint conflict targets"
  offsetNeedsLimit := true

def postgresqlVisitor : Visitor where
  name := "PostgreSQL"
  supportsExtension _ := true
  offsetNeedsLimit := false

def Visitor.requireExtension (visitor : Visitor) (name : String) : Except String Unit :=
  if visitor.supportsExtension name then .ok ()
  else .error (visitor.name ++ " visitor does not support " ++ name)

/-- A name in quotes, with the quotes in it doubled. -/
def quotedText (name : Bytes) : Bytes :=
  34 :: (name.flatMap fun c => if c = 34 then [34, 34] else [c]) ++ [34]

def Visitor.requireIf (visitor : Visitor) (needed : Bool) (name : String) : Except String Unit :=
  if needed then visitor.requireExtension name else .ok ()

/-- `arel_quote_identifier` -/
def quoteIdentifier (name : Bytes) : Except String Bytes :=
  if name = [] then .error "SQL identifier cannot be empty" else .ok (quotedText name)

/-- The relations whose attributes may occur; none outside of a query, where all may. -/
abbrev Scope := Option (List Bytes)

def attributeAllowed (scope : Scope) (table : Table) : Bool :=
  scope.all fun names => downcase table.referenceName ∈ names

def renderAttribute (scope : Scope) (table : Table) (name : Bytes) : Except String Bytes := do
  if attributeAllowed scope table then
    let relation ← quoteIdentifier table.referenceName
    let column ← quoteIdentifier name
    .ok (relation ++ (lit "." ++ column))
  else .error "attribute belongs to a relation outside this query"

def renderTable (table : Table) : Except String Bytes := do
  let sql ← quoteIdentifier table.name
  match table.tableAlias with
  | none => .ok sql
  | some tableAlias => do
    let quoted ← quoteIdentifier tableAlias
    .ok (sql ++ (lit " AS " ++ quoted))

def renderLiteral : Literal → Bytes
  | .bool true => lit "TRUE"
  | .bool false => lit "FALSE"
  | .int value => printInt value

def spaced (operator : Bytes) : Bytes := lit " " ++ (operator ++ lit " ")

def renderBound (keyword : Bytes) (value : Option ℤ) (bind : Bool) (ofInt : ℤ → V) : Bytes × List V :=
  match value with
  | none => ([], [])
  | some n => if bind then (keyword ++ [mark], [ofInt n]) else (keyword ++ printInt n, [])

def Visitor.renderPagination (visitor : Visitor) (limit offset : Option ℤ) (bind : Bool)
    (ofInt : ℤ → V) : Bytes × List V :=
  let first :=
    if visitor.offsetNeedsLimit ∧ limit = none ∧ offset ≠ none then (lit " LIMIT -1", [])
    else renderBound (lit " LIMIT ") limit bind ofInt
  let second := renderBound (lit " OFFSET ") offset bind ofInt
  (first.1 ++ second.1, first.2 ++ second.2)

def clause (keyword separator : Bytes) (texts : List Bytes) : Bytes :=
  if texts = [] then [] else keyword ++ joinWith separator texts

/-- `render_cte_prefix`, and nothing without entries. -/
def ctePrefix (recursive : Bool) (entries : List Bytes) : Bytes :=
  if entries = [] then []
  else lit (if recursive then "WITH RECURSIVE " else "WITH ") ++ (joinWith (lit ", ") entries ++ lit " ")

/-- `render_compound_branch` -/
def compoundBranch (sql : Bytes) (grouped : Bool) : Bytes :=
  if grouped then lit "SELECT * FROM (" ++ (sql ++ lit ")") else sql

def Node.isCompound : Node V .query → Bool
  | .compound .. => true
  | .select .. => false

def Node.anyRecursive : Node V .ctes → Bool
  | .noCte => false
  | .cte _ recursive _ rest => recursive || rest.anyRecursive

def Node.baseReferenceName : Node V .source → Bytes
  | .tableSource table _ => table.referenceName
  | .subquery _ referenceName => referenceName

def Node.joinedNames : Node V .joins → List Bytes
  | .noJoin => []
  | .joinOn _ table _ rest => downcase table.referenceName :: rest.joinedNames
  | .joinCross _ table rest => downcase table.referenceName :: rest.joinedNames

def scopeOf (source : Node V .source) (joins : Node V .joins) (correlations : List Table) : Scope :=
  some (downcase source.baseReferenceName :: joins.joinedNames ++
    correlations.map fun table => downcase table.referenceName)

/-- The operators that `render_expression_extension` asks an extension for. -/
def bitwiseOperators : List Bytes := [lit "&", lit "|", lit "<<", lit ">>"]

/-! ## Rendering -/

/-- What a node is rendered to: a text or a list of texts, and the values pushed. -/
def Rendered (V : Type) : Kind → Type
  | .expression => Bytes × List V
  | .source => Bytes × List V
  | .query => Bytes × List V
  | .expressions => List Bytes × List V
  | .joins => List Bytes × List V
  | .ctes => List Bytes × List V

/-- `render_expression` and what it calls, `render`, and `render_default` of a compound query. -/
def Node.render (visitor : Visitor) (ofInt : ℤ → V) :
    {kind : Kind} → Scope → Node V kind → Except String (Rendered V kind)
  | _, scope, .attributeNode table name => do
    let text ← renderAttribute scope table name
    .ok (text, [])
  | _, scope, .predicate left operator right => do
    let (text, pushed) ← left.render visitor ofInt scope
    match right with
    | .nil =>
      if operator = lit "=" then .ok (text ++ lit " IS NULL", pushed)
      else if operator = lit "!=" then .ok (text ++ lit " IS NOT NULL", pushed)
      else .error "nil only supports eq/not_eq predicates"
    | .attributeNode table name => do
      let column ← renderAttribute scope table name
      .ok (text ++ (spaced operator ++ column), pushed)
    | .literal value =>
      .ok (text ++ (spaced operator ++ renderLiteral value), pushed)
    | .value bound => .ok (text ++ (spaced operator ++ [mark]), pushed ++ [bound])
  | _, scope, .logical left operator right => do
    let (text, pushed) ← left.render visitor ofInt scope
    let (text', pushed') ← right.render visitor ofInt scope
    .ok (lit "(" ++ (text ++ (spaced operator ++ (text' ++ lit ")"))), pushed ++ pushed')
  | _, scope, .membership left values negated => do
    let (text, pushed) ← left.render visitor ofInt scope
    if values.isEmpty then .ok (lit (if negated then "1 = 1" else "1 = 0"), pushed)
    else
      .ok (text ++ (lit (if negated then " NOT IN (" else " IN (") ++
        (joinWith (lit ", ") (values.map fun _ => [mark]) ++ lit ")")), pushed ++ values)
  | _, scope, .membershipQuery left query negated => do
    let (text, pushed) ← left.render visitor ofInt scope
    let (sql, bound) ← query.render visitor ofInt scope
    .ok (text ++ (lit (if negated then " NOT IN (" else " IN (") ++ (sql ++ lit ")")),
      pushed ++ bound)
  | _, scope, .between left lower upper negated => do
    let (text, pushed) ← left.render visitor ofInt scope
    .ok (text ++ (lit (if negated then " NOT BETWEEN " else " BETWEEN ") ++
      ([mark] ++ (lit " AND " ++ [mark]))), pushed ++ [lower, upper])
  | _, scope, .collation inner name => do
    let (text, pushed) ← inner.render visitor ofInt scope
    let quoted ← quoteIdentifier name
    .ok (text ++ (lit " COLLATE " ++ quoted), pushed)
  | _, scope, .exist query negated => do
    let (sql, bound) ← query.render visitor ofInt scope
    .ok (lit (if negated then "NOT EXISTS (" else "EXISTS (") ++ (sql ++ lit ")"), bound)
  | _, scope, .scalarSubquery query => do
    let (sql, bound) ← query.render visitor ofInt scope
    .ok (lit "(" ++ (sql ++ lit ")"), bound)
  | _, scope, .function name arguments distinct => do
    let (texts, pushed) ← arguments.render visitor ofInt scope
    .ok ((name ++ lit (if distinct then "(DISTINCT " else "(")) ++
      (joinWith (lit ", ") texts ++ lit ")"), pushed)
  | _, scope, .qualifiedStar table => do
    if attributeAllowed scope table then
      let quoted ← quoteIdentifier table.referenceName
      .ok (quoted ++ lit ".*", [])
    else .error "wildcard belongs to a relation outside this query"
  | _, scope, .not inner => do
    let (text, pushed) ← inner.render visitor ofInt scope
    .ok (lit "(NOT " ++ (text ++ lit ")"), pushed)
  | _, scope, .ordering inner direction nulls => do
    let (text, pushed) ← inner.render visitor ofInt scope
    match nulls with
    | none => .ok (text ++ (lit " " ++ direction), pushed)
    | some nulls => do
      visitor.requireExtension "explicit NULL ordering"
      .ok (text ++ (lit " " ++ (direction ++ (lit " NULLS " ++ nulls))), pushed)
  | _, scope, .aliased inner name => do
    let (text, pushed) ← inner.render visitor ofInt scope
    let quoted ← quoteIdentifier name
    .ok (text ++ (lit " AS " ++ quoted), pushed)
  | _, _, .rawSql sql params => .ok (sql, params)
  | _, _, .excludedAttribute name => do
    visitor.requireExtension "excluded-row attributes"
    let quoted ← quoteIdentifier name
    .ok (lit "excluded." ++ quoted, [])
  | _, _, .conflictAttribute name => do
    let quoted ← quoteIdentifier name
    .ok (quoted, [])
  | _, scope, .binary left operator right => do
    visitor.requireIf (operator ∈ bitwiseOperators) "integer bitwise operators"
    let (text, pushed) ← left.render visitor ofInt scope
    let (text', pushed') ← right.render visitor ofInt scope
    .ok (lit "(" ++ (text ++ (spaced operator ++ (text' ++ lit ")"))), pushed ++ pushed')
  | _, scope, .binaryBound left operator right => do
    visitor.requireIf (operator ∈ bitwiseOperators) "integer bitwise operators"
    let (text, pushed) ← left.render visitor ofInt scope
    .ok (lit "(" ++ (text ++ (spaced operator ++ ([mark] ++ lit ")"))), pushed ++ [right])
  | _, _, .literal value => .ok (renderLiteral value, [])
  | _, scope, .cast inner typeName => do
    let (text, pushed) ← inner.render visitor ofInt scope
    .ok (lit "CAST(" ++ (text ++ (lit " AS " ++ (typeName ++ lit ")"))), pushed)
  | _, _, .string sql => .ok (sql, [])
  | _, _, .nil => .ok ([], [])
  | _, scope, .cons first rest => do
    let (text, pushed) ← first.render visitor ofInt scope
    let (texts, pushed') ← rest.render visitor ofInt scope
    .ok (text :: texts, pushed ++ pushed')
  | _, _, .noJoin => .ok ([], [])
  | _, scope, .joinOn kind table condition rest => do
    let relation ← renderTable table
    let (text, pushed) ← condition.render visitor ofInt scope
    let (texts, pushed') ← rest.render visitor ofInt scope
    .ok (((kind ++ (lit " JOIN " ++ (relation ++ lit " ON "))) ++ text) :: texts, pushed ++ pushed')
  | _, scope, .joinCross kind table rest => do
    let relation ← renderTable table
    let (texts, pushed) ← rest.render visitor ofInt scope
    .ok ((kind ++ (lit " JOIN " ++ relation)) :: texts, pushed)
  | _, _, .noCte => .ok ([], [])
  | _, scope, .cte name recursive query rest => do
    visitor.requireIf recursive "recursive CTEs"
    let (sql, bound) ← query.render visitor ofInt scope
    let quoted ← quoteIdentifier name
    let (texts, pushed) ← rest.render visitor ofInt scope
    .ok (((quoted ++ lit " AS (") ++ (sql ++ lit ")")) :: texts, bound ++ pushed)
  | _, _, .tableSource table quoted => do
    if quoted then
      let sql ← renderTable table
      .ok (sql, [])
    else .ok (table.name, [])
  | _, scope, .subquery query referenceName => do
    let (sql, bound) ← query.render visitor ofInt scope
    let quoted ← quoteIdentifier referenceName
    .ok (lit "(" ++ (sql ++ (lit ") AS " ++ quoted)), bound)
  | _, scope, .select ctes distinct projections source joins correlations predicates groups havings
      orderings limit offset bindLimits => do
    let (entries, pushed₀) ← ctes.render visitor ofInt scope
    let inner := scopeOf source joins correlations
    let (columns, pushed₁) ← projections.render visitor ofInt inner
    let (relation, pushed₂) ← source.render visitor ofInt inner
    let (joined, pushed₃) ← joins.render visitor ofInt inner
    let (conditions, pushed₄) ← predicates.render visitor ofInt inner
    let (grouped, pushed₅) ← groups.render visitor ofInt inner
    let (having, pushed₆) ← havings.render visitor ofInt inner
    let (ordered, pushed₇) ← orderings.render visitor ofInt inner
    let (page, pushed₈) := visitor.renderPagination limit offset bindLimits ofInt
    .ok (ctePrefix ctes.anyRecursive entries ++
        (lit (if distinct then "SELECT DISTINCT " else "SELECT ") ++ (joinWith (lit ", ") columns ++
          (lit " FROM " ++ (relation ++ ((joined.flatMap fun join => lit " " ++ join) ++
            (clause (lit " WHERE ") (lit " AND ") conditions ++
              (clause (lit " GROUP BY ") (lit ", ") grouped ++
                (clause (lit " HAVING ") (lit " AND ") having ++
                  (clause (lit " ORDER BY ") (lit ", ") ordered ++ page))))))))),
      pushed₀ ++ (pushed₁ ++ (pushed₂ ++ (pushed₃ ++ (pushed₄ ++ (pushed₅ ++ (pushed₆ ++
        (pushed₇ ++ pushed₈))))))))
  | _, scope, .compound left operator right orderings limit offset => do
    let (text, pushed) ← left.render visitor ofInt scope
    let (text', pushed') ← right.render visitor ofInt scope
    let (ordered, pushed'') ← orderings.render visitor ofInt scope
    let (page, pushed₃) := visitor.renderPagination limit offset true ofInt
    .ok (compoundBranch text left.isCompound ++ (spaced operator ++
        (compoundBranch text' right.isCompound ++ (clause (lit " ORDER BY ") (lit ", ") ordered ++
          page))),
      pushed ++ (pushed' ++ (pushed'' ++ pushed₃)))

end Diamond.Arel
