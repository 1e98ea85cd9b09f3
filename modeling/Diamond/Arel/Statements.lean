import Diamond.Arel.Placeholders

/-!
# Statements

Model of `Insert#render_default` with `Arel.render_insert_conflict`, and of `Update#render_default`,
in `packages/arel/lib/arel`.  A hash is the list of its entries.  A column default is known to the
rows of an insert only; elsewhere it is a value as any other.
-/

namespace Diamond.Arel

open List

open Codec (Bytes)
open Fallible (except_bind_eq_ok)

variable {V : Type}

/-! ## Statements of the source -/

/-- A value that a column is set to. -/
inductive Assignment (V : Type)
  | expression (inner : Node V .expression)
  | value (bound : V)

/-- A value of a row that is inserted. -/
inductive Cell (V : Type)
  | assignment (inner : Assignment V)
  | columnDefault

/-- A row: its columns and their values. -/
abbrev Row (V : Type) := List (Bytes × Cell V)

/-- Where the rows of an insert come from. -/
inductive InsertSource (V : Type)
  | defaultValues
  | fromQuery (columns : List Bytes) (query : Node V .query)
  | fromRows (rows : List (Row V))

/-- What an upsert conflicts on. -/
inductive ConflictTarget (V : Type)
  | onColumns (columns : List Bytes) (condition : Option (Node V .expression))
  | onConstraint (name : Bytes)

/-- An insert statement. -/
structure Insert (V : Type) where
  table : Table
  source : InsertSource V
  conflictTarget : ConflictTarget V
  conflictIgnore : Bool
  conflictAssignments : Option (List (Bytes × Assignment V))
  returning : Node V .expressions
  ctes : Node V .ctes

/-- An update statement. -/
structure Update (V : Type) where
  table : Table
  assignments : List (Bytes × Assignment V)
  predicates : Node V .expressions
  returning : Node V .expressions
  allowAll : Bool
  ctes : Node V .ctes

/-- How many expressions a list has. -/
def Node.length : Node V .expressions → ℕ
  | .nil => 0
  | .cons _ rest => rest.length + 1

/-- Whether there is a common table expression. -/
def Node.hasEntries : Node V .ctes → Bool
  | .noCte => false
  | .cte .. => true

/-- The only projection is `*`. -/
def Node.isStar : Node V .expressions → Bool
  | .cons (.rawSql sql _) .nil => sql = lit "*"
  | .cons (.string sql) .nil => sql = lit "*"
  | _ => false

/-- Whether a query says how many columns it has. -/
def Node.projectionCountKnown : Node V .query → Bool
  | .select _ _ projections .. => !projections.isStar
  | .compound .. => true

/-- How many columns a query has. -/
def Node.projectionCount : Node V .query → ℕ
  | .select _ _ projections .. => projections.length
  | .compound left .. => left.projectionCount

/-- Renders items in order and collects their texts and values. -/
def renderAll {α : Type} (f : α → Except String (Bytes × List V)) :
    List α → Except String (List Bytes × List V)
  | [] => .ok ([], [])
  | item :: items => do
    let (text, pushed) ← f item
    let (texts, pushed') ← renderAll f items
    .ok (text :: texts, pushed ++ pushed')

/-- Quotes names in order. -/
def quoteColumns : List Bytes → Except String (List Bytes)
  | [] => .ok []
  | name :: names => do
    let quoted ← quoteIdentifier name
    let rest ← quoteColumns names
    .ok (quoted :: rest)

section
variable (visitor : Visitor) (ofInt : ℤ → V)

/-- The text of an assigned value. -/
def Assignment.render : Assignment V → Except String (Bytes × List V)
  | .expression inner => inner.render visitor ofInt none
  | .value bound => .ok ([mark], [bound])

/-- The text of an inserted value. -/
def Cell.render : Cell V → Except String (Bytes × List V)
  | .assignment inner => inner.render visitor ofInt
  | .columnDefault => do
    visitor.requireExtension "per-column default values"
    .ok (lit "DEFAULT", [])

/-- A column and the value that it is set to. -/
def renderAssignment (entry : Bytes × Assignment V) : Except String (Bytes × List V) := do
  let (text, pushed) ← entry.2.render visitor ofInt
  let quoted ← quoteIdentifier entry.1
  .ok ((quoted ++ lit " = ") ++ text, pushed)

/-- The value of one column of a row, which must have it. -/
def renderColumn (row : Row V) (column : Bytes) : Except String (Bytes × List V) :=
  match row.lookup column with
  | none => .error "INSERT rows must have identical columns"
  | some cell => cell.render visitor ofInt

/-- The values of a row in the order of the columns. -/
def renderRow (columns : List Bytes) (row : Row V) : Except String (Bytes × List V) :=
  if row.length ≠ columns.length then .error "INSERT rows must have identical columns"
  else do
    let (texts, pushed) ← renderAll (renderColumn visitor ofInt row) columns
    .ok (lit "(" ++ (joinWith (lit ", ") texts ++ lit ")"), pushed)

/-- The columns of a conflict in parentheses. -/
def targetColumns (targets : List Bytes) : Bytes :=
  if targets = [] then [] else lit " (" ++ (joinWith (lit ", ") targets ++ lit ")")

/-- The text of what an upsert conflicts on. -/
def ConflictTarget.render : ConflictTarget V → Except String (Bytes × List V)
  | .onConstraint name => do
    visitor.requireExtension "named-constraint conflict targets"
    let quoted ← quoteIdentifier name
    .ok (lit " ON CONSTRAINT " ++ quoted, [])
  | .onColumns columns condition => do
    let targets ← quoteColumns columns
    match condition with
    | none => .ok (targetColumns targets, [])
    | some condition => do
      visitor.requireExtension "conflict-target predicates"
      let (text, pushed) ← condition.render visitor ofInt none
      .ok ((targetColumns targets ++ lit " WHERE ") ++ text, pushed)

/-- The `ON CONFLICT` clause. -/
def renderInsertConflict (target : ConflictTarget V) (ignore : Bool)
    (assignments : Option (List (Bytes × Assignment V))) : Except String (Bytes × List V) :=
  if !ignore && assignments.isNone then .ok ([], [])
  else do
    let (targetSql, pushed) ← target.render visitor ofInt
    visitor.requireExtension "upsert conflict actions"
    if ignore then .ok (lit " ON CONFLICT" ++ (targetSql ++ lit " DO NOTHING"), pushed)
    else if assignments.getD [] = [] then .error "conflict update requires at least one assignment"
    else do
      let (texts, pushed') ← renderAll (renderAssignment visitor ofInt) (assignments.getD [])
      .ok (lit " ON CONFLICT" ++ (targetSql ++ (lit " DO UPDATE SET " ++ joinWith (lit ", ") texts)),
        pushed ++ pushed')

/-- The `RETURNING` clause. -/
def renderReturning (expressions : Node V .expressions) : Except String (Bytes × List V) := do
  visitor.requireIf (0 < expressions.length) "returning clauses"
  let (texts, pushed) ← expressions.render visitor ofInt none
  .ok (clause (lit " RETURNING ") (lit ", ") texts, pushed)

/-- The head of an insert. -/
def insertInto (table : Bytes) (columns : List Bytes) (keyword : Bytes) : Bytes :=
  lit "INSERT INTO " ++ (table ++ (lit " (" ++ (joinWith (lit ", ") columns ++ (lit ") " ++ keyword))))

/-- An insert up to its `RETURNING` clause. -/
def Insert.renderBody (statement : Insert V) : Except String (Bytes × List V) :=
  match statement.source with
  | .defaultValues => do
    visitor.requireExtension "insert default values"
    let table ← quoteIdentifier statement.table.name
    .ok (lit "INSERT INTO " ++ (table ++ lit " DEFAULT VALUES"), [])
  | .fromQuery columns query =>
    if columns = [] then .error "INSERT SELECT requires at least one column"
    else if !query.projectionCountKnown then .error "INSERT SELECT requires explicit projections"
    else if columns.length ≠ query.projectionCount then
      .error "INSERT SELECT columns must match query projections"
    else do
      let quoted ← quoteColumns columns
      let (sql, pushed) ← query.render visitor ofInt none
      let table ← quoteIdentifier statement.table.name
      let (conflict, pushed') ← renderInsertConflict visitor ofInt statement.conflictTarget
        statement.conflictIgnore statement.conflictAssignments
      .ok (insertInto table quoted [] ++ (sql ++ conflict), pushed ++ pushed')
  | .fromRows rows =>
    if (rows.headD []).isEmpty then .error "INSERT requires at least one value"
    else do
      let columns := (rows.headD []).map Prod.fst
      let quoted ← quoteColumns columns
      let (groups, pushed) ← renderAll (renderRow visitor ofInt columns) rows
      let table ← quoteIdentifier statement.table.name
      let (conflict, pushed') ← renderInsertConflict visitor ofInt statement.conflictTarget
        statement.conflictIgnore statement.conflictAssignments
      .ok (insertInto table quoted (lit "VALUES ") ++ (joinWith (lit ", ") groups ++ conflict),
        pushed ++ pushed')

/-- The text and the values of an insert. -/
def Insert.render (statement : Insert V) : Except String (Bytes × List V) := do
  visitor.requireIf statement.ctes.hasEntries "write CTEs"
  let (body, pushed) ← statement.renderBody visitor ofInt
  let (returned, pushed') ← renderReturning visitor ofInt statement.returning
  let (entries, bound) ← statement.ctes.render visitor ofInt none
  .ok (ctePrefix statement.ctes.anyRecursive entries ++ (body ++ returned),
    bound ++ (pushed ++ pushed'))

/-- The text and the values of an update. -/
def Update.render (statement : Update V) : Except String (Bytes × List V) := do
  visitor.requireIf statement.ctes.hasEntries "write CTEs"
  if statement.assignments.isEmpty then .error "UPDATE requires at least one assignment"
  else if statement.predicates.length = 0 ∧ !statement.allowAll then
    .error "UPDATE requires where() or explicit all()"
  else do
    let (clauses, pushed) ← renderAll (renderAssignment visitor ofInt) statement.assignments
    let table ← quoteIdentifier statement.table.name
    let (conditions, pushed') ← statement.predicates.render visitor ofInt none
    let (returned, pushed'') ← renderReturning visitor ofInt statement.returning
    let (entries, bound) ← statement.ctes.render visitor ofInt none
    .ok (ctePrefix statement.ctes.anyRecursive entries ++
        ((lit "UPDATE " ++ (table ++ lit " SET ")) ++ (joinWith (lit ", ") clauses ++
          (clause (lit " WHERE ") (lit " AND ") conditions ++ returned))),
      bound ++ (pushed ++ (pushed' ++ pushed'')))

/-- The statements. -/
inductive Statement (V : Type)
  | select (query : Node V .query)
  | insert (statement : Insert V)
  | update (statement : Update V)

/-- The text and the values of a statement. -/
def Statement.render : Statement V → Except String (Bytes × List V)
  | .select query => query.render visitor ofInt none
  | .insert statement => statement.render visitor ofInt
  | .update statement => statement.render visitor ofInt

end

/-! ## Layouts -/

section
variable (visitor : Visitor) (ofInt : ℤ → V)

/-- The pieces of an assigned value. -/
def Assignment.layout : Assignment V → List (Piece V)
  | .expression inner => inner.layout visitor ofInt
  | .value bound => [.hole bound]

/-- How many values of an assigned value get no placeholder. -/
def Assignment.lost : Assignment V → ℕ
  | .expression inner => inner.lost visitor ofInt
  | .value _ => 0

/-- The pieces of an inserted value. -/
def Cell.layout : Cell V → List (Piece V)
  | .assignment inner => inner.layout visitor ofInt
  | .columnDefault => written (lit "DEFAULT")

/-- How many values of an inserted value get no placeholder. -/
def Cell.lost : Cell V → ℕ
  | .assignment inner => inner.lost visitor ofInt
  | .columnDefault => 0

/-- The pieces of an assignment. -/
def assignmentLayout (entry : Bytes × Assignment V) : List (Piece V) :=
  written (quotedText entry.1 ++ lit " = ") ++ entry.2.layout visitor ofInt

/-- The pieces of one column of a row. -/
def columnLayout (row : Row V) (column : Bytes) : List (Piece V) :=
  (row.lookup column).elim [] fun cell => cell.layout visitor ofInt

/-- How many values of a column get no placeholder. -/
def columnLost (row : Row V) (column : Bytes) : ℕ :=
  (row.lookup column).elim 0 fun cell => cell.lost visitor ofInt

/-- The pieces of a row. -/
def rowLayout (columns : List Bytes) (row : Row V) : List (Piece V) :=
  written (lit "(") ++
    (joinPieces (lit ", ") (columns.map (columnLayout visitor ofInt row)) ++ written (lit ")"))

/-- How many values of a row get no placeholder. -/
def rowLost (columns : List Bytes) (row : Row V) : ℕ :=
  (columns.map (columnLost visitor ofInt row)).sum

/-- How many values of the assignments get no placeholder. -/
def assignmentsLost (assignments : List (Bytes × Assignment V)) : ℕ :=
  (assignments.map fun entry => entry.2.lost visitor ofInt).sum

/-- The pieces of what an upsert conflicts on. -/
def ConflictTarget.layout : ConflictTarget V → List (Piece V)
  | .onConstraint name => written (lit " ON CONSTRAINT " ++ quotedText name)
  | .onColumns columns none => written (targetColumns (columns.map quotedText))
  | .onColumns columns (some condition) =>
    written (targetColumns (columns.map quotedText) ++ lit " WHERE ") ++
      condition.layout visitor ofInt

/-- How many values of its condition get no placeholder. -/
def ConflictTarget.lost : ConflictTarget V → ℕ
  | .onConstraint _ => 0
  | .onColumns _ condition => condition.elim 0 fun condition => condition.lost visitor ofInt

/-- The pieces of the `ON CONFLICT` clause. -/
def conflictLayout (target : ConflictTarget V) (ignore : Bool)
    (assignments : Option (List (Bytes × Assignment V))) : List (Piece V) :=
  if !ignore && assignments.isNone then []
  else written (lit " ON CONFLICT") ++ (target.layout visitor ofInt ++
    if ignore then written (lit " DO NOTHING")
    else written (lit " DO UPDATE SET ") ++
      joinPieces (lit ", ") ((assignments.getD []).map (assignmentLayout visitor ofInt)))

/-- How many values of the clause get no placeholder. -/
def conflictLost (target : ConflictTarget V) (ignore : Bool)
    (assignments : Option (List (Bytes × Assignment V))) : ℕ :=
  if !ignore && assignments.isNone then 0
  else target.lost visitor ofInt +
    if ignore then 0 else assignmentsLost visitor ofInt (assignments.getD [])

/-- The pieces of an insert's clause, none if it has no target. -/
def Insert.conflictLayout (statement : Insert V) : List (Piece V) :=
  Arel.conflictLayout visitor ofInt statement.conflictTarget statement.conflictIgnore
    statement.conflictAssignments

/-- How many values of an insert's clause get no placeholder. -/
def Insert.conflictLost (statement : Insert V) : ℕ :=
  Arel.conflictLost visitor ofInt statement.conflictTarget statement.conflictIgnore
    statement.conflictAssignments

/-- The pieces of an insert up to its `RETURNING` clause. -/
def Insert.bodyLayout (statement : Insert V) : List (Piece V) :=
  match statement.source with
  | .defaultValues =>
    written (lit "INSERT INTO " ++ (quotedText statement.table.name ++ lit " DEFAULT VALUES"))
  | .fromQuery columns query =>
    written (insertInto (quotedText statement.table.name) (columns.map quotedText) []) ++
      (query.layout visitor ofInt ++ statement.conflictLayout visitor ofInt)
  | .fromRows rows =>
    let columns := (rows.headD []).map Prod.fst
    written (insertInto (quotedText statement.table.name) (columns.map quotedText) (lit "VALUES ")) ++
      (joinPieces (lit ", ") (rows.map (rowLayout visitor ofInt columns)) ++
        statement.conflictLayout visitor ofInt)

/-- How many values of this part get no placeholder. -/
def Insert.bodyLost (statement : Insert V) : ℕ :=
  match statement.source with
  | .defaultValues => 0
  | .fromQuery _ query => query.lost visitor ofInt + statement.conflictLost visitor ofInt
  | .fromRows rows =>
    (rows.map (rowLost visitor ofInt ((rows.headD []).map Prod.fst))).sum +
      statement.conflictLost visitor ofInt

/-- The pieces of an insert. -/
def Insert.layout (statement : Insert V) : List (Piece V) :=
  ctePieces statement.ctes.anyRecursive (statement.ctes.layout visitor ofInt) ++
    (statement.bodyLayout visitor ofInt ++
      clausePieces (lit " RETURNING ") (lit ", ") (statement.returning.layout visitor ofInt))

/-- How many values of an insert get no placeholder. -/
def Insert.lost (statement : Insert V) : ℕ :=
  statement.ctes.lost visitor ofInt +
    (statement.bodyLost visitor ofInt + statement.returning.lost visitor ofInt)

/-- The pieces of an update. -/
def Update.layout (statement : Update V) : List (Piece V) :=
  ctePieces statement.ctes.anyRecursive (statement.ctes.layout visitor ofInt) ++
    (written (lit "UPDATE " ++ (quotedText statement.table.name ++ lit " SET ")) ++
      (joinPieces (lit ", ") (statement.assignments.map (assignmentLayout visitor ofInt)) ++
        (clausePieces (lit " WHERE ") (lit " AND ") (statement.predicates.layout visitor ofInt) ++
          clausePieces (lit " RETURNING ") (lit ", ") (statement.returning.layout visitor ofInt))))

/-- How many values of an update get no placeholder. -/
def Update.lost (statement : Update V) : ℕ :=
  statement.ctes.lost visitor ofInt + (assignmentsLost visitor ofInt statement.assignments +
    (statement.predicates.lost visitor ofInt + statement.returning.lost visitor ofInt))

/-- The text of a statement with the bound values where they stand in the tree. -/
def Statement.layout : Statement V → List (Piece V)
  | .select query => query.layout visitor ofInt
  | .insert statement => statement.layout visitor ofInt
  | .update statement => statement.layout visitor ofInt

/-- How many values are bound in the left sides of memberships in an empty list. -/
def Statement.lost : Statement V → ℕ
  | .select query => query.lost visitor ofInt
  | .insert statement => statement.lost visitor ofInt
  | .update statement => statement.lost visitor ofInt

end

/-! ## Proper statements -/

/-- The names and the fragments in an assigned value are proper. -/
def Assignment.Proper : Assignment V → Prop
  | .expression inner => inner.Proper
  | .value _ => True

/-- The names and the fragments in an inserted value are proper. -/
def Cell.Proper : Cell V → Prop
  | .assignment inner => inner.Proper
  | .columnDefault => True

/-- The names and the fragments in a conflict target are proper. -/
def ConflictTarget.Proper : ConflictTarget V → Prop
  | .onConstraint name => Plain name
  | .onColumns columns condition =>
    (∀ column ∈ columns, Plain column) ∧ ∀ inner ∈ condition, Node.Proper inner

/-- The names and the fragments in the rows are proper. -/
def InsertSource.Proper : InsertSource V → Prop
  | .defaultValues => True
  | .fromQuery columns query => (∀ column ∈ columns, Plain column) ∧ query.Proper
  | .fromRows rows => ∀ row ∈ rows, ∀ entry ∈ row, Plain entry.1 ∧ entry.2.Proper

/-- The names and the fragments in the assignments are proper. -/
def ProperAssignments (assignments : List (Bytes × Assignment V)) : Prop :=
  ∀ entry ∈ assignments, Plain entry.1 ∧ entry.2.Proper

/-- The names and the fragments in an insert are proper. -/
structure Insert.Proper (statement : Insert V) : Prop where
  table : statement.table.Proper
  source : statement.source.Proper
  conflictTarget : statement.conflictTarget.Proper
  conflictAssignments : ProperAssignments (statement.conflictAssignments.getD [])
  returning : statement.returning.Proper
  ctes : statement.ctes.Proper

/-- The names and the fragments in an update are proper. -/
structure Update.Proper (statement : Update V) : Prop where
  table : statement.table.Proper
  assignments : ProperAssignments statement.assignments
  predicates : statement.predicates.Proper
  returning : statement.returning.Proper
  ctes : statement.ctes.Proper

/-- Fragments have as many values as placeholders, and no name has a question mark. -/
def Statement.Proper : Statement V → Prop
  | .select query => query.Proper
  | .insert statement => statement.Proper
  | .update statement => statement.Proper

/-! ## Rendering -/

/-- Plain texts are joined to a plain text. -/
lemma plain_joinWith {separator} (hseparator : Plain separator) {texts}
    (h : ∀ text ∈ texts, Plain text) : Plain (joinWith separator texts) := by
  induction texts with
  | nil => exact not_mem_nil
  | cons text texts ih =>
    have hrest := ih fun other hother => h other (mem_cons_of_mem _ hother)
    have htext := h text mem_cons_self
    cases texts with
    | nil => exact htext
    | cons => exact htext.append (hseparator.append hrest)

variable {columns : List Bytes}

/-- A list of quoted plain names is plain. -/
lemma plain_quoted (h : ∀ column ∈ columns, Plain column) :
    Plain (joinWith (lit ", ") (columns.map quotedText)) := by
  apply plain_joinWith (by decide)
  intro _ htext
  obtain ⟨column, hcolumn, rfl⟩ := mem_map.1 htext
  exact plain_quotedText (h column hcolumn)

/-- Names that can be quoted are. -/
lemma quoteColumns_ok {names texts} (h : quoteColumns names = .ok texts) :
    texts = names.map quotedText := by
  induction names generalizing texts with
  | nil =>
    cases h
    rfl
  | cons _ _ ih =>
    obtain ⟨_, hquoted, h⟩ := except_bind_eq_ok.1 h
    obtain ⟨_, hrest, h⟩ := except_bind_eq_ok.1 h
    cases h
    rw [quoteIdentifier_ok hquoted, ih hrest, map_cons]

/-- If every item fits its layout, all of them fit the joined layouts. -/
lemma renderAll_fits {α : Type} {f : α → Except String (Bytes × List V)}
    {layout : α → List (Piece V)} {lost : α → ℕ} {items : List α}
    (hf : ∀ item ∈ items, ∀ r, f item = .ok r → Fits r.1 r.2 (layout item) (lost item))
    {r : List Bytes × List V} (h : renderAll f items = .ok r) :
    FitsAll r.1 r.2 (items.map layout) (items.map lost).sum := by
  induction items generalizing r with
  | nil =>
    cases h
    exact fitsAll_nil
  | cons item _ ih =>
    obtain ⟨_, _, hitem, h⟩ := fits_bind (hf item mem_cons_self _) h
    obtain ⟨_, _, hitems, h⟩ :=
      fitsAll_bind (ih fun other hother => hf other (mem_cons_of_mem _ hother)) h
    cases h
    rw [map_cons, map_cons, sum_cons]
    exact .cons hitem hitems

section
variable {visitor : Visitor} {ofInt : ℤ → V}

variable {r : Bytes × List V}

lemma Assignment.render_fits {assignment : Assignment V} (hproper : assignment.Proper)
    (h : assignment.render visitor ofInt = .ok r) :
    Fits r.1 r.2 (assignment.layout visitor ofInt) (assignment.lost visitor ofInt) := by
  cases assignment with
  | expression inner => exact Arel.render_fits visitor ofInt inner none hproper h
  | value bound =>
    cases h
    exact fits_hole bound

lemma Cell.render_fits {cell : Cell V} (hproper : cell.Proper)
    (h : cell.render visitor ofInt = .ok r) :
    Fits r.1 r.2 (cell.layout visitor ofInt) (cell.lost visitor ofInt) := by
  cases cell with
  | assignment => exact Assignment.render_fits hproper h
  | columnDefault =>
    obtain ⟨-, -, h⟩ := except_bind_eq_ok.1 h
    cases h
    exact fits_written (show Plain (lit "DEFAULT") by decide)

lemma renderAssignment_fits {entry : Bytes × Assignment V} (hname : Plain entry.1)
    (hproper : entry.2.Proper) (h : renderAssignment visitor ofInt entry = .ok r) :
    Fits r.1 r.2 (assignmentLayout visitor ofInt entry) (entry.2.lost visitor ofInt) := by
  obtain ⟨_, _, hvalue, h⟩ := fits_bind (Assignment.render_fits hproper) h
  replace h := quoted_bind h
  cases h
  exact hvalue.after ((plain_quotedText hname).append (by decide))

lemma renderAssignments_fits {assignments} (hproper : ProperAssignments assignments) {r}
    (h : renderAll (renderAssignment visitor ofInt) assignments = .ok r) :
    FitsAll r.1 r.2 (assignments.map (assignmentLayout visitor ofInt))
      (assignmentsLost visitor ofInt assignments) :=
  renderAll_fits (fun entry hentry _ hr =>
    renderAssignment_fits (hproper entry hentry).1 (hproper entry hentry).2 hr) h

lemma renderColumn_fits {row : Row V} (hproper : ∀ entry ∈ row, entry.2.Proper) {column : Bytes}
    (h : renderColumn visitor ofInt row column = .ok r) :
    Fits r.1 r.2 (columnLayout visitor ofInt row column) (columnLost visitor ofInt row column) := by
  rw [renderColumn] at h
  rw [columnLayout, columnLost]
  cases hcell : row.lookup column with rw [hcell] at h
  | none =>
    cases h
  | some cell =>
    obtain ⟨before, after, rfl, -⟩ := lookup_eq_some_iff.1 hcell
    have hmem : (column, cell) ∈ before ++ (column, cell) :: after :=
      mem_append_right _ mem_cons_self
    exact Cell.render_fits (hproper _ hmem) h

lemma renderRow_fits {row} (hproper : ∀ entry ∈ row, entry.2.Proper)
    (h : renderRow visitor ofInt columns row = .ok r) :
    Fits r.1 r.2 (rowLayout visitor ofInt columns row) (rowLost visitor ofInt columns row) := by
  rw [renderRow] at h
  split at h
  · cases h
  · obtain ⟨_, _, hall, h⟩ := fitsAll_bind (renderAll_fits fun _ _ _ => renderColumn_fits hproper) h
    cases h
    exact ((hall.join (by decide)).before (by decide)).after (by decide)

/-- The columns of a conflict are plain. -/
lemma plain_targetColumns (h : ∀ column ∈ columns, Plain column) :
    Plain (targetColumns (columns.map quotedText)) := by
  rw [targetColumns]
  split
  · exact not_mem_nil
  · exact .append (by decide) ((plain_quoted h).append (by decide))

lemma ConflictTarget.render_fits {target : ConflictTarget V} (hproper : target.Proper)
    (h : target.render visitor ofInt = .ok r) :
    Fits r.1 r.2 (target.layout visitor ofInt) (target.lost visitor ofInt) := by
  cases target with
  | onConstraint =>
    obtain ⟨-, -, h⟩ := except_bind_eq_ok.mp h
    replace h := quoted_bind h
    cases h
    exact fits_written (Plain.append (by decide) (plain_quotedText hproper))
  | onColumns _ condition =>
    obtain ⟨_, htargets, h⟩ := except_bind_eq_ok.mp h
    obtain rfl := quoteColumns_ok htargets
    cases condition with
    | none =>
      cases h
      exact fits_written (plain_targetColumns hproper.1)
    | some condition =>
      obtain ⟨-, -, h⟩ := except_bind_eq_ok.mp h
      obtain ⟨_, _, hc, h⟩ :=
        fits_bind (Arel.render_fits visitor ofInt condition none (hproper.2 condition rfl)) h
      cases h
      exact hc.after ((plain_targetColumns hproper.1).append (by decide))

/-- The `ON CONFLICT` clause fits its layout. -/
lemma renderInsertConflict_fits {target : ConflictTarget V} {ignore}
    {assignments : Option (List (Bytes × Assignment V))} (htarget : target.Proper)
    (hassignments : ProperAssignments (assignments.getD []))
    (h : renderInsertConflict visitor ofInt target ignore assignments = .ok r) :
    Fits r.1 r.2 (conflictLayout visitor ofInt target ignore assignments)
      (conflictLost visitor ofInt target ignore assignments) := by
  rw [renderInsertConflict] at h
  rw [conflictLayout, conflictLost]
  split at h
  · next hnone =>
    cases h
    rw [if_pos hnone, if_pos hnone]
    exact fits_nil
  · next hsome =>
    rw [if_neg hsome, if_neg hsome]
    obtain ⟨_, _, ht, h⟩ := fits_bind (ConflictTarget.render_fits htarget) h
    obtain ⟨-, -, h⟩ := except_bind_eq_ok.mp h
    cases ignore with
    | true =>
      cases h
      exact (ht.before (by decide)).after (by decide)
    | false =>
      rw [if_neg Bool.false_ne_true] at h
      split at h
      · cases h
      · obtain ⟨_, _, ha, h⟩ := fitsAll_bind (renderAssignments_fits hassignments) h
        cases h
        exact (ht.append ((ha.join (by decide)).after (by decide))).after (by decide)

lemma renderReturning_fits {expressions} (hproper : expressions.Proper)
    (h : renderReturning visitor ofInt expressions = .ok r) : Fits r.1 r.2
      (clausePieces (lit " RETURNING ") (lit ", ") (expressions.layout visitor ofInt))
      (expressions.lost visitor ofInt) := by
  obtain ⟨-, -, h⟩ := except_bind_eq_ok.mp h
  obtain ⟨_, _, he, h⟩ := fitsAll_bind (Arel.render_fits visitor ofInt expressions none hproper) h
  cases h
  exact he.clause (by decide) (by decide)

/-- The head of an insert is plain. -/
lemma plain_insertInto {table} (htable : Plain table)
    (hcolumns : ∀ column ∈ columns, Plain column) {keyword} (hkeyword : Plain keyword) :
    Plain (insertInto (quotedText table) (columns.map quotedText) keyword) :=
  .append (by decide) ((plain_quotedText htable).append (.append (by decide)
    ((plain_quoted hcolumns).append (.append (by decide) hkeyword))))

/-- An insert up to its `RETURNING` clause fits its layout, for each source of rows. -/
lemma Insert.renderBody_fits {statement : Insert V} (hproper : statement.Proper)
    (h : statement.renderBody visitor ofInt = .ok r) :
    Fits r.1 r.2 (statement.bodyLayout visitor ofInt) (statement.bodyLost visitor ofInt) := by
  have hsource := hproper.source
  rw [Insert.renderBody] at h
  rw [Insert.bodyLayout, Insert.bodyLost]
  cases heq : statement.source with
  | defaultValues =>
    rw [heq] at h
    obtain ⟨-, -, h⟩ := except_bind_eq_ok.mp h
    replace h := quoted_bind h
    cases h
    exact fits_written (Plain.append (by decide)
      ((plain_quotedText hproper.table.1).append (by decide)))
  | fromQuery _ query =>
    rw [heq] at h hsource
    dsimp only at h
    split at h
    · cases h
    split at h
    · cases h
    split at h
    · cases h
    obtain ⟨_, hquoted, h⟩ := except_bind_eq_ok.mp h
    obtain ⟨_, _, hq, h⟩ := fits_bind (Arel.render_fits visitor ofInt query none hsource.2) h
    obtain ⟨_, _, hc, h⟩ := fits_bind
      (renderInsertConflict_fits hproper.conflictTarget hproper.conflictAssignments) (quoted_bind h)
    cases h
    rw [quoteColumns_ok hquoted]
    exact (hq.append hc).after (plain_insertInto hproper.table.1 hsource.1 not_mem_nil)
  | fromRows rows =>
    rw [heq] at h hsource
    dsimp only at h
    split at h
    · cases h
    obtain ⟨_, hquoted, h⟩ := except_bind_eq_ok.mp h
    obtain ⟨_, _, hg, h⟩ := fitsAll_bind (renderAll_fits fun row hrow _ =>
      renderRow_fits fun entry hentry => (hsource row hrow entry hentry).2) h
    obtain ⟨_, _, hc, h⟩ := fits_bind
      (renderInsertConflict_fits hproper.conflictTarget hproper.conflictAssignments) (quoted_bind h)
    cases h
    rw [quoteColumns_ok hquoted]
    have hcolumns : ∀ column ∈ (rows.headD []).map Prod.fst, Plain column := by
      intro column hcolumn
      obtain ⟨entry, hentry, rfl⟩ := mem_map.1 hcolumn
      cases rows with
      | nil => cases hentry
      | cons first => exact (hsource first mem_cons_self entry hentry).1
    exact ((hg.join (by decide)).append hc).after
      (plain_insertInto hproper.table.1 hcolumns (by decide))

lemma Insert.render_fits {statement : Insert V} (hproper : statement.Proper)
    (h : statement.render visitor ofInt = .ok r) :
    Fits r.1 r.2 (statement.layout visitor ofInt) (statement.lost visitor ofInt) := by
  obtain ⟨-, -, h⟩ := except_bind_eq_ok.1 h
  obtain ⟨_, _, hbody, h⟩ := fits_bind (Insert.renderBody_fits hproper) h
  obtain ⟨_, _, hreturned, h⟩ := fits_bind (renderReturning_fits hproper.returning) h
  obtain ⟨_, _, hc, h⟩ :=
    fitsAll_bind (Arel.render_fits visitor ofInt statement.ctes none hproper.ctes) h
  cases h
  exact (hc.cte _).append (hbody.append hreturned)

lemma Update.render_fits {statement : Update V} (hproper : statement.Proper)
    (h : statement.render visitor ofInt = .ok r) :
    Fits r.1 r.2 (statement.layout visitor ofInt) (statement.lost visitor ofInt) := by
  obtain ⟨-, -, h⟩ := except_bind_eq_ok.mp h
  split at h
  · cases h
  split at h
  · cases h
  obtain ⟨_, _, ha, h⟩ := fitsAll_bind (renderAssignments_fits hproper.assignments) h
  replace h := quoted_bind h
  obtain ⟨_, _, hw, h⟩ :=
    fitsAll_bind (Arel.render_fits visitor ofInt statement.predicates none hproper.predicates) h
  obtain ⟨_, _, hreturned, h⟩ := fits_bind (renderReturning_fits hproper.returning) h
  obtain ⟨_, _, hc, h⟩ :=
    fitsAll_bind (Arel.render_fits visitor ofInt statement.ctes none hproper.ctes) h
  cases h
  have hset := (ha.join (show Plain (lit ", ") by decide)).append
    ((hw.clause (show Plain (lit " WHERE ") by decide) (show Plain (lit " AND ") by decide)).append
      hreturned)
  exact (hc.cte _).append (hset.after (Plain.append (by decide)
    ((plain_quotedText hproper.table.1).append (by decide))))

/-- Every statement fits its layout. -/
lemma Statement.render_fits {statement : Statement V} (hproper : statement.Proper)
    (h : statement.render visitor ofInt = .ok r) :
    Fits r.1 r.2 (statement.layout visitor ofInt) (statement.lost visitor ofInt) := by
  cases statement with
  | select query => exact Arel.render_fits visitor ofInt query none hproper h
  | insert => exact Insert.render_fits hproper h
  | update => exact Update.render_fits hproper h

end

/-! ## Placeholders of a statement -/

/-- The placeholders of a text, which are the holes of a layout, get the values in the holes. -/
structure Bound (pieces : List (Piece V)) (sql : Bytes) (params : List V) : Prop where
  count : sql.count mark = params.length
  spelled : spell pieces = sql
  holes : ∀ c, .char c ∈ pieces → c ≠ mark
  values : values pieces = params

/-- The marks in a text are those of its values. -/
lemma count_spell {pieces : List (Piece V)} (h : ∀ c, .char c ∈ pieces → c ≠ mark) :
    (spell pieces).count mark = (values pieces).length := by
  induction pieces with
  | nil => rfl
  | cons piece pieces ih =>
    have hrest := ih fun c hc => h c (mem_cons_of_mem _ hc)
    cases piece with
    | char c =>
      have hc := h c mem_cons_self
      rw [spell, map_cons]
      change (c :: spell pieces).count mark = (values pieces).length
      rw [count_cons_of_ne hc, hrest]
    | hole value =>
      change (mark :: spell pieces).count mark = (value :: values pieces).length
      rw [count_cons_self, hrest, length_cons]

/-- The placeholders that a visitor writes are as many as the values it returns, each with the value
that stands there in the tree, just if no value is bound in the left side of a membership in an empty
list. -/
theorem statement_bound_iff (visitor : Visitor) (ofInt : ℤ → V) (statement : Statement V)
    (hproper : statement.Proper) {sql : Bytes} {params : List V}
    (h : statement.render visitor ofInt = .ok (sql, params)) :
    Bound (statement.layout visitor ofInt) sql params ↔ statement.lost visitor ofInt = 0 := by
  have hfits : Fits sql params _ _ := Statement.render_fits hproper h
  have hcount : sql.count mark = (values (statement.layout visitor ofInt)).length := by
    rw [← hfits.spelled]
    exact count_spell hfits.marked
  constructor
  · intro hbound
    have hlength := hfits.count
    rw [← hbound.count, hcount] at hlength
    omega
  · intro hzero
    have hvalues := hfits.order hzero
    refine ⟨?_, hfits.spelled, hfits.marked, hvalues.symm⟩
    rw [hcount, hvalues]

def users : Table := ⟨lit "users", none⟩

lemma users_proper : users.Proper := by
  refine ⟨by decide, fun a ha => ?_⟩
  cases ha

/-- `Query.for_table(users).where(users.column("id").eq(7)).skip(2)` -/
def boundQuery : Statement ℤ :=
  .select (.select .noCte false (.cons (.string (lit "*")) .nil)
    (.tableSource users true) .noJoin []
    (.cons (.predicate (.attributeNode users (lit "id")) (lit "=") (.value 7)) .nil)
    .nil .nil .nil none (some 2) true)

/-- A query with a limit: each of its two marks is bound to its value. -/
theorem statement_bound_iff_users : Bound (boundQuery.layout sqliteVisitor id)
      (lit "SELECT * FROM \"users\" WHERE \"users\".\"id\" = ? LIMIT -1 OFFSET ?") [7, 2] :=
  (statement_bound_iff sqliteVisitor id boundQuery
    ⟨trivial, ⟨(by decide : Plain (lit "*")), trivial⟩, users_proper, trivial,
      ⟨⟨⟨users_proper, by decide⟩, by decide, trivial⟩, trivial⟩, trivial, trivial, trivial⟩ rfl).2 rfl

/-- `Query.for_table(users)`, where `COALESCE(users.column("id") + 5)` is in an empty list. -/
def lostQuery : Statement ℤ :=
  .select (.select .noCte false (.cons (.string (lit "*")) .nil)
    (.tableSource users true) .noJoin []
    (.cons (.membership (.function (lit "COALESCE") (.cons (.binaryBound
      (.attributeNode users (lit "id")) (lit "+") 5) .nil) false) [] false) .nil)
    .nil .nil .nil none none true)

/-- The value 5 is returned, and no placeholder is written. -/
theorem lostQuery_unbound : lostQuery.Proper ∧
      lostQuery.render sqliteVisitor id = .ok (lit "SELECT * FROM \"users\" WHERE 1 = 0", [5]) ∧
      lostQuery.render postgresqlVisitor id = .ok (lit "SELECT * FROM \"users\" WHERE 1 = 0", [5]) ∧
      (lit "SELECT * FROM \"users\" WHERE 1 = 0").count mark ≠ [(5 : ℤ)].length := by
  refine ⟨⟨trivial, ⟨(by decide : Plain (lit "*")), trivial⟩, users_proper, trivial, ⟨?_, trivial⟩,
    trivial, trivial, trivial⟩, rfl, rfl, by decide⟩
  exact ⟨by decide, ⟨⟨users_proper, by decide⟩, by decide⟩, trivial⟩

end Diamond.Arel
