/-
# The repository of a generated resource

`tools/resource_generator/src/persistence.rs`: the migration that creates the table of a
resource, and the statements and binds of the repository that reads and writes it.

The statements are data with their text (`Statement.toSql`), and so are the bound
expressions (`Bind.text`).  The loops over the fields number the placeholders and write the
binds apart from each other; both come out in the order of the columns (`LinedUp`).
-/

import Hegira.Generator.Specification

namespace Hegira
namespace Generator

/-! ### The migration -/

/-- `sql_type`. -/
def sqlType : ScalarType → SelectedDatabase → String
  | .string, .postgres => "TEXT"
  | .bool, .postgres => "BOOLEAN"
  | .i64, .postgres => "BIGINT"
  | .uuid, .postgres => "UUID"
  | .dateTime, .postgres => "TIMESTAMPTZ"
  | .string, .sqlite => "TEXT"
  | .bool, .sqlite | .i64, .sqlite => "INTEGER"
  | .uuid, .sqlite => "BLOB"
  | .dateTime, .sqlite => "TEXT"

/-- A column of the created table. -/
structure Column where
  name : String
  type : String
  primaryKey : Bool
  notNull : Bool
  /-- Whether only 0 and 1 are allowed, beside NULL where that is. -/
  bit : Bool
  deriving DecidableEq

namespace Column

def check (column : Column) : String :=
  if !column.bit then ""
  else if column.notNull then " CHECK (" ++ column.name ++ " IN (0, 1))"
  else " CHECK (" ++ column.name ++ " IS NULL OR " ++ column.name ++ " IN (0, 1))"

def toSql (column : Column) : String :=
  column.name ++ " " ++ column.type ++ (if column.primaryKey then " PRIMARY KEY" else "")
    ++ (if column.notNull then " NOT NULL" else "") ++ column.check

end Column

def idColumn (database : SelectedDatabase) : Column where
  name := "id"
  type := sqlType .uuid database
  primaryKey := true
  notNull := false
  bit := false

def ResourceField.column (database : SelectedDatabase) (field : ResourceField) : Column where
  name := field.name
  type := sqlType field.scalar database
  primaryKey := false
  notNull := !field.nullable
  bit := database = .sqlite && field.scalar = .bool

/-- The columns that `schema_migration` creates. -/
def schemaColumns (specification : ResourceSpecification) : List Column :=
  idColumn specification.selection.database ::
    specification.fields.map (ResourceField.column specification.selection.database)

def schemaMigration (specification : ResourceSpecification) : String :=
  let permissions := PermissionAction.all.map specification.names.permission
  "CREATE TABLE " ++ specification.names.databaseTable ++ " (\n    "
    ++ ",\n    ".intercalate ((schemaColumns specification).map Column.toSql) ++ "\n);\n\n"
    ++ "INSERT INTO permissions (name) VALUES\n"
    ++ ",\n".intercalate (permissions.map fun permission => "    ('" ++ permission ++ "')") ++ "\n"
    ++ "ON CONFLICT (name) DO NOTHING;\n\n"
    ++ "INSERT INTO role_permissions (role_name, permission_name) VALUES\n"
    ++ ",\n".intercalate (permissions.map fun permission => "    ('admin', '" ++ permission ++ "')")
    ++ "\n" ++ "ON CONFLICT (role_name, permission_name) DO NOTHING;\n"

/-! ### Statements -/

def placeholder (database : SelectedDatabase) (index : ℕ) : String :=
  match database with
  | .postgres => "$" ++ toString index
  | .sqlite => "?" ++ toString index

/-- The statements of a repository, with the numbers of their placeholders. -/
inductive Statement where
  | count
  | list (columns : List String) (limit offset : ℕ)
  | find (columns : List String) (id : ℕ)
  | insert (columns : List String) (values : List ℕ) (returning : List String)
  | update (assignments : List (String × ℕ)) (id : ℕ) (returning : List String)
  | delete (id : ℕ)
  deriving DecidableEq

def Statement.toSql (database : SelectedDatabase) (table : String) : Statement → String
  | .count => "SELECT COUNT(*) FROM " ++ table
  | .list columns limit offset =>
      "SELECT " ++ ", ".intercalate columns ++ " FROM " ++ table ++ " ORDER BY id LIMIT "
        ++ placeholder database limit ++ " OFFSET " ++ placeholder database offset
  | .find columns id =>
      "SELECT " ++ ", ".intercalate columns ++ " FROM " ++ table ++ " WHERE id = "
        ++ placeholder database id
  | .insert columns values returning =>
      "INSERT INTO " ++ table ++ " (" ++ ", ".intercalate columns ++ ") VALUES ("
        ++ ", ".intercalate (values.map (placeholder database)) ++ ") RETURNING "
        ++ ", ".intercalate returning
  | .update assignments id returning =>
      "UPDATE " ++ table ++ " SET "
        ++ ", ".intercalate (assignments.map fun assignment =>
            assignment.1 ++ " = " ++ placeholder database assignment.2)
        ++ " WHERE id = " ++ placeholder database id ++ " RETURNING " ++ ", ".intercalate returning
  | .delete id => "DELETE FROM " ++ table ++ " WHERE id = " ++ placeholder database id

/-- The expressions that are bound. -/
inductive Bind where
  | limit
  | offset
  /-- The argument of `find` and `delete`. -/
  | argument
  | identifier
  | field (name : String)
  deriving DecidableEq

def Bind.text : Bind → String
  | .limit => "i64::from(query.limit)"
  | .offset => "offset"
  | .argument => "id.into_inner()"
  | .identifier => "entity.id.into_inner()"
  | .field name => "&entity." ++ name

structure Query where
  statement : Statement
  binds : List Bind
  deriving DecidableEq

/-- `write_binds`. -/
def writeBinds (fields : List ResourceField) : List Bind :=
  fields.map fun field => .field field.name

/-- The columns that the statements name. -/
def columnNames (specification : ResourceSpecification) : List String :=
  "id" :: specification.fields.map ResourceField.name

section Queries

variable (specification : ResourceSpecification)

def countQuery : Query := ⟨.count, []⟩

def listQuery : Query := ⟨.list (columnNames specification) 1 2, [.limit, .offset]⟩

def findQuery : Query := ⟨.find (columnNames specification) 1, [.argument]⟩

def insertQuery : Query where
  statement :=
    let values := 1 :: List.range' 2 specification.fields.length
    .insert (columnNames specification) values (columnNames specification)
  binds := .identifier :: writeBinds specification.fields

def updateQuery : Query where
  statement :=
    let assignments := specification.fields.zipIdx.map fun (field, index) => (field.name, index + 1)
    .update assignments (specification.fields.length + 1) (columnNames specification)
  binds := writeBinds specification.fields ++ [.identifier]

def deleteQuery : Query := ⟨.delete 1, [.argument]⟩

/-- The queries of the repository. -/
def repositoryQueries : List Query :=
  [countQuery, listQuery specification, findQuery specification, insertQuery specification,
    updateQuery specification, deleteQuery]

end Queries

/-! ### The row -/

/-- The type that `write_fields` gives a scalar. -/
def ScalarType.rustType : ScalarType → String
  | .string => "String"
  | .bool => "bool"
  | .i64 => "i64"
  | .uuid => "Uuid"
  | .dateTime => "DateTime<Utc>"

/-- A field of the row struct; where it is nullable its type is an `Option`. -/
structure RowField where
  name : String
  base : String
  nullable : Bool
  deriving DecidableEq

def RowField.text (field : RowField) : String :=
  field.name ++ ": " ++ (if field.nullable then "Option<" ++ field.base ++ ">" else field.base) ++ ","

/-- `write_fields`. -/
def writeFields (fields : List ResourceField) : List RowField :=
  fields.map fun field => ⟨field.name, field.scalar.rustType, field.nullable⟩

def rowStruct (specification : ResourceSpecification) : List RowField :=
  ⟨"id", "Uuid", false⟩ :: writeFields specification.fields

/-! ### What the placeholders stand for -/

/-- What a statement uses a value for. -/
inductive Target where
  | column (name : String)
  | limit
  | offset
  deriving DecidableEq

/-- The placeholders of a statement with what they stand for. -/
def Statement.targets : Statement → List (ℕ × Target)
  | .count => []
  | .list _ limit offset => [(limit, .limit), (offset, .offset)]
  | .find _ id | .delete id => [(id, .column "id")]
  | .insert columns values _ => values.zip (columns.map .column)
  | .update assignments id _ =>
      assignments.map (fun assignment => (assignment.2, .column assignment.1)) ++ [(id, .column "id")]

/-- The columns whose values are those of a bound expression. -/
def Bind.target : Bind → Target
  | .limit => .limit
  | .offset => .offset
  | .argument | .identifier => .column "id"
  | .field name => .column name

/-- A statement names all the columns of the table, where it names columns: those it
gives values, with the identifier that an update has, and those it returns. -/
def Statement.Names (columns : List String) : Statement → Prop
  | .count => True
  | .list named _ _ | .find named _ => named = columns
  | .insert named values returning => named = columns ∧ values.length = named.length ∧
      returning = columns
  | .update assignments _ returning => "id" :: assignments.map Prod.fst = columns ∧
      returning = columns
  | .delete _ => "id" ∈ columns

/-- The binds of a query are those its placeholders ask for. -/
structure Query.LinedUp (query : Query) (columns : List String) : Prop where
  /-- The placeholders are `1..n`, each once. -/
  placeholders : ∀ k, (query.statement.targets.map Prod.fst).count k =
    if 1 ≤ k ∧ k ≤ query.binds.length then 1 else 0
  binds : ∀ k target, (k, target) ∈ query.statement.targets →
    query.binds[k - 1]?.map Bind.target = some target
  columns : query.statement.Names columns

/-! ### The queries line up -/

section Alignment

variable {specification : ResourceSpecification}

/-- Targets numbered in turn name each bind once. -/
theorem placeholders_of_range {targets : List (ℕ × Target)} {n : ℕ}
    (h : targets.map Prod.fst = List.range' 1 n) (k : ℕ) :
    (targets.map Prod.fst).count k = if 1 ≤ k ∧ k ≤ n then 1 else 0 := by
  rw [h, List.count_range_1']
  congr 1
  rw [eq_iff_iff]
  omega

/-- Numbered in turn, the placeholders meet the binds in turn. -/
theorem binds_of_range {targets : List (ℕ × Target)} {binds : List Bind}
    (h : targets.map Prod.fst = List.range' 1 binds.length)
    (htargets : targets.map Prod.snd = binds.map Bind.target) (k : ℕ) (target : Target)
    (hk : (k, target) ∈ targets) : binds[k - 1]?.map Bind.target = some target := by
  obtain ⟨i, hi, hget⟩ := List.getElem_of_mem hk
  have hfst := congrArg (fun l => l[i]?) h
  have hsnd := congrArg (fun l => l[i]?) htargets
  have hlength : i < binds.length := by
    have := congrArg List.length h
    rw [List.length_map, List.length_range'] at this
    omega
  simp only [List.getElem?_map, List.getElem?_eq_getElem hi, hget, Option.map_some] at hfst hsnd
  rw [List.getElem?_range' hlength, Option.some_inj] at hfst
  rw [hfst, show 1 + 1 * i - 1 = i by omega]
  exact hsnd.symm

/-- Such a query binds its columns in order. -/
theorem Query.lined_up {query : Query} {columns : List String}
    (h : query.statement.targets.map Prod.fst = List.range' 1 query.binds.length)
    (htargets : query.statement.targets.map Prod.snd = query.binds.map Bind.target)
    (hcolumns : query.statement.Names columns) : query.LinedUp columns :=
  ⟨placeholders_of_range h, binds_of_range h htargets, hcolumns⟩

/-- The loop over the assignments numbers the fields from the next index on. -/
theorem zipIdx_fields (fields : List ResourceField) (k : ℕ) :
    ((fields.zipIdx k).map fun (field, index) => (field.name, index + 1)) =
      (fields.map ResourceField.name).zip (List.range' (k + 1) fields.length) := by
  induction fields generalizing k with
  | nil => rfl
  | cons field fields ih =>
      rw [List.zipIdx_cons, List.map_cons, ih, List.length_cons, List.range'_succ, List.map_cons,
        List.zip_cons_cons]

/-- The insert does. -/
theorem insertQuery_lined_up : (insertQuery specification).LinedUp (columnNames specification) := by
  have hlength : (1 :: List.range' 2 specification.fields.length).length =
      ((columnNames specification).map Target.column).length := by simp [columnNames]
  refine Query.lined_up ?_ ?_ ⟨rfl, by simp [columnNames], rfl⟩
  · show ((1 :: List.range' 2 specification.fields.length).zip _).map Prod.fst = _
    rw [List.map_fst_zip hlength.le]
    simp [insertQuery, writeBinds, List.range'_succ]
  · show ((1 :: List.range' 2 specification.fields.length).zip _).map Prod.snd = _
    rw [List.map_snd_zip hlength.ge]
    simp [insertQuery, writeBinds, columnNames, Bind.target]

theorem updateQuery_lined_up : (updateQuery specification).LinedUp (columnNames specification) := by
  have hassignments := zipIdx_fields specification.fields 0
  have hlength : (specification.fields.map ResourceField.name).length =
      (List.range' 1 specification.fields.length).length := by simp
  have hnames := List.map_fst_zip hlength.le
  have hindices := List.map_snd_zip hlength.ge
  refine Query.lined_up ?_ ?_ ⟨?_, rfl⟩
  · simp only [updateQuery, Statement.targets, hassignments, List.map_append, List.map_map]
    rw [show Prod.fst ∘ (fun assignment : String × ℕ => (assignment.2, Target.column assignment.1)) =
      Prod.snd from rfl, hindices]
    simp [writeBinds, List.range'_concat, Nat.add_comm]
  · simp only [updateQuery, Statement.targets, hassignments, List.map_append, List.map_map]
    rw [show Prod.snd ∘ (fun assignment : String × ℕ => (assignment.2, Target.column assignment.1)) =
      Target.column ∘ Prod.fst from rfl, ← List.map_map, hnames]
    simp [writeBinds, Bind.target]
  · show "id" :: (specification.fields.zipIdx.map _).map Prod.fst = _
    rw [hassignments, hnames, columnNames]

/-- **Every query** of the repository does. -/
theorem repositoryQueries_lined_up :
    ∀ query ∈ repositoryQueries specification, query.LinedUp (columnNames specification) := by
  have hcount : countQuery.LinedUp (columnNames specification) := Query.lined_up rfl rfl trivial
  have hlist : (listQuery specification).LinedUp (columnNames specification) :=
    Query.lined_up rfl rfl rfl
  have hfind : (findQuery specification).LinedUp (columnNames specification) :=
    Query.lined_up rfl rfl rfl
  have hdelete : deleteQuery.LinedUp (columnNames specification) :=
    Query.lined_up rfl rfl List.mem_cons_self
  simp only [repositoryQueries, List.forall_mem_cons]
  exact ⟨hcount, hlist, hfind, insertQuery_lined_up, updateQuery_lined_up, hdelete, by simp⟩

end Alignment

end Generator
end Hegira
