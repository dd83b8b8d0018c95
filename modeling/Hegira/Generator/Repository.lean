/-
# Records in the table of a resource

The repository of a generated resource at work: its queries run on the table that its
migration creates, and rows are read as records.

The database and its driver are a parameter (`Sqlx`), of which the types of the columns are
known to give the values of the scalars back, except that PostgreSQL keeps timestamps in
whole microseconds (`Returned`).  What an entity is stored as is read back as the entity,
column by column (`readFields_of_hold`), unless SQLite reads the name of a column as its
clock (`clockNames`) or PostgreSQL returns the column under a shorter name (`identifier`):
an entity comes back when no field has such a name and PostgreSQL loses nothing of its
timestamps (`returnsFields_iff`).
-/

import Hegira.Generator.Persistence
import Hegira.Library.AssocList

namespace Hegira
namespace Generator

/-! ### Values -/

abbrev Uuid := BitVec 128

/-- A value of a scalar type; a timestamp is in nanoseconds. -/
inductive ScalarValue where
  | string (text : String)
  | bool (value : Bool)
  | i64 (value : Int64)
  | uuid (value : Uuid)
  | dateTime (nanoseconds : ℤ)
  deriving DecidableEq

def ScalarValue.scalar : ScalarValue → ScalarType
  | .string _ => .string
  | .bool _ => .bool
  | .i64 _ => .i64
  | .uuid _ => .uuid
  | .dateTime _ => .dateTime

/-- A value that a field can have. -/
structure ResourceField.Fits (field : ResourceField) (value : Option ScalarValue) : Prop where
  null : value = none → field.nullable = true
  scalar : ∀ v, value = some v → v.scalar = field.scalar

/-- The identifier and the values of the fields in their order. -/
structure Record where
  id : Uuid
  values : List (Option ScalarValue)
  deriving DecidableEq

structure Entity (fields : List ResourceField) extends Record where
  fits : List.Forall₂ ResourceField.Fits fields values

/-- A value that was stored and what is read of it.  PostgreSQL keeps timestamps in whole
microseconds. -/
inductive Returned : SelectedDatabase → ScalarValue → ScalarValue → Prop
  | same {database : SelectedDatabase} {value : ScalarValue}
      (h : database = .postgres → value.scalar ≠ .dateTime) : Returned database value value
  | rounded {t t' : ℤ} (hmicro : 1000 ∣ t') (hnear : |t' - t| < 1000) :
      Returned .postgres (.dateTime t) (.dateTime t')

/-- The names that SQLite takes for a column where one is created or written, and for its
clock where one is read. -/
def clockNames : List String := ["current_date", "current_time", "current_timestamp"]

/-- What a database makes of the name of a column, of ASCII: PostgreSQL keeps 63 bytes. -/
def identifier (database : SelectedDatabase) (name : String) : String :=
  match database with
  | .postgres => String.ofList (name.toList.take 63)
  | .sqlite => name

/-- The database behind its driver. -/
structure Sqlx where
  /-- What a column holds where it is not NULL. -/
  Cell : Type
  /-- Whether a statement is taken. -/
  prepares : SelectedDatabase → String → Bool
  /-- What a column of a type comes to hold of a value, if it takes it. -/
  holds : SelectedDatabase → String → ScalarValue → Option Cell
  /-- What is read of a cell as a Rust type. -/
  reads : SelectedDatabase → String → Cell → Option ScalarValue
  equals : Cell → ScalarValue → Bool
  isBit : Cell → Bool
  /-- The order of the cells of a column. -/
  before : Cell → Cell → Bool
  /-- What SQLite reads for the name of a clock, at a time. -/
  clock : String → ℕ → Cell
  string : ∀ {database text cell}, holds database "TEXT" (.string text) = some cell →
    reads database "String" cell = some (.string text)
  postgresBool : ∀ {value cell}, holds .postgres "BOOLEAN" (.bool value) = some cell →
    reads .postgres "bool" cell = some (.bool value)
  sqliteBool : ∀ {value cell}, holds .sqlite "INTEGER" (.bool value) = some cell →
    reads .sqlite "bool" cell = some (.bool value)
  postgresI64 : ∀ {value cell}, holds .postgres "BIGINT" (.i64 value) = some cell →
    reads .postgres "i64" cell = some (.i64 value)
  sqliteI64 : ∀ {value cell}, holds .sqlite "INTEGER" (.i64 value) = some cell →
    reads .sqlite "i64" cell = some (.i64 value)
  postgresUuid : ∀ {value cell}, holds .postgres "UUID" (.uuid value) = some cell →
    reads .postgres "Uuid" cell = some (.uuid value) ∧
      ∀ other, equals cell (.uuid other) = decide (value = other)
  sqliteUuid : ∀ {value cell}, holds .sqlite "BLOB" (.uuid value) = some cell →
    reads .sqlite "Uuid" cell = some (.uuid value) ∧
      ∀ other, equals cell (.uuid other) = decide (value = other)
  postgresDateTime : ∀ {t cell}, holds .postgres "TIMESTAMPTZ" (.dateTime t) = some cell →
    ∃ t', reads .postgres "DateTime<Utc>" cell = some (.dateTime t') ∧ 1000 ∣ t' ∧ |t' - t| < 1000
  sqliteDateTime : ∀ {t cell}, holds .sqlite "TEXT" (.dateTime t) = some cell →
    reads .sqlite "DateTime<Utc>" cell = some (.dateTime t)
  /-- A clock does not stand still. -/
  clockMoves : ∀ {name}, name ∈ clockNames → ∀ type value,
    ∃ now, reads .sqlite type (clock name now) ≠ some value

/-! ### Running the queries -/

namespace Sqlx

variable (S : Sqlx) (database : SelectedDatabase) (now : ℕ)

/-- A row of the table: its columns with what they hold. -/
abbrev Row := List (String × Option S.Cell)

inductive Answer where
  | total (count : ℕ)
  | rows (rows : List S.Row)
  | affected (count : ℕ)

/-- What a column holds of a value; an identifier is never NULL. -/
def hold (column : Column) : Option ScalarValue → Option (Option S.Cell)
  | none => if column.notNull then none else some none
  | some value => do
      let cell ← S.holds database column.type value
      if column.bit && !S.isBit cell then none else some (some cell)

/-- The value that is bound to a placeholder. -/
def bound (values : List (Option ScalarValue)) (index : ℕ) : Option (Option ScalarValue) :=
  if index = 0 then none else values[index - 1]?

def hasId (id : Option ScalarValue) (row : S.Row) : Bool :=
  match row.lookup "id", id with
  | some (some cell), some value => S.equals cell value
  | _, _ => false

/-- What a column name gives where it is read. -/
def shown (name : String) (cell : Option S.Cell) : Option S.Cell :=
  if database = .sqlite ∧ name ∈ clockNames then some (S.clock name now) else cell

def project (columns : List String) (row : S.Row) : Option S.Row :=
  columns.mapM fun name =>
    (row.lookup name).map fun cell => (identifier database name, S.shown database now name cell)

/-- A new row; a column without a value is NULL. -/
def create (schema : List Column) (assigned : List (String × Option ScalarValue)) : Option S.Row :=
  schema.mapM fun column =>
    (S.hold database column (assigned.lookup column.name).join).map (column.name, ·)

/-- A row with new values in some columns. -/
def change (schema : List Column) (assigned : List (String × Option ScalarValue)) (row : S.Row) :
    Option S.Row :=
  schema.mapM fun column =>
    match assigned.lookup column.name with
    | some value => (S.hold database column value).map (column.name, ·)
    | none => (row.lookup column.name).map (column.name, ·)

def earlier (row row' : S.Row) : Bool :=
  match row.lookup "id", row'.lookup "id" with
  | some (some cell), some (some cell') => S.before cell cell'
  | _, _ => true

/-- A statement on a table, at a time, with the values that are bound; `none` where it fails. -/
def run (schema : List Column) (values : List (Option ScalarValue)) (table : List S.Row) :
    Statement → Option (List S.Row × S.Answer)
  | .count => some (table, .total table.length)
  | .list columns limit offset => do
      let some (.i64 limit) ← bound values limit | none
      let some (.i64 offset) ← bound values offset | none
      let page := ((table.mergeSort S.earlier).drop offset.toInt.toNat).take limit.toInt.toNat
      return (table, .rows (← page.mapM (S.project database now columns)))
  | .find columns id => do
      let id ← bound values id
      return (table, .rows (← (table.filter (S.hasId id)).mapM (S.project database now columns)))
  | .insert columns placeholders returning => do
      let given ← placeholders.mapM (bound values)
      let assigned := columns.zip given
      let row ← S.create database schema assigned
      if table.any (S.hasId (assigned.lookup "id").join) then none
      else return (table ++ [row], .rows [← S.project database now returning row])
  | .update assignments id returning => do
      let id ← bound values id
      let assigned ← assignments.mapM fun (name, index) => (bound values index).map (name, ·)
      let changed ← (table.filter (S.hasId id)).mapM (S.change database schema assigned)
      let table ← table.mapM fun row =>
        if S.hasId id row then S.change database schema assigned row else some row
      return (table, .rows (← changed.mapM (S.project database now returning)))
  | .delete id => do
      let id ← bound values id
      return (table.filter (!S.hasId id ·), .affected (table.filter (S.hasId id)).length)

/-- A field of the row struct, read from its column. -/
def readField (field : ResourceField) : Option S.Cell → Option (Option ScalarValue)
  | none => if field.nullable then some none else none
  | some cell => (S.reads database field.scalar.rustType cell).map some

/-- `FromRow` of the row struct, and the entity of the row. -/
def fromRow (fields : List ResourceField) (row : S.Row) : Option Record := do
  let some cell ← row.lookup "id" | none
  let some (.uuid id) := S.reads database "Uuid" cell | none
  let values ← fields.mapM fun field => (row.lookup field.name).bind (S.readField database field)
  return ⟨id, values⟩

end Sqlx

/-- The value of a bound expression, with the record and the page that the method was
called with. -/
def Bind.value (fields : List ResourceField) (record : Record) (limit : UInt32) (offset : Int64) :
    Bind → Option ScalarValue
  | .limit => some (.i64 limit.toUInt64.toInt64)
  | .offset => some (.i64 offset)
  | .argument | .identifier => some (.uuid record.id)
  | .field name => (((fields.map ResourceField.name).zip record.values).lookup name).join

namespace SqlxRepository

variable (S : Sqlx) (specification : ResourceSpecification) (now : ℕ)

/-- A query of the repository on its table, with the record it is called with. -/
def execute (query : Query) (record : Record) (table : List S.Row) :
    Option (List S.Row × S.Answer) :=
  let database := specification.selection.database
  if S.prepares database (query.statement.toSql database specification.names.databaseTable) then
    S.run database now (schemaColumns specification)
      (query.binds.map (Bind.value specification.fields record 0 0)) table query.statement
  else none

/-- The first row of an answer, as `fetch_optional` gives it. -/
def fetched (answer : S.Answer) : Option (Option Record) :=
  match answer with
  | .rows rows => rows.head?.mapM (S.fromRow specification.selection.database specification.fields)
  | _ => none

def insert (entity : Record) (table : List S.Row) : Option (List S.Row × Record) := do
  let (table, answer) ← execute S specification now (insertQuery specification) entity table
  let some record ← fetched S specification answer | none
  return (table, record)

def find (id : Uuid) (table : List S.Row) : Option (Option Record) := do
  let (_, answer) ← execute S specification now (findQuery specification) ⟨id, []⟩ table
  fetched S specification answer

def update (entity : Record) (table : List S.Row) : Option (List S.Row × Option Record) := do
  let (table, answer) ← execute S specification now (updateQuery specification) entity table
  return (table, ← fetched S specification answer)

def delete (id : Uuid) (table : List S.Row) : Option (List S.Row × Bool) := do
  let (table, .affected count) ← execute S specification now deleteQuery ⟨id, []⟩ table | none
  return (table, count == 1)

end SqlxRepository

/-- The tables that the repository makes.  A statement has written what it has written, also
where the row it returns is not read. -/
inductive Stored (S : Sqlx) (specification : ResourceSpecification) : List S.Row → Prop
  | empty : Stored S specification []
  | insert {now : ℕ} {table table' : List S.Row} {entity : Entity specification.fields}
      {answer : S.Answer} (h : Stored S specification table)
      (hinsert : SqlxRepository.execute S specification now (insertQuery specification)
        entity.toRecord table = some (table', answer)) : Stored S specification table'
  | update {now : ℕ} {table table' : List S.Row} {entity : Entity specification.fields}
      {answer : S.Answer} (h : Stored S specification table)
      (hupdate : SqlxRepository.execute S specification now (updateQuery specification)
        entity.toRecord table = some (table', answer)) : Stored S specification table'
  | delete {now : ℕ} {table table' : List S.Row} {id : Uuid} {answer : S.Answer}
      (h : Stored S specification table)
      (hdelete : SqlxRepository.execute S specification now deleteQuery ⟨id, []⟩ table =
        some (table', answer)) : Stored S specification table'

/-! ### Columns and rows -/

open Library (exists_of_mapM map_lookup_zip mapM_congr mapM_eq_some mapM_filter
  mapM_lookup_zip mapM_some mapM_tagged)

/-- Different types have different Rust types. -/
theorem ScalarType.rustType_injective : Function.Injective ScalarType.rustType := by
  intro scalar scalar' h
  cases scalar <;> cases scalar' <;> first | rfl | exact absurd h (by decide)

/-- The columns of the schema are those of the entity. -/
theorem schemaColumns_names (specification : ResourceSpecification) :
    (schemaColumns specification).map Column.name = columnNames specification := by
  simp [schemaColumns, columnNames, idColumn, ResourceField.column]

/-- An accepted resource has different columns. -/
theorem ResourceSpecification.Accepted.nodup_columns {specification : ResourceSpecification}
    (h : specification.Accepted) : (columnNames specification).Nodup := by
  refine List.nodup_cons.2 ⟨fun hmem => ?_, h.nodup⟩
  obtain ⟨field, hfield, hname⟩ := List.mem_map.1 hmem
  exact (h.valid field hfield).identifier hname

namespace Sqlx

variable {S : Sqlx} {database : SelectedDatabase} {now : ℕ}

/-- **A column of the type of a scalar gives its values back.** -/
theorem reads_of_holds {value : ScalarValue} {cell : S.Cell}
    (h : S.holds database (sqlType value.scalar database) value = some cell) :
    ∃ value', S.reads database value.scalar.rustType cell = some value' ∧
      Returned database value value' := by
  cases value with
  | string text =>
      have hread : S.reads database "String" cell = some (.string text) := by
        cases database <;> exact S.string h
      exact ⟨_, hread, .same fun _ => by simp [ScalarValue.scalar]⟩
  | bool value =>
      have hread : S.reads database "bool" cell = some (.bool value) := by
        cases database
        · exact S.postgresBool h
        · exact S.sqliteBool h
      exact ⟨_, hread, .same fun _ => by simp [ScalarValue.scalar]⟩
  | i64 value =>
      have hread : S.reads database "i64" cell = some (.i64 value) := by
        cases database
        · exact S.postgresI64 h
        · exact S.sqliteI64 h
      exact ⟨_, hread, .same fun _ => by simp [ScalarValue.scalar]⟩
  | uuid value =>
      have hread : S.reads database "Uuid" cell = some (.uuid value) := by
        cases database
        · exact (S.postgresUuid h).1
        · exact (S.sqliteUuid h).1
      exact ⟨_, hread, .same fun _ => by simp [ScalarValue.scalar]⟩
  | dateTime t =>
      cases database with
      | postgres =>
          obtain ⟨t', hread, hmicro, hnear⟩ := S.postgresDateTime h
          exact ⟨_, hread, .rounded hmicro hnear⟩
      | sqlite => exact ⟨_, S.sqliteDateTime h, .same nofun⟩

/-- The column of the identifiers gives them back, and tells them apart. -/
theorem uuid_of_holds {id : Uuid} {cell : S.Cell}
    (h : S.holds database (sqlType .uuid database) (.uuid id) = some cell) :
    S.reads database "Uuid" cell = some (.uuid id) ∧
      ∀ other, S.equals cell (.uuid other) = decide (id = other) := by
  cases database
  · exact S.postgresUuid h
  · exact S.sqliteUuid h

/-- A value that is stored is held in its type. -/
theorem holds_of_hold {column : Column} {value : ScalarValue} {held : Option S.Cell}
    (h : S.hold database column (some value) = some held) :
    ∃ cell, S.holds database column.type value = some cell ∧ held = some cell := by
  obtain ⟨cell, hcell, h⟩ := Option.bind_eq_some_iff.1 h
  split at h
  · cases h
  · exact ⟨cell, hcell, (Option.some.inj h).symm⟩

/-- A stored field is read back. -/
theorem readField_of_hold {field : ResourceField} {value : Option ScalarValue}
    {held : Option S.Cell} (hfits : field.Fits value)
    (h : S.hold database (field.column database) value = some held) :
    ∃ value', S.readField database field held = some value' ∧
      Option.Rel (Returned database) value value' := by
  cases value with
  | none =>
      have hnull := hfits.null rfl
      obtain rfl : none = held := by
        simpa [hold, ResourceField.column, hnull] using h
      exact ⟨none, by simp [readField, hnull], .none⟩
  | some value =>
      obtain ⟨cell, hcell, rfl⟩ := holds_of_hold h
      have hscalar := hfits.scalar value rfl
      have hcell : S.holds database (sqlType value.scalar database) value = some cell := by
        rw [hscalar]
        exact hcell
      obtain ⟨value', hread, hreturned⟩ := reads_of_holds hcell
      exact ⟨some value', by simp [readField, ← hscalar, hread], .some hreturned⟩

/-- **What the columns hold of the values of an entity is read back.** -/
theorem readFields_of_hold {fields : List ResourceField} {values : List (Option ScalarValue)}
    {cells : List (Option S.Cell)} (hfits : List.Forall₂ ResourceField.Fits fields values)
    (h : ((fields.map (ResourceField.column database)).zip values).mapM
      (fun p => S.hold database p.1 p.2) = some cells) :
    ∃ values', (fields.zip cells).mapM (fun p => S.readField database p.1 p.2) = some values' ∧
      List.Forall₂ (Option.Rel (Returned database)) values values' := by
  induction hfits generalizing cells with
  | nil => exact ⟨[], rfl, .nil⟩
  | @cons field value fields values hfit hfits ih =>
      rw [List.map_cons, List.zip_cons_cons, List.mapM_cons] at h
      obtain ⟨held, hheld, h⟩ := Option.bind_eq_some_iff.1 h
      obtain ⟨rest, hrest, h⟩ := Option.bind_eq_some_iff.1 h
      obtain rfl := Option.some.inj h
      obtain ⟨value', hread, hreturned⟩ := readField_of_hold hfit hheld
      obtain ⟨values', hreads, hall⟩ := ih hrest
      refine ⟨value' :: values', ?_, .cons hreturned hall⟩
      rw [List.zip_cons_cons, List.mapM_cons, hread, hreads]
      rfl

/-- A row is made of one value for each column. -/
theorem create_zip {schema : List Column} {values : List (Option ScalarValue)}
    (hnames : (schema.map Column.name).Nodup) (hlength : schema.length = values.length) :
    S.create database schema ((schema.map Column.name).zip values) =
      ((schema.zip values).mapM fun p => S.hold database p.1 p.2).map
        ((schema.map Column.name).zip ·) := by
  rw [← mapM_tagged (S.hold database) Column.name hlength]
  exact mapM_lookup_zip (F := fun column value =>
    (S.hold database column value.join).map (column.name, ·)) hnames hlength

/-- What is read of the cells of columns. -/
def seen (S : Sqlx) (database : SelectedDatabase) (now : ℕ) (names : List String)
    (cells : List (Option S.Cell)) : List (Option S.Cell) :=
  (names.zip cells).map fun p => S.shown database now p.1 p.2

/-- Where no clock is named, the cells are what is read. -/
theorem seen_eq {names : List String} {cells : List (Option S.Cell)}
    (hclock : database = .sqlite → ∀ name ∈ names, name ∉ clockNames)
    (hlength : names.length = cells.length) : S.seen database now names cells = cells := by
  have hshown : ∀ p ∈ names.zip cells, S.shown database now p.1 p.2 = p.2 := fun p hp =>
    if_neg fun h => hclock h.1 p.1 (List.of_mem_zip hp).1 h.2
  rw [seen, List.map_congr_left hshown]
  exact List.map_snd_zip hlength.ge

/-- All columns of a row in their order are what is read of the row. -/
theorem project_zip {names : List String} {cells : List (Option S.Cell)} (hnames : names.Nodup)
    (hlength : names.length = cells.length) :
    S.project database now names (names.zip cells) =
      some ((names.map (identifier database)).zip (S.seen database now names cells)) := by
  have hlookup := mapM_lookup_zip (F := fun name (cell : Option (Option S.Cell)) =>
    cell.map fun cell => (identifier database name, S.shown database now name cell))
      ((List.map_id names).symm ▸ hnames) hlength
  rw [List.map_id] at hlookup
  have htagged := mapM_tagged (fun name cell => some (S.shown database now name cell))
    (identifier database) hlength
  refine (hlookup.trans htagged).trans ?_
  have hall : ((names.zip cells).mapM fun p => some (S.shown database now p.1 p.2)) =
      some (S.seen database now names cells) := List.mapM_pure
  rw [hall]
  rfl

/-- A row whose fields are read is a record. -/
theorem fromRow_zip {fields : List ResourceField} {cell : S.Cell} {cells : List (Option S.Cell)}
    {id : Uuid} {values : List (Option ScalarValue)}
    (hnames : ("id" :: fields.map ResourceField.name).Nodup) (hlength : fields.length = cells.length)
    (hid : S.reads database "Uuid" cell = some (.uuid id))
    (hvalues : (fields.zip cells).mapM (fun p => S.readField database p.1 p.2) = some values) :
    S.fromRow database fields (("id", some cell) :: (fields.map ResourceField.name).zip cells) =
      some ⟨id, values⟩ := by
  obtain ⟨hfresh, hnames⟩ := List.nodup_cons.1 hnames
  have hlookup := mapM_lookup_zip (F := fun field (cell : Option (Option S.Cell)) =>
    cell.bind (S.readField database field)) hnames hlength
  have hfields : fields.mapM (fun field =>
      ((("id", some cell) :: (fields.map ResourceField.name).zip cells).lookup field.name).bind
        (S.readField database field)) = some values := by
    refine (mapM_congr fun field hfield => ?_).trans (hlookup.trans hvalues)
    have hne : (field.name == "id") = false :=
      beq_false_of_ne fun h => hfresh (h ▸ List.mem_map_of_mem hfield)
    rw [List.lookup_cons, hne]
  rw [fromRow, List.lookup_cons_self]
  simp only [hid, hfields, Option.bind_eq_bind, Option.bind_some]
  rfl

/-- The placeholders from 1 on are bound to the values in turn. -/
theorem mapM_bound (values rest : List (Option ScalarValue)) :
    (List.range' 1 values.length).mapM (bound (values ++ rest)) = some values := by
  refine mapM_eq_some.2 (List.forall₂_iff_get.2 ⟨by simp, fun i hi hi' => ?_⟩)
  simp only [List.get_eq_getElem, List.getElem_range', bound]
  rw [if_neg (by omega), show 1 + 1 * i - 1 = i by omega, List.getElem?_append_left hi',
    List.getElem?_eq_getElem hi']

end Sqlx

/-- The binds of a write are the values of the record. -/
theorem writeBinds_values {fields : List ResourceField} {record : Record} {limit : UInt32}
    {offset : Int64} (hnames : (fields.map ResourceField.name).Nodup)
    (hlength : fields.length = record.values.length) :
    (writeBinds fields).map (Bind.value fields record limit offset) = record.values := by
  have hkeys : (fields.map ResourceField.name).length = record.values.length := by
    rwa [List.length_map]
  have hlookup := map_lookup_zip hnames hkeys
  have hjoin := congrArg (List.map Option.join) hlookup
  simpa [writeBinds, Function.comp_def, Bind.value] using hjoin

/-! ### The repository -/

namespace SqlxRepository

variable {S : Sqlx} {specification : ResourceSpecification} {now : ℕ} {entity record : Record}
  {table table' : List S.Row} {cells : List (Option S.Cell)}

/-- What the columns of the table hold of a record. -/
def held (S : Sqlx) (specification : ResourceSpecification) (record : Record) :
    Option (List (Option S.Cell)) :=
  ((schemaColumns specification).zip (some (.uuid record.id) :: record.values)).mapM fun p =>
    S.hold specification.selection.database p.1 p.2

/-- The row that holds the cells. -/
def row (specification : ResourceSpecification) (cells : List (Option S.Cell)) : S.Row :=
  (columnNames specification).zip cells

/-- The row that is read of it. -/
def seenRow (specification : ResourceSpecification) (now : ℕ) (cells : List (Option S.Cell)) : S.Row :=
  ((columnNames specification).map (identifier specification.selection.database)).zip
    (S.seen specification.selection.database now (columnNames specification) cells)

/-- Every field is read from its column. -/
structure ReadsColumns (specification : ResourceSpecification) : Prop where
  clock : specification.selection.database = .sqlite →
    ∀ field ∈ specification.fields, field.name ∉ clockNames
  length : specification.selection.database = .postgres →
    ∀ field ∈ specification.fields, field.name.length ≤ 63

/-- A name that is short enough is kept. -/
theorem identifier_eq {name : String} {database : SelectedDatabase}
    (h : database = .postgres → name.length ≤ 63) : identifier database name = name := by
  cases database with
  | sqlite => rfl
  | postgres => rw [identifier, List.take_of_length_le (h rfl), String.ofList_toList]

/-- An identifier is at most 63 bytes long. -/
theorem length_identifier (name : String) : (identifier .postgres name).length ≤ 63 := by
  rw [identifier, String.length_ofList, List.length_take]
  exact Nat.min_le_left _ _

/-- Where names are columns, a row is seen as it is. -/
theorem seenRow_eq (hreads : ReadsColumns specification)
    (hlength : (columnNames specification).length = cells.length) :
    seenRow specification now cells = row specification cells := by
  have hcells : S.seen specification.selection.database now (columnNames specification) cells =
      cells :=
    Sqlx.seen_eq (fun hsqlite => List.forall_mem_cons.2
      ⟨by decide, List.forall_mem_map.2 (hreads.clock hsqlite)⟩) hlength
  have hidentifiers : ∀ name ∈ columnNames specification,
      identifier specification.selection.database name = name :=
    List.forall_mem_cons.2 ⟨identifier_eq fun _ => by decide,
      List.forall_mem_map.2 fun field hfield =>
        identifier_eq fun hpostgres => hreads.length hpostgres field hfield⟩
  rw [seenRow, hcells, List.map_congr_left hidentifiers, List.map_id']
  rfl

/-- A held entity has one cell for each column. -/
theorem length_of_held (hlength : specification.fields.length = entity.values.length)
    (h : held S specification entity = some cells) :
    (columnNames specification).length = cells.length := by
  have hforall := (mapM_eq_some.1 h).length_eq
  rw [List.length_zip, schemaColumns, List.length_cons, List.length_cons, List.length_map, hlength,
    Nat.min_self] at hforall
  rw [← hforall, columnNames, List.length_cons, List.length_map, hlength]

/-- What the insert statement does. -/
theorem run_insert (hnames : (columnNames specification).Nodup)
    (hlength : specification.fields.length = entity.values.length) :
    S.run specification.selection.database now (schemaColumns specification)
        ((insertQuery specification).binds.map (Bind.value specification.fields entity 0 0)) table
        (insertQuery specification).statement =
      (held S specification entity).bind fun cells =>
        if table.any (S.hasId (some (.uuid entity.id))) then none
        else some (table ++ [row specification cells], .rows [seenRow specification now cells]) := by
  have hvalues : (insertQuery specification).binds.map (Bind.value specification.fields entity 0 0) =
      some (.uuid entity.id) :: entity.values := by
    rw [insertQuery, List.map_cons, writeBinds_values (List.nodup_cons.1 hnames).2 hlength]
    rfl
  have hgiven : (1 :: List.range' 2 specification.fields.length).mapM
      (Sqlx.bound (some (.uuid entity.id) :: entity.values)) =
        some (some (.uuid entity.id) :: entity.values) := by
    have hall := Sqlx.mapM_bound (some (.uuid entity.id) :: entity.values) []
    rwa [List.append_nil, List.length_cons, ← hlength, List.range'_succ] at hall
  have hcolumns : (schemaColumns specification).length =
      (some (.uuid entity.id) :: entity.values).length := by simp [schemaColumns, hlength]
  have hcreate : S.create specification.selection.database (schemaColumns specification)
      (((schemaColumns specification).map Column.name).zip
        (some (.uuid entity.id) :: entity.values)) = _ :=
    Sqlx.create_zip ((schemaColumns_names specification).symm ▸ hnames) hcolumns
  rw [schemaColumns_names] at hcreate
  rw [hvalues]
  simp only [insertQuery, Sqlx.run, hgiven, Option.bind_eq_bind, Option.bind_some, hcreate]
  show ((held S specification entity).map _).bind _ = _
  cases hheld : held S specification entity with
  | none => rfl
  | some cells =>
      simp only [Option.map_some, Option.bind_some,
        Sqlx.project_zip hnames (length_of_held hlength hheld)]
      rfl

theorem execute_insert (hnames : (columnNames specification).Nodup)
    (hlength : specification.fields.length = entity.values.length) {answer : S.Answer} :
    execute S specification now (insertQuery specification) entity table = some (table', answer) ↔
      S.prepares specification.selection.database ((insertQuery specification).statement.toSql
        specification.selection.database specification.names.databaseTable) = true ∧
      table.any (S.hasId (some (.uuid entity.id))) = false ∧
      ∃ cells, held S specification entity = some cells ∧
        table' = table ++ [row specification cells] ∧
        answer = .rows [seenRow specification now cells] := by
  rw [execute, run_insert hnames hlength]
  cases hprepares : S.prepares specification.selection.database
    ((insertQuery specification).statement.toSql specification.selection.database
      specification.names.databaseTable) with
  | false => simp
  | true =>
      cases hheld : held S specification entity with
      | none => simp
      | some cells =>
          cases hany : table.any (S.hasId (some (.uuid entity.id))) with
          | true => simp
          | false => simp [eq_comm]

/-- When an insert succeeds, and with which record. -/
theorem insert_eq_some_iff (hnames : (columnNames specification).Nodup)
    (hlength : specification.fields.length = entity.values.length) :
    insert S specification now entity table = some (table', record) ↔
      S.prepares specification.selection.database ((insertQuery specification).statement.toSql
        specification.selection.database specification.names.databaseTable) = true ∧
      table.any (S.hasId (some (.uuid entity.id))) = false ∧
      ∃ cells, held S specification entity = some cells ∧
        table' = table ++ [row specification cells] ∧
        S.fromRow specification.selection.database specification.fields
          (seenRow specification now cells) = some record := by
  rw [insert, Option.bind_eq_bind, Option.bind_eq_some_iff]
  constructor
  · rintro ⟨⟨table₁, answer⟩, hrun, h⟩
    obtain ⟨hprepares, hfree, cells, hheld, rfl, rfl⟩ := (execute_insert hnames hlength).1 hrun
    refine ⟨hprepares, hfree, cells, hheld, ?_⟩
    simp only [fetched, List.head?_cons, Option.mapM_some] at h
    cases hread : S.fromRow specification.selection.database specification.fields
      (seenRow specification now cells) with
    | none => simp [hread] at h
    | some read => simpa [hread, eq_comm] using h
  · rintro ⟨hprepares, hfree, cells, hheld, rfl, hread⟩
    refine ⟨_, (execute_insert hnames hlength).2 ⟨hprepares, hfree, cells, hheld, rfl, rfl⟩, ?_⟩
    simp [fetched, hread]

/-- An id is stored as itself. -/
theorem hold_id {id : Uuid} {cell : Option S.Cell}
    (h : S.hold specification.selection.database (idColumn specification.selection.database)
      (some (.uuid id)) = some cell) :
    ∃ c, cell = some c ∧ S.reads specification.selection.database "Uuid" c = some (.uuid id) ∧
      ∀ other, S.equals c (.uuid other) = decide (id = other) := by
  obtain ⟨c, hc, rfl⟩ := Sqlx.holds_of_hold h
  exact ⟨c, rfl, Sqlx.uuid_of_holds hc⟩

/-- **What is held of an entity is read back as the entity.** -/
theorem fromRow_of_held (hnames : (columnNames specification).Nodup)
    (hfits : List.Forall₂ ResourceField.Fits specification.fields entity.values)
    (h : held S specification entity = some cells) :
    ∃ record, S.fromRow specification.selection.database specification.fields
        (row specification cells) = some record ∧ record.id = entity.id ∧
      List.Forall₂ (Option.Rel (Returned specification.selection.database)) entity.values
        record.values ∧ S.hasId (some (.uuid entity.id)) (row specification cells) = true := by
  rw [held, schemaColumns, List.zip_cons_cons, List.mapM_cons] at h
  obtain ⟨cell, hcell, h⟩ := Option.bind_eq_some_iff.1 h
  obtain ⟨rest, hrest, h⟩ := Option.bind_eq_some_iff.1 h
  obtain rfl := Option.some.inj h
  obtain ⟨c, rfl, hread, hequals⟩ := hold_id hcell
  obtain ⟨values, hvalues, hreturned⟩ := Sqlx.readFields_of_hold hfits hrest
  have hlength : specification.fields.length = rest.length := by
    have hforall := (mapM_eq_some.1 hrest).length_eq
    rw [List.length_zip, List.length_map, ← hfits.length_eq, Nat.min_self] at hforall
    exact hforall
  refine ⟨⟨entity.id, values⟩, Sqlx.fromRow_zip hnames hlength hread hvalues, rfl, hreturned, ?_⟩
  simp [row, columnNames, Sqlx.hasId, hequals]

/-- What the find statement reads. -/
theorem find_eq (id : Uuid) (h : S.prepares specification.selection.database
      ((findQuery specification).statement.toSql specification.selection.database
        specification.names.databaseTable) = true) :
    find S specification now id table =
      ((table.filter (S.hasId (some (.uuid id)))).mapM
        (S.project specification.selection.database now (columnNames specification))).bind
          fun rows =>
          rows.head?.mapM
            (S.fromRow specification.selection.database specification.fields) := by
  simp only [find, execute, h, if_true]
  simp only [findQuery, Sqlx.run, List.map_cons, List.map_nil, Bind.value, Sqlx.bound]
  simp only [Nat.one_ne_zero, if_false, Nat.sub_self, List.getElem?_cons_zero, Option.bind_eq_bind,
    Option.bind_some]
  cases (table.filter (S.hasId (some (.uuid id)))).mapM
    (S.project specification.selection.database now (columnNames specification)) <;> rfl

/-- A record that was written is read: its values up to what the columns keep, and the
same record by its identifier afterwards. -/
structure ReadBack (S : Sqlx) (specification : ResourceSpecification) (entity record : Record)
    (table' : List S.Row) : Prop where
  id : record.id = entity.id
  values : List.Forall₂ (Option.Rel (Returned specification.selection.database)) entity.values
    record.values
  found : S.prepares specification.selection.database
    ((findQuery specification).statement.toSql specification.selection.database
      specification.names.databaseTable) = true →
    ∀ now, find S specification now entity.id table' = some (some record)

/-- **A record that was inserted is found.** -/
theorem find_of_insert (hnames : (columnNames specification).Nodup)
    (hreads : ReadsColumns specification)
    (hfits : List.Forall₂ ResourceField.Fits specification.fields entity.values)
    (h : insert S specification now entity table = some (table', record)) :
    ReadBack S specification entity record table' := by
  obtain ⟨-, hfree, cells, hheld, rfl, hread⟩ := (insert_eq_some_iff hnames hfits.length_eq).1 h
  have hlength := length_of_held hfits.length_eq hheld
  rw [seenRow_eq hreads hlength] at hread
  obtain ⟨record', hread', hid, hreturned, hfound⟩ := fromRow_of_held hnames hfits hheld
  obtain rfl : record' = record := Option.some.inj (hread'.symm.trans hread)
  refine ⟨hid, hreturned, fun hprepares now => ?_⟩
  have hothers : table.filter (S.hasId (some (.uuid entity.id))) = [] :=
    List.filter_eq_nil_iff.2 fun row hrow => by
      simpa using List.any_eq_false.1 hfree row hrow
  have hproject : S.project specification.selection.database now (columnNames specification)
      (row specification cells) = some (row specification cells) :=
    (Sqlx.project_zip hnames hlength).trans (congrArg some (seenRow_eq hreads hlength))
  rw [find_eq _ hprepares, List.filter_append, hothers, List.nil_append, List.filter_cons_of_pos hfound,
    List.filter_nil, List.mapM_cons, hproject, List.mapM_nil]
  simp [hread]

/-- A row with the identifier of a record. -/
def Identified (S : Sqlx) (specification : ResourceSpecification) (row : S.Row) : Prop :=
  ∃ (id : Uuid) (cell : S.Cell), row.lookup "id" = some (some cell) ∧
    S.holds specification.selection.database (sqlType .uuid specification.selection.database)
      (.uuid id) = some cell

/-- The values of an update under their names. -/
def assigned (specification : ResourceSpecification) (record : Record) :
    List (String × Option ScalarValue) :=
  (specification.fields.map ResourceField.name).zip record.values

/-- What a changed row is: the old identifier and what is held of the new values. -/
theorem change_eq_some (hnames : (columnNames specification).Nodup)
    (hlength : specification.fields.length = entity.values.length) {old new : S.Row}
    {cell : Option S.Cell} (hid : old.lookup "id" = some cell) :
    S.change specification.selection.database (schemaColumns specification)
        (assigned specification entity) old = some new ↔
      ∃ cells, ((specification.fields.map (ResourceField.column
          specification.selection.database)).zip entity.values).mapM
            (fun p => S.hold specification.selection.database p.1 p.2) = some cells ∧
        new = row specification (cell :: cells) := by
  obtain ⟨hfresh, hfields⟩ := List.nodup_cons.1 hnames
  have hcolumns : (specification.fields.map (ResourceField.column
      specification.selection.database)).map Column.name =
        specification.fields.map ResourceField.name := by simp [ResourceField.column]
  have hnone : (assigned specification entity).lookup "id" = none := by
    refine List.lookup_eq_none_iff.2 fun p hp => bne_iff_ne.2 fun h => ?_
    exact hfresh (h ▸ (List.of_mem_zip hp).1)
  have hrest := mapM_lookup_zip (F := fun (column : Column) value =>
      match value with
      | some value => (S.hold specification.selection.database column value).map (column.name, ·)
      | none => (old.lookup column.name).map (column.name, ·))
    (hcolumns.symm ▸ hfields) (by rwa [List.length_map])
  have htagged : ((specification.fields.map (ResourceField.column
      specification.selection.database)).zip entity.values).mapM (fun p =>
        (S.hold specification.selection.database p.1 p.2).map (p.1.name, ·)) = _ :=
    mapM_tagged (S.hold specification.selection.database) Column.name (by rwa [List.length_map])
  have htail := hrest.trans htagged
  rw [hcolumns] at htail
  rw [Sqlx.change, schemaColumns, List.mapM_cons]
  simp only [idColumn, hnone, hid]
  simp only [assigned, htail]
  cases ((specification.fields.map (ResourceField.column
    specification.selection.database)).zip entity.values).mapM fun p =>
      S.hold specification.selection.database p.1 p.2 with
  | none => simp
  | some cells => simp [row, columnNames, eq_comm]

/-- The assignments of an update are bound to the values of the record. -/
theorem mapM_assignments (hlength : specification.fields.length = entity.values.length)
    (rest : List (Option ScalarValue)) :
    (specification.fields.zipIdx.map fun (field, index) => (field.name, index + 1)).mapM
        (fun (assignment : String × ℕ) =>
          (Sqlx.bound (entity.values ++ rest) assignment.2).map (assignment.1, ·)) =
      some (assigned specification entity) := by
  have hindices : (specification.fields.map ResourceField.name).length =
      (List.range' 1 specification.fields.length).length := by simp
  have htagged := mapM_tagged (fun _ index => Sqlx.bound (entity.values ++ rest) index) id hindices
  have hbound : ((specification.fields.map ResourceField.name).zip
      (List.range' 1 specification.fields.length)).mapM (fun p =>
        Sqlx.bound (entity.values ++ rest) p.2) = some entity.values := by
    have hall := Sqlx.mapM_bound entity.values rest
    rw [← hlength, ← List.map_snd_zip hindices.ge, List.mapM_map] at hall
    exact hall
  rw [zipIdx_fields]
  exact htagged.trans (by rw [hbound, List.map_id]; rfl)

/-- What the update statement does through its binds. -/
theorem execute_update (hnames : (columnNames specification).Nodup)
    (hlength : specification.fields.length = entity.values.length) {answer : S.Answer}
    (h : execute S specification now (updateQuery specification) entity table =
      some (table', answer)) :
    ∃ changed rows,
      (table.filter (S.hasId (some (.uuid entity.id)))).mapM
        (S.change specification.selection.database (schemaColumns specification)
          (assigned specification entity)) = some changed ∧
      table.mapM (fun row => if S.hasId (some (.uuid entity.id)) row then
        S.change specification.selection.database (schemaColumns specification)
          (assigned specification entity) row else some row) = some table' ∧
      changed.mapM (S.project specification.selection.database now (columnNames specification)) =
        some rows ∧ answer = .rows rows := by
  have hvalues : (updateQuery specification).binds.map (Bind.value specification.fields entity 0 0) =
      entity.values ++ [some (.uuid entity.id)] := by
    rw [updateQuery, List.map_append, writeBinds_values (List.nodup_cons.1 hnames).2 hlength]
    rfl
  have hid : Sqlx.bound (entity.values ++ [some (.uuid entity.id)])
      (specification.fields.length + 1) = some (some (.uuid entity.id)) := by
    simp [Sqlx.bound, hlength]
  have hassignments := mapM_assignments hlength [some (.uuid entity.id)]
  simp only [execute, hvalues] at h
  split at h
  · simp only [updateQuery, Sqlx.run, hid, Option.bind_eq_bind, Option.bind_some, hassignments] at h
    obtain ⟨changed, hchanged, h⟩ := Option.bind_eq_some_iff.1 h
    obtain ⟨all, hall, h⟩ := Option.bind_eq_some_iff.1 h
    obtain ⟨rows, hrows, h⟩ := Option.bind_eq_some_iff.1 h
    obtain ⟨rfl, rfl⟩ := Prod.mk.inj (Option.some.inj h)
    exact ⟨changed, rows, hchanged, hall, hrows, rfl⟩
  · cases h

/-- What an update that succeeds has done. -/
theorem update_eq_some (hnames : (columnNames specification).Nodup)
    (hlength : specification.fields.length = entity.values.length) {read : Option Record}
    (h : update S specification now entity table = some (table', read)) :
    ∃ changed rows,
      (table.filter (S.hasId (some (.uuid entity.id)))).mapM
        (S.change specification.selection.database (schemaColumns specification)
          (assigned specification entity)) = some changed ∧
      table.mapM (fun row => if S.hasId (some (.uuid entity.id)) row then
        S.change specification.selection.database (schemaColumns specification)
          (assigned specification entity) row else some row) = some table' ∧
      changed.mapM (S.project specification.selection.database now (columnNames specification)) =
        some rows ∧
      rows.head?.mapM (S.fromRow specification.selection.database specification.fields) =
        some read := by
  obtain ⟨⟨updated, answer⟩, hrun, h⟩ := Option.bind_eq_some_iff.1 h
  obtain ⟨changed, rows, hchanged, hall, hrows, rfl⟩ := execute_update hnames hlength hrun
  obtain ⟨fetchedRead, hread, h⟩ := Option.bind_eq_some_iff.1 h
  obtain ⟨rfl, rfl⟩ := Prod.mk.inj (Option.some.inj h)
  exact ⟨changed, rows, hchanged, hall, hrows, hread⟩

/-- A row is found by its id. -/
theorem hasId_congr {id : Option ScalarValue} {old new : S.Row}
    (h : new.lookup "id" = old.lookup "id") : S.hasId id new = S.hasId id old := by
  unfold Sqlx.hasId
  rw [h]

/-- A change keeps the id. -/
theorem Identified.change (hnames : (columnNames specification).Nodup)
    (hlength : specification.fields.length = entity.values.length) {old new : S.Row}
    (h : Identified S specification old)
    (hchange : S.change specification.selection.database (schemaColumns specification)
      (assigned specification entity) old = some new) :
    new.lookup "id" = old.lookup "id" := by
  obtain ⟨id, cell, hlookup, -⟩ := h
  obtain ⟨cells, -, rfl⟩ := (change_eq_some hnames hlength hlookup).1 hchange
  rw [hlookup, row, columnNames, List.zip_cons_cons, List.lookup_cons_self]

/-- Every row that is stored has the identifier of a record. -/
theorem identified_of_stored (hnames : (columnNames specification).Nodup)
    (h : Stored S specification table) : ∀ row ∈ table, Identified S specification row := by
  induction h with
  | empty => exact nofun
  | @insert now table table' entity answer h hinsert ih =>
      obtain ⟨-, -, cells, hheld, rfl, -⟩ := (execute_insert hnames entity.fits.length_eq).1 hinsert
      refine List.forall_mem_append.2 ⟨ih, List.forall_mem_singleton.2 ?_⟩
      rw [held, schemaColumns, List.zip_cons_cons, List.mapM_cons] at hheld
      obtain ⟨cell, hcell, hheld⟩ := Option.bind_eq_some_iff.1 hheld
      obtain ⟨rest, -, hheld⟩ := Option.bind_eq_some_iff.1 hheld
      obtain rfl := Option.some.inj hheld
      obtain ⟨c, hc, rfl⟩ := Sqlx.holds_of_hold hcell
      exact ⟨entity.id, c, List.lookup_cons_self, hc⟩
  | @update now table table' entity answer h hupdate ih =>
      obtain ⟨changed, rows, -, hall, -, -⟩ :=
        execute_update hnames entity.fits.length_eq hupdate
      intro new hnew
      obtain ⟨old, hold, hchange⟩ : ∃ old ∈ table, (if S.hasId (some (.uuid entity.id)) old then
          S.change specification.selection.database (schemaColumns specification)
            (assigned specification entity.toRecord) old else some old) = some new :=
        exists_of_mapM (mapM_eq_some.1 hall) new hnew
      split at hchange
      · obtain ⟨id, cell, hlookup, hholds⟩ := ih old hold
        have hkept := (ih old hold).change hnames entity.fits.length_eq hchange
        exact ⟨id, cell, hkept.trans hlookup, hholds⟩
      · obtain rfl := Option.some.inj hchange
        exact ih old hold
  | @delete now table table' id answer h hdelete ih =>
      rw [execute] at hdelete
      split at hdelete
      · simp only [deleteQuery, Sqlx.run] at hdelete
        obtain ⟨bound, -, hdelete⟩ := Option.bind_eq_some_iff.1 hdelete
        obtain ⟨rfl, rfl⟩ := Prod.mk.inj (Option.some.inj hdelete)
        exact fun row hrow => ih row (List.mem_filter.1 hrow).1
      · cases hdelete

/-- What a change makes of the row of a record: its identifier, then the new values. -/
theorem exists_changed (hnames : (columnNames specification).Nodup)
    (hlength : specification.fields.length = entity.values.length) {old new : S.Row}
    (h : Identified S specification old)
    (hfound : S.hasId (some (.uuid entity.id)) old = true)
    (hchange : S.change specification.selection.database (schemaColumns specification)
      (assigned specification entity) old = some new) :
    ∃ cell cells, specification.fields.length = cells.length ∧
      new = row specification (some cell :: cells) ∧
      S.reads specification.selection.database "Uuid" cell = some (.uuid entity.id) ∧
      ((specification.fields.map (ResourceField.column
        specification.selection.database)).zip entity.values).mapM (fun p =>
          S.hold specification.selection.database p.1 p.2) = some cells := by
  obtain ⟨id, cell, hlookup, hholds⟩ := h
  obtain ⟨cells, hcells, rfl⟩ := (change_eq_some hnames hlength hlookup).1 hchange
  obtain ⟨hreads, hequals⟩ := Sqlx.uuid_of_holds hholds
  obtain rfl : id = entity.id := by
    simpa [Sqlx.hasId, hlookup, hequals] using hfound
  have hcount := (mapM_eq_some.1 hcells).length_eq
  rw [List.length_zip, List.length_map, ← hlength, Nat.min_self] at hcount
  exact ⟨cell, cells, hcount, rfl, hreads, hcells⟩

/-- **A record that was updated is found.** -/
theorem find_of_update (hnames : (columnNames specification).Nodup)
    (hreads : ReadsColumns specification)
    (hfits : List.Forall₂ ResourceField.Fits specification.fields entity.values)
    (hstored : Stored S specification table)
    (h : update S specification now entity table = some (table', some record)) :
    ReadBack S specification entity record table' := by
  obtain ⟨changed, rows, hchanged, hall, hrows, hread⟩ := update_eq_some hnames hfits.length_eq h
  have hidentified := identified_of_stored hnames hstored
  have hfilter := mapM_filter (fun old hold new hid hchange =>
    (hasId_congr ((hidentified old hold).change hnames hfits.length_eq hchange)).trans hid) hall
  obtain rfl : changed = table'.filter _ := Option.some.inj (hchanged.symm.trans hfilter)
  have hshape : ∀ new ∈ table'.filter (S.hasId (some (.uuid entity.id))), ∃ cell cells,
      specification.fields.length = cells.length ∧
      new = row specification (some cell :: cells) ∧
      S.reads specification.selection.database "Uuid" cell = some (.uuid entity.id) ∧
      ((specification.fields.map (ResourceField.column
        specification.selection.database)).zip entity.values).mapM (fun p =>
          S.hold specification.selection.database p.1 p.2) = some cells := by
    intro new hnew
    obtain ⟨old, hold, hchange⟩ := exists_of_mapM (mapM_eq_some.1 hchanged) new hnew
    obtain ⟨hmem, hfound⟩ := List.mem_filter.1 hold
    exact exists_changed hnames hfits.length_eq (hidentified old hmem) hfound hchange
  have hprojected : ∀ now, (table'.filter (S.hasId (some (.uuid entity.id)))).mapM
      (S.project specification.selection.database now (columnNames specification)) =
        some (table'.filter (S.hasId (some (.uuid entity.id)))) := by
    refine fun now => (mapM_congr fun new hnew => ?_).trans (mapM_some _)
    obtain ⟨cell, cells, hlength, rfl, -, -⟩ := hshape new hnew
    have hcells : (columnNames specification).length = (some cell :: cells).length := by
      simp [columnNames, hlength]
    exact (Sqlx.project_zip hnames hcells).trans (congrArg some (seenRow_eq hreads hcells))
  obtain rfl := Option.some.inj (hrows.symm.trans (hprojected now))
  cases hfirst : table'.filter (S.hasId (some (.uuid entity.id))) with
  | nil =>
      rw [hfirst] at hread
      simp at hread
  | cons new others =>
      rw [hfirst] at hread hshape hprojected
      obtain ⟨cell, cells, hlength, rfl, hid, hcells⟩ := hshape new List.mem_cons_self
      obtain ⟨values, hvalues, hreturned⟩ := Sqlx.readFields_of_hold hfits hcells
      have hrow := Sqlx.fromRow_zip hnames hlength hid hvalues
      have hhead : S.fromRow specification.selection.database specification.fields
          (row specification (some cell :: cells)) = some record := by
        simpa using hread
      obtain rfl := Option.some.inj (hrow.symm.trans hhead)
      refine ⟨rfl, hreturned, fun hprepares now => ?_⟩
      rw [find_eq _ hprepares, hfirst, hprojected now]
      simp [hhead]

/-- What is returned is what was written, up to the precision of a time. -/
theorem Returned.eq {database : SelectedDatabase} {value value' : Option ScalarValue}
    (h : Option.Rel (Returned database) value value')
    (hmicro : database = .postgres → ∀ t, value = some (.dateTime t) → 1000 ∣ t) :
    value' = value := by
  cases h with
  | none => rfl
  | some h =>
      cases h with
      | same => rfl
      | @rounded t t' hmicro' hnear =>
          have ht := hmicro rfl t rfl
          obtain ⟨hlow, hhigh⟩ := abs_lt.1 hnear
          obtain rfl : t' = t := by omega
          rfl

/-- The values of a record whose times are whole microseconds come back as written. -/
theorem Returned.values_eq {database : SelectedDatabase}
    {values values' : List (Option ScalarValue)}
    (h : List.Forall₂ (Option.Rel (Returned database)) values values')
    (hmicro : database = .postgres → ∀ t, some (.dateTime t) ∈ values → 1000 ∣ t) :
    values' = values := by
  induction h with
  | nil => rfl
  | @cons value value' values values' hvalue hrest ih =>
      have hhead := Returned.eq hvalue fun hpostgres t ht =>
        hmicro hpostgres t (ht ▸ List.mem_cons_self)
      rw [hhead, ih fun hpostgres t ht => hmicro hpostgres t (List.mem_cons_of_mem _ ht)]

/-- PostgreSQL keeps the timestamps of a record as they are. -/
def WholeMicroseconds (specification : ResourceSpecification) (record : Record) : Prop :=
  specification.selection.database = .postgres →
    ∀ t, some (.dateTime t) ∈ record.values → 1000 ∣ t

/-- The same record is read where timestamps are whole microseconds, and on SQLite. -/
theorem ReadBack.eq (h : ReadBack S specification entity record table')
    (hmicro : WholeMicroseconds specification entity) : record = entity := by
  have hid := h.id
  have hvalues := Returned.values_eq h.values hmicro
  cases record
  cases entity
  simp only at hid hvalues
  rw [hid, hvalues]

/-- A timestamp that PostgreSQL gives back is one of whole microseconds. -/
theorem whole_of_returned (h : List.Forall₂
      (Option.Rel (Returned specification.selection.database)) entity.values entity.values) :
    WholeMicroseconds specification entity := by
  intro hpostgres t ht
  have hsame := List.forall₂_same.1 h _ ht
  rw [hpostgres] at hsame
  cases hsame with
  | some hreturned =>
      cases hreturned with
      | same hkept => exact absurd rfl (hkept rfl)
      | rounded hmicro => exact hmicro

/-! ### Clocks -/

/-- What is read of the name of a clock is the clock. -/
theorem lookup_seen {names : List String} {cells : List (Option S.Cell)} {name : String}
    (hlength : names.length = cells.length) (hname : name ∈ names) (hclock : name ∈ clockNames) :
    ((names.map (identifier .sqlite)).zip (S.seen .sqlite now names cells)).lookup name =
      some (some (S.clock name now)) := by
  induction names generalizing cells with
  | nil => cases hname
  | cons first names ih =>
      cases cells with
      | nil => cases hlength
      | cons cell cells =>
          rw [Sqlx.seen, List.zip_cons_cons, List.map_cons, List.map_cons, List.zip_cons_cons,
            List.lookup_cons, identifier]
          cases heq : name == first with
          | true =>
              obtain rfl := beq_iff_eq.1 heq
              exact congrArg some (if_pos ⟨rfl, hclock⟩)
          | false =>
              have hrest := List.mem_of_ne_of_mem (beq_eq_false_iff_ne.1 heq) hname
              exact ih (Nat.succ.inj hlength) hrest

/-- PostgreSQL returns no column under a name of more than 63 bytes. -/
theorem lookup_eq_none {names : List String} {cells : List (Option S.Cell)} {name : String}
    (hlong : 63 < name.length) :
    ((names.map (identifier .postgres)).zip cells).lookup name = none := by
  refine List.lookup_eq_none_iff.2 fun p hp => bne_iff_ne.2 fun h => ?_
  obtain ⟨column, -, hcolumn⟩ := List.mem_map.1 (List.of_mem_zip hp).1
  have hshort := length_identifier column
  rw [hcolumn, ← h] at hshort
  omega

/-- The values of a record that was read are those of its columns. -/
theorem values_of_fromRow {database : SelectedDatabase} {fields : List ResourceField} {new : S.Row}
    (h : S.fromRow database fields new = some record) :
    List.Forall₂ (fun field value =>
      (new.lookup field.name).bind (S.readField database field) = some value) fields
      record.values := by
  rw [Sqlx.fromRow] at h
  obtain ⟨held, -, h⟩ := Option.bind_eq_some_iff.1 h
  split at h
  · split at h
    · obtain ⟨values, hvalues, h⟩ := Option.bind_eq_some_iff.1 h
      obtain rfl := Option.some.inj h
      exact mapM_eq_some.1 hvalues
    · cases h
  · cases h

/-- **No clock gives the values of an entity back at all times.** -/
theorem not_clock_of_fromRow (hlength : (columnNames specification).length = cells.length)
    (h : ∀ now, S.fromRow specification.selection.database specification.fields
      (seenRow specification now cells) = some record)
    (hsqlite : specification.selection.database = .sqlite) :
    ∀ field ∈ specification.fields, field.name ∉ clockNames := by
  intro field hfield hclock
  obtain ⟨i, hi, rfl⟩ := List.getElem_of_mem hfield
  have hread : ∀ now, ((S.reads .sqlite specification.fields[i].scalar.rustType
      (S.clock specification.fields[i].name now)).map some) = record.values[i]? := by
    intro now
    have hvalues := values_of_fromRow (h now)
    have hi' : i < record.values.length := hvalues.length_eq ▸ hi
    have hat := List.Forall₂.get hvalues hi hi'
    have hname : specification.fields[i].name ∈ columnNames specification :=
      List.mem_cons_of_mem _ (List.mem_map_of_mem (List.getElem_mem hi))
    rw [seenRow, hsqlite, List.get_eq_getElem, lookup_seen hlength hname hclock] at hat
    rw [List.getElem?_eq_getElem hi', ← List.get_eq_getElem (i := ⟨i, hi'⟩), ← hat]
    rfl
  cases hvalue : record.values[i]? with
  | none =>
      have hvalues := values_of_fromRow (h 0)
      have hout := List.getElem?_eq_none_iff.1 hvalue
      rw [← hvalues.length_eq] at hout
      omega
  | some value =>
      cases value with
      | none => simpa [hvalue] using hread 0
      | some value =>
          obtain ⟨now, hmoved⟩ := S.clockMoves hclock specification.fields[i].scalar.rustType value
          refine hmoved ?_
          simpa [hvalue] using hread now

/-- A row that is read gives every field a column of its name. -/
theorem length_of_fromRow (h : S.fromRow specification.selection.database specification.fields
      (seenRow specification now cells) = some record)
    (hpostgres : specification.selection.database = .postgres) :
    ∀ field ∈ specification.fields, field.name.length ≤ 63 := by
  intro field hfield
  by_contra hlong
  obtain ⟨i, hi, rfl⟩ := List.getElem_of_mem hfield
  have hvalues := values_of_fromRow h
  have hi' : i < record.values.length := hvalues.length_eq ▸ hi
  have hat := List.Forall₂.get hvalues hi hi'
  rw [seenRow, hpostgres, List.get_eq_getElem, lookup_eq_none (Nat.not_le.1 hlong)] at hat
  cases hat

end SqlxRepository

/-! ### The result -/

/-- A column gives the field of the row struct of its name the values of its type. -/
structure ColumnFits (S : Sqlx) (database : SelectedDatabase) (column : Column) (field : RowField) :
    Prop where
  name : column.name = field.name
  nullable : field.nullable = true ↔ column.notNull = false ∧ column.primaryKey = false
  type : ∀ value cell, value.scalar.rustType = field.base →
    S.holds database column.type value = some cell →
    ∃ value', S.reads database field.base cell = some value' ∧ Returned database value value'

/-- The columns of the schema fit the fields of the row. -/
theorem columns_fit (S : Sqlx) (specification : ResourceSpecification) :
    List.Forall₂ (ColumnFits S specification.selection.database) (schemaColumns specification)
      (rowStruct specification) := by
  have hscalar : ∀ (scalar : ScalarType) (value : ScalarValue) (cell : S.Cell),
      value.scalar.rustType = scalar.rustType →
      S.holds specification.selection.database (sqlType scalar specification.selection.database)
        value = some cell →
      ∃ value', S.reads specification.selection.database scalar.rustType cell = some value' ∧
        Returned specification.selection.database value value' := by
    intro scalar value cell htype hholds
    obtain rfl := ScalarType.rustType_injective htype
    exact Sqlx.reads_of_holds hholds
  refine .cons ⟨rfl, by simp [idColumn], hscalar .uuid⟩ ?_
  rw [writeFields, List.forall₂_map_left_iff, List.forall₂_map_right_iff, List.forall₂_same]
  exact fun field _ => ⟨rfl, by simp [ResourceField.column], hscalar field.scalar⟩

/-- The repository of a resource fits the table that its migration creates. -/
structure PersistenceAgrees (S : Sqlx) (specification : ResourceSpecification) : Prop where
  created : (schemaColumns specification).map Column.name = columnNames specification
  distinct : (columnNames specification).Nodup
  lined_up : ∀ query ∈ repositoryQueries specification, query.LinedUp (columnNames specification)
  types : List.Forall₂ (ColumnFits S specification.selection.database) (schemaColumns specification)
    (rowStruct specification)

section Returns

open SqlxRepository

variable (S : Sqlx) (specification : ResourceSpecification)

/-- The database takes the entity: the statement, and the values in their columns. -/
structure Taken (entity : Record) : Prop where
  prepares : S.prepares specification.selection.database ((insertQuery specification).statement.toSql
    specification.selection.database specification.names.databaseTable) = true
  held : (held S specification entity).isSome = true

/-- The entity is found by its identifier, whenever. -/
def Found (entity : Record) (table : List S.Row) : Prop :=
  S.prepares specification.selection.database ((findQuery specification).statement.toSql
      specification.selection.database specification.names.databaseTable) = true →
    ∀ now, find S specification now entity.id table = some (some entity)

/-- An entity that is written is returned, and found afterwards. -/
structure ReturnsFields (entity : Entity specification.fields) : Prop where
  inserted : ∀ now table, table.any (S.hasId (some (.uuid entity.id))) = false →
    ∃ table', SqlxRepository.insert S specification now entity.toRecord table =
      some (table', entity.toRecord) ∧ Found S specification entity.toRecord table'
  updated : ∀ now table table' record, Stored S specification table →
    update S specification now entity.toRecord table = some (table', some record) →
      record = entity.toRecord ∧ Found S specification entity.toRecord table'

variable {S specification}

/-- **An entity comes back** just when every field is read from its column and no timestamp
is rounded. -/
theorem returnsFields_iff {entity : Entity specification.fields}
    (hnames : (columnNames specification).Nodup) (htaken : Taken S specification entity.toRecord) :
    ReturnsFields S specification entity ↔
      ReadsColumns specification ∧ WholeMicroseconds specification entity.toRecord := by
  have hlength := entity.fits.length_eq
  obtain ⟨cells, hheld⟩ := Option.isSome_iff_exists.1 htaken.held
  have hcells := length_of_held hlength hheld
  constructor
  · intro h
    have hread : ∀ now, S.fromRow specification.selection.database specification.fields
        (seenRow specification now cells) = some entity.toRecord := by
      intro now
      obtain ⟨table', hinsert, -⟩ := h.inserted now [] rfl
      obtain ⟨-, -, cells', hheld', -, hread⟩ := (insert_eq_some_iff hnames hlength).1 hinsert
      obtain rfl := Option.some.inj (hheld.symm.trans hheld')
      exact hread
    have hreads : ReadsColumns specification :=
      ⟨not_clock_of_fromRow hcells hread, length_of_fromRow (hread 0)⟩
    obtain ⟨table', hinsert, -⟩ := h.inserted 0 [] rfl
    exact ⟨hreads, whole_of_returned (find_of_insert hnames hreads entity.fits hinsert).values⟩
  · rintro ⟨hreads, hmicro⟩
    have hback : ∀ {record : Record} {table' : List S.Row},
        ReadBack S specification entity.toRecord record table' →
          record = entity.toRecord ∧ Found S specification entity.toRecord table' := by
      intro record table' h
      obtain rfl := h.eq hmicro
      exact ⟨rfl, h.found⟩
    refine ⟨fun now table hfree => ?_, fun now table table' record hstored hupdate =>
      hback (find_of_update hnames hreads entity.fits hstored hupdate)⟩
    obtain ⟨record, hread, -⟩ := fromRow_of_held hnames entity.fits hheld
    have hinsert : insert S specification now entity.toRecord table =
        some (table ++ [row specification cells], record) := (insert_eq_some_iff hnames hlength).2
      ⟨htaken.prepares, hfree, cells, hheld, rfl, (seenRow_eq hreads hcells).symm ▸ hread⟩
    obtain ⟨rfl, hfound⟩ := hback (find_of_insert hnames hreads entity.fits hinsert)
    exact ⟨_, hinsert, hfound⟩

end Returns

/-- A database that keeps every value, and on PostgreSQL the microsecond of a timestamp; its
clock goes from one day to the next. -/
def demoSqlx : Sqlx where
  Cell := ScalarValue
  prepares _ _ := true
  holds database _ value :=
    match database, value with
    | .postgres, .dateTime t => some (.dateTime (t / 1000 * 1000))
    | _, _ => some value
  reads _ type cell := if cell.scalar.rustType = type then some cell else none
  equals cell value := decide (cell = value)
  isBit _ := true
  before _ _ := true
  clock _ now := .string (if now = 0 then "2026-01-01" else "2026-01-02")
  string {database _ _} h := by
    cases database <;> obtain rfl := Option.some.inj h <;> rfl
  postgresBool h := by
    obtain rfl := Option.some.inj h
    rfl
  sqliteBool h := by
    obtain rfl := Option.some.inj h
    rfl
  postgresI64 h := by
    obtain rfl := Option.some.inj h
    rfl
  sqliteI64 h := by
    obtain rfl := Option.some.inj h
    rfl
  postgresUuid h := by
    obtain rfl := Option.some.inj h
    simp [ScalarValue.scalar, ScalarType.rustType]
  sqliteUuid h := by
    obtain rfl := Option.some.inj h
    simp [ScalarValue.scalar, ScalarType.rustType]
  postgresDateTime {t _} h := by
    obtain rfl := Option.some.inj h
    exact ⟨_, rfl, Int.dvd_mul_left _ _, abs_lt.2 ⟨by omega, by omega⟩⟩
  sqliteDateTime h := by
    obtain rfl := Option.some.inj h
    rfl
  clockMoves {_} _ type value := by
    have hread : ∀ cell : ScalarValue,
        (if cell.scalar.rustType = type then some cell else none) = some value → cell = value := by
      intro cell h
      split at h
      · exact Option.some.inj h
      · cases h
    by_cases hfirst : value = .string "2026-01-01"
    · exact ⟨1, fun h => absurd ((hread _ h).trans hfirst) (by decide)⟩
    · exact ⟨0, fun h => hfirst (hread _ h).symm⟩

def publishedFields : List ResourceFieldInput := [⟨"published_at", "datetime", false⟩]

def dueFields : List ResourceFieldInput := [⟨"current_date", "string", false⟩]

end Generator
end Hegira
