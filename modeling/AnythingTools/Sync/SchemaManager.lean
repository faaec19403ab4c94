import AnythingTools.Management.MigrationCoordinator

namespace Sync
open Relational Relational.Database Session Schemas Management
set_option autoImplicit true

/-- The base name of a Snowflake type: upper case, without parameters. -/
def normalizeSnowflakeType (typeStr : String) : String :=
  let cs := (strip typeStr).toList
  let base := if cs.getLast? = some ')' ∧ '(' ∈ cs then
      ((cs.takeWhile fun c => decide (c ≠ '(')).reverse.dropWhile isSpace).reverse
    else cs
  String.ofList (base.map Char.toUpper)

def typesMatch (expected actual : String) : Bool :=
  decide (normalizeSnowflakeType expected = normalizeSnowflakeType actual)

def snowflakeColumnOverrides : List ((String × String) × String) :=
  [(("sf_quarterly_facts", "is_total"), "BOOLEAN"),
    (("scraped_articles_vec_backup", "embedding"), "VECTOR(FLOAT, 1024)")]

def sqliteTypeToSnowflake (sqliteType : String) : String :=
  if typeHas sqliteType "INT" then "NUMBER"
  else if typeHas sqliteType "CHAR" || typeHas sqliteType "CLOB" || typeHas sqliteType "TEXT" then
    "VARCHAR"
  else if typeHas sqliteType "BLOB" || decide (sqliteType = "") then "BINARY"
  else if typeHas sqliteType "REAL" || typeHas sqliteType "FLOA" || typeHas sqliteType "DOUB" then
    "FLOAT"
  else "NUMBER"

def expectedSnowflakeType (tableName : String) (c : Column) : String :=
  (snowflakeColumnOverrides.lookup (tableName, c.name)).getD (sqliteTypeToSnowflake c.type)

/-- A call to the cloud or to the local file, which may fail. -/
inductive Call where
  | currentVersion
  | informationSchema (types : Bool)
  | createTable (t : String) (ddl : TableDdl)
  | addColumn (t c type : String)
  | dropColumn (t c : String)
  | dropTable (t : String)
  | selectBatch (t : String) (offset : Nat)
  | insertBatch (t : String) (offset : Nat) (rows : List Row)

/-- The cloud as its client sees it: the calls it refuses, the scripts that the transpiler gives
for it (none where the rewrite fails) and its clock. -/
structure Snowflake where
  refuses : Call → Bool
  transpile : String → Option TableDdl
  now : String
  timestamp : String := "0"

/-- Constraints other than NOT NULL are not enforced. -/
def storedInCloud (sf : Snowflake) (S : Schema) (rows : List Row) : List Row :=
  rows.map (S.fill sf.now)

def batchIsAccepted (sf : Snowflake) (S : Schema) (rows : List Row) : Bool :=
  (rows.all fun r => r.columns.all fun c => decide (c ∈ S.names)) &&
    (storedInCloud sf S rows).all S.notNulls

def cloudEffect (sf : Snowflake) (cloud : Database) : Call → Except SqlError Database
  | .currentVersion => .ok cloud
  | .informationSchema _ => .ok cloud
  | .selectBatch _ _ => .ok cloud
  | .createTable t ddl =>
    match cloud.find t with
    | some _ => if ddl.ifNotExists then .ok cloud else .error (.nameTaken t)
    | none => .ok { cloud with tables := cloud.tables.insert t { schema := ddl.schema, rows := [] } }
  | .addColumn t c type =>
    match cloud.find t with
    | none => .error (.noSuchTable t)
    | some T =>
      if c ∈ T.schema.names then .error (.nameTaken c)
      else .ok (cloud.update t fun T =>
        { schema := { T.schema with columns := T.schema.columns ++ [col c type] }
          rows := T.rows.map fun r => r.add c .null })
  | .dropColumn t c =>
    .ok (cloud.update t fun T =>
      { schema := { T.schema with columns := T.schema.columns.filter fun d => decide (d.name ≠ c) }
        rows := T.rows.map fun r => r.drop c })
  | .dropTable t => .ok (cloud.dropTable false t)
  | .insertBatch t _ rows =>
    match cloud.find t with
    | none => .error (.noSuchTable t)
    | some T =>
      if batchIsAccepted sf T.schema rows then
        .ok (cloud.update t fun T => { T with rows := T.rows ++ storedInCloud sf T.schema rows })
      else .error .constraint

def call (sf : Snowflake) (c : Call) : Conn Unit :=
  if sf.refuses c then throw .refused else stmt fun cloud => cloudEffect sf cloud c

/-- The script that creates a table in the cloud. -/
def getSnowflakeDdl (sf : Snowflake) (tableName : String) (d : TableDdl) : Option TableDdl :=
  if d.schema.module = some "vec0" then
    some { ifNotExists := true, schema := { columns := [col "rowid" "NUMBER",
      col "embedding" "VECTOR"] } }
  else if tableName = "scraped_articles_vec_backup" then
    some { ifNotExists := true, schema := { columns := [col "rowid" "NUMBER",
      col "article_id" "VARCHAR", col "embedding" "VECTOR", col "hashed_at" "VARCHAR"] } }
  else sf.transpile tableName

/-- The columns that a cloud table should have. -/
def cloudColumns (tableName : String) (d : TableDdl) : Option (List Column) :=
  match columnsFromDdlInMemory d tableName with
  | some cols => some cols
  | none =>
    if d.schema.module = some "vec0" then
      some [(col "rowid" "INTEGER").keyed 1, col "embedding" "BLOB"]
    else none

/-- The type of an added column. -/
def addedType (c : Column) : String :=
  if c.name = "embedding" then "VECTOR"
  else if typeHas c.type "TEXT" || typeHas c.type "CHAR" then "VARCHAR"
  else if typeHas c.type "REAL" || typeHas c.type "FLOA" then "FLOAT"
  else if typeHas c.type "BLOB" then "BINARY"
  else "NUMBER"

def reconcileColumns (sf : Snowflake) (tableName : String) (d : TableDdl)
    (existingCols : List String) : Conn Unit :=
  match cloudColumns tableName d with
  | none => return ()
  | some cols => do
    (cols.filter fun c => decide (c.name ∉ existingCols)).forM fun c =>
      call sf (.addColumn tableName c.name (addedType c))
    (existingCols.filter fun n => decide (n ∉ cols.map Column.name)).forM fun n =>
      attempt (call sf (.dropColumn tableName n)) fun _ => return ()

/-- Bring one table of the cloud to the columns of its script. -/
def reconcileTable (sf : Snowflake) (existing : Database) (p : String × TableDdl) : Conn Unit :=
  match existing.find p.1 with
  | none =>
    match getSnowflakeDdl sf p.1 p.2 with
    | none => return ()
    | some ddl => call sf (.createTable p.1 ddl)
  | some T => reconcileColumns sf p.1 p.2 T.schema.names

def reconcile (sf : Snowflake) (tables : List (String × TableDdl)) : Conn Unit := do
  call sf (.informationSchema false)
  let existing ← get
  tables.forM (reconcileTable sf existing)

/-- The columns whose type in the cloud is not the expected one. -/
def cloudMismatches (tableName : String) (actual : String → Option String) (desired : List Column) :
    List ColumnMismatch :=
  desired.filterMap fun c =>
    let expected := expectedSnowflakeType tableName c
    let found := (actual c.name).getD ""
    if found ≠ "" ∧ ¬ typesMatch expected found = true ∧
        ¬ (normalizeSnowflakeType expected ∈ ["VARCHAR", "TEXT"] ∧
          normalizeSnowflakeType found ∈ ["VARCHAR", "TEXT"]) then
      some { columnName := c.name, actualType := found, expectedType := expected
             isPrimaryKey := decide (0 < c.pk) }
    else none

/-- The plan to rebuild a table, given the types of its columns in the cloud. -/
def rebuildPlan (sf : Snowflake) (p : String × TableDdl)
    (actual : Option (String → Option String)) : Option TypeMismatchPlan :=
  match actual, columnsFromDdlInMemory p.2 p.1 with
  | some types, some desired =>
    let mismatches := cloudMismatches p.1 types desired
    if mismatches = [] then none
    else (getSnowflakeDdl sf p.1 p.2).map fun ddl =>
      { tableName := p.1
        mismatches
        cloneTableName := "_migrate_" ++ p.1 ++ "_" ++ sf.timestamp
        newDdl := ddl
        columnsToSkip := mismatches.map ColumnMismatch.columnName
        pkColumn := ((desired.filter fun c => decide (0 < c.pk)).getLast?.map Column.name).getD "id"
        isMaster := true }
  | _, _ => none

def columnTypes (cloud : Database) (tableName : String) : Option (String → Option String) :=
  (cloud.find tableName).map fun T n => (T.schema.column? n).map Column.type

def reconcileTypes (sf : Snowflake) (tables : List (String × TableDdl)) :
    Conn (List TypeMismatchPlan) := do
  call sf (.informationSchema true)
  let existing ← get
  return tables.filterMap fun p => rebuildPlan sf p (columnTypes existing p.1)

/-- The batches of the local rows, each with its offset. -/
def localBatches (L : Table) : List (Nat × List Row) :=
  (Python.chunks 1000 (L.rows.map fun r => Row.build L.schema.names r.get)).zipIdx.map
    fun p => (1000 * p.2, p.1)

def insertBatch (sf : Snowflake) (tableName : String) (b : Nat × List Row) : Conn Unit := do
  call sf (.selectBatch tableName b.1)
  call sf (.insertBatch tableName b.1 b.2)

def rebuildTable (sf : Snowflake) (op : Database) (plan : TypeMismatchPlan) : Conn Nat := do
  call sf (.dropTable plan.tableName)
  call sf (.createTable plan.tableName plan.newDdl)
  match op.find plan.tableName with
  | none => return 0
  | some L =>
    if L.schema.names = [] then return 0
    else
      (localBatches L).forM (insertBatch sf plan.tableName)
      call sf (.selectBatch plan.tableName (1000 * (localBatches L).length))
      return L.rows.length

def rebuildTables (sf : Snowflake) (op : Database) (plans : List TypeMismatchPlan) : Conn Unit :=
  plans.forM fun plan => do
    let _ ← rebuildTable sf op plan
    return ()

/-- The start of the cloud engine. -/
def startup (sf : Snowflake) (enabled : Bool) (tables : List (String × TableDdl))
    (op : Database) : Conn Unit :=
  if enabled = true then do
    call sf .currentVersion
    reconcile sf tables
    let mismatchPlans ← reconcileTypes sf tables
    rebuildTables sf op mismatchPlans
  else return ()

end Sync
