import AnythingTools.Python
import AnythingTools.Relational.Upsert
import AnythingTools.Schemas

namespace Sync
open Relational Schemas
set_option autoImplicit true

def vectorDim : Nat := 1024

/-- No exponent of a little-endian `float32` is all ones. -/
def finiteFloats : List UInt8 → Bool
  | _ :: _ :: c :: d :: bs => !(decide (128 ≤ c.toNat) && decide (d.toNat % 128 = 127)) &&
      finiteFloats bs
  | _ => true

/-- A packed vector of the right dimension without infinities or NaNs. -/
def validVector (bs : List UInt8) : Bool :=
  decide (bs.length = vectorDim * 4) && finiteFloats bs

/-- White space as `str.strip` removes it. -/
def isSpace (c : Char) : Bool :=
  let n := c.toNat
  (decide (9 ≤ n) && decide (n ≤ 13)) || (decide (28 ≤ n) && decide (n ≤ 32)) ||
    (decide (8192 ≤ n) && decide (n ≤ 8202)) ||
    n ∈ [133, 160, 5760, 8232, 8233, 8239, 8287, 12288]

def strip (s : String) : String :=
  String.ofList ((s.toList.dropWhile isSpace).reverse.dropWhile isSpace).reverse

/-- Columns that a content hash leaves out. -/
def excludeColumns : List String :=
  ["updated_at", "content_hash", "scraped_at", "embedding", "vec_rowid", "created_at"]

/-- What the sync takes from its surroundings: the reading of time stamps, the digest, the
settings and the clock of the database. -/
structure Env where
  parseTs : String → Int
  digest : String → String
  useNativeVectorType : Bool := true
  sqliteVecAvailable : Bool := true
  now : String

def Env.tables (e : Env) : List (String × TableDdl) :=
  getExpectedSqliteTables e.sqliteVecAvailable

def getChecksumColumns (e : Env) (tableName : String) : List String :=
  match e.tables.lookup tableName with
  | none => []
  | some d => d.schema.names.filter fun c => decide (c ∉ excludeColumns)

def computeRowHash (e : Env) (tableName : String) (row : Row) : String :=
  e.digest ("||".intercalate ((getChecksumColumns e tableName).map fun c =>
    strip (Python.strOr (row.get c))))

/-- The rows whose vector cannot be read go to the dead letter queue. -/
def pullVectorsFromCloud (rows : List Row) : List Row :=
  rows.filter fun r =>
    match r.get "embedding" with
    | .null => true
    | .blob bs => validVector bs
    | _ => false

/-- The fetched cloud rows as they are written locally. -/
def pullRecords (e : Env) (tableName : String) (C : Table) : List Row :=
  let rows := C.rows.map fun r => Row.build C.schema.names r.get
  let rows := if "embedding" ∈ C.schema.names ∧ e.useNativeVectorType = true then
      pullVectorsFromCloud rows
    else rows
  rows.map fun r =>
    if "content_hash" ∈ C.schema.names ∧ ¬ Python.truthy (r.get "content_hash") = true then
      r.set "content_hash" (.text (computeRowHash e tableName r))
    else r

/-- Pull the given tables of the cloud into a staging database that is still empty, so that
the manifest is empty and every cloud row differs from it. -/
def pullTables (e : Env) (cloud : Database) :
    List (String × TableDdl) → Database → Except SqlError Database
  | [], temp => .ok temp
  | (t, d) :: rest, temp =>
    if isVirtual d then pullTables e cloud rest temp
    else
      match cloud.find t, temp.find t with
      | some C, some T =>
        match T.upsertAll e.now (pullRecords e t C) with
        | .ok T' => pullTables e cloud rest (temp.update t fun _ => T')
        | .error err => .error err
      | _, _ => .error (.noSuchTable t)

/-- The staging tables before the pull. -/
def stagingTables (e : Env) : Database :=
  Database.ofSchemas ((e.tables.filter fun p => !isVirtual p.2).map fun p => (p.1, p.2.schema))

/-- The cloud rows, staged in a database of their own. -/
def pullToLocal (e : Env) (cloud : Database) : Except SqlError Database :=
  pullTables e cloud e.tables (stagingTables e)

end Sync
