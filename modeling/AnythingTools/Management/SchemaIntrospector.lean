import AnythingTools.Relational.Frame
import AnythingTools.Sync.DiffEngine
import AnythingTools.Sync.PullToLocal

namespace Management
open Relational Relational.Database Session
set_option autoImplicit true

/-- A connection to the operational database. -/
abbrev Conn := Session Database SqlError

/-- The statements of the script of a table. -/
def statements (t : String) (d : TableDdl) : List DdlStmt :=
  .table d.ifNotExists t d.schema :: d.indexes.map (.index t)

theorem statements_on (t : String) (d : TableDdl) : ∀ s ∈ statements t d, DdlStmt.On t s := by
  intro s hs
  rcases List.mem_cons.1 hs with he | hi
  · rw [he]
    rfl
  · obtain ⟨d', _, he⟩ := List.mem_map.1 hi
    rw [← he]
    rfl

def getColumns (db : Database) (tableName : String) : List Column :=
  match db.find tableName with
  | none => []
  | some T => T.schema.columns

theorem getColumns_of_find (h : Database.find db t = some T) : getColumns db t = T.schema.columns := by
  rw [getColumns, h]

def normalizeTypeAffinity (type : String) : Affinity := Affinity.ofType type

/-- The columns of a script, run in a memory database that does not load the vector extension. -/
def columnsFromDdlInMemory (ddl : TableDdl) (tableName : String) : Option (List Column) :=
  if ddl.schema.module = some "vec0" then none
  else
    match exec (executescript (statements tableName ddl)) { tables := ∅, indexes := ∅ } with
    | (.ok _, mem) => some (getColumns mem tableName)
    | (.error _, _) => none

def extractDefaultFromDdl (ddl : TableDdl) (tableName columnName : String) : Option Default :=
  match columnsFromDdlInMemory ddl tableName with
  | none => none
  | some cols => (cols.find? fun c => decide (c.name = columnName)).bind Column.dfltValue

/-- A function that fills a column, and the number of rows it filled. -/
abbrev ColumnFillFunc := Sync.Env → String → String → Conn Nat

/-- The columns that the backup registry keeps for checksums. -/
def registryChecksumColumns (e : Sync.Env) (tableName : String) : List String :=
  match e.tables.lookup tableName with
  | none => []
  | some d =>
    match columnsFromDdlInMemory d tableName with
    | none => []
    | some cols => (cols.map Column.name).filter fun c => decide (c ∉ ["embedding", "vec_rowid"])

def isUnfilled (columnName : String) (r : Row) : Bool :=
  decide (r.get columnName = .text "") || decide (r.get columnName = .null)

/-- `UPDATE t SET c = ? WHERE pk = ?`. -/
def setByKey (tableName columnName pkCol : String) (p : Value × Value) : Conn Unit :=
  stmt fun db => db.updateWhere tableName columnName p.1
    fun r => Row.sameKey [pkCol] r [(pkCol, p.2)]

def fillContentHash : ColumnFillFunc := fun e tableName columnName => do
  let checksumCols := registryChecksumColumns e tableName
  if checksumCols = [] then return 0
  else
    let db ← get
    match (Sync.detectPkColumns db tableName).1, db.find tableName with
    | [pkCol], some T =>
      match (pkCol :: checksumCols ++ [columnName]).find? fun c => decide (c ∉ T.schema.names) with
      | some c => throw (.noSuchColumn c)
      | none =>
        let batch := (T.rows.filter (isUnfilled columnName)).map fun r =>
          (Value.text (e.digest ("||".intercalate (checksumCols.map fun c =>
            Sync.strip (Python.strOr (r.get c))))), r.get pkCol)
        batch.forM (setByKey tableName columnName pkCol)
        return batch.length
    | _, none => throw (.noSuchTable tableName)
    | pkCols, _ => throw (.noSuchColumn (", ".intercalate pkCols))

def fillEmbeddingStatus : ColumnFillFunc := fun _ tableName columnName => do
  let db ← get
  let filled := ((db.rows tableName).filter (isUnfilled columnName)).length
  stmt fun db => db.updateWhere tableName columnName (.text "PENDING") (isUnfilled columnName)
  return filled

/-- The tables whose `content_hash` is filled. -/
def contentHashTables : List String :=
  ["scraped_articles", "scraped_articles_vec_backup", "broadcast_batches", "broadcast_details",
    "sn_filings", "sn_notes", "sn_detail_registry", "sn_note_details"]

def getFiller (tableName columnName : String) : Option ColumnFillFunc :=
  if tableName ∈ contentHashTables ∧ columnName = "content_hash" then some fillContentHash
  else if tableName = "scraped_articles" ∧ columnName = "embedding_status" then
    some fillEmbeddingStatus
  else none

theorem fillContentHash_onlyTable (e : Sync.Env) (t c : String) :
    Frames (OnlyTable t) (fillContentHash e t c) := by
  unfold fillContentHash
  dsimp only
  split
  · exact Frames.pure 0
  · apply Frames.bind
    · exact Frames.get
    · intro db
      split
      · split
        · exact Frames.throw _
        · apply Frames.bind
          · apply Frames.forM
            intro p _
            apply Frames.stmt
            intro db db' h
            exact updateWhere_onlyTable h
          · intro _
            exact Frames.pure _
      · exact Frames.throw _
      · exact Frames.throw _

theorem fillEmbeddingStatus_onlyTable (e : Sync.Env) (t c : String) :
    Frames (OnlyTable t) (fillEmbeddingStatus e t c) := by
  apply Frames.bind
  · exact Frames.get
  · intro db
    apply Frames.bind
    · apply Frames.stmt
      intro db db' h
      exact updateWhere_onlyTable h
    · intro _
      exact Frames.pure _

/-- A filler changes only its table. -/
theorem getFiller_onlyTable {filler : ColumnFillFunc} (h : getFiller t c = some filler)
    (e : Sync.Env) : Frames (OnlyTable t) (filler e t c) := by
  rw [getFiller] at h
  split at h
  · cases h
    exact fillContentHash_onlyTable e t c
  · split at h
    · cases h
      exact fillEmbeddingStatus_onlyTable e t c
    · cases h

end Management
