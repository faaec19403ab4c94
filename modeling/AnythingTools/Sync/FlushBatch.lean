import AnythingTools.Grouping
import AnythingTools.Relational.MergeRow
import AnythingTools.Sync.CloudWriter

namespace Sync
open Relational Relational.Database
set_option autoImplicit true

/-- The key that records are deduplicated by; a record without one stays for itself. -/
def dedupKey (pkCol : PkCol) (r : Row) : Option (List Value) :=
  match pkCol with
  | .one c => if r.get c = .null then none else some [r.get c]
  | .several cs => if cs.all fun c => decide (c ∈ r.columns) then some (cs.map r.get) else none

def dedupStep (pkCol : PkCol) (acc : List Row) (r : Row) : List Row :=
  match dedupKey pkCol r with
  | none => acc ++ [r]
  | some k =>
    if acc.any fun a => decide (dedupKey pkCol a = some k) then
      acc.map fun a => if dedupKey pkCol a = some k then r else a
    else acc ++ [r]

def dedupedRecords (pkCol : PkCol) (records : List Row) : List Row :=
  records.foldl (dedupStep pkCol) []

/-- A record as it is staged; one with an invalid embedding goes to the dead letter queue. -/
def stagedRow (engine : CloudEngine) (columns : List String) (r : Row) : Option Row :=
  if "embedding" ∈ columns then
    (normalizeEmbedding engine (r.get "embedding")).map fun v =>
      Row.build columns fun c => if c = "embedding" then v else r.get c
  else some (Row.build columns r.get)

/-- A bound parameter is missing. -/
def unbound (columns : List String) (r : Row) : Bool :=
  columns.any fun c => decide (c ≠ "embedding" ∧ c ∉ r.columns)

def flushUpsert (engine : CloudEngine) (cloud : Database) (t : String) (pkCol : PkCol)
    (columns : List String) (records : List Row) : Except SqlError Database :=
  let bound := records.filter fun r => (stagedRow engine columns r).isSome
  let src := bound.filterMap (stagedRow engine columns)
  if src = [] then .ok cloud
  else
    match cloud.find t with
    | none => .error (.noSuchTable t)
    | some C =>
      -- no parameter for a column, no column to join on, nothing to set
      if (bound.any (unbound columns)) = true ∨ (∃ c ∈ pkCol.cols, c ∉ columns) ∨
          ∀ c ∈ columns, c ∈ pkCol.cols then .error .refused
      else if "embedding" ∈ columns then
        match pkCol with
        | .one c =>
          if c = "embedding" then .error .refused
          else do
            let C' ← (Python.chunks 100 src).foldlM (Table.merge engine.now [c] columns) C
            return cloud.update t fun _ => C'
        | .several _ => .error .refused
      else do
        let C' ← C.merge engine.now pkCol.cols columns src
        return cloud.update t fun _ => C'

def Table.deleteWhere (C : Table) (gone : Row → Bool) : Table :=
  { C with rows := C.rows.filter fun q => !gone q }

def flushDelete (cloud : Database) (t : String) (pkCol : PkCol) (records : List Row) :
    Except SqlError Database :=
  let bound :=
    match pkCol with
    | .one c => records.filter fun r => decide (c ∈ r.columns)
    | .several _ => records
  if bound = [] then .ok cloud
  else
    match cloud.find t with
    | none => .error (.noSuchTable t)
    | some C =>
      if pkCol.cols = [] ∨ (∃ c ∈ pkCol.cols, c ∉ C.schema.names) ∨
          ∃ r ∈ bound, ∃ c ∈ pkCol.cols, c ∉ r.columns then .error .refused
      else .ok (cloud.update t fun _ =>
        Table.deleteWhere C fun q => bound.any fun r => Row.sameKey pkCol.cols q r)

/-- One group of the buffer, in a transaction of its own. -/
def flushGroup (engine : CloudEngine) (cloud : Database) (g : BatchKey × List Row) :
    Except SqlError Database :=
  match g.1.operation, g.2 with
  | .delete, records => flushDelete cloud g.1.tableName g.1.pkCol records
  | .upsert, [] => .ok cloud
  | .upsert, r :: rs =>
    flushUpsert engine cloud g.1.tableName g.1.pkCol r.columns
      (dedupedRecords g.1.pkCol (r :: rs))

/-- `_flush_batch`, as far as no group fails. -/
def flushTasks (engine : CloudEngine) (cloud : Database) (batch : List CloudWriteTask) :
    Except SqlError Database :=
  (bufferOf batch).foldlM (flushGroup engine) cloud

/-- The batches of the loop, one after the other. -/
def flushAll (engine : CloudEngine) (cloud : Database) (batches : List (List CloudWriteTask)) :
    Except SqlError Database :=
  batches.foldlM (flushTasks engine) cloud

/-- The tasks one at a time. -/
def executeInOrder (engine : CloudEngine) (cloud : Database) (tasks : List CloudWriteTask) :
    Except SqlError Database :=
  tasks.foldlM (fun cloud task => flushGroup engine cloud (task.key, task.records)) cloud

end Sync
