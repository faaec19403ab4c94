import AnythingTools.Management.SchemaIntrospector
import Mathlib.Data.List.Sort

namespace Management
open Relational Relational.Database Session Schemas
set_option autoImplicit true

structure ColumnMismatch where
  columnName : String
  actualType : String
  expectedType : String
  isPrimaryKey : Bool

structure TypeMismatchPlan where
  tableName : String
  mismatches : List ColumnMismatch := []
  cloneTableName : String
  newDdl : TableDdl
  columnsToSkip : List String := []
  pkColumn : String
  totalRows : Nat := 0
  isMaster : Bool := false

inductive MigrationPhase where
  | clone
  | recreate
  | repopulate
  | autofill
  | validate
deriving DecidableEq, Repr

inductive MigrationStatus where
  | pending
  | running
  | success
  | failed
  | rolledBack
deriving DecidableEq, Repr

structure MigrationRecord where
  tableName : String
  phase : MigrationPhase
  status : MigrationStatus := .pending
  errorMessage : Option SqlError := none
  rowsAffected : Nat := 0
  cloneTableName : Option String
deriving DecidableEq, Repr

/-- A step at which the connection fails, and how much of the step was done by then. -/
inductive Fault where
  | clone
  | recreate (done : Nat)
  | repopulate
  | autofill (done : Nat)
  | validate
deriving DecidableEq, Repr

def cloneTable (fault : Option Fault) (plan : TypeMismatchPlan) : Conn Unit :=
  if fault = some .clone then throw .io
  else stmt fun db => db.renameTable plan.tableName plan.cloneTableName

def recreateTable (fault : Option Fault) (plan : TypeMismatchPlan) : Conn Unit :=
  match fault with
  | some (.recreate done) => do
    executescript ((statements plan.tableName plan.newDdl).take done)
    throw .io
  | _ => executescript (statements plan.tableName plan.newDdl)

/-- What a skipped column that may not be NULL is filled with. -/
def skippedValue (e : Sync.Env) (plan : TypeMismatchPlan) (d : Column) : Value :=
  match extractDefaultFromDdl plan.newDdl plan.tableName d.name with
  | some v => v.value e.now
  | none =>
    if normalizeTypeAffinity d.type ∈ [.integer, .real, .numeric] then .int 0 else .text ""

/-- What is selected for a column of the new table, if it is in the `INSERT` at all. -/
def insertColumn (e : Sync.Env) (plan : TypeMismatchPlan) (cloneCols : List String)
    (desired : List Column) (c : String) : Option (Row → Value) :=
  if c ∈ cloneCols ∧ c ∉ plan.columnsToSkip then some fun r => r.get c
  else if c ∈ plan.columnsToSkip then
    match desired.find? fun d => decide (d.name = c) with
    | some d => if d.notnull = true then some fun _ => skippedValue e plan d else none
    | none => none
  else none

/-- The columns of the `INSERT`, each with what is selected for it. -/
def insertColumns (e : Sync.Env) (plan : TypeMismatchPlan) (cloneCols newCols : List String)
    (desired : List Column) : List (String × (Row → Value)) :=
  newCols.filterMap fun c => (insertColumn e plan cloneCols desired c).map fun f => (c, f)

def repopulateFromClone (e : Sync.Env) (fault : Option Fault) (plan : TypeMismatchPlan) :
    Conn Nat :=
  if fault = some .repopulate then throw .io
  else do
    let db ← get
    let cols := insertColumns e plan ((getColumns db plan.cloneTableName).map Column.name)
      ((getColumns db plan.tableName).map Column.name)
      ((columnsFromDdlInMemory plan.newDdl plan.tableName).getD [])
    if cols = [] then return 0
    else
      match db.find plan.cloneTableName with
      | none => throw (.noSuchTable plan.cloneTableName)
      | some C =>
        let rows := C.rows.map fun r => cols.map fun p => (p.1, p.2 r)
        stmt fun db => db.insertRows e.now plan.tableName rows
        return rows.length

/-- Fill one column; an error is only logged. -/
def autofillColumn (e : Sync.Env) (plan : TypeMismatchPlan) (total : Nat) (colName : String) :
    Conn Nat :=
  match getFiller plan.tableName colName with
  | none => return total
  | some filler =>
    attempt
      (do
        let filled ← filler e plan.tableName colName
        return total + filled)
      fun _ => return total

def autofillSkippedColumns (e : Sync.Env) (fault : Option Fault) (plan : TypeMismatchPlan) :
    Conn Nat :=
  match fault with
  | some (.autofill done) => do
    let _ ← (plan.columnsToSkip.take done).foldlM (autofillColumn e plan) 0
    throw .io
  | _ => plan.columnsToSkip.foldlM (autofillColumn e plan) 0

/-- The column is there with the affinity of the script. -/
def columnIsValid (actual : List Column) (d : Column) : Bool :=
  match actual.find? fun a => decide (a.name = d.name) with
  | none => false
  | some a => decide (normalizeTypeAffinity a.type = normalizeTypeAffinity d.type)

def validateOperational (fault : Option Fault) (plan : TypeMismatchPlan) : Conn Unit :=
  if fault = some .validate then throw .io
  else do
    let db ← get
    let desired := (columnsFromDdlInMemory plan.newDdl plan.tableName).getD []
    if desired.all (columnIsValid (getColumns db plan.tableName)) then return ()
    else throw .refused

def rollbackFromClone (plan : TypeMismatchPlan) : Conn Unit :=
  attempt
    (do
      stmt fun db => .ok (db.dropTable true plan.tableName)
      stmt fun db => db.renameTable plan.cloneTableName plan.tableName)
    fun _ => return ()

/-- The steps of a migration after the clone. -/
def rebuildSteps (e : Sync.Env) (fault : Option Fault) (plan : TypeMismatchPlan) : Conn Nat := do
  recreateTable fault plan
  let rows ← repopulateFromClone e fault plan
  let _ ← autofillSkippedColumns e fault plan
  validateOperational fault plan
  return rows

def migrateOperational (e : Sync.Env) (fault : Option Fault) (plan : TypeMismatchPlan) :
    Conn MigrationRecord :=
  let record : MigrationRecord :=
    { tableName := plan.tableName, phase := .clone, cloneTableName := some plan.cloneTableName }
  attempt
    (do
      cloneTable fault plan
      let rows ← rebuildSteps e fault plan
      return { record with status := .success, rowsAffected := rows })
    fun err => do
      rollbackFromClone plan
      return { record with status := .rolledBack, errorMessage := some err }

/-- What goes wrong in a migration: one of its steps, and the rollback after some of its
statements. -/
structure Failure where
  step : Option Fault := none
  rollback : Option Nat := none

/-- The rollback, as far as the connection lets it; its error is only logged. -/
def rollbackUpTo (stop : Option Nat) (plan : TypeMismatchPlan) : Conn Unit :=
  match stop with
  | none => rollbackFromClone plan
  | some 0 => return ()
  | some _ => stmt fun db => .ok (db.dropTable true plan.tableName)

/-- `_migrate_operational`, also when its rollback fails. -/
def migrate (e : Sync.Env) (f : Failure) (plan : TypeMismatchPlan) : Conn MigrationRecord :=
  let record : MigrationRecord :=
    { tableName := plan.tableName, phase := .clone, cloneTableName := some plan.cloneTableName }
  attempt
    (do
      cloneTable f.step plan
      let rows ← rebuildSteps e f.step plan
      return { record with status := .success, rowsAffected := rows })
    fun err => do
      let record := { record with status := .failed, errorMessage := some err }
      rollbackUpTo f.rollback plan
      return { record with status := .rolledBack }

/-- The place of the table of a plan among the persisted ones. -/
def order (p : TypeMismatchPlan) : Nat :=
  if p.tableName ∈ persistedTables then persistedTables.idxOf p.tableName else 999

def sortedPlans (plans : List TypeMismatchPlan) : List TypeMismatchPlan :=
  plans.insertionSort fun p q => order p ≤ order q

/-- Migrate one plan after the other up to a failed one. The failures are counted from `k`. -/
def executeSorted (e : Sync.Env) (fails : Nat → Failure) :
    List TypeMismatchPlan → Nat → Conn (List MigrationRecord)
  | [], _ => return []
  | plan :: plans, k => do
    let record ← migrate e (fails k) plan
    if record.status = .failed then return [record]
    else
      let records ← executeSorted e fails plans (k + 1)
      return record :: records

/-- `DualDBMigrationCoordinator.execute`. -/
def execute (e : Sync.Env) (fails : Nat → Failure) (plans : List TypeMismatchPlan) :
    Conn (List MigrationRecord) :=
  executeSorted e fails (sortedPlans plans) 0

/-- The steps after the clone touch the table only. -/
theorem recreateTable_onlyTable (fault : Option Fault) (plan : TypeMismatchPlan) :
    Frames (OnlyTable plan.tableName) (recreateTable fault plan) := by
  have hall := statements_on plan.tableName plan.newDdl
  unfold recreateTable
  split
  next done =>
    apply Frames.bind
    · apply executescript_onlyTable
      intro s hs
      exact hall s (List.mem_of_mem_take hs)
    · intro _
      exact Frames.throw _
  next => exact executescript_onlyTable hall

theorem repopulateFromClone_onlyTable (e : Sync.Env) (fault : Option Fault)
    (plan : TypeMismatchPlan) :
    Frames (OnlyTable plan.tableName) (repopulateFromClone e fault plan) := by
  unfold repopulateFromClone
  split
  · exact Frames.throw _
  · apply Frames.bind
    · exact Frames.get
    · intro db
      dsimp only
      split
      · exact Frames.pure _
      · split
        · exact Frames.throw _
        · apply Frames.bind
          · apply Frames.stmt
            intro db db' h
            exact insertRows_onlyTable h
          · intro _
            exact Frames.pure _

theorem autofillColumn_onlyTable (e : Sync.Env) (plan : TypeMismatchPlan) (total : Nat)
    (c : String) : Frames (OnlyTable plan.tableName) (autofillColumn e plan total c) := by
  unfold autofillColumn
  split
  · exact Frames.pure _
  next filler hf =>
    apply Frames.attempt
    · apply Frames.bind
      · exact getFiller_onlyTable hf e
      · intro filled
        exact Frames.pure _
    · intro _
      exact Frames.pure _

theorem autofillSkippedColumns_onlyTable (e : Sync.Env) (fault : Option Fault)
    (plan : TypeMismatchPlan) :
    Frames (OnlyTable plan.tableName) (autofillSkippedColumns e fault plan) := by
  unfold autofillSkippedColumns
  split
  · apply Frames.bind
    · apply Frames.foldlM
      intro total c _
      exact autofillColumn_onlyTable e plan total c
    · intro _
      exact Frames.throw _
  · apply Frames.foldlM
    intro total c _
    exact autofillColumn_onlyTable e plan total c

theorem validateOperational_onlyTable (fault : Option Fault) (plan : TypeMismatchPlan) :
    Frames (OnlyTable plan.tableName) (validateOperational fault plan) := by
  unfold validateOperational
  split
  · exact Frames.throw _
  · apply Frames.bind
    · exact Frames.get
    · intro db
      dsimp only
      split
      · exact Frames.pure _
      · exact Frames.throw _

theorem rebuildSteps_onlyTable (e : Sync.Env) (fault : Option Fault) (plan : TypeMismatchPlan) :
    Frames (OnlyTable plan.tableName) (rebuildSteps e fault plan) := by
  apply Frames.bind (recreateTable_onlyTable fault plan)
  intro _
  apply Frames.bind (repopulateFromClone_onlyTable e fault plan)
  intro rows
  apply Frames.bind (autofillSkippedColumns_onlyTable e fault plan)
  intro _
  apply Frames.bind (validateOperational_onlyTable fault plan)
  intro _
  exact Frames.pure rows

end Management
