import AnythingTools.Management.MigrationCoordinator
import AnythingTools.Relational.AlterColumn
import Mathlib.Data.List.Dedup

namespace Management
open Relational Relational.Database Session Schemas
set_option autoImplicit true

def isPrefix (p s : String) : Bool := p.toList.isPrefixOf s.toList

/-- `_prune_unexpected` drops the table. -/
def isUnexpected (expectedTables : List (String × TableDdl)) (table : String) : Bool :=
  !isPrefix "sqlite_" table && !expectedTables.any (fun p => isPrefix (p.1 ++ "_") table) &&
    !isPrefix "_migrate_" table && !isPrefix "_old_" table && !isPrefix "sn_dt_" table &&
    !expectedTables.any fun p => decide (p.1 = table)

def desiredCols (t : String) (d : TableDdl) : List Column := (columnsFromDdlInMemory d t).getD []

/-- The columns of the script that the table has in another type. -/
def typeDrift (actual desired : List Column) : List Column :=
  desired.filter fun d => actual.any fun a =>
    decide (a.name = d.name) && decide (normalizeTypeAffinity a.type ≠ normalizeTypeAffinity d.type)

/-- The columns of the script that the table has with another NOT NULL or PRIMARY KEY flag. -/
def constraintDrift (actual desired : List Column) : List Column :=
  desired.filter fun d => actual.any fun a =>
    decide (a.name = d.name) && (decide (a.notnull ≠ d.notnull) || decide (a.pk ≠ d.pk))

/-- Why a start fails. -/
inductive StartError where
  | sql (e : SqlError)
  | attributeError
  | dropColumn (t c : String)
  | zeroByteBackup
deriving DecidableEq, Repr

/-- The file `<db>.bak`. -/
inductive Backup where
  | empty
  | of (db : Database)

/-- The connection of the reconciler, with the backup beside the database. -/
structure Opened where
  db : Database
  bak : Option Backup := none

/-- What a start is given: the tables of the program, and what the machine does. -/
structure Start where
  expectedTables : List (String × TableDdl)
  nodup : (expectedTables.map Prod.fst).Nodup
  env : Sync.Env
  timestamp : Nat := 0
  /-- The order in which a set of columns is iterated. -/
  order : (extra : List String) → { l : List String // l.Perm extra } := fun l => ⟨l, .refl l⟩
  /-- The backup before a drop fails, and has made the file or not. -/
  backupFails : String → String → Option Bool := fun _ _ => none
  /-- A trigger or a view is in the way of a drop. -/
  dropFails : String → String → Bool := fun _ _ => false

abbrev Reconciling := Session Opened StartError

/-- A step of the connection to the database. -/
def onDb (m : Conn α) : Reconciling α := do
  let s ← get
  match exec m s.db with
  | (.ok a, db) => do
    set { s with db }
    return a
  | (.error e, db) => do
    set { s with db }
    throw (.sql e)

/-- What a report says of a table. -/
inductive Action where
  | pruned
  | created
  | unchanged
  | altered
  | needsMigration
deriving DecidableEq, Repr

structure Report where
  actions : List (String × Action) := []
  pendingFills : List (String × List String) := []
  typeMismatchPlans : List TypeMismatchPlan := []

def Report.add (report : Report) (t : String) (a : Action) : Report :=
  { report with actions := report.actions ++ [(t, a)] }

def pruneUnexpected (cfg : Start) : Reconciling Report := do
  let s ← get
  let unexpected := s.db.tables.keys.filter (isUnexpected cfg.expectedTables)
  unexpected.forM fun table => onDb (stmt fun db => .ok (db.dropTable false table))
  return { actions := unexpected.map fun table => (table, .pruned) }

/-- The plan for a table whose flags drifted; it has no mismatches of types. -/
def computeMismatchPlan (cfg : Start) (t : String) (d : TableDdl) (T : Table) : TypeMismatchPlan where
  tableName := t
  cloneTableName := "_migrate_" ++ t ++ "_" ++ toString cfg.timestamp
  newDdl := d
  pkColumn := ((T.schema.columns.filter fun c => decide (0 < c.pk)).map Column.name).getLastD "id"
  totalRows := T.rows.length
  isMaster := decide (t ∈ persistedTables)

/-- The definition that a missing column is added with. -/
def addedColumn (t : String) (d : TableDdl) (c : Column) : Column where
  name := c.name
  type := if c.type = "" then "TEXT" else c.type
  notnull := c.notnull
  dfltValue :=
    if c.notnull = true then
      match extractDefaultFromDdl d t c.name with
      | some v => some v
      | none =>
        match normalizeTypeAffinity c.type with
        | .integer => some (.int 0)
        | .real => some (.int 0)
        | _ => some (.text "")
    else c.dfltValue

/-- Add the missing columns, and which ones were added; one that cannot be is only logged. -/
def addMissingColumns (t : String) (d : TableDdl) (missing : List Column) :
    Reconciling (List String) :=
  missing.foldlM
    (fun added c =>
      attempt
        (do
          onDb (stmt fun db => db.addColumn t (addedColumn t d c))
          return added ++ [c.name])
        fun _ => return added)
    []

/-- Whether the index is on the column. A term that is an expression has no name, and asking for it
raises. -/
def indexIsOn (c : String) : List IndexTerm → Reconciling Bool
  | [] => return false
  | .expr _ :: _ => throw .attributeError
  | .column n :: terms => if n = c then return true else indexIsOn c terms

def dropDependentIndexes (t c : String) : Reconciling Unit := do
  let s ← get
  (s.db.indexes.entries.filter fun e => decide (e.2.table = t)).forM fun e => do
    if ← indexIsOn c e.2.terms then
      onDb (stmt fun db => .ok (db.dropIndex e.1))

/-- The backup before a drop: whether there is one. -/
def backupBeforeDrop (cfg : Start) (t c : String) : Reconciling Bool := do
  let s ← get
  match cfg.backupFails t c with
  | none => do
    set { s with bak := some (.of s.db) }
    return true
  | some created =>
    match s.bak, created with
    | none, true => do
      set { s with bak := some .empty }
      return false
    | _, _ => return false

/-- A drop failed: the database is reverted to the backup and the start ends. -/
def revertToBackup (t c : String) : Reconciling (List String) := do
  let s ← get
  match s.bak with
  | some (.of db) => do
    set { s with db }
    throw (.dropColumn t c)
  | _ => throw (.dropColumn t c)

/-- The indexes of a column and the column itself. -/
def dropColumnSteps (cfg : Start) (t c : String) : Reconciling Unit := do
  dropDependentIndexes t c
  if cfg.dropFails t c = true then throw (.sql .refused)
  else onDb (stmt fun db => db.dropColumn t c)

/-- Drop one extra column. The backup stays where it is. -/
def dropExtraColumn (cfg : Start) (t c : String) (dropped : List String) :
    Reconciling (List String) := do
  let backupPath ← backupBeforeDrop cfg t c
  attempt
    (do
      dropColumnSteps cfg t c
      return dropped ++ [c])
    fun _ => if backupPath = true then revertToBackup t c else return dropped

def dropExtraColumns (cfg : Start) (t : String) (extra : List String) :
    Reconciling (List String) :=
  (cfg.order extra).1.foldlM (fun dropped c => dropExtraColumn cfg t c dropped) []

/-- Reconcile one expected table with what is there. The types of a drifted column are looked up on
their names, which raises. -/
def validateStructure (cfg : Start) (t : String) (d : TableDdl) (report : Report) :
    Option Table → Reconciling Report
  | none => do
    onDb (executescript (statements t d))
    return report.add t .created
  | some T =>
    let actual := T.schema.columns
    let desired := desiredCols t d
    let missing := desired.filter fun c => decide (c.name ∉ T.schema.names)
    let extra := (T.schema.names.filter fun c => decide (c ∉ desired.map Column.name)).dedup
    if T.schema.module.isSome = true then return report.add t .unchanged
    else if typeDrift actual desired ≠ [] then throw .attributeError
    else if constraintDrift actual desired ≠ [] then
      return { report.add t .needsMigration with
        typeMismatchPlans := report.typeMismatchPlans ++ [computeMismatchPlan cfg t d T] }
    else do
      let added ← addMissingColumns t d missing
      let dropped ← dropExtraColumns cfg t extra
      if added = [] ∧ dropped = [] then return report.add t .unchanged
      else
        return { report with
          actions := report.actions ++ (added ++ dropped).map fun _ => (t, .altered)
          pendingFills :=
            if added = [] then report.pendingFills
            else report.pendingFills ++ [(t, missing.map Column.name)] }

def validateStructures (cfg : Start) : List (String × TableDdl) → Report → Reconciling Report
  | [], report => return report
  | (t, d) :: ps, report => do
    let s ← get
    let report ← validateStructure cfg t d report (s.db.find t)
    validateStructures cfg ps report

/-- Fill one new column of a table that has rows; an error is only logged. -/
def runAutoFill (cfg : Start) (t c : String) : Reconciling Unit :=
  match getFiller t c with
  | none => return ()
  | some filler =>
    attempt
      (do
        let s ← get
        if s.db.rows t = [] then return ()
        else
          let _ ← onDb (filler cfg.env t c)
          return ())
      fun _ => return ()

def runPendingAutoFills (cfg : Start) (pendingFills : List (String × List String)) :
    Reconciling Unit :=
  pendingFills.forM fun p => p.2.forM fun c => runAutoFill cfg p.1 c

/-- `SchemaReconciler.reconcile`. -/
def reconcile (cfg : Start) : Reconciling Report := do
  let report ← pruneUnexpected cfg
  let report ← validateStructures cfg cfg.expectedTables report
  runPendingAutoFills cfg report.pendingFills
  return report

def executePlans (cfg : Start) (plans : List TypeMismatchPlan) : Reconciling Unit := do
  let _ ← onDb (execute cfg.env (fun _ => {}) plans)

end Management
