import AnythingTools.Machine
import AnythingTools.Management.Rollback
import AnythingTools.Management.RowsKept

namespace Management
open Relational Relational.Database Session Schemas
set_option autoImplicit true

/-- The database file with its WAL, and the backup of the reconciler. -/
structure Disk where
  file : Option Database := none
  bak : Option Backup := none

/-- `restore_orphaned_backup`: the WAL is removed and the backup moved over the database. -/
def restoreOrphanedBackup (s : Disk) : Except StartError Disk :=
  match s.bak with
  | none => .ok s
  | some .empty => .error .zeroByteBackup
  | some (.of db) => .ok { file := some db, bak := none }

/-- `_initialize_database`: the scripts of all tables in one. -/
def initializeDatabase (cfg : Start) : Database :=
  left (executescript (cfg.expectedTables.flatMap fun p => statements p.1 p.2))
    { tables := ∅, indexes := ∅ }

def reconcileAndMigrate (cfg : Start) : Reconciling Unit := do
  let report ← reconcile cfg
  executePlans cfg report.typeMismatchPlans

/-- `_validate_single_db`. -/
def validateSingleDb (cfg : Start) (s : Disk) : Except StartError Unit × Disk :=
  match restoreOrphanedBackup s with
  | .error e => (.error e, s)
  | .ok s₁ =>
    match s₁.file with
    | none => (.ok (), { s₁ with file := some (initializeDatabase cfg) })
    | some db =>
      match exec (reconcileAndMigrate cfg) { db := db, bak := s₁.bak } with
      | (r, s₂) => (r, { file := some s₂.db, bak := s₂.bak })

/-- A start of some version of the program, or a committed write of any kind. -/
inductive DiskEvent where
  | start (cfg : Start)
  | write (db : Database)

def Disk.step (s : Disk) : DiskEvent → Option Disk
  | .start cfg => some (validateSingleDb cfg s).2
  | .write db =>
    match s.file with
    | some _ => some { s with file := some db }
    | none => none

/-- After a start without error every row of a table that it does not drop is still there. -/
def StartKeeps (s : Disk) : DiskEvent → Disk → Prop
  | .start cfg, s' => (validateSingleDb cfg s).1 = .ok () → ∀ db, s.file = some db →
      ∃ db', s'.file = some db' ∧ Kept cfg.expectedTables db db'
  | .write _, _ => True

/-- A start finds no backup or one that has all rows, and no drift of flags. -/
def Covered (s : Disk) : DiskEvent → Prop
  | .write _ => True
  | .start cfg =>
    match s.bak with
    | none => ∀ db, s.file = some db → ∀ p ∈ cfg.expectedTables, Undrifted p db
    | some .empty => True
    | some (.of b) => (∀ p ∈ cfg.expectedTables, Undrifted p b) ∧
        ∀ db, s.file = some db → Kept cfg.expectedTables db b

/-- From a database that has the rows, a start keeps them. -/
theorem reconcileAndMigrate_kept (cfg : Start) (hkept : Kept cfg.expectedTables db₀ db)
    (hflags : ∀ p ∈ cfg.expectedTables, Undrifted p db) :
    Kept cfg.expectedTables db₀ (left (reconcileAndMigrate cfg) { db }).db := by
  have hsound : Sound cfg.expectedTables db₀ cfg.expectedTables { db } :=
    ⟨⟨hkept, hflags⟩, fun b hb => nomatch hb⟩
  obtain ⟨hreconciled, hplans⟩ := reconcile_sound cfg hsound
  rw [left] at hreconciled ⊢
  rw [reconcileAndMigrate, exec_bind]
  cases hr : exec (reconcile cfg) { db } with
  | mk r s =>
    rw [hr] at hreconciled hplans
    cases r with
    | error e => exact hreconciled.1.kept
    | ok report =>
      dsimp only
      rw [hplans report rfl, executePlans]
      exact hreconciled.1.kept

theorem start_keeps (cfg : Start) {s : Disk} (hc : Covered s (.start cfg)) :
    StartKeeps s (.start cfg) (validateSingleDb cfg s).2 := by
  intro hok db hfile
  rw [Covered] at hc
  rw [validateSingleDb, restoreOrphanedBackup] at hok ⊢
  cases hbak : s.bak with
  | none =>
    rw [hbak] at hc
    dsimp only
    rw [hfile, hbak]
    exact ⟨_, rfl, reconcileAndMigrate_kept cfg (.refl _ db) (hc db hfile)⟩
  | some b =>
    rw [hbak] at hc hok
    cases b with
    | empty => cases hok
    | of b => exact ⟨_, rfl, reconcileAndMigrate_kept cfg (hc.2 db hfile) hc.1⟩

/-- In a run whose starts meet the condition, every start keeps the rows committed before it. -/
theorem starts_keep (hm : Machine.Meets Disk.step Covered s es) :
    Machine.Always Disk.step StartKeeps s es := by
  refine Machine.always_of_meets ?_ hm
  intro s e s' hc hs
  cases e with
  | write db => trivial
  | start cfg =>
    cases hs
    exact start_keeps cfg hc

def queueStart : Start where
  expectedTables := [("dead_letter_queue", deadLetterQueue)]
  nodup := List.nodup_singleton _
  env := rollbackEnv

def queueDb (rows : List Row) : Database where
  tables := AList.singleton "dead_letter_queue" { schema := deadLetterQueue.schema, rows := rows }
  indexes := ∅

/-- A dead letter queue of an older program, with a column that the script does not have. -/
def olderQueue : Disk where
  file := some {
    tables := AList.singleton "dead_letter_queue"
      { schema := { deadLetterQueue.schema with
          columns := deadLetterQueue.schema.columns ++ [col "notes" "TEXT"] }
        rows := [(noteRow "d1").add "notes" .null] }
    indexes := ∅ }

theorem starts_keep_olderQueue :
    (validateSingleDb queueStart olderQueue).1 = .ok () ∧
      Machine.Always Disk.step StartKeeps olderQueue [.start queueStart] := by
  refine ⟨by decide +kernel, starts_keep ⟨?_, fun _ _ => trivial⟩⟩
  intro db hdb p hp
  cases hdb
  cases List.mem_singleton.1 hp
  intro T hT _
  have hfind : T.schema.columns = deadLetterQueue.schema.columns ++ [col "notes" "TEXT"] := by
    cases hT
    rfl
  rw [hfind]
  decide +kernel

/-- The first start drops the column and leaves its backup, then a row is written, and the next
start restores the backup: the row is gone. -/
theorem row_rolled_back :
    ¬ Machine.Always Disk.step StartKeeps olderQueue
      [.start queueStart, .write (queueDb [noteRow "d1", noteRow "d2"]), .start queueStart] := by
  intro h
  obtain ⟨s₁, hs₁⟩ : ∃ s₁, s₁ = (validateSingleDb queueStart olderQueue).2 := ⟨_, rfl⟩
  have hstart := (h s₁ (congrArg some hs₁.symm)).2
  have hwrite := (hstart { s₁ with file := some (queueDb [noteRow "d1", noteRow "d2"]) }
    (by rw [hs₁]; rfl)).2
  have hlast := (hwrite _ rfl).1
  have hok : (validateSingleDb queueStart
      { s₁ with file := some (queueDb [noteRow "d1", noteRow "d2"]) }).1 = .ok () := by
    rw [hs₁]
    decide +kernel
  obtain ⟨db, hdb, hkept⟩ := hlast hok (queueDb [noteRow "d1", noteRow "d2"]) rfl
  have hrows : (validateSingleDb queueStart
      { s₁ with file := some (queueDb [noteRow "d1", noteRow "d2"]) }).2.file.map
        (fun db => (db.rows "dead_letter_queue").map fun r => r.get "dlq_id") =
      some [.text "d1"] := by
    rw [hs₁]
    decide +kernel
  rw [hdb] at hrows
  have hids : (db.rows "dead_letter_queue").map (fun r => r.get "dlq_id") = [.text "d1"] :=
    Option.some.inj hrows
  obtain ⟨T, hT, hkeeps⟩ := hkept "dead_letter_queue" _ (by decide +kernel) rfl
  obtain ⟨r, hr, hagree⟩ := hkeeps.rows (noteRow "d2") (by decide +kernel)
  have hid : r.get "dlq_id" = .text "d2" := by
    rw [hagree "dlq_id" (by decide +kernel) ?_]
    · decide +kernel
    · intro d hd
      cases List.mem_singleton.1 hd
      exact .inr (by decide +kernel)
  have hmem : r.get "dlq_id" ∈ (db.rows "dead_letter_queue").map fun r => r.get "dlq_id" := by
    rw [rows_of_find hT]
    exact List.mem_map_of_mem hr
  rw [hids, hid] at hmem
  exact absurd (List.mem_singleton.1 hmem) (by decide)

end Management
