import AnythingTools.Management.Rollback

namespace Management
open Relational Relational.Database Session Schemas
set_option autoImplicit true

/-- The plans that the records are of were taken in the order of the persisted tables, all of them
if each succeeded, and none after one that did not. -/
structure StopsAtFailure (plans : List TypeMismatchPlan) (records : List MigrationRecord) :
    Prop where
  inOrder : ∃ sorted done, sorted.Perm plans ∧ sorted.Pairwise (fun p q => order p ≤ order q) ∧
    done <+: sorted ∧
      records.map (fun r => (r.tableName, r.cloneTableName)) =
        done.map fun p => (p.tableName, some p.cloneTableName)
  complete : (∀ r ∈ records, r.status = .success) → records.length = plans.length
  stops : records.Pairwise fun r _ => r.status = .success

/-- What a migration does before its rollback. -/
def migrationSteps (e : Sync.Env) (fault : Option Fault) (plan : TypeMismatchPlan) : Conn Nat := do
  cloneTable fault plan
  rebuildSteps e fault plan

/-- A step of the migration raises. -/
def Raises (e : Sync.Env) (fault : Option Fault) (plan : TypeMismatchPlan) (db : Database) : Prop :=
  ¬ ∃ rows, (exec (migrationSteps e fault plan) db).1 = .ok rows

/-- No step of a plan raises unless the plan is the last one. -/
def OnlyLastRaises (e : Sync.Env) (fails : Nat → Failure) :
    List TypeMismatchPlan → Nat → Database → Prop
  | p :: q :: ps, k, db => ¬ Raises e (fails k).step p db ∧
      OnlyLastRaises e fails (q :: ps) (k + 1) (left (migrationSteps e (fails k).step p) db)
  | _, _, _ => True

theorem exec_rollbackUpTo (stop : Option Nat) (plan : TypeMismatchPlan) (db : Database) :
    exec (rollbackUpTo stop plan) db = (.ok (), left (rollbackUpTo stop plan) db) := by
  rw [left]
  unfold rollbackUpTo
  split
  · rw [rollbackFromClone, exec_attempt, exec_bind, exec_stmt]
    dsimp only
    rw [exec_stmt]
    cases (db.dropTable true plan.tableName).renameTable plan.cloneTableName plan.tableName with
    | ok db' => rfl
    | error err => rfl
  · rfl
  · rw [exec_stmt]

/-- The record of a migration is never left failed. -/
theorem exec_migrate (e : Sync.Env) (f : Failure) (plan : TypeMismatchPlan) (db : Database) :
    ∃ record, (exec (migrate e f plan) db).1 = .ok record ∧
      (record.tableName, record.cloneTableName) = (plan.tableName, some plan.cloneTableName) ∧
      record.status ≠ .failed ∧
      (record.status = .success ↔ ¬ Raises e f.step plan db) ∧
      (¬ Raises e f.step plan db →
        left (migrate e f plan) db = left (migrationSteps e f.step plan) db) := by
  rw [Raises, not_not, left, left]
  rw [migrate, exec_attempt, migrationSteps, exec_bind, exec_bind]
  cases exec (cloneTable f.step plan) db with
  | mk r db₁ =>
    cases r with
    | error err =>
      dsimp only
      rw [exec_bind, exec_rollbackUpTo]
      refine ⟨_, rfl, rfl, by simp, ?_, ?_⟩
      · apply iff_of_false (by simp)
        rintro ⟨rows, h⟩
        cases h
      · rintro ⟨rows, h⟩
        cases h
    | ok u =>
      dsimp only
      rw [exec_bind]
      cases exec (rebuildSteps e f.step plan) db₁ with
      | mk r db₂ =>
        cases r with
        | ok rows => exact ⟨_, rfl, rfl, by simp, iff_of_true rfl ⟨rows, rfl⟩, fun _ => rfl⟩
        | error err =>
          dsimp only
          rw [exec_bind, exec_rollbackUpTo]
          refine ⟨_, rfl, rfl, by simp, ?_, ?_⟩
          · apply iff_of_false (by simp)
            rintro ⟨rows, h⟩
            cases h
          · rintro ⟨rows, h⟩
            cases h

/-- Every plan is migrated, whatever became of the ones before it. -/
theorem exec_executeSorted (e : Sync.Env) (fails : Nat → Failure) (plans : List TypeMismatchPlan)
    (k : Nat) (db : Database) :
    ∃ records, (exec (executeSorted e fails plans k) db).1 = .ok records ∧
      records.map (fun r => (r.tableName, r.cloneTableName)) =
        plans.map (fun p => (p.tableName, some p.cloneTableName)) ∧
      (records.Pairwise (fun r _ => r.status = .success) ↔ OnlyLastRaises e fails plans k db) := by
  induction plans generalizing k db with
  | nil => exact ⟨[], rfl, rfl, iff_of_true .nil trivial⟩
  | cons p ps ih =>
    obtain ⟨record, hrecord, hname, hfailed, hsuccess, hleft⟩ := exec_migrate e (fails k) p db
    obtain ⟨records, hrecords, hnames, hstops⟩ := ih (k + 1) (left (migrate e (fails k) p) db)
    have hexec : (exec (executeSorted e fails (p :: ps) k) db).1 = .ok (record :: records) := by
      rw [executeSorted, exec_bind]
      rw [left] at hrecords
      cases hm : exec (migrate e (fails k) p) db with
      | mk r db₁ =>
        rw [hm] at hrecord hrecords
        cases hrecord
        dsimp only at hrecords ⊢
        rw [if_neg hfailed, exec_bind]
        cases hps : exec (executeSorted e fails ps (k + 1)) db₁ with
        | mk r db₂ =>
          rw [hps] at hrecords
          cases hrecords
          rfl
    refine ⟨record :: records, hexec, ?_, ?_⟩
    · rw [List.map_cons, List.map_cons, hnames, hname]
    · rw [List.pairwise_cons, hstops]
      cases ps with
      | nil =>
        have hr : records = [] := List.map_eq_nil_iff.1 hnames
        subst hr
        exact iff_of_true ⟨fun _ h => (List.not_mem_nil h).elim, trivial⟩ trivial
      | cons q ps =>
        have hlater : (∀ r ∈ records, record.status = .success) ↔
            ¬ Raises e (fails k).step p db := by
          rw [← hsuccess]
          apply Iff.intro
          · intro h
            obtain ⟨r, hr⟩ : ∃ r, r ∈ records := by
              apply List.exists_mem_of_ne_nil
              intro he
              rw [he] at hnames
              cases hnames
            exact h r hr
          · intro h _ _
            exact h
        rw [OnlyLastRaises, hlater]
        apply and_congr_right
        intro h
        rw [hleft h]

/-- The plans are migrated in order and none after one that failed exactly when no plan but the
last one fails. -/
theorem execute_stops_iff (e : Sync.Env) (fails : Nat → Failure) (plans : List TypeMismatchPlan)
    (db : Database) :
    (∃ records, (exec (execute e fails plans) db).1 = .ok records ∧
        StopsAtFailure plans records) ↔
      OnlyLastRaises e fails (sortedPlans plans) 0 db := by
  obtain ⟨records, hrecords, hnames, hstops⟩ :=
    exec_executeSorted e fails (sortedPlans plans) 0 db
  have hperm : (sortedPlans plans).Perm plans := List.perm_insertionSort _ plans
  rw [← hstops]
  apply Iff.intro
  · intro ⟨records', hr, h⟩
    rw [execute, hrecords] at hr
    cases hr
    exact h.stops
  · intro h
    refine ⟨records, hrecords, ⟨?_, ?_, h⟩⟩
    · have htotal : Std.Total fun p q : TypeMismatchPlan => order p ≤ order q :=
        ⟨fun p q => Nat.le_total (order p) (order q)⟩
      have htrans : IsTrans TypeMismatchPlan fun p q => order p ≤ order q :=
        ⟨fun _ _ _ => Nat.le_trans⟩
      exact ⟨sortedPlans plans, sortedPlans plans, hperm,
        List.pairwise_insertionSort _ plans, List.prefix_rfl, hnames⟩
    · intro _
      rw [← hperm.length_eq]
      simpa only [List.length_map] using congrArg List.length hnames

/-- The tickers of an older program, where the company may be unknown. -/
def olderTickers : Schema :=
  { sfTickers.schema with
    columns := sfTickers.schema.columns.map fun c =>
      if c.name = "company_name" then { c with notnull := false, dfltValue := none } else c }

def olderDb : Database where
  tables := (AList.singleton "sf_tickers"
      { schema := olderTickers
        rows := [olderTickers.coerce "2024-05-01 00:00:00" [("ticker", .text "ACME")]] }).insert
    "dead_letter_queue" { schema := deadLetterQueue.schema, rows := [noteRow "d1"] }
  indexes := ∅

def tickersPlan : TypeMismatchPlan where
  tableName := "sf_tickers"
  cloneTableName := "_migrate_sf_tickers_1714521600"
  newDdl := sfTickers
  pkColumn := "ticker"
  totalRows := 1

/-- A ticker without a company cannot be migrated; the queue is migrated all the same. -/
theorem execute_goes_on :
    ¬ ∃ records, (exec (execute rollbackEnv (fun _ => {}) [queuePlan, tickersPlan]) olderDb).1 =
      .ok records ∧ StopsAtFailure [queuePlan, tickersPlan] records := by
  intro ⟨records, hr, h⟩
  have hrun : (exec (execute rollbackEnv (fun _ => {}) [queuePlan, tickersPlan]) olderDb).1.toOption.map
      (List.map MigrationRecord.status) = some [.rolledBack, .success] := by
    decide +kernel
  rw [hr] at hrun
  have hstatus : records.map MigrationRecord.status = [.rolledBack, .success] := Option.some.inj hrun
  have hstops : (records.map MigrationRecord.status).Pairwise fun s _ => s = .success :=
    List.pairwise_map.2 h.stops
  rw [hstatus, List.pairwise_cons] at hstops
  cases hstops.1 .success List.mem_cons_self

end Management
