import AnythingTools.Management.MigrationCoordinator

namespace Management
open Relational Relational.Database Session Schemas
set_option autoImplicit true

/-- The table exists with the rows, the schema and the indexes it had. -/
def SameTable (db db' : Database) (t : String) : Prop :=
  db'.find t = db.find t ∧ ∀ n, db'.indexesOn t n = db.indexesOn t n

/-- A step of the migration raises, so that it is rolled back. -/
def StepRaises (e : Sync.Env) (fault : Option Fault) (plan : TypeMismatchPlan) (db : Database) :
    Prop :=
  (exec (migrateOperational e fault plan) db).1.toOption.map MigrationRecord.status =
    some .rolledBack

instance : Decidable (StepRaises e fault plan db) := inferInstanceAs (Decidable (_ = _))

/-- The rename of the first step raises: the connection fails or the clone's name is taken. -/
def CloneRaises (fault : Option Fault) (db : Database) (plan : TypeMismatchPlan) : Prop :=
  fault = some .clone ∨ db.taken plan.cloneTableName = true

/-- Without the table, what has the clone's name is a copy of it, and neither has indexes. -/
def CloneIsCopy (db : Database) (plan : TypeMismatchPlan) (T : Table) : Prop :=
  (∃ C, (db.dropTable true plan.tableName).find plan.cloneTableName = some C ∧
      C.retarget plan.cloneTableName plan.tableName = T) ∧
    ∀ n ix, db.indexes.lookup n = some ix →
      ix.table ≠ plan.tableName ∧ ix.table ≠ plan.cloneTableName

theorem exec_cloneTable_raises (hT : db.find plan.tableName = some T)
    (h : CloneRaises fault db plan) :
    ∃ e, exec (cloneTable fault plan) db = (.error e, db) := by
  by_cases hf : fault = some .clone
  · exact ⟨.io, by rw [cloneTable, if_pos hf, exec_throw]⟩
  · have ht := h.resolve_left hf
    refine ⟨.nameTaken plan.cloneTableName, ?_⟩
    rw [cloneTable, if_neg hf, exec_stmt, renameTable, hT]
    dsimp only
    rw [if_pos ht]

theorem exec_cloneTable_renames (hT : db.find plan.tableName = some T)
    (h : ¬ CloneRaises fault db plan) :
    ∃ db₁, db.renameTable plan.tableName plan.cloneTableName = .ok db₁ ∧
      exec (cloneTable fault plan) db = (.ok (), db₁) := by
  have hf : ¬ fault = some .clone := fun hf => h (.inl hf)
  have ht : ¬ db.taken plan.cloneTableName = true := fun ht => h (.inr ht)
  cases hr : db.renameTable plan.tableName plan.cloneTableName with
  | error e =>
    rw [renameTable, hT] at hr
    dsimp only at hr
    rw [if_neg ht] at hr
    cases hr
  | ok db₁ => exact ⟨db₁, rfl, by rw [cloneTable, if_neg hf, exec_stmt, hr]⟩

/-- A rolled back migration stopped at the clone, or after it with only the table touched. -/
theorem stepRaises_cases (hT : db.find plan.tableName = some T)
    (h : StepRaises e fault plan db) :
    (CloneRaises fault db plan ∧
        left (migrateOperational e fault plan) db = left (rollbackFromClone plan) db) ∨
      ¬ CloneRaises fault db plan ∧
        ∃ db₁ db₂, db.renameTable plan.tableName plan.cloneTableName = .ok db₁ ∧
          OnlyTable plan.tableName db₁ db₂ ∧
          left (migrateOperational e fault plan) db = left (rollbackFromClone plan) db₂ := by
  rw [StepRaises] at h
  rw [left]
  rw [migrateOperational, exec_attempt] at h ⊢
  by_cases hc : CloneRaises fault db plan
  · obtain ⟨err, hx⟩ := exec_cloneTable_raises hT hc
    rw [exec_bind_error hx]
    dsimp only
    refine .inl ⟨hc, ?_⟩
    rw [exec_bind, left]
    cases exec (rollbackFromClone plan) db with
    | mk r s => cases r <;> rfl
  · obtain ⟨db₁, hn, hx⟩ := exec_cloneTable_renames hT hc
    refine .inr ⟨hc, db₁, ?_⟩
    rw [exec_bind_ok hx] at h ⊢
    have ho := rebuildSteps_onlyTable e fault plan db₁
    rw [left] at ho
    cases hs : exec (rebuildSteps e fault plan) db₁ with
    | mk r db₂ =>
      rw [hs] at ho
      cases r with
      | ok rows =>
        rw [exec_bind_ok hs] at h
        cases h
      | error err =>
        rw [exec_bind_error hs]
        refine ⟨db₂, hn, ho, ?_⟩
        dsimp only
        rw [exec_bind, left]
        cases exec (rollbackFromClone plan) db₂ with
        | mk r s => cases r <;> rfl

theorem left_rollbackFromClone (plan : TypeMismatchPlan) (db : Database) :
    left (rollbackFromClone plan) db =
      match (db.dropTable true plan.tableName).renameTable plan.cloneTableName plan.tableName with
      | .ok db' => db'
      | .error _ => db.dropTable true plan.tableName := by
  rw [left, rollbackFromClone, exec_attempt, exec_bind, exec_stmt]
  dsimp only
  rw [exec_stmt]
  cases (db.dropTable true plan.tableName).renameTable plan.cloneTableName plan.tableName with
  | ok db' => rfl
  | error e => rfl

/-- The rename of the rollback goes through when something has the clone's name. -/
theorem rollback_renames (hx : db.indexes.lookup plan.tableName = none)
    (hC : (db.dropTable true plan.tableName).find plan.cloneTableName = some C) :
    ∃ db', left (rollbackFromClone plan) db = db' ∧
      db'.find plan.tableName = some (C.retarget plan.cloneTableName plan.tableName) ∧
      ∀ n, db'.indexes.lookup n =
        ((db.indexes.lookup n).filter fun ix => decide (ix.table ≠ plan.tableName)).map fun ix =>
          if ix.table = plan.cloneTableName then { ix with table := plan.tableName } else ix := by
  rw [left_rollbackFromClone]
  cases hr : (db.dropTable true plan.tableName).renameTable plan.cloneTableName plan.tableName with
  | ok db' =>
    obtain ⟨C', hC', _, hf, _, hi⟩ := renameTable_ok hr
    rw [hC] at hC'
    cases hC'
    refine ⟨db', rfl, hf, ?_⟩
    intro n
    rw [hi n, indexes_dropTable]
  | error err =>
    rw [renameTable, hC] at hr
    dsimp only at hr
    have ht : (db.dropTable true plan.tableName).taken plan.tableName = false := by
      rw [taken, find_dropTable_self, indexes_dropTable, hx]
      rfl
    rw [ht] at hr
    cases hr

theorem retarget_foreignKey (f : ForeignKey) (t c : String) (hc : c ≠ t) :
    (f.retarget t c).retarget c t = f ↔ f.refTable ≠ c := by
  by_cases ht : f.refTable = t
  · have hne : f.refTable ≠ c := fun he => hc (he.symm.trans ht)
    simp only [ForeignKey.retarget, ht, ↓reduceIte]
    apply iff_of_true
    · rw [← ht]
    · exact fun he => hc he.symm
  · by_cases he : f.refTable = c
    · simp only [ForeignKey.retarget, he, ↓reduceIte, ne_eq, not_true_eq_false, iff_false,
        if_neg hc]
      intro hf
      have hr := congrArg ForeignKey.refTable hf
      rw [he] at hr
      exact hc hr.symm
    · simp only [ForeignKey.retarget, ht, he, ↓reduceIte, ne_eq, not_false_eq_true]

/-- Renaming a table there and back restores it unless it refers to the new name. -/
theorem retarget_retarget (T : Table) (t c : String) (hc : c ≠ t) :
    (T.retarget t c).retarget c t = T ↔ ∀ f ∈ T.schema.foreignKeys, f.refTable ≠ c := by
  obtain ⟨S, rows⟩ := T
  obtain ⟨columns, uniques, checks, foreignKeys, m⟩ := S
  simp only [Table.retarget, Schema.retarget, Table.mk.injEq, Schema.mk.injEq, true_and,
    and_true, List.map_map]
  apply Iff.intro
  · intro h f hf
    rw [← retarget_foreignKey f t c hc]
    exact List.map_inj_left.1 (h.trans (List.map_id _).symm) f hf
  · intro h
    conv_rhs => rw [← List.map_id foreignKeys]
    apply List.map_congr_left
    intro f hf
    exact (retarget_foreignKey f t c hc).2 (h f hf)

/-- After the rename no other table refers to the old name, so that dropping it again reaches
nothing else. -/
theorem not_doomed_of_renamed (hn : renameTable db t c = .ok db₁) (ho : OnlyTable t db₁ db₂)
    (hc : c ≠ t) (hu : u ≠ t) : ¬ Doomed db₂.tables (fun v _ => v = t) u r := by
  obtain ⟨T, hT, _, hc₁, hf₁, _⟩ := renameTable_ok hn
  have href {v : String} {V : Table} {f : ForeignKey} (hv : v ≠ t)
      (hV : db₂.tables.lookup v = some V) (hf : f ∈ V.schema.foreignKeys) : f.refTable ≠ t := by
    have hV₁ : db₁.find v = some V := (ho.find hv).symm.trans hV
    have hmoved : ∃ U : Table, V = U.retarget t c := by
      by_cases hvc : v = c
      · subst hvc
        rw [hc₁] at hV₁
        exact ⟨T, (Option.some.inj hV₁).symm⟩
      · rw [hf₁ v hvc, if_neg hv, Option.map_eq_some_iff] at hV₁
        obtain ⟨U, _, he⟩ := hV₁
        exact ⟨U, he.symm⟩
    obtain ⟨U, he⟩ := hmoved
    subst he
    obtain ⟨g, _, he⟩ := List.mem_map.1 hf
    subst he
    rw [ForeignKey.retarget]
    split
    · exact hc
    next hg => exact hg
  have hinside {v : String} {q : Row} (hd : Doomed db₂.tables (fun v _ => v = t) v q) : v = t := by
    induction hd with
    | direct hp hV _ hf _ =>
      apply Classical.byContradiction
      intro hv
      exact href hv hV hf hp
    | chain _ hV _ hf _ ih =>
      apply Classical.byContradiction
      intro hv
      exact href hv hV hf ih
  exact fun hd => hu (hinside hd)

/-- The rollback after a successful clone. -/
theorem sameTable_after_clone (hW : db.Wf) (hT : db.find plan.tableName = some T)
    (hn : db.renameTable plan.tableName plan.cloneTableName = .ok db₁)
    (ho : OnlyTable plan.tableName db₁ db₂) :
    SameTable db (left (rollbackFromClone plan) db₂) plan.tableName ↔
      ∀ f ∈ T.schema.foreignKeys, f.refTable ≠ plan.cloneTableName := by
  obtain ⟨T', hT', ht, hc₁, hf₁, hi₁⟩ := renameTable_ok hn
  rw [hT] at hT'
  cases hT'
  rw [taken, Bool.or_eq_false_iff, Option.isSome_eq_false_iff, Option.isNone_iff_eq_none] at ht
  have hc : plan.cloneTableName ≠ plan.tableName := by
    intro he
    rw [he, hT] at ht
    cases ht.1
  have hx₂ : db₂.indexes.lookup plan.tableName = none := by
    have hx₁ : db₁.indexes.lookup plan.tableName = none := by
      rw [hi₁, hW.apart hT]
      rfl
    cases hx : db₂.indexes.lookup plan.tableName with
    | none => rfl
    | some ix =>
      rcases ho.added hx with ⟨_, hne⟩ | hx
      · exact (hne rfl).elim
      · rw [hx₁] at hx
        cases hx
  have hC : (db₂.dropTable true plan.tableName).find plan.cloneTableName =
      some (T.retarget plan.tableName plan.cloneTableName) := by
    rw [find_dropTable_ne _ _ hc, if_pos rfl,
      find_deleteRows_keep hc fun r => not_doomed_of_renamed hn ho hc hc, ho.find hc, hc₁]
  obtain ⟨db', hl, hf, hi⟩ := rollback_renames hx₂ hC
  have hindex (n : String) : db'.indexesOn plan.tableName n = db.indexesOn plan.tableName n := by
    rw [indexesOn, indexesOn, hi n]
    cases hx : db.indexes.lookup n with
    | none =>
      have hx₁ : db₁.indexes.lookup n = none := by rw [hi₁, hx, Option.map_none]
      cases hx₂ : db₂.indexes.lookup n with
      | none => rfl
      | some ix =>
        rcases ho.added hx₂ with ⟨hon, _⟩ | hx₁'
        · simp [hon]
        · rw [hx₁] at hx₁'
          cases hx₁'
    | some ix =>
      have hnc : ix.table ≠ plan.cloneTableName := by
        intro he
        have hon := hW.onTable hx
        rw [he, ht.1] at hon
        cases hon
      have hx₁ := hi₁ n
      rw [hx, Option.map_some] at hx₁
      rw [ho.kept hx₁]
      by_cases hon : ix.table = plan.tableName
      · obtain ⟨table, terms⟩ := ix
        simp only at hon
        simp [hon, hc, Option.filter_some]
      · simp [hon, hnc, Option.filter_some]
  rw [hl, SameTable, hf, hT, Option.some.injEq, retarget_retarget T _ _ hc]
  exact and_iff_left hindex

/-- The rollback when there is no clone of the table. -/
theorem sameTable_without_clone (hW : db.Wf) (hT : db.find plan.tableName = some T) :
    SameTable db (left (rollbackFromClone plan) db) plan.tableName ↔ CloneIsCopy db plan T := by
  have hx := hW.apart hT
  cases hC : (db.dropTable true plan.tableName).find plan.cloneTableName with
  | none =>
    have hl : left (rollbackFromClone plan) db = db.dropTable true plan.tableName := by
      rw [left_rollbackFromClone, renameTable, hC]
    apply iff_of_false
    · rintro ⟨hs, _⟩
      rw [hl, find_dropTable_self, hT] at hs
      cases hs
    · rintro ⟨⟨C, hC', _⟩, _⟩
      rw [hC] at hC'
      cases hC'
  | some C =>
    obtain ⟨db', hl, hf, hi⟩ := rollback_renames hx hC
    have hc : plan.cloneTableName ≠ plan.tableName := by
      intro he
      rw [he, find_dropTable_self] at hC
      cases hC
    have hon (n : String) : db'.indexesOn plan.tableName n = db.indexesOn plan.tableName n ↔
        ∀ ix, db.indexes.lookup n = some ix →
          ix.table ≠ plan.tableName ∧ ix.table ≠ plan.cloneTableName := by
      rw [indexesOn, indexesOn, hi n]
      cases hn : db.indexes.lookup n with
      | none => simp
      | some ix =>
        by_cases ht : ix.table = plan.tableName
        · simp [ht, Option.filter_some]
        · by_cases hk : ix.table = plan.cloneTableName
          · simp [hk, hc, Option.filter_some]
          · simp [ht, hk, Option.filter_some]
    rw [hl, SameTable, hf, hT, Option.some.injEq, CloneIsCopy, hC]
    apply and_congr
    · simp only [Option.some.injEq, exists_eq_left']
    · exact forall_congr' hon

/-- A migration that is rolled back gives the table back exactly when the clone was made and the
table did not refer to the clone's name, or when the clone was not made and what has its name is
a copy of the table. -/
theorem rolled_back_iff (plan : TypeMismatchPlan) (hW : Wf db)
    (hT : find db plan.tableName = some T) (h : StepRaises e fault plan db) :
    SameTable db (left (migrateOperational e fault plan) db) plan.tableName ↔
      (¬ CloneRaises fault db plan ∧
          ∀ f ∈ T.schema.foreignKeys, f.refTable ≠ plan.cloneTableName) ∨
        CloneRaises fault db plan ∧ CloneIsCopy db plan T := by
  rcases stepRaises_cases hT h with ⟨hc, he⟩ | ⟨hc, db₁, db₂, hn, ho, he⟩
  · rw [he, sameTable_without_clone hW hT]
    simp only [hc, not_true_eq_false, false_and, false_or, true_and]
  · rw [he, sameTable_after_clone hW hT hn ho]
    simp only [hc, not_false_eq_true, true_and, false_and, or_false]

def noteRow (id : String) : Row :=
  deadLetterQueue.schema.coerce "2024-05-01 00:00:00"
    [("dlq_id", .text id), ("table_name", .text "sn_notes"), ("row_id", .text "n1"),
      ("row_data", .text ""), ("error_message", .text "timeout")]

/-- A dead letter queue whose key is declared as a number. -/
def driftedQueue : Table where
  schema := { deadLetterQueue.schema with
    columns := (deadLetterQueue.schema.columns.map fun c =>
      if c.name = "dlq_id" then { c with type := "INTEGER" } else c) }
  rows := [noteRow "d1"]

/-- The queue, and a clone that an earlier migration left behind. -/
def queueWithClone : Database where
  tables := (AList.singleton "dead_letter_queue" driftedQueue).insert
    "_migrate_dead_letter_queue_1714521600" { driftedQueue with rows := [] }
  indexes := ∅

def queuePlan : TypeMismatchPlan where
  tableName := "dead_letter_queue"
  cloneTableName := "_migrate_dead_letter_queue_1714521600"
  newDdl := deadLetterQueue
  columnsToSkip := ["dlq_id"]
  pkColumn := "dlq_id"
  totalRows := 1

def rollbackEnv : Sync.Env where
  parseTs := fun _ => 0
  digest := fun _ => ""
  now := "2024-05-02 00:00:00"

theorem wf_queueWithClone : Database.Wf queueWithClone where
  apart _ := rfl
  onTable h := by cases h

/-- The rename finds its name taken, and the rollback puts the old clone in the place of the
table: its row is gone. -/
theorem rolled_back_to_old_clone :
    StepRaises rollbackEnv none queuePlan queueWithClone ∧
      ¬ SameTable queueWithClone (left (migrateOperational rollbackEnv none queuePlan) queueWithClone)
        "dead_letter_queue" := by
  apply And.intro
  · decide +kernel
  · intro h
    have hrows : (left (migrateOperational rollbackEnv none queuePlan) queueWithClone).find
        "dead_letter_queue" = some { driftedQueue with rows := [] } := by decide +kernel
    have hs := hrows.symm.trans h.1
    cases hs

theorem rolled_back_queue :
    SameTable queueWithClone (left (migrateOperational rollbackEnv none queuePlan) queueWithClone)
        "dead_letter_queue" ↔
      (¬ CloneRaises none queueWithClone queuePlan ∧
          ∀ f ∈ driftedQueue.schema.foreignKeys, f.refTable ≠ queuePlan.cloneTableName) ∨
        CloneRaises none queueWithClone queuePlan ∧
          CloneIsCopy queueWithClone queuePlan driftedQueue :=
  rolled_back_iff queuePlan wf_queueWithClone rfl (by decide +kernel)

end Management
