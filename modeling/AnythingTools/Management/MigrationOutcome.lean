import AnythingTools.Management.Rollback
import AnythingTools.Relational.Insert

namespace Management
open Relational Relational.Database Session Schemas
set_option autoImplicit true

variable {plan : TypeMismatchPlan}

/-- What two tables that differ only in types and NOT NULL or PRIMARY KEY flags share. -/
def shape (S : Schema) : Schema :=
  { S with columns := S.columns.map fun c => { c with type := "", notnull := false, pk := 0 } }

/-- The columns whose affinity differs from that of the script. -/
def typeMismatches (desired actual : Schema) : List String :=
  (desired.columns.filter fun d => actual.columns.any fun a =>
    decide (a.name = d.name) &&
      decide (normalizeTypeAffinity a.type ≠ normalizeTypeAffinity d.type)).map Column.name

/-- The indexes of the script, by name. -/
def scriptIndex (t : String) (d : TableDdl) (n : String) : Option Index :=
  (d.indexes.find? fun i => decide (i.name = n)).map fun i => { table := t, terms := i.terms }

/-- The rows meet every constraint of the schema. -/
structure Satisfies (db : Database) (S : Schema) (rows : List Row) : Prop where
  columns : ∀ r ∈ rows, r.columns = S.names
  admitted : ∀ r ∈ rows, S.admits r = true
  apart : rows.Pairwise fun r r' => ¬ S.conflicts r r' = true
  parents : ∀ r ∈ rows, db.parentsPresent S r = true

/-- A table that drifted from its script in types or flags, and the plan made for it. -/
structure Drifted (db : Database) (plan : TypeMismatchPlan) (T : Table) : Prop where
  registered : (plan.tableName, plan.newDdl) ∈ allTables
  wf : db.Wf
  find : db.find plan.tableName = some T
  shape : shape T.schema = shape plan.newDdl.schema
  indexes : ∀ n, db.indexesOn plan.tableName n = scriptIndex plan.tableName plan.newDdl n
  rows : Satisfies db plan.newDdl.schema T.rows
  skipped : plan.columnsToSkip = typeMismatches plan.newDdl.schema T.schema

/-- The columns whose values a migration carries over. -/
def carriedColumns (plan : TypeMismatchPlan) : List String :=
  plan.newDdl.schema.names.filter fun c => decide (c ∉ plan.columnsToSkip)

/-- The migration succeeds with the rows, the indexes and the references as they should be. -/
structure Migrates (e : Sync.Env) (plan : TypeMismatchPlan) (db : Database) : Prop where
  status : (exec (migrateOperational e none plan) db).1.toOption.map MigrationRecord.status =
    some .success
  rows : ((left (migrateOperational e none plan) db).rows plan.tableName).map
      (fun r => Row.build (carriedColumns plan) r.get) =
    (db.rows plan.tableName).map fun r => Row.build (carriedColumns plan) r.get
  indexes : ∀ n, (left (migrateOperational e none plan) db).indexesOn plan.tableName n =
    scriptIndex plan.tableName plan.newDdl n
  references : ∀ u U f, u ≠ plan.tableName → db.find u = some U → f ∈ U.schema.foreignKeys →
    f.refTable = plan.tableName →
      ∃ U', (left (migrateOperational e none plan) db).find u = some U' ∧
        f ∈ U'.schema.foreignKeys

/-- A successful migration made the clone, and then touched only the table. -/
theorem success_cases (hT : find db plan.tableName = some T)
    (h : (exec (migrateOperational e none plan) db).1.toOption.map MigrationRecord.status =
      some .success) :
    ∃ db₁ rows db₂, renameTable db plan.tableName plan.cloneTableName = .ok db₁ ∧
      exec (rebuildSteps e none plan) db₁ = (.ok rows, db₂) ∧
        left (migrateOperational e none plan) db = db₂ := by
  rw [left]
  rw [migrateOperational, exec_attempt] at h ⊢
  by_cases hc : CloneRaises none db plan
  · obtain ⟨err, hx⟩ := exec_cloneTable_raises hT hc
    rw [exec_bind_error hx] at h
    dsimp only at h
    rw [exec_bind] at h
    cases hb : exec (rollbackFromClone plan) db with
    | mk r s =>
      rw [hb] at h
      cases r with
      | ok u => cases h
      | error e' => cases h
  · obtain ⟨db₁, hn, hx⟩ := exec_cloneTable_renames hT hc
    rw [exec_bind_ok hx] at h ⊢
    refine ⟨db₁, ?_⟩
    cases hs : exec (rebuildSteps e none plan) db₁ with
    | mk r db₂ =>
      cases r with
      | ok rows =>
        rw [exec_bind_ok hs]
        exact ⟨rows, db₂, hn, rfl, rfl⟩
      | error err =>
        rw [exec_bind_error hs] at h
        dsimp only at h
        rw [exec_bind] at h
        cases hb : exec (rollbackFromClone plan) db₂ with
        | mk r s =>
          rw [hb] at h
          cases r with
          | ok u => cases h
          | error e' => cases h

theorem onlyTable_of_exec (h : exec (rebuildSteps e fault plan) db₁ = (.ok k, db₂)) :
    OnlyTable plan.tableName db₁ db₂ := by
  have ho := rebuildSteps_onlyTable e fault plan db₁
  rw [left, h] at ho
  exact ho

theorem clone_ne (hn : renameTable db t c = .ok db₁) : c ≠ t := by
  obtain ⟨T, hT, ht, _⟩ := renameTable_ok hn
  intro he
  rw [he, taken, hT] at ht
  cases ht

/-- The indexes follow the clone and keep their names, so that none is left for the new table. -/
theorem no_indexes_of_migrates (hD : Drifted db plan T) (h : Migrates e plan db) :
    plan.newDdl.indexes = [] := by
  obtain ⟨db₁, rows, db₂, hn, hx, hl⟩ := success_cases hD.find h.status
  have hc := clone_ne hn
  obtain ⟨_, _, _, _, _, hi⟩ := renameTable_ok hn
  cases hd : plan.newDdl.indexes with
  | nil => rfl
  | cons i is =>
    have hs : scriptIndex plan.tableName plan.newDdl i.name =
        some { table := plan.tableName, terms := i.terms } := by
      rw [scriptIndex, hd, List.find?_cons_of_pos (by simp)]
      rfl
    have hold := hD.indexes i.name
    rw [hs, indexesOn, Option.filter_eq_some_iff] at hold
    have hnew := h.indexes i.name
    rw [hs, hl, indexesOn, Option.filter_eq_some_iff] at hnew
    have hmoved := hi i.name
    rw [hold.1, Option.map_some, if_pos rfl] at hmoved
    have hkept := (onlyTable_of_exec hx).kept hmoved
    rw [hnew.1] at hkept
    exact (hc (congrArg Index.table (Option.some.inj hkept)).symm).elim

/-- The references follow the clone too. -/
theorem no_references_of_migrates (hD : Drifted db plan T) (h : Migrates e plan db)
    (hu : u ≠ plan.tableName) (hU : find db u = some U) (hf : f ∈ U.schema.foreignKeys) :
    f.refTable ≠ plan.tableName := by
  intro he
  obtain ⟨db₁, rows, db₂, hn, hx, hl⟩ := success_cases hD.find h.status
  have hc := clone_ne hn
  obtain ⟨_, _, ht, _, hf₁, _⟩ := renameTable_ok hn
  obtain ⟨U', hU', hf'⟩ := h.references u U f hu hU hf he
  have huc : u ≠ plan.cloneTableName := by
    intro he
    rw [taken, ← he, hU] at ht
    cases ht
  rw [hl, (onlyTable_of_exec hx).find hu, hf₁ u huc, if_neg hu, hU, Option.map_some] at hU'
  cases hU'
  obtain ⟨g, _, hg⟩ := List.mem_map.1 hf'
  rw [ForeignKey.retarget] at hg
  split at hg
  next hgt =>
    rw [← hg] at he
    exact hc he
  next hgt =>
    rw [hg] at hgt
    exact hgt he

/-- A table without indexes and references whose key may be NULL. -/
structure Plain (S : Schema) : Prop where
  module : S.module = none
  rowidAlias : S.rowidAlias = none
  foreignKeys : S.foreignKeys = []
  column : ∀ c ∈ S.columns, S.column? c.name = some c
  keys : ∀ k ∈ S.keys, ∃ c ∈ S.columns, k = [c.name] ∧ c.notnull = false ∧ c.dfltValue = none
  checks : ∀ k ∈ S.checks, k.column ∈ S.names
  required : ∃ c ∈ S.columns, c.notnull = true

theorem plain_syncLedger : Plain syncLedger.schema where
  module := rfl
  rowidAlias := by decide
  foreignKeys := rfl
  column := by decide
  keys := by decide
  checks := by decide
  required := by decide

theorem plain_deadLetterQueue : Plain deadLetterQueue.schema where
  module := rfl
  rowidAlias := by decide
  foreignKeys := rfl
  column := by decide
  keys := by decide
  checks := by decide
  required := by decide

/-- The database once the table is created again. -/
def recreated (plan : TypeMismatchPlan) (db : Database) : Database :=
  { db with tables := db.tables.insert plan.tableName { schema := plan.newDdl.schema, rows := [] } }

theorem find_recreated (plan : TypeMismatchPlan) (db : Database) :
    (recreated plan db).find plan.tableName =
      some { schema := plan.newDdl.schema, rows := [] } := AList.lookup_insert _

theorem exec_executescript_table (hI : plan.newDdl.indexes = [])
    (hf : find db plan.tableName = none) (hx : db.indexes.lookup plan.tableName = none) :
    exec (executescript (statements plan.tableName plan.newDdl)) db = (.ok (), recreated plan db) := by
  have hc : db.createTable plan.newDdl.ifNotExists plan.tableName plan.newDdl.schema =
      .ok (recreated plan db) := by
    rw [createTable, hf, hx]
    rfl
  rw [statements, hI, executescript]
  change exec (stmt _ >>= fun _ => pure PUnit.unit) db = _
  rw [exec_bind, exec_stmt]
  dsimp only [execDdl]
  rw [hc]
  rfl

theorem columnsFromDdlInMemory_plain (hI : plan.newDdl.indexes = [])
    (hS : Plain plan.newDdl.schema) :
    columnsFromDdlInMemory plan.newDdl plan.tableName = some plan.newDdl.schema.columns := by
  rw [columnsFromDdlInMemory, hS.module, if_neg (by simp),
    exec_executescript_table hI rfl rfl]
  dsimp only
  rw [getColumns_of_find (find_recreated plan _)]

theorem skippedValue_plain (e : Sync.Env) (hI : plan.newDdl.indexes = [])
    (hS : Plain plan.newDdl.schema) (hc : c ∈ plan.newDdl.schema.columns) :
    skippedValue e plan c =
      match c.dfltValue with
      | some v => v.value e.now
      | none =>
        if normalizeTypeAffinity c.type ∈ [.integer, .real, .numeric] then .int 0
        else .text "" := by
  have hd : extractDefaultFromDdl plan.newDdl plan.tableName c.name = c.dfltValue := by
    rw [extractDefaultFromDdl, columnsFromDdlInMemory_plain hI hS]
    exact congrArg (Option.bind · Column.dfltValue) (hS.column c hc)
  cases hv : c.dfltValue with
  | none => rw [skippedValue, hd, hv]
  | some v => rw [skippedValue, hd, hv]

theorem skippedValue_ne_null (e : Sync.Env) (plan : TypeMismatchPlan) (c : Column) :
    skippedValue e plan c ≠ .null := by
  rw [skippedValue]
  split
  · exact Default.value_ne_null _ _
  · split <;> exact Value.noConfusion

/-- What the `INSERT` gives for a row of the clone. -/
def insertedRow (e : Sync.Env) (plan : TypeMismatchPlan) (r : Row) : Row :=
  Row.select plan.newDdl.schema.names fun c =>
    (insertColumn e plan plan.newDdl.schema.names plan.newDdl.schema.columns c).map fun f => f r

/-- The row that takes the place of a row of the clone. -/
def storedRow (e : Sync.Env) (plan : TypeMismatchPlan) (r : Row) : Row :=
  plan.newDdl.schema.fill e.now (insertedRow e plan r)

/-- A carried column keeps its value; a skipped one gets its default. -/
theorem get_storedRow (e : Sync.Env) (hS : Plain plan.newDdl.schema)
    (hc : c ∈ plan.newDdl.schema.columns) (r : Row) :
    (storedRow e plan r).get c.name =
      if c.name ∉ plan.columnsToSkip then r.get c.name
      else if c.notnull = true then skippedValue e plan c
      else c.default e.now := by
  have hn : c.name ∈ plan.newDdl.schema.names := List.mem_map.2 ⟨c, hc, rfl⟩
  have hf : (plan.newDdl.schema.columns.find? fun d => decide (d.name = c.name)) = some c :=
    hS.column c hc
  rw [storedRow, insertedRow, Schema.get_fill_select (hS.column c hc), insertColumn]
  by_cases hk : c.name ∈ plan.columnsToSkip
  · simp only [hk, not_true_eq_false, and_false, ↓reduceIte, hf]
    split <;> rfl
  · simp only [hk, hn, not_false_eq_true, and_self, ↓reduceIte, Option.map_some, Option.getD_some]

/-- Every check on a skipped column accepts what the column is filled with. -/
def ChecksPass (e : Sync.Env) (plan : TypeMismatchPlan) : Prop :=
  ∀ k ∈ plan.newDdl.schema.checks, k.column ∈ plan.columnsToSkip →
    ∀ c ∈ plan.newDdl.schema.columns, c.name = k.column → c.notnull = true ∧
      ∃ s ∈ k.allowed, skippedValue e plan c = .text s

theorem admits_storedRow (hS : Plain plan.newDdl.schema) (hk : ChecksPass e plan)
    (hr : plan.newDdl.schema.admits r = true) :
    plan.newDdl.schema.admits (storedRow e plan r) = true := by
  rw [Schema.admits_iff] at hr ⊢
  apply And.intro
  · intro c hc hn
    rw [get_storedRow e hS hc]
    split
    · exact hr.1 c hc hn
    · exact skippedValue_ne_null e plan c
  · intro k hkm
    obtain ⟨c, hc, he⟩ := List.mem_map.1 (hS.checks k hkm)
    have hold := hr.2 k hkm
    rw [Check.holds] at hold ⊢
    rw [← he, get_storedRow e hS hc]
    by_cases hskip : c.name ∈ plan.columnsToSkip
    · obtain ⟨hn, s, hs, hv⟩ := hk k hkm (he ▸ hskip) c hc he
      rw [if_neg (not_not_intro hskip), if_pos hn, hv]
      exact List.contains_iff_mem.2 hs
    · rw [if_pos hskip, he]
      exact hold

/-- Rows that did not collide do not collide after the migration. -/
theorem conflicts_storedRow (hS : Plain plan.newDdl.schema)
    (h : ¬ plan.newDdl.schema.conflicts r r' = true) :
    ¬ plan.newDdl.schema.conflicts (storedRow e plan r) (storedRow e plan r') = true := by
  intro hk
  apply h
  obtain ⟨k, hkm, hs⟩ := Schema.conflicts_iff.1 hk
  rw [Schema.conflicts_iff]
  refine ⟨k, hkm, ?_⟩
  obtain ⟨c, hc, he, hn, hd⟩ := hS.keys k hkm
  subst he
  rw [Row.sameKey_iff] at hs ⊢
  have hcell := hs c.name List.mem_cons_self
  rw [get_storedRow e hS hc, get_storedRow e hS hc] at hcell
  by_cases hskip : c.name ∈ plan.columnsToSkip
  · rw [if_neg (not_not_intro hskip), if_neg (by rw [hn]; simp), Column.default, hd] at hcell
    exact (hcell.1 rfl).elim
  · rw [if_pos hskip, if_pos hskip] at hcell
    intro d hd
    rw [List.mem_singleton.1 hd]
    exact hcell

theorem insertColumns_eq (e : Sync.Env) (plan : TypeMismatchPlan) (r : Row) :
    (insertColumns e plan plan.newDdl.schema.names plan.newDdl.schema.names
      plan.newDdl.schema.columns).map (fun p => (p.1, p.2 r)) = insertedRow e plan r := by
  rw [insertColumns, insertedRow, Row.select, List.map_filterMap]
  congr 1
  funext c
  cases insertColumn e plan plan.newDdl.schema.names plan.newDdl.schema.columns c <;> rfl

theorem insertColumns_ne_nil (e : Sync.Env) (hS : Plain plan.newDdl.schema) :
    insertColumns e plan plan.newDdl.schema.names plan.newDdl.schema.names
      plan.newDdl.schema.columns ≠ [] := by
  obtain ⟨c, hc, hn⟩ := hS.required
  have hm : c.name ∈ plan.newDdl.schema.names := List.mem_map.2 ⟨c, hc, rfl⟩
  have hf : (plan.newDdl.schema.columns.find? fun d => decide (d.name = c.name)) = some c :=
    hS.column c hc
  have hi : ∃ f, insertColumn e plan plan.newDdl.schema.names plan.newDdl.schema.columns c.name =
      some f := by
    rw [insertColumn]
    by_cases hk : c.name ∈ plan.columnsToSkip
    · simp [hk, hf, hn]
    · simp [hk, hm]
  obtain ⟨f, hf⟩ := hi
  apply List.ne_nil_of_mem (a := (c.name, f))
  exact List.mem_filterMap.2 ⟨c.name, hm, by rw [hf]; rfl⟩

/-- The repopulation inserts one row for each row of the clone. -/
theorem exec_repopulateFromClone (hI : plan.newDdl.indexes = []) (hS : Plain plan.newDdl.schema)
    (hne : plan.cloneTableName ≠ plan.tableName) (hC : find db plan.cloneTableName = some C)
    (hnames : C.schema.names = plan.newDdl.schema.names) :
    exec (repopulateFromClone e none plan) (recreated plan db) =
      match (recreated plan db).insertRows e.now plan.tableName
        (C.rows.map (insertedRow e plan)) with
      | .ok db' => (.ok C.rows.length, db')
      | .error err => (.error err, recreated plan db) := by
  have hnew := find_recreated plan db
  have hold : (recreated plan db).find plan.cloneTableName = some C :=
    (AList.lookup_insert_ne hne).trans hC
  have hcols : insertColumns e plan
      ((getColumns (recreated plan db) plan.cloneTableName).map Column.name)
      ((getColumns (recreated plan db) plan.tableName).map Column.name)
      ((columnsFromDdlInMemory plan.newDdl plan.tableName).getD []) =
      insertColumns e plan plan.newDdl.schema.names plan.newDdl.schema.names
        plan.newDdl.schema.columns := by
    rw [getColumns_of_find hnew, getColumns_of_find hold, columnsFromDdlInMemory_plain hI hS]
    change insertColumns e plan C.schema.names _ _ = _
    rw [hnames]
    rfl
  rw [repopulateFromClone, if_neg (by simp), exec_bind_ok (exec_get _)]
  dsimp only
  rw [hcols, if_neg (insertColumns_ne_nil e hS), hold]
  dsimp only
  rw [exec_bind, exec_stmt]
  simp only [insertColumns_eq]
  cases (recreated plan db).insertRows e.now plan.tableName (C.rows.map (insertedRow e plan)) with
  | ok db' => simp
  | error err => rfl

/-- The database once the rows are in the new table. -/
def repopulated (e : Sync.Env) (plan : TypeMismatchPlan) (db : Database) (rs : List Row) : Database :=
  (recreated plan db).update plan.tableName fun _ =>
    { schema := plan.newDdl.schema, rows := rs.map (storedRow e plan) }

theorem find_repopulated (e : Sync.Env) (plan : TypeMismatchPlan) (db : Database) (rs : List Row) :
    (repopulated e plan db rs).find plan.tableName =
      some { schema := plan.newDdl.schema, rows := rs.map (storedRow e plan) } := by
  rw [repopulated, find_update_self, find_recreated]
  rfl

/-- The rows of the clone that the new table takes in. -/
theorem insertRows_recreated {rs : List Row} (hS : Plain plan.newDdl.schema)
    (hadm : ∀ r ∈ rs, plan.newDdl.schema.admits (storedRow e plan r) = true)
    (hp : (rs.map (storedRow e plan)).Pairwise
      fun a b => ¬ plan.newDdl.schema.conflicts a b = true) :
    (recreated plan db).insertRows e.now plan.tableName (rs.map (insertedRow e plan)) =
      .ok (repopulated e plan db rs) := by
  have hins : Table.insertAll e.now { schema := plan.newDdl.schema, rows := [] }
      (rs.map (insertedRow e plan)) =
      .ok { schema := plan.newDdl.schema, rows := rs.map (storedRow e plan) } := by
    have hmap : (rs.map (insertedRow e plan)).map (plan.newDdl.schema.fill e.now) =
        rs.map (storedRow e plan) := by
      rw [List.map_map]
      rfl
    rw [Table.insertAll_ok hS.rowidAlias]
    · rw [hmap, List.nil_append]
    · intro r hr
      obtain ⟨r', hr', he⟩ := List.mem_map.1 hr
      subst he
      exact hadm r' hr'
    · rw [hmap, List.nil_append]
      exact hp
  rw [insertRows, find_recreated]
  dsimp only
  rw [hins]
  refine if_pos ?_
  rw [List.all_eq_true]
  intro r _
  rw [parentsPresent, hS.foreignKeys]
  rfl

/-- No column of the two ledgers has a filler. -/
theorem exec_autofill (h : ∀ c, getFiller plan.tableName c = none) (s : Database) :
    exec (autofillSkippedColumns e none plan) s = (.ok 0, s) := by
  have hall (cols : List String) : exec (cols.foldlM (autofillColumn e plan) 0) s = (.ok 0, s) := by
    induction cols with
    | nil => rfl
    | cons c cols ih =>
      have hc : exec (autofillColumn e plan 0 c) s = (.ok 0, s) := by
        rw [autofillColumn, h c]
        rfl
      rw [List.foldlM_cons, exec_bind_ok hc]
      exact ih
  exact hall plan.columnsToSkip

theorem exec_validate (hI : plan.newDdl.indexes = []) (hS : Plain plan.newDdl.schema)
    (hf : find s plan.tableName = some T) (hT : T.schema = plan.newDdl.schema) :
    exec (validateOperational none plan) s = (.ok (), s) := by
  rw [validateOperational, if_neg (by simp), exec_bind_ok (exec_get _), getColumns_of_find hf, hT,
    columnsFromDdlInMemory_plain hI hS]
  dsimp only [Option.getD_some]
  rw [if_pos]
  · rfl
  · rw [List.all_eq_true]
    intro c hc
    have hcol : (plan.newDdl.schema.columns.find? fun d => decide (d.name = c.name)) = some c :=
      hS.column c hc
    rw [columnIsValid, hcol]
    exact decide_eq_true rfl

/-- What the rename leaves for the steps after it. -/
structure Cloned (plan : TypeMismatchPlan) (db₁ : Database) (C : Table) : Prop where
  free : db₁.find plan.tableName = none
  unindexed : db₁.indexes.lookup plan.tableName = none
  apart : plan.cloneTableName ≠ plan.tableName
  find : db₁.find plan.cloneTableName = some C
  names : C.schema.names = plan.newDdl.schema.names

theorem names_of_shape (h : shape S = shape S') : S.names = S'.names := by
  have hc := congrArg Schema.names h
  simpa only [shape, Schema.names, List.map_map, Function.comp_def] using hc

theorem cloned_of_renamed (hD : Drifted db plan T)
    (hn : renameTable db plan.tableName plan.cloneTableName = .ok db₁) :
    Cloned plan db₁ (T.retarget plan.tableName plan.cloneTableName) := by
  obtain ⟨T', hT', _, hc, hf, hi⟩ := renameTable_ok hn
  rw [hD.find] at hT'
  cases hT'
  have hne := clone_ne hn
  have hnames : T.schema.names = plan.newDdl.schema.names := names_of_shape hD.shape
  refine ⟨?_, ?_, hne, hc, hnames⟩
  · rw [hf _ hne.symm, if_pos rfl]
  · rw [hi, hD.wf.apart hD.find]
    rfl

theorem exec_rebuildSteps (hI : plan.newDdl.indexes = []) (hS : Plain plan.newDdl.schema)
    (hfill : ∀ c, getFiller plan.tableName c = none) (hC : Cloned plan db₁ C)
    (hadm : ∀ r ∈ C.rows, plan.newDdl.schema.admits (storedRow e plan r) = true)
    (hp : (C.rows.map (storedRow e plan)).Pairwise
      fun a b => ¬ plan.newDdl.schema.conflicts a b = true) :
    exec (rebuildSteps e none plan) db₁ =
      (.ok C.rows.length, repopulated e plan db₁ C.rows) := by
  have hrows := exec_repopulateFromClone (e := e) hI hS hC.apart hC.find hC.names
  rw [insertRows_recreated hS hadm hp] at hrows
  have hcreate : exec (recreateTable none plan) db₁ = (.ok (), recreated plan db₁) :=
    exec_executescript_table hI hC.free hC.unindexed
  rw [rebuildSteps, exec_bind_ok hcreate, exec_bind_ok hrows, exec_bind_ok (exec_autofill hfill _),
    exec_bind_ok (exec_validate hI hS (find_repopulated e plan db₁ C.rows) rfl)]
  rfl

/-- A row that the new constraints refuse stops the repopulation. -/
theorem exec_rebuildSteps_refused (hI : plan.newDdl.indexes = []) (hS : Plain plan.newDdl.schema)
    (hC : Cloned plan db₁ C) (hr : C.rows = r :: rs)
    (hadm : plan.newDdl.schema.admits (storedRow e plan r) = false) :
    exec (rebuildSteps e none plan) db₁ = (.error .constraint, recreated plan db₁) := by
  have hrows := exec_repopulateFromClone (e := e) hI hS hC.apart hC.find hC.names
  have hins : (recreated plan db₁).insertRows e.now plan.tableName
      (C.rows.map (insertedRow e plan)) = .error .constraint := by
    rw [insertRows, find_recreated]
    dsimp only
    rw [hr, List.map_cons, Table.insertAll_refused hS.rowidAlias hadm]
  rw [hins] at hrows
  have hcreate : exec (recreateTable none plan) db₁ = (.ok (), recreated plan db₁) :=
    exec_executescript_table hI hC.free hC.unindexed
  rw [rebuildSteps, exec_bind_ok hcreate, exec_bind_error hrows]

/-- The cases in which a migration succeeds. -/
theorem migrates_of_plain (hD : Drifted db plan T) (hI : plan.newDdl.indexes = [])
    (hS : Plain plan.newDdl.schema) (hfill : ∀ c, getFiller plan.tableName c = none)
    (hfree : db.taken plan.cloneTableName = false)
    (href : ∀ u U, u ≠ plan.tableName → db.find u = some U → ∀ f ∈ U.schema.foreignKeys,
      f.refTable ≠ plan.tableName)
    (hk : T.rows ≠ [] → ChecksPass e plan) : Migrates e plan db := by
  have hclone : ¬ CloneRaises none db plan := by
    intro hc
    rcases hc with hc | hc
    · cases hc
    · rw [hfree] at hc
      cases hc
  obtain ⟨db₁, hn, hx⟩ := exec_cloneTable_renames hD.find hclone
  have hC := cloned_of_renamed hD hn
  have hadm : ∀ r ∈ T.rows, plan.newDdl.schema.admits (storedRow e plan r) = true := by
    intro r hr
    exact admits_storedRow hS (hk (List.ne_nil_of_mem hr)) (hD.rows.admitted r hr)
  have hp : (T.rows.map (storedRow e plan)).Pairwise
      fun a b => ¬ plan.newDdl.schema.conflicts a b = true := by
    rw [List.pairwise_map]
    exact hD.rows.apart.imp fun h => conflicts_storedRow hS h
  have hsteps := exec_rebuildSteps hI hS hfill hC hadm hp
  have hall : exec (migrateOperational e none plan) db =
      (.ok { tableName := plan.tableName, phase := .clone, status := .success,
             rowsAffected := T.rows.length, cloneTableName := some plan.cloneTableName },
        repopulated e plan db₁ T.rows) := by
    rw [migrateOperational, exec_attempt, exec_bind_ok hx, exec_bind_ok hsteps]
    rfl
  have hleft : left (migrateOperational e none plan) db = repopulated e plan db₁ T.rows := by
    rw [left, hall]
  refine ⟨?_, ?_, ?_, ?_⟩
  · rw [hall]
    rfl
  · rw [hleft, rows_of_find (find_repopulated e plan db₁ T.rows), rows_of_find hD.find,
      List.map_map]
    apply List.map_congr_left
    intro r _
    apply List.map_congr_left
    intro n hn
    obtain ⟨hn, hskip⟩ := List.mem_filter.1 hn
    obtain ⟨c, hc, he⟩ := List.mem_map.1 hn
    subst he
    rw [get_storedRow e hS hc, if_pos (by simpa using hskip)]
  · intro n
    obtain ⟨_, _, _, _, _, hi⟩ := renameTable_ok hn
    have hindexes : (left (migrateOperational e none plan) db).indexes = db₁.indexes := by
      rw [hleft]
      rfl
    rw [indexesOn, hindexes, hi, scriptIndex, hI]
    cases db.indexes.lookup n with
    | none => rfl
    | some ix =>
      by_cases ht : ix.table = plan.tableName
      · simp [ht, hC.apart, Option.filter_some]
      · simp [ht, Option.filter_some]
  · intro u U f hu hU hf he
    exact (href u U hu hU f hf he).elim

/-- The two tables of the registry that have no index. -/
theorem unindexed_cases (h : (t, d) ∈ allTables) (hI : d.indexes = []) :
    (t = "sync_ledger" ∧ d = syncLedger) ∨ (t = "dead_letter_queue" ∧ d = deadLetterQueue) := by
  simp only [allTables, List.mem_cons, Prod.mk.injEq, List.not_mem_nil, or_false] at h
  rcases h with h | h | h | h | h | h | h | h | h | h | h | h | h | h
  case inr.inr.inr.inr.inr.inr.inr.inr.inr.inr.inl => exact .inl h
  case inr.inr.inr.inr.inr.inr.inr.inr.inr.inr.inr.inl => exact .inr h
  all_goals
    rw [h.2] at hI
    cases hI

/-- The ledger refuses a row whose direction is filled with the empty text. -/
theorem refused_syncLedger (hd : plan.newDdl = syncLedger)
    (hskip : "direction" ∈ plan.columnsToSkip) (r : Row) :
    plan.newDdl.schema.admits (storedRow e plan r) = false := by
  have hI : plan.newDdl.indexes = [] := by
    rw [hd]
    rfl
  have hS : Plain plan.newDdl.schema := hd ▸ plain_syncLedger
  have hc : (col "direction" "TEXT").notNull ∈ plan.newDdl.schema.columns := by
    rw [hd]
    decide
  have hv := get_storedRow e hS hc r
  have hmem : ¬ (col "direction" "TEXT").notNull.name ∉ plan.columnsToSkip := not_not_intro hskip
  have hnn : (col "direction" "TEXT").notNull.notnull = true := rfl
  rw [if_neg hmem, if_pos hnn, skippedValue_plain e hI hS hc] at hv
  change (storedRow e plan r).get "direction" = .text "" at hv
  rw [Bool.eq_false_iff]
  intro ha
  have hk : (⟨"direction", ["LOCAL_TO_CLOUD", "CLOUD_TO_LOCAL", "BIDIRECTIONAL"]⟩ : Check) ∈
      plan.newDdl.schema.checks := by
    rw [hd]
    decide
  have hh := (Schema.admits_iff.1 ha).2 _ hk
  rw [Check.holds, hv] at hh
  cases hh

theorem checksPass_syncLedger (e : Sync.Env) (hd : plan.newDdl = syncLedger)
    (hskip : "direction" ∉ plan.columnsToSkip) : ChecksPass e plan := by
  have hI : plan.newDdl.indexes = [] := by
    rw [hd]
    rfl
  have hS : Plain plan.newDdl.schema := hd ▸ plain_syncLedger
  intro k hk hks c hc he
  rw [hd] at hk
  rcases List.mem_cons.1 hk with h | h
  · subst h
    exact (hskip hks).elim
  · rw [List.mem_singleton.1 h] at he ⊢
    have hstate : c = (col "state" "TEXT").notNull.defaultText "PENDING" := by
      have hcol := hS.column c hc
      rw [he, hd] at hcol
      exact (Option.some.inj hcol).symm
    rw [skippedValue_plain e hI hS hc, hstate]
    exact ⟨rfl, "PENDING", by decide, rfl⟩

/-- A migration does what it should exactly for the two tables without indexes, when the name of
the clone is free, no other table refers to the table, and no row of the ledger loses its
direction. -/
theorem migrates_iff (e : Sync.Env) (hD : Drifted db plan T) :
    Migrates e plan db ↔
      (plan.tableName = "dead_letter_queue" ∨
        plan.tableName = "sync_ledger" ∧ ("direction" ∈ plan.columnsToSkip → T.rows = [])) ∧
      db.taken plan.cloneTableName = false ∧
      ∀ u U, u ≠ plan.tableName → db.find u = some U → ∀ f ∈ U.schema.foreignKeys,
        f.refTable ≠ plan.tableName := by
  apply Iff.intro
  · intro h
    have hI := no_indexes_of_migrates hD h
    obtain ⟨db₁, k, db₂, hn, hx, _⟩ := success_cases hD.find h.status
    obtain ⟨_, _, hfree, _⟩ := renameTable_ok hn
    refine ⟨?_, hfree, fun u U hu hU f hf => no_references_of_migrates hD h hu hU hf⟩
    rcases unindexed_cases hD.registered hI with ⟨ht, hd⟩ | ⟨ht, _⟩
    · refine .inr ⟨ht, fun hskip => ?_⟩
      cases hr : T.rows with
      | nil => rfl
      | cons r rs =>
        have hS : Plain plan.newDdl.schema := hd ▸ plain_syncLedger
        have herr := exec_rebuildSteps_refused (e := e) hI hS (cloned_of_renamed hD hn) hr
          (refused_syncLedger hd hskip r)
        rw [hx] at herr
        cases herr
    · exact .inl ht
  · intro ⟨ht, hfree, href⟩
    rcases ht with ht | ⟨ht, hdir⟩
    · have hd : plan.newDdl = deadLetterQueue := by
        have hm := hD.registered
        rw [ht] at hm
        simpa [allTables] using hm
      apply migrates_of_plain hD _ _ _ hfree href
      · intro _ k hk
        rw [hd] at hk
        cases hk
      · rw [hd]
        rfl
      · exact hd ▸ plain_deadLetterQueue
      · intro c
        rw [ht]
        rfl
    · have hd : plan.newDdl = syncLedger := by
        have hm := hD.registered
        rw [ht] at hm
        simpa [allTables] using hm
      apply migrates_of_plain hD _ _ _ hfree href
      · intro hr
        exact checksPass_syncLedger e hd fun hskip => hr (hdir hskip)
      · rw [hd]
        rfl
      · exact hd ▸ plain_syncLedger
      · intro c
        rw [ht]
        rfl

/-- The jobs table from a time when `retry_count` could be NULL. -/
def driftedJobs : Table where
  schema := { jobs.schema with
    columns := jobs.schema.columns.map fun c =>
      if c.name = "retry_count" then { c with notnull := false } else c }
  rows := [jobs.schema.coerce "2024-05-01 00:00:00"
    [("job_id", .text "j1"), ("session_id", .text "s1"), ("tool_name", .text "scraper")]]

def jobsDb : Database where
  tables := AList.singleton "jobs" driftedJobs
  indexes := AList.singleton "idx_jobs_session_status"
    { table := "jobs", terms := [.column "session_id", .column "status"] }

def jobsPlan : TypeMismatchPlan where
  tableName := "jobs"
  cloneTableName := "_migrate_jobs_1714608000"
  newDdl := jobs
  pkColumn := "job_id"
  totalRows := 1

theorem lookup_singleton {v : α} (h : (AList.singleton k v : AList fun _ : String => α).lookup n = some w) :
    n = k ∧ w = v := by
  have hm := AList.mem_lookup_iff.1 h
  cases List.mem_singleton.1 hm
  exact ⟨rfl, rfl⟩

theorem drifted_jobs : Drifted jobsDb jobsPlan driftedJobs where
  registered := by decide
  wf := by
    refine ⟨?_, ?_⟩
    · intro n T h
      obtain ⟨hn, _⟩ := lookup_singleton h
      rw [hn]
      decide
    · intro n ix h
      obtain ⟨_, hx⟩ := lookup_singleton h
      rw [hx]
      decide
  find := rfl
  shape := by decide
  indexes := by
    intro n
    by_cases hn : n = "idx_jobs_session_status"
    · subst hn
      decide
    · have hne : ¬ "idx_jobs_session_status" = n := fun he => hn he.symm
      have hnone : jobsDb.indexes.lookup n = none := by
        cases hx : jobsDb.indexes.lookup n with
        | none => rfl
        | some ix => exact (hn (lookup_singleton hx).1).elim
      rw [indexesOn, hnone, scriptIndex]
      simp [jobsPlan, jobs, hne]
  rows := by
    refine ⟨?_, ?_, ?_, ?_⟩
    · decide
    · decide
    · decide
    · decide
  skipped := by decide

/-- The indexes of the table keep their names on the clone, the script cannot create them again,
and the migration is rolled back. -/
theorem jobs_not_migrated :
    Drifted jobsDb jobsPlan driftedJobs ∧ ¬ Migrates rollbackEnv jobsPlan jobsDb := by
  refine ⟨drifted_jobs, fun h => ?_⟩
  have hs := h.status
  have hr : (exec (migrateOperational rollbackEnv none jobsPlan) jobsDb).1.toOption.map
      MigrationRecord.status = some .rolledBack := by decide +kernel
  rw [hr] at hs
  cases hs

theorem migrates_jobs :
    Migrates rollbackEnv jobsPlan jobsDb ↔
      (jobsPlan.tableName = "dead_letter_queue" ∨
        jobsPlan.tableName = "sync_ledger" ∧
          ("direction" ∈ jobsPlan.columnsToSkip → driftedJobs.rows = [])) ∧
      jobsDb.taken jobsPlan.cloneTableName = false ∧
      ∀ u U, u ≠ jobsPlan.tableName → jobsDb.find u = some U → ∀ f ∈ U.schema.foreignKeys,
        f.refTable ≠ jobsPlan.tableName :=
  migrates_iff rollbackEnv drifted_jobs

end Management
