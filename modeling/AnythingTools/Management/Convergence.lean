import AnythingTools.Management.Reconciler
import AnythingTools.Management.Rollback
import AnythingTools.Relational.Insert

namespace Management
open Relational Relational.Database Session Schemas
set_option autoImplicit true

/-- The table has the columns of the script and no others, each with its affinity and flags. -/
structure Matches (T : Table) (d : TableDdl) : Prop where
  names : ∀ n, n ∈ T.schema.names ↔ n ∈ d.schema.names
  columns : ∀ a ∈ T.schema.columns, ∀ c ∈ d.schema.columns, a.name = c.name →
    normalizeTypeAffinity a.type = normalizeTypeAffinity c.type ∧ a.notnull = c.notnull ∧ a.pk = c.pk

/-- Every expected table is as its script says, and the next reconciliation has nothing to do. -/
structure Converged (cfg : Start) (s : Opened) : Prop where
  tables : ∀ p ∈ cfg.expectedTables, ∃ T, s.db.find p.1 = some T ∧ Matches T p.2
  again : ∀ cfg' : Start, cfg'.expectedTables = cfg.expectedTables →
    ∃ report s', exec (reconcile cfg') s = (.ok report, s') ∧
      report.actions = cfg.expectedTables.map fun p => (p.1, .unchanged)

/-- The script of an ordinary table, as SQLite accepts it. -/
structure Accepted (p : String × TableDdl) : Prop where
  ordinary : p.2.schema.module = none
  columns : columnsFromDdlInMemory p.2 p.1 = some p.2.schema.columns
  distinct : p.2.schema.names.Nodup

/-- The reconciliation raises no exception and plans no migration. -/
def finishes (cfg : Start) (s : Opened) : Bool :=
  match (exec (reconcile cfg) s).1 with
  | .ok report => report.typeMismatchPlans.isEmpty
  | .error _ => false

/-- A column is not dropped: an index on an expression, a trigger or a view, or the constraints of
the table are in the way. -/
def DropRaises (cfg : Start) (t c : String) (s : Opened) : Prop :=
  ¬ ∃ u, (exec (dropColumnSteps cfg t c) (left (backupBeforeDrop cfg t c) s)).1 = .ok u

/-- Nothing is in the way of the columns that have to go, one after the other. -/
def AllDrop (cfg : Start) (t : String) : List String → Opened → Prop
  | [], _ => True
  | c :: cs, s => ¬ DropRaises cfg t c s ∧ AllDrop cfg t cs (left (dropExtraColumn cfg t c []) s)

/-- A missing column that is as its script says once it is added: it is not of the primary key, it
has a type, and where there are rows it is not stamped with the time. -/
def Addable (T : Table) (c : Column) : Prop :=
  c.pk = 0 ∧ c.type ≠ "" ∧ (T.rows = [] ∨ c.dfltValue ≠ some .currentTimestamp)

def missingColumns (T : Table) (d : TableDdl) : List Column :=
  d.schema.columns.filter fun c => decide (c.name ∉ T.schema.names)

def extraColumns (T : Table) (d : TableDdl) : List String :=
  (T.schema.names.filter fun c => decide (c ∉ d.schema.names)).dedup

/-- What has to hold of a table for its reconciliation to bring it in line. -/
def Reconcilable (cfg : Start) (t : String) (d : TableDdl) (s : Opened) : Option Table → Prop
  | none => True
  | some T =>
    if T.schema.module.isSome = true then Matches T d
    else (∀ c ∈ missingColumns T d, Addable T c) ∧
      AllDrop cfg t (cfg.order (extraColumns T d)).1
        (left (addMissingColumns t d (missingColumns T d)) s)

/-- Every table is reconcilable in the state that the tables before it leave. -/
def Reconcilables (cfg : Start) : List (String × TableDdl) → Opened → Prop
  | [], _ => True
  | (t, d) :: ps, s => Reconcilable cfg t d s (s.db.find t) ∧
      Reconcilables cfg ps (left (validateStructure cfg t d {} (s.db.find t)) s)

/-- The tables are the same; indexes and the backup may differ. -/
def SameTables (s s' : Opened) : Prop := s'.db.tables = s.db.tables

instance : IsPreorder Opened SameTables where
  refl _ := rfl
  trans _ _ _ h h' := Eq.trans h' h

theorem SameTables.find (h : SameTables s s') (t : String) : s'.db.find t = s.db.find t := by
  rw [Database.find, Database.find, h]

theorem left_onDb (m : Conn α) (s : Opened) : left (onDb m) s = { s with db := left m s.db } := by
  rw [left, left, onDb, exec_bind_ok (exec_get s)]
  cases exec m s.db with
  | mk r db => cases r <;> rfl

theorem exec_onDb_stmt (f : Database → Except SqlError Database) (s : Opened) :
    exec (onDb (stmt f)) s =
      match f s.db with
      | .ok db => (.ok (), { s with db })
      | .error e => (.error (.sql e), s) := by
  rw [onDb, exec_bind_ok (exec_get s), exec_stmt]
  cases f s.db <;> rfl

theorem indexIsOn_frames (c : String) (terms : List IndexTerm) :
    Frames SameTables (indexIsOn c terms) := by
  induction terms with
  | nil => exact Frames.pure _
  | cons m terms ih =>
    cases m with
    | expr sql => exact Frames.throw _
    | column n =>
      rw [indexIsOn]
      split
      · exact Frames.pure _
      · exact ih

theorem dropDependentIndexes_frames (t c : String) :
    Frames SameTables (dropDependentIndexes t c) := by
  apply Frames.bind
  · exact Frames.get
  · intro s
    apply Frames.forM
    intro e _
    apply Frames.bind (indexIsOn_frames c e.2.terms)
    intro dependent
    split
    · intro s
      rw [left_onDb, left, exec_stmt]
      rfl
    · exact Frames.pure _

theorem backupBeforeDrop_frames (cfg : Start) (t c : String) :
    Frames SameTables (backupBeforeDrop cfg t c) := by
  intro s
  rw [left, backupBeforeDrop, exec_bind_ok (exec_get s)]
  split
  · rfl
  · split <;> rfl

/-- Dropping a column either changes no table or drops just that column. -/
theorem dropColumnSteps_cases (cfg : Start) (t c : String) (s : Opened)
    (hT : s.db.find t = some T) :
    ((¬ ∃ u, (exec (dropColumnSteps cfg t c) s).1 = .ok u) ∧
        SameTables s (left (dropColumnSteps cfg t c) s)) ∨
      (exec (dropColumnSteps cfg t c) s).1 = .ok () ∧
        (∃ T', (left (dropColumnSteps cfg t c) s).db.find t = some T' ∧
          T'.schema.columns = T.schema.columns.filter fun d => decide (d.name ≠ c)) ∧
        ∀ u, u ≠ t → (left (dropColumnSteps cfg t c) s).db.find u = s.db.find u := by
  have hindexes := dropDependentIndexes_frames t c s
  rw [left] at hindexes ⊢
  rw [dropColumnSteps, exec_bind]
  cases hx : exec (dropDependentIndexes t c) s with
  | mk r s₁ =>
    rw [hx] at hindexes
    have hT₁ : s₁.db.find t = some T := (hindexes.find t).trans hT
    cases r with
    | error e =>
      refine .inl ⟨?_, hindexes⟩
      rintro ⟨u, hu⟩
      cases hu
    | ok u =>
      dsimp only
      split
      · refine .inl ⟨?_, hindexes⟩
        rintro ⟨u, hu⟩
        cases hu
      · rw [exec_onDb_stmt]
        cases hd : s₁.db.dropColumn t c with
        | error e =>
          refine .inl ⟨?_, hindexes⟩
          rintro ⟨u, hu⟩
          cases hu
        | ok db' =>
          obtain ⟨_, _, _, _, _, hothers⟩ := dropColumn_ok hd
          refine .inr ⟨rfl, dropColumn_columns hd hT₁, ?_⟩
          intro u hu
          exact (hothers u hu).trans (hindexes.find u)

/-- What became of an extra column when no exception was raised. -/
theorem dropExtraColumn_cases (hT : s.db.find t = some T)
    (h : exec (dropExtraColumn cfg t c dropped) s = (.ok out, s')) :
    (DropRaises cfg t c s ∧ out = dropped ∧ SameTables s s') ∨
      ¬ DropRaises cfg t c s ∧ out = dropped ++ [c] ∧
        (∃ T', s'.db.find t = some T' ∧
          T'.schema.columns = T.schema.columns.filter fun d => decide (d.name ≠ c)) ∧
        ∀ u, u ≠ t → s'.db.find u = s.db.find u := by
  have hbackup := backupBeforeDrop_frames cfg t c s
  rw [DropRaises]
  rw [dropExtraColumn, exec_bind] at h
  rw [left] at hbackup ⊢
  cases hb : exec (backupBeforeDrop cfg t c) s with
  | mk r s₁ =>
    rw [hb] at h hbackup
    have hcases := dropColumnSteps_cases cfg t c s₁ ((hbackup.find t).trans hT)
    cases r with
    | error e => cases h
    | ok backupPath =>
      dsimp only at h ⊢
      rw [exec_attempt, exec_bind] at h
      rw [left] at hcases
      cases hx : exec (dropColumnSteps cfg t c) s₁ with
      | mk r s₂ =>
        rw [hx] at h hcases
        cases r with
        | error e =>
          rcases hcases with ⟨hraises, hsame⟩ | ⟨hok, _⟩
          · dsimp only at h
            split at h
            · rw [revertToBackup, exec_bind_ok (exec_get s₂)] at h
              split at h
              · cases h
              · cases h
            · cases h
              exact .inl ⟨hraises, rfl, trans_of SameTables hbackup hsame⟩
          · cases hok
        | ok u =>
          rcases hcases with ⟨hraises, _⟩ | ⟨_, hdropped, hothers⟩
          · exact (hraises ⟨u, rfl⟩).elim
          · cases h
            refine .inr ⟨not_not_intro ⟨u, rfl⟩, rfl, hdropped, ?_⟩
            intro v hv
            exact (hothers v hv).trans (hbackup.find v)

theorem left_dropExtraColumn (h : exec (dropExtraColumn cfg t c dropped) s = (.ok out, s')) :
    left (dropExtraColumn cfg t c []) s = s' := by
  rw [left]
  rw [dropExtraColumn, exec_bind] at h ⊢
  cases hb : exec (backupBeforeDrop cfg t c) s with
  | mk r s₁ =>
    rw [hb] at h
    cases r with
    | error e => cases h
    | ok backupPath =>
      dsimp only at h ⊢
      rw [exec_attempt, exec_bind] at h ⊢
      cases hx : exec (dropColumnSteps cfg t c) s₁ with
      | mk r s₂ =>
        rw [hx] at h
        cases r with
        | ok u =>
          cases h
          rfl
        | error e =>
          dsimp only at h ⊢
          split at h
          next hp =>
            rw [revertToBackup, exec_bind_ok (exec_get s₂)] at h
            split at h
            · cases h
            · cases h
          next hp =>
            cases h
            rw [if_neg hp]
            rfl

/-- The columns that are gone when no exception was raised, which are all of them exactly when
nothing was in the way. -/
theorem dropExtraColumns_cases {cs : List String} {s s' : Opened} (hT : s.db.find t = some T)
    (h : exec (cs.foldlM (fun dropped c => dropExtraColumn cfg t c dropped) dropped) s =
      (.ok out, s')) :
    ∃ gone T', out = dropped ++ gone ∧ gone.Sublist cs ∧ s'.db.find t = some T' ∧
      T'.schema.columns = T.schema.columns.filter (fun d => decide (d.name ∉ gone)) ∧
      (∀ u, u ≠ t → s'.db.find u = s.db.find u) ∧ (AllDrop cfg t cs s ↔ gone = cs) := by
  induction cs generalizing dropped s T with
  | nil =>
    cases h
    refine ⟨[], T, (List.append_nil _).symm, .slnil, hT, ?_, fun _ _ => rfl,
      iff_of_true trivial rfl⟩
    simp only [List.not_mem_nil, not_false_eq_true, decide_true, List.filter_true]
  | cons c cs ih =>
    rw [List.foldlM_cons] at h
    obtain ⟨out₁, s₁, hfirst, hrest⟩ := bind_ok h
    rw [AllDrop, left_dropExtraColumn hfirst]
    rcases dropExtraColumn_cases hT hfirst with
      ⟨hraises, hout, hsame⟩ | ⟨hdrops, hout, ⟨T₁, hT₁, hcolumns⟩, hothers⟩
    · obtain ⟨gone, T', hgone, hsub, hT', hcolumns, hothers, _⟩ :=
        ih ((hsame.find t).trans hT) hrest
      refine ⟨gone, T', by rw [hgone, hout], hsub.cons c, hT', hcolumns, ?_, ?_⟩
      · intro u hu
        exact (hothers u hu).trans (hsame.find u)
      · apply iff_of_false
        · exact fun h => h.1 hraises
        · intro he
          have hlength := hsub.length_le
          rw [he, List.length_cons] at hlength
          omega
    · obtain ⟨gone, T', hgone, hsub, hT', hcolumns', hothers', hall⟩ := ih hT₁ hrest
      refine ⟨c :: gone, T', ?_, hsub.cons_cons c, hT', ?_, ?_, ?_⟩
      · rw [hgone, hout, List.append_assoc, List.singleton_append]
      · rw [hcolumns', hcolumns, List.filter_filter]
        congr 1
        funext d
        simp only [List.mem_cons, not_or, Bool.decide_and, ne_eq, decide_not, Bool.and_comm]
      · intro u hu
        exact (hothers' u hu).trans (hothers u hu)
      · rw [hall, List.cons.injEq]
        simp only [hdrops, not_false_eq_true, true_and]

theorem column?_of_mem (hd : (Schema.names S).Nodup) (hc : c ∈ S.columns) :
    S.column? c.name = some c := by
  obtain ⟨b, hb⟩ := Schema.column?_of_mem hc
  obtain ⟨hmem, hname⟩ := Schema.column?_name hb
  rw [hb, List.inj_on_of_nodup_map hd hmem hc hname]

/-- In an accepted script the default of a column is the one it was declared with. -/
theorem extractDefault_of_mem (ha : Accepted (t, d)) (hc : c ∈ d.schema.columns) :
    extractDefaultFromDdl d t c.name = c.dfltValue := by
  have hfind : (d.schema.columns.find? fun a => decide (a.name = c.name)) = some c :=
    column?_of_mem ha.distinct hc
  rw [extractDefaultFromDdl, ha.columns]
  dsimp only
  rw [hfind]
  rfl

theorem notnull_addedColumn (t : String) (d : TableDdl) (c : Column) :
    (addedColumn t d c).notnull = c.notnull := rfl

/-- A missing column is accepted unless there are rows and its default is the time. -/
theorem takes_addedColumn (ha : Accepted (t, d)) (hc : c ∈ d.schema.columns) (T : Table) :
    T.takes (addedColumn t d c) = true ↔ T.rows = [] ∨ c.dfltValue ≠ some .currentTimestamp := by
  rw [Table.takes, Bool.or_eq_true, List.isEmpty_iff]
  apply or_congr_right
  rw [notnull_addedColumn, addedColumn]
  dsimp only
  cases hn : c.notnull with
  | false =>
    cases c.dfltValue with
    | none => simp
    | some v => cases v <;> simp
  | true =>
    rw [if_pos rfl, extractDefault_of_mem ha hc]
    cases c.dfltValue with
    | none => cases normalizeTypeAffinity c.type <;> simp
    | some v => cases v <;> simp

/-- The columns that can be added are added, and no exception is raised. -/
theorem addMissingColumns_spec {missing : List Column} {s : Opened} (hT : s.db.find t = some T)
    (hnew : ∀ c ∈ missing, c.name ∉ T.schema.names) (hnodup : (missing.map Column.name).Nodup)
    (added : List String) :
    ∃ out s' T', exec (missing.foldlM (fun added c =>
        attempt
          (do
            onDb (stmt fun db => db.addColumn t (addedColumn t d c))
            return added ++ [c.name])
          fun _ => return added) added) s = (.ok out, s') ∧
      s'.db.find t = some T' ∧
      T'.schema.columns = T.schema.columns ++
        (missing.filter fun c => T.takes (addedColumn t d c)).map (addedColumn t d) ∧
      ∀ u, u ≠ t → s'.db.find u = s.db.find u := by
  induction missing generalizing added s T with
  | nil => exact ⟨added, s, T, rfl, hT, (List.append_nil _).symm, fun _ _ => rfl⟩
  | cons c missing ih =>
    rw [List.map_cons, List.nodup_cons] at hnodup
    have hc : (addedColumn t d c).name ∉ T.schema.names := hnew c List.mem_cons_self
    have hadd := addColumn_eq (t := t) (c := addedColumn t d c) hT hc
    rw [List.foldlM_cons, List.filter_cons]
    by_cases ht : T.takes (addedColumn t d c) = true
    · rw [if_pos ht] at hadd ⊢
      obtain ⟨T₁, hT₁, hcolumns, htakes⟩ : ∃ T₁ : Table, T₁ =
          { schema := { T.schema with columns := T.schema.columns ++ [addedColumn t d c] }
            rows := T.rows.map fun r =>
              r.add (addedColumn t d c).name ((addedColumn t d c).default "") } ∧
          T₁.schema.columns = T.schema.columns ++ [addedColumn t d c] ∧
          ∀ k, T₁.takes k = T.takes k := by
        refine ⟨_, rfl, rfl, ?_⟩
        intro k
        rw [Table.takes, Table.takes, List.isEmpty_map]
      have hfind : (s.db.update t fun T =>
          { schema := { T.schema with columns := T.schema.columns ++ [addedColumn t d c] }
            rows := T.rows.map fun r =>
              r.add (addedColumn t d c).name ((addedColumn t d c).default "") }).find t =
          some T₁ := by
        rw [find_update_self, hT, Option.map_some, hT₁]
      have hnew₁ : ∀ k ∈ missing, k.name ∉ T₁.schema.names := by
        intro k hk
        rw [Schema.names, hcolumns, List.map_append, List.mem_append, not_or]
        refine ⟨hnew k (List.mem_cons_of_mem c hk), ?_⟩
        intro he
        exact hnodup.1 (List.mem_map.2 ⟨k, hk, List.mem_singleton.1 he⟩)
      obtain ⟨out, s', T', hx, hT', hcolumns', hothers⟩ :=
        ih (s := { s with db := _ }) hfind hnew₁ hnodup.2 (added ++ [c.name])
      refine ⟨out, s', T', ?_, hT', ?_, ?_⟩
      · rw [exec_bind, exec_attempt, exec_bind, exec_onDb_stmt, hadd]
        exact hx
      · rw [hcolumns', hcolumns, List.map_cons, List.append_assoc, List.singleton_append]
        simp only [htakes]
      · intro u hu
        exact (hothers u hu).trans (find_update_ne s.db _ hu)
    · rw [if_neg ht] at hadd ⊢
      obtain ⟨out, s', T', hx, hT', hcolumns', hothers⟩ :=
        ih hT (fun k hk => hnew k (List.mem_cons_of_mem c hk)) hnodup.2 added
      refine ⟨out, s', T', ?_, hT', hcolumns', hothers⟩
      rw [exec_bind, exec_attempt, exec_bind, exec_onDb_stmt, hadd]
      exact hx

theorem agree_of_no_drift (ht : typeDrift actual desired = [])
    (hc : constraintDrift actual desired = []) (ha : a ∈ actual) (hd : d ∈ desired)
    (hn : a.name = d.name) :
    normalizeTypeAffinity a.type = normalizeTypeAffinity d.type ∧ a.notnull = d.notnull ∧
      a.pk = d.pk := by
  rw [typeDrift, List.filter_eq_nil_iff] at ht
  rw [constraintDrift, List.filter_eq_nil_iff] at hc
  have htype := ht d hd
  have hflags := hc d hd
  simp only [List.any_eq_true, not_exists, not_and, Bool.and_eq_true, Bool.or_eq_true,
    decide_eq_true_eq, ne_eq, not_or, not_not] at htype hflags
  exact ⟨htype a ha hn, hflags a ha hn⟩

theorem no_drift_of_agree
    (h : ∀ a ∈ actual, ∀ d ∈ desired, a.name = d.name →
      normalizeTypeAffinity a.type = normalizeTypeAffinity d.type ∧ a.notnull = d.notnull ∧
        a.pk = d.pk) :
    typeDrift actual desired = [] ∧ constraintDrift actual desired = [] := by
  rw [typeDrift, List.filter_eq_nil_iff, constraintDrift, List.filter_eq_nil_iff]
  simp only [List.any_eq_true, not_exists, not_and, Bool.and_eq_true, Bool.or_eq_true,
    decide_eq_true_eq, ne_eq, not_or, not_not]
  exact ⟨fun d hd a ha hn => (h a ha d hd hn).1, fun d hd a ha hn => (h a ha d hd hn).2⟩

theorem mem_missingColumns : c ∈ missingColumns T d ↔
    c ∈ d.schema.columns ∧ c.name ∉ T.schema.names := by
  rw [missingColumns, List.mem_filter, decide_eq_true_eq]

theorem mem_extraColumns : n ∈ extraColumns T d ↔ n ∈ T.schema.names ∧ n ∉ d.schema.names := by
  rw [extraColumns, List.mem_dedup, List.mem_filter, decide_eq_true_eq]

/-- The table is as its script says when the columns that were missing are added as declared and
all others are gone. -/
theorem matches_iff (ha : Accepted (t, d)) {cs : List String} (hcs : cs.Perm (extraColumns T d))
    (hgone : gone.Sublist cs) (htypes : typeDrift T.schema.columns d.schema.columns = [])
    (hflags : constraintDrift T.schema.columns d.schema.columns = [])
    (hT' : T'.schema.columns = (T.schema.columns ++
      ((missingColumns T d).filter fun c => T.takes (addedColumn t d c)).map
        (addedColumn t d)).filter fun a => decide (a.name ∉ gone)) :
    Matches T' d ↔ (∀ c ∈ missingColumns T d, Addable T c) ∧ gone = cs := by
  have hmem {a : Column} : a ∈ T'.schema.columns ↔ (a ∈ T.schema.columns ∨
      ∃ c ∈ missingColumns T d, T.takes (addedColumn t d c) = true ∧ addedColumn t d c = a) ∧
        a.name ∉ gone := by
    rw [hT', List.mem_filter, decide_eq_true_eq, List.mem_append, List.mem_map]
    simp only [List.mem_filter, and_assoc]
  have hextra {n : String} (hn : n ∈ gone) : n ∉ d.schema.names :=
    (mem_extraColumns.1 (hcs.mem_iff.1 (hgone.subset hn))).2
  apply Iff.intro
  · intro h
    apply And.intro
    · intro c hc
      obtain ⟨hcd, hcT⟩ := mem_missingColumns.1 hc
      have hname : c.name ∈ T'.schema.names := (h.names c.name).2 (List.mem_map_of_mem hcd)
      obtain ⟨a, ham, han⟩ := List.mem_map.1 hname
      rcases (hmem.1 ham).1 with haT | ⟨b, hb, htakes, rfl⟩
      · exact (hcT (List.mem_map.2 ⟨a, haT, han⟩)).elim
      · have hbc : b = c :=
          List.inj_on_of_nodup_map ha.distinct (mem_missingColumns.1 hb).1 hcd han
        subst hbc
        obtain ⟨htype, _, hpk⟩ := h.columns _ ham b hcd rfl
        refine ⟨hpk.symm, ?_, (takes_addedColumn ha hcd T).1 htakes⟩
        intro he
        rw [addedColumn] at htype
        dsimp only at htype
        rw [he, if_pos rfl] at htype
        exact absurd htype (by decide)
    · have hnodup : cs.Nodup := hcs.nodup_iff.2 (List.nodup_dedup _)
      apply hgone.eq_of_length_le
      apply (List.subperm_of_subset hnodup ?_).length_le
      intro c hc
      obtain ⟨hcT, hcd⟩ := mem_extraColumns.1 (hcs.mem_iff.1 hc)
      obtain ⟨a, haT, han⟩ := List.mem_map.1 hcT
      apply Classical.byContradiction
      intro hn
      apply hcd
      rw [← h.names c, ← han]
      exact List.mem_map_of_mem (hmem.2 ⟨.inl haT, han ▸ hn⟩)
  · intro ⟨hadd, hall⟩
    constructor
    · intro n
      apply Iff.intro
      · intro hn
        obtain ⟨a, ham, rfl⟩ := List.mem_map.1 hn
        obtain ⟨haT | ⟨c, hc, _, rfl⟩, hkept⟩ := hmem.1 ham
        · apply Classical.byContradiction
          intro hnd
          apply hkept
          rw [hall, hcs.mem_iff, mem_extraColumns]
          exact ⟨List.mem_map_of_mem haT, hnd⟩
        · exact List.mem_map.2 ⟨c, (mem_missingColumns.1 hc).1, rfl⟩
      · intro hn
        obtain ⟨c, hc, rfl⟩ := List.mem_map.1 hn
        by_cases hcT : c.name ∈ T.schema.names
        · obtain ⟨a, haT, han⟩ := List.mem_map.1 hcT
          rw [← han]
          exact List.mem_map_of_mem (hmem.2 ⟨.inl haT, fun hg => hextra hg (han ▸ hn)⟩)
        · have hmiss := mem_missingColumns.2 ⟨hc, hcT⟩
          have htakes := (takes_addedColumn ha hc T).2 (hadd c hmiss).2.2
          exact List.mem_map.2 ⟨addedColumn t d c,
            hmem.2 ⟨.inr ⟨c, hmiss, htakes, rfl⟩, fun hg => hextra hg hn⟩, rfl⟩
    · intro a ham c hc hname
      rcases (hmem.1 ham).1 with haT | ⟨b, hb, _, rfl⟩
      · exact agree_of_no_drift htypes hflags haT hc hname
      · have hbc : b = c :=
          List.inj_on_of_nodup_map ha.distinct (mem_missingColumns.1 hb).1 hc hname
        subst hbc
        obtain ⟨hpk, htype, _⟩ := hadd b hb
        rw [addedColumn]
        exact ⟨by rw [if_neg htype], rfl, hpk.symm⟩

/-- The tables are the same. -/
def SameFind (db db' : Database) : Prop := ∀ u, db'.find u = db.find u

instance : IsPreorder Database SameFind where
  refl _ _ := rfl
  trans _ _ _ h h' u := (h' u).trans (h u)

/-- A script that went through made its table. -/
theorem executescript_creates (hnone : Database.find db t = none)
    (h : Session.exec (executescript (statements t d)) db = (.ok u, db')) :
    db'.find t = some { schema := d.schema, rows := [] } := by
  change Session.exec (stmt (fun db => db.execDdl (.table d.ifNotExists t d.schema)) >>= fun _ =>
    executescript (d.indexes.map (.index t))) db = _ at h
  obtain ⟨_, db₁, htable, hindexes⟩ := bind_ok h
  have hcreate := stmt_ok htable
  have hsame : Frames SameFind (executescript (d.indexes.map (.index t))) := by
    apply Frames.forM
    intro i hi
    obtain ⟨ix, _, rfl⟩ := List.mem_map.1 hi
    apply Frames.stmt
    intro db db' hexec u
    exact createIndex_find hexec u
  have hkept := hsame db₁ t
  rw [left, hindexes] at hkept
  rw [hkept]
  rw [execDdl, createTable, hnone] at hcreate
  dsimp only at hcreate
  split at hcreate
  · cases hcreate
  · cases hcreate
    exact AList.lookup_insert _

theorem onDb_ok (h : Session.exec (onDb m) s = (.ok a, s')) :
    Session.exec m s.db = (.ok a, s'.db) := by
  rw [onDb, exec_bind_ok (exec_get s)] at h
  cases hm : Session.exec m s.db with
  | mk r db =>
    rw [hm] at h
    cases r with
    | ok b =>
      cases h
      rfl
    | error e => cases h

/-- What a table is after its reconciliation, when no migration is planned for it. -/
theorem validateStructure_spec (cfg : Start) (ha : Accepted (t, d)) {s : Opened}
    (h : Session.exec (validateStructure cfg t d report (s.db.find t)) s = (.ok report', s'))
    (hplans : report'.typeMismatchPlans = []) :
    report.typeMismatchPlans = [] ∧ (∀ u, u ≠ t → s'.db.find u = s.db.find u) ∧
      ((∃ T, s'.db.find t = some T ∧ Matches T d) ↔ Reconcilable cfg t d s (s.db.find t)) ∧
      left (validateStructure cfg t d {} (s.db.find t)) s = s' := by
  have hdesired : desiredCols t d = d.schema.columns := by
    rw [desiredCols, ha.columns, Option.getD_some]
  cases hfind : s.db.find t with
  | none =>
    rw [hfind, validateStructure] at h
    obtain ⟨u, s₁, hx, hr⟩ := bind_ok h
    cases hr
    have hscript := onDb_ok hx
    have hothers := executescript_onlyTable (statements_on t d) s.db
    rw [left, hscript] at hothers
    refine ⟨hplans, fun u hu => hothers.find hu, ?_, ?_⟩
    · apply iff_of_true _ trivial
      refine ⟨_, executescript_creates hfind hscript, fun n => .rfl, ?_⟩
      intro a haT c hc hn
      cases List.inj_on_of_nodup_map ha.distinct haT hc hn
      exact ⟨rfl, rfl, rfl⟩
    · rw [validateStructure, left, exec_bind_ok hx]
      rfl
  | some T =>
    rw [hfind, validateStructure, hdesired] at h
    rw [validateStructure, hdesired, Reconcilable]
    dsimp only at h ⊢
    split at h
    next hmodule =>
      cases h
      rw [if_pos hmodule, if_pos hmodule, hfind]
      refine ⟨hplans, fun _ _ => rfl, ?_, rfl⟩
      simp only [Option.some.injEq, exists_eq_left']
    next hmodule =>
      split at h
      next => cases h
      next htypes =>
        split at h
        next =>
          cases h
          exact absurd hplans (List.append_ne_nil_of_right_ne_nil _ (List.cons_ne_nil _ _))
        next hflags =>
          rw [not_not] at htypes hflags
          rw [if_neg hmodule, if_neg hmodule, if_neg (not_not_intro htypes),
            if_neg (not_not_intro hflags)]
          have hnew : ∀ c ∈ missingColumns T d, c.name ∉ T.schema.names :=
            fun c hc => (mem_missingColumns.1 hc).2
          have hnodup : ((missingColumns T d).map Column.name).Nodup :=
            ha.distinct.sublist (List.filter_sublist.map _)
          obtain ⟨added, s₁, T₁, hadd, hT₁, hcolumns₁, hothers₁⟩ :=
            addMissingColumns_spec (d := d) hfind hnew hnodup []
          have hadd' : Session.exec (addMissingColumns t d (missingColumns T d)) s =
            (.ok added, s₁) := hadd
          obtain ⟨added', s₁', hx, hrest⟩ := bind_ok h
          cases hadd'.symm.trans hx
          obtain ⟨dropped, s₂, hdrop, hreport⟩ := bind_ok hrest
          obtain ⟨gone, T₂, hgone, hsub, hT₂, hcolumns₂, hothers₂, hall⟩ :=
            dropExtraColumns_cases hT₁ hdrop
          rw [hcolumns₁] at hcolumns₂
          have hstate : s₂ = s' ∧ report.typeMismatchPlans = [] := by
            split at hreport
            · cases hreport
              exact ⟨rfl, hplans⟩
            · cases hreport
              exact ⟨rfl, hplans⟩
          obtain ⟨rfl, hreport₀⟩ := hstate
          refine ⟨hreport₀, ?_, ?_, ?_⟩
          · intro u hu
            exact (hothers₂ u hu).trans (hothers₁ u hu)
          · have hall' : AllDrop cfg t (cfg.order (extraColumns T d)).1 s₁ ↔
              gone = (cfg.order (extraColumns T d)).1 := hall
            rw [left, hadd', hall', hT₂]
            simp only [Option.some.injEq, exists_eq_left']
            exact matches_iff ha (cfg.order (extraColumns T d)).2 hsub htypes hflags hcolumns₂
          · rw [left]
            change (Session.exec (addMissingColumns t d (missingColumns T d) >>= _) s).2 = _
            rw [exec_bind_ok hadd']
            have hdrop' : Session.exec (dropExtraColumns cfg t (extraColumns T d)) s₁ =
              (.ok dropped, s₂) := hdrop
            change (Session.exec (dropExtraColumns cfg t (extraColumns T d) >>= _) s₁).2 = _
            rw [exec_bind_ok hdrop']
            split <;> rfl

/-- The reconciliation of the tables: the ones that are left are touched by no other. -/
theorem validateStructures_spec (cfg : Start) (ps : List (String × TableDdl))
    (ha : ∀ p ∈ ps, Accepted p) (hnodup : (ps.map Prod.fst).Nodup) {s : Opened}
    (h : Session.exec (validateStructures cfg ps report) s = (.ok report', s'))
    (hplans : report'.typeMismatchPlans = []) :
    report.typeMismatchPlans = [] ∧
      (∀ u, u ∉ ps.map Prod.fst → s'.db.find u = s.db.find u) ∧
      ((∀ p ∈ ps, ∃ T, s'.db.find p.1 = some T ∧ Matches T p.2) ↔ Reconcilables cfg ps s) := by
  induction ps generalizing report s with
  | nil =>
    cases h
    exact ⟨hplans, fun _ _ => rfl, iff_of_true (fun p hp => nomatch hp) trivial⟩
  | cons p ps ih =>
    obtain ⟨t, d⟩ := p
    rw [List.map_cons, List.nodup_cons] at hnodup
    rw [validateStructures] at h
    obtain ⟨_, _, hget, hbody⟩ := bind_ok h
    cases hget
    obtain ⟨report₁, s₁, hfirst, hrest⟩ := bind_ok hbody
    obtain ⟨hplans₁, hothers, htail⟩ :=
      ih (fun p hp => ha p (List.mem_cons_of_mem _ hp)) hnodup.2 hrest
    obtain ⟨hplans₀, hothers₁, hhead, hleft⟩ :=
      validateStructure_spec cfg (ha _ List.mem_cons_self) hfirst hplans₁
    refine ⟨hplans₀, ?_, ?_⟩
    · intro u hu
      rw [List.map_cons, List.mem_cons, not_or] at hu
      exact (hothers u hu.2).trans (hothers₁ u hu.1)
    · rw [Reconcilables, hleft, ← hhead, ← htail, ← hothers t hnodup.1]
      simp only [List.mem_cons, forall_eq_or_imp]

/-- The tables have the same schemas. -/
def KeepsSchemas (db db' : Database) : Prop :=
  ∀ u, (db'.find u).map Table.schema = (db.find u).map Table.schema

instance : IsPreorder Database KeepsSchemas where
  refl _ _ := rfl
  trans _ _ _ h h' u := (h' u).trans (h u)

def SameSchemas (s s' : Opened) : Prop := KeepsSchemas s.db s'.db

instance : IsPreorder Opened SameSchemas where
  refl s := refl_of KeepsSchemas s.db
  trans _ _ _ h h' := trans_of KeepsSchemas h h'

theorem SameSchemas.matches_iff (h : SameSchemas s s') (t : String) (d : TableDdl) :
    (∃ T, s'.db.find t = some T ∧ Matches T d) ↔ ∃ T, s.db.find t = some T ∧ Matches T d := by
  have hmatch {T U : Table} (he : T.schema = U.schema) (hT : Matches T d) : Matches U d :=
    ⟨he ▸ hT.names, he ▸ hT.columns⟩
  have hschema := h t
  apply Iff.intro
  · intro ⟨T, hT, hm⟩
    rw [hT, Option.map_some, eq_comm, Option.map_eq_some_iff] at hschema
    obtain ⟨U, hU, he⟩ := hschema
    exact ⟨U, hU, hmatch he.symm hm⟩
  · intro ⟨U, hU, hm⟩
    rw [hU, Option.map_some, Option.map_eq_some_iff] at hschema
    obtain ⟨T, hT, he⟩ := hschema
    exact ⟨T, hT, hmatch he.symm hm⟩

theorem updateWhere_keepsSchemas (h : updateWhere db t c v p = .ok db') : KeepsSchemas db db' := by
  obtain ⟨T, hT, hT', hothers⟩ := updateWhere_ok h
  intro u
  by_cases hu : u = t
  · rw [hu, hT, hT']
    rfl
  · rw [hothers u hu]

theorem getFiller_keepsSchemas {filler : ColumnFillFunc} (h : getFiller t c = some filler)
    (e : Sync.Env) : Frames KeepsSchemas (filler e t c) := by
  rw [getFiller] at h
  split at h
  · cases h
    unfold fillContentHash
    dsimp only
    split
    · exact Frames.pure _
    · apply Frames.bind
      · exact Frames.get
      · intro db
        split
        · split
          · exact Frames.throw _
          · apply Frames.bind
            · apply Frames.forM
              intro p _
              exact Frames.stmt fun db db' h => updateWhere_keepsSchemas h
            · intro _
              exact Frames.pure _
        · exact Frames.throw _
        · exact Frames.throw _
  · split at h
    · cases h
      apply Frames.bind
      · exact Frames.get
      · intro db
        apply Frames.bind
        · exact Frames.stmt fun db db' h => updateWhere_keepsSchemas h
        · intro _
          exact Frames.pure _
    · cases h

theorem runPendingAutoFills_frames (cfg : Start) (fills : List (String × List String)) :
    Frames SameSchemas (runPendingAutoFills cfg fills) := by
  apply Frames.forM
  intro p _
  apply Frames.forM
  intro c _
  rw [runAutoFill]
  split
  · exact Frames.pure _
  next filler hfiller =>
    apply Frames.attempt
    · apply Frames.bind
      · exact Frames.get
      · intro s
        split
        · exact Frames.pure _
        · apply Frames.bind
          · intro s u
            rw [left_onDb]
            exact getFiller_keepsSchemas hfiller cfg.env s.db u
          · intro _
            exact Frames.pure _
    · intro _
      exact Frames.pure _

theorem drop_unexpected (l : List String) (s : Opened) :
    ∃ s', Session.exec (l.forM fun table =>
        (onDb (stmt fun db => .ok (db.dropTable false table)) : Reconciling Unit)) s =
          (.ok ⟨⟩, s') ∧
      ∀ u, s'.db.find u = if u ∈ l then none else s.db.find u := by
  induction l generalizing s with
  | nil => exact ⟨s, rfl, fun u => by rw [if_neg List.not_mem_nil]⟩
  | cons t l ih =>
    obtain ⟨s', hx, hfind⟩ := ih { s with db := s.db.dropTable false t }
    refine ⟨s', ?_, ?_⟩
    · change Session.exec (onDb (stmt fun db => .ok (db.dropTable false t)) >>= fun _ =>
        l.forM fun table =>
          (onDb (stmt fun db => .ok (db.dropTable false table)) : Reconciling Unit)) s = _
      rw [exec_bind, exec_onDb_stmt]
      exact hx
    · intro u
      rw [hfind u]
      by_cases hu : u = t
      · rw [hu, find_dropTable_self, if_pos List.mem_cons_self]
        split <;> rfl
      · rw [find_dropTable_ne s.db false hu]
        simp only [List.mem_cons, hu, false_or]
        rfl

/-- The tables that are neither expected nor kept are gone. -/
theorem pruneUnexpected_spec (cfg : Start) (s : Opened) :
    ∃ report s', Session.exec (pruneUnexpected cfg) s = (.ok report, s') ∧
      ∀ u, isUnexpected cfg.expectedTables u = true → s'.db.find u = none := by
  obtain ⟨s', hx, hfind⟩ :=
    drop_unexpected (s.db.tables.keys.filter (isUnexpected cfg.expectedTables)) s
  refine ⟨{ actions := (s.db.tables.keys.filter (isUnexpected cfg.expectedTables)).map
              fun table => (table, .pruned) }, s', ?_, ?_⟩
  · rw [pruneUnexpected, exec_bind_ok (exec_get s)]
    dsimp only
    rw [exec_bind_ok hx]
    rfl
  · intro u hu
    rw [hfind u]
    split
    next => rfl
    next hn =>
      rw [List.mem_filter, not_and] at hn
      cases hf : s.db.find u with
      | none => rfl
      | some T =>
        have hk : u ∈ s.db.tables.keys :=
          AList.mem_keys.1 (AList.lookup_isSome.1 (by rw [← Database.find, hf]; rfl))
        exact (hn hk hu).elim

/-- A reconciliation has nothing to do where every table is as its script says. -/
theorem reconcile_unchanged (cfg : Start) (ha : ∀ p ∈ cfg.expectedTables, Accepted p) {s : Opened}
    (hm : ∀ p ∈ cfg.expectedTables, ∃ T, s.db.find p.1 = some T ∧ Matches T p.2)
    (hnone : ∀ u, isUnexpected cfg.expectedTables u = true → s.db.find u = none) :
    ∃ report, Session.exec (reconcile cfg) s = (.ok report, s) ∧
      report.actions = cfg.expectedTables.map fun p => (p.1, .unchanged) := by
  have hprune : Session.exec (pruneUnexpected cfg) s = (.ok {}, s) := by
    have hl : s.db.tables.keys.filter (isUnexpected cfg.expectedTables) = [] := by
      rw [List.filter_eq_nil_iff]
      intro u hu hun
      have hs : (s.db.find u).isSome = true := AList.lookup_isSome.2 (AList.mem_keys.2 hu)
      rw [hnone u hun] at hs
      cases hs
    rw [pruneUnexpected, exec_bind_ok (exec_get s), hl]
    rfl
  have hone {t : String} {d : TableDdl} {T : Table} (report : Report) (hp : Accepted (t, d))
      (hT : Matches T d) :
      Session.exec (validateStructure cfg t d report (some T)) s =
        (.ok (report.add t .unchanged), s) := by
    have hdesired : desiredCols t d = d.schema.columns := by
      rw [desiredCols, hp.columns, Option.getD_some]
    obtain ⟨htypes, hflags⟩ := no_drift_of_agree hT.columns
    have hmissing : (d.schema.columns.filter fun c => decide (c.name ∉ T.schema.names)) = [] := by
      rw [List.filter_eq_nil_iff]
      intro c hc
      simp only [decide_not, Bool.not_eq_true', decide_eq_false_iff_not, not_not]
      exact (hT.names c.name).2 (List.mem_map_of_mem hc)
    have hextra : (T.schema.names.filter
        fun c => decide (c ∉ d.schema.columns.map Column.name)) = [] := by
      rw [List.filter_eq_nil_iff]
      intro c hc
      simp only [decide_not, Bool.not_eq_true', decide_eq_false_iff_not, not_not]
      exact (hT.names c).1 hc
    rw [validateStructure, hdesired]
    dsimp only
    rw [hmissing, hextra, htypes, hflags]
    split
    · rfl
    · have horder : (cfg.order (List.dedup [])).1 = [] :=
        List.perm_nil.1 ((cfg.order (List.dedup [])).2)
      rw [if_neg (by simp), if_neg (by simp), addMissingColumns, dropExtraColumns, horder]
      rfl
  have hall (ps : List (String × TableDdl)) (hps : ∀ p ∈ ps, p ∈ cfg.expectedTables)
      (report : Report) :
      Session.exec (validateStructures cfg ps report) s =
        (.ok { report with actions := report.actions ++ ps.map fun p => (p.1, .unchanged) }, s) := by
    induction ps generalizing report with
    | nil =>
      rw [List.map_nil, List.append_nil]
      rfl
    | cons p ps ih =>
      have hp := hps p List.mem_cons_self
      obtain ⟨T, hT, hTm⟩ := hm p hp
      obtain ⟨t, d⟩ := p
      rw [validateStructures, exec_bind_ok (exec_get s), hT, exec_bind_ok (hone report (ha _ hp) hTm),
        ih fun q hq => hps q (List.mem_cons_of_mem _ hq)]
      rw [Report.add, List.map_cons, List.append_assoc, List.singleton_append]
  refine ⟨{ actions := cfg.expectedTables.map fun p => (p.1, .unchanged) }, ?_, rfl⟩
  rw [reconcile, exec_bind_ok hprune, exec_bind_ok (hall _ (fun _ h => h) {})]
  rfl

/-- A reconciliation that ends without exception and without a plan has brought every table in line,
and the next one has nothing to do, exactly when each table was reconcilable. -/
theorem reconcile_converges_iff (cfg : Start) (s : Opened)
    (ha : ∀ p ∈ cfg.expectedTables, Accepted p) (h : finishes cfg s = true) :
    Converged cfg (left (reconcile cfg) s) ↔
      Reconcilables cfg cfg.expectedTables (left (pruneUnexpected cfg) s) := by
  obtain ⟨report₀, s₁, hprune, hnone⟩ := pruneUnexpected_spec cfg s
  rw [finishes] at h
  rw [left, left, hprune]
  cases hx : Session.exec (reconcile cfg) s with
  | mk r s' =>
    rw [hx] at h
    cases r with
    | error e => cases h
    | ok report =>
      rw [reconcile, exec_bind_ok hprune] at hx
      obtain ⟨report₁, s₂, hstructures, hrest⟩ := bind_ok hx
      obtain ⟨_, s₃, hfills, hreturn⟩ := bind_ok hrest
      cases hreturn
      obtain ⟨_, hothers, htables⟩ := validateStructures_spec cfg cfg.expectedTables ha cfg.nodup
        hstructures (List.isEmpty_iff.1 h)
      have hschemas := runPendingAutoFills_frames cfg report.pendingFills s₂
      rw [left, hfills] at hschemas
      have hmatch : (∀ p ∈ cfg.expectedTables, ∃ T, s'.db.find p.1 = some T ∧ Matches T p.2) ↔
          Reconcilables cfg cfg.expectedTables s₁ := by
        rw [← htables]
        exact forall₂_congr fun p _ => hschemas.matches_iff p.1 p.2
      have hgone : ∀ u, isUnexpected cfg.expectedTables u = true → s'.db.find u = none := by
        intro u hu
        have hnot : u ∉ cfg.expectedTables.map Prod.fst := by
          intro hmem
          obtain ⟨p, hp, rfl⟩ := List.mem_map.1 hmem
          have hany : (cfg.expectedTables.any fun q => decide (q.1 = p.1)) = true :=
            List.any_eq_true.2 ⟨p, hp, decide_eq_true rfl⟩
          rw [isUnexpected, hany] at hu
          simp at hu
        have hs := hschemas u
        rw [hothers u hnot, hnone u hu, Option.map_none, Option.map_eq_none_iff] at hs
        exact hs
      apply Iff.intro
      · exact fun hc => hmatch.1 hc.tables
      · intro hr
        have hm := hmatch.2 hr
        refine ⟨hm, ?_⟩
        intro cfg' he
        rw [← he] at hm ha hgone ⊢
        obtain ⟨report', hx', hactions⟩ := reconcile_unchanged cfg' ha hm hgone
        exact ⟨report', s', hx', hactions⟩

def factsStart : Start where
  expectedTables := [("sf_quarterly_facts", sfQuarterlyFacts)]
  nodup := List.nodup_singleton _
  env := rollbackEnv

/-- The facts of an older program, without `created_at` and `updated_at`. -/
def olderFacts : Schema :=
  { sfQuarterlyFacts.schema with
    columns := sfQuarterlyFacts.schema.columns.filter fun c =>
      decide (c.name ∉ ["created_at", "updated_at"]) }

def factsDb (rows : List Row) : Opened where
  db := { tables := AList.singleton "sf_quarterly_facts" { schema := olderFacts, rows := rows }
          indexes := ∅ }

def revenueRow : Row :=
  olderFacts.coerce "2024-05-01 00:00:00"
    [("ticker", .text "ACME"), ("statement_type", .text "income"), ("concept", .text "Revenue"),
      ("quarter", .text "2024Q1")]

theorem accepted_facts : ∀ p ∈ factsStart.expectedTables, Accepted p := by
  intro p hp
  cases List.mem_singleton.1 hp
  exact ⟨rfl, by decide +kernel, by decide +kernel⟩

theorem reconcile_converges_facts :
    Converged factsStart (left (reconcile factsStart) (factsDb [])) ↔
      Reconcilables factsStart factsStart.expectedTables
        (left (pruneUnexpected factsStart) (factsDb [])) :=
  reconcile_converges_iff factsStart (factsDb []) accepted_facts (by decide +kernel)

/-- With one row in the table the missing columns are refused, and the reconciliation ends as if
nothing were missing. -/
theorem reconcile_leaves_columns_missing :
    (∀ p ∈ factsStart.expectedTables, Accepted p) ∧
      finishes factsStart (factsDb [revenueRow]) = true ∧
      ¬ Converged factsStart (left (reconcile factsStart) (factsDb [revenueRow])) := by
  refine ⟨accepted_facts, by decide +kernel, ?_⟩
  intro h
  obtain ⟨T, hT, hm⟩ := h.tables ("sf_quarterly_facts", sfQuarterlyFacts) List.mem_cons_self
  have hmissing : ((left (reconcile factsStart) (factsDb [revenueRow])).db.find
      "sf_quarterly_facts").map (fun T => decide ("created_at" ∈ T.schema.names)) = some false := by
    decide +kernel
  rw [hT, Option.map_some] at hmissing
  have hname : "created_at" ∈ T.schema.names := (hm.names "created_at").2 (by decide +kernel)
  exact of_decide_eq_false (Option.some.inj hmissing) hname

end Management
