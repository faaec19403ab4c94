import AnythingTools.Sync.CascadeFrame
import AnythingTools.Sync.SchemaManager

namespace Sync
open Relational Relational.Database Session Schemas Management
set_option autoImplicit true

/-- The primary key of a registered table. -/
def keyColumns (p : String × TableDdl) : List String :=
  (((cloudColumns p.1 p.2).getD []).filter fun c => decide (0 < c.pk)).map Column.name

/-- The key of a cloud row, as the sync compares it. -/
def cloudKey (p : String × TableDdl) (r : Row) : List String :=
  (keyColumns p).map fun c => Python.str (r.get c)

/-- Every key of a registered cloud table is still there. -/
def KeysKept (tables : List (String × TableDdl)) (cloud cloud' : Database) : Prop :=
  ∀ p ∈ tables, ∀ r ∈ cloud.rows p.1, ∃ r' ∈ cloud'.rows p.1, cloudKey p r' = cloudKey p r

/-- The columns of the script that the cloud table does not have. -/
def missingColumns (p : String × TableDdl) (T : Table) : List Column :=
  ((cloudColumns p.1 p.2).getD []).filter fun c => decide (c.name ∉ T.schema.names)

/-- The calls without which a table is not reconciled. -/
def reconcileCalls (sf : Snowflake) (cloud : Database) (p : String × TableDdl) : List Call :=
  match cloud.find p.1 with
  | none => ((getSnowflakeDdl sf p.1 p.2).map (Call.createTable p.1)).toList
  | some T => (missingColumns p T).map fun c => .addColumn p.1 c.name (addedType c)

/-- The type that an added column gets. -/
def typeIn (cols : List Column) (n : String) : Option String :=
  (cols.find? fun c => decide (c.name = n)).map addedType

/-- The types of a cloud table once it is reconciled, as far as its script names the columns. -/
def reconciledTypes (sf : Snowflake) (cloud : Database) (p : String × TableDdl) :
    Option (String → Option String) :=
  match cloud.find p.1 with
  | none => (getSnowflakeDdl sf p.1 p.2).map fun ddl n => (ddl.schema.column? n).map Column.type
  | some T => some fun n =>
      ((T.schema.column? n).map Column.type).or (typeIn (missingColumns p T) n)

/-- The tables that a start rebuilds when nothing fails. -/
def plannedRebuilds (sf : Snowflake) (cloud : Database) (tables : List (String × TableDdl)) :
    List TypeMismatchPlan :=
  tables.filterMap fun p => rebuildPlan sf p (reconciledTypes sf cloud p)

/-- No call before the rebuilds fails. -/
def ReachesRebuilds (sf : Snowflake) (cloud : Database) (tables : List (String × TableDdl)) : Prop :=
  sf.refuses .currentVersion = false ∧ sf.refuses (.informationSchema false) = false ∧
    (∀ p ∈ tables, ∀ c ∈ reconcileCalls sf cloud p, sf.refuses c = false) ∧
      sf.refuses (.informationSchema true) = false

instance {tables : List (String × TableDdl)} : Decidable (ReachesRebuilds sf cloud tables) :=
  inferInstanceAs (Decidable (_ ∧ _))

/-- The batch is read and the new table takes it in. -/
def batchPasses (sf : Snowflake) (plan : TypeMismatchPlan) (b : Nat × List Row) : Bool :=
  !sf.refuses (.selectBatch plan.tableName b.1) &&
    (!sf.refuses (.insertBatch plan.tableName b.1 b.2) && batchIsAccepted sf plan.newDdl.schema b.2)

/-- The batches of a local table that is not missing. -/
def planBatches (op : Database) (plan : TypeMismatchPlan) : List (Nat × List Row) :=
  match op.find plan.tableName with
  | none => []
  | some L => if L.schema.names = [] then [] else localBatches L

/-- The rows of a table after its rebuild: those of the local batches before the first failure. -/
def insertedRows (sf : Snowflake) (op : Database) (plan : TypeMismatchPlan) : List Row :=
  if sf.refuses (.createTable plan.tableName plan.newDdl) = true then []
  else ((planBatches op plan).takeWhile (batchPasses sf plan)).flatMap
    fun b => storedInCloud sf plan.newDdl.schema b.2

/-- No call of the rebuild fails. -/
def rebuildCompletes (sf : Snowflake) (op : Database) (plan : TypeMismatchPlan) : Bool :=
  !sf.refuses (.dropTable plan.tableName) &&
    (!sf.refuses (.createTable plan.tableName plan.newDdl) &&
      match op.find plan.tableName with
      | none => true
      | some L =>
        if L.schema.names = [] then true
        else (localBatches L).all (batchPasses sf plan) &&
          !sf.refuses (.selectBatch plan.tableName (1000 * (localBatches L).length)))

/-- The rebuild of the plan gets as far as dropping its table. -/
def Dropped (sf : Snowflake) (op : Database) : List TypeMismatchPlan → TypeMismatchPlan → Prop
  | [], _ => False
  | p :: ps, plan =>
    (plan = p ∧ sf.refuses (.dropTable p.tableName) = false) ∨
      (rebuildCompletes sf op p = true ∧ Dropped sf op ps plan)

/-- The other tables are as they were. -/
def Elsewhere (t : String) (db db' : Database) : Prop := ∀ u, u ≠ t → db'.find u = db.find u

instance : IsPreorder Database (Elsewhere t) where
  refl _ _ _ := rfl
  trans _ _ _ h h' u hu := (h' u hu).trans (h u hu)

/-- The call is about the table, or about none. -/
def Call.On (t : String) : Call → Prop
  | .createTable u _ => u = t
  | .addColumn u _ _ => u = t
  | .dropColumn u _ => u = t
  | .dropTable u => u = t
  | .insertBatch u _ _ => u = t
  | _ => True

theorem cloudEffect_elsewhere (hc : Call.On t c) (h : cloudEffect sf db c = .ok db') :
    Elsewhere t db db' := by
  intro u hu
  cases c with
  | currentVersion => cases h; rfl
  | informationSchema types => cases h; rfl
  | selectBatch t' offset => cases h; rfl
  | createTable t' ddl =>
    cases hc
    rw [cloudEffect] at h
    split at h
    · split at h
      · cases h; rfl
      · cases h
    · cases h
      exact AList.lookup_insert_ne hu
  | addColumn t' n type =>
    cases hc
    rw [cloudEffect] at h
    split at h
    · cases h
    · split at h
      · cases h
      · cases h
        exact find_update_ne db _ hu
  | dropColumn t' n =>
    cases hc
    cases h
    exact find_update_ne db _ hu
  | dropTable t' =>
    cases hc
    cases h
    rw [find_dropTable_ne _ _ hu]
    rfl
  | insertBatch t' offset rows =>
    cases hc
    rw [cloudEffect] at h
    split at h
    · cases h
    · split at h
      · cases h
        exact find_update_ne db _ hu
      · cases h

theorem exec_call (sf : Snowflake) (c : Call) (s : Database) :
    exec (call sf c) s =
      if sf.refuses c = true then (.error .refused, s)
      else match cloudEffect sf s c with
        | .ok s' => (.ok (), s')
        | .error e => (.error e, s) := by
  rw [call]
  split
  · rfl
  · rw [exec_stmt]
    cases cloudEffect sf s c <;> rfl

theorem call_frames {R : Database → Database → Prop} [IsPreorder Database R]
    (h : ∀ db db', cloudEffect sf db c = .ok db' → R db db') : Frames R (call sf c) := by
  rw [call]
  split
  · exact Frames.throw _
  · exact Frames.stmt h

/-- The keys of a registered table are the same. -/
def SameKeys (p : String × TableDdl) (db db' : Database) : Prop :=
  (db'.rows p.1).map (cloudKey p) = (db.rows p.1).map (cloudKey p)

instance : IsPreorder Database (SameKeys p) where
  refl _ := rfl
  trans _ _ _ h h' := Eq.trans h' h

theorem sameKeys_of_elsewhere (h : Elsewhere t db db') (hp : p.1 ≠ t) : SameKeys p db db' := by
  rw [SameKeys, Database.rows, Database.rows, h p.1 hp]

theorem rows_update (db : Database) (t : String) (f : Table → Table) :
    (db.update t f).rows t = ((db.find t).map fun T => (f T).rows).getD [] := by
  rw [Database.rows, find_update_self]
  cases db.find t <;> rfl

theorem sameKeys_update (f : Table → Table) (g : Row → Row) (hf : ∀ T, (f T).rows = T.rows.map g)
    (hg : ∀ r, cloudKey p (g r) = cloudKey p r) (db : Database) :
    SameKeys p db (db.update p.1 f) := by
  rw [SameKeys, rows_update, Database.rows]
  cases db.find p.1 with
  | none => rfl
  | some T =>
    dsimp only [Option.map_some, Option.getD_some]
    rw [hf, List.map_map]
    apply List.map_congr_left
    intro r _
    exact hg r

theorem get_add_null (r : Row) (c n : String) : (r.add c .null).get n = r.get n := by
  by_cases hn : n = c
  · subst hn
    induction r with
    | nil => simp [Row.add, Row.get_cons]
    | cons q r ih =>
      rw [Row.add, List.cons_append, Row.get_cons, Row.get_cons]
      split
      · rfl
      · exact ih
  · exact Row.get_add_ne r .null hn

theorem keyColumns_subset (hc : cloudColumns p.1 p.2 = some cols) :
    ∀ n ∈ keyColumns p, n ∈ cols.map Column.name := by
  intro n hn
  rw [keyColumns, hc] at hn
  obtain ⟨c, hm, he⟩ := List.mem_map.1 hn
  exact List.mem_map.2 ⟨c, (List.mem_filter.1 hm).1, he⟩

/-- No call of a reconciliation takes a key away. -/
theorem reconcileTable_sameKeys (sf : Snowflake) (existing : Database) (p : String × TableDdl) :
    Frames (SameKeys p) (reconcileTable sf existing p) := by
  have hcreate (ddl : TableDdl) : Frames (SameKeys p) (call sf (.createTable p.1 ddl)) := by
    apply call_frames
    intro db db' h
    rw [cloudEffect] at h
    split at h
    · split at h
      · cases h
        exact refl_of (SameKeys p) db
      · cases h
    next hf =>
      cases h
      rw [SameKeys, rows_of_none hf, Database.rows, find, AList.lookup_insert]
  have hadd (n type : String) : Frames (SameKeys p) (call sf (.addColumn p.1 n type)) := by
    apply call_frames
    intro db db' h
    rw [cloudEffect] at h
    split at h
    · cases h
    · split at h
      · cases h
      · cases h
        apply sameKeys_update _ fun r => r.add n .null
        · intro T
          rfl
        · intro r
          apply List.map_congr_left
          intro c _
          rw [get_add_null]
  have hdrop (n : String) (hn : n ∉ keyColumns p) :
      Frames (SameKeys p) (call sf (.dropColumn p.1 n)) := by
    apply call_frames
    intro db db' h
    cases h
    apply sameKeys_update _ fun r => r.drop n
    · intro T
      rfl
    · intro r
      apply List.map_congr_left
      intro c hc
      rw [Row.get_drop_ne]
      exact fun he => hn (he ▸ hc)
  unfold reconcileTable
  split
  · split
    · exact Frames.pure _
    · exact hcreate _
  · unfold reconcileColumns
    split
    · exact Frames.pure _
    next cols hcols =>
      apply Frames.bind
      · apply Frames.forM
        intro c _
        exact hadd _ _
      · intro _
        apply Frames.forM
        intro n hn
        obtain ⟨_, hn⟩ := List.mem_filter.1 hn
        apply Frames.attempt
        · apply hdrop
          intro hk
          simp only [decide_eq_true_eq] at hn
          exact hn (keyColumns_subset hcols n hk)
        · intro _
          exact Frames.pure _

theorem reconcileTable_elsewhere (sf : Snowflake) (existing : Database) (p : String × TableDdl) :
    Frames (Elsewhere p.1) (reconcileTable sf existing p) := by
  have hcall (c : Call) (hc : Call.On p.1 c) : Frames (Elsewhere p.1) (call sf c) := by
    apply call_frames
    intro db db' h
    exact cloudEffect_elsewhere hc h
  unfold reconcileTable
  split
  · split
    · exact Frames.pure _
    · exact hcall _ rfl
  · unfold reconcileColumns
    split
    · exact Frames.pure _
    · apply Frames.bind
      · apply Frames.forM
        intro c _
        exact hcall _ rfl
      · intro _
        apply Frames.forM
        intro n _
        apply Frames.attempt
        · exact hcall _ rfl
        · intro _
          exact Frames.pure _

theorem reconcile_sameKeys {tables : List (String × TableDdl)}
    (hn : (tables.map Prod.fst).Nodup) (hp : p ∈ tables) (sf : Snowflake) :
    Frames (SameKeys p) (reconcile sf tables) := by
  have hschema (types : Bool) : Frames (SameKeys p) (call sf (.informationSchema types)) := by
    apply call_frames
    intro db db' h
    cases h
    exact refl_of (SameKeys p) db
  apply Frames.bind (hschema false)
  intro _
  apply Frames.bind
  · exact Frames.get
  · intro existing
    apply Frames.forM
    intro q hq
    by_cases he : p.1 = q.1
    · have heq : p = q := List.inj_on_of_nodup_map hn hp hq he
      rw [heq]
      exact reconcileTable_sameKeys sf existing q
    · intro s
      exact sameKeys_of_elsewhere (reconcileTable_elsewhere sf existing q s) he

theorem exec_call_refused (h : sf.refuses c = true) (s : Database) :
    exec (call sf c) s = (.error .refused, s) := by
  rw [exec_call, if_pos h]

theorem exec_call_ok (h : sf.refuses c = false) (he : cloudEffect sf s c = .ok s') :
    exec (call sf c) s = (.ok (), s') := by
  rw [exec_call, h, he]
  rfl

theorem column?_append (S : Schema) (c : Column) (n : String) :
    ({ S with columns := S.columns ++ [c] } : Schema).column? n =
      (S.column? n).or (if c.name = n then some c else none) := by
  rw [Schema.column?, Schema.column?, List.find?_append, List.find?_singleton]
  simp only [decide_eq_true_eq]

theorem column?_isSome {S : Schema} : (S.column? n).isSome = true ↔ n ∈ S.names := by
  rw [Schema.column?, List.find?_isSome, Schema.names, List.mem_map]
  simp only [decide_eq_true_eq]

/-- The missing columns are added one by one, unless one of them is refused. -/
theorem exec_addColumns (sf : Snowflake) {cols : List Column} (hn : (cols.map Column.name).Nodup)
    (hU : find db t = some U) (hne : ∀ c ∈ cols, c.name ∉ U.schema.names) :
    if ∀ c ∈ cols, sf.refuses (.addColumn t c.name (addedType c)) = false then
      ∃ db' U', exec (cols.forM fun c => call sf (.addColumn t c.name (addedType c))) db =
          (.ok (), db') ∧ db'.find t = some U' ∧
        ∀ n, (U'.schema.column? n).map Column.type =
          ((U.schema.column? n).map Column.type).or (typeIn cols n)
    else ∃ e db', exec (cols.forM fun c => call sf (.addColumn t c.name (addedType c))) db =
        (.error e, db') := by
  induction cols generalizing db U with
  | nil =>
    rw [if_pos (by intro c hc; cases hc)]
    refine ⟨db, U, rfl, hU, ?_⟩
    intro n
    rw [typeIn, List.find?_nil, Option.map_none, Option.or_none]
  | cons c cols ih =>
    rw [List.map_cons, List.nodup_cons] at hn
    have hforM (s : Database) : exec ((c :: cols).forM fun c =>
          call sf (.addColumn t c.name (addedType c))) s =
        exec (call sf (.addColumn t c.name (addedType c)) >>= fun _ =>
          cols.forM fun c => call sf (.addColumn t c.name (addedType c))) s := rfl
    rw [hforM]
    by_cases hr : sf.refuses (.addColumn t c.name (addedType c)) = true
    · rw [if_neg fun hall => by
        rw [hall c List.mem_cons_self] at hr
        cases hr]
      exact ⟨.refused, db, exec_bind_error (exec_call_refused hr db)⟩
    · rw [Bool.not_eq_true] at hr
      have hfresh := hne c List.mem_cons_self
      let f : Table → Table := fun T =>
        { schema := { T.schema with columns := T.schema.columns ++ [col c.name (addedType c)] }
          rows := T.rows.map fun r => r.add c.name .null }
      have hU₁ : (db.update t f).find t = some (f U) := by
        rw [find_update_self, hU]
        rfl
      have hx : exec (call sf (.addColumn t c.name (addedType c))) db = (.ok (), db.update t f) := by
        apply exec_call_ok hr
        rw [cloudEffect, hU]
        exact if_neg hfresh
      have hnames (n : String) : n ∈ (f U).schema.names ↔ n ∈ U.schema.names ∨ n = c.name := by
        change n ∈ (U.schema.columns ++ [col c.name (addedType c)]).map Column.name ↔ _
        rw [List.map_append, List.mem_append, List.map_singleton, List.mem_singleton]
        rfl
      have hfree : ∀ d ∈ cols, d.name ∉ (f U).schema.names := by
        intro d hd hm
        rcases (hnames d.name).1 hm with hm | hm
        · exact hne d (List.mem_cons_of_mem c hd) hm
        · exact hn.1 (hm ▸ List.mem_map.2 ⟨d, hd, rfl⟩)
      have hrest := ih hn.2 hU₁ hfree
      have hcons : (∀ d ∈ c :: cols, sf.refuses (.addColumn t d.name (addedType d)) = false) ↔
          sf.refuses (.addColumn t c.name (addedType c)) = false ∧
            ∀ d ∈ cols, sf.refuses (.addColumn t d.name (addedType d)) = false :=
        List.forall_mem_cons
      rw [exec_bind_ok hx]
      by_cases hall : ∀ d ∈ cols, sf.refuses (.addColumn t d.name (addedType d)) = false
      · rw [if_pos hall] at hrest
        rw [if_pos (hcons.2 ⟨hr, hall⟩)]
        obtain ⟨db', U', hx', hU', ht⟩ := hrest
        refine ⟨db', U', hx', hU', ?_⟩
        intro n
        rw [ht n]
        change ((Schema.column? { U.schema with columns := _ } n).map Column.type).or _ = _
        rw [column?_append, typeIn, typeIn, List.find?_cons]
        by_cases hcn : c.name = n
        · have hnone : U.schema.column? n = none := by
            rw [← Option.not_isSome_iff_eq_none, column?_isSome, ← hcn]
            exact hfresh
          simp [hnone, hcn, col]
        · simp [hcn, col]
      · rw [if_neg hall] at hrest
        rw [if_neg fun hall' => hall (hcons.1 hall').2]
        exact hrest

/-- Dropping extra columns never fails as a whole and keeps the other columns. -/
theorem exec_dropColumns (sf : Snowflake) (extra : List String) (hU : find db t = some U) :
    ∃ db' U', exec (extra.forM fun n =>
        attempt (call sf (.dropColumn t n)) fun _ => return ()) db = (.ok (), db') ∧
      db'.find t = some U' ∧ ∀ n, n ∉ extra → U'.schema.column? n = U.schema.column? n := by
  induction extra generalizing db U with
  | nil => exact ⟨db, U, rfl, hU, fun _ _ => rfl⟩
  | cons c extra ih =>
    have hstep : ∃ db₁ U₁, exec (attempt (call sf (.dropColumn t c)) fun _ => return ()) db =
        (.ok (), db₁) ∧ db₁.find t = some U₁ ∧
          ∀ n, n ≠ c → U₁.schema.column? n = U.schema.column? n := by
      rw [exec_attempt]
      by_cases hr : sf.refuses (.dropColumn t c) = true
      · rw [exec_call_refused hr]
        exact ⟨db, U, rfl, hU, fun _ _ => rfl⟩
      · rw [Bool.not_eq_true] at hr
        rw [exec_call_ok hr rfl]
        refine ⟨_, _, rfl, by rw [find_update_self, hU]; rfl, ?_⟩
        intro n hn
        dsimp only [Schema.column?]
        rw [List.find?_filter]
        congr 1
        funext d
        by_cases hd : d.name = n
        · simp [hd, hn]
        · simp [hd]
    obtain ⟨db₁, U₁, hx₁, hU₁, hc₁⟩ := hstep
    obtain ⟨db', U', hx', hU', hc'⟩ := ih hU₁
    refine ⟨db', U', ?_, hU', ?_⟩
    · change exec (attempt (call sf (.dropColumn t c)) (fun _ => return ()) >>= fun _ =>
        extra.forM fun n => attempt (call sf (.dropColumn t n)) fun _ => return ()) db = _
      rw [exec_bind_ok hx₁]
      exact hx'
    · intro n hn
      rw [List.mem_cons, not_or] at hn
      rw [hc' n hn.2, hc₁ n hn.1]

/-- One table is as it was. -/
def Untouched (t : String) (db db' : Database) : Prop := db'.find t = db.find t

instance : IsPreorder Database (Untouched t) where
  refl _ := rfl
  trans _ _ _ h h' := Eq.trans h' h

theorem reconcileTables_untouched {ps : List (String × TableDdl)} (h : ∀ q ∈ ps, q.1 ≠ t)
    (sf : Snowflake) (cloud : Database) :
    Frames (Untouched t) (ps.forM (reconcileTable sf cloud)) := by
  apply Frames.forM
  intro q hq s
  exact reconcileTable_elsewhere sf cloud q s t (h q hq).symm

/-- The plan for the table is the one that the cloud before the start gives. -/
def PlannedAs (sf : Snowflake) (cloud : Database) (p : String × TableDdl) (db : Database) : Prop :=
  rebuildPlan sf p (columnTypes db p.1) = rebuildPlan sf p (reconciledTypes sf cloud p)

theorem rebuildPlan_congr {f g : String → Option String}
    (h : ∀ cols, columnsFromDdlInMemory p.2 p.1 = some cols → ∀ c ∈ cols, f c.name = g c.name) :
    rebuildPlan sf p (some f) = rebuildPlan sf p (some g) := by
  unfold rebuildPlan
  cases hd : columnsFromDdlInMemory p.2 p.1 with
  | none => rfl
  | some cols =>
    have hm : cloudMismatches p.1 f cols = cloudMismatches p.1 g cols := by
      apply List.filterMap_congr
      intro c hc
      rw [h cols hd c hc]
    dsimp only
    rw [hm]

theorem plannedAs_of_untouched (h : Untouched p.1 db db') (hpl : PlannedAs sf cloud p db) :
    PlannedAs sf cloud p db' := by
  rw [PlannedAs, columnTypes, h]
  exact hpl

theorem exec_reconcileTable (sf : Snowflake) {p : String × TableDdl}
    (hn : ∀ cols, cloudColumns p.1 p.2 = some cols → (cols.map Column.name).Nodup)
    (hf : db.find p.1 = cloud.find p.1) :
    if ∀ c ∈ reconcileCalls sf cloud p, sf.refuses c = false then
      ∃ db', exec (reconcileTable sf cloud p) db = (.ok (), db') ∧ PlannedAs sf cloud p db'
    else ∃ e db', exec (reconcileTable sf cloud p) db = (.error e, db') := by
  cases hT : cloud.find p.1 with
  | none =>
    rw [reconcileCalls, reconcileTable, hT]
    cases hd : getSnowflakeDdl sf p.1 p.2 with
    | none =>
      refine ⟨db, rfl, ?_⟩
      rw [PlannedAs, columnTypes, hf, reconciledTypes, hT]
      dsimp only
      rw [hd]
      rfl
    | some ddl =>
      dsimp only [Option.map_some, Option.toList_some]
      simp only [List.forall_mem_singleton]
      by_cases hr : sf.refuses (.createTable p.1 ddl) = true
      · rw [if_neg (by rw [hr]; simp)]
        exact ⟨.refused, db, exec_call_refused hr db⟩
      · rw [Bool.not_eq_true] at hr
        rw [if_pos hr]
        rw [hT] at hf
        have he : cloudEffect sf db (.createTable p.1 ddl) =
            .ok { db with tables := db.tables.insert p.1 { schema := ddl.schema, rows := [] } } := by
          rw [cloudEffect, hf]
        refine ⟨_, exec_call_ok hr he, ?_⟩
        rw [PlannedAs, columnTypes, find, AList.lookup_insert, reconciledTypes, hT]
        dsimp only
        rw [hd]
        rfl
  | some T =>
    rw [hT] at hf
    rw [reconcileCalls, reconcileTable, hT]
    dsimp only
    simp only [List.forall_mem_map]
    cases hc : cloudColumns p.1 p.2 with
    | none =>
      have hnone : columnsFromDdlInMemory p.2 p.1 = none := by
        rw [cloudColumns] at hc
        split at hc
        · cases hc
        next h => exact h
      have hm : missingColumns p T = [] := by rw [missingColumns, hc]; rfl
      rw [hm, if_pos (by intro c h; cases h), reconcileColumns, hc]
      refine ⟨db, rfl, ?_⟩
      have hplan (types : Option (String → Option String)) : rebuildPlan sf p types = none := by
        unfold rebuildPlan
        rw [hnone]
        cases types <;> rfl
      rw [PlannedAs, hplan, hplan]
    | some cols =>
      have hm : (cols.filter fun c => decide (c.name ∉ T.schema.names)) = missingColumns p T := by
        rw [missingColumns, hc]
        rfl
      have hnodup : ((missingColumns p T).map Column.name).Nodup := by
        rw [← hm]
        exact List.Nodup.sublist (List.filter_sublist.map Column.name) (hn cols hc)
      have hfree : ∀ c ∈ missingColumns p T, c.name ∉ T.schema.names := by
        intro c h
        rw [← hm] at h
        simpa using (List.mem_filter.1 h).2
      have hadds := exec_addColumns sf hnodup hf hfree
      rw [reconcileColumns, hc]
      dsimp only
      rw [hm]
      by_cases hall : ∀ c ∈ missingColumns p T,
          sf.refuses (.addColumn p.1 c.name (addedType c)) = false
      · rw [if_pos hall] at hadds ⊢
        obtain ⟨db₁, U₁, hx₁, hU₁, ht₁⟩ := hadds
        rw [exec_bind_ok hx₁]
        obtain ⟨db', U', hx', hU', hc'⟩ := exec_dropColumns sf
          (T.schema.names.filter fun n => decide (n ∉ cols.map Column.name)) hU₁
        refine ⟨db', hx', ?_⟩
        rw [PlannedAs, columnTypes, hU', reconciledTypes, hT]
        apply rebuildPlan_congr
        intro desired hd c hcm
        have hcols : cols = desired := by
          rw [cloudColumns, hd] at hc
          exact (Option.some.inj hc).symm
        dsimp only
        rw [hc' c.name, ht₁ c.name]
        intro hx
        obtain ⟨_, hx⟩ := List.mem_filter.1 hx
        simp only [decide_eq_true_eq] at hx
        exact hx (hcols ▸ List.mem_map.2 ⟨c, hcm, rfl⟩)
      · rw [if_neg hall] at hadds ⊢
        obtain ⟨e, db', hx⟩ := hadds
        exact ⟨e, db', exec_bind_error hx⟩

theorem exec_reconcileTables (sf : Snowflake) (db : Database) {ps : List (String × TableDdl)}
    (hps : (ps.map Prod.fst).Nodup)
    (hn : ∀ p ∈ ps, ∀ cols, cloudColumns p.1 p.2 = some cols → (cols.map Column.name).Nodup)
    (hf : ∀ p ∈ ps, db.find p.1 = cloud.find p.1) :
    if ∀ p ∈ ps, ∀ c ∈ reconcileCalls sf cloud p, sf.refuses c = false then
      ∃ db', exec (ps.forM (reconcileTable sf cloud)) db = (.ok (), db') ∧
        ∀ p ∈ ps, PlannedAs sf cloud p db'
    else ∃ e db', exec (ps.forM (reconcileTable sf cloud)) db = (.error e, db') := by
  induction ps generalizing db with
  | nil =>
    rw [if_pos (by intro p hp; cases hp)]
    exact ⟨db, rfl, by intro p hp; cases hp⟩
  | cons p ps ih =>
    rw [List.map_cons, List.nodup_cons] at hps
    have hforM (s : Database) : exec ((p :: ps).forM (reconcileTable sf cloud)) s =
        exec (reconcileTable sf cloud p >>= fun _ => ps.forM (reconcileTable sf cloud)) s := rfl
    have hcons : (∀ q ∈ p :: ps, ∀ c ∈ reconcileCalls sf cloud q, sf.refuses c = false) ↔
        (∀ c ∈ reconcileCalls sf cloud p, sf.refuses c = false) ∧
          ∀ q ∈ ps, ∀ c ∈ reconcileCalls sf cloud q, sf.refuses c = false := List.forall_mem_cons
    have hone := exec_reconcileTable sf (hn p List.mem_cons_self)
      (hf p List.mem_cons_self)
    rw [hforM]
    by_cases hall : ∀ c ∈ reconcileCalls sf cloud p, sf.refuses c = false
    · rw [if_pos hall] at hone
      obtain ⟨db₁, hx₁, hp₁⟩ := hone
      have helse : Elsewhere p.1 db db₁ := by
        have h := reconcileTable_elsewhere sf cloud p db
        rw [left, hx₁] at h
        exact h
      have hfresh : ∀ q ∈ ps, q.1 ≠ p.1 := by
        intro q hq he
        exact hps.1 (he ▸ List.mem_map.2 ⟨q, hq, rfl⟩)
      have hrest := ih db₁ hps.2 (fun q hq => hn q (List.mem_cons_of_mem p hq))
        (fun q hq => (helse q.1 (hfresh q hq)).trans (hf q (List.mem_cons_of_mem p hq)))
      rw [exec_bind_ok hx₁]
      by_cases hall' : ∀ q ∈ ps, ∀ c ∈ reconcileCalls sf cloud q, sf.refuses c = false
      · rw [if_pos hall'] at hrest
        rw [if_pos (hcons.2 ⟨hall, hall'⟩)]
        obtain ⟨db', hx', hp'⟩ := hrest
        refine ⟨db', hx', ?_⟩
        intro q hq
        rcases List.mem_cons.1 hq with he | hq
        · have hsame := reconcileTables_untouched hfresh sf cloud db₁
          rw [left, hx'] at hsame
          rw [he]
          exact plannedAs_of_untouched hsame hp₁
        · exact hp' q hq
      · rw [if_neg hall'] at hrest
        rw [if_neg fun h => hall' (hcons.1 h).2]
        exact hrest
    · rw [if_neg hall] at hone
      rw [if_neg fun h => hall (hcons.1 h).1]
      obtain ⟨e, db', hx⟩ := hone
      exact ⟨e, db', exec_bind_error hx⟩

theorem rebuildTable_elsewhere (sf : Snowflake) (op : Database) (plan : TypeMismatchPlan) :
    Frames (Elsewhere plan.tableName) (rebuildTable sf op plan) := by
  have hcall (c : Call) (hc : Call.On plan.tableName c) :
      Frames (Elsewhere plan.tableName) (call sf c) := by
    apply call_frames
    intro db db' h
    exact cloudEffect_elsewhere hc h
  apply Frames.bind
  · exact hcall _ rfl
  · intro _
    apply Frames.bind
    · exact hcall _ rfl
    · intro _
      split
      · exact Frames.pure _
      · split
        · exact Frames.pure _
        · apply Frames.bind
          · apply Frames.forM
            intro b _
            apply Frames.bind
            · exact hcall _ trivial
            · intro _
              exact hcall _ rfl
          · intro _
            apply Frames.bind
            · exact hcall _ trivial
            · intro _
              exact Frames.pure _

/-- The batches go in one after the other until one of them fails. -/
theorem exec_insertBatches (sf : Snowflake) (bs : List (Nat × List Row))
    (hf : find db plan.tableName = some { schema := plan.newDdl.schema, rows := rs }) :
    ∃ db', left (bs.forM (insertBatch sf plan.tableName)) db = db' ∧
      db'.find plan.tableName = some
        { schema := plan.newDdl.schema
          rows := rs ++ (bs.takeWhile (batchPasses sf plan)).flatMap
            fun b => storedInCloud sf plan.newDdl.schema b.2 } ∧
      ((exec (bs.forM (insertBatch sf plan.tableName)) db).1 = .ok () ↔
        bs.all (batchPasses sf plan) = true) := by
  induction bs generalizing db rs with
  | nil =>
    refine ⟨db, rfl, ?_, ?_⟩
    · rw [List.takeWhile_nil, List.flatMap_nil, List.append_nil]
      exact hf
    · exact iff_of_true rfl rfl
  | cons b bs ih =>
    have hforM : exec ((b :: bs).forM (insertBatch sf plan.tableName)) db =
        exec (insertBatch sf plan.tableName b >>= fun _ =>
          bs.forM (insertBatch sf plan.tableName)) db := rfl
    rw [left, hforM, List.takeWhile_cons, List.all_cons]
    by_cases hb : batchPasses sf plan b = true
    · have hb' := hb
      rw [batchPasses, Bool.and_eq_true, Bool.and_eq_true, Bool.not_eq_true', Bool.not_eq_true']
        at hb'
      obtain ⟨hs, hi, ha⟩ := hb'
      let f : Table → Table := fun T =>
        { T with rows := T.rows ++ storedInCloud sf T.schema b.2 }
      have he : cloudEffect sf db (.insertBatch plan.tableName b.1 b.2) =
          .ok (db.update plan.tableName f) := by
        rw [cloudEffect, hf]
        exact if_pos ha
      have hx : exec (insertBatch sf plan.tableName b) db =
          (.ok (), db.update plan.tableName f) := by
        rw [insertBatch, exec_bind_ok (exec_call_ok hs rfl)]
        exact exec_call_ok hi he
      have hf' : (db.update plan.tableName f).find plan.tableName = some
          { schema := plan.newDdl.schema
            rows := rs ++ storedInCloud sf plan.newDdl.schema b.2 } := by
        rw [find_update_self, hf]
        rfl
      obtain ⟨db', hl, hd, hok⟩ := ih hf'
      rw [exec_bind_ok hx, hb, if_pos rfl, Bool.true_and]
      refine ⟨db', hl, ?_, hok⟩
      rw [hd, List.flatMap_cons, List.append_assoc]
    · rw [if_neg hb]
      have hfail : ∃ e, exec (insertBatch sf plan.tableName b) db = (.error e, db) := by
        rw [insertBatch]
        by_cases hs : sf.refuses (.selectBatch plan.tableName b.1) = true
        · exact ⟨_, exec_bind_error (exec_call_refused hs db)⟩
        · rw [Bool.not_eq_true] at hs
          rw [exec_bind_ok (exec_call_ok hs rfl)]
          by_cases hi : sf.refuses (.insertBatch plan.tableName b.1 b.2) = true
          · exact ⟨_, exec_call_refused hi db⟩
          · rw [Bool.not_eq_true] at hi
            have ha : ¬ batchIsAccepted sf plan.newDdl.schema b.2 = true := by
              intro ha
              apply hb
              rw [batchPasses, hs, hi, ha]
              rfl
            refine ⟨.constraint, ?_⟩
            rw [exec_call, hi, cloudEffect, hf]
            dsimp only
            rw [if_neg ha]
            rfl
      obtain ⟨e, hx⟩ := hfail
      rw [exec_bind_error hx]
      refine ⟨db, rfl, ?_, ?_⟩
      · rw [List.flatMap_nil, List.append_nil]
        exact hf
      · rw [Bool.not_eq_true] at hb
        rw [hb]
        simp

/-- A rebuild leaves the rows it got to, and completes when no call of it fails. -/
theorem exec_rebuildTable (hd : sf.refuses (.dropTable plan.tableName) = false) (op db : Database) :
    (left (rebuildTable sf op plan) db).rows plan.tableName = insertedRows sf op plan ∧
      ((exec (rebuildTable sf op plan) db).1.toOption.isSome = true ↔
        rebuildCompletes sf op plan = true) := by
  have hdrop : exec (call sf (.dropTable plan.tableName)) db =
      (.ok (), db.dropTable false plan.tableName) := exec_call_ok hd rfl
  have hgone := find_dropTable_self db false plan.tableName
  rw [left, rebuildTable, exec_bind_ok hdrop, insertedRows, rebuildCompletes, hd]
  by_cases hc : sf.refuses (.createTable plan.tableName plan.newDdl) = true
  · rw [exec_bind_error (exec_call_refused hc _), if_pos hc, hc]
    refine ⟨rows_of_none hgone, ?_⟩
    simp [Except.toOption]
  · have hc' := hc
    rw [Bool.not_eq_true] at hc'
    let db₁ : Database := { db.dropTable false plan.tableName with
      tables := (db.dropTable false plan.tableName).tables.insert plan.tableName
        { schema := plan.newDdl.schema, rows := [] } }
    have hcreate : exec (call sf (.createTable plan.tableName plan.newDdl))
        (db.dropTable false plan.tableName) = (.ok (), db₁) := by
      apply exec_call_ok hc'
      rw [cloudEffect, hgone]
    have hnew : db₁.find plan.tableName = some { schema := plan.newDdl.schema, rows := [] } :=
      AList.lookup_insert _
    rw [exec_bind_ok hcreate, if_neg hc, hc', planBatches]
    cases hL : op.find plan.tableName with
    | none =>
      refine ⟨rows_of_find hnew, ?_⟩
      exact iff_of_true rfl rfl
    | some L =>
      dsimp only
      by_cases hn : L.schema.names = []
      · rw [if_pos hn, if_pos hn, if_pos hn]
        refine ⟨rows_of_find hnew, ?_⟩
        exact iff_of_true rfl rfl
      · rw [if_neg hn, if_neg hn, if_neg hn]
        obtain ⟨db', hl, hf, hok⟩ := exec_insertBatches sf (localBatches L) hnew
        rw [List.nil_append] at hf
        rw [left] at hl
        cases hx : exec ((localBatches L).forM (insertBatch sf plan.tableName)) db₁ with
        | mk r s =>
          rw [hx] at hl hok
          dsimp only at hl hok
          rw [← hl] at hf
          cases r with
          | error e =>
            rw [exec_bind_error hx]
            refine ⟨rows_of_find hf, ?_⟩
            have hfail : (localBatches L).all (batchPasses sf plan) = false := by
              rw [Bool.eq_false_iff]
              intro hall
              cases hok.2 hall
            rw [hfail]
            simp [Except.toOption]
          | ok u =>
            rw [exec_bind_ok hx, hok.1 rfl]
            by_cases hs : sf.refuses
                (.selectBatch plan.tableName (1000 * (localBatches L).length)) = true
            · rw [exec_bind_error (exec_call_refused hs _), hs]
              refine ⟨rows_of_find hf, ?_⟩
              simp [Except.toOption]
            · rw [Bool.not_eq_true] at hs
              rw [exec_bind_ok (exec_call_ok hs rfl), hs]
              exact ⟨rows_of_find hf, iff_of_true rfl rfl⟩

theorem dropped_mem {plans : List TypeMismatchPlan} (h : Dropped sf op plans plan) :
    plan.tableName ∈ plans.map TypeMismatchPlan.tableName := by
  induction plans with
  | nil => exact h.elim
  | cons p ps ih =>
    rcases h with ⟨h, _⟩ | ⟨_, h⟩
    · rw [h]
      exact List.mem_cons_self
    · exact List.mem_cons_of_mem _ (ih h)

/-- The rebuilds replace the rows of the tables they drop, and no others. -/
theorem left_rebuildTables {plans : List TypeMismatchPlan}
    (hn : (plans.map TypeMismatchPlan.tableName).Nodup) (sf : Snowflake) (op db : Database) :
    (∀ plan, Dropped sf op plans plan →
        (left (rebuildTables sf op plans) db).rows plan.tableName = insertedRows sf op plan) ∧
      ∀ t, (∀ plan, Dropped sf op plans plan → plan.tableName ≠ t) →
        (left (rebuildTables sf op plans) db).rows t = db.rows t := by
  induction plans generalizing db with
  | nil => exact ⟨fun plan h => h.elim, fun t _ => rfl⟩
  | cons p ps ih =>
    rw [List.map_cons, List.nodup_cons] at hn
    have hforM : exec (rebuildTables sf op (p :: ps)) db =
        exec ((rebuildTable sf op p >>= fun _ => pure ()) >>= fun _ => rebuildTables sf op ps) db :=
      rfl
    have hfirst : exec (rebuildTable sf op p >>= fun _ => (pure () : Conn Unit)) db =
        match exec (rebuildTable sf op p) db with
        | (.ok _, s) => (.ok (), s)
        | (.error e, s) => (.error e, s) := by
      rw [exec_bind]
      cases exec (rebuildTable sf op p) db with
      | mk r s => cases r <;> rfl
    have helse := rebuildTable_elsewhere sf op p db
    rw [left] at helse ⊢
    rw [hforM]
    by_cases hd : sf.refuses (.dropTable p.tableName) = true
    · have hx : exec (rebuildTable sf op p) db = (.error .refused, db) :=
        exec_bind_error (exec_call_refused hd db)
      have hnc : rebuildCompletes sf op p = false := by rw [rebuildCompletes, hd]; rfl
      rw [hx] at hfirst
      rw [exec_bind_error hfirst]
      refine ⟨?_, fun t _ => rfl⟩
      intro plan h
      rcases h with ⟨_, h⟩ | ⟨h, _⟩
      · rw [hd] at h
        cases h
      · rw [hnc] at h
        cases h
    · rw [Bool.not_eq_true] at hd
      obtain ⟨hrows, hok⟩ := exec_rebuildTable hd op db
      rw [left] at hrows
      cases hx : exec (rebuildTable sf op p) db with
      | mk r s =>
        rw [hx] at hfirst hrows hok helse
        cases r with
        | error e =>
          have hnc : ¬ rebuildCompletes sf op p = true := fun h => by cases hok.2 h
          rw [exec_bind_error hfirst]
          refine ⟨?_, ?_⟩
          · intro plan h
            rcases h with ⟨h, _⟩ | ⟨h, _⟩
            · rw [h]
              exact hrows
            · exact (hnc h).elim
          · intro t h
            have ht := h p (.inl ⟨rfl, hd⟩)
            rw [Database.rows, Database.rows, helse t ht.symm]
        | ok k =>
          have hc := hok.1 rfl
          rw [exec_bind_ok hfirst]
          obtain ⟨ih₁, ih₂⟩ := ih hn.2 s
          rw [left] at ih₁ ih₂
          refine ⟨?_, ?_⟩
          · intro plan h
            rcases h with ⟨h, _⟩ | ⟨_, h⟩
            · rw [h, ih₂ p.tableName]
              · exact hrows
              · intro q hq he
                exact hn.1 (he ▸ dropped_mem hq)
            · exact ih₁ plan h
          · intro t h
            have ht := h p (.inl ⟨rfl, hd⟩)
            rw [ih₂ t fun q hq => h q (.inr ⟨hc, hq⟩), Database.rows, Database.rows,
              helse t ht.symm]

theorem registry_nodup (e : Env) : (e.tables.map Prod.fst).Nodup := by
  rw [Env.tables]
  cases e.sqliteVecAvailable <;> decide

/-- The names of a table's columns differ. -/
def columnsApart (p : String × TableDdl) : Bool :=
  match cloudColumns p.1 p.2 with
  | none => true
  | some cols => decide (cols.map Column.name).Nodup

theorem registry_columnsApart (e : Env) : e.tables.all columnsApart = true := by
  rw [Env.tables]
  cases e.sqliteVecAvailable <;> decide +kernel

theorem registry_columns (e : Env) (hp : p ∈ e.tables) (h : cloudColumns p.1 p.2 = some cols) :
    (cols.map Column.name).Nodup := by
  have ha := List.all_eq_true.1 (registry_columnsApart e) p hp
  rw [columnsApart, h] at ha
  simpa only [decide_eq_true_eq] using ha

theorem rebuildPlan_tableName (h : rebuildPlan sf p types = some plan) : plan.tableName = p.1 := by
  unfold rebuildPlan at h
  split at h
  · dsimp only at h
    split at h
    · cases h
    · obtain ⟨ddl, _, he⟩ := Option.map_eq_some_iff.1 h
      rw [← he]
  · cases h

theorem plannedRebuilds_nodup {tables : List (String × TableDdl)}
    (hn : (tables.map Prod.fst).Nodup) (sf : Snowflake) (cloud : Database) :
    ((plannedRebuilds sf cloud tables).map TypeMismatchPlan.tableName).Nodup := by
  apply List.Nodup.sublist _ hn
  rw [plannedRebuilds]
  clear hn
  induction tables with
  | nil => exact .refl _
  | cons p ps ih =>
    cases hp : rebuildPlan sf p (reconciledTypes sf cloud p) with
    | none =>
      rw [List.filterMap_cons_none (f := fun p => rebuildPlan sf p (reconciledTypes sf cloud p)) hp]
      exact ih.cons p.1
    | some plan =>
      rw [List.filterMap_cons_some (f := fun p => rebuildPlan sf p (reconciledTypes sf cloud p)) hp,
        List.map_cons, List.map_cons, rebuildPlan_tableName hp]
      exact ih.cons_cons p.1

/-- What a start does to the cloud: nothing that takes keys away before the rebuilds. -/
theorem startup_cases (sf : Snowflake) (e : Env) (op cloud : Database) :
    ∃ db, (∀ p ∈ e.tables, SameKeys p cloud db) ∧
      left (startup sf true e.tables op) cloud =
        if ReachesRebuilds sf cloud e.tables then
          left (rebuildTables sf op (plannedRebuilds sf cloud e.tables)) db
        else db := by
  have hsame := fun p (hp : p ∈ e.tables) => reconcile_sameKeys (registry_nodup e) hp sf cloud
  rw [left, startup, if_pos rfl]
  by_cases hv : sf.refuses .currentVersion = true
  · have hnot : ¬ ReachesRebuilds sf cloud e.tables := by
      intro h
      rw [h.1] at hv
      cases hv
    refine ⟨cloud, fun p _ => refl_of (SameKeys p) cloud, ?_⟩
    rw [exec_bind_error (exec_call_refused hv cloud), if_neg hnot]
  rw [Bool.not_eq_true] at hv
  rw [exec_bind_ok (exec_call_ok hv rfl)]
  by_cases hs : sf.refuses (.informationSchema false) = true
  · have hnot : ¬ ReachesRebuilds sf cloud e.tables := by
      intro h
      rw [h.2.1] at hs
      cases hs
    have hx : exec (reconcile sf e.tables) cloud = (.error .refused, cloud) :=
      exec_bind_error (exec_call_refused hs cloud)
    refine ⟨cloud, fun p _ => refl_of (SameKeys p) cloud, ?_⟩
    rw [exec_bind_error hx, if_neg hnot]
  rw [Bool.not_eq_true] at hs
  have hreconcile : exec (reconcile sf e.tables) cloud =
      exec (e.tables.forM (reconcileTable sf cloud)) cloud := by
    rw [reconcile, exec_bind_ok (exec_call_ok hs rfl), exec_bind_ok (exec_get _)]
  have htables := exec_reconcileTables sf cloud (registry_nodup e)
    (fun p hp cols => registry_columns e hp) (fun p _ => rfl)
  by_cases hall : ∀ p ∈ e.tables, ∀ c ∈ reconcileCalls sf cloud p, sf.refuses c = false
  · rw [if_pos hall] at htables
    obtain ⟨db, hx, hplans⟩ := htables
    rw [← hreconcile] at hx
    have hkeys : ∀ p ∈ e.tables, SameKeys p cloud db := by
      intro p hp
      have h := hsame p hp
      rw [left, hx] at h
      exact h
    refine ⟨db, hkeys, ?_⟩
    rw [exec_bind_ok hx]
    by_cases ht : sf.refuses (.informationSchema true) = true
    · have hnot : ¬ ReachesRebuilds sf cloud e.tables := by
        intro h
        rw [h.2.2.2] at ht
        cases ht
      have hy : exec (reconcileTypes sf e.tables) db = (.error .refused, db) :=
        exec_bind_error (exec_call_refused ht db)
      rw [exec_bind_error hy, if_neg hnot]
    · rw [Bool.not_eq_true] at ht
      have hy : exec (reconcileTypes sf e.tables) db =
          (.ok (plannedRebuilds sf cloud e.tables), db) := by
        rw [reconcileTypes, exec_bind_ok (exec_call_ok ht rfl), exec_bind_ok (exec_get _), exec_pure,
          plannedRebuilds]
        have heq := List.filterMap_congr (l := e.tables) hplans
        rw [heq]
      rw [exec_bind_ok hy, if_pos ⟨hv, hs, hall, ht⟩]
      rfl
  · rw [if_neg hall] at htables
    obtain ⟨err, db, hx⟩ := htables
    rw [← hreconcile] at hx
    have hkeys : ∀ p ∈ e.tables, SameKeys p cloud db := by
      intro p hp
      have h := hsame p hp
      rw [left, hx] at h
      exact h
    refine ⟨db, hkeys, ?_⟩
    rw [exec_bind_error hx, if_neg fun h => hall h.2.2.1]

theorem keysKept_of_sameKeys {tables : List (String × TableDdl)}
    (h : ∀ p ∈ tables, SameKeys p cloud cloud') : KeysKept tables cloud cloud' := by
  intro p hp r hr
  have hk : cloudKey p r ∈ (cloud'.rows p.1).map (cloudKey p) := by
    rw [h p hp]
    exact List.mem_map_of_mem hr
  exact List.mem_map.1 hk

/-- The script of a table with the types that the cloud should have. -/
def transpiled (tableName : String) (d : TableDdl) : TableDdl where
  ifNotExists := true
  schema := { columns := d.schema.columns.map fun c =>
    { c with type := expectedSnowflakeType tableName c } }

/-- A cloud that refuses no call. -/
def openCloud : Snowflake where
  refuses _ := false
  transpile t := (allTables.lookup t).map (transpiled t)
  now := "2024-05-02 00:00:00"

/-- A cloud with one fact, whose column `is_total` was added by a reconciliation. -/
def factsCloud : Database :=
  (ofSchemas [("sf_quarterly_facts", { columns := sfQuarterlyFacts.schema.columns.map fun c =>
    { c with type := addedType c } })]).update "sf_quarterly_facts" fun T =>
      { T with rows := [factRow "AAPL" "BS" "Revenue" "2024-Q1"] }

instance {tables : List (String × TableDdl)} : Decidable (KeysKept tables cloud cloud') :=
  inferInstanceAs (Decidable (∀ _ ∈ _, _))

theorem planBatches_of_empty (h : op.rows plan.tableName = []) : planBatches op plan = [] := by
  rw [planBatches]
  cases hf : op.find plan.tableName with
  | none => rfl
  | some L =>
    rw [rows_of_find hf] at h
    dsimp only
    split
    · rfl
    · rw [localBatches, h]
      rfl

/-- With an open cloud and an empty local database every planned table is dropped. -/
theorem dropped_of_empty (hopen : ∀ c, sf.refuses c = false) (hempty : ∀ t, rows op t = [])
    {plans : List TypeMismatchPlan} (h : plan ∈ plans) : Dropped sf op plans plan := by
  induction plans with
  | nil => cases h
  | cons p ps ih =>
    rcases List.mem_cons.1 h with rfl | h
    · exact .inl ⟨rfl, hopen _⟩
    · refine .inr ⟨?_, ih h⟩
      have hb := planBatches_of_empty (hempty p.tableName)
      rw [planBatches] at hb
      simp only [rebuildCompletes, hopen, Bool.not_false, Bool.true_and]
      cases hf : op.find p.tableName with
      | none => rfl
      | some L =>
        rw [hf] at hb
        dsimp only at hb ⊢
        split
        · rfl
        next hn =>
          rw [if_neg hn] at hb
          rw [hb]
          rfl

/-- The rows of a table that a start rebuilds from an empty local database are gone. -/
theorem rows_lost (e : Env) (hopen : ∀ c, sf.refuses c = false) (hempty : ∀ t, rows op t = [])
    (h : plan ∈ plannedRebuilds sf cloud e.tables) :
    (left (startup sf true e.tables op) cloud).rows plan.tableName = [] := by
  obtain ⟨db, -, hleft⟩ := startup_cases sf e op cloud
  have hreaches : ReachesRebuilds sf cloud e.tables :=
    ⟨hopen _, hopen _, fun _ _ _ _ => hopen _, hopen _⟩
  obtain ⟨hdropped, -⟩ :=
    left_rebuildTables (plannedRebuilds_nodup (registry_nodup e) sf cloud) sf op db
  rw [hleft, if_pos hreaches, hdropped plan (dropped_of_empty hopen hempty h), insertedRows,
    planBatches_of_empty (hempty plan.tableName)]
  split <;> rfl

end Sync
