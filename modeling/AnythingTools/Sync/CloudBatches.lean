import AnythingTools.Sync.CompositeKey
import AnythingTools.Sync.FlushGroup

namespace Sync
open Relational Relational.Database
set_option autoImplicit true

variable {S : Schema} {k : BatchKey} {cols : List String} {records rows : List Row}
variable {window tasks : List CloudWriteTask} {σ : String → Schema}

/-- The rows of every table. -/
abbrev Contents := String → List Row

/-- What a task does to the contents of the tables. -/
def applyTask (engine : CloudEngine) (σ : String → Schema) (ρ : Contents)
    (task : CloudWriteTask) : Contents :=
  Function.update ρ task.tableName (applyRecords engine (σ task.tableName) task.key
    (columnsOf task.records) (ρ task.tableName) task.records)

/-- The database has the schemas of another one, and the contents up to the order of rows. -/
structure Shows (cloud₀ cloud : Database) (ρ : Contents) : Prop where
  schemas : SameSchemas cloud₀ cloud
  rows : ∀ t, (cloud.rows t).Perm (ρ t)

theorem schemaOf_same {cloud₀ cloud : Database} (h : SameSchemas cloud₀ cloud) (t : String) :
    schemaOf cloud t = schemaOf cloud₀ t := by
  rw [schemaOf, schemaOf, h t]

theorem Applied.shows (h : Applied engine k records cloud cloud') (hs : Shows cloud₀ cloud ρ) :
    Shows cloud₀ cloud' (Function.update ρ k.tableName (applyRecords engine
      (schemaOf cloud₀ k.tableName) k (columnsOf records) (ρ k.tableName) records)) where
  schemas := hs.schemas.trans h.schemas
  rows u := by
    by_cases hu : u = k.tableName
    · subst hu
      have hrows := h.rows
      rw [schemaOf_same hs.schemas] at hrows
      rw [Function.update_self]
      exact hrows.trans (applyRecords_perm (hs.rows k.tableName) records)
    · rw [Function.update_of_ne hu, h.frame u hu]
      exact hs.rows u

theorem staged_congr (engine : CloudEngine) (h : ∀ c, c ∈ cols ↔ c ∈ cols') (r : Row) :
    (stagedRow engine cols r = none ∧ stagedRow engine cols' r = none) ∨
      ∃ s s', stagedRow engine cols r = some s ∧ stagedRow engine cols' r = some s' ∧
        SameCells s s' := by
  have hbuild (f : String → Value) : SameCells (Row.build cols f) (Row.build cols' f) := by
    constructor
    · intro c
      rw [Row.columns_build, Row.columns_build]
      exact h c
    · intro c
      rw [Row.get_build, Row.get_build]
      simp only [h]
  rw [stagedRow, stagedRow]
  simp only [h]
  split
  · cases normalizeEmbedding engine (r.get "embedding") with
    | none => exact .inl ⟨rfl, rfl⟩
    | some v => exact .inr ⟨_, _, rfl, rfl, hbuild _⟩
  · exact .inr ⟨_, _, rfl, rfl, hbuild _⟩

theorem applyRecords_congr (h : k.operation = .upsert → ∀ c, c ∈ cols ↔ c ∈ cols')
    (rows records : List Row) :
    applyRecords engine S k cols rows records = applyRecords engine S k cols' rows records := by
  rw [applyRecords, applyRecords]
  congr 1
  funext rows r
  cases hk : k.operation with
  | delete =>
    rw [applyRecord, applyRecord, hk]
  | upsert =>
    rcases staged_congr engine (h hk) r with ⟨hn, hn'⟩ | ⟨s, s', hs, hs', hcells⟩
    · rw [applyRecord_none hk hn, applyRecord_none hk hn']
    · rw [applyRecord_some hk hs, applyRecord_some hk hs']
      exact mergeRow_congr hcells rows

theorem covers_congr {pkCol : PkCol} (h : ∀ c, c ∈ cols ↔ c ∈ cols')
    (hcov : Covers engine pkCol cols r r') : Covers engine pkCol cols' r r' := by
  intro key hr hr'
  obtain ⟨hnull, hstaged⟩ := hcov key hr hr'
  refine ⟨hnull, ?_⟩
  have hsome (x : Row) : (stagedRow engine cols x).isSome = (stagedRow engine cols' x).isSome := by
    rcases staged_congr engine h x with ⟨hn, hn'⟩ | ⟨s, s', hs, hs', _⟩
    · rw [hn, hn']
    · rw [hs, hs']
      rfl
  rw [← hsome, ← hsome]
  exact hstaged

/-- The tasks of one key have the records of their group. -/
theorem applyTask_group (cols : List String) {ρ : Contents} (hkey : ∀ task ∈ tasks, task.key = k)
    (hcols : k.operation = .upsert → ∀ task ∈ tasks, task.records ≠ [] →
      ∀ c, c ∈ columnsOf task.records ↔ c ∈ cols) :
    tasks.foldl (applyTask engine σ) ρ = Function.update ρ k.tableName (applyRecords engine
      (σ k.tableName) k cols (ρ k.tableName) (tasks.flatMap CloudWriteTask.records)) := by
  induction tasks generalizing ρ with
  | nil => exact (Function.update_eq_self k.tableName ρ).symm
  | cons task tasks ih =>
    have hk : task.key = k := hkey task List.mem_cons_self
    have ht : task.tableName = k.tableName := congrArg BatchKey.tableName hk
    have hrest := fun ρ => ih (ρ := ρ) (fun task hm => hkey task (List.mem_cons_of_mem _ hm))
      fun hop task hm => hcols hop task (List.mem_cons_of_mem _ hm)
    have htask : applyRecords engine (σ k.tableName) k (columnsOf task.records)
        (ρ k.tableName) task.records =
          applyRecords engine (σ k.tableName) k cols (ρ k.tableName) task.records := by
      by_cases hr : task.records = []
      · rw [hr]
        rfl
      · exact applyRecords_congr (fun hop => hcols hop task List.mem_cons_self hr) _ _
    rw [List.foldl_cons, hrest, applyTask, hk, ht, htask, Function.update_self,
      Function.update_idem, List.flatMap_cons, applyRecords_append]

theorem addTask_map (gs : List (BatchKey × List CloudWriteTask)) (task : CloudWriteTask) :
    addTask (gs.map fun g => (g.1, g.2.flatMap CloudWriteTask.records)) task =
      (Grouping.insert CloudWriteTask.key task gs).map
        fun g => (g.1, g.2.flatMap CloudWriteTask.records) := by
  induction gs with
  | nil =>
    rw [Grouping.insert]
    simp only [List.map_nil, addTask, List.map_cons, List.flatMap_cons, List.flatMap_nil,
      List.append_nil]
  | cons g gs ih =>
    obtain ⟨k, tasks⟩ := g
    rw [Grouping.insert, List.map_cons, addTask]
    split
    · rw [List.map_cons, List.flatMap_append, List.flatMap_singleton]
    · rw [List.map_cons, ih]

/-- The buffer holds the records of the tasks, grouped by their keys. -/
theorem bufferOf_eq (window : List CloudWriteTask) :
    bufferOf window = (Grouping.groups CloudWriteTask.key window).map
      fun g => (g.1, g.2.flatMap CloudWriteTask.records) := by
  induction window using List.reverseRecOn with
  | nil => rfl
  | append_singleton window task ih =>
    rw [bufferOf, List.foldl_append, ← bufferOf, ih, Grouping.groups_append, ← addTask_map]
    rfl

theorem columnsOf_flatMap (h : tasks.flatMap CloudWriteTask.records ≠ []) :
    ∃ task ∈ tasks, task.records ≠ [] ∧
      columnsOf (tasks.flatMap CloudWriteTask.records) = columnsOf task.records := by
  induction tasks with
  | nil => exact absurd rfl h
  | cons task tasks ih =>
    rw [List.flatMap_cons] at h ⊢
    cases hr : task.records with
    | nil =>
      rw [hr, List.nil_append] at h
      obtain ⟨u, hu, hne, hc⟩ := ih h
      exact ⟨u, List.mem_cons_of_mem _ hu, hne, hc⟩
    | cons r rs =>
      refine ⟨task, List.mem_cons_self, ?_, ?_⟩
      · rw [hr]
        exact List.cons_ne_nil r rs
      · rw [hr]
        rfl

/-- The upserts of one key write the same columns. -/
def SameColumns (window : List CloudWriteTask) : Prop :=
  ∀ u ∈ window, ∀ u' ∈ window, u.key = u'.key → u.operation = .upsert → u.records ≠ [] →
    u'.records ≠ [] → ∀ c, c ∈ columnsOf u.records ↔ c ∈ columnsOf u'.records

/-- The flush of one group does what its tasks do. -/
theorem shows_group (hwin : SameColumns window) (hg : g ∈ Grouping.groups CloudWriteTask.key window)
    (hcov : Coverable engine (g.1, g.2.flatMap CloudWriteTask.records))
    (hs : Shows cloud₀ cloud ρ)
    (h : flushGroup engine cloud (g.1, g.2.flatMap CloudWriteTask.records) = .ok cloud') :
    Shows cloud₀ cloud' (g.2.foldl (applyTask engine (schemaOf cloud₀)) ρ) := by
  have hkey : ∀ task ∈ g.2, task.key = g.1 := fun task ht => Grouping.key_of_mem_groups hg ht
  have hmem : ∀ task ∈ g.2, task ∈ window := by
    intro task ht
    rw [← Grouping.mem_flat_groups CloudWriteTask.key]
    exact List.mem_flatMap.2 ⟨g, hg, ht⟩
  rw [applyTask_group (columnsOf (g.2.flatMap CloudWriteTask.records)) hkey]
  · exact (flushGroup_applied h hcov).shows hs
  · intro hop task ht hne
    have hall : g.2.flatMap CloudWriteTask.records ≠ [] := by
      rw [Ne, List.flatMap_eq_nil_iff]
      exact fun he => hne (he task ht)
    obtain ⟨u, hu, hune, hc⟩ := columnsOf_flatMap hall
    rw [hc]
    apply hwin task (hmem task ht) u (hmem u hu) ((hkey task ht).trans (hkey u hu).symm) _ hne hune
    rw [← hkey task ht] at hop
    exact hop

/-- The groups of a window are flushed as if their tasks were executed group by group. -/
theorem shows_flushTasks (hwin : SameColumns window) (hcov : ∀ g ∈ bufferOf window, Coverable engine g)
    (h : flushTasks engine cloud window = .ok cloud') :
    Shows cloud cloud' ((Grouping.flat (Grouping.groups CloudWriteTask.key window)).foldl
      (applyTask engine (schemaOf cloud)) cloud.rows) := by
  rw [bufferOf_eq] at hcov
  rw [flushTasks, bufferOf_eq] at h
  have hrun (gs : List (BatchKey × List CloudWriteTask)) (cloud₁ : Database) (ρ : Contents)
      (hgs : ∀ g ∈ gs, g ∈ Grouping.groups CloudWriteTask.key window)
      (hs : Shows cloud cloud₁ ρ)
      (h : (gs.map fun g => (g.1, g.2.flatMap CloudWriteTask.records)).foldlM
        (flushGroup engine) cloud₁ = .ok cloud') :
      Shows cloud cloud' ((Grouping.flat gs).foldl (applyTask engine (schemaOf cloud)) ρ) := by
    induction gs generalizing cloud₁ ρ with
    | nil =>
      cases h
      exact hs
    | cons g gs ih =>
      rw [List.map_cons, List.foldlM_cons] at h
      cases hg : flushGroup engine cloud₁ (g.1, g.2.flatMap CloudWriteTask.records) with
      | error e =>
        rw [hg] at h
        cases h
      | ok cloud₂ =>
        rw [hg] at h
        have hmem := hgs g List.mem_cons_self
        have hstep := shows_group hwin hmem (hcov _ (List.mem_map.2 ⟨g, hmem, rfl⟩)) hs hg
        rw [Grouping.flat, List.flatMap_cons, List.foldl_append]
        exact ih cloud₂ _ (fun g hm => hgs g (List.mem_cons_of_mem _ hm)) hstep h
  exact hrun _ cloud _ (fun _ hg => hg) ⟨.refl cloud, fun _ => .refl _⟩ h

/-- A task of the window may be flushed alone. -/
theorem coverable_task (hwin : SameColumns window)
    (hcov : ∀ g ∈ bufferOf window, Coverable engine g) (ht : task ∈ window) :
    Coverable engine (task.key, task.records) := by
  intro hop
  by_cases hne : task.records = []
  · rw [hne]
    exact .nil
  obtain ⟨g, hg, hm⟩ := List.mem_flatMap.1 ((Grouping.mem_flat_groups CloudWriteTask.key).2 ht)
  have hk : task.key = g.1 := Grouping.key_of_mem_groups hg hm
  rw [bufferOf_eq] at hcov
  have hall := hcov _ (List.mem_map.2 ⟨g, hg, rfl⟩)
  rw [Coverable, ← hk] at hall
  have hpair := (hall hop).sublist (List.sublist_flatten_of_mem (List.mem_map.2 ⟨task, hm, rfl⟩))
  apply hpair.imp
  intro r r'
  apply covers_congr
  have hflat : g.2.flatMap CloudWriteTask.records ≠ [] := by
    rw [Ne, List.flatMap_eq_nil_iff]
    exact fun he => hne (he task hm)
  obtain ⟨u, hu, hune, hc⟩ := columnsOf_flatMap hflat
  have huw : u ∈ window := by
    rw [← Grouping.mem_flat_groups CloudWriteTask.key]
    exact List.mem_flatMap.2 ⟨g, hg, hu⟩
  have huk : u.key = task.key := (Grouping.key_of_mem_groups hg hu).trans hk.symm
  have huop : u.operation = .upsert := (congrArg BatchKey.operation huk).trans hop
  intro c
  have hcols := hwin u huw task ht huk huop hune hne c
  dsimp only
  rw [hc]
  exact hcols

/-- The staged records of a task fit its table. -/
def TaskFits (engine : CloudEngine) (σ : String → Schema) (task : CloudWriteTask) : Prop :=
  task.operation = .upsert → ∀ r ∈ task.records,
    (stagedRow engine (columnsOf task.records) r).isSome = true →
      Fitting engine (σ task.tableName) task.key (columnsOf task.records)

/-- In order, each task is executed as it is, and fits its table. -/
theorem shows_execute (hcov : ∀ task ∈ tasks, Coverable engine (task.key, task.records))
    (hs : Shows cloud₀ cloud ρ) (h : executeInOrder engine cloud tasks = .ok cloud') :
    Shows cloud₀ cloud' (tasks.foldl (applyTask engine (schemaOf cloud₀)) ρ) ∧
      ∀ task ∈ tasks, TaskFits engine (schemaOf cloud₀) task := by
  induction tasks generalizing cloud ρ with
  | nil =>
    cases h
    exact ⟨hs, fun _ hm => by cases hm⟩
  | cons task tasks ih =>
    rw [executeInOrder, List.foldlM_cons] at h
    cases hg : flushGroup engine cloud (task.key, task.records) with
    | error e =>
      rw [hg] at h
      cases h
    | ok cloud₁ =>
      rw [hg] at h
      have htask := hcov task List.mem_cons_self
      have hstep := (flushGroup_applied hg htask).shows hs
      obtain ⟨hrest, hfits⟩ := ih (fun task hm => hcov task (List.mem_cons_of_mem _ hm)) hstep h
      refine ⟨hrest, ?_⟩
      intro u hu
      rcases List.mem_cons.1 hu with he | hu
      · rw [he]
        intro hop r hr hsome
        rw [← schemaOf_same hs.schemas]
        exact flushGroup_fitting hg hop htask hr hsome
      · exact hfits u hu

/-- The records that a window upserts into a table. -/
def upserted (window : List CloudWriteTask) (t : String) : List Row :=
  (window.filter fun u => decide (u.operation = .upsert ∧ u.tableName = t)).flatMap
    CloudWriteTask.records

/-- The key of a row fixes its cell in another column, among the rows of the table and the records
that the window upserts into it. -/
structure KeyFixes (cloud : Database) (window : List CloudWriteTask) (t : String) (pkCol : PkCol)
    (c : String) : Prop where
  scalar : c ≠ "embedding"
  keyed : ∀ u ∈ window, u.operation = .upsert → u.tableName = t → u.pkCol = pkCol
  column : ∀ r ∈ upserted window t, c ∈ r.columns
  records : ∀ r ∈ upserted window t, ∀ r' ∈ upserted window t,
    Row.sameKey pkCol.cols r r' = true → r.get c = r'.get c
  rows : ∀ r ∈ upserted window t, ∀ q ∈ cloud.rows t,
    Row.sameKey pkCol.cols q r = true → q.get c = r.get c

instance (cloud : Database) (window : List CloudWriteTask) (t : String) (pkCol : PkCol)
    (c : String) : Decidable (KeyFixes cloud window t pkCol c) :=
  decidable_of_iff (c ≠ "embedding" ∧
    (∀ u ∈ window, u.operation = .upsert → u.tableName = t → u.pkCol = pkCol) ∧
    (∀ r ∈ upserted window t, c ∈ r.columns) ∧
    (∀ r ∈ upserted window t, ∀ r' ∈ upserted window t,
      Row.sameKey pkCol.cols r r' = true → r.get c = r'.get c) ∧
    ∀ r ∈ upserted window t, ∀ q ∈ cloud.rows t,
      Row.sameKey pkCol.cols q r = true → q.get c = r.get c)
    ⟨fun ⟨h₁, h₂, h₃, h₄, h₅⟩ => ⟨h₁, h₂, h₃, h₄, h₅⟩,
      fun ⟨h₁, h₂, h₃, h₄, h₅⟩ => ⟨h₁, h₂, h₃, h₄, h₅⟩⟩

/-- The column is in the key of the upserts, or their key fixes it. -/
def Settles (cloud : Database) (window : List CloudWriteTask) (u : CloudWriteTask) (c : String) :
    Prop :=
  c ∈ u.pkCol.cols ∨ KeyFixes cloud window u.tableName u.pkCol c

/-- The deletion passes over every row that the upsert writes. -/
def Misses (cloud : Database) (window : List CloudWriteTask) (u d : CloudWriteTask) : Prop :=
  ∀ r ∈ u.records, ∀ rd ∈ d.records, ∃ c ∈ d.pkCol.cols,
    rd.get c = .null ∨ Settles cloud window u c ∧ r.get c ≠ rd.get c

/-- The two tasks do the same in either order. -/
def Apart (cloud : Database) (window : List CloudWriteTask) (u u' : CloudWriteTask) : Prop :=
  u.tableName ≠ u'.tableName ∨
    (u.operation = .delete ∧ (u'.operation = .delete ∨ Misses cloud window u' u)) ∨
    (u.operation = .upsert ∧ u'.operation = .delete ∧ Misses cloud window u u')

/-- Rows that meet an upserted record in its key agree with it in the columns that the key fixes. -/
def KeepsKeys (cloud : Database) (window : List CloudWriteTask) (t : String) (rows : List Row) :
    Prop :=
  ∀ pkCol c, KeyFixes cloud window t pkCol c → ∀ r ∈ upserted window t, ∀ q ∈ rows,
    Row.sameKey pkCol.cols q r = true → q.get c = r.get c

theorem mem_upserted (hu : u ∈ window) (hop : u.operation = .upsert) (hr : r ∈ u.records) :
    r ∈ upserted window u.tableName :=
  List.mem_flatMap.2 ⟨u, List.mem_filter.2 ⟨hu, decide_eq_true ⟨hop, rfl⟩⟩, hr⟩

theorem head_mem (hr : r ∈ records) : ∃ r' ∈ records, columnsOf records = r'.columns := by
  cases records with
  | nil => cases hr
  | cons r' records => exact ⟨r', List.mem_cons_self, rfl⟩

/-- A settled column is staged with the cell of the record. -/
theorem settled_cell (hu : u ∈ window) (hop : u.operation = .upsert) (hr : r ∈ u.records)
    (hs : stagedRow engine (columnsOf u.records) r = some s)
    (hF : Fitting engine S u.key (columnsOf u.records)) (hc : Settles cloud window u c) :
    c ∈ s.columns ∧ s.get c = r.get c := by
  rcases hc with hc | hc
  · exact ⟨(hF.1 r s hs).keyed c hc, staged_key hF hs c hc⟩
  · obtain ⟨r₀, hr₀, he⟩ := head_mem hr
    have hcol : c ∈ columnsOf u.records := he ▸ hc.column r₀ (mem_upserted hu hop hr₀)
    rw [columns_staged hs]
    exact ⟨hcol, get_staged hs hcol hc.scalar⟩

theorem keepsKeys_mergeRow (hu : u ∈ window) (hop : u.operation = .upsert) (hr : r ∈ u.records)
    (hs : stagedRow engine (columnsOf u.records) r = some s)
    (hF : Fitting engine S u.key (columnsOf u.records))
    (h : KeepsKeys cloud window u.tableName rows) :
    KeepsKeys cloud window u.tableName (S.mergeRow engine.now u.key.pkCol.cols s rows) := by
  intro pkCol c hfix r' hr' q hq hk
  rcases mem_mergeRow (hF.1 r s hs) hq with hq | hag
  · exact h pkCol c hfix r' hr' q hq hk
  · have hpk : u.pkCol = pkCol := hfix.keyed u hu hop rfl
    obtain ⟨hcol, hcell⟩ := settled_cell hu hop hr hs hF (.inr (hpk ▸ hfix))
    subst hpk
    have hqr : Row.Agree u.pkCol.cols q r :=
      (hag.subset (hF.1 r s hs).keyed).trans (staged_key hF hs)
    rw [Row.sameKey_agree hqr] at hk
    rw [hag c hcol, hcell]
    exact hfix.records r (mem_upserted hu hop hr) r' hr' hk

theorem keepsKeys_filter (h : KeepsKeys cloud window t rows) (keep : Row → Bool) :
    KeepsKeys cloud window t (rows.filter keep) :=
  fun pkCol c hfix r hr q hq hk => h pkCol c hfix r hr q (List.mem_filter.1 hq).1 hk

/-- The rows that a deletion leaves. -/
def CloudWriteTask.keeps (d : CloudWriteTask) (q : Row) : Bool :=
  !d.records.any fun rd => Row.sameKey d.pkCol.cols q rd

theorem keeps_of_misses (h : Misses cloud window u d) (hr : r ∈ u.records)
    (hq : ∀ c, Settles cloud window u c → q.get c = r.get c) : d.keeps q = true := by
  rw [CloudWriteTask.keeps, Bool.not_eq_true', ← Bool.not_eq_true, List.any_eq_true]
  intro ⟨rd, hrd, hk⟩
  obtain ⟨c, hc, hor⟩ := h r hr rd hrd
  obtain ⟨hn, he⟩ := Row.sameKey_iff.1 hk c hc
  rcases hor with hnull | ⟨hset, hne⟩
  · exact hn (he.trans hnull)
  · exact hne ((hq c hset).symm.trans he)

/-- A deletion that passes over a record's rows may be moved over the record. -/
theorem applyRecord_keeps (hu : u ∈ window) (hop : u.operation = .upsert) (hr : r ∈ u.records)
    (hF : (stagedRow engine (columnsOf u.records) r).isSome = true →
      Fitting engine S u.key (columnsOf u.records))
    (hmiss : Misses cloud window u d) (h : KeepsKeys cloud window u.tableName rows) :
    (applyRecord engine S u.key (columnsOf u.records) rows r).filter d.keeps =
        applyRecord engine S u.key (columnsOf u.records) (rows.filter d.keeps) r ∧
      KeepsKeys cloud window u.tableName
        (applyRecord engine S u.key (columnsOf u.records) rows r) := by
  have hk : u.key.operation = .upsert := hop
  cases hs : stagedRow engine (columnsOf u.records) r with
  | none =>
    rw [applyRecord_none hk hs, applyRecord_none hk hs]
    exact ⟨rfl, h⟩
  | some s =>
    rw [hs] at hF
    have hF := hF rfl
    have hfit := hF.1 r s hs
    have hcell {c} (hc : Settles cloud window u c) := settled_cell hu hop hr hs hF hc
    rw [applyRecord_some hk hs, applyRecord_some hk hs]
    refine ⟨mergeRow_filter ?_ ?_ ?_, keepsKeys_mergeRow hu hop hr hs hF h⟩
    · intro q hq hqs
      have hqr : Row.sameKey u.pkCol.cols q r = true :=
        (Row.sameKey_agree_right (staged_key hF hs) q).symm.trans hqs
      apply keeps_of_misses hmiss hr
      intro c hc
      rcases hc with hc | hc
      · exact (Row.sameKey_iff.1 hqr c hc).2
      · exact h u.pkCol c hc r (mem_upserted hu hop hr) q hq hqr
    · intro q hqs
      apply keeps_of_misses hmiss hr
      intro c hc
      exact (Schema.overwrite_agree hfit.named hqs c (hcell hc).1).trans (hcell hc).2
    · apply keeps_of_misses hmiss hr
      intro c hc
      exact (hfit.fill engine.now c (hcell hc).1).trans (hcell hc).2

theorem applyRecords_keeps (hu : u ∈ window) (hop : u.operation = .upsert)
    (hF : TaskFits engine σ u) (hmiss : Misses cloud window u d)
    (h : KeepsKeys cloud window u.tableName rows) (hl : ∀ r ∈ records, r ∈ u.records) :
    (applyRecords engine (σ u.tableName) u.key (columnsOf u.records) rows records).filter d.keeps =
      applyRecords engine (σ u.tableName) u.key (columnsOf u.records)
        (rows.filter d.keeps) records := by
  induction records generalizing rows with
  | nil => rfl
  | cons r records ih =>
    have hr := hl r List.mem_cons_self
    obtain ⟨hfilter, hkeys⟩ := applyRecord_keeps hu hop hr (hF hop r hr) hmiss h
    have hrest := ih hkeys fun r hm => hl r (List.mem_cons_of_mem _ hm)
    rw [hfilter] at hrest
    exact hrest

theorem applyRecords_keepsKeys (hu : u ∈ window) (hop : u.operation = .upsert)
    (hF : TaskFits engine σ u) (h : KeepsKeys cloud window u.tableName rows)
    (hl : ∀ r ∈ records, r ∈ u.records) :
    KeepsKeys cloud window u.tableName
      (applyRecords engine (σ u.tableName) u.key (columnsOf u.records) rows records) := by
  induction records generalizing rows with
  | nil => exact h
  | cons r records ih =>
    have hr := hl r List.mem_cons_self
    apply ih _ fun r hm => hl r (List.mem_cons_of_mem _ hm)
    have hk : u.key.operation = .upsert := hop
    cases hs : stagedRow engine (columnsOf u.records) r with
    | none =>
      rw [applyRecord_none hk hs]
      exact h
    | some s =>
      rw [applyRecord_some hk hs]
      apply keepsKeys_mergeRow hu hop hr hs _ h
      apply hF hop r hr
      rw [hs]
      rfl

/-- The keys of every table are kept. -/
def AllKeepKeys (cloud : Database) (window : List CloudWriteTask) (ρ : Contents) : Prop :=
  ∀ t, KeepsKeys cloud window t (ρ t)

theorem allKeepKeys_applyTask (hu : u ∈ window) (hF : TaskFits engine σ u)
    (h : AllKeepKeys cloud window ρ) : AllKeepKeys cloud window (applyTask engine σ ρ u) := by
  intro t
  by_cases ht : t = u.tableName
  · subst ht
    rw [applyTask, Function.update_self]
    cases hop : u.operation with
    | delete =>
      rw [applyRecords_delete hop]
      exact keepsKeys_filter (h u.tableName) _
    | upsert => exact applyRecords_keepsKeys hu hop hF (h u.tableName) fun _ hr => hr
  · rw [applyTask, Function.update_of_ne ht]
    exact h t

theorem applyTask_delete (hop : d.operation = .delete) (ρ : Contents) :
    applyTask engine σ ρ d =
      Function.update ρ d.tableName ((ρ d.tableName).filter d.keeps) := by
  rw [applyTask, applyRecords_delete hop]
  rfl

theorem upsert_delete_comm (hu : u ∈ window) (hop : u.operation = .upsert)
    (hd : d.operation = .delete) (ht : u.tableName = d.tableName) (hF : TaskFits engine σ u)
    (hmiss : Misses cloud window u d) (h : AllKeepKeys cloud window ρ) :
    applyTask engine σ (applyTask engine σ ρ u) d =
      applyTask engine σ (applyTask engine σ ρ d) u := by
  rw [applyTask_delete hd, applyTask_delete hd, ← ht, applyTask, applyTask, Function.update_self,
    Function.update_self, Function.update_idem, Function.update_idem,
    applyRecords_keeps hu hop hF hmiss (h u.tableName) fun _ hr => hr]

theorem applyTask_comm (hu : u ∈ window) (hu' : u' ∈ window) (hF : TaskFits engine σ u)
    (hF' : TaskFits engine σ u') (hapart : Apart cloud window u u')
    (h : AllKeepKeys cloud window ρ) :
    applyTask engine σ (applyTask engine σ ρ u) u' =
      applyTask engine σ (applyTask engine σ ρ u') u := by
  by_cases ht : u.tableName = u'.tableName
  · rcases hapart with hne | ⟨hd, hd' | hmiss⟩ | ⟨hop, hd', hmiss⟩
    · exact absurd ht hne
    · rw [applyTask_delete hd', applyTask_delete hd, applyTask_delete hd, applyTask_delete hd', ht,
        Function.update_self, Function.update_self, Function.update_idem, Function.update_idem,
        List.filter_filter, List.filter_filter]
      simp only [Bool.and_comm]
    · cases hop' : u'.operation with
      | delete =>
        rw [applyTask_delete hop', applyTask_delete hd, applyTask_delete hd,
          applyTask_delete hop', ht, Function.update_self, Function.update_self,
          Function.update_idem, Function.update_idem, List.filter_filter, List.filter_filter]
        simp only [Bool.and_comm]
      | upsert => exact (upsert_delete_comm hu' hop' hd ht.symm hF' hmiss h).symm
    · exact upsert_delete_comm hu hop hd' ht hF hmiss h
  · have ht' : u'.tableName ≠ u.tableName := fun he => ht he.symm
    rw [applyTask, applyTask, applyTask, applyTask, Function.update_of_ne ht',
      Function.update_of_ne ht, Function.update_comm ht]

/-- Grouping and deduplication make no difference in the window: its upserts of one key write the
same columns, a later record may take the place of an earlier one of its key, and a task that is
brought before an earlier one does the same there. -/
structure Orderly (engine : CloudEngine) (cloud : Database) (window : List CloudWriteTask) :
    Prop where
  columns : SameColumns window
  covers : ∀ g ∈ bufferOf window, Coverable engine g
  apart : ∀ p ∈ Grouping.overtaken CloudWriteTask.key [] window, Apart cloud window p.1 p.2

/-- The flush of an orderly window shows what its tasks do in their order. -/
theorem shows_window (hw : Orderly engine cloud window)
    (hF : ∀ task ∈ window, TaskFits engine (schemaOf cloud) task)
    (h : flushTasks engine cloud window = .ok cloud') :
    Shows cloud cloud' (window.foldl (applyTask engine (schemaOf cloud)) cloud.rows) := by
  have hflush := shows_flushTasks hw.columns hw.covers h
  have hkeys : AllKeepKeys cloud window cloud.rows :=
    fun t pkCol c hfix r hr q hq hk => hfix.rows r hr q hq hk
  rw [Grouping.foldl_flat_groups CloudWriteTask.key _ _ hkeys] at hflush
  · exact hflush
  · intro task hm ρ hρ
    exact allKeepKeys_applyTask hm (hF task hm) hρ
  · intro p hp ρ hρ
    obtain ⟨hor, hm'⟩ := Grouping.mem_overtaken hp
    have hm : p.1 ∈ window := hor.resolve_left List.not_mem_nil
    exact applyTask_comm hm hm' (hF p.1 hm) (hF p.2 hm') (hw.apart p hp) hρ

/-- The flush of one window, as a step of a run. -/
def flushStep (engine : CloudEngine) (cloud : Database) (window : List CloudWriteTask) :
    Option Database :=
  (flushTasks engine cloud window).toOption

/-- The two databases hold the same tables, up to the order of rows. -/
def SameContents (cloud cloud' : Database) : Prop :=
  SameSchemas cloud cloud' ∧ ∀ t, (cloud.rows t).Perm (cloud'.rows t)

/-- Batches refine the tasks in their order when each window is orderly where it is flushed. -/
theorem flushAll_refines {windows : List (List CloudWriteTask)}
    (hm : Machine.Meets (flushStep engine) (Orderly engine) cloud windows)
    (hb : flushAll engine cloud windows = .ok cloud₁)
    (hs : executeInOrder engine cloud' windows.flatten = .ok cloud₂)
    (h : SameContents cloud cloud') : SameContents cloud₁ cloud₂ := by
  induction windows generalizing cloud cloud' with
  | nil =>
    cases hb
    cases hs
    exact h
  | cons window windows ih =>
    rw [flushAll, List.foldlM_cons] at hb
    rw [List.flatten_cons, executeInOrder, List.foldlM_append] at hs
    obtain ⟨hw, hrest⟩ := hm
    cases hf : flushTasks engine cloud window with
    | error e =>
      rw [hf] at hb
      cases hb
    | ok cloud₃ =>
      rw [hf] at hb
      have hmeets := hrest cloud₃ (by rw [flushStep, hf]; rfl)
      rw [← executeInOrder] at hs
      cases he : executeInOrder engine cloud' window with
      | error e =>
        rw [he] at hs
        cases hs
      | ok cloud₄ =>
        rw [he] at hs
        have hshows : Shows cloud cloud' cloud.rows := ⟨h.1, fun t => (h.2 t).symm⟩
        obtain ⟨hseq, hfits⟩ := shows_execute
          (fun task ht => coverable_task hw.columns hw.covers ht) hshows he
        have hbatch := shows_window hw hfits hf
        apply ih hmeets hb hs
        exact ⟨hbatch.schemas.symm.trans hseq.schemas,
          fun t => (hbatch.rows t).trans (hseq.rows t).symm⟩

/-- When the loop has flushed everything, the cloud holds what the accepted tasks do one at a time
in their order, if each window is orderly where it is flushed. -/
theorem loop_refines (hr : Machine.run loopStep {} as = some s) (hp : s.pending = [])
    (hm : Machine.Meets (flushStep engine) (Orderly engine) cloud s.flushed)
    (hb : flushAll engine cloud s.flushed = .ok cloud₁)
    (hs : executeInOrder engine cloud s.accepted = .ok cloud₂) : SameContents cloud₁ cloud₂ := by
  have horder := (accounts_run hr).order
  rw [hp, List.append_nil] at horder
  rw [horder] at hs
  exact flushAll_refines hm hb hs ⟨.refl cloud, fun _ => .refl _⟩

def factTask (ticker value : String) : CloudWriteTask :=
  cloudWriteBatch "sf_quarterly_facts"
    [[("ticker", .text ticker), ("statement_type", .text "BS"), ("concept", .text "Assets"),
      ("quarter", .text "2024-Q1"), ("numeric_value", .text value)]]
    (.several ["ticker", "statement_type", "concept", "quarter"])

/-- The deletion that comes first in a refresh of the ticker. -/
def refreshTask (ticker : String) : CloudWriteTask :=
  cloudDelete "sf_quarterly_facts" (.text ticker) "ticker"

def factsEngine : CloudEngine := { now := "2024-05-02 00:00:00" }

def queued (tasks : List CloudWriteTask) : List LoopStep :=
  .start true :: tasks.map LoopStep.put

/-- The cloud when the loop has flushed everything. -/
def flushedCloud (s : LoopState) : Database :=
  ((flushAll factsEngine (factsDb []) s.flushed).toOption).getD (factsDb [])

/-- The cloud when the tasks are executed one at a time. -/
def orderedCloud (s : LoopState) : Database :=
  ((executeInOrder factsEngine (factsDb []) s.accepted).toOption).getD (factsDb [])

/-- The facts of one ticker are written again around the refresh of another one, whose facts come
with the next batch. -/
def refreshBetween : List LoopStep :=
  queued [factTask "MSFT" "1", refreshTask "AAPL", factTask "MSFT" "2"] ++
    [.check, .get false, .check, .get false, .check, .get true, .put (factTask "AAPL" "2"), .check,
      .get true]

def betweenState : LoopState := (Machine.run loopStep {} refreshBetween).getD {}

def firstWindow : List CloudWriteTask := [factTask "MSFT" "1", refreshTask "AAPL", factTask "MSFT" "2"]

theorem orderly_firstWindow (cloud : Database) : Orderly factsEngine cloud firstWindow where
  columns u hu u' hu' hk hop _ _ c := by
    have hall : ∀ u ∈ firstWindow, ∀ u' ∈ firstWindow, u.operation = .upsert →
        u'.operation = .upsert → columnsOf u.records = columnsOf u'.records := by decide
    rw [hall u hu u' hu' hop ((congrArg BatchKey.operation hk).symm.trans hop)]
  covers := by decide
  apart p hp := by
    have hpair : p = (refreshTask "AAPL", factTask "MSFT" "2") := by
      revert p
      decide
    subst hpair
    refine .inr (.inl ⟨rfl, .inr ?_⟩)
    intro r hr rd hrd
    refine ⟨"ticker", List.mem_singleton_self _, .inr ⟨.inl List.mem_cons_self, ?_⟩⟩
    rw [List.mem_singleton.1 hr, List.mem_singleton.1 hrd]
    decide

theorem orderly_single (engine : CloudEngine) (cloud : Database) (task : CloudWriteTask)
    (hone : task.records.length = 1) : Orderly engine cloud [task] where
  columns u hu u' hu' _ _ _ _ c := by
    rw [List.mem_singleton.1 hu, List.mem_singleton.1 hu']
  covers g hg _ := by
    obtain ⟨r, hr⟩ := List.length_eq_one_iff.1 hone
    have he : g = (task.key, task.records) := List.mem_singleton.1 hg
    rw [he, hr]
    exact List.pairwise_singleton _ r
  apart p hp := by cases hp

theorem loop_refines_refreshBetween :
    SameContents (flushedCloud betweenState) (orderedCloud betweenState) := by
  have hrun : Machine.run loopStep {} refreshBetween = some betweenState := by decide
  have hflushed : betweenState.flushed = [firstWindow, [factTask "AAPL" "2"]] := by decide
  have hmeets : Machine.Meets (flushStep factsEngine) (Orderly factsEngine) (factsDb [])
      betweenState.flushed := by
    rw [hflushed]
    exact ⟨orderly_firstWindow _, fun cloud _ => ⟨orderly_single _ cloud _ rfl, fun _ _ => trivial⟩⟩
  have hb : flushAll factsEngine (factsDb []) betweenState.flushed =
      .ok (flushedCloud betweenState) := by rfl
  have hs : executeInOrder factsEngine (factsDb []) betweenState.accepted =
      .ok (orderedCloud betweenState) := by rfl
  exact loop_refines hrun (by decide) hmeets hb hs

/-- A ticker is refreshed while the facts of another one are in the buffer. -/
def refreshBehind : List LoopStep :=
  queued [factTask "MSFT" "1", refreshTask "AAPL", factTask "AAPL" "2"] ++
    [.check, .get false, .check, .get false, .check, .get true]

def behindState : LoopState := (Machine.run loopStep {} refreshBehind).getD {}

/-- The deletion of the refresh is flushed after the new facts, and removes them. -/
theorem refresh_lost :
    Machine.run loopStep {} refreshBehind = some behindState ∧ behindState.pending = [] ∧
      flushAll factsEngine (factsDb []) behindState.flushed = .ok (flushedCloud behindState) ∧
      executeInOrder factsEngine (factsDb []) behindState.accepted = .ok (orderedCloud behindState) ∧
      ((flushedCloud behindState).rows "sf_quarterly_facts").map (fun r => r.get "ticker") = [.text "MSFT"] ∧
      ((orderedCloud behindState).rows "sf_quarterly_facts").map (fun r => r.get "ticker") =
        [.text "MSFT", .text "AAPL"] ∧
      ¬ SameContents (flushedCloud behindState) (orderedCloud behindState) := by
  have hflushed : ((flushedCloud behindState).rows "sf_quarterly_facts").map (fun r => r.get "ticker") =
      [.text "MSFT"] := by decide
  have horder : ((orderedCloud behindState).rows "sf_quarterly_facts").map (fun r => r.get "ticker") =
      [.text "MSFT", .text "AAPL"] := by decide
  refine ⟨by decide, by decide, by rfl, by rfl, hflushed, horder, ?_⟩
  intro h
  have hlength := ((h.2 "sf_quarterly_facts").map fun r => r.get "ticker").length_eq
  rw [hflushed, horder] at hlength
  cases hlength

end Sync
