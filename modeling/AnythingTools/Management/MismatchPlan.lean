import Mathlib.Data.List.Induction
import AnythingTools.Management.Reconciler

namespace Management
open Relational Schemas
set_option autoImplicit true

/-- `d[name] = c`: a new key comes last. -/
def setItem (name : String) (c : Column) : List (String × Column) → List (String × Column)
  | [] => [(name, c)]
  | p :: d => if p.1 = name then (name, c) :: d else p :: setItem name c d

/-- The columns by their names in lower case. -/
def byName (lower : String → String) (cols : List Column) : List (String × Column) :=
  cols.foldl (fun d c => setItem (lower c.name) c d) []

/-- What the collector of drift puts into its tuples. -/
inductive Item where
  | text (s : String)
  | flag (b : Bool)
  | number (n : Nat)
  | column (c : Column)

/-- `item.type`; no other object has the attribute. -/
def Item.type : Item → Except StartError String
  | .column c => .ok c.type
  | _ => .error .attributeError

/-- `type_mismatches` and `constraint_mismatches`. -/
structure Drift where
  types : List (String × Item × Item) := []
  constraints : List (String × String × Item) := []

/-- The turn of the loop for one column of the script. -/
def Drift.collect (actual : List (String × Column)) (drift : Drift) (p : String × Column) :
    Drift :=
  match actual.lookup p.1 with
  | none => drift
  | some a =>
    { types := drift.types ++
        if normalizeTypeAffinity a.type ≠ normalizeTypeAffinity p.2.type then
          [(p.1, .text a.type, .text p.2.type)] else []
      constraints := drift.constraints ++
        (if a.notnull ≠ p.2.notnull then [(p.1, "NOT NULL", .flag p.2.notnull)] else []) ++
        if a.pk ≠ p.2.pk then [(p.1, "PRIMARY KEY", .number p.2.pk)] else [] }

def Drift.of (actual desired : List (String × Column)) : Drift :=
  desired.foldl (Drift.collect actual) {}

/-- The key column that a plan names. -/
def pkColumn (columns : List Column) : String :=
  ((columns.filter fun c => decide (0 < c.pk)).map Column.name).getLastD "id"

/-- A mismatch of the plan, made of a tuple. -/
def columnMismatch (p : String × Item × Item) : Except StartError ColumnMismatch := do
  let actual ← p.2.1.type
  let desired ← p.2.2.type
  return { columnName := p.1, actualType := actual, expectedType := desired, isPrimaryKey := false }

/-- `_compute_mismatch_plan`. -/
def Drift.computeMismatchPlan (lower : String → String) (cfg : Start) (t : String) (d : TableDdl)
    (T : Table) (drift : Drift) : Except StartError TypeMismatchPlan := do
  let mismatches ← drift.types.mapM columnMismatch
  let mismatches := mismatches.map fun m =>
    if lower m.columnName = lower (pkColumn T.schema.columns) then { m with isPrimaryKey := true }
    else m
  return {
    tableName := t
    mismatches
    cloneTableName := "_migrate_" ++ t ++ "_" ++ toString cfg.timestamp
    newDdl := d
    columnsToSkip := mismatches.map ColumnMismatch.columnName
    pkColumn := pkColumn T.schema.columns
    totalRows := T.rows.length
    isMaster := decide (t ∈ persistedTables) }

/-- What `_validate_structures` finds of a table that exists: a plan if its columns drifted. -/
def driftPlan (lower : String → String) (cfg : Start) (t : String) (d : TableDdl) (T : Table) :
    Except StartError (Option TypeMismatchPlan) :=
  let drift := Drift.of (byName lower T.schema.columns) (byName lower (desiredCols t d))
  if drift.types ≠ [] ∨ drift.constraints ≠ [] then
    (drift.computeMismatchPlan lower cfg t d T).map some
  else .ok none

/-- The column of the table and the column of the script have different affinities. -/
def AffinityDiffers (lower : String → String) (t : String) (d : TableDdl) (T : Table)
    (name actualType expectedType : String) : Prop :=
  ∃ a e, (byName lower T.schema.columns).lookup name = some a ∧
    (name, e) ∈ byName lower (desiredCols t d) ∧ a.type = actualType ∧ e.type = expectedType ∧
    normalizeTypeAffinity actualType ≠ normalizeTypeAffinity expectedType

/-- The flags of a column that both have differ. -/
def FlagsDiffer (lower : String → String) (t : String) (d : TableDdl) (T : Table) : Prop :=
  ∃ name a e, (byName lower T.schema.columns).lookup name = some a ∧
    (name, e) ∈ byName lower (desiredCols t d) ∧ (a.notnull ≠ e.notnull ∨ a.pk ≠ e.pk)

/-- No exception; there is a plan if anything drifted, and it lists exactly the columns whose
affinity differs with their types. -/
def PlansDrift (lower : String → String) (cfg : Start) (t : String) (d : TableDdl) (T : Table) :
    Prop :=
  ∃ plan?, driftPlan lower cfg t d T = .ok plan? ∧
    (((∃ name actualType expectedType, AffinityDiffers lower t d T name actualType expectedType) ∨
      FlagsDiffer lower t d T) → plan?.isSome = true) ∧
    ∀ plan ∈ plan?, ∀ name actualType expectedType,
      (∃ m ∈ plan.mismatches, m.columnName = name ∧ m.actualType = actualType ∧
        m.expectedType = expectedType) ↔
      AffinityDiffers lower t d T name actualType expectedType

/-- The tuples are those of the columns whose affinity differs. -/
theorem mem_types_foldl (actual desired : List (String × Column)) (drift : Drift)
    (x : String × Item × Item) : x ∈ (desired.foldl (Drift.collect actual) drift).types ↔
      x ∈ drift.types ∨ ∃ p ∈ desired, ∃ a, actual.lookup p.1 = some a ∧
        normalizeTypeAffinity a.type ≠ normalizeTypeAffinity p.2.type ∧
        x = (p.1, .text a.type, .text p.2.type) := by
  induction desired generalizing drift with
  | nil => simp
  | cons p desired ih =>
    simp only [List.foldl_cons, ih, List.mem_cons, exists_eq_or_imp]
    have hone : x ∈ (drift.collect actual p).types ↔ x ∈ drift.types ∨
        ∃ a, actual.lookup p.1 = some a ∧
          normalizeTypeAffinity a.type ≠ normalizeTypeAffinity p.2.type ∧
          x = (p.1, .text a.type, .text p.2.type) := by
      unfold Drift.collect
      split
      next hnone => simp [hnone]
      next a hsome =>
        rw [List.mem_append, hsome]
        split
        next hne => simp [hne]
        next heq => simp [not_not.1 heq]
    rw [hone, or_assoc]

theorem mem_constraints_foldl (actual desired : List (String × Column)) (drift : Drift) :
    (desired.foldl (Drift.collect actual) drift).constraints ≠ [] ↔
      drift.constraints ≠ [] ∨ ∃ p ∈ desired, ∃ a, actual.lookup p.1 = some a ∧
        (a.notnull ≠ p.2.notnull ∨ a.pk ≠ p.2.pk) := by
  induction desired generalizing drift with
  | nil => simp
  | cons p desired ih =>
    simp only [List.foldl_cons, ih, List.mem_cons, exists_eq_or_imp]
    have hone : (drift.collect actual p).constraints ≠ [] ↔ drift.constraints ≠ [] ∨
        ∃ a, actual.lookup p.1 = some a ∧ (a.notnull ≠ p.2.notnull ∨ a.pk ≠ p.2.pk) := by
      unfold Drift.collect
      split
      next hnone => simp [hnone]
      next a hsome =>
        simp only [hsome, Option.some.injEq, ne_eq, List.append_eq_nil_iff, exists_eq_left']
        by_cases hn : a.notnull = p.2.notnull
        · by_cases hp : a.pk = p.2.pk <;> simp [hn, hp]
        · simp [hn]
    rw [hone, or_assoc]

theorem types_ne_nil (lower : String → String) (t : String) (d : TableDdl) (T : Table) :
    (Drift.of (byName lower T.schema.columns) (byName lower (desiredCols t d))).types ≠ [] ↔
      ∃ name actualType expectedType,
        AffinityDiffers lower t d T name actualType expectedType := by
  constructor
  · intro h
    obtain ⟨x, hx⟩ := List.exists_mem_of_ne_nil _ h
    rw [Drift.of, mem_types_foldl] at hx
    rcases hx with hx | ⟨p, hp, a, ha, hne, -⟩
    · cases hx
    · exact ⟨p.1, a.type, p.2.type, a, p.2, ha, hp, rfl, rfl, hne⟩
  · rintro ⟨name, _, _, a, e, ha, he, rfl, rfl, hne⟩
    apply List.ne_nil_of_mem (a := (name, .text a.type, .text e.type))
    rw [Drift.of, mem_types_foldl]
    exact .inr ⟨(name, e), he, a, ha, hne, rfl⟩

theorem constraints_ne_nil (lower : String → String) (t : String) (d : TableDdl) (T : Table) :
    (Drift.of (byName lower T.schema.columns) (byName lower (desiredCols t d))).constraints ≠ [] ↔
      FlagsDiffer lower t d T := by
  rw [Drift.of, mem_constraints_foldl]
  constructor
  · rintro (h | ⟨p, hp, a, ha, hne⟩)
    · exact absurd rfl h
    · exact ⟨p.1, a, p.2, ha, hp, hne⟩
  · rintro ⟨name, a, e, ha, he, hne⟩
    exact .inr ⟨(name, e), he, a, ha, hne⟩

/-- The types in a tuple are texts, and a text has no type. -/
theorem computeMismatchPlan_raises (lower : String → String) (cfg : Start) (t : String)
    (d : TableDdl) (T : Table) (actual desired : List (String × Column))
    (h : (Drift.of actual desired).types ≠ []) :
    (Drift.of actual desired).computeMismatchPlan lower cfg t d T = .error .attributeError := by
  obtain ⟨x, xs, hcons⟩ := List.exists_cons_of_ne_nil h
  have hx : x ∈ (Drift.of actual desired).types := by
    rw [hcons]
    exact List.mem_cons_self
  rw [Drift.of, mem_types_foldl] at hx
  rcases hx with hx | ⟨p, -, a, -, -, rfl⟩
  · cases hx
  · rw [Drift.computeMismatchPlan, hcons, List.mapM_cons]
    rfl

/-- A plan without drift of types lists no column. -/
theorem computeMismatchPlan_flags (lower : String → String) (cfg : Start) (t : String)
    (d : TableDdl) (T : Table) {drift : Drift} (h : drift.types = []) :
    drift.computeMismatchPlan lower cfg t d T =
      .ok (Management.computeMismatchPlan cfg t d T) := by
  rw [Drift.computeMismatchPlan, h]
  rfl

/-- A drift of types raises; without one the table is planned for as it should be. -/
theorem plansDrift_iff (lower : String → String) (cfg : Start) (t : String) (d : TableDdl)
    (T : Table) : PlansDrift lower cfg t d T ↔
      ∀ name a e, (byName lower T.schema.columns).lookup name = some a →
        (name, e) ∈ byName lower (desiredCols t d) →
        normalizeTypeAffinity a.type = normalizeTypeAffinity e.type := by
  constructor
  · rintro ⟨plan?, hplan, -⟩ name a e ha he
    by_contra hne
    have htypes := (types_ne_nil lower t d T).2 ⟨name, _, _, a, e, ha, he, rfl, rfl, hne⟩
    rw [driftPlan, if_pos (.inl htypes), computeMismatchPlan_raises _ _ _ _ _ _ _ htypes] at hplan
    cases hplan
  · intro h
    have hnone : ∀ name actualType expectedType,
        ¬ AffinityDiffers lower t d T name actualType expectedType := by
      rintro name _ _ ⟨a, e, ha, he, rfl, rfl, hne⟩
      exact hne (h name a e ha he)
    have htypes : (Drift.of (byName lower T.schema.columns)
        (byName lower (desiredCols t d))).types = [] := by
      by_contra hne
      obtain ⟨name, actualType, expectedType, hdiff⟩ := (types_ne_nil lower t d T).1 hne
      exact hnone name actualType expectedType hdiff
    by_cases hflags : FlagsDiffer lower t d T
    · refine ⟨some (Management.computeMismatchPlan cfg t d T), ?_, fun _ => rfl, ?_⟩
      · rw [driftPlan, if_pos (.inr ((constraints_ne_nil lower t d T).2 hflags)),
          computeMismatchPlan_flags _ _ _ _ _ htypes]
        rfl
      · intro plan hmem name actualType expectedType
        cases hmem
        refine iff_of_false ?_ (hnone name actualType expectedType)
        rintro ⟨m, hm, -⟩
        cases hm
    · refine ⟨none, ?_, ?_, ?_⟩
      · have hconstraints := mt (constraints_ne_nil lower t d T).1 hflags
        rw [driftPlan, if_neg]
        rintro (hne | hne)
        · exact hne htypes
        · exact hconstraints hne
      · rintro (⟨name, actualType, expectedType, hdiff⟩ | hdiff)
        · exact absurd hdiff (hnone name actualType expectedType)
        · exact absurd hdiff hflags
      · intro plan hmem
        cases hmem

/-- A table of an older version, with a count stored as text. -/
def olderTable : Table where
  schema := { columns := [col "id" "TEXT", col "count" "TEXT"] }
  rows := []

def newerDdl : TableDdl where
  ifNotExists := true
  schema := { columns := [col "id" "TEXT", col "count" "INTEGER"] }

def plainStart : Start where
  expectedTables := []
  nodup := List.nodup_nil
  env := { parseTs := fun _ => 0, digest := fun s => s, now := "2024-05-01T10:00:00+00:00" }

/-- The start on such a table raises. -/
theorem plansDrift_raises :
    ¬ PlansDrift (fun s => String.ofList (s.toList.map Char.toLower)) plainStart "counters" newerDdl
      olderTable := by
  have hraise : driftPlan (fun s => String.ofList (s.toList.map Char.toLower)) plainStart "counters"
      newerDdl olderTable = .error .attributeError := rfl
  rintro ⟨plan?, hplan, -⟩
  rw [hraise] at hplan
  cases hplan

theorem setItem_concat (h : name ∉ items.map Prod.fst) :
    setItem name c items = items ++ [(name, c)] := by
  induction items with
  | nil => rfl
  | cons p items ih =>
    rw [List.map_cons, List.mem_cons, not_or] at h
    rw [setItem, if_neg (Ne.symm h.1), ih h.2, List.cons_append]

/-- Names in lower case, each once, are the keys. -/
theorem byName_eq {cols : List Column} (hlower : ∀ c ∈ cols, lower c.name = c.name)
    (hnodup : (cols.map Column.name).Nodup) :
    byName lower cols = cols.map fun c => (c.name, c) := by
  induction cols using List.reverseRecOn with
  | nil => rfl
  | append_singleton cols c ih =>
    rw [List.map_append, List.nodup_append] at hnodup
    obtain ⟨hcols, -, hapart⟩ := hnodup
    have hfront := ih (fun c hc => hlower c (List.mem_append_left _ hc)) hcols
    have hc := hlower c (List.mem_append_right _ List.mem_cons_self)
    have hnew : c.name ∉ ((cols.map fun c => (c.name, c)).map Prod.fst) := by
      rw [List.map_map]
      intro hm
      exact hapart c.name hm c.name (List.mem_map_of_mem List.mem_cons_self) rfl
    rw [byName, List.foldl_concat, ← byName, hfront, hc, setItem_concat hnew, List.map_append,
      List.map_singleton]

theorem lookup_columns {cols : List Column} (hnodup : (cols.map Column.name).Nodup) :
    (cols.map fun c => (c.name, c)).lookup name = some c ↔ c ∈ cols ∧ c.name = name := by
  induction cols with
  | nil => simp
  | cons c' cols ih =>
    rw [List.map_cons, List.nodup_cons] at hnodup
    rw [List.map_cons, List.lookup_cons]
    by_cases hn : name = c'.name
    · subst hn
      simp only [beq_self_eq_true, Option.some.injEq, List.mem_cons]
      constructor
      · rintro rfl
        exact ⟨.inl rfl, rfl⟩
      · rintro ⟨rfl | hm, he⟩
        · rfl
        · exact absurd (he ▸ List.mem_map_of_mem hm) hnodup.1
    · simp only [beq_eq_false_iff_ne.2 hn, ih hnodup.2, List.mem_cons]
      constructor
      · rintro ⟨hm, he⟩
        exact ⟨.inr hm, he⟩
      · rintro ⟨rfl | hm, he⟩
        · exact absurd he.symm hn
        · exact ⟨hm, he⟩

/-- On such names it is what `validateStructure` does. -/
theorem driftPlan_eq {lower : String → String} {T : Table} (cfg : Start) (t : String)
    (d : TableDdl) (hactual : ∀ c ∈ T.schema.columns, lower c.name = c.name)
    (hdesired : ∀ c ∈ desiredCols t d, lower c.name = c.name)
    (hnames : T.schema.names.Nodup) (hnames' : ((desiredCols t d).map Column.name).Nodup) :
    driftPlan lower cfg t d T =
      if typeDrift T.schema.columns (desiredCols t d) ≠ [] then .error .attributeError
      else if constraintDrift T.schema.columns (desiredCols t d) ≠ [] then
        .ok (some (computeMismatchPlan cfg t d T))
      else .ok none := by
  have hkeys := byName_eq hactual hnames
  have hkeys' := byName_eq hdesired hnames'
  have hlookup : ∀ e ∈ desiredCols t d, ∀ p : Column → Prop,
      (∃ a, (byName lower T.schema.columns).lookup e.name = some a ∧ p a) ↔
        ∃ a ∈ T.schema.columns, a.name = e.name ∧ p a := by
    intro e _ p
    rw [hkeys]
    constructor
    · rintro ⟨a, ha, hp⟩
      obtain ⟨hm, he⟩ := (lookup_columns hnames).1 ha
      exact ⟨a, hm, he, hp⟩
    · rintro ⟨a, hm, he, hp⟩
      exact ⟨a, (lookup_columns hnames).2 ⟨hm, he⟩, hp⟩
  have htypes : (Drift.of (byName lower T.schema.columns)
      (byName lower (desiredCols t d))).types ≠ [] ↔
      typeDrift T.schema.columns (desiredCols t d) ≠ [] := by
    rw [types_ne_nil, typeDrift, ne_eq, List.filter_eq_nil_iff]
    simp only [not_forall, not_not, exists_prop]
    constructor
    · rintro ⟨name, _, _, a, e, ha, he, rfl, rfl, hne⟩
      rw [hkeys', List.mem_map] at he
      obtain ⟨e', hm, he⟩ := he
      cases he
      obtain ⟨a', hm', hname, rfl⟩ := (hlookup e hm (· = a)).1 ⟨a, ha, rfl⟩
      refine ⟨e, hm, ?_⟩
      rw [List.any_eq_true]
      exact ⟨a', hm', by simp [hname, hne]⟩
    · rintro ⟨e, hm, hany⟩
      obtain ⟨a, hm', hcond⟩ := List.any_eq_true.1 hany
      rw [Bool.and_eq_true, decide_eq_true_eq, decide_eq_true_eq] at hcond
      obtain ⟨a', ha', rfl⟩ := (hlookup e hm (· = a)).2 ⟨a, hm', hcond.1, rfl⟩
      refine ⟨e.name, _, _, a', e, ha', ?_, rfl, rfl, hcond.2⟩
      rw [hkeys']
      exact List.mem_map_of_mem hm
  have hconstraints : (Drift.of (byName lower T.schema.columns)
      (byName lower (desiredCols t d))).constraints ≠ [] ↔
      constraintDrift T.schema.columns (desiredCols t d) ≠ [] := by
    rw [constraints_ne_nil, constraintDrift, ne_eq, List.filter_eq_nil_iff]
    simp only [not_forall, not_not, exists_prop]
    constructor
    · rintro ⟨name, a, e, ha, he, hne⟩
      rw [hkeys', List.mem_map] at he
      obtain ⟨e', hm, he⟩ := he
      cases he
      obtain ⟨a', hm', hname, rfl⟩ := (hlookup e hm (· = a)).1 ⟨a, ha, rfl⟩
      refine ⟨e, hm, ?_⟩
      rw [List.any_eq_true]
      exact ⟨a', hm', by simpa [hname] using hne⟩
    · rintro ⟨e, hm, hany⟩
      obtain ⟨a, hm', hcond⟩ := List.any_eq_true.1 hany
      rw [Bool.and_eq_true, Bool.or_eq_true, decide_eq_true_eq, decide_eq_true_eq,
        decide_eq_true_eq] at hcond
      obtain ⟨a', ha', rfl⟩ := (hlookup e hm (· = a)).2 ⟨a, hm', hcond.1, rfl⟩
      refine ⟨e.name, a', e, ha', ?_, hcond.2⟩
      rw [hkeys']
      exact List.mem_map_of_mem hm
  by_cases ht : typeDrift T.schema.columns (desiredCols t d) = []
  · have hnil := not_not.1 (mt htypes.1 (not_not.2 ht))
    rw [if_neg (not_not.2 ht), driftPlan, computeMismatchPlan_flags _ _ _ _ _ hnil]
    simp only [hnil, ne_eq, not_true_eq_false, false_or, hconstraints]
    rfl
  · have hne := htypes.2 ht
    rw [if_pos ht, driftPlan, if_pos (.inl hne), computeMismatchPlan_raises _ _ _ _ _ _ _ hne]
    rfl

end Management
