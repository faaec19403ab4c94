import AnythingTools.Sync.SchemaManager

namespace Sync
open Relational Schemas Management
set_option autoImplicit true

/-- The type that `_add_column` writes into its statement. -/
def addColumnType (dim : Nat) (c : Column) : String :=
  if c.name = "embedding" then "VECTOR(FLOAT, " ++ toString dim ++ ")"
  else if typeHas c.type "TEXT" || typeHas c.type "CHAR" then "VARCHAR"
  else if typeHas c.type "REAL" || typeHas c.type "FLOA" then "FLOAT"
  else if typeHas c.type "BLOB" then "BINARY"
  else "NUMBER"

/-- How the cloud names the type of a column in `INFORMATION_SCHEMA.COLUMNS`: by the base type, a
VARCHAR also as TEXT. -/
structure InformationSchema where
  dataType : String → String
  base (type : String) : normalizeSnowflakeType (dataType type) = normalizeSnowflakeType type ∨
    normalizeSnowflakeType type = "VARCHAR" ∧ normalizeSnowflakeType (dataType type) = "TEXT"

/-- `reconcile_types` finds no fault with a column of the given type in the cloud; a table whose
script the memory database does not run is not looked at. -/
def TypeAccepted (p : String × TableDdl) (c : Column) (found : String) : Prop :=
  columnsFromDdlInMemory p.2 p.1 = none ∨ cloudMismatches p.1 (fun _ => some found) [c] = []

/-- Both mappings read the declared type alike. -/
def mappingsAgree (type : String) : Bool :=
  let char := typeHas type "TEXT" || typeHas type "CHAR"
  let real := typeHas type "REAL" || typeHas type "FLOA"
  let blob := typeHas type "BLOB"
  if typeHas type "INT" then !char && !real && !blob
  else char || !typeHas type "CLOB" && decide (type ≠ "") && !(blob && real) &&
    (!typeHas type "DOUB" || real || blob)

/-- The column is added with the type that is expected of it. -/
def addedAsExpected (tableName : String) (c : Column) : Bool :=
  if c.name = "embedding" then decide (tableName = "scraped_articles_vec_backup")
  else decide ((tableName, c.name) ≠ ("sf_quarterly_facts", "is_total")) && mappingsAgree c.type

/-- A text without white space at its ends. -/
theorem strip_of_ends {s : String} {a b : Char} {m : List Char} (h : s.toList = a :: m ++ [b])
    (ha : isSpace a = false) (hb : isSpace b = false) : (strip s).toList = a :: m ++ [b] := by
  have hfront : (a :: m ++ [b]).dropWhile isSpace = a :: m ++ [b] := by
    rw [List.cons_append, List.dropWhile_cons_of_neg (by simp [ha])]
  have hback : (a :: m ++ [b]).reverse.dropWhile isSpace = (a :: m ++ [b]).reverse := by
    rw [List.reverse_append, List.reverse_singleton, List.singleton_append,
      List.dropWhile_cons_of_neg (by simp [hb])]
  rw [strip, String.toList_ofList, h, hfront, hback, List.reverse_reverse]

theorem normalize_vector (dim : Nat) :
    normalizeSnowflakeType ("VECTOR(FLOAT, " ++ toString dim ++ ")") = "VECTOR" := by
  have htext : ("VECTOR(FLOAT, " ++ toString dim ++ ")").toList =
      'V' :: ("ECTOR(FLOAT, ".toList ++ (toString dim).toList) ++ [')'] := by
    rw [String.toList_append, String.toList_append]
    rfl
  have hlast : ('V' :: ("ECTOR(FLOAT, ".toList ++ (toString dim).toList) ++ [')']).getLast? =
      some ')' := List.getLast?_concat
  have hopen : '(' ∈ 'V' :: ("ECTOR(FLOAT, ".toList ++ (toString dim).toList) ++ [')'] := by
    simp
  have hbase : ('V' :: ("ECTOR(FLOAT, ".toList ++ (toString dim).toList) ++ [')']).takeWhile
      (fun c => decide (c ≠ '(')) = "VECTOR".toList := rfl
  rw [normalizeSnowflakeType, strip_of_ends htext (by decide) (by decide), if_pos ⟨hlast, hopen⟩, hbase]
  rfl

/-- The base types of what is added. -/
theorem normalize_added (dim : Nat) (c : Column) :
    normalizeSnowflakeType (addColumnType dim c) = addedType c := by
  unfold addColumnType addedType
  split_ifs
  · exact normalize_vector dim
  · rfl
  · rfl
  · rfl
  · rfl

theorem normalize_mapped (type : String) :
    normalizeSnowflakeType (sqliteTypeToSnowflake type) = sqliteTypeToSnowflake type := by
  unfold sqliteTypeToSnowflake
  split_ifs <;> rfl

theorem normalize_expected (tableName : String) (c : Column) :
    normalizeSnowflakeType (expectedSnowflakeType tableName c) =
      if (tableName, c.name) = ("sf_quarterly_facts", "is_total") then "BOOLEAN"
      else if (tableName, c.name) = ("scraped_articles_vec_backup", "embedding") then "VECTOR"
      else sqliteTypeToSnowflake c.type := by
  have hboolean : normalizeSnowflakeType "BOOLEAN" = "BOOLEAN" := by decide
  have hvector : normalizeSnowflakeType "VECTOR(FLOAT, 1024)" = "VECTOR" := by decide
  unfold expectedSnowflakeType snowflakeColumnOverrides
  by_cases hb : (tableName, c.name) = ("sf_quarterly_facts", "is_total")
  · rw [if_pos hb, List.lookup_cons, hb, beq_self_eq_true]
    exact hboolean
  · rw [if_neg hb, List.lookup_cons, beq_eq_false_iff_ne.2 hb]
    by_cases hv : (tableName, c.name) = ("scraped_articles_vec_backup", "embedding")
    · rw [if_pos hv, List.lookup_cons, hv, beq_self_eq_true]
      exact hvector
    · rw [if_neg hv, List.lookup_cons, beq_eq_false_iff_ne.2 hv]
      exact normalize_mapped c.type

theorem mem_added (c : Column) :
    addedType c ∈ ["VECTOR", "VARCHAR", "FLOAT", "BINARY", "NUMBER"] := by
  unfold addedType
  split_ifs <;> simp

theorem mem_mapped (type : String) :
    sqliteTypeToSnowflake type ∈ ["NUMBER", "VARCHAR", "BINARY", "FLOAT"] := by
  unfold sqliteTypeToSnowflake
  split_ifs <;> simp

theorem mem_expected (tableName : String) (c : Column) :
    normalizeSnowflakeType (expectedSnowflakeType tableName c) ∈
      ["BOOLEAN", "VECTOR", "NUMBER", "VARCHAR", "BINARY", "FLOAT"] := by
  rw [normalize_expected]
  split_ifs
  · simp
  · simp
  · exact List.mem_cons_of_mem _ (List.mem_cons_of_mem _ (mem_mapped c.type))

/-- One column passes when its base type is the expected one or both are texts. -/
theorem cloudMismatches_singleton (tableName : String) (c : Column) (found : String)
    (hne : found ≠ "") : cloudMismatches tableName (fun _ => some found) [c] = [] ↔
      normalizeSnowflakeType (expectedSnowflakeType tableName c) = normalizeSnowflakeType found ∨
        (normalizeSnowflakeType (expectedSnowflakeType tableName c) ∈ ["VARCHAR", "TEXT"] ∧
          normalizeSnowflakeType found ∈ ["VARCHAR", "TEXT"]) := by
  rw [cloudMismatches, List.filterMap_eq_nil_iff]
  simp only [List.mem_singleton, forall_eq, Option.getD_some, typesMatch, decide_eq_true_eq]
  split
  next h =>
    refine iff_of_false (Option.some_ne_none _) ?_
    rintro (he | hboth)
    · exact h.2.1 he
    · exact h.2.2 hboth
  next h =>
    refine iff_of_true rfl ?_
    by_contra hnot
    rw [not_or] at hnot
    exact h ⟨hne, hnot.1, hnot.2⟩

/-- Added as `_add_column` does, it passes exactly when the expected base type is the added one. -/
theorem accepted_iff_base (sf : InformationSchema) (dim : Nat) (tableName : String) (c : Column) :
    cloudMismatches tableName (fun _ => some (sf.dataType (addColumnType dim c))) [c] = [] ↔
      normalizeSnowflakeType (expectedSnowflakeType tableName c) = addedType c := by
  have hbase := sf.base (addColumnType dim c)
  rw [normalize_added] at hbase
  have hadded := mem_added c
  have hexpected := mem_expected tableName c
  have hne : sf.dataType (addColumnType dim c) ≠ "" := by
    intro he
    rw [he] at hbase
    rcases hbase with h | ⟨-, h⟩
    · rw [← h] at hadded
      exact absurd hadded (by decide)
    · exact absurd h (by decide)
  rw [cloudMismatches_singleton _ _ _ hne]
  rcases hbase with h | ⟨hvarchar, htext⟩
  · rw [h]
    constructor
    · rintro (he | ⟨he, hf⟩)
      · exact he
      · generalize normalizeSnowflakeType (expectedSnowflakeType tableName c) = x at *
        generalize addedType c = y at *
        simp only [List.mem_cons, List.not_mem_nil, or_false] at he hf hadded hexpected
        rcases he with rfl | rfl
        · rcases hf with rfl | rfl
          · rfl
          · simp at hadded
        · simp at hexpected
    · exact .inl
  · rw [htext, hvarchar]
    constructor
    · rintro (he | ⟨he, -⟩)
      · rw [he] at hexpected
        simp at hexpected
      · rcases List.mem_cons.1 he with he | he
        · exact he
        · rw [List.mem_singleton.1 he] at hexpected
          simp at hexpected
    · intro he
      exact .inr ⟨by simp [he], by simp⟩

theorem mapped_eq_added_iff {c : Column} (hname : c.name ≠ "embedding") :
    sqliteTypeToSnowflake c.type = addedType c ↔ mappingsAgree c.type = true := by
  -- which words the type contains decides everything
  have hwords : ∀ int text char clob blob real floa doub empty : Bool, (empty = true → blob = false) →
      ((if int then "NUMBER" else if char || clob || text then "VARCHAR"
          else if blob || empty then "BINARY" else if real || floa || doub then "FLOAT"
          else "NUMBER") =
        (if text || char then "VARCHAR" else if real || floa then "FLOAT"
          else if blob then "BINARY" else "NUMBER") ↔
        (if int then !(text || char) && !(real || floa) && !blob
          else text || char || !clob && !empty && !(blob && (real || floa)) &&
            (!doub || (real || floa) || blob)) = true) := by decide
  have hempty : decide (c.type = "") = true → typeHas c.type "BLOB" = false := by
    intro he
    rw [of_decide_eq_true he]
    decide
  unfold sqliteTypeToSnowflake addedType mappingsAgree
  rw [if_neg hname]
  have hne : decide (c.type ≠ "") = !decide (c.type = "") := decide_not
  rw [hne]
  exact hwords _ _ _ _ _ _ _ _ _ hempty

theorem base_iff (tableName : String) (c : Column) :
    normalizeSnowflakeType (expectedSnowflakeType tableName c) = addedType c ↔
      addedAsExpected tableName c = true := by
  rw [normalize_expected, addedAsExpected]
  by_cases hname : c.name = "embedding"
  · have hadded : addedType c = "VECTOR" := if_pos hname
    rw [hadded, hname, if_neg (by simp)]
    by_cases ht : tableName = "scraped_articles_vec_backup"
    · simp [ht]
    · have hmapped := mem_mapped c.type
      simp only [ht, Prod.mk.injEq, and_true, if_false, if_true, decide_false, Bool.false_eq_true,
        iff_false]
      intro he
      rw [he] at hmapped
      simp at hmapped
  · rw [if_neg hname]
    by_cases hb : (tableName, c.name) = ("sf_quarterly_facts", "is_total")
    · have hadded := mem_added c
      simp only [hb, if_true, ne_eq, not_true_eq_false, decide_false, Bool.false_and,
        Bool.false_eq_true, iff_false]
      intro he
      rw [← he] at hadded
      simp at hadded
    · have hv : (tableName, c.name) ≠ ("scraped_articles_vec_backup", "embedding") := by
        intro he
        exact hname (Prod.mk.inj he).2
      rw [if_neg hb, if_neg hv, mapped_eq_added_iff hname]
      simp [hb]

/-- The type of an added column is accepted on the next start exactly when the two mappings agree
on it. -/
theorem typeAccepted_added_iff (sf : InformationSchema) (dim : Nat) (p : String × TableDdl)
    (c : Column) : TypeAccepted p c (sf.dataType (addColumnType dim c)) ↔
      columnsFromDdlInMemory p.2 p.1 = none ∨ addedAsExpected p.1 c = true := by
  rw [TypeAccepted, accepted_iff_base, base_iff]

/-- The cloud with its name for texts. -/
def textNames : InformationSchema where
  dataType type := if normalizeSnowflakeType type = "VARCHAR" then "TEXT" else type
  base type := by
    by_cases h : normalizeSnowflakeType type = "VARCHAR"
    · exact .inr ⟨h, by rw [if_pos h]; decide⟩
    · exact .inl (by rw [if_neg h])

def isTotal : Column := { name := "is_total", type := "INTEGER" }

theorem isTotal_looked_at :
    (columnsFromDdlInMemory sfQuarterlyFacts "sf_quarterly_facts").isSome = true := by
  decide

theorem isTotal_number : ¬ addedAsExpected "sf_quarterly_facts" isTotal = true := by
  decide

/-- The column that is overridden to BOOLEAN is added as NUMBER. -/
theorem isTotal_rebuilt : ¬ TypeAccepted ("sf_quarterly_facts", sfQuarterlyFacts) isTotal
    (textNames.dataType (addColumnType 1024 isTotal)) := by
  intro h
  rw [TypeAccepted, accepted_iff_base, base_iff] at h
  have hnone := h.resolve_right isTotal_number
  have hsome := isTotal_looked_at
  simp only at hnone
  rw [hnone] at hsome
  exact absurd hsome (by decide)

/-- A table is planned for a rebuild only because of a column that does not pass. -/
theorem rebuildPlan_none (sf : Snowflake) (p : String × TableDdl) (types : String → Option String)
    (h : ∀ desired, columnsFromDdlInMemory p.2 p.1 = some desired →
      ∀ c ∈ desired, cloudMismatches p.1 types [c] = []) :
    rebuildPlan sf p (some types) = none := by
  unfold rebuildPlan
  split
  next types' desired hsome hdesired =>
    cases hsome
    have hnil : cloudMismatches p.1 types desired = [] := by
      rw [cloudMismatches, List.filterMap_eq_nil_iff]
      intro c hc
      have hone := h desired hdesired c hc
      rw [cloudMismatches, List.filterMap_eq_nil_iff] at hone
      exact hone c List.mem_cons_self
    simp only [hnil, if_true]
  next => rfl

end Sync
