import AnythingTools.Management.SchemaIntrospector
import AnythingTools.Relational.AlterColumn
import AnythingTools.Sync.ContentHash

namespace Management
open Relational Relational.Database Session Schemas Sync
set_option autoImplicit true

variable {e : Env} {md5 : String → String} {t : String}

/-- The line that is hashed: the cells as stripped texts with two bars between them. -/
def hashedLine (cols : List String) (row : Row) : String :=
  "||".intercalate (cols.map fun c => strip (Python.strOr (row.get c)))

/-- The hash of a row as the filler and the backfill compute it. -/
def filledHash (e : Env) (tableName : String) (row : Row) : String :=
  e.digest (hashedLine (registryChecksumColumns e tableName) row)

/-- `UPDATE t SET content_hash = ? WHERE pk = ? AND ...`, as it is queued. -/
structure BackfillUpdate where
  newHash : String
  pkVals : List Value
deriving DecidableEq, Repr

/-- The transactions that are queued, and the number of their rows. -/
def backfillTable (e : Env) (db : Database) (tableName columnName : String) (dryRun : Bool) :
    List (List BackfillUpdate) × Nat :=
  let checksumCols := registryChecksumColumns e tableName
  if checksumCols = [] then ([], 0)
  else
    let pkCols := (detectPkColumns db tableName).1
    match db.find tableName with
    | none => ([], 0)
    | some T =>
      if (pkCols ++ checksumCols ++ [columnName]).all fun c => decide (c ∈ T.schema.names) then
        let updates := (T.rows.filter (isUnfilled columnName)).map fun r =>
          ({ newHash := e.digest ("||".intercalate (checksumCols.map fun c =>
              strip (Python.strOr (r.get c))))
             pkVals := pkCols.map r.get } : BackfillUpdate)
        if dryRun then ([], updates.length)
        else (Python.chunks 1000 updates, updates.length)
      else ([], 0)

/-- A part of a joined text; the join raises a `TypeError` for anything but a text. -/
def joinPart (record : Row) (c : String) : Option String :=
  match record.lookup c with
  | none => some ""
  | some (.text s) => some s
  | some _ => none

/-- `str(record.get(c, ""))`. -/
def strPart (record : Row) (c : String) : String :=
  ((record.lookup c).map Python.str).getD ""

def computeFactHash (md5 : String → String) (record : Row) : Option String := do
  let parts ← ["ticker", "statement_type", "concept", "quarter"].mapM (joinPart record)
  return md5 ("||".intercalate (parts ++ [strPart record "numeric_value"]))

/-- The `filing_hash` of `extract_and_persist_filing`. -/
def filingHash (md5 : String → String) (record : Row) : String :=
  md5 ("|".intercalate (["ticker", "form", "accession_no", "period_of_report", "cik"].map fun c =>
    Python.str (record.get c)))

/-- The `note_hash` of `extract_and_persist_filing`. -/
def noteHash (md5 : String → String) (record : Row) : String :=
  md5 ("|".intercalate
    (["note_number", "title", "narrative_hash", "table_count", "details_count"].map fun c =>
      Python.str (record.get c)))

/-- The hash of a record of `transform_to_tidy`. -/
def tidyHash (md5 : String → String) (record : Row) : Option String := do
  let parts ← ["detail_id", "value"].mapM (joinPart record)
  return md5 ("||".intercalate parts)

/-- The hash that the tool of a table writes with a record; the tools of the other tables leave the
column empty. -/
def writeTimeHash (e : Env) (md5 : String → String) (tableName : String) (record : Row) :
    Option String :=
  match tableName with
  | "scraped_articles" => some (computeRowHash e tableName record)
  | "sf_quarterly_facts" => computeFactHash md5 record
  | "sn_filings" => some (filingHash md5 record)
  | "sn_notes" => some (noteHash md5 record)
  | "sn_note_details" => tidyHash md5 record
  | _ => some ""

/-- The producers of a hash give one value for the row. -/
structure Agree (e : Env) (md5 : String → String) (tableName : String) (row : Row) : Prop where
  filled : filledHash e tableName row = computeRowHash e tableName row
  written : writeTimeHash e md5 tableName row = some (computeRowHash e tableName row)

/-- The row is one of the given rows, or has the key of one that was not filled and its hash. -/
def FilledFrom (e : Env) (t c k : String) (rows : List Row) (r' : Row) : Prop :=
  r' ∈ rows ∨ ∃ r ∈ rows, isUnfilled c r = true ∧ r'.get k = r.get k ∧
    r'.get c = .text (filledHash e t r)

def AllFilledFrom (e : Env) (t c k : String) (rows : List Row) (db : Database) : Prop :=
  ∀ r ∈ db.rows t, FilledFrom e t c k rows r ∧ c ∈ r.columns

theorem setByKey_filled {rs : List Row} (hk : k ≠ c) (hr : r ∈ rs)
    (hun : isUnfilled c r = true) : Ensures (AllFilledFrom e t c k rs)
      (setByKey t c k (.text (filledHash e t r), r.get k)) fun _ => True := by
  apply Ensures.stmt
  intro db db' hok hall r' hr'
  obtain ⟨T, hT, hT', _⟩ := updateWhere_ok hok
  rw [rows_of_find hT'] at hr'
  obtain ⟨r₀, hr₀, rfl⟩ := List.mem_map.1 hr'
  obtain ⟨hfrom, hcol⟩ := hall r₀ (by rw [rows_of_find hT]; exact hr₀)
  split_ifs with hkey
  · rw [Row.sameKey_iff] at hkey
    obtain ⟨_, hsame⟩ := hkey k List.mem_cons_self
    refine ⟨.inr ⟨r, hr, hun, ?_, Row.get_set_self r₀ _ hcol⟩, by rwa [Row.columns_set]⟩
    rw [Row.get_set_ne r₀ _ hk, hsame, Row.get_cons, if_pos rfl]
  · exact ⟨hfrom, hcol⟩

/-- What the filler leaves in a row is what the row was, or its hash. -/
theorem fillContentHash_filled (hT : db.find t = some T) (hpk : (detectPkColumns db t).1 = [k])
    (hk : k ≠ c) (hcols : ∀ r ∈ T.rows, c ∈ Row.columns r)
    (hr : r ∈ (left (fillContentHash e t c) db).rows t) : FilledFrom e t c k T.rows r := by
  have hstart : AllFilledFrom e t c k T.rows db := by
    intro r' hr'
    rw [rows_of_find hT] at hr'
    exact ⟨.inl hr', hcols r' hr'⟩
  have hrun : AllFilledFrom e t c k T.rows (left (fillContentHash e t c) db) := by
    unfold fillContentHash
    dsimp only
    split
    · exact hstart
    · rw [left, exec_bind_ok (exec_get db), hpk, hT]
      dsimp only
      split
      · exact hstart
      · have hbatch : Ensures (AllFilledFrom e t c k T.rows)
            (((T.rows.filter (isUnfilled c)).map fun r =>
              (Value.text (filledHash e t r), r.get k)).forM (setByKey t c k)) fun _ => True := by
          apply Ensures.forM
          intro p hp
          obtain ⟨r', hr', rfl⟩ := List.mem_map.1 hp
          obtain ⟨hm, hun⟩ := List.mem_filter.1 hr'
          exact setByKey_filled hk hm hun
        have hreturn (n : Nat) : Ensures (AllFilledFrom e t c k T.rows) (pure n : Conn Nat)
            fun _ => True := Ensures.pure trivial
        exact (Ensures.bind hbatch (fun _ _ => hreturn _) db hstart).1
  exact (hrun r hr).1

/-- The backfill queues the hashes that the filler writes. -/
theorem backfillTable_filled (hu : u ∈ txn) (htxn : txn ∈ (backfillTable e db t c dryRun).1) :
    ∃ r ∈ db.rows t, isUnfilled c r = true ∧ u.newHash = filledHash e t r ∧
      u.pkVals = (detectPkColumns db t).1.map r.get := by
  unfold backfillTable at htxn
  dsimp only at htxn
  split at htxn
  · cases htxn
  · split at htxn
    · cases htxn
    · rename_i T hT
      split at htxn
      · split at htxn
        · cases htxn
        · have hmem := (Python.mem_chunks (by decide)).1 ⟨txn, htxn, hu⟩
          obtain ⟨r, hr, rfl⟩ := List.mem_map.1 hmem
          obtain ⟨hm, hun⟩ := List.mem_filter.1 hr
          exact ⟨r, by rwa [rows_of_find hT], hun, rfl, rfl⟩
      · cases htxn

/-- A separator goes with every part but one. -/
theorem length_intercalate {sep : List α} {xs : List (List α)} (h : xs ≠ []) :
    (sep.intercalate xs).length + sep.length = (xs.map fun x => x.length + sep.length).sum := by
  induction xs with
  | nil => exact absurd rfl h
  | cons x xs ih =>
    cases xs with
    | nil => simp
    | cons y ys =>
      have hys := ih (List.cons_ne_nil y ys)
      rw [List.intercalate_cons_cons, List.length_append, List.length_append, List.map_cons,
        List.sum_cons, ← hys]
      omega

theorem sum_filter_le {p q : α → Bool} (hpq : ∀ a, p a = true → q a = true) (f : α → Nat)
    (l : List α) : ((l.filter p).map f).sum ≤ ((l.filter q).map f).sum := by
  induction l with
  | nil => exact Nat.le_refl _
  | cons b l ih =>
    rw [List.filter_cons, List.filter_cons]
    by_cases hp : p b = true
    · rw [if_pos hp, if_pos (hpq b hp), List.map_cons, List.map_cons, List.sum_cons, List.sum_cons]
      exact Nat.add_le_add_left ih (f b)
    · rw [if_neg hp]
      split_ifs
      · rw [List.map_cons, List.sum_cons]
        exact ih.trans (Nat.le_add_left _ _)
      · exact ih

theorem sum_filter_lt {p q : α → Bool} {f : α → Nat} {l : List α}
    (hpq : ∀ a, p a = true → q a = true) (ha : a ∈ l) (hp : p a = false) (hq : q a = true)
    (hf : 0 < f a) : ((l.filter p).map f).sum < ((l.filter q).map f).sum := by
  induction l with
  | nil => cases ha
  | cons b l ih =>
    rw [List.filter_cons, List.filter_cons]
    rcases List.mem_cons.1 ha with rfl | hmem
    · have hle := sum_filter_le hpq f l
      rw [if_neg (by rw [hp]; decide), if_pos hq, List.map_cons, List.sum_cons]
      omega
    · have hlt := ih hmem
      by_cases hpb : p b = true
      · rw [if_pos hpb, if_pos (hpq b hpb), List.map_cons, List.map_cons, List.sum_cons,
          List.sum_cons]
        exact Nat.add_lt_add_left hlt (f b)
      · rw [if_neg hpb]
        split_ifs
        · rw [List.map_cons, List.sum_cons]
          exact hlt.trans_le (Nat.le_add_left _ _)
        · exact hlt

theorem toList_hashedLine (cols : List String) (row : Row) :
    (hashedLine cols row).toList =
      ['|', '|'].intercalate (cols.map fun c => (normalized (row.get c)).toList) := by
  rw [hashedLine, String.toList_intercalate, List.map_map]
  rfl

theorem length_hashedLine (h : cols ≠ []) (row : Row) :
    (hashedLine cols row).length + 2 =
      (cols.map fun c => (normalized (row.get c)).toList.length + 2).sum := by
  have hne : cols.map (fun c => (normalized (row.get c)).toList) ≠ [] := fun hnil =>
    h (List.map_eq_nil_iff.1 hnil)
  rw [← String.length_toList, toList_hashedLine]
  refine (length_intercalate hne).trans ?_
  rw [List.map_map]
  rfl

/-- What every table with a `content_hash` has: a column that counts for the hash, and the filler
reads its columns off the script. -/
structure Hashed (tables : List (String × TableDdl)) (p : String × TableDdl) : Prop where
  lookup : tables.lookup p.1 = some p.2
  columns : columnsFromDdlInMemory p.2 p.1 = some p.2.schema.columns
  counts : p.2.schema.names.filter (fun c => decide (c ∉ excludeColumns)) ≠ []

instance (tables : List (String × TableDdl)) (p : String × TableDdl) :
    Decidable (Hashed tables p) :=
  decidable_of_iff (tables.lookup p.1 = some p.2 ∧
      columnsFromDdlInMemory p.2 p.1 = some p.2.schema.columns ∧
      p.2.schema.names.filter (fun c => decide (c ∉ excludeColumns)) ≠ [])
    ⟨fun h => ⟨h.1, h.2.1, h.2.2⟩, fun h => ⟨h.1, h.2, h.3⟩⟩

theorem tables_hashed (sqliteVecAvailable : Bool) :
    ∀ p ∈ getExpectedSqliteTables sqliteVecAvailable, "content_hash" ∈ p.2.schema.names →
      Hashed (getExpectedSqliteTables sqliteVecAvailable) p := by
  cases sqliteVecAvailable <;> decide +kernel

/-- The filler hashes the column of the hash too, so that its line is the longer one. -/
theorem hashedLine_lt (h : (t, d) ∈ e.tables) (hcol : "content_hash" ∈ d.schema.names)
    (row : Row) : (hashedLine (getChecksumColumns e t) row).length <
      (hashedLine (registryChecksumColumns e t) row).length := by
  have hd := tables_hashed e.sqliteVecAvailable (t, d) h hcol
  have hlookup : e.tables.lookup t = some d := hd.lookup
  have hregistry : registryChecksumColumns e t =
      d.schema.names.filter fun c => decide (c ∉ ["embedding", "vec_rowid"]) := by
    rw [registryChecksumColumns, hlookup]
    dsimp only
    rw [hd.columns]
    rfl
  have hhasher : getChecksumColumns e t =
      d.schema.names.filter fun c => decide (c ∉ excludeColumns) := by
    rw [getChecksumColumns, hlookup]
  have hsub : ∀ c, decide (c ∉ excludeColumns) = true →
      decide (c ∉ ["embedding", "vec_rowid"]) = true := by
    intro c hc
    rw [decide_eq_true_eq] at hc ⊢
    intro hm
    apply hc
    rw [List.mem_pair] at hm
    obtain rfl | rfl := hm
    · decide
    · decide
  have hlt := sum_filter_lt (f := fun c => (normalized (row.get c)).toList.length + 2) hsub hcol
    (by decide) (by decide) (Nat.succ_pos _)
  have hlong : d.schema.names.filter (fun c => decide (c ∉ ["embedding", "vec_rowid"])) ≠ [] :=
    List.ne_nil_of_mem (List.mem_filter.2 ⟨hcol, by decide⟩)
  have hshort : d.schema.names.filter (fun c => decide (c ∉ excludeColumns)) ≠ [] := hd.counts
  rw [← length_hashedLine hshort, ← length_hashedLine hlong] at hlt
  rw [hregistry, hhasher]
  omega

/-- Two different texts with one digest. -/
def Collide (digest : String → String) (s s' : String) : Prop := s ≠ s' ∧ digest s = digest s'

/-- Unless two texts collide, the filler does not compute the hash of the hasher. -/
theorem filledHash_ne (h : (t, d) ∈ e.tables) (hcol : "content_hash" ∈ d.schema.names) (row : Row)
    (hfree : ¬Collide e.digest (hashedLine (getChecksumColumns e t) row)
      (hashedLine (registryChecksumColumns e t) row)) :
    filledHash e t row ≠ computeRowHash e t row := by
  have hlt := hashedLine_lt h hcol row
  intro heq
  refine hfree ⟨?_, heq.symm⟩
  intro hline
  rw [hline] at hlt
  exact absurd hlt (Nat.lt_irrefl _)

/-- What a tool writes is the hash of the hasher, nothing, or a digest of the other kind. -/
theorem writeTimeHash_cases (h : writeTimeHash e md5 t row = some s) :
    s = computeRowHash e t row ∨ s = "" ∨ ∃ line, s = md5 line := by
  unfold writeTimeHash at h
  split at h
  · cases h
    exact .inl rfl
  · simp only [computeFactHash, Option.bind_eq_bind, Option.bind_eq_some_iff] at h
    obtain ⟨parts, _, h⟩ := h
    cases h
    exact .inr (.inr ⟨_, rfl⟩)
  · cases h
    exact .inr (.inr ⟨_, rfl⟩)
  · cases h
    exact .inr (.inr ⟨_, rfl⟩)
  · simp only [tidyHash, Option.bind_eq_bind, Option.bind_eq_some_iff] at h
    obtain ⟨parts, _, h⟩ := h
    cases h
    exact .inr (.inr ⟨_, rfl⟩)
  · cases h
    exact .inr (.inl rfl)

/-- No row of a table has the same hash from every producer: what the filler and the backfill give
is neither the hash of the hasher nor what the tool of the table writes, and a diff that finds the
one on the one side and the other on the other reports the row as changed. -/
theorem backfilled_never_agrees (hmd5 : ∀ s, (md5 s).length = 32)
    (hsha : ∀ s, (e.digest s).length = 64) (h : (t, d) ∈ e.tables)
    (hcol : "content_hash" ∈ d.schema.names) (row : Row)
    (hfree : ¬Collide e.digest (hashedLine (getChecksumColumns e t) row)
      (hashedLine (registryChecksumColumns e t) row)) :
    ¬Agree e md5 t row ∧ ∀ s, writeTimeHash e md5 t row = some s →
      s ≠ filledHash e t row ∧ (s ≠ "" → ∀ parseTs k ts ts',
        k ∈ (classifyOne parseTs true (some ⟨k, s, ts⟩,
          some ⟨k, filledHash e t row, ts'⟩)).genuineConflicts.map Conflict.id) := by
  have hne := filledHash_ne h hcol row hfree
  have hlen : (filledHash e t row).length = 64 := hsha _
  refine ⟨fun hagree => hne hagree.filled, ?_⟩
  intro s hs
  have hdiffers : s ≠ filledHash e t row := by
    rcases writeTimeHash_cases hs with rfl | rfl | ⟨line, rfl⟩
    · exact hne.symm
    · intro heq
      rw [← heq] at hlen
      exact absurd hlen (by decide)
    · intro heq
      rw [← heq, hmd5] at hlen
      exact absurd hlen (by decide)
  refine ⟨hdiffers, ?_⟩
  intro hnonempty parseTs k ts ts'
  have hfilled : filledHash e t row ≠ "" := by
    intro heq
    rw [heq] at hlen
    exact absurd hlen (by decide)
  rw [classifyOne, classify, if_pos ⟨rfl, hnonempty, hfilled⟩, if_neg hdiffers]
  exact List.mem_singleton.2 rfl

def appleFiling : Row :=
  [("filing_id", .text "AAPL|10-K|0001"), ("ticker", .text "AAPL"), ("form", .text "10-K"),
    ("filing_date", .text "2024-11-01"), ("accession_no", .text "0001"),
    ("period_of_report", .text "2024-09-28"), ("company_name", .text "Apple Inc."),
    ("cik", .int 320193), ("fiscal_year_end_month", .int 9), ("quarter", .int 4),
    ("year", .int 2024), ("content_hash", .text ""), ("created_at", .text "2024-11-02 08:00:00"),
    ("updated_at", .text "2024-11-02 08:00:00")]

/-- The two digests of the filing. -/
def filingEnv : Env where
  parseTs _ := 0
  digest s :=
    if s = "AAPL|10-K|0001||AAPL||10-K||2024-11-01||0001||2024-09-28||Apple Inc.||320193||9||4||2024"
    then "70c5ce88229edc4358dfc1318b7ed4af5843cc6e62a77c249937efe50f5fa562"
    else "bcd024b5908a92e718e805f3b4684fcb605a86c2c0825a5037f0561f8368995a"
  now := "2024-11-02 08:00:00"

def filingMd5 (_ : String) : String := "b80a9baf4325b1bede87b7656a640f42"

theorem backfilled_never_agrees_filing :
    ¬Agree filingEnv filingMd5 "sn_filings" appleFiling := by
  refine (backfilled_never_agrees (e := filingEnv) (d := snFilings) ?_ ?_ ?_ ?_ _ ?_).1
  · intro s
    rw [filingMd5]
    decide
  · intro s
    rw [filingEnv]
    dsimp only
    split_ifs
    · decide
    · decide
  · decide +kernel
  · decide +kernel
  · rintro ⟨_, h⟩
    revert h
    decide +kernel

def revenueFact : Row :=
  [("ticker", .text "AAPL"), ("statement_type", .text "income"),
    ("concept", .text "us-gaap:Revenue"), ("quarter", .text "2024-Q4"),
    ("numeric_value", .text "94930000000"), ("extracted_at", .text "2024-11-02T08:00:00")]

/-- The hash that a fact is backfilled with is not the one that a pull computes for it. -/
theorem producers_disagree :
    ¬∀ (e : Env) (md5 : String → String) (t : String) (d : TableDdl), (t, d) ∈ e.tables →
      "content_hash" ∈ d.schema.names → ∀ row, Agree e md5 t row := by
  intro h
  have hagree := h markedEnv (fun s => "%" ++ s) "sf_quarterly_facts" sfQuarterlyFacts
    (by decide +kernel) (by decide +kernel) revenueFact
  have hfilled := hagree.filled
  revert hfilled
  decide +kernel

end Management
