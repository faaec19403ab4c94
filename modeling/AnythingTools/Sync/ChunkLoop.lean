import AnythingTools.Grouping
import AnythingTools.Sync.PushOutcome

namespace Sync
open Relational Relational.Database Schemas
set_option autoImplicit true

/-! ### The loop over the keys -/

/-- `range(i, n, step)` for a positive step. -/
def rangeUp (i n step : Nat) (h : 0 < step) : List Nat :=
  if i < n then i :: rangeUp (i + step) n step h else []
termination_by n - i

/-- `range(0, n, step)`, which refuses a step of zero. -/
def chunkStarts (n step : Nat) : Except Python.Error (List Nat) :=
  if h : 0 < step then .ok (rangeUp 0 n step h) else .error .valueError

/-- The condition of a query by keys. Every column is compared with a parameter of its own. -/
inductive WhereClause where
  | isIn (column : String) (placeholders : Nat)
  | anyOf (rowConditions : List (List String))
deriving DecidableEq, Repr

namespace WhereClause

def placeholders : WhereClause → Nat
  | isIn _ n => n
  | anyOf rowConditions => (rowConditions.map List.length).sum

/-- The condition as it is written. -/
def sql : WhereClause → String
  | isIn column n => column ++ " IN (" ++ ",".intercalate (List.replicate n "?") ++ ")"
  | anyOf rowConditions => " OR ".intercalate (rowConditions.map fun cols =>
      "(" ++ " AND ".intercalate (cols.map fun c => c ++ " = ?") ++ ")")

/-- A row against the row conditions, each of which takes the next parameters. -/
def anyHolds (S : Schema) (r : Row) : List (List String) → List Value → Bool
  | [], _ => false
  | cols :: rowConditions, args =>
    S.matchesKey (cols.zip (args.take cols.length)) r ||
      anyHolds S r rowConditions (args.drop cols.length)

def holds (S : Schema) (r : Row) : WhereClause → List Value → Bool
  | isIn column n, args => (args.take n).any fun v => S.matchesKey [(column, v)] r
  | anyOf rowConditions, args => anyHolds S r rowConditions args

end WhereClause

/-- `SELECT * FROM t WHERE ...` with its parameters. -/
structure KeyQuery where
  clause : WhereClause
  args : List Value

def keyQuery (pkCols : List String) (chunk : List (List Value)) : KeyQuery :=
  match pkCols with
  | [c] => { clause := .isIn c chunk.length, args := chunk.flatten }
  | _ => { clause := .anyOf (chunk.map fun _ => pkCols), args := chunk.flatten }

/-- The chunk of keys that an iteration takes. -/
def chunkAt (ids : List (List Value)) (chunkSize i : Nat) : List (List Value) :=
  (ids.drop i).take chunkSize

/-- The rows that a query returns, as dictionaries. -/
def KeyQuery.rows (T : Table) (q : KeyQuery) : List Row :=
  (T.rows.filter fun r => q.clause.holds T.schema r q.args).map fun r =>
    Row.build T.schema.names r.get

/-- The queries of the loop, in order. -/
def keyQueries (pkCols : List String) (ids : List (List Value)) :
    Except Python.Error (List KeyQuery) := do
  let starts ← chunkStarts ids.length (computeChunkSize pkCols)
  return starts.map fun i => keyQuery pkCols (chunkAt ids (computeChunkSize pkCols) i)

/-- The loop, with the rows that it collects. -/
def collectRows (T : Table) (queries : List KeyQuery) : List Row :=
  queries.foldl (fun dictRows q => dictRows ++ q.rows T) []

/-! ### The chunks -/

/-- The loop of offsets cuts the list as slicing it does. -/
theorem map_rangeUp (h : 0 < n) (ids : List (List Value)) (i : Nat) (hf : (ids.drop i).length ≤ f) :
    (rangeUp i ids.length n h).map (chunkAt ids n) = Python.slices n f (ids.drop i) := by
  induction f generalizing i with
  | zero =>
    rw [List.length_drop] at hf
    rw [rangeUp, if_neg (by omega)]
    rfl
  | succ f ih =>
    rw [rangeUp]
    split
    next hi =>
      have hdrop := List.drop_eq_getElem_cons hi
      have hrest : ((ids.drop i).drop n) = ids.drop (i + n) := List.drop_drop
      rw [List.map_cons, hdrop, Python.slices, ← hdrop, hrest, ih]
      · rfl
      · rw [List.length_drop] at hf ⊢
        omega
    next hi =>
      rw [List.drop_eq_nil_of_le (by omega)]
      rfl

theorem computeChunkSize_pos (h : 1 ≤ pkCols.length ∧ pkCols.length ≤ 999) :
    0 < computeChunkSize pkCols := by
  have hone : max 1 pkCols.length = pkCols.length := Nat.max_eq_right h.1
  have hdiv : 0 < 999 / pkCols.length := Nat.div_pos h.2 h.1
  rw [computeChunkSize, hone, sqliteHostParamLimit, maxChunkSize]
  omega

theorem computeChunkSize_mul_le (h : 1 ≤ pkCols.length) :
    computeChunkSize pkCols * pkCols.length ≤ 999 := by
  have hone : max 1 pkCols.length = pkCols.length := Nat.max_eq_right h
  rw [computeChunkSize, hone, sqliteHostParamLimit, maxChunkSize]
  calc min (999 / pkCols.length) 900 * pkCols.length
    _ ≤ 999 / pkCols.length * pkCols.length := Nat.mul_le_mul_right _ (Nat.min_le_left _ _)
    _ ≤ 999 := Nat.div_mul_le_self 999 pkCols.length

theorem chunkStarts_eq (h : 0 < n) (ids : List (List Value)) :
    ∃ starts, chunkStarts ids.length n = .ok starts ∧
      starts.map (chunkAt ids n) = Python.chunks n ids := by
  refine ⟨rangeUp 0 ids.length n h, dif_pos h, ?_⟩
  rw [map_rangeUp h ids 0 (Nat.le_of_eq (congrArg List.length List.drop_zero)), List.drop_zero]
  rfl

theorem mem_of_mem_slices (hc : c ∈ Python.slices n f l) : c.length ≤ n ∧ ∀ a ∈ c, a ∈ l := by
  induction f generalizing l with
  | zero => cases hc
  | succ f ih =>
    cases l with
    | nil => cases hc
    | cons a l =>
      rw [Python.slices, List.mem_cons] at hc
      rcases hc with rfl | hc
      · exact ⟨List.length_take_le _ _, fun a ha => List.mem_of_mem_take ha⟩
      · obtain ⟨hlength, hmem⟩ := ih hc
        exact ⟨hlength, fun a ha => List.mem_of_mem_drop (hmem a ha)⟩

/-! ### One query -/

/-- Keys with a value for each key column. -/
def Keys (pkCols : List String) (ids : List (List Value)) : Prop :=
  ∀ id ∈ ids, id.length = pkCols.length

instance (pkCols : List String) (ids : List (List Value)) : Decidable (Keys pkCols ids) :=
  inferInstanceAs (Decidable (∀ id ∈ ids, _))

/-- The row has the key. -/
def hasKey (S : Schema) (pkCols : List String) (id : List Value) (r : Row) : Bool :=
  S.matchesKey (pkCols.zip id) r

theorem length_flatten_keys (h : Keys pkCols chunk) :
    chunk.flatten.length = chunk.length * pkCols.length := by
  induction chunk with
  | nil => simp
  | cons id chunk ih =>
    rw [List.flatten_cons, List.length_append, h id List.mem_cons_self,
      ih fun k hk => h k (List.mem_cons_of_mem id hk), List.length_cons, Nat.succ_mul, Nat.add_comm]

/-- A query has a parameter for each placeholder. -/
theorem placeholders_keyQuery (h : Keys pkCols chunk) :
    (keyQuery pkCols chunk).args.length = chunk.length * pkCols.length ∧
      (keyQuery pkCols chunk).clause.placeholders = chunk.length * pkCols.length := by
  have hargs := length_flatten_keys h
  rw [keyQuery.eq_def]
  split
  next c =>
    exact ⟨hargs, (Nat.mul_one _).symm⟩
  next =>
    refine ⟨hargs, ?_⟩
    have hconst : (chunk.map fun _ => pkCols).map List.length =
        List.replicate chunk.length pkCols.length := by
      rw [List.map_map]
      exact List.map_const'
    rw [WhereClause.placeholders, hconst, List.sum_replicate_nat]

theorem anyHolds_keys (S : Schema) (r : Row) (h : Keys pkCols chunk) :
    WhereClause.anyHolds S r (chunk.map fun _ => pkCols) chunk.flatten =
      chunk.any fun id => hasKey S pkCols id r := by
  induction chunk with
  | nil => rfl
  | cons id chunk ih =>
    have hid := h id List.mem_cons_self
    rw [List.map_cons, WhereClause.anyHolds, List.flatten_cons, List.take_left' hid,
      List.drop_left' hid, ih fun k hk => h k (List.mem_cons_of_mem id hk), List.any_cons, hasKey]

theorem any_flatten_keys (p : Value → Bool) (q : List Value → Bool) (h : ∀ v, q [v] = p v)
    (hk : Keys [c] chunk) : chunk.flatten.any p = chunk.any q := by
  induction chunk with
  | nil => rfl
  | cons id chunk ih =>
    obtain ⟨v, rfl⟩ := List.length_eq_one_iff.1 (hk id List.mem_cons_self)
    rw [List.flatten_cons, List.any_append, List.any_cons, List.any_nil, Bool.or_false,
      List.any_cons, h, ih fun k hm => hk k (List.mem_cons_of_mem [v] hm)]

/-- A query selects the rows with the keys of its chunk. -/
theorem holds_keyQuery (S : Schema) (r : Row) (h : Keys pkCols chunk) :
    (keyQuery pkCols chunk).clause.holds S r (keyQuery pkCols chunk).args =
      chunk.any fun id => hasKey S pkCols id r := by
  have hlength := length_flatten_keys h
  rw [keyQuery.eq_def]
  split
  next c =>
    rw [List.length_singleton, Nat.mul_one] at hlength
    rw [WhereClause.holds, ← hlength, List.take_length]
    exact any_flatten_keys _ _ (fun v => rfl) h
  next => exact anyHolds_keys S r h

/-! ### The rows that are collected -/

theorem collectRows_eq (T : Table) (queries : List KeyQuery) :
    collectRows T queries = queries.flatMap (KeyQuery.rows T) := by
  have hgen (rows : List Row) : queries.foldl (fun dictRows q => dictRows ++ q.rows T) rows =
      rows ++ queries.flatMap (KeyQuery.rows T) := by
    induction queries generalizing rows with
    | nil => exact (List.append_nil rows).symm
    | cons q queries ih => rw [List.foldl_cons, ih, List.flatMap_cons, List.append_assoc]
  exact hgen []

/-- The rows with a key of the list, as dictionaries. -/
def rowsWithKeys (T : Table) (pkCols : List String) (ids : List (List Value)) : List Row :=
  (T.rows.filter fun r => ids.any fun id => hasKey T.schema pkCols id r).map fun r =>
    Row.build T.schema.names r.get

theorem rows_keyQuery (T : Table) (h : Keys pkCols chunk) :
    (keyQuery pkCols chunk).rows T = rowsWithKeys T pkCols chunk := by
  rw [KeyQuery.rows, rowsWithKeys]
  congr 1
  apply List.filter_congr
  intro r _
  exact holds_keyQuery T.schema r h

/-- No row has two keys of the list. -/
def Different (T : Table) (pkCols : List String) (ids : List (List Value)) : Prop :=
  ids.Pairwise fun id id' => ∀ r ∈ T.rows,
    ¬ (hasKey T.schema pkCols id r = true ∧ hasKey T.schema pkCols id' r = true)

instance (T : Table) (pkCols : List String) (ids : List (List Value)) :
    Decidable (Different T pkCols ids) :=
  inferInstanceAs (Decidable (ids.Pairwise _))

/-- With different keys, cutting the list makes no difference to the rows. -/
theorem rowsWithKeys_append (T : Table) (h : Different T pkCols (ids ++ ids')) :
    (rowsWithKeys T pkCols (ids ++ ids')).Perm
      (rowsWithKeys T pkCols ids ++ rowsWithKeys T pkCols ids') := by
  have hcross := (List.pairwise_append.1 h).2.2
  simp only [rowsWithKeys, List.any_append]
  rw [← List.map_append]
  apply List.Perm.map
  apply Grouping.filter_or_perm
  rintro r hr ⟨hl, hr'⟩
  obtain ⟨id, hid, hk⟩ := List.any_eq_true.1 hl
  obtain ⟨id', hid', hk'⟩ := List.any_eq_true.1 hr'
  exact hcross id hid id' hid' r hr ⟨hk, hk'⟩

theorem flatMap_rowsWithKeys (T : Table) (chunks : List (List (List Value)))
    (h : Different T pkCols chunks.flatten) :
    (chunks.flatMap (rowsWithKeys T pkCols)).Perm (rowsWithKeys T pkCols chunks.flatten) := by
  induction chunks with
  | nil =>
    have hnone : rowsWithKeys T pkCols [] = [] := by
      rw [rowsWithKeys, List.map_eq_nil_iff, List.filter_eq_nil_iff]
      exact fun _ _ => Bool.false_ne_true
    rw [List.flatten_nil, hnone, List.flatMap_nil]
  | cons chunk chunks ih =>
    have hrest := ih (List.pairwise_append.1 h).2.1
    exact (hrest.append_left _).trans (rowsWithKeys_append T h).symm

theorem mem_rowsWithKeys {T : Table} : row ∈ rowsWithKeys T pkCols ids ↔
    ∃ r ∈ T.rows, (∃ id ∈ ids, hasKey T.schema pkCols id r = true) ∧
      row = Row.build T.schema.names r.get := by
  simp only [rowsWithKeys, List.mem_map, List.mem_filter, List.any_eq_true]
  constructor
  · rintro ⟨r, ⟨hr, hid⟩, rfl⟩
    exact ⟨r, hr, hid, rfl⟩
  · rintro ⟨r, hr, hid, rfl⟩
    exact ⟨r, ⟨hr, hid⟩, rfl⟩

theorem keyQueries_eq (h : 0 < computeChunkSize pkCols) (ids : List (List Value)) :
    keyQueries pkCols ids =
      .ok ((Python.chunks (computeChunkSize pkCols) ids).map (keyQuery pkCols)) := by
  obtain ⟨starts, hstarts, hchunks⟩ := chunkStarts_eq h ids
  rw [keyQueries, hstarts, ← hchunks, List.map_map]
  rfl

theorem collectRows_chunks (T : Table) (hids : Keys pkCols ids) (n : Nat) :
    collectRows T ((Python.chunks n ids).map (keyQuery pkCols)) =
      (Python.chunks n ids).flatMap (rowsWithKeys T pkCols) := by
  rw [collectRows_eq, List.flatMap_map]
  apply List.flatMap_congr
  intro chunk hc
  exact rows_keyQuery T fun id hid => hids id ((mem_of_mem_slices hc).2 id hid)

/-- Where no query fails, these are the rows that the push goes on with. -/
theorem fetchDirty_eq {db : Database} (hT : db.find t = some T)
    (hfails : ∀ i, engine.fails (.fetch t i) = false) (hids : Keys pkCols ids)
    (hq : keyQueries pkCols ids = .ok queries) :
    fetchDirty engine (fun _ => db) t pkCols ids = .ok (collectRows T queries) := by
  have hpos : 0 < computeChunkSize pkCols := by
    by_contra hzero
    rw [keyQueries, chunkStarts, dif_neg hzero] at hq
    cases hq
  have hfetch : ∀ chunk ∈ (Python.chunks (computeChunkSize pkCols) ids).zipIdx,
      fetchChunk engine db t pkCols chunk = .ok (rowsWithKeys T pkCols chunk.1) := by
    intro chunk _
    rw [fetchChunk, hT]
    simp only [hfails, Bool.false_eq_true, if_false, selectKeys, hT, List.any_map]
    rfl
  rw [keyQueries_eq hpos] at hq
  cases hq
  have hfst : (Python.chunks (computeChunkSize pkCols) ids).zipIdx.map
      (fun chunk => rowsWithKeys T pkCols chunk.1) =
        (Python.chunks (computeChunkSize pkCols) ids).map (rowsWithKeys T pkCols) := by
    conv_rhs => rw [← List.zipIdx_map_fst 0 (Python.chunks (computeChunkSize pkCols) ids)]
    rw [List.map_map]
    rfl
  rw [collectRows_chunks T hids, fetchDirty, Python.mapM_eq_map hfetch, hfst, List.flatMap_def]
  rfl

/-- For at most 999 key columns the loop ends, its chunks are the list of keys in order, no query
binds more than 999 parameters, and the rows it collects are the rows with these keys, each of them
once where the keys are different. -/
theorem chunkLoop_exact (T : Table) (pkCols : List String) (ids : List (List Value))
    (hcols : 1 ≤ pkCols.length ∧ pkCols.length ≤ 999) (hids : Keys pkCols ids) :
    ∃ starts queries, chunkStarts ids.length (computeChunkSize pkCols) = .ok starts ∧
      keyQueries pkCols ids = .ok queries ∧
      queries = starts.map (fun i => keyQuery pkCols (chunkAt ids (computeChunkSize pkCols) i)) ∧
      (starts.map (chunkAt ids (computeChunkSize pkCols))).flatten = ids ∧
      (∀ q ∈ queries, q.args.length = q.clause.placeholders ∧ q.args.length ≤ 999) ∧
      (∀ row, row ∈ collectRows T queries ↔
        ∃ r ∈ T.rows, (∃ id ∈ ids, hasKey T.schema pkCols id r = true) ∧
          row = Row.build T.schema.names r.get) ∧
      (Different T pkCols ids → (collectRows T queries).Perm (rowsWithKeys T pkCols ids)) := by
  have hpos := computeChunkSize_pos hcols
  obtain ⟨starts, hstarts, hchunks⟩ := chunkStarts_eq hpos ids
  have hqueries : (Python.chunks (computeChunkSize pkCols) ids).map (keyQuery pkCols) =
      starts.map fun i => keyQuery pkCols (chunkAt ids (computeChunkSize pkCols) i) := by
    rw [← hchunks, List.map_map]
    rfl
  have hflat := Python.flatten_chunks hpos ids
  refine ⟨starts, _, hstarts, keyQueries_eq hpos ids, hqueries, ?_, ?_, ?_, ?_⟩
  · rw [hchunks, hflat]
  · intro q hq
    obtain ⟨chunk, hc, rfl⟩ := List.mem_map.1 hq
    obtain ⟨hlength, hmem⟩ := mem_of_mem_slices hc
    obtain ⟨hargs, hplaceholders⟩ := placeholders_keyQuery fun id hid => hids id (hmem id hid)
    rw [hargs, hplaceholders]
    exact ⟨rfl, (Nat.mul_le_mul_right _ hlength).trans (computeChunkSize_mul_le hcols.1)⟩
  · intro row
    rw [collectRows_chunks T hids, List.mem_flatMap]
    simp only [mem_rowsWithKeys]
    constructor
    · rintro ⟨chunk, hc, r, hr, ⟨id, hid, hk⟩, he⟩
      exact ⟨r, hr, ⟨id, (mem_of_mem_slices hc).2 id hid, hk⟩, he⟩
    · rintro ⟨r, hr, ⟨id, hid, hk⟩, he⟩
      obtain ⟨chunk, hc, hid⟩ := (Python.mem_chunks hpos).2 hid
      exact ⟨chunk, hc, r, hr, ⟨id, hid, hk⟩, he⟩
  · intro hdifferent
    have hperm := flatMap_rowsWithKeys T (Python.chunks (computeChunkSize pkCols) ids)
      (by rwa [hflat])
    rw [hflat] at hperm
    rw [collectRows_chunks T hids]
    exact hperm

def factKey : List String := ["ticker", "statement_type", "concept", "quarter"]

def factIds : List (List Value) :=
  [[.text "AAPL", .text "BS", .text "Assets", .text "2024-Q1"],
    [.text "AAPL", .text "IS", .text "Revenue", .text "2024-Q1"]]

def factTable : Table where
  schema := sfQuarterlyFacts.schema
  rows :=
    [[("ticker", .text "AAPL"), ("statement_type", .text "BS"), ("concept", .text "Assets"),
      ("quarter", .text "2024-Q1")]]

theorem chunkLoop_exact_facts :
    ∃ starts queries, chunkStarts 2 (computeChunkSize factKey) = .ok starts ∧
      keyQueries factKey factIds = .ok queries ∧
      (starts.map (chunkAt factIds (computeChunkSize factKey))).flatten = factIds ∧
      (∀ q ∈ queries, q.args.length ≤ 999) ∧
      (collectRows factTable queries).Perm (rowsWithKeys factTable factKey factIds) := by
  obtain ⟨starts, queries, hstarts, hqueries, -, hflat, hbound, -, hperm⟩ :=
    chunkLoop_exact factTable factKey factIds (by decide) (by decide)
  exact ⟨starts, queries, hstarts, hqueries, hflat, fun q hq => (hbound q hq).2,
    hperm (by decide +kernel)⟩

end Sync
