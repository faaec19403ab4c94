import AnythingTools.Relational.MergeKeyed
import AnythingTools.Relational.Order
import AnythingTools.Sync.DeltaPartition
import AnythingTools.Sync.FlushOutcome

namespace Sync
open Relational Schemas
set_option autoImplicit true

/-- `sanitize_snowflake_params`, which acts on each value. -/
def sanitizeSnowflakeParams (sanitize : Value → Value) (records : List Row) : List Row :=
  records.map fun r => r.map fun p => (p.1, sanitize p.2)

/-- The columns that the window orders by, and whether downwards. -/
def orderExpr (pkCols columns : List String) : List String × Bool :=
  if "updated_at" ∈ columns then (["updated_at"], true)
  else ((columns.filter fun c => decide (c ∉ pkCols)).take 3, false)

def lexLt (lt : Value → Value → Bool) : List String → Row → Row → Bool
  | [], _, _ => false
  | c :: cs, r, s => lt (r.get c) (s.get c) || (!lt (s.get c) (r.get c) && lexLt lt cs r s)

/-- The row comes before the other one in the window; `lt` is the order of the cloud. -/
def precedes (lt : Value → Value → Bool) (order : List String × Bool) (r s : Row) : Bool :=
  if order.2 = true then lexLt lt order.1 s r else lexLt lt order.1 r s

def samePartition (pkCols : List String) (r s : Row) : Bool :=
  pkCols.all fun c => decide (r.get c = s.get c)

/-- `QUALIFY ROW_NUMBER() OVER (PARTITION BY <pk> ORDER BY ...) = 1`; of rows that the order does
not tell apart the first one stays. -/
def qualify (lt : Value → Value → Bool) (pkCols columns : List String) (stage : List Row) :
    List Row :=
  let order := orderExpr pkCols columns
  (stage.zipIdx.filter fun p => !stage.zipIdx.any fun p' =>
    decide (p'.2 ≠ p.2) && samePartition pkCols p.1 p'.1 &&
      (precedes lt order p'.1 p.1 ||
        (!precedes lt order p.1 p'.1 && decide (p'.2 < p.2)))).map Prod.fst

/-- `merge_to_cloud` for any list of dictionaries: the last one of each key is staged. -/
def mergeDictRows (now : String) (sanitize : Value → Value) (lt : Value → Value → Bool)
    (pkCol : PkCol) (columns : List String) (C : Table) (dictRows : List Row) :
    Except Python.Error Table :=
  let rows := dedupedRecords pkCol (sanitizeSnowflakeParams sanitize dictRows)
  if rows = [] then .ok C
  -- no parameter for a column, no column to join on, nothing to set
  else if (∃ r ∈ rows, ∃ c ∈ columns, c ∉ r.columns) ∨ pkCol.cols = [] ∨
      ∀ c ∈ columns, c ∈ pkCol.cols then .error .database
  else raised (C.merge now pkCol.cols columns
    (qualify lt pkCol.cols columns (rows.map fun r => Row.build columns r.get)))

/-- Rows to be merged: with all columns, the key columns and another one among them, and a key
without NULL. -/
structure Complete (sanitize : Value → Value) (pkCol : PkCol) (columns : List String)
    (rows : List Row) : Prop where
  primaryKey : pkCol.cols ≠ []
  keyed : ∀ c ∈ pkCol.cols, c ∈ columns
  other : ∃ c ∈ columns, c ∉ pkCol.cols
  full : ∀ r ∈ rows, ∀ c ∈ columns, c ∈ r.columns
  nonNull : ∀ r ∈ rows, ∀ c ∈ pkCol.cols, sanitize (r.get c) ≠ .null

/-- The row is in the list, and no later one has its key. -/
def LastRow (pkCols : List String) (rows : List Row) (r : Row) : Prop :=
  ∃ front back, rows = front ++ r :: back ∧ ∀ a ∈ back, Row.sameKey pkCols r a = false

section
variable {sanitize : Value → Value} {pkCol : PkCol} {columns : List String}

theorem columns_sanitized (r : Row) :
    Row.columns (r.map fun p => (p.1, sanitize p.2)) = r.columns := by
  rw [Row.columns, Row.columns, List.map_map]
  rfl

theorem get_sanitized {r : Row} (h : c ∈ r.columns) :
    Row.get (r.map fun p => (p.1, sanitize p.2)) c = sanitize (r.get c) := by
  induction r with
  | nil => cases h
  | cons p r ih =>
    rw [List.map_cons, Row.get_cons, Row.get_cons]
    by_cases hc : c = p.1
    · rw [if_pos hc, if_pos hc]
    · rw [if_neg hc, if_neg hc]
      exact ih ((List.mem_cons.1 h).resolve_left hc)

theorem Complete.sanitized (h : Complete sanitize pkCol columns rows) :
    Complete id pkCol columns (sanitizeSnowflakeParams sanitize rows) where
  primaryKey := h.primaryKey
  keyed := h.keyed
  other := h.other
  full _ hs c hc := by
    obtain ⟨r, hr, rfl⟩ := List.mem_map.1 hs
    rw [columns_sanitized]
    exact h.full r hr c hc
  nonNull _ hs c hc := by
    obtain ⟨r, hr, rfl⟩ := List.mem_map.1 hs
    rw [get_sanitized (h.full r hr c (h.keyed c hc))]
    exact h.nonNull r hr c hc

variable {rows : List Row}

theorem Complete.sameKey_self (h : Complete id pkCol columns rows) (hr : r ∈ rows) :
    Row.sameKey pkCol.cols r r = true :=
  Row.sameKey_self (h.nonNull r hr)

/-- What the dictionary keeps is the last row of each key. -/
theorem Complete.mem_dedupedRecords (h : Complete id pkCol columns rows) :
    r ∈ dedupedRecords pkCol rows ↔ LastRow pkCol.cols rows r := by
  rw [mem_dedupedRecords_iff]
  refine exists_congr fun front => exists_congr fun back => and_congr_right fun he => ?_
  have hr : r ∈ rows := he ▸ List.mem_append_right front List.mem_cons_self
  exact forall_congr' fun a => imp_congr_right fun _ => distinct_iff (h.sameKey_self hr)

theorem LastRow.mem (h : LastRow pkCols rows r) : r ∈ rows := by
  obtain ⟨front, back, rfl, _⟩ := h
  exact List.mem_append_right front List.mem_cons_self

/-- Every row has a last one of its key. -/
theorem exists_lastRow (hself : ∀ r ∈ rows, Row.sameKey pkCols r r = true) (hr : r ∈ rows) :
    ∃ s, LastRow pkCols rows s ∧ Row.sameKey pkCols r s = true := by
  induction rows generalizing r with
  | nil => cases hr
  | cons a rows ih =>
    have ih {r} := ih (r := r) fun r hr => hself r (List.mem_cons_of_mem a hr)
    have hcons {s : Row} (h : LastRow pkCols rows s) : LastRow pkCols (a :: rows) s := by
      obtain ⟨front, back, rfl, hback⟩ := h
      exact ⟨a :: front, back, rfl, hback⟩
    rcases List.mem_cons.1 hr with rfl | hr
    · by_cases hex : ∃ b ∈ rows, Row.sameKey pkCols r b = true
      · obtain ⟨b, hb, hk⟩ := hex
        obtain ⟨s, hs, hbs⟩ := ih hb
        exact ⟨s, hcons hs, Row.sameKey_trans hk hbs⟩
      · refine ⟨r, ⟨[], rows, rfl, fun b hb => ?_⟩, hself r List.mem_cons_self⟩
        rw [← Bool.not_eq_true]
        exact fun hk => hex ⟨b, hb, hk⟩
    · obtain ⟨s, hs, hk⟩ := ih hr
      exact ⟨s, hcons hs, hk⟩

/-- The rows of the stage. -/
def stageRows (pkCol : PkCol) (columns : List String) (rows : List Row) : List Row :=
  (dedupedRecords pkCol rows).map fun r => Row.build columns r.get

theorem Complete.agree_build (h : Complete id pkCol columns rows) (r : Row) :
    Row.Agree pkCol.cols (Row.build columns r.get) r := by
  intro c hc
  rw [Row.get_build_of_mem (h.keyed c hc)]

theorem Complete.staged (h : Complete id pkCol columns rows) {S : Schema}
    (hn : ∀ c ∈ columns, c ∈ S.names) :
    Relational.Staged S pkCol.cols columns (stageRows pkCol columns rows) where
  keyed := h.keyed
  named := hn
  columns s hs := by
    obtain ⟨r, _, rfl⟩ := List.mem_map.1 hs
    exact Row.columns_build columns r.get
  apart := by
    rw [stageRows, List.pairwise_map]
    refine (distinct_dedupedRecords pkCol rows).imp_of_mem fun {a b} ha _ hd => ?_
    rw [Row.sameKey_agree (h.agree_build a), Row.sameKey_agree_right (h.agree_build b)]
    exact (distinct_iff (h.sameKey_self (Sync.mem_dedupedRecords ha))).1 hd

/-- The window finds one row in each partition, as the keys are all different. -/
theorem qualify_eq (lt : Value → Value → Bool) {stage : List Row} {S : Schema}
    (h : Relational.Staged S pkCols cols stage) (hself : ∀ s ∈ stage, Row.sameKey pkCols s s = true) :
    qualify lt pkCols cols stage = stage := by
  rw [qualify, List.filter_eq_self.2, List.zipIdx_map_fst]
  rintro ⟨r, i⟩ hr
  rw [Bool.not_eq_true', ← Bool.not_eq_true, List.any_eq_true]
  rintro ⟨⟨s, j⟩, hs, hand⟩
  rw [Bool.and_eq_true, Bool.and_eq_true, decide_eq_true_eq] at hand
  obtain ⟨⟨hij, hpart⟩, _⟩ := hand
  have hkey : Row.sameKey pkCols r s = true := by
    have hrr := Row.sameKey_iff.1 (hself r (List.fst_mem_of_mem_zipIdx hr))
    rw [samePartition, List.all_eq_true] at hpart
    exact Row.sameKey_iff.2 fun c hc => ⟨(hrr c hc).1, of_decide_eq_true (hpart c hc)⟩
  obtain ⟨hi, rfl⟩ := List.getElem?_eq_some_iff.1 (List.mk_mem_zipIdx_iff_getElem?.1 hr)
  obtain ⟨hj, rfl⟩ := List.getElem?_eq_some_iff.1 (List.mk_mem_zipIdx_iff_getElem?.1 hs)
  have hap := List.pairwise_iff_getElem.1 h.apart
  rcases Nat.lt_or_gt_of_ne hij with hlt | hgt
  · rw [Row.sameKey_comm, hap j i hj hi hlt] at hkey
    cases hkey
  · rw [hap i j hi hj hgt] at hkey
    cases hkey

/-- The merge of the staged rows, which only a NOT NULL column can refuse. -/
theorem mergeDictRows_eq (now : String) (lt : Value → Value → Bool)
    (h : Complete sanitize pkCol columns rows)
    (hn : ∀ c ∈ columns, c ∈ C.schema.names) :
    mergeDictRows now sanitize lt pkCol columns C rows =
      let src := stageRows pkCol columns (sanitizeSnowflakeParams sanitize rows)
      if src = [] then .ok C
      else if (C.mergeRows now pkCol.cols columns src).all C.schema.notNulls = true then
        .ok { C with rows := C.mergeRows now pkCol.cols columns src }
      else .error .database := by
  have hid := h.sanitized
  have hst := hid.staged hn
  have hself : ∀ s ∈ stageRows pkCol columns (sanitizeSnowflakeParams sanitize rows),
      Row.sameKey pkCol.cols s s = true := by
    intro s hs
    obtain ⟨r, hr, rfl⟩ := List.mem_map.1 hs
    rw [Row.sameKey_agree (hid.agree_build r), Row.sameKey_agree_right (hid.agree_build r)]
    exact hid.sameKey_self (Sync.mem_dedupedRecords hr)
  rw [mergeDictRows]
  dsimp only
  have hempty : stageRows pkCol columns (sanitizeSnowflakeParams sanitize rows) = [] ↔
      dedupedRecords pkCol (sanitizeSnowflakeParams sanitize rows) = [] := List.map_eq_nil_iff
  by_cases he : dedupedRecords pkCol (sanitizeSnowflakeParams sanitize rows) = []
  · rw [if_pos he, if_pos (hempty.2 he)]
  · have hok : ¬ ((∃ r ∈ dedupedRecords pkCol (sanitizeSnowflakeParams sanitize rows),
        ∃ c ∈ columns, c ∉ r.columns) ∨ pkCol.cols = [] ∨ ∀ c ∈ columns, c ∈ pkCol.cols) := by
      rintro (⟨r, hr, c, hc, hno⟩ | hnil | hall)
      · exact hno (hid.full r (Sync.mem_dedupedRecords hr) c hc)
      · exact h.primaryKey hnil
      · obtain ⟨c, hc, hno⟩ := h.other
        exact hno (hall c hc)
    rw [if_neg he, if_neg hok, if_neg fun hs => he (hempty.1 hs)]
    have hq := qualify_eq lt hst hself
    rw [stageRows] at hq hst ⊢
    rw [hq, hst.merge_eq now]
    split <;> rfl

/-- After the merge each key of the list has the values of its last row, in one row if the cloud
had none; the other rows are as they were, and the same merge again changes nothing. -/
theorem mergeDictRows_lastRow (now : String) (lt : Value → Value → Bool)
    (h : Complete sanitize pkCol columns rows) (hn : ∀ c ∈ columns, c ∈ C.schema.names)
    (hok : mergeDictRows now sanitize lt pkCol columns C rows = .ok C') :
    let rows' := sanitizeSnowflakeParams sanitize rows
    (∀ r, LastRow pkCol.cols rows' r →
      (∀ q ∈ C'.rows, Row.sameKey pkCol.cols r q = true → Row.Agree columns r q) ∧
      C'.rows.countP (Row.sameKey pkCol.cols r) =
        max 1 (C.rows.countP (Row.sameKey pkCol.cols r))) ∧
    C'.rows.filter (fun q => !rows'.any fun r => Row.sameKey pkCol.cols r q) =
      C.rows.filter (fun q => !rows'.any fun r => Row.sameKey pkCol.cols r q) ∧
    C'.schema = C.schema ∧
    ∀ now', mergeDictRows now' sanitize lt pkCol columns C' rows = .ok C' := by
  intro rows'
  have hid : Complete id pkCol columns rows' := h.sanitized
  have hst := hid.staged hn
  have hbuild (r : Row) := hid.agree_build r
  have hself : ∀ s ∈ stageRows pkCol columns rows', Row.sameKey pkCol.cols s s = true := by
    intro s hs
    obtain ⟨r, hr, rfl⟩ := List.mem_map.1 hs
    rw [Row.sameKey_agree (hbuild r), Row.sameKey_agree_right (hbuild r)]
    exact hid.sameKey_self (Sync.mem_dedupedRecords hr)
  have hlast (r : Row) (hr : LastRow pkCol.cols rows' r) :
      Row.build columns r.get ∈ stageRows pkCol columns rows' :=
    List.mem_map.2 ⟨r, hid.mem_dedupedRecords.2 hr, rfl⟩
  -- a row has the key of a staged row if it has that of a row of the list
  have hany (q : Row) : (rows'.any fun r => Row.sameKey pkCol.cols r q) =
      (stageRows pkCol columns rows').any fun s => Row.sameKey pkCol.cols s q := by
    rw [Bool.eq_iff_iff, List.any_eq_true, List.any_eq_true]
    constructor
    · rintro ⟨r, hr, hk⟩
      obtain ⟨s, hs, hrs⟩ := exists_lastRow (fun r hr => hid.sameKey_self hr) hr
      refine ⟨_, hlast s hs, ?_⟩
      rw [Row.sameKey_agree (hbuild s)]
      exact Row.sameKey_trans (Row.sameKey_symm hrs) hk
    · rintro ⟨s, hs, hk⟩
      obtain ⟨r, hr, rfl⟩ := List.mem_map.1 hs
      rw [Row.sameKey_agree (hbuild r)] at hk
      exact ⟨r, Sync.mem_dedupedRecords hr, hk⟩
  simp only [hany]
  have hrun := mergeDictRows_eq now lt h hn
  dsimp only at hrun
  rw [hok] at hrun
  by_cases he : stageRows pkCol columns rows' = []
  · rw [if_pos he] at hrun
    obtain rfl := Except.ok.inj hrun
    refine ⟨fun r hr => absurd (hlast r hr) (by rw [he]; exact List.not_mem_nil), rfl, rfl, ?_⟩
    intro now'
    rw [mergeDictRows_eq now' lt h hn]
    exact if_pos he
  · rw [if_neg he] at hrun
    split at hrun
    case isFalse => cases hrun
    case isTrue hnull =>
    obtain rfl := Except.ok.inj hrun
    refine ⟨fun r hr => ⟨fun q hq hk => ?_, ?_⟩, hst.filter_others hself, rfl, fun now' => ?_⟩
    · have hagree := hst.agree_of_sameKey (hlast r hr) hq (by
        rw [Row.sameKey_agree (hbuild r)]
        exact hk)
      intro c hc
      rw [← hagree c hc, Row.get_build_of_mem hc]
    · have hkey (q : Row) : Row.sameKey pkCol.cols (Row.build columns r.get) q =
          Row.sameKey pkCol.cols r q := Row.sameKey_agree (hbuild r) q
      have hcount := hst.countP_mergeRows (hlast r hr) (hself _ (hlast r hr)) now
      simpa only [funext hkey] using hcount
    · have hagain := mergeDictRows_eq (C := { C with
        rows := C.mergeRows now pkCol.cols columns (stageRows pkCol columns rows') }) now' lt h hn
      dsimp only at hagain
      rw [if_neg he, hst.mergeRows_again hself now', if_pos hnull] at hagain
      exact hagain

theorem Complete.deduped_eq (h : Complete id pkCol columns rows) :
    deduped pkCol.cols rows = dedupedRecords pkCol rows := by
  rw [deduped, dedupedRecords]
  refine List.foldl_ext _ _ _ fun acc r hr => ?_
  obtain ⟨key, hk, _, hn⟩ := (sameKey_iff_dedupKey pkCol r r).1 (h.sameKey_self hr)
  have hkey (a : Row) : Row.sameKey pkCol.cols r a = true ↔ dedupKey pkCol a = some key := by
    rw [sameKey_iff_dedupKey]
    constructor
    · rintro ⟨key', hk', ha, _⟩
      rw [ha, ← hk', hk]
    · exact fun ha => ⟨key, hk, ha, hn⟩
  have hany : acc.any (Row.sameKey pkCol.cols r) =
      acc.any fun a => decide (dedupKey pkCol a = some key) := by
    congr 1
    funext a
    rw [Bool.eq_iff_iff, hkey, decide_eq_true_eq]
  rw [dedupStep, hk]
  dsimp only
  rw [hany]
  simp only [hkey]

/-- Of fetched rows this is the merge of a push. -/
theorem mergeDictRows_eq_mergeToCloud (engine : CloudEngine) (lt : Value → Value → Bool)
    (h : Complete id pkCol columns rows) (hn : ∀ c ∈ columns, c ∈ C.schema.names)
    (hne : rows ≠ []) (hrows : ∀ r ∈ rows, Row.build columns r.get = r) :
    mergeDictRows engine.now id lt pkCol columns C rows =
      mergeToCloud engine pkCol.cols columns C rows := by
  have hsan : sanitizeSnowflakeParams id rows = rows :=
    (List.map_congr_left (g := fun r => r) fun r _ => List.map_id' r).trans (List.map_id' rows)
  have hst := h.staged hn
  have hstage : stageRows pkCol columns rows = dedupedRecords pkCol rows :=
    (List.map_congr_left (g := fun r => r) fun r hr =>
      hrows r (Sync.mem_dedupedRecords hr)).trans (List.map_id' _)
  have hnil : stageRows pkCol columns rows ≠ [] := by
    obtain ⟨r, hr⟩ := List.exists_mem_of_ne_nil rows hne
    obtain ⟨s, hs, _⟩ := exists_lastRow (fun r hr => h.sameKey_self hr) hr
    exact List.ne_nil_of_mem (List.mem_map_of_mem (h.mem_dedupedRecords.2 hs))
  have hrun := mergeDictRows_eq engine.now lt h hn
  dsimp only at hrun
  rw [hsan, if_neg hnil] at hrun
  rw [hrun, mergeToCloud, h.deduped_eq, ← hstage, hst.merge_eq]
  split <;> rfl

end

/-- Two rows for A, the later one with the older time stamp, next to a row for B. -/
theorem mergeDictRows_lastRow_tickers :
    ∃ C', mergeDictRows "2024-05-02 10:00:00" id sqlLt (.one "ticker")
        ["ticker", "content_hash", "updated_at"]
        { schema := sfTickers.schema, rows := [hashedTicker "B" "2" "2024"] }
        [hashedTicker "A" "1" "2025", hashedTicker "A" "3" "2024"] = .ok C' ∧
      ∀ q ∈ C'.rows, Row.sameKey ["ticker"] (hashedTicker "A" "3" "2024") q = true →
        q.get "content_hash" = .text "3" := by
  obtain ⟨C', hok⟩ : ∃ C', mergeDictRows "2024-05-02 10:00:00" id sqlLt (.one "ticker")
      ["ticker", "content_hash", "updated_at"]
      { schema := sfTickers.schema, rows := [hashedTicker "B" "2" "2024"] }
      [hashedTicker "A" "1" "2025", hashedTicker "A" "3" "2024"] = .ok C' := ⟨_, rfl⟩
  have hcomplete : Complete id (.one "ticker") ["ticker", "content_hash", "updated_at"]
      [hashedTicker "A" "1" "2025", hashedTicker "A" "3" "2024"] := by
    constructor <;> decide +kernel
  have h := mergeDictRows_lastRow "2024-05-02 10:00:00" sqlLt hcomplete (by decide) hok
  refine ⟨C', hok, fun q hq hk => ?_⟩
  have hlast : LastRow ["ticker"] (sanitizeSnowflakeParams id
      [hashedTicker "A" "1" "2025", hashedTicker "A" "3" "2024"]) (hashedTicker "A" "3" "2024") :=
    ⟨[hashedTicker "A" "1" "2025"], [], rfl, fun _ h => nomatch h⟩
  have hagree := (h.1 _ hlast).1 q hq hk
  rw [← hagree "content_hash" (by decide)]
  rfl

end Sync
