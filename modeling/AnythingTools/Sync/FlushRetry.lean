import AnythingTools.Sync.FlushGroup
import AnythingTools.Sync.MergeToCloud

namespace Sync
open Relational Relational.Database
set_option autoImplicit true

/-- `json.dumps` of the list that an embedding stands for, which reads back as the same vector. -/
structure VectorJson (engine : CloudEngine) where
  dumps : Value → String
  loads : ∀ v w, normalizeEmbedding engine v = some w → w ≠ .null →
    normalizeEmbedding engine (.text (dumps v)) = some w

/-- How an attempt to flush meets the cloud: no transaction is opened, or the connection is lost
in one. -/
inductive Contact where
  | reached
  | unreachable
  | lost
deriving DecidableEq, Repr

/-- A row for `dead_letter_queue` in the queue of the local writer. -/
structure DeadLetter where
  tableName : String
  rowId : String
  rowData : Row
  errorMessage : String
deriving DecidableEq, Repr

/-- The surroundings of a flush: the cloud at each attempt, the local queue, which drops a write
when it is full, and the texts of errors and hashes. -/
structure FlushEnv where
  engine : CloudEngine
  json : VectorJson engine
  contact : Nat → Contact := fun _ => .reached
  takes : Nat → Bool := fun _ => true
  digest : Row → String
  message : Option SqlError → String

/-- `row[c] = v`. -/
def setItem (r : Row) (c : String) (v : Value) : Row :=
  if c ∈ r.columns then r.set c v else r.add c v

/-- `_validate_and_normalize` writes the embedding of a valid row back into it. -/
def rewritten (json : VectorJson engine) (r : Row) : Row :=
  match normalizeEmbedding engine (r.get "embedding") with
  | none => r
  | some .null => setItem r "embedding" .null
  | some _ => setItem r "embedding" (.text (json.dumps (r.get "embedding")))

/-- What `records` is bound to when a statement has failed. -/
def handedOn (env : FlushEnv) (pkCol : PkCol) (records : List Row) : List Row :=
  if "embedding" ∈ columnsOf records then
    (dedupedRecords pkCol records).map (rewritten env.json)
  else dedupedRecords pkCol records

def isBytes : Value → Bool
  | .blob _ => true
  | _ => false

def safeRecord (r : Row) : Row := r.filter fun p => !isBytes p.2

def rowIdOf (env : FlushEnv) (r : Row) : String :=
  if "id" ∈ r.columns then Python.str (r.get "id")
  else if "rowid" ∈ r.columns then Python.str (r.get "rowid")
  else env.digest (safeRecord r)

/-- `_build_row_id`. -/
def buildRowId (env : FlushEnv) (pkCol : PkCol) (r : Row) : String :=
  match pkCol with
  | .one c => if c ∈ r.columns then Python.str (r.get c) else rowIdOf env r
  | .several cs =>
    if 1 < cs.length ∧ ∀ c ∈ cs, c ∈ r.columns then
      "|".intercalate (cs.map fun c => Python.str (r.get c))
    else rowIdOf env r

/-- `_route_failed_batch_to_dlq`; the data is stored as JSON. -/
def routeFailedBatch (env : FlushEnv) (k : BatchKey) (records : List Row)
    (error : Option SqlError) : List DeadLetter :=
  (records.zipIdx.filter fun p => env.takes p.2).map fun p =>
    { tableName := k.tableName
      rowId := buildRowId env k.pkCol p.1
      rowData := safeRecord p.1
      errorMessage := env.message error }

def flushAttempt (env : FlushEnv) (cloud : Database) (k : BatchKey) (depth : Nat)
    (records : List Row) : Except (Option SqlError) Database :=
  match env.contact depth with
  | .reached => (flushGroup env.engine cloud (k, records)).mapError some
  | _ => .error none

def rebound (env : FlushEnv) (k : BatchKey) (depth : Nat) (records : List Row) : List Row :=
  match env.contact depth, k.operation with
  | .unreachable, _ => records
  | _, .delete => records
  | _, .upsert => handedOn env k.pkCol records

structure Flushed where
  cloud : Database
  dlq : List DeadLetter := []

def flushFrom (env : FlushEnv) (cloud : Database) (k : BatchKey) :
    (retries depth : Nat) → List Row → Flushed
  | 0, depth, records =>
    match flushAttempt env cloud k depth records with
    | .ok cloud' => { cloud := cloud' }
    | .error e => { cloud, dlq := routeFailedBatch env k (rebound env k depth records) e }
  | retries + 1, depth, records =>
    match flushAttempt env cloud k depth records with
    | .ok cloud' => { cloud := cloud' }
    | .error _ => flushFrom env cloud k retries (depth + 1) (rebound env k depth records)

def retryLimit : Nat := 1

/-- `_flush_batch` for one group. -/
def flushBatch (env : FlushEnv) (cloud : Database) (k : BatchKey) (records : List Row) : Flushed :=
  flushFrom env cloud k retryLimit 0 records

/-- The records that an attempt is given when those before it have failed. -/
def recordsAt (env : FlushEnv) (k : BatchKey) (records : List Row) : Nat → List Row
  | 0 => records
  | d + 1 => rebound env k d (recordsAt env k records d)

/-- The attempt goes through if it comes to it. -/
def Passes (env : FlushEnv) (cloud : Database) (k : BatchKey) (records : List Row) (d : Nat) :
    Prop :=
  ∃ cloud', flushAttempt env cloud k d (recordsAt env k records d) = .ok cloud'

/-- What a cell of a record stands for in the cloud, an invalid embedding for nothing. -/
def wanted (engine : CloudEngine) (r : Row) (c : String) : Option Value :=
  if c = "embedding" then normalizeEmbedding engine (r.get c) else some (r.get c)

/-- A row of the cloud with the key of the record holds every pair of it. -/
def Merged (engine : CloudEngine) (cloud : Database) (k : BatchKey) (r : Row) : Prop :=
  ∃ q ∈ cloud.rows k.tableName, Row.sameKey k.pkCol.cols r q = true ∧
    ∀ c ∈ r.columns, c ∈ (schemaOf cloud k.tableName).names ∧ wanted engine r c = some (q.get c)

/-- The rows that the merge of a record writes to: those of its key, or a new one, which has the
defaults. -/
def targets (engine : CloudEngine) (cloud : Database) (k : BatchKey) (r : Row) : List Row :=
  if (cloud.rows k.tableName).any (Row.sameKey k.pkCol.cols r) = true then
    (cloud.rows k.tableName).filter (Row.sameKey k.pkCol.cols r)
  else [(schemaOf cloud k.tableName).fill engine.now []]

/-- The columns of a statement are enough for a record: each of its keys is one of them, or the
row in the cloud has the value anyway. -/
def Carries (engine : CloudEngine) (cloud : Database) (k : BatchKey) (cols : List String)
    (r : Row) : Prop :=
  ∃ q ∈ targets engine cloud k r, ∀ c ∈ r.columns,
    if c ∈ cols then (wanted engine r c).isSome = true
    else c ∈ (schemaOf cloud k.tableName).names ∧ wanted engine r c = some (q.get c)

/-- A record as it is handed on: only its embedding is written in another way. -/
structure Alike (engine : CloudEngine) (r r' : Row) : Prop where
  columns : ∀ c ∈ r.columns, c ∈ r'.columns
  get : ∀ c, c ≠ "embedding" → r'.get c = r.get c
  embedding : normalizeEmbedding engine (r'.get "embedding") =
    normalizeEmbedding engine (r.get "embedding")

section
variable {engine : CloudEngine} {cloud cloud' : Database} {k : BatchKey} {records : List Row}
  {cols : List String}

theorem Alike.wanted (h : Alike engine r r') (c : String) :
    wanted engine r' c = wanted engine r c := by
  rw [Sync.wanted, Sync.wanted]
  split
  next hc => rw [hc, h.embedding]
  next hc => rw [h.get c hc]

theorem Alike.agree (h : Alike engine r r') (hkey : "embedding" ∉ key) : Row.Agree key r' r :=
  fun c hc => h.get c fun he => hkey (he ▸ hc)

/-- A staged record holds what its pairs stand for. -/
theorem wanted_staged (h : stagedRow engine cols r = some s) (hc : c ∈ cols) :
    wanted engine r c = some (s.get c) := by
  rw [stagedRow] at h
  rw [wanted]
  split at h
  · obtain ⟨v, hv, rfl⟩ := Option.map_eq_some_iff.1 h
    rw [Row.get_build_of_mem hc]
    split
    next he => rw [he, hv]
    next => rfl
  next hemb =>
    cases h
    have hne : c ≠ "embedding" := fun he => hemb (he ▸ hc)
    rw [Row.get_build_of_mem hc, if_neg hne]

/-- A record that is not staged has an embedding that stands for nothing. -/
theorem wanted_not_staged (h : stagedRow engine cols r = none) :
    "embedding" ∈ cols ∧ wanted engine r "embedding" = none := by
  rw [stagedRow] at h
  split at h
  next hemb => exact ⟨hemb, Option.map_eq_none_iff.1 h⟩
  next => cases h

/-- A record with such an embedding is not merged by a statement that has the column. -/
theorem merged_iff_of_invalid (hcol : "embedding" ∈ cols)
    (hw : wanted engine r "embedding" = none) :
    Merged engine cloud' k r ↔ Carries engine cloud k cols r := by
  have hpair : "embedding" ∈ r.columns := by
    by_contra hno
    rw [wanted, if_pos rfl, Row.get_of_not_mem hno] at hw
    cases hw
  apply iff_of_false
  · rintro ⟨q, _, _, hpairs⟩
    have hq := (hpairs _ hpair).2
    rw [hw] at hq
    cases hq
  · rintro ⟨q, _, hpairs⟩
    have hq := hpairs _ hpair
    rw [if_pos hcol, hw] at hq
    cases hq

/-- What a successful flush has made of the table. -/
theorem flushUpsert_staged
    (h : flushUpsert engine cloud k.tableName k.pkCol cols (dedupedRecords k.pkCol records) =
      .ok cloud')
    (hs : (dedupedRecords k.pkCol records).filterMap (stagedRow engine cols) ≠ []) :
    ∃ C : Table, cloud.find k.tableName = some C ∧
      "embedding" ∉ k.pkCol.cols ∧
      Relational.Staged C.schema k.pkCol.cols cols
        ((dedupedRecords k.pkCol records).filterMap (stagedRow engine cols)) ∧
      schemaOf cloud' k.tableName = C.schema ∧
      cloud'.rows k.tableName = C.mergeRows engine.now k.pkCol.cols cols
        ((dedupedRecords k.pkCol records).filterMap (stagedRow engine cols)) := by
  have hF := flushUpsert_fitting h hs
  obtain ⟨C, C', bs, hC, rfl, hemb, hkey, hflat, hm⟩ := flushUpsert_ok h hs
  rw [schemaOf_find hC] at hF
  have hcols : ∀ s ∈ bs.flatten, s.columns = cols := by
    rw [hflat]
    intro s hmem
    obtain ⟨r, _, hr⟩ := List.mem_filterMap.1 hmem
    exact columns_staged hr
  have hfit : ∀ s ∈ bs.flatten, Fits C.schema k.pkCol.cols s := by
    rw [hflat]
    intro s hmem
    obtain ⟨r, _, hr⟩ := List.mem_filterMap.1 hmem
    exact hF.1 r s hr
  have hsrc := pairwise_staged hF (distinct_dedupedRecords k.pkCol records)
  rw [← hflat] at hsrc hs
  obtain ⟨s, hsmem⟩ := List.exists_mem_of_ne_nil _ hs
  obtain ⟨hS, hrows⟩ := mergeAll_eq hm hsrc hfit hcols
  rw [← hflat]
  refine ⟨C, hC, hemb, ⟨hkey, ?_, hcols, hsrc⟩, ?_, ?_⟩
  · exact fun c hc => (hfit s hsmem).named c (hcols s hsmem ▸ hc)
  · rw [schemaOf, find_update_self, hC, Option.map_some, Option.map_some, Option.getD_some, hS]
  · rw [rows_set hC, hrows, mergeRows_eq hsrc hfit hcols]

theorem get_overwrite {S : Schema} (hkey : Row.sameKey key s q = true) (hc : c ∈ S.names) :
    (S.overwrite key cols q s).get c = if c ∈ cols then s.get c else q.get c := by
  rw [Schema.overwrite, Row.get_build_of_mem hc]
  by_cases hcols : c ∈ cols
  · by_cases hk : c ∈ key
    · rw [if_neg fun h => h.2 hk, if_pos hcols, (Row.sameKey_iff.1 hkey c hk).2]
    · rw [if_pos ⟨hcols, hk⟩, if_pos hcols]
  · rw [if_neg fun h => hcols h.1, if_neg hcols]

theorem get_fill {S : Schema} (now : String) (hs : s.columns = cols) (hc : c ∈ S.names) :
    (S.fill now s).get c = if c ∈ cols then s.get c else (S.fill now []).get c := by
  have hnil : c ∉ Row.columns [] := List.not_mem_nil
  rw [Schema.fill, Schema.fill, Row.get_build_of_mem hc, Row.get_build_of_mem hc]
  cases hcol : S.column? c with
  | none =>
    obtain ⟨d, hd, he⟩ := List.mem_map.1 hc
    have hnone := List.find?_eq_none.1 hcol d hd
    rw [he] at hnone
    simp at hnone
  | some d =>
    dsimp only
    rw [hs, if_neg hnil]

/-- A row that a record is merged into holds its pairs when the row held those before that are
no columns of the statement. -/
theorem pairs_iff {names : List String} {s q q₀ : Row}
    (hw : ∀ c ∈ cols, wanted engine r c = some (s.get c)) (hn : ∀ c ∈ cols, c ∈ names)
    (hq : ∀ c ∈ names, q.get c = if c ∈ cols then s.get c else q₀.get c) :
    (∀ c ∈ r.columns, c ∈ names ∧ wanted engine r c = some (q.get c)) ↔
      ∀ c ∈ r.columns, if c ∈ cols then (wanted engine r c).isSome = true
        else c ∈ names ∧ wanted engine r c = some (q₀.get c) := by
  refine forall_congr' fun c => imp_congr_right fun _ => ?_
  by_cases hc : c ∈ cols
  · have hqc := hq c (hn c hc)
    rw [if_pos hc] at hqc
    rw [if_pos hc, hw c hc, hqc, Option.isSome_some]
    exact iff_of_true ⟨hn c hc, rfl⟩ rfl
  · rw [if_neg hc]
    refine and_congr_right fun hname => ?_
    rw [hq c hname, if_neg hc]

theorem flushUpsert_of_group (hk : k.operation = .upsert)
    (h : flushGroup engine cloud (k, records) = .ok cloud')
    (hmem : r ∈ dedupedRecords k.pkCol records) :
    flushUpsert engine cloud k.tableName k.pkCol (columnsOf records)
      (dedupedRecords k.pkCol records) = .ok cloud' := by
  rw [flushGroup] at h
  dsimp only at h
  rw [hk] at h
  cases records with
  | nil => cases hmem
  | cons a rest => exact h

/-- After an attempt that goes through, the last record of a key is merged exactly when the columns
of the statement were enough for it. -/
theorem merged_iff (hk : k.operation = .upsert)
    (h : flushGroup engine cloud (k, records) = .ok cloud')
    (hr : LastRow k.pkCol.cols records r') (hself : Row.sameKey k.pkCol.cols r' r' = true)
    (halike : Alike engine r r') :
    Merged engine cloud' k r ↔ Carries engine cloud k (columnsOf records) r := by
  have hmem : r' ∈ dedupedRecords k.pkCol records := by
    obtain ⟨front, back, he, hback⟩ := hr
    exact mem_dedupedRecords_iff.2
      ⟨front, back, he, fun b hb => (distinct_iff hself).2 (hback b hb)⟩
  have hflush := flushUpsert_of_group hk h hmem
  cases hs : stagedRow engine (columnsOf records) r' with
  | none =>
    obtain ⟨hcol, hw⟩ := wanted_not_staged hs
    rw [halike.wanted] at hw
    exact merged_iff_of_invalid hcol hw
  | some s =>
    have hsrc : s ∈ (dedupedRecords k.pkCol records).filterMap
        (stagedRow engine (columnsOf records)) := List.mem_filterMap.2 ⟨r', hmem, hs⟩
    obtain ⟨C, hC, hemb, hstaged, hS', hrows⟩ :=
      flushUpsert_staged hflush (List.ne_nil_of_mem hsrc)
    have hw : ∀ c ∈ columnsOf records, wanted engine r c = some (s.get c) := by
      intro c hc
      rw [← halike.wanted]
      exact wanted_staged hs hc
    have hagree : Row.Agree k.pkCol.cols r s := by
      intro c hc
      have hne : c ≠ "embedding" := fun he => hemb (he ▸ hc)
      have hv := hw c (hstaged.keyed c hc)
      rw [wanted, if_neg hne] at hv
      exact Option.some.inj hv
    have hkey : Row.sameKey k.pkCol.cols r = Row.sameKey k.pkCol.cols s :=
      funext fun q => Row.sameKey_agree hagree q
    have hsame : Row.sameKey k.pkCol.cols s s = true := by
      have hrr' := (halike.agree hemb).symm.trans (.refl _ r')
      rw [← Row.sameKey_agree hagree, ← Row.sameKey_agree_right hagree, Row.sameKey_agree hrr',
        Row.sameKey_agree_right hrr']
      exact hself
    have hcols := hstaged.columns s hsrc
    simp only [Merged, Carries, targets, hS', hrows, schemaOf_find hC, rows_of_find hC, hkey]
    constructor
    · rintro ⟨q, hq, hqk, hpairs⟩
      rcases (hstaged.mem_mergeRows_key hsrc hsame engine.now).1 ⟨hq, hqk⟩ with
        ⟨q₀, hq₀, hk₀, rfl⟩ | ⟨hnew, rfl⟩
      · have hany : C.rows.any (Row.sameKey k.pkCol.cols s) = true :=
          List.any_eq_true.2 ⟨q₀, hq₀, hk₀⟩
        rw [if_pos hany]
        refine ⟨q₀, List.mem_filter.2 ⟨hq₀, hk₀⟩, ?_⟩
        exact (pairs_iff hw hstaged.named fun c hc => get_overwrite hk₀ hc).1 hpairs
      · have hany : ¬ C.rows.any (Row.sameKey k.pkCol.cols s) = true := by
          rw [List.any_eq_true]
          rintro ⟨q₀, hq₀, hk₀⟩
          rw [hnew q₀ hq₀] at hk₀
          cases hk₀
        rw [if_neg hany]
        refine ⟨_, List.mem_singleton_self _, ?_⟩
        exact (pairs_iff hw hstaged.named fun c hc => get_fill _ hcols hc).1 hpairs
    · rintro ⟨q₀, hq₀, hpairs⟩
      by_cases hany : C.rows.any (Row.sameKey k.pkCol.cols s) = true
      · rw [if_pos hany] at hq₀
        obtain ⟨hq₀, hk₀⟩ := List.mem_filter.1 hq₀
        obtain ⟨hq, hqk⟩ := (hstaged.mem_mergeRows_key hsrc hsame engine.now).2
          (.inl ⟨q₀, hq₀, hk₀, rfl⟩)
        refine ⟨_, hq, hqk, ?_⟩
        exact (pairs_iff hw hstaged.named fun c hc => get_overwrite hk₀ hc).2 hpairs
      · rw [if_neg hany] at hq₀
        rw [List.mem_singleton.1 hq₀] at hpairs
        rw [Bool.not_eq_true, List.any_eq_false] at hany
        obtain ⟨hq, hqk⟩ := (hstaged.mem_mergeRows_key hsrc hsame engine.now).2
          (.inr ⟨fun q hq => Bool.eq_false_iff.2 (hany q hq), rfl⟩)
        refine ⟨_, hq, hqk, ?_⟩
        exact (pairs_iff hw hstaged.named fun c hc => get_fill _ hcols hc).2 hpairs

theorem columns_setItem (r : Row) (c : String) (v : Value) (h : d ∈ r.columns) :
    d ∈ (setItem r c v).columns := by
  rw [setItem]
  split
  · rw [Row.columns_set]
    exact h
  · rw [Row.add, Row.columns, List.map_append, List.mem_append]
    exact .inl h

theorem get_setItem_ne (r : Row) (v : Value) (h : d ≠ c) : (setItem r c v).get d = r.get d := by
  rw [setItem]
  split
  · exact Row.get_set_ne r v h
  · exact Row.get_add_ne r v h

theorem get_setItem_self (r : Row) (c : String) (v : Value) : (setItem r c v).get c = v := by
  rw [setItem]
  split
  next h => exact Row.get_set_self r v h
  next h =>
    induction r with
    | nil => rw [Row.add, List.nil_append, Row.get_cons, if_pos rfl]
    | cons p r ih =>
      rw [Row.columns, List.map_cons, List.mem_cons, not_or] at h
      rw [Row.add, List.cons_append, Row.get_cons, if_neg h.1]
      exact ih h.2

theorem Alike.refl (engine : CloudEngine) (r : Row) : Alike engine r r :=
  ⟨fun _ hc => hc, fun _ _ => rfl, rfl⟩

theorem Alike.trans (h : Alike engine r r') (h' : Alike engine r' r'') : Alike engine r r'' where
  columns c hc := h'.columns c (h.columns c hc)
  get c hc := (h'.get c hc).trans (h.get c hc)
  embedding := h'.embedding.trans h.embedding

theorem alike_setItem (h : normalizeEmbedding engine v = normalizeEmbedding engine (r.get "embedding")) :
    Alike engine r (setItem r "embedding" v) where
  columns _ hc := columns_setItem r _ v hc
  get _ hc := get_setItem_ne r v hc
  embedding := by rw [get_setItem_self, h]

theorem alike_rewritten (json : VectorJson engine) (r : Row) :
    Alike engine r (rewritten json r) := by
  rw [rewritten]
  split
  · exact .refl engine r
  next h => exact alike_setItem (h.symm ▸ rfl)
  next v hv h =>
    apply alike_setItem
    rw [h]
    exact json.loads _ v h hv

end

section
variable {env : FlushEnv} {cloud : Database} {k : BatchKey} {records : List Row}

/-- The last record of a key is handed on as one like it, which is again the last one. -/
theorem LastRow.handedOn (env : FlushEnv) (h : LastRow k.pkCol.cols records r)
    (hself : Row.sameKey k.pkCol.cols r r = true) (hemb : "embedding" ∉ k.pkCol.cols) :
    ∃ r', LastRow k.pkCol.cols (handedOn env k.pkCol records) r' ∧ Alike env.engine r r' := by
  obtain ⟨front, back, he, hback⟩ := h
  have hmem : r ∈ dedupedRecords k.pkCol records := mem_dedupedRecords_iff.2
    ⟨front, back, he, fun b hb => (distinct_iff hself).2 (hback b hb)⟩
  obtain ⟨first, rest, hsplit⟩ := List.append_of_mem hmem
  have hapart := distinct_dedupedRecords k.pkCol records
  rw [hsplit, List.pairwise_append] at hapart
  have hrest (a : Row) (ha : a ∈ rest) : Row.sameKey k.pkCol.cols r a = false :=
    (distinct_iff hself).1 ((List.pairwise_cons.1 hapart.2.1).1 a ha)
  rw [Sync.handedOn]
  split
  · refine ⟨rewritten env.json r, ⟨first.map (rewritten env.json),
      rest.map (rewritten env.json), ?_, ?_⟩, alike_rewritten env.json r⟩
    · rw [hsplit, List.map_append, List.map_cons]
    · intro b hb
      obtain ⟨a, ha, rfl⟩ := List.mem_map.1 hb
      rw [Row.sameKey_agree ((alike_rewritten env.json r).agree hemb),
        Row.sameKey_agree_right ((alike_rewritten env.json a).agree hemb)]
      exact hrest a ha
  · exact ⟨r, ⟨first, rest, hsplit, hrest⟩, .refl _ r⟩

theorem LastRow.recordsAt (env : FlushEnv) (h : LastRow k.pkCol.cols records r)
    (hself : Row.sameKey k.pkCol.cols r r = true) (hemb : "embedding" ∉ k.pkCol.cols) (d : Nat) :
    ∃ r', LastRow k.pkCol.cols (recordsAt env k records d) r' ∧
      Row.sameKey k.pkCol.cols r' r' = true ∧ Alike env.engine r r' := by
  induction d with
  | zero => exact ⟨r, h, hself, .refl _ r⟩
  | succ d ih =>
    obtain ⟨r₁, hlast, hself₁, halike⟩ := ih
    rw [Sync.recordsAt, rebound]
    split
    · exact ⟨r₁, hlast, hself₁, halike⟩
    · exact ⟨r₁, hlast, hself₁, halike⟩
    · obtain ⟨r₂, hlast₂, halike₂⟩ := hlast.handedOn env hself₁ hemb
      refine ⟨r₂, hlast₂, ?_, halike.trans halike₂⟩
      rw [Row.sameKey_agree (halike₂.agree hemb), Row.sameKey_agree_right (halike₂.agree hemb)]
      exact hself₁

theorem not_passes_succ (hbefore : ∀ d' < d, ¬ Passes env cloud k records d')
    (h : flushAttempt env cloud k d (recordsAt env k records d) = .error e) :
    ∀ d' < d + 1, ¬ Passes env cloud k records d' := by
  intro d' hd'
  rcases Nat.lt_or_eq_of_le (Nat.le_of_lt_succ hd') with hlt | rfl
  · exact hbefore d' hlt
  · rintro ⟨cloud', hok⟩
    rw [h] at hok
    cases hok

/-- How a flush ends: with the first attempt that goes through, or in the dead letter queue. -/
theorem flushFrom_cases (env : FlushEnv) (cloud : Database) (records : List Row) (n : Nat)
    (hbefore : ∀ d' < d, ¬ Passes env cloud k records d') :
    (∃ e cloud', e ≤ d + n ∧ (∀ d' < e, ¬ Passes env cloud k records d') ∧
      flushAttempt env cloud k e (recordsAt env k records e) = .ok cloud' ∧
      flushFrom env cloud k n d (recordsAt env k records d) = { cloud := cloud' }) ∨
    (∀ e ≤ d + n, ¬ Passes env cloud k records e) ∧
      ∃ error, flushFrom env cloud k n d (recordsAt env k records d) =
        { cloud, dlq := routeFailedBatch env k (recordsAt env k records (d + n + 1)) error } := by
  induction n generalizing d with
  | zero =>
    cases h : flushAttempt env cloud k d (recordsAt env k records d) with
    | ok cloud' => exact .inl ⟨d, cloud', Nat.le_refl d, hbefore, h, by rw [flushFrom, h]⟩
    | error e =>
      have hnone := not_passes_succ hbefore h
      refine .inr ⟨fun d' hd' => hnone d' (Nat.lt_succ_of_le hd'), e, ?_⟩
      rw [flushFrom, h]
      rfl
  | succ n ih =>
    cases h : flushAttempt env cloud k d (recordsAt env k records d) with
    | ok cloud' => exact .inl ⟨d, cloud', by omega, hbefore, h, by rw [flushFrom, h]⟩
    | error e =>
      have hrest := ih (not_passes_succ hbefore h)
      have hstep : flushFrom env cloud k (n + 1) d (recordsAt env k records d) =
          flushFrom env cloud k n (d + 1) (recordsAt env k records (d + 1)) := by
        rw [flushFrom, h]
        rfl
      have hsum : d + 1 + n = d + (n + 1) := by omega
      rw [hsum] at hrest
      rw [hstep]
      exact hrest

/-- A dead letter of the table with all cells of the record; bytes are left out, and the embedding
may be written as its text. -/
def Recorded (k : BatchKey) (r : Row) (e : DeadLetter) : Prop :=
  e.tableName = k.tableName ∧ ∀ c ∈ r.columns, c ≠ "embedding" → isBytes (r.get c) = false →
    c ∈ e.rowData.columns ∧ e.rowData.get c = r.get c

/-- Every pair of the record is in its cloud row, or the record is in the dead letter queue. -/
def Settled (engine : CloudEngine) (k : BatchKey) (out : Flushed) (r : Row) : Prop :=
  Merged engine out.cloud k r ∨ ∃ e ∈ out.dlq, Recorded k r e

/-- The last record of a key that is not NULL. -/
def LastOf (k : BatchKey) (records : List Row) (r : Row) : Prop :=
  LastRow k.pkCol.cols records r ∧ Row.sameKey k.pkCol.cols r r = true

/-- The queue of the local writer takes a record that is handed over with all cells of this one. -/
def Taken (env : FlushEnv) (handed : List Row) (r : Row) : Prop :=
  ∃ p ∈ handed.zipIdx, env.takes p.2 = true ∧
    ∀ c ∈ r.columns, c ≠ "embedding" → isBytes (r.get c) = false →
      c ∈ (safeRecord p.1).columns ∧ (safeRecord p.1).get c = r.get c

/-- The columns of the statement that goes through are enough for the last records; when none goes
through, the local queue has room for them. -/
structure Suffices (env : FlushEnv) (cloud : Database) (k : BatchKey) (records : List Row) :
    Prop where
  columns : ∀ d ≤ retryLimit, Passes env cloud k records d →
    (∀ d' < d, ¬ Passes env cloud k records d') →
      ∀ r, LastOf k records r →
        Carries env.engine cloud k (columnsOf (recordsAt env k records d)) r
  room : (∀ d ≤ retryLimit, ¬ Passes env cloud k records d) → ∀ r, LastOf k records r →
    Merged env.engine cloud k r ∨ Taken env (recordsAt env k records (retryLimit + 1)) r

theorem recorded_iff (env : FlushEnv) (k : BatchKey) (handed : List Row) (error : Option SqlError)
    (r : Row) : (∃ e ∈ routeFailedBatch env k handed error, Recorded k r e) ↔
      Taken env handed r := by
  rw [routeFailedBatch]
  simp only [List.mem_map, List.mem_filter, Taken]
  constructor
  · rintro ⟨e, ⟨p, ⟨hp, ht⟩, rfl⟩, -, hcells⟩
    exact ⟨p, hp, ht, hcells⟩
  · rintro ⟨p, hp, ht, hcells⟩
    exact ⟨_, ⟨p, ⟨hp, ht⟩, rfl⟩, rfl, hcells⟩

/-- Where the embedding is a key, a flush that goes through has staged no record, since the records
left have embeddings like those of the others. -/
theorem LastRow.embedding_key (env : FlushEnv) (h : LastRow k.pkCol.cols records r)
    (hself : Row.sameKey k.pkCol.cols r r = true) (hemb : "embedding" ∈ k.pkCol.cols) (d : Nat) :
    ∃ r' ∈ dedupedRecords k.pkCol (Sync.recordsAt env k records d),
      normalizeEmbedding env.engine (r'.get "embedding") =
        normalizeEmbedding env.engine (r.get "embedding") := by
  induction d with
  | zero =>
    obtain ⟨front, back, he, hback⟩ := h
    exact ⟨r, mem_dedupedRecords_iff.2
      ⟨front, back, he, fun b hb => (distinct_iff hself).2 (hback b hb)⟩, rfl⟩
  | succ d ih =>
    obtain ⟨r₁, hmem, he⟩ := ih
    rw [Sync.recordsAt, rebound]
    split
    · exact ⟨r₁, hmem, he⟩
    · exact ⟨r₁, hmem, he⟩
    · obtain ⟨r₂, hmem₂, he₂⟩ : ∃ r₂ ∈ Sync.handedOn env k.pkCol (Sync.recordsAt env k records d),
          normalizeEmbedding env.engine (r₂.get "embedding") =
            normalizeEmbedding env.engine (r₁.get "embedding") := by
        rw [Sync.handedOn]
        split
        · exact ⟨_, List.mem_map_of_mem hmem, (alike_rewritten env.json r₁).embedding⟩
        · exact ⟨r₁, hmem, rfl⟩
      obtain ⟨a, ha, hor⟩ := exists_dedupedRecords k.pkCol hmem₂
      refine ⟨a, ha, ?_⟩
      rcases hor with rfl | hkey
      · exact he₂.trans he
      · rw [get_of_dedupKey hkey hemb]
        exact he₂.trans he

/-- The last records are merged by the first attempt that goes through exactly when its columns are
enough for them. -/
theorem merged_iff_carries (hk : k.operation = .upsert)
    (h : flushAttempt env cloud k d (recordsAt env k records d) = .ok cloud')
    (hr : LastOf k records r) : Merged env.engine cloud' k r ↔
      Carries env.engine cloud k (columnsOf (recordsAt env k records d)) r := by
  have hflush : flushGroup env.engine cloud (k, recordsAt env k records d) = .ok cloud' := by
    rw [flushAttempt] at h
    split at h
    · cases hg : flushGroup env.engine cloud (k, recordsAt env k records d) with
      | ok c =>
        rw [hg] at h
        cases h
        rfl
      | error e =>
        rw [hg] at h
        cases h
    · cases h
  by_cases hemb : "embedding" ∈ k.pkCol.cols
  · obtain ⟨r', hmem, he⟩ := hr.1.embedding_key env hr.2 hemb d
    cases hs : stagedRow env.engine (columnsOf (recordsAt env k records d)) r' with
    | none =>
      obtain ⟨hcol, hw⟩ := wanted_not_staged hs
      rw [wanted, if_pos rfl, he] at hw
      exact merged_iff_of_invalid hcol (by rw [wanted, if_pos rfl, hw])
    | some s =>
      have hsrc : s ∈ (dedupedRecords k.pkCol (recordsAt env k records d)).filterMap
          (stagedRow env.engine (columnsOf (recordsAt env k records d))) :=
        List.mem_filterMap.2 ⟨r', hmem, hs⟩
      obtain ⟨_, _, hno, _⟩ := flushUpsert_staged (flushUpsert_of_group hk hflush hmem)
        (List.ne_nil_of_mem hsrc)
      exact absurd hemb hno
  · obtain ⟨r', hlast, hself, halike⟩ := hr.1.recordsAt env hr.2 hemb d
    exact merged_iff hk hflush hlast hself halike

/-- The last record of each key ends in the cloud row with all its pairs, or in the dead letter
queue, exactly when the columns of the statement are enough for it. -/
theorem flushBatch_settles_iff (env : FlushEnv) (cloud : Database) (k : BatchKey)
    (records : List Row) (hk : k.operation = .upsert) :
    (∀ r, LastOf k records r →
        Settled env.engine k (flushBatch env cloud k records) r) ↔
      Suffices env cloud k records := by
  rw [flushBatch]
  rcases flushFrom_cases (k := k) (d := 0) env cloud records
    retryLimit (fun d' hd' => absurd hd' (Nat.not_lt_zero d')) with
    ⟨e, cloud', hle, hfirst, hok, hout⟩ | ⟨hnone, error, hout⟩
  · rw [Nat.zero_add] at hle
    have hsettled (r : Row) : Settled env.engine k { cloud := cloud' } r ↔
        Merged env.engine cloud' k r :=
      or_iff_left fun ⟨_, he, _⟩ => nomatch he
    change (∀ r, LastOf k records r → Settled env.engine k
      (flushFrom env cloud k retryLimit 0 (recordsAt env k records 0)) r) ↔ _
    rw [hout]
    simp only [hsettled]
    constructor
    · intro h
      refine ⟨fun d hd hpass hbefore r hr => ?_, fun hno => ?_⟩
      · have hde : d = e := by
          rcases Nat.lt_trichotomy d e with hlt | heq | hgt
          · exact absurd hpass (hfirst d hlt)
          · exact heq
          · exact absurd ⟨cloud', hok⟩ (hbefore e hgt)
        subst hde
        exact (merged_iff_carries hk hok hr).1 (h r hr)
      · exact absurd ⟨cloud', hok⟩ (hno e hle)
    · exact fun h r hr => (merged_iff_carries hk hok hr).2
        (h.columns e hle ⟨cloud', hok⟩ hfirst r hr)
  · rw [Nat.zero_add] at hnone hout
    change (∀ r, LastOf k records r → Settled env.engine k
      (flushFrom env cloud k retryLimit 0 (recordsAt env k records 0)) r) ↔ _
    rw [hout]
    simp only [Settled, recorded_iff]
    constructor
    · exact fun h => ⟨fun d hd hpass _ => absurd hpass (hnone d hd), fun _ => h⟩
    · exact fun h => h.room hnone

end

/-- A cloud that reads each character of a text as a byte. -/
def bytesEngine : CloudEngine where
  textVector s := some (s.toList.map fun c => UInt8.ofNat c.toNat)
  now := "2024-05-02 00:00:00"

def bytesText (bs : List UInt8) : String := String.ofList (bs.map fun b => Char.ofNat b.toNat)

theorem textVector_bytesText (bs : List UInt8) :
    bytesEngine.textVector (bytesText bs) = some bs := by
  have hbyte (b : UInt8) : UInt8.ofNat (Char.ofNat b.toNat).toNat = b := by
    have hvalid : b.toNat.isValidChar := .inl (b.toNat_lt.trans (by decide))
    rw [Char.ofNat, dif_pos hvalid]
    exact UInt8.ofNat_toNat
  simp only [bytesEngine, bytesText, String.toList_ofList, List.map_map, Option.some.injEq]
  exact (List.map_congr_left fun b _ => hbyte b).trans (List.map_id' _)

def bytesJson : VectorJson bytesEngine where
  dumps
    | .blob bs => bytesText bs
    | .text s => s
    | _ => ""
  loads v w h hw := by
    cases v with
    | null =>
      cases h
      exact absurd rfl hw
    | blob bs =>
      rw [normalizeEmbedding] at h
      split at h
      · rw [normalizeEmbedding, textVector_bytesText, Option.map_some]
        exact h
      · cases h
    | text s => exact h
    | int n => cases h
    | real x => cases h

def calmEnv : FlushEnv where
  engine := bytesEngine
  json := bytesJson
  digest _ := ""
  message _ := ""

/-- What `create_broadcast_batch` enqueues. -/
def createdBatch : Row :=
  [("batch_id", .text "b2"), ("target_site", .text "telegram"), ("article_count", .int 5),
    ("top10_count", .int 1), ("status", .text "PENDING"), ("source_job_id", .null),
    ("created_at", .text "2024-05-01T10:00:00+00:00"),
    ("updated_at", .text "2024-05-01T10:00:00+00:00")]

/-- What `update_batch_status_from_details` enqueues for an older batch, a row with every column. -/
def updatedBatch : Row :=
  [("batch_id", .text "b1"), ("target_site", .text "telegram"), ("article_count", .int 5),
    ("top10_count", .int 1), ("status", .text "PARTIAL"), ("source_job_id", .null),
    ("content_hash", .text "9f86d081"), ("created_at", .text "2024-04-30T10:00:00+00:00"),
    ("updated_at", .text "2024-05-01T10:00:01+00:00")]

def batchesKey : BatchKey := ⟨"broadcast_batches", .upsert, .one "batch_id"⟩

def batchesCloud : Database where
  tables := AList.singleton "broadcast_batches"
    { schema := Schemas.broadcastBatches.schema, rows := [] }
  indexes := ∅

/-- The new status arrives in the cloud, and the hash in the same record is lost. -/
theorem extra_key_dropped :
    LastOf batchesKey [createdBatch, updatedBatch] updatedBatch ∧
      ¬ Settled calmEnv.engine batchesKey
        (flushBatch calmEnv batchesCloud batchesKey [createdBatch, updatedBatch]) updatedBatch := by
  have hout : (flushBatch calmEnv batchesCloud batchesKey [createdBatch, updatedBatch]).dlq = [] ∧
      ((flushBatch calmEnv batchesCloud batchesKey [createdBatch, updatedBatch]).cloud.rows
        "broadcast_batches").map (fun q => (q.get "status", q.get "content_hash")) =
          [(.text "PENDING", .text ""), (.text "PARTIAL", .text "")] := by decide +kernel
  refine ⟨⟨⟨[createdBatch], [], rfl, fun a ha => nomatch ha⟩, by decide⟩, ?_⟩
  rintro (⟨q, hq, -, hpairs⟩ | ⟨e, he, -⟩)
  · have hmem : (q.get "status", q.get "content_hash") ∈
        [(.text "PENDING", Value.text ""), (.text "PARTIAL", .text "")] := by
      rw [← hout.2]
      exact List.mem_map_of_mem hq
    have hhash : q.get "content_hash" = .text "" := by
      rcases List.mem_pair.1 hmem with he | he
      · exact (Prod.mk.inj he).2
      · exact (Prod.mk.inj he).2
    have hpair := (hpairs "content_hash" (by decide)).2
    rw [hhash] at hpair
    exact absurd hpair (by decide)
  · rw [hout.1] at he
    cases he

theorem flushBatch_settles_iff_batches :
    (∀ r, LastOf batchesKey [createdBatch, updatedBatch] r → Settled calmEnv.engine batchesKey
        (flushBatch calmEnv batchesCloud batchesKey [createdBatch, updatedBatch]) r) ↔
      Suffices calmEnv batchesCloud batchesKey [createdBatch, updatedBatch] :=
  flushBatch_settles_iff calmEnv batchesCloud batchesKey [createdBatch, updatedBatch] rfl

end Sync
