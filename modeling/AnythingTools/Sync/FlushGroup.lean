import AnythingTools.Sync.FlushOutcome
import Mathlib.Logic.Function.Basic

namespace Sync
open Relational Relational.Database
set_option autoImplicit true

variable {S : Schema} {k : BatchKey} {cols : List String} {records rows : List Row}

/-- The columns of the first record. -/
def columnsOf (records : List Row) : List String := (records.head?.map Row.columns).getD []

def schemaOf (cloud : Database) (t : String) : Schema :=
  ((cloud.find t).map Table.schema).getD ⟨[], [], [], [], none⟩

/-- The records were applied to their table and to nothing else. -/
structure Applied (engine : CloudEngine) (k : BatchKey) (records : List Row)
    (cloud cloud' : Database) : Prop where
  schemas : SameSchemas cloud cloud'
  frame : ∀ u, u ≠ k.tableName → cloud'.rows u = cloud.rows u
  rows : (cloud'.rows k.tableName).Perm (applyRecords engine (schemaOf cloud k.tableName) k
    (columnsOf records) (cloud.rows k.tableName) records)

theorem schemaOf_find {cloud : Database} (h : cloud.find t = some C) :
    schemaOf cloud t = C.schema := by
  rw [schemaOf, h]
  rfl

theorem applyRecords_upsert (hk : k.operation = .upsert) :
    applyRecords engine S k cols rows records =
      (records.filterMap (stagedRow engine cols)).foldl
        (fun rows s => S.mergeRow engine.now k.pkCol.cols s rows) rows := by
  rw [applyRecords, List.foldl_filterMap]
  congr 1
  funext rows r
  rw [applyRecord_upsert hk]
  cases stagedRow engine cols r <;> rfl

theorem applyRecords_none (hk : k.operation = .upsert)
    (h : ∀ r ∈ records, stagedRow engine cols r = none) :
    applyRecords engine S k cols rows records = rows := by
  rw [applyRecords_upsert hk, List.filterMap_eq_nil_iff.2 h, List.foldl_nil]

/-- A record of each staged key is left. -/
theorem staged_dedupedRecords {pkCol : PkCol} (h : records.Pairwise (Covers engine pkCol cols))
    (hr : r ∈ records) (hs : (stagedRow engine cols r).isSome = true) :
    ∃ a ∈ dedupedRecords pkCol records, (stagedRow engine cols a).isSome = true := by
  induction records using List.reverseRecOn with
  | nil => cases hr
  | append_singleton l x ih =>
    rw [List.pairwise_append] at h
    rw [dedupedRecords_append]
    have hmem {a} (ha : a ∈ dedupedRecords pkCol l) : a ∈ l := mem_dedupedRecords ha
    rcases List.mem_append.1 hr with hr | hr
    · obtain ⟨a, ha, hsa⟩ := ih h.1 hr
      rw [dedupStep]
      split
      · exact ⟨a, List.mem_append_left _ ha, hsa⟩
      next key hx =>
        split
        · by_cases hak : dedupKey pkCol a = some key
          · refine ⟨x, List.mem_map.2 ⟨a, ha, if_pos hak⟩, ?_⟩
            exact (h.2.2 a (hmem ha) x (List.mem_singleton_self x) key hak hx).2 hsa
          · exact ⟨a, List.mem_map.2 ⟨a, ha, if_neg hak⟩, hsa⟩
        · exact ⟨a, List.mem_append_left _ ha, hsa⟩
    · rw [List.mem_singleton.1 hr] at hs
      rw [dedupStep]
      split
      · exact ⟨x, List.mem_append_right _ (List.mem_singleton_self x), hs⟩
      next key hx =>
        split
        next hany =>
          obtain ⟨a, ha, hak⟩ := List.any_eq_true.1 hany
          exact ⟨x, List.mem_map.2 ⟨a, ha, if_pos (of_decide_eq_true hak)⟩, hs⟩
        · exact ⟨x, List.mem_append_right _ (List.mem_singleton_self x), hs⟩

/-- What a flush of staged records has merged, and into which table. -/
theorem flushUpsert_ok (h : flushUpsert engine cloud t pkCol cols records = .ok cloud')
    (hs : records.filterMap (stagedRow engine cols) ≠ []) :
    ∃ (C C' : Table) (bs : List (List Row)), cloud.find t = some C ∧ cloud' = cloud.update t (fun _ => C') ∧
      "embedding" ∉ pkCol.cols ∧ (∀ c ∈ pkCol.cols, c ∈ cols) ∧
      bs.flatten = records.filterMap (stagedRow engine cols) ∧
      bs.foldlM (Table.merge engine.now pkCol.cols cols) C = .ok C' := by
  have hsrc : (records.filter fun r => (stagedRow engine cols r).isSome).filterMap
      (stagedRow engine cols) = records.filterMap (stagedRow engine cols) := by
    rw [List.filterMap_filter]
    congr 1
    funext r
    cases stagedRow engine cols r <;> rfl
  rw [flushUpsert, hsrc] at h
  rw [if_neg hs] at h
  split at h
  · cases h
  next C hC =>
    split at h
    · cases h
    next hbound =>
      rw [not_or, not_or] at hbound
      have hkey : ∀ c ∈ pkCol.cols, c ∈ cols := by
        intro c hc
        by_contra hno
        exact hbound.2.1 ⟨c, hc, hno⟩
      split at h
      · split at h
        next c =>
          split at h
          · cases h
          next hc =>
            cases hm : (Python.chunks 100 (records.filterMap (stagedRow engine cols))).foldlM
                (Table.merge engine.now [c] cols) C with
            | error e =>
              rw [hm] at h
              cases h
            | ok C' =>
              rw [hm] at h
              cases h
              refine ⟨C, C', _, hC, rfl, ?_, hkey, Python.flatten_chunks (by decide) _, hm⟩
              intro he
              exact hc (List.mem_singleton.1 he).symm
        · cases h
      next hemb =>
        cases hm : C.merge engine.now pkCol.cols cols (records.filterMap (stagedRow engine cols)) with
        | error e =>
          rw [hm] at h
          cases h
        | ok C' =>
          rw [hm] at h
          cases h
          refine ⟨C, C', [records.filterMap (stagedRow engine cols)], hC, rfl, ?_, hkey, ?_, ?_⟩
          · exact fun he => hemb (hkey _ he)
          · exact List.append_nil _
          · rw [List.foldlM_cons, hm]
            rfl

theorem sameSchemas_set {cloud : Database} (hC : cloud.find t = some C)
    (hS : C'.schema = C.schema) : SameSchemas cloud (cloud.update t fun _ => C') := by
  intro u
  by_cases hu : u = t
  · subst hu
    rw [find_update_self, hC, Option.map_some, Option.map_some, Option.map_some, hS]
  · rw [find_update_ne _ _ hu]

theorem rows_set {cloud : Database} (hC : cloud.find t = some C) (C' : Table) :
    (cloud.update t fun _ => C').rows t = C'.rows := by
  apply rows_of_find
  rw [find_update_self, hC, Option.map_some]

theorem rows_set_ne (cloud : Database) (f : Table → Table) (hu : u ≠ t) :
    (cloud.update t f).rows u = cloud.rows u := by
  rw [rows, rows, find_update_ne _ _ hu]

theorem Applied.of_unchanged
    (h : applyRecords engine (schemaOf cloud k.tableName) k (columnsOf records)
      (cloud.rows k.tableName) records = cloud.rows k.tableName) :
    Applied engine k records cloud cloud where
  schemas := .refl cloud
  frame _ _ := rfl
  rows := by
    rw [h]

theorem dedup_none {pkCol : PkCol} (h : records.Pairwise (Covers engine pkCol cols))
    (hs : (dedupedRecords pkCol records).filterMap (stagedRow engine cols) = []) :
    ∀ r ∈ records, stagedRow engine cols r = none := by
  intro r hr
  rw [← Option.not_isSome_iff_eq_none]
  intro hsome
  obtain ⟨a, ha, hsa⟩ := staged_dedupedRecords h hr hsome
  rw [List.filterMap_eq_nil_iff.1 hs a ha] at hsa
  cases hsa

/-- A merge of staged records shows that they fit their table. -/
theorem merge_fitting {bs : List (List Row)} {C : Table} {pkCol : PkCol}
    (h : bs.foldlM (Table.merge now pkCol.cols cols) C = .ok C') (hne : bs.flatten ≠ [])
    (hkey : ∀ c ∈ pkCol.cols, c ∈ cols) (hs : stagedRow engine cols r = some s) :
    Fits C.schema pkCol.cols s := by
  cases bs with
  | nil => exact absurd rfl hne
  | cons b bs =>
    rw [List.foldlM_cons] at h
    cases hm : C.merge now pkCol.cols cols b with
    | error e =>
      rw [hm] at h
      cases h
    | ok C₁ =>
      have hcols := columns_staged hs
      constructor
      · rw [hcols]
        exact hkey
      · rw [hcols]
        exact (Table.merge_ok hm).1

theorem flushUpsert_fitting
    (h : flushUpsert engine cloud k.tableName k.pkCol cols records = .ok cloud')
    (hs : records.filterMap (stagedRow engine cols) ≠ []) :
    Fitting engine (schemaOf cloud k.tableName) k cols := by
  obtain ⟨C, C', bs, hC, _, hemb, hkey, hflat, hm⟩ := flushUpsert_ok h hs
  rw [schemaOf_find hC]
  refine ⟨?_, hemb⟩
  intro r s hrs
  rw [← hflat] at hs
  exact merge_fitting hm hs hkey hrs

theorem pairwise_staged (hF : Fitting engine S k cols)
    (h : records.Pairwise (Distinct k.pkCol)) :
    (records.filterMap (stagedRow engine cols)).Pairwise
      fun s s' => Row.sameKey k.pkCol.cols s s' = false := by
  rw [List.pairwise_filterMap]
  apply h.imp
  intro a b hab s hs s' hs'
  exact not_sameKey_of_distinct hF hab hs hs'

/-- A flush of upserted records applies them one by one. -/
theorem flushUpsert_applied (hk : k.operation = .upsert)
    (h : flushUpsert engine cloud k.tableName k.pkCol (columnsOf records)
      (dedupedRecords k.pkCol records) = .ok cloud')
    (hcov : records.Pairwise (Covers engine k.pkCol (columnsOf records))) :
    Applied engine k records cloud cloud' := by
  by_cases hs : (dedupedRecords k.pkCol records).filterMap
      (stagedRow engine (columnsOf records)) = []
  · have hsrc : ((dedupedRecords k.pkCol records).filter fun r =>
        (stagedRow engine (columnsOf records) r).isSome).filterMap
          (stagedRow engine (columnsOf records)) = [] := by
      rw [List.filterMap_eq_nil_iff] at hs ⊢
      exact fun r hr => hs r (List.mem_filter.1 hr).1
    rw [flushUpsert, if_pos hsrc] at h
    cases h
    exact .of_unchanged (applyRecords_none hk (dedup_none hcov hs))
  · have hF := flushUpsert_fitting h hs
    obtain ⟨C, C', bs, hC, he, _, hkey, hflat, hm⟩ := flushUpsert_ok h hs
    rw [schemaOf_find hC] at hF
    have hfit : ∀ s ∈ bs.flatten, Fits C.schema k.pkCol.cols s ∧
        s.columns = columnsOf records := by
      rw [hflat]
      intro s hm
      obtain ⟨r, _, hr⟩ := List.mem_filterMap.1 hm
      exact ⟨hF.1 r s hr, columns_staged hr⟩
    have hsrc := pairwise_staged hF (distinct_dedupedRecords k.pkCol records)
    rw [← hflat] at hsrc
    obtain ⟨hS, hrows⟩ := mergeAll_eq hm hsrc (fun s hs => (hfit s hs).1) fun s hs =>
      (hfit s hs).2
    subst he
    constructor
    · exact sameSchemas_set hC hS
    · exact fun u hu => rows_set_ne cloud _ hu
    · rw [rows_set hC, hrows, hflat, schemaOf_find hC, rows_of_find hC, ← applyRecords_upsert hk]
      exact applyRecords_deduped hk hF hcov

theorem applyRecords_delete (hk : k.operation = .delete) :
    applyRecords engine S k cols rows records =
      rows.filter fun q => !records.any fun r => Row.sameKey k.pkCol.cols q r := by
  induction records generalizing rows with
  | nil => exact (List.filter_true rows).symm
  | cons r records ih =>
    have hr : applyRecord engine S k cols rows r =
        rows.filter fun q => !Row.sameKey k.pkCol.cols q r := by
      rw [applyRecord, hk]
    rw [applyRecords, List.foldl_cons, hr]
    change applyRecords engine S k cols _ records = _
    rw [ih, List.filter_filter]
    apply List.filter_congr
    intro q _
    rw [List.any_cons, Bool.not_or, Bool.and_comm]

/-- The records that a deletion binds. -/
def boundRecords (pkCol : PkCol) (records : List Row) : List Row :=
  match pkCol with
  | .one c => records.filter fun r => decide (c ∈ r.columns)
  | .several _ => records

/-- A record without the column matches no row. -/
theorem any_boundRecords (pkCol : PkCol) (records : List Row) (q : Row) :
    ((boundRecords pkCol records).any fun r => Row.sameKey pkCol.cols q r) =
      records.any fun r => Row.sameKey pkCol.cols q r := by
  cases pkCol with
  | several cs => rfl
  | one c =>
    rw [boundRecords, List.any_filter]
    congr 1
    funext r
    by_cases hc : c ∈ r.columns
    · rw [decide_eq_true hc, Bool.true_and]
    · rw [decide_eq_false hc, Bool.false_and, eq_comm, ← Bool.not_eq_true, Row.sameKey_iff]
      intro h
      obtain ⟨hn, he⟩ := h c (List.mem_singleton_self c)
      exact hn (he.trans (Row.get_of_not_mem hc))

theorem flushDelete_eq (cloud : Database) (t : String) (pkCol : PkCol) (records : List Row) :
    flushDelete cloud t pkCol records =
      if boundRecords pkCol records = [] then .ok cloud
      else
        match cloud.find t with
        | none => .error (.noSuchTable t)
        | some C =>
          if pkCol.cols = [] ∨ (∃ c ∈ pkCol.cols, c ∉ C.schema.names) ∨
              ∃ r ∈ boundRecords pkCol records, ∃ c ∈ pkCol.cols, c ∉ r.columns then
            .error .refused
          else .ok (cloud.update t fun _ => Table.deleteWhere C fun q =>
            (boundRecords pkCol records).any fun r => Row.sameKey pkCol.cols q r) := by
  cases pkCol <;> rfl

theorem flushDelete_applied (hk : k.operation = .delete)
    (h : flushDelete cloud k.tableName k.pkCol records = .ok cloud') :
    Applied engine k records cloud cloud' := by
  have hrows (rows : List Row) : applyRecords engine (schemaOf cloud k.tableName) k
      (columnsOf records) rows records = rows.filter fun q =>
        !(boundRecords k.pkCol records).any fun r => Row.sameKey k.pkCol.cols q r := by
    rw [applyRecords_delete hk]
    simp only [any_boundRecords]
  rw [flushDelete_eq] at h
  split at h
  next hnone =>
    cases h
    apply Applied.of_unchanged
    rw [hrows, hnone]
    exact List.filter_true _
  · split at h
    · cases h
    next C hC =>
      split at h
      · cases h
      · cases h
        constructor
        · exact sameSchemas_set hC rfl
        · exact fun u hu => rows_set_ne cloud _ hu
        · rw [rows_set hC, hrows, rows_of_find hC]
          exact .refl _

/-- The records of a group may be deduplicated. -/
def Coverable (engine : CloudEngine) (g : BatchKey × List Row) : Prop :=
  g.1.operation = .upsert → g.2.Pairwise (Covers engine g.1.pkCol (columnsOf g.2))

instance (engine : CloudEngine) (g : BatchKey × List Row) : Decidable (Coverable engine g) :=
  inferInstanceAs (Decidable (_ → _))

/-- A flush of a group applies its records one by one. -/
theorem flushGroup_applied (h : flushGroup engine cloud (k, records) = .ok cloud')
    (hcov : Coverable engine (k, records)) : Applied engine k records cloud cloud' := by
  rw [flushGroup] at h
  dsimp only at h
  cases hk : k.operation with
  | delete =>
    rw [hk] at h
    exact flushDelete_applied hk h
  | upsert =>
    rw [hk] at h
    cases records with
    | nil =>
      cases h
      exact .of_unchanged rfl
    | cons r rs => exact flushUpsert_applied hk h (hcov hk)

theorem flushGroup_fitting (h : flushGroup engine cloud (k, records) = .ok cloud')
    (hk : k.operation = .upsert) (hcov : Coverable engine (k, records)) (hr : r ∈ records)
    (hs : (stagedRow engine (columnsOf records) r).isSome = true) :
    Fitting engine (schemaOf cloud k.tableName) k (columnsOf records) := by
  obtain ⟨a, ha, hsa⟩ := staged_dedupedRecords (hcov hk) hr hs
  have hne : (dedupedRecords k.pkCol records).filterMap
      (stagedRow engine (columnsOf records)) ≠ [] := by
    intro he
    rw [List.filterMap_eq_nil_iff.1 he a ha] at hsa
    cases hsa
  cases records with
  | nil => cases hr
  | cons r rs =>
    rw [flushGroup] at h
    dsimp only at h
    rw [hk] at h
    exact flushUpsert_fitting h hne

theorem dedupedRecords_single (pkCol : PkCol) (r : Row) : dedupedRecords pkCol [r] = [r] := by
  rw [dedupedRecords, List.foldl_cons, List.foldl_nil, dedupStep]
  split
  · rfl
  · rfl

/-- The write of one record merges it. -/
theorem flushGroup_single {cloud : Database} (hC : cloud.find t = some C)
    (hfit : Fits C.schema [c] r) (hs : stagedRow engine r.columns r = some r)
    (hc : c ≠ "embedding") (hset : ∃ d ∈ r.columns, d ≠ c) :
    flushGroup engine cloud ((cloudWrite t r (.one c)).key, (cloudWrite t r (.one c)).records) =
      if (C.schema.mergeRow engine.now [c] r C.rows).all C.schema.notNulls = true then
        .ok (cloud.update t fun _ =>
          { C with rows := C.schema.mergeRow engine.now [c] r C.rows })
      else .error .constraint := by
  have hm : C.merge engine.now [c] r.columns [r] = _ := merge_single hfit
  have hunbound : ¬ ([r].any (unbound r.columns)) = true := by
    rw [List.any_cons, List.any_nil, Bool.or_false, unbound, List.any_eq_true]
    intro ⟨d, hd, hn⟩
    exact (of_decide_eq_true hn).2 hd
  have hcols : (PkCol.one c).cols = [c] := rfl
  have hbound : ¬ ([r].any (unbound r.columns) = true ∨
      (∃ d ∈ (PkCol.one c).cols, d ∉ r.columns) ∨
        ∀ d ∈ r.columns, d ∈ (PkCol.one c).cols) := by
    rw [hcols]
    rintro (h | ⟨d, hd, hn⟩ | h)
    · exact hunbound h
    · exact hn (hfit.keyed d hd)
    · obtain ⟨d, hd, hn⟩ := hset
      exact hn (List.mem_singleton.1 (h d hd))
  change flushUpsert engine cloud t (.one c) r.columns (dedupedRecords (.one c) [r]) = _
  rw [dedupedRecords_single, flushUpsert]
  rw [List.filter_cons_of_pos (by rw [hs]; rfl), List.filter_nil, List.filterMap_cons_some hs,
    List.filterMap_nil, hC]
  dsimp only
  rw [if_neg (List.cons_ne_nil _ _), if_neg hbound]
  by_cases he : "embedding" ∈ r.columns
  · rw [if_pos he, if_neg hc]
    have hchunk : Python.chunks 100 [r] = [[r]] := rfl
    rw [hchunk, List.foldlM_cons, hm]
    split <;> rfl
  · rw [if_neg he, hcols, hm]
    split <;> rfl

end Sync
