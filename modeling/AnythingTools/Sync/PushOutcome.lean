import AnythingTools.Sync.OpTransactions
import AnythingTools.Sync.SyncOperations

namespace Sync
open Relational Relational.Database Schemas
set_option autoImplicit true

theorem mem_detectPkColumns (hT : find db t = some T) (hpk : T.schema.primaryKey ≠ []) :
    c ∈ (detectPkColumns db t).1 ↔ c ∈ T.schema.primaryKey := by
  have hm (l : List Column) : c ∈ (l.insertionSort fun a b => a.pk ≤ b.pk).map Column.name ↔
      c ∈ l.map Column.name := by
    simp only [List.mem_map, List.mem_insertionSort]
  have hne : ((T.schema.columns.filter fun c => decide (0 < c.pk)).insertionSort
      fun a b => a.pk ≤ b.pk).map Column.name ≠ [] := by
    intro he
    rw [List.map_eq_nil_iff, ← List.length_eq_zero_iff, List.length_insertionSort,
      List.length_eq_zero_iff] at he
    apply hpk
    rw [Schema.primaryKey, he]
    rfl
  rw [detectPkColumns, hT]
  dsimp only
  rw [if_neg hne, hm]
  rfl

theorem sameKey_congr {key key' : List String} (h : ∀ c, c ∈ key ↔ c ∈ key') (r r' : Row) :
    Row.sameKey key r r' = Row.sameKey key' r r' := by
  rw [Bool.eq_iff_iff, Row.sameKey_iff, Row.sameKey_iff]
  simp only [h]

theorem mem_selectKeys_iff (hT : find db t = some T) : r ∈ selectKeys db t keys ↔
    r ∈ T.rows ∧ ∃ k ∈ keys, T.schema.matchesKey k r = true := by
  rw [selectKeys, hT]
  simp only [List.mem_filter, List.any_eq_true]

/-- The fetched rows are those that a key of the list selects, as the database of their query has
them. -/
theorem mem_fetchDirty {S : Schema} (h : fetchDirty engine fetch t pkCols ids = .ok rs)
    (hS : ∀ i, ∃ T, find (fetch i) t = some T ∧ T.schema = S) (row : Row) :
    row ∈ rs ↔ ∃ chunk ∈ (Python.chunks (computeChunkSize pkCols) ids).zipIdx,
      ∃ r ∈ (fetch chunk.2).rows t, (∃ k ∈ chunk.1, S.matchesKey (pkCols.zip k) r = true) ∧
        row = Row.build S.names r.get := by
  rw [fetchDirty] at h
  cases hm : (Python.chunks (computeChunkSize pkCols) ids).zipIdx.mapM fun chunk =>
      fetchChunk engine (fetch chunk.2) t pkCols chunk with
  | error e =>
    rw [hm] at h
    cases h
  | ok parts =>
    rw [hm] at h
    cases h
    rw [List.mem_flatten]
    simp only [Python.mem_mapM_ok hm]
    have hchunk (chunk : List (List Value) × Nat)
        (hc : chunk ∈ (Python.chunks (computeChunkSize pkCols) ids).zipIdx) :
        (∃ part, fetchChunk engine (fetch chunk.2) t pkCols chunk = .ok part ∧ row ∈ part) ↔
          ∃ r ∈ (fetch chunk.2).rows t, (∃ k ∈ chunk.1, S.matchesKey (pkCols.zip k) r = true) ∧
            row = Row.build S.names r.get := by
      obtain ⟨T, hT, hs⟩ := hS chunk.2
      obtain ⟨part, hp⟩ := Python.mapM_ok_total hm hc
      simp only [hp, Except.ok.injEq, exists_eq_left']
      rw [fetchChunk, hT] at hp
      dsimp only at hp
      split at hp
      · cases hp
      · cases hp
        simp only [List.mem_map, mem_selectKeys_iff hT, rows_of_find hT, hs]
        grind
    constructor
    · intro ⟨part, ⟨chunk, hc, hp⟩, hrow⟩
      exact ⟨chunk, hc, (hchunk chunk hc).1 ⟨part, hp, hrow⟩⟩
    · intro ⟨chunk, hc, hr⟩
      obtain ⟨part, hp, hrow⟩ := (hchunk chunk hc).2 hr
      exact ⟨part, ⟨chunk, hc, hp⟩, hrow⟩

/-- Where nothing is written meanwhile, the chunks make no difference. -/
theorem mem_fetchDirty_still (h : fetchDirty engine (fun _ => db) t pkCols ids = .ok rs)
    (hT : find db t = some T) (hn : 0 < computeChunkSize pkCols) (row : Row) :
    row ∈ rs ↔ ∃ r ∈ T.rows, (∃ k ∈ ids, T.schema.matchesKey (pkCols.zip k) r = true) ∧
      row = Row.build T.schema.names r.get := by
  rw [mem_fetchDirty h fun _ => ⟨T, hT, rfl⟩]
  simp only [rows_of_find hT]
  constructor
  · intro ⟨chunk, hc, r, hr, ⟨k, hk, hm⟩, he⟩
    refine ⟨r, hr, ⟨k, ?_, hm⟩, he⟩
    rw [← Python.mem_chunks hn]
    exact ⟨chunk.1, (List.mem_zipIdx' hc).2 ▸ List.getElem_mem _, hk⟩
  · intro ⟨r, hr, ⟨k, hk, hm⟩, he⟩
    obtain ⟨chunk, hc, hk⟩ := (Python.mem_chunks hn).2 hk
    obtain ⟨i, hi⟩ := List.mem_iff_getElem?.1 hc
    exact ⟨(chunk, i), List.mk_mem_zipIdx_iff_getElem?.2 hi, r, hr, ⟨k, hk, hm⟩, he⟩

/-- Rows with one row to a key lose nothing when they are deduplicated. -/
theorem mem_deduped (h : Sources pkCols cols rs) : s ∈ deduped pkCols rs ↔ s ∈ rs := by
  have hgen (acc : List Row) (rows : List Row) (hs : Sources pkCols cols (acc ++ rows)) :
      s ∈ rows.foldl (fun acc r =>
        if acc.any (Row.sameKey pkCols r) then
          acc.map fun a => if Row.sameKey pkCols r a then r else a
        else acc ++ [r]) acc ↔ s ∈ acc ∨ s ∈ rows := by
    induction rows generalizing acc with
    | nil => simp
    | cons r rows ih =>
      rw [List.foldl_cons]
      by_cases hany : acc.any (Row.sameKey pkCols r) = true
      · have hsame : (acc.map fun a => if Row.sameKey pkCols r a = true then r else a) = acc := by
          conv_rhs => rw [← List.map_id acc]
          apply List.map_congr_left
          intro a ha
          split
          next hk =>
            exact hs.single r (by simp) a (by simp [ha]) hk
          next => rfl
        obtain ⟨a, ha, hk⟩ := List.any_eq_true.1 hany
        have he := hs.single r (by simp) a (by simp [ha]) hk
        rw [if_pos hany, hsame, ih acc (hs.subset (by grind)), List.mem_cons, he]
        grind
      · rw [if_neg hany, ih (acc ++ [r]) (by rwa [List.append_assoc, List.singleton_append])]
        simp only [List.mem_append, List.mem_cons, List.not_mem_nil, or_false, or_assoc]
  have hd := hgen [] rs (by rwa [List.nil_append])
  rw [deduped, hd]
  simp

theorem raised_ok {x : Except SqlError α} (h : raised x = .ok a) : x = .ok a := by
  cases x with
  | ok b =>
    cases h
    rfl
  | error e => cases h

theorem outgoing_build (engine : CloudEngine) (S : Schema) (r : Row) :
    outgoing engine S (Row.build S.names r.get) = outgoing engine S r := by
  rw [outgoing, outgoing, Row.build_get]

/-- What is sent of a row has its columns and, where the key is not the embedding, its key. -/
theorem outgoing_some {S : Schema} (h : outgoing engine S r = some s) :
    s.columns = S.names ∧ ∀ c ∈ S.names, c ≠ "embedding" → r.get c = s.get c := by
  rw [outgoing] at h
  split at h
  · obtain ⟨v, _, he⟩ := Option.map_eq_some_iff.1 h
    subst he
    refine ⟨by rw [Row.columns_set, Row.columns_build], ?_⟩
    intro c hc hne
    rw [Row.get_set_ne _ _ hne, Row.get_build_of_mem hc]
  · cases h
    refine ⟨Row.columns_build _ _, ?_⟩
    intro c hc _
    rw [Row.get_build_of_mem hc]

theorem settings_batch (settings : SyncSettings) : 0 < min settings.batchSize 250 := by
  have h := settings.batchSize_ge
  omega

/-- A push merges what is sent of the rows, in one batch or several. -/
theorem pushRows_ok {S : Schema}
    (h : pushRows engine settings t pkCols cloud (row₀ :: rs) = .ok cloud')
    (hrows : ∀ row ∈ row₀ :: rs, Row.build S.names row.get = row)
    (hsrc : Sources pkCols S.names (row₀ :: rs)) :
    ∃ (C C' : Table) (bs : List (List Row)), cloud.find t = some C ∧
      cloud' = cloud.update t (fun _ => C') ∧
      bs.foldlM (Table.merge engine.now pkCols S.names) C = .ok C' ∧
        ∀ s, s ∈ bs.flatten ↔ ∃ row ∈ row₀ :: rs, outgoing engine S row = some s := by
  have hcols := hsrc.columns row₀ List.mem_cons_self
  rw [pushRows] at h
  cases hC : cloud.find t with
  | none =>
    rw [hC] at h
    cases h
  | some C =>
    rw [hC] at h
    dsimp only at h
    split at h
    · cases h
    · obtain ⟨C', hpush, hret⟩ := bind_ok h
      cases hret
      rw [hcols] at hpush
      have hsent (row : Row) (hm : row ∈ row₀ :: rs) : outgoing engine S row =
          if "embedding" ∈ S.names ∧ engine.useNativeVectorType = true then
            (normalizeEmbedding engine (row.get "embedding")).map fun v => row.set "embedding" v
          else some row := by
        rw [outgoing, hrows row hm]
      split at hpush
      next hv =>
        have hmerged : raised ((Python.chunks (min settings.batchSize 250)
            (validateAndNormalize engine (row₀ :: rs))).foldlM
              (Table.merge engine.now pkCols S.names) C) = .ok C' := by
          unfold pushVectors at hpush
          split at hpush
          · exact hpush
          · cases hpush
        refine ⟨C, C', _, rfl, rfl, raised_ok hmerged, ?_⟩
        intro s
        rw [Python.flatten_chunks (settings_batch settings), validateAndNormalize,
          List.mem_filterMap]
        apply exists_congr
        intro row
        apply and_congr_right
        intro hm
        rw [hsent row hm, if_pos hv]
      next hv =>
        refine ⟨C, C', [deduped pkCols (row₀ :: rs)], rfl, rfl, ?_, ?_⟩
        · rw [List.foldlM_cons, raised_ok hpush]
          rfl
        · intro s
          rw [List.flatten_singleton, mem_deduped hsrc]
          constructor
          · intro hs
            exact ⟨s, hs, by rw [hsent s hs, if_neg hv]⟩
          · intro ⟨row, hm, he⟩
            rw [hsent row hm, if_neg hv] at he
            cases he
            exact hm

/-- The stages of a push that raises nothing. -/
theorem pushTable_ok (h : pushTable engine settings t reads cloud = .ok cloud')
    (hd : detectPkColumns reads.manifest t = (pkCols, hashed)) :
    ∃ ids, idsToPush engine reads.manifest cloud t pkCols hashed = .ok ids ∧
      ((ids = [] ∧ cloud' = cloud) ∨
        0 < computeChunkSize pkCols ∧ ∃ rs, fetchDirty engine reads.fetch t pkCols ids = .ok rs ∧
          pushRows engine settings t pkCols cloud rs = .ok cloud') := by
  rw [pushTable, hd] at h
  dsimp only at h
  split at h
  · cases h
  · obtain ⟨ids, hids, h⟩ := bind_ok h
    refine ⟨ids, hids, ?_⟩
    split at h
    next he =>
      cases h
      exact .inl ⟨he, rfl⟩
    next =>
      split at h
      · cases h
      next hn =>
        obtain ⟨rs, hrs, h⟩ := bind_ok h
        exact .inr ⟨Nat.pos_of_ne_zero hn, rs, hrs, h⟩

theorem find_pushRows_ne (h : pushRows engine settings t pkCols cloud rs = .ok cloud')
    (hu : u ≠ t) : cloud'.find u = cloud.find u := by
  unfold pushRows at h
  split at h
  · cases h
    rfl
  · split at h
    · cases h
    · split at h
      · cases h
      · obtain ⟨C', _, hret⟩ := bind_ok h
        cases hret
        exact find_update_ne cloud _ hu

/-- A push leaves the other tables alone. -/
theorem find_pushTable_ne (h : pushTable engine settings t reads cloud = .ok cloud')
    (hu : u ≠ t) : cloud'.find u = cloud.find u := by
  obtain ⟨ids, _, hor⟩ := pushTable_ok h rfl
  rcases hor with ⟨_, he⟩ | ⟨_, rs, _, hp⟩
  · rw [he]
  · exact find_pushRows_ne hp hu

/-- A table with a primary key, which sets its rows apart. -/
structure KeyedTable (T : Table) : Prop where
  primaryKey : T.schema.primaryKey ≠ []
  noEmbedding : "embedding" ∉ T.schema.primaryKey
  apart : T.rows.Pairwise fun r r' => ¬ T.schema.conflicts r r' = true

theorem KeyedTable.eq_of_sameKey {T : Table} (h : KeyedTable T) (hr : r ∈ T.rows)
    (hr' : r' ∈ T.rows) (hk : Row.sameKey T.schema.primaryKey r r' = true) : r = r' := by
  by_contra hne
  have hsymm : Std.Symm fun r r' => ¬ T.schema.conflicts r r' = true :=
    ⟨fun a b h => by rw [Schema.conflicts_comm]; exact h⟩
  exact h.apart.forall hr hr' hne (Schema.conflicts_of_primaryKey h.primaryKey hk)

theorem agree_build (S : Schema) (r : Row) : Row.Agree S.names r (Row.build S.names r.get) := by
  intro c hc
  rw [Row.get_build_of_mem hc]

/-- Rows of a keyed table, as they are fetched, are sources of a merge. -/
theorem KeyedTable.sources {T : Table} (h : KeyedTable T)
    (hkey : ∀ c, c ∈ pkCols ↔ c ∈ T.schema.primaryKey)
    (hrs : ∀ row ∈ rs, ∃ r ∈ T.rows, row = Row.build T.schema.names r.get) :
    Sources pkCols T.schema.names rs where
  columns row hm := by
    obtain ⟨r, _, he⟩ := hrs row hm
    rw [he, Row.columns_build]
  single row hm row' hm' hk := by
    obtain ⟨r, hr, he⟩ := hrs row hm
    obtain ⟨r', hr', he'⟩ := hrs row' hm'
    have hsub : ∀ c ∈ T.schema.primaryKey, c ∈ T.schema.names :=
      fun c hc => primaryKey_subset T.schema hc
    have hsame : Row.sameKey T.schema.primaryKey r r' = true := by
      rw [Row.sameKey_agree ((agree_build T.schema r).subset hsub), Row.sameKey_comm,
        Row.sameKey_agree ((agree_build T.schema r').subset hsub), Row.sameKey_comm, ← he, ← he',
        ← sameKey_congr hkey]
      exact hk
    rw [he, he', h.eq_of_sameKey hr hr' hsame]

/-- What is sent of the rows is no less apart. -/
theorem sources_outgoing {S : Schema} (h : Sources key S.names rs) (hkey : ∀ c ∈ key, c ∈ S.names)
    (hemb : "embedding" ∉ key)
    (hsent : ∀ s ∈ sent, ∃ row ∈ rs, outgoing engine S row = some s) :
    Sources key S.names sent where
  columns s hs := by
    obtain ⟨row, _, he⟩ := hsent s hs
    exact (outgoing_some he).1
  single s hs s' hs' hk := by
    obtain ⟨row, hm, he⟩ := hsent s hs
    obtain ⟨row', hm', he'⟩ := hsent s' hs'
    have hagree {row s : Row} (he : outgoing engine S row = some s) : Row.Agree key row s :=
      fun c hc => (outgoing_some he).2 c (hkey c hc) fun hc' => hemb (hc' ▸ hc)
    have hrow : row = row' := by
      apply h.single row hm row' hm'
      rw [Row.sameKey_agree (hagree he), Row.sameKey_comm, Row.sameKey_agree (hagree he'),
        Row.sameKey_comm]
      exact hk
    subst hrow
    rw [he] at he'
    exact Option.some.inj he'

theorem length_pushId (h : pushId engine cloud t pkCols hashed r = some k) :
    k.length = pkCols.length := by
  rw [pushId] at h
  split at h
  · split at h
    · cases h
      exact List.length_map _
    · cases h
  · cases h
    exact List.length_map _

/-- A selected row has no NULL in its key. -/
theorem key_of_selected (h : Selected engine cloud t T pkCols hashed r) :
    Row.sameKey pkCols r r = true := by
  obtain ⟨r₀, _, k, hk, hm⟩ := h
  have hcols : Row.columns (pkCols.zip k) = pkCols :=
    List.map_fst_zip (Nat.le_of_eq (length_pushId hk).symm)
  rw [Schema.matchesKey, hcols] at hm
  exact Row.sameKey_trans (Row.sameKey_symm hm) hm

/-- The key of what is sent is the key of its row. -/
theorem sameKey_outgoing {S : Schema} (h : outgoing engine S r' = some s)
    (hkey : ∀ c ∈ key, c ∈ S.names) (hemb : "embedding" ∉ key) (r : Row) :
    Row.sameKey key r s = Row.sameKey key r r' := by
  have hagree : Row.Agree key r' s :=
    fun c hc => (outgoing_some h).2 c (hkey c hc) fun he => hemb (he ▸ hc)
  rw [Row.sameKey_comm, Row.sameKey_comm key r r', Row.sameKey_agree hagree]

/-- After the push of a table whose rows stay as they are, the cloud holds exactly the rows that
were sent as they are and those that it held and that were not sent. -/
theorem held_pushTable {T : Table} (h : pushTable engine settings t (.still db) cloud = .ok cloud')
    (hd : detectPkColumns db t = (pkCols, hashed)) (hT : db.find t = some T) (hK : KeyedTable T)
    (hr : r ∈ T.rows) : (∃ q ∈ cloud'.rows t, Row.Agree T.schema.names r q) ↔
      Arrives engine cloud t T pkCols hashed r := by
  have hkey : ∀ c, c ∈ pkCols ↔ c ∈ T.schema.primaryKey := by
    intro c
    rw [← mem_detectPkColumns hT hK.primaryKey, hd]
  have hcols : ∀ c ∈ pkCols, c ∈ T.schema.names :=
    fun c hc => primaryKey_subset T.schema ((hkey c).1 hc)
  have hemb : "embedding" ∉ pkCols := fun hc => hK.noEmbedding ((hkey _).1 hc)
  obtain ⟨ids, hids, hor⟩ := pushTable_ok h hd
  have hmem := mem_idsToPush hids hT hcols
  have hkept (hno : ¬ Selected engine cloud t T pkCols hashed r) (he : cloud' = cloud) :
      (∃ q ∈ cloud'.rows t, Row.Agree T.schema.names r q) ↔
        Arrives engine cloud t T pkCols hashed r := by
    rw [he]
    constructor
    · exact fun hq => .inr ⟨fun hs => hno hs.1, hq⟩
    · exact fun ha => ha.elim (fun hs => (hno hs.1).elim) fun hq => hq.2
  rcases hor with ⟨he, hc⟩ | ⟨hn, rs, hrs, hp⟩
  · apply hkept _ hc
    rintro ⟨r₀, hr₀, k, hk, _⟩
    have hm := (hmem k).2 ⟨r₀, hr₀, hk⟩
    rw [he] at hm
    cases hm
  · have hfetched := mem_fetchDirty_still hrs hT hn
    have hselected (row : Row) : row ∈ rs ↔ ∃ r ∈ T.rows,
        Selected engine cloud t T pkCols hashed r ∧ row = Row.build T.schema.names r.get := by
      rw [hfetched row]
      apply exists_congr
      intro r
      apply and_congr_right
      intro _
      apply and_congr_left
      intro _
      constructor
      · rintro ⟨k, hk, hm⟩
        obtain ⟨r₀, hr₀, hp⟩ := (hmem k).1 hk
        exact ⟨r₀, hr₀, k, hp, hm⟩
      · rintro ⟨r₀, hr₀, k, hp, hm⟩
        exact ⟨k, (hmem k).2 ⟨r₀, hr₀, hp⟩, hm⟩
    cases rs with
    | nil =>
      cases hp
      apply hkept _ rfl
      intro hs
      have hm := (hselected _).2 ⟨r, hr, hs, rfl⟩
      cases hm
    | cons row₀ rs =>
      have hbuilt : ∀ row ∈ row₀ :: rs, Row.build T.schema.names row.get = row := by
        intro row hm
        obtain ⟨r, _, _, he⟩ := (hselected row).1 hm
        rw [he, Row.build_get]
      have hsrc : Sources pkCols T.schema.names (row₀ :: rs) := by
        apply hK.sources hkey
        intro row hm
        obtain ⟨r, hr, _, he⟩ := (hselected row).1 hm
        exact ⟨r, hr, he⟩
      obtain ⟨C, C', bs, hC, hcloud, hmerge, hbs⟩ := pushRows_ok hp hbuilt hsrc
      have hsent := sources_outgoing hsrc hcols hemb fun s hs => (hbs s).1 hs
      have hrows' : cloud'.rows t = C'.rows := by
        apply rows_of_find
        rw [hcloud, find_update_self, hC]
        rfl
      have hheld := Table.held_mergeAll hmerge hcols hsent r
      rw [Table.Held, Table.Held, ← rows_of_find hC, ← hrows'] at hheld
      have hflat (s : Row) : s ∈ bs.flatten ↔ ∃ r' ∈ T.rows,
          Selected engine cloud t T pkCols hashed r' ∧ outgoing engine T.schema r' = some s := by
        rw [hbs s]
        constructor
        · rintro ⟨row, hm, he⟩
          obtain ⟨r', hr', hsel, hrow⟩ := (hselected row).1 hm
          rw [hrow, outgoing_build] at he
          exact ⟨r', hr', hsel, he⟩
        · rintro ⟨r', hr', hsel, he⟩
          refine ⟨_, (hselected _).2 ⟨r', hr', hsel, rfl⟩, ?_⟩
          rw [outgoing_build]
          exact he
      have hown {r' s : Row} (hr' : r' ∈ T.rows) (he : outgoing engine T.schema r' = some s)
          (hk : Row.sameKey pkCols r s = true) : r = r' := by
        rw [sameKey_outgoing he hcols hemb, sameKey_congr hkey] at hk
        exact hK.eq_of_sameKey hr hr' hk
      rw [hheld, Arrives]
      constructor
      · intro hor
        rcases hor with ⟨s, hs, ha⟩ | ⟨hno, hq⟩
        · obtain ⟨r', hr', hsel, he⟩ := (hflat s).1 hs
          have hk : Row.sameKey pkCols r s = true := by
            rw [Row.sameKey_agree (ha.subset hcols), sameKey_outgoing he hcols hemb,
              Row.sameKey_comm, sameKey_outgoing he hcols hemb]
            exact key_of_selected hsel
          have hrr := hown hr' he hk
          subst hrr
          exact .inl ⟨hsel, s, he, ha⟩
        · refine .inr ⟨?_, hq⟩
          rintro ⟨hsel, hsome⟩
          obtain ⟨s, he⟩ := Option.isSome_iff_exists.1 hsome
          have hfalse := hno s ((hflat s).2 ⟨r, hr, hsel, he⟩)
          rw [sameKey_outgoing he hcols hemb, key_of_selected hsel] at hfalse
          cases hfalse
      · intro hor
        rcases hor with ⟨hsel, s, he, ha⟩ | ⟨hno, hq⟩
        · exact .inl ⟨s, (hflat s).2 ⟨r, hr, hsel, he⟩, ha⟩
        · refine .inr ⟨?_, hq⟩
          intro s hs
          obtain ⟨r', hr', hsel, he⟩ := (hflat s).1 hs
          rw [← Bool.not_eq_true]
          intro hk
          have hrr := hown hr' he hk
          subst hrr
          exact hno ⟨hsel, by rw [he]; rfl⟩

end Sync
