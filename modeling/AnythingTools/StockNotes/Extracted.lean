import AnythingTools.StockNotes.Kept

namespace StockNotes
open Relational Relational.Database Displace
set_option autoImplicit true

/-! ### The rows below a filing -/

theorem orEmpty_ne_null (c : String) (v : Value) : orEmpty c v ≠ .null := by
  cases v with
  | null =>
    rw [orEmpty]
    split <;> exact Value.noConfusion
  | _ => exact Value.noConfusion

theorem get_detailRow (nowIso : String) (r : TidyRecord) (hc : c ∈ detailColumns) :
    (detailRow nowIso r).get c = orEmpty c ((r.toDict nowIso).get c) :=
  Row.get_build_of_mem hc

/-- A detail is stored as it is given. -/
theorem coerce_detailRow (nowIso : String) (r : TidyRecord) (now : String) :
    Schemas.snNoteDetails.schema.coerce now (detailRow nowIso r) = detailRow nowIso r := by
  have hnames : Schemas.snNoteDetails.schema.names = detailColumns := by decide
  rw [Schema.coerce_given, hnames]
  · exact Row.build_get detailColumns _
  · intro c hc
    rw [hnames] at hc
    rw [get_detailRow nowIso r hc]
    exact orEmpty_ne_null c _

theorem detailId_begins (accessionNo : String) (noteNumber detailIdx : Int)
    (concept periodRaw : String) (row : Nat) :
    ∃ rest, detailId accessionNo noteNumber detailIdx concept periodRaw row =
      accessionNo ++ "|" ++ rest := by
  refine ⟨"|".intercalate [toString noteNumber, toString detailIdx, concept, periodRaw,
    toString row], String.toList_inj.1 ?_⟩
  simp [detailId]

section
variable {γ : Type} {md5 : String → String}

theorem noteRow_takes (x : Extraction γ) (note : Note γ) :
    Schemas.snNotes.schema.Takes (x.noteRow md5 note) := by
  refine ⟨rfl, fun c hc => ?_⟩
  have hgiven : ∀ c ∈ Schemas.snNotes.schema.columns, (c.notnull = true ∧ c.dfltValue.isSome = true) ∨
      c.name ∈ ["note_id", "filing_id", "ticker", "form", "accession_no", "note_number"] := by
    decide
  rcases hgiven c hc with hdflt | hname
  · exact .inr hdflt
  · simp only [List.mem_cons, List.not_mem_nil, or_false] at hname
    rcases hname with hn | hn | hn | hn | hn | hn <;> rw [hn] <;> exact .inl Value.noConfusion

theorem registryRow_takes (x : Extraction γ) (d : Placed) :
    Schemas.snDetailRegistry.schema.Takes (registerDetailTable md5 x d) := by
  refine ⟨rfl, fun c hc => ?_⟩
  have hvalues : ∀ p ∈ registerDetailTable md5 x d, p.2 ≠ Value.null := by
    simp [registerDetailTable]
  have hcolumns : ∀ c ∈ Schemas.snDetailRegistry.schema.columns,
      c.name ∈ (registerDetailTable md5 x d).columns := by
    simp only [registerDetailTable, Row.columns, List.map_cons, List.map_nil]
    decide
  exact .inl (Row.get_ne_null hvalues (hcolumns c hc))

end

section
variable {γ : Type} [BEq γ] {cells : Cells γ} {md5 : String → String} {x : Extraction γ}

/-! ### The statements of an extraction -/

theorem upsert_flatten (nowIso : String) (records : List TidyRecord) :
    (upsertTidyRecords nowIso records).flatten =
      records.map fun r => .replace "sn_note_details" (detailRow nowIso r) := by
  rw [upsertTidyRecords, ← List.map_flatten, Python.flatten_chunks (by omega)]

/-- The statements of a note. -/
def noteStmts (cells : Cells γ) (md5 : String → String) (x : Extraction γ) (note : Note γ) :
    List Stmt :=
  ((x.placed cells md5 note).flatMap fun d =>
    (d.records.map fun r => .replace "sn_note_details" (detailRow d.recordsAt r)) ++
      [.replace "sn_detail_registry" (registerDetailTable md5 x d)]) ++
    [.replace "sn_notes" (x.noteRow md5 note)]

theorem leafTasks_flatten (cells : Cells γ) (md5 : String → String) (x : Extraction γ) :
    (x.leafTasks cells md5).flatten = x.readableNotes.flatMap (noteStmts cells md5 x) := by
  rw [Extraction.leafTasks, Extraction.readableNotes]
  induction x.notes with
  | nil => rfl
  | cons note notes ih =>
    rw [List.flatMap_cons, List.flatten_append, ih, Extraction.noteTasks]
    cases hread : note.readable with
    | false =>
      rw [List.filter_cons_of_neg (by rw [hread]; exact Bool.false_ne_true)]
      rfl
    | true =>
      rw [List.filter_cons_of_pos hread, List.flatMap_cons, if_pos rfl, List.flatten_append,
        List.flatMap_def (f := detailTasks md5 x), List.flatten_flatten, List.map_map,
        ← List.flatMap_def, noteStmts]
      congr 2
      refine List.flatMap_congr fun d _ => ?_
      rw [Function.comp_apply, detailTasks, List.flatten_append, upsert_flatten]
      rfl

theorem rowsAt_details (cells : Cells γ) (md5 : String → String) (x : Extraction γ) :
    Stmt.rowsAt "sn_note_details" (x.leafTasks cells md5).flatten = x.detailRows cells md5 := by
  rw [leafTasks_flatten, Stmt.rowsAt_flatMap, Extraction.detailRows, Extraction.tables,
    List.flatMap_assoc]
  refine List.flatMap_congr fun note _ => ?_
  rw [noteStmts, Stmt.rowsAt_append, Stmt.rowsAt_replace_ne _ (by decide), List.append_nil,
    Stmt.rowsAt_flatMap]
  refine List.flatMap_congr fun d _ => ?_
  rw [Stmt.rowsAt_append, Stmt.rowsAt_map_self, Stmt.rowsAt_replace_ne _ (by decide),
    List.append_nil]

theorem rowsAt_notes (cells : Cells γ) (md5 : String → String) (x : Extraction γ) :
    Stmt.rowsAt "sn_notes" (x.leafTasks cells md5).flatten = x.noteRows md5 := by
  rw [leafTasks_flatten, Stmt.rowsAt_flatMap, Extraction.noteRows, List.map_eq_flatMap]
  refine List.flatMap_congr fun note _ => ?_
  rw [noteStmts, Stmt.rowsAt_append, Stmt.rowsAt_replace_self, Stmt.rowsAt_flatMap]
  refine List.append_left_eq_self.2 (List.flatMap_eq_nil_iff.2 fun d _ => ?_)
  rw [Stmt.rowsAt_append, Stmt.rowsAt_map_ne _ _ (by decide), Stmt.rowsAt_replace_ne _ (by decide),
    List.append_nil]

theorem rowsAt_registry (cells : Cells γ) (md5 : String → String) (x : Extraction γ) :
    Stmt.rowsAt "sn_detail_registry" (x.leafTasks cells md5).flatten =
      x.registryRows cells md5 := by
  rw [leafTasks_flatten, Stmt.rowsAt_flatMap, Extraction.registryRows, Extraction.tables,
    List.map_flatMap]
  refine List.flatMap_congr fun note _ => ?_
  rw [noteStmts, Stmt.rowsAt_append, Stmt.rowsAt_replace_ne _ (by decide), List.append_nil,
    Stmt.rowsAt_flatMap, List.map_eq_flatMap]
  refine List.flatMap_congr fun d _ => ?_
  rw [Stmt.rowsAt_append, Stmt.rowsAt_map_ne _ _ (by decide), Stmt.rowsAt_replace_self]
  rfl

/-- The returned count of tables is that of the entries for the registry. -/
theorem summary_detailTableCount (cells : Cells γ) (md5 : String → String) (x : Extraction γ) :
    (x.summary cells md5).detailTableCount =
      (Stmt.rowsAt "sn_detail_registry" (x.leafTasks cells md5).flatten).length := by
  rw [rowsAt_registry, Extraction.registryRows, List.length_map]
  rfl

/-- Each statement of an extraction after that of the filing. -/
theorem mem_leafStmts {s : Stmt} (hs : s ∈ (x.leafTasks cells md5).flatten) :
    (∃ row ∈ x.detailRows cells md5, s = .replace "sn_note_details" row) ∨
      (∃ row ∈ x.registryRows cells md5, s = .replace "sn_detail_registry" row) ∨
      ∃ row ∈ x.noteRows md5, s = .replace "sn_notes" row := by
  rw [leafTasks_flatten, List.mem_flatMap] at hs
  obtain ⟨note, hnote, hs⟩ := hs
  rw [noteStmts, List.mem_append, List.mem_flatMap, List.mem_singleton] at hs
  rcases hs with ⟨d, hd, hs⟩ | rfl
  · have htable : d ∈ x.tables cells md5 := List.mem_flatMap.2 ⟨note, hnote, hd⟩
    rw [List.mem_append, List.mem_map, List.mem_singleton] at hs
    rcases hs with ⟨r, hr, rfl⟩ | rfl
    · exact .inl ⟨_, List.mem_flatMap.2 ⟨d, htable, List.mem_map_of_mem hr⟩, rfl⟩
    · exact .inr (.inl ⟨_, List.mem_map_of_mem htable, rfl⟩)
  · exact .inr (.inr ⟨_, List.mem_map_of_mem hnote, rfl⟩)

/-! ### The ids of the records -/

theorem mem_place {note : Note γ} {p : DetailItem γ × Nat} {d : Placed}
    (h : x.place cells md5 note p = some d) : ∃ df : DataFrame γ,
      d.noteNumber = note.number ∧ d.index = p.2 ∧ d.records = df.melt.map
        (tidyRecord cells md5 x.ticker x.form x.accessionNo note.number p.2) := by
  rw [Extraction.place] at h
  cases hdf : p.1.df with
  | none =>
    rw [hdf] at h
    cases h
  | some df =>
    rw [hdf] at h
    dsimp only at h
    split_ifs at h
    cases h
    exact ⟨df, rfl, rfl, records_eq cells md5 df _ _ _ _ _⟩

theorem mem_tables {d : Placed} (h : d ∈ x.tables cells md5) : ∃ note ∈ x.notes, ∃ df : DataFrame γ,
    d.noteNumber = note.number ∧ d.records = df.melt.map
      (tidyRecord cells md5 x.ticker x.form x.accessionNo d.noteNumber d.index) := by
  obtain ⟨note, hnote, hd⟩ := List.mem_flatMap.1 h
  obtain ⟨p, hp, hplace⟩ := List.mem_filterMap.1 hd
  obtain ⟨df, hnumber, hindex, hrecords⟩ := mem_place hplace
  refine ⟨note, List.mem_of_mem_filter hnote, df, hnumber, ?_⟩
  rw [hrecords, hnumber, hindex]

/-- No two tables have the same note and place. -/
theorem tables_apart (cells : Cells γ) (md5 : String → String) (x : Extraction γ) :
    (x.tables cells md5).Pairwise fun d d' =>
      (d.noteNumber, d.index) ≠ (d'.noteNumber, d'.index) := by
  rw [Extraction.tables, List.pairwise_flatMap]
  constructor
  · intro note _
    rw [Extraction.placed, List.pairwise_filterMap]
    have hindex : (note.details.zipIdx.map Prod.snd).Nodup := by
      rw [List.zipIdx_map_snd]
      exact List.nodup_range'
    rw [List.Nodup, List.pairwise_map] at hindex
    refine hindex.imp fun {p p'} hne d hd d' hd' he => hne ?_
    obtain ⟨-, -, hi, -⟩ := mem_place hd
    obtain ⟨-, -, hi', -⟩ := mem_place hd'
    rw [Prod.mk.injEq, hi, hi'] at he
    exact he.2
  · have hnumbers := x.unique
    rw [List.Nodup, List.pairwise_map] at hnumbers
    refine (hnumbers.filter _).imp fun {note note'} hne d hd d' hd' he => hne ?_
    obtain ⟨p, -, hplace⟩ := List.mem_filterMap.1 hd
    obtain ⟨p', -, hplace'⟩ := List.mem_filterMap.1 hd'
    obtain ⟨-, hnumber, -⟩ := mem_place hplace
    obtain ⟨-, hnumber', -⟩ := mem_place hplace'
    rw [Prod.mk.injEq, hnumber, hnumber'] at he
    exact he.1

theorem record_ids_nodup (cells : Cells γ) (md5 : String → String) (x : Extraction γ) :
    ((x.tables cells md5).flatMap fun d => d.records.map TidyRecord.detailId).Nodup := by
  rw [List.nodup_flatMap]
  constructor
  · intro d hd
    obtain ⟨note, -, df, -, hrecords⟩ := mem_tables hd
    rw [hrecords, List.map_map]
    exact (melt_nodup df).map_on fun m hm m' hm' h => detailId_melt_inj cells hm hm' h
  · refine (List.Pairwise.and_mem.1 (tables_apart cells md5 x)).imp fun {d d'} h => ?_
    obtain ⟨hd, hd', hne⟩ := h
    obtain ⟨-, -, df, -, hrecords⟩ := mem_tables hd
    obtain ⟨-, -, df', -, hrecords'⟩ := mem_tables hd'
    intro id hid hid'
    dsimp only at hid hid'
    rw [hrecords, List.map_map] at hid
    rw [hrecords', List.map_map] at hid'
    obtain ⟨m, -, rfl⟩ := List.mem_map.1 hid
    obtain ⟨m', -, hm'⟩ := List.mem_map.1 hid'
    obtain ⟨hnote, hidx, -, -⟩ := detailId_inj hm'
    exact hne (Prod.ext hnote.symm (Int.ofNat_inj.1 hidx.symm))

theorem mem_detailRows {row : Row} (h : row ∈ x.detailRows cells md5) :
    ∃ nowIso r, row = detailRow nowIso r ∧ row.get "detail_id" = .text r.detailId ∧
      row.get "accession_no" = .text x.accessionNo ∧
      ('|' ∉ x.accessionNo.toList → Begins r.detailId x.accessionNo) := by
  obtain ⟨d, hd, hrow⟩ := List.mem_flatMap.1 h
  obtain ⟨r, hr, rfl⟩ := List.mem_map.1 hrow
  obtain ⟨-, -, df, -, hrecords⟩ := mem_tables hd
  rw [hrecords] at hr
  obtain ⟨m, -, rfl⟩ := List.mem_map.1 hr
  refine ⟨d.recordsAt, _, rfl, ?_, ?_, fun hbar => ⟨hbar, detailId_begins _ _ _ _ _ _⟩⟩
  · rw [get_detailRow _ _ (by decide)]
    rfl
  · rw [get_detailRow _ _ (by decide)]
    rfl

/-- No two details have one id. -/
theorem detailRows_apart (cells : Cells γ) (md5 : String → String) (x : Extraction γ) :
    Apart Schemas.snNoteDetails.schema.conflicts (x.detailRows cells md5) := by
  refine Schema.apart_of_nodup keys_details ?_
  have hids : ((x.detailRows cells md5).map fun row => row.get "detail_id") =
      ((x.tables cells md5).flatMap fun d => d.records.map TidyRecord.detailId).map Value.text := by
    rw [Extraction.detailRows, List.map_flatMap, List.map_flatMap]
    refine List.flatMap_congr fun d _ => ?_
    rw [List.map_map, List.map_map]
    refine List.map_congr_left fun r _ => ?_
    rw [Function.comp_apply, get_detailRow _ _ (by decide)]
    rfl
  rw [hids]
  exact (record_ids_nodup cells md5 x).map fun a b hab => Value.text.inj hab

/-- Every statement after that of the filing can be carried out, whatever else has been. -/
theorem leafWrite (h : WellKept db) (hp : p ∈ db.rows "sn_filings")
    (hid : p.get "filing_id" = .text x.filingId)
    (ha : p.get "accession_no" = .text x.accessionNo) {s : Stmt}
    (hs : s ∈ (x.leafTasks cells md5).flatten) (now : String) : LeafWrite snTables now db s := by
  rcases mem_leafStmts hs with ⟨row, hrow, rfl⟩ | ⟨row, hrow, rfl⟩ | ⟨row, hrow, rfl⟩
  · obtain ⟨T, hT, hschema⟩ := h.declared.details
    obtain ⟨nowIso, r, rfl, -, hacc, -⟩ := mem_detailRows hrow
    refine ⟨_, _, T, rfl, by decide, h.declared.leaf (by decide), hT, ?_, ?_⟩
    · rw [hschema]
      refine Schema.Takes.admits ⟨rfl, fun c hc => .inl ?_⟩ now
      have hname : c.name ∈ detailColumns :=
        (by decide : ∀ c ∈ Schemas.snNoteDetails.schema.columns, c.name ∈ detailColumns) c hc
      rw [get_detailRow nowIso r hname]
      exact orEmpty_ne_null _ _
    · rw [hschema, coerce_detailRow, parentsPresent, List.all_eq_true]
      intro f hf
      obtain rfl := List.mem_singleton.1 hf
      rw [Bool.or_eq_true, List.any_eq_true]
      refine .inr ⟨p, hp, ?_⟩
      rw [ForeignKey.links_iff, hacc, ha]
      exact ⟨Value.noConfusion, rfl⟩
  · obtain ⟨T, hT, hschema⟩ := h.declared.registry
    obtain ⟨d, -, rfl⟩ := List.mem_map.1 hrow
    refine ⟨_, _, T, rfl, by decide, h.declared.leaf (by decide), hT, ?_, ?_⟩
    · rw [hschema]
      exact (registryRow_takes x d).admits now
    · rw [hschema]
      rfl
  · obtain ⟨T, hT, hschema⟩ := h.declared.notes
    obtain ⟨note, -, rfl⟩ := List.mem_map.1 hrow
    refine ⟨_, _, T, rfl, by decide, h.declared.leaf (by decide), hT, ?_, ?_⟩
    · rw [hschema]
      exact (noteRow_takes x note).admits now
    · rw [hschema, parentsPresent, List.all_eq_true]
      intro f hf
      obtain rfl := List.mem_singleton.1 hf
      rw [Bool.or_eq_true, List.any_eq_true]
      refine .inr ⟨p, hp, ?_⟩
      have hstored : (Schemas.snNotes.schema.coerce now (x.noteRow md5 note)).get "filing_id" =
          .text x.filingId := Schema.get_coerce_given (by decide) Value.noConfusion now
      rw [ForeignKey.links_iff, hstored, hid]
      exact ⟨Value.noConfusion, rfl⟩

end

end StockNotes
