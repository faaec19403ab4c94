import AnythingTools.StockNotes.Extractor

namespace StockNotes
open Relational Relational.Database Displace Separators
set_option autoImplicit true

/-! ### The tables -/

def snTables : List String := ["sn_filings", "sn_notes", "sn_note_details", "sn_detail_registry"]

/-- The tables are there as they are declared. -/
def Declared (db : Database) : Prop :=
  ∀ t ∈ snTables, (db.find t).map Table.schema = (Schemas.allTables.lookup t).map fun d => d.schema

theorem Declared.congr (h : Declared db) (hs : SameSchemas db db') : Declared db' := by
  intro t ht
  rw [← h t ht]
  exact (hs t).symm

theorem Declared.find (h : Declared db) (ht : t ∈ snTables)
    (hd : Schemas.allTables.lookup t = some d) : ∃ T, db.find t = some T ∧ T.schema = d.schema := by
  have hmap := h t ht
  rw [hd] at hmap
  exact Option.map_eq_some_iff.1 hmap

theorem Declared.filings (h : Declared db) :
    ∃ T, db.find "sn_filings" = some T ∧ T.schema = Schemas.snFilings.schema :=
  h.find (by decide) rfl

theorem Declared.notes (h : Declared db) :
    ∃ T, db.find "sn_notes" = some T ∧ T.schema = Schemas.snNotes.schema :=
  h.find (by decide) rfl

theorem Declared.details (h : Declared db) :
    ∃ T, db.find "sn_note_details" = some T ∧ T.schema = Schemas.snNoteDetails.schema :=
  h.find (by decide) rfl

theorem Declared.registry (h : Declared db) :
    ∃ T, db.find "sn_detail_registry" = some T ∧ T.schema = Schemas.snDetailRegistry.schema :=
  h.find (by decide) rfl

/-- The foreign keys are those of the notes and of the details. -/
theorem Declared.foreignKey (h : Declared db) (hu : u ∈ snTables) (hT : db.find u = some T)
    (hf : f ∈ T.schema.foreignKeys) :
    u = "sn_notes" ∧ f = ⟨"filing_id", "sn_filings", "filing_id"⟩ ∨
      u = "sn_note_details" ∧ f = ⟨"accession_no", "sn_filings", "accession_no"⟩ := by
  simp only [snTables, List.mem_cons, List.not_mem_nil, or_false] at hu
  have hschema {d : TableDdl} (hd : ∃ T, db.find u = some T ∧ T.schema = d.schema) :
      f ∈ d.schema.foreignKeys := by
    obtain ⟨T', hT', hd⟩ := hd
    rw [hT, Option.some.injEq] at hT'
    subst T'
    rw [← hd]
    exact hf
  rcases hu with rfl | rfl | rfl | rfl
  · cases hschema h.filings
  · exact .inl ⟨rfl, List.mem_singleton.1 (hschema h.notes)⟩
  · exact .inr ⟨rfl, List.mem_singleton.1 (hschema h.details)⟩
  · cases hschema h.registry

/-- Nothing refers to the tables below the filings. -/
theorem Declared.leaf (h : Declared db) (ht : t ≠ "sn_filings") : Leaf snTables db t where
  closed v hv := by
    obtain ⟨u, hu, T, hT, f, hf, rfl⟩ := hv
    rcases h.foreignKey hu hT hf with ⟨-, rfl⟩ | ⟨-, rfl⟩
    · decide
    · decide
  free ht' := by
    obtain ⟨u, hu, T, hT, f, hf, rfl⟩ := ht'
    rcases h.foreignKey hu hT hf with ⟨-, rfl⟩ | ⟨-, rfl⟩
    · exact ht rfl
    · exact ht rfl

/-! ### Ids -/

/-- The accession number at the end of the id of a filing. -/
def Names (filingId accessionNo : String) : Prop :=
  '|' ∉ accessionNo.toList ∧ ∃ front, filingId = front ++ "|" ++ accessionNo

theorem Names.unique (h : Names filingId accessionNo) (h' : Names filingId accessionNo') :
    accessionNo = accessionNo' := by
  obtain ⟨hbar, front, rfl⟩ := h
  obtain ⟨hbar', front', he⟩ := h'
  have hlist := congrArg String.toList he
  simp only [String.toList_append, List.append_assoc] at hlist
  have hsep {a : String} (ha : '|' ∉ a.toList) : Separable ['|'].reverse a.toList.reverse :=
    separable_singleton.2 fun hm => ha (List.mem_reverse.1 hm)
  exact String.toList_inj.1 (Separable.append_inj_right (hsep hbar) (hsep hbar') hlist).2

/-- The accession number at the front of the id of a detail. -/
def Begins (id accessionNo : String) : Prop :=
  '|' ∉ accessionNo.toList ∧ ∃ rest, id = accessionNo ++ "|" ++ rest

theorem Begins.unique {id : String} (h : Begins id accessionNo) (h' : Begins id accessionNo') :
    accessionNo = accessionNo' := by
  obtain ⟨hbar, rest, rfl⟩ := h
  obtain ⟨hbar', rest', he⟩ := h'
  have hlist := congrArg String.toList he
  simp only [String.toList_append, List.append_assoc] at hlist
  exact String.toList_inj.1
    (Separable.append_inj (separable_singleton.2 hbar) (separable_singleton.2 hbar') hlist).1

theorem noteId_inj (h : noteId filingId number = noteId filingId' number') :
    filingId = filingId' ∧ number = number' := by
  have hlist := congrArg String.toList h
  simp only [noteId, String.toList_append] at hlist
  have hbar (n : Int) : '|' ∉ ('N' :: (toString n).toList) := fun hm => by
    rcases List.mem_cons.1 hm with hN | hm
    · cases hN
    · exact bar_notMem_intString n hm
  have hsep (n : Int) : Separable ['|'].reverse ('N' :: (toString n).toList).reverse :=
    separable_singleton.2 fun hm => hbar n (List.mem_reverse.1 hm)
  have hsplit (f : String) (n : Int) : f.toList ++ "|N".toList ++ (toString n).toList =
      f.toList ++ (['|'] ++ 'N' :: (toString n).toList) := by
    rw [List.append_assoc]
    rfl
  rw [hsplit, hsplit] at hlist
  obtain ⟨hid, hnum⟩ := Separable.append_inj_right (hsep number) (hsep number') hlist
  exact ⟨String.toList_inj.1 hid,
    Int.repr_injective (String.toList_inj.1 (List.cons.inj hnum).2)⟩

/-! ### The invariant -/

/-- The rows carry the ids of what they belong to, and what they belong to is there. -/
structure WellKept (db : Database) : Prop where
  declared : Declared db
  filing : ∀ r ∈ db.rows "sn_filings", ∃ id a, Names id a ∧ r.get "filing_id" = .text id ∧
    r.get "accession_no" = .text a
  note : ∀ r ∈ db.rows "sn_notes", ∃ id a number, Names id a ∧ r.get "filing_id" = .text id ∧
    r.get "accession_no" = .text a ∧ r.get "note_id" = .text (noteId id number) ∧
    ∃ p ∈ db.rows "sn_filings", p.get "filing_id" = .text id
  detail : ∀ r ∈ db.rows "sn_note_details", ∃ id a, Begins id a ∧ r.get "detail_id" = .text id ∧
    r.get "accession_no" = .text a ∧
    ∃ p ∈ db.rows "sn_filings", p.get "accession_no" = .text a

/-- Rows may be lost as long as the filings of the others stay. -/
theorem WellKept.of_rows (h : WellKept db) (hs : SameSchemas db db')
    (hf : ∀ r, r ∈ db'.rows "sn_filings" ↔ r ∈ db.rows "sn_filings")
    (hn : ∀ r ∈ db'.rows "sn_notes", r ∈ db.rows "sn_notes")
    (hd : ∀ r ∈ db'.rows "sn_note_details", r ∈ db.rows "sn_note_details") : WellKept db' where
  declared := h.declared.congr hs
  filing r hr := h.filing r ((hf r).1 hr)
  note r hr := by
    obtain ⟨id, a, number, hnames, hid, ha, hnote, p, hp, hpid⟩ := h.note r (hn r hr)
    exact ⟨id, a, number, hnames, hid, ha, hnote, p, (hf p).2 hp, hpid⟩
  detail r hr := by
    obtain ⟨id, a, hbegins, hid, ha, p, hp, hpa⟩ := h.detail r (hd r hr)
    exact ⟨id, a, hbegins, hid, ha, p, (hf p).2 hp, hpa⟩

theorem WellKept.same (h : WellKept db) (hs : Same snTables db db') : WellKept db' := by
  refine h.of_rows hs.schemas (fun r => ?_) (fun r hr => ?_) (fun r hr => ?_)
  · rw [hs.rows _ (by decide)]
  · rw [hs.rows _ (by decide)] at hr
    exact hr
  · rw [hs.rows _ (by decide)] at hr
    exact hr

/-! ### Deletions -/

/-- The tables of which the rows of a filing are deleted. -/
def deletable : List String := ["sn_note_details", "sn_detail_registry", "sn_notes"]

theorem accession_text (h : Declared db) (hu : u ∈ deletable) (hT : db.find u = some T) :
    T.schema.affinity (accessionColumn u) = .text := by
  have hschema {d : TableDdl} (hd : ∃ T, db.find u = some T ∧ T.schema = d.schema) :
      T.schema = d.schema := by
    obtain ⟨T', hT', hd⟩ := hd
    rw [hT, Option.some.injEq] at hT'
    rw [hT', hd]
  simp only [deletable, List.mem_cons, List.not_mem_nil, or_false] at hu
  rcases hu with rfl | rfl | rfl
  · rw [hschema h.details]
    decide
  · rw [hschema h.registry]
    decide
  · rw [hschema h.notes]
    decide

/-- The rows with the accession number go, and nothing else. -/
theorem WellKept.deleted (h : WellKept db) (hu : u ∈ deletable)
    (hd : Drained snTables db [deleteRowsOf u a] db') :
    WellKept db' ∧ ∀ v ∈ snTables, ∀ r, r ∈ db'.rows v ↔
      r ∈ db.rows v ∧ ¬ (v = u ∧ r.get (accessionColumn u) = .text a) := by
  obtain ⟨now, db₀, hbefore, hafter⟩ := hd.single
  have h₀ := h.same hbefore
  have hmem : u ∈ snTables ∧ u ≠ "sn_filings" := by
    simp only [deletable, List.mem_cons, List.not_mem_nil, or_false] at hu
    rcases hu with rfl | rfl | rfl <;> decide
  obtain ⟨T, hT⟩ : ∃ T, db₀.find u = some T := by
    have hfind := h₀.declared u hmem.1
    simp only [deletable, List.mem_cons, List.not_mem_nil, or_false] at hu
    rcases hu with rfl | rfl | rfl <;> exact (Option.map_eq_some_iff.1 hfind).imp fun T hT => hT.1
  have hmatch (r : Row) : T.schema.matchesKey [(accessionColumn u, .text a)] r = true ↔
      r.get (accessionColumn u) = .text a := by
    have hbind : (T.schema.bind [(accessionColumn u, .text a)]).get (accessionColumn u) =
        .text a := by
      rw [Schema.get_bind, accession_text h₀.declared hu hT, Row.get_cons, if_pos rfl]
      rfl
    rw [Schema.matchesKey, Row.sameKey_iff]
    simp only [Row.columns, List.map_cons, List.map_nil, List.mem_singleton, forall_eq, hbind]
    exact ⟨fun hc => hc.2.symm, fun hr => ⟨Value.noConfusion, hr.symm⟩⟩
  have hexec : exec now db₀ (.delete u [(accessionColumn u, .text a)]) =
      .ok (db₀.deleteRows u fun r => T.schema.matchesKey [(accessionColumn u, .text a)] r) := by
    rw [exec, hT]
  have hcommit : commit now db₀ (deleteRowsOf u a) =
      db₀.deleteRows u fun r => T.schema.matchesKey [(accessionColumn u, .text a)] r := by
    rw [commit, deleteRowsOf, execAll, hexec]
    rfl
  rw [hcommit] at hafter
  have hrows (v) (hv : v ∈ snTables) (r : Row) : r ∈ db'.rows v ↔
      r ∈ db.rows v ∧ ¬ (v = u ∧ r.get (accessionColumn u) = .text a) := by
    have hleaf : Leaf snTables db₀ u := h₀.declared.leaf hmem.2
    rw [hafter.rows v hv, mem_deleteRows, hmatch, hbefore.rows v hv,
      and_iff_left (hleaf.not_doomed (fun v q hd => hd.1) hv)]
  refine ⟨?_, hrows⟩
  refine h.of_rows (hbefore.schemas.trans ((exec_sameSchemas hexec).trans hafter.schemas))
    (fun r => ?_) (fun r hr => ((hrows _ (by decide) r).1 hr).1)
    fun r hr => ((hrows _ (by decide) r).1 hr).1
  rw [hrows _ (by decide) r]
  exact and_iff_left fun hc => hmem.2 hc.1.symm

/-- Deletions from several tables. -/
theorem WellKept.refreshed {us : List String} (h : WellKept db) (hus : ∀ u ∈ us, u ∈ deletable)
    (hd : Drained snTables db (us.map (deleteRowsOf · a)) db') :
    WellKept db' ∧ ∀ v ∈ snTables, ∀ r, r ∈ db'.rows v ↔
      r ∈ db.rows v ∧ ¬ (v ∈ us ∧ r.get (accessionColumn v) = .text a) := by
  induction us generalizing db with
  | nil =>
    have hsame := hd.same
    refine ⟨h.same hsame, fun v hv r => ?_⟩
    rw [hsame.rows v hv]
    exact (and_iff_left fun hc => absurd hc.1 List.not_mem_nil).symm
  | cons u us ih =>
    have hcons : Drained snTables db ([deleteRowsOf u a] ++ us.map (deleteRowsOf · a)) db' := hd
    obtain ⟨db₁, hfirst, hlast⟩ := hcons.split
    obtain ⟨h₁, hrows₁⟩ := h.deleted (hus u List.mem_cons_self) hfirst
    obtain ⟨h', hrows⟩ := ih h₁ (fun v hv => hus v (List.mem_cons_of_mem u hv)) hlast
    refine ⟨h', fun v hv r => ?_⟩
    rw [hrows v hv, hrows₁ v hv, List.mem_cons, and_assoc]
    refine and_congr_right fun _ => ?_
    constructor
    · rintro ⟨hne, hnot⟩ ⟨rfl | hmem, hr⟩
      · exact hne ⟨rfl, hr⟩
      · exact hnot ⟨hmem, hr⟩
    · refine fun hnot => ⟨?_, fun hc => hnot ⟨.inr hc.1, hc.2⟩⟩
      rintro ⟨rfl, hr⟩
      exact hnot ⟨.inl rfl, hr⟩

/-! ### The row of a filing -/

theorem keys_filings : Schemas.snFilings.schema.keys = [["filing_id"], ["accession_no"]] := by
  decide

theorem keys_notes : Schemas.snNotes.schema.keys = [["note_id"]] := by decide

theorem keys_details : Schemas.snNoteDetails.schema.keys = [["detail_id"]] := by decide

section
variable {γ : Type} {md5 : String → String} {x : Extraction γ}

theorem filingId_names (hbar : '|' ∉ x.accessionNo.toList) :
    Names x.filingId x.accessionNo :=
  ⟨hbar, x.ticker ++ "|" ++ x.form, rfl⟩

theorem filingRow_takes (x : Extraction γ) :
    Schemas.snFilings.schema.Takes (x.filingRow md5) := by
  refine ⟨rfl, fun c hc => ?_⟩
  have hvalues : ∀ p ∈ x.filingRow md5, p.2 ≠ Value.null := by
    simp [Extraction.filingRow]
  have hcolumns : ∀ c ∈ Schemas.snFilings.schema.columns,
      c.name ∈ (x.filingRow md5).columns ∨ c.notnull = true ∧ c.dfltValue.isSome = true := by
    simp only [Extraction.filingRow, Row.columns, List.map_cons, List.map_nil]
    decide
  exact (hcolumns c hc).imp_left (Row.get_ne_null hvalues)

/-- The row as it is stored. -/
def Extraction.filed (md5 : String → String) (x : Extraction γ) (now : String) : Row :=
  Schemas.snFilings.schema.coerce now (x.filingRow md5)

theorem filed_filingId (x : Extraction γ) (now : String) :
    (x.filed md5 now).get "filing_id" = .text x.filingId :=
  Schema.get_coerce_given (by decide) Value.noConfusion now

theorem filed_accessionNo (x : Extraction γ) (now : String) :
    (x.filed md5 now).get "accession_no" = .text x.accessionNo :=
  Schema.get_coerce_given (by decide) Value.noConfusion now

/-- A filing gives way to one with its accession number, and to no other. -/
theorem WellKept.filing_conflicts (h : WellKept db) (hbar : '|' ∉ x.accessionNo.toList)
    (hp : p ∈ db.rows "sn_filings") (now : String) :
    Schemas.snFilings.schema.conflicts (x.filed md5 now) p = true ↔
      p.get "accession_no" = .text x.accessionNo := by
  obtain ⟨id, a, hnames, hid, ha⟩ := h.filing p hp
  rw [Schema.conflicts_iff, keys_filings]
  simp only [List.mem_cons, List.not_mem_nil, or_false, exists_eq_or_imp, exists_eq_left,
    Row.sameKey_iff, forall_eq, filed_filingId, filed_accessionNo, hid, ha]
  constructor
  · rintro (⟨-, he⟩ | ⟨-, he⟩)
    · rw [Value.text.injEq] at he
      subst id
      rw [(filingId_names hbar).unique hnames]
    · exact he.symm
  · exact fun he => .inr ⟨Value.noConfusion, he.symm⟩

/-- The statement of the filing. -/
def Extraction.filingStmt (md5 : String → String) (x : Extraction γ) : Stmt :=
  .replace "sn_filings" (x.filingRow md5)

theorem strikes_filing (h : Declared db) (now u r) :
    strikes now db (x.filingStmt md5) u r = true ↔
      u = "sn_filings" ∧ Schemas.snFilings.schema.conflicts (x.filed md5 now) r = true := by
  obtain ⟨T, hT, hschema⟩ := h.filings
  rw [Extraction.filingStmt, strikes_replace hT, hschema]
  rfl

theorem stores_filing (h : Declared db) (now u r) :
    stores now db (x.filingStmt md5) u r ↔ u = "sn_filings" ∧ r = x.filed md5 now := by
  obtain ⟨T, hT, hschema⟩ := h.filings
  constructor
  · rintro ⟨row, T', hs, hT', hr⟩
    cases hs
    rw [hT, Option.some.injEq] at hT'
    subst T'
    rw [hschema] at hr
    exact ⟨rfl, hr⟩
  · rintro ⟨rfl, hr⟩
    refine ⟨_, T, rfl, hT, ?_⟩
    rw [hschema]
    exact hr

theorem exec_filing (h : Declared db) (md5 : String → String) (x : Extraction γ) (now : String) :
    ∃ db', exec now db (x.filingStmt md5) = .ok db' := by
  obtain ⟨T, hT, hschema⟩ := h.filings
  rw [Extraction.filingStmt, exec, replaceRow, hT]
  dsimp only
  rw [hschema, if_pos ((filingRow_takes x).admits now)]
  refine ⟨_, if_pos ?_⟩
  rw [parentsPresent]
  rfl

theorem WellKept.struck_filing (h : WellKept db) (hbar : '|' ∉ x.accessionNo.toList) (now p) :
    struckBy now db (x.filingStmt md5) "sn_filings" p ↔
      p ∈ db.rows "sn_filings" ∧ p.get "accession_no" = .text x.accessionNo := by
  rw [struckBy, strikes_filing h.declared]
  refine and_congr_right fun hp => ?_
  rw [eq_self, true_and, h.filing_conflicts hbar hp]

/-- The filings refer to nothing. -/
theorem Declared.not_doomed_filing (h : Declared db) : ¬ Doomed db.tables dead "sn_filings" q := by
  intro hd
  cases hd with
  | direct _ hT _ hf _ =>
    rcases h.foreignKey (by decide) hT hf with ⟨hv, -⟩ | ⟨hv, -⟩ <;> exact absurd hv (by decide)
  | chain _ hT _ hf _ =>
    rcases h.foreignKey (by decide) hT hf with ⟨hv, -⟩ | ⟨hv, -⟩ <;> exact absurd hv (by decide)

/-- A row goes with the filing that it names. -/
theorem WellKept.accession_of_doomed (h : WellKept db) (hbar : '|' ∉ x.accessionNo.toList)
    (hu : u ∈ snTables) (hr : r ∈ db.rows u)
    (hd : Doomed db.tables (struckBy now db (x.filingStmt md5)) u r) :
    u ∈ ["sn_notes", "sn_note_details"] ∧ r.get "accession_no" = .text x.accessionNo := by
  cases hd with
  | direct hdead hT _ hf hl =>
    rw [ForeignKey.links_iff] at hl
    rcases h.declared.foreignKey hu hT hf with ⟨rfl, rfl⟩ | ⟨rfl, rfl⟩
    · obtain ⟨hp, hpa⟩ := (h.struck_filing hbar now _).1 hdead
      obtain ⟨id, a, number, hnames, hid, ha, -⟩ := h.note _ hr
      obtain ⟨id', a', hnames', hid', ha'⟩ := h.filing _ hp
      have hids := hl.2
      rw [hid, hid', Value.text.injEq] at hids
      subst hids
      rw [ha', Value.text.injEq] at hpa
      rw [ha, hnames.unique hnames', hpa]
      exact ⟨by decide, rfl⟩
    · obtain ⟨-, hpa⟩ := (h.struck_filing hbar now _).1 hdead
      exact ⟨by decide, hl.2.trans hpa⟩
  | chain hd' hT _ hf _ =>
    rcases h.declared.foreignKey hu hT hf with ⟨-, rfl⟩ | ⟨-, rfl⟩
    · exact absurd hd' h.declared.not_doomed_filing
    · exact absurd hd' h.declared.not_doomed_filing

theorem WellKept.note_doomed (h : WellKept db) (hbar : '|' ∉ x.accessionNo.toList)
    (hr : r ∈ db.rows "sn_notes") (ha : r.get "accession_no" = .text x.accessionNo) :
    Doomed db.tables (struckBy now db (x.filingStmt md5)) "sn_notes" r := by
  obtain ⟨T, hT, hschema⟩ := h.declared.notes
  obtain ⟨id, a, number, hnames, hid, ha', -, p, hp, hpid⟩ := h.note _ hr
  obtain ⟨id', a', hnames', hid', hpa⟩ := h.filing p hp
  rw [hpid, Value.text.injEq] at hid'
  subst hid'
  rw [ha, Value.text.injEq] at ha'
  subst ha'
  rw [rows_of_find hT] at hr
  rw [hnames'.unique hnames] at hpa
  refine .direct (f := ⟨"filing_id", "sn_filings", "filing_id"⟩)
    ((h.struck_filing hbar now p).2 ⟨hp, hpa⟩) hT hr ?_ ?_
  · rw [hschema]
    exact List.mem_singleton_self _
  · rw [ForeignKey.links_iff, hid, hpid]
    exact ⟨Value.noConfusion, rfl⟩

theorem WellKept.detail_doomed (h : WellKept db) (hbar : '|' ∉ x.accessionNo.toList)
    (hr : r ∈ db.rows "sn_note_details") (ha : r.get "accession_no" = .text x.accessionNo) :
    Doomed db.tables (struckBy now db (x.filingStmt md5)) "sn_note_details" r := by
  obtain ⟨T, hT, hschema⟩ := h.declared.details
  obtain ⟨id, a, -, -, ha', p, hp, hpa⟩ := h.detail _ hr
  rw [ha, Value.text.injEq] at ha'
  subst ha'
  rw [rows_of_find hT] at hr
  refine .direct (f := ⟨"accession_no", "sn_filings", "accession_no"⟩)
    ((h.struck_filing hbar now p).2 ⟨hp, hpa⟩) hT hr ?_ ?_
  · rw [hschema]
    exact List.mem_singleton_self _
  · rw [ForeignKey.links_iff, ha, hpa]
    exact ⟨Value.noConfusion, rfl⟩

/-- What the statement of the filing leaves in each table. -/
structure Filed (md5 : String → String) (x : Extraction γ) (now : String) (db db' : Database) :
    Prop where
  filings : ∀ r, r ∈ db'.rows "sn_filings" ↔
    (r ∈ db.rows "sn_filings" ∧ r.get "accession_no" ≠ .text x.accessionNo) ∨ r = x.filed md5 now
  below : ∀ u ∈ ["sn_notes", "sn_note_details"], ∀ r, r ∈ db'.rows u ↔
    r ∈ db.rows u ∧ r.get "accession_no" ≠ .text x.accessionNo
  registry : ∀ r, r ∈ db'.rows "sn_detail_registry" ↔ r ∈ db.rows "sn_detail_registry"

theorem WellKept.exec_filed (h : WellKept db) (hbar : '|' ∉ x.accessionNo.toList)
    (hexec : exec now db (x.filingStmt md5) = .ok db') : Filed md5 x now db db' where
  filings r := by
    rw [mem_exec hexec, stores_filing h.declared, strikes_filing h.declared, eq_self, true_and,
      true_and, and_iff_left h.declared.not_doomed_filing]
    exact or_congr_left (and_congr_right fun hr => not_congr (h.filing_conflicts hbar hr now))
  below u hu r := by
    rw [mem_exec hexec, stores_filing h.declared, strikes_filing h.declared]
    have hne : u ≠ "sn_filings" := by
      rintro rfl
      exact absurd hu (by decide)
    have hin : u ∈ snTables := by
      simp only [List.mem_cons, List.not_mem_nil, or_false] at hu
      rcases hu with rfl | rfl <;> decide
    rw [or_iff_left fun hs => hne hs.1]
    refine and_congr_right fun hr => ?_
    rw [and_iff_right fun hk => hne hk.1]
    refine not_congr ⟨fun hd => (h.accession_of_doomed hbar hin hr hd).2, fun ha => ?_⟩
    simp only [List.mem_cons, List.not_mem_nil, or_false] at hu
    rcases hu with rfl | rfl
    · exact h.note_doomed hbar hr ha
    · exact h.detail_doomed hbar hr ha
  registry r := by
    rw [mem_exec hexec, stores_filing h.declared, strikes_filing h.declared]
    have hne : "sn_detail_registry" ≠ "sn_filings" := by decide
    rw [or_iff_left fun hs => hne hs.1, and_iff_left_iff_imp]
    intro hr
    exact ⟨fun hk => hne hk.1, fun hd =>
      absurd (h.accession_of_doomed hbar (by decide) hr hd).1 (by decide)⟩

theorem Filed.wellKept (h : WellKept db) (hbar : '|' ∉ x.accessionNo.toList)
    (hs : SameSchemas db db') (hf : Filed md5 x now db db') : WellKept db' where
  declared := h.declared.congr hs
  filing r hr := by
    rcases (hf.filings r).1 hr with ⟨hold, -⟩ | rfl
    · exact h.filing r hold
    · exact ⟨_, _, filingId_names hbar, filed_filingId x now, filed_accessionNo x now⟩
  note r hr := by
    obtain ⟨hold, hne⟩ := (hf.below _ (by decide) r).1 hr
    obtain ⟨id, a, number, hnames, hid, ha, hnote, p, hp, hpid⟩ := h.note r hold
    obtain ⟨id', a', hnames', hid', hpa⟩ := h.filing p hp
    refine ⟨id, a, number, hnames, hid, ha, hnote, p, (hf.filings p).2 (.inl ⟨hp, ?_⟩), hpid⟩
    rw [hpid, Value.text.injEq] at hid'
    subst hid'
    rw [hpa, ← hnames.unique hnames', ← ha]
    exact hne
  detail r hr := by
    obtain ⟨hold, hne⟩ := (hf.below _ (by decide) r).1 hr
    obtain ⟨id, a, hbegins, hid, ha, p, hp, hpa⟩ := h.detail r hold
    refine ⟨id, a, hbegins, hid, ha, p, (hf.filings p).2 (.inl ⟨hp, ?_⟩), hpa⟩
    rw [hpa, ← ha]
    exact hne

/-- With the row of the filing go the notes and details of the one before it. -/
theorem WellKept.drained_filing (h : WellKept db) (hbar : '|' ∉ x.accessionNo.toList)
    (hd : Drained snTables db [[x.filingStmt md5]] db') :
    WellKept db' ∧ ∃ now, Filed md5 x now db db' := by
  obtain ⟨now, db₀, hbefore, hafter⟩ := hd.single
  have h₀ := h.same hbefore
  obtain ⟨db₁, hexec⟩ := exec_filing h₀.declared md5 x now
  have hcommit : commit now db₀ [x.filingStmt md5] = db₁ := by
    rw [commit, execAll, hexec]
    rfl
  rw [hcommit] at hafter
  have hfiled := h₀.exec_filed hbar hexec
  have h₁ := hfiled.wellKept h₀ hbar (exec_sameSchemas hexec)
  refine ⟨h₁.same hafter, now, ?_, fun u hu r => ?_, fun r => ?_⟩
  · intro r
    rw [hafter.rows _ (by decide), hfiled.filings, hbefore.rows _ (by decide)]
  · have hin : u ∈ snTables := by
      simp only [List.mem_cons, List.not_mem_nil, or_false] at hu
      rcases hu with rfl | rfl <;> decide
    rw [hafter.rows u hin, hfiled.below u hu, hbefore.rows u hin]
  · rw [hafter.rows _ (by decide), hfiled.registry, hbefore.rows _ (by decide)]

end

end StockNotes
