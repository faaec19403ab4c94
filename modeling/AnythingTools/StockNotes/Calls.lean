import AnythingTools.StockNotes.Extracted

namespace StockNotes
open Relational Relational.Database Displace
set_option autoImplicit true

/-- A call of the extraction, with how many details it counted. -/
structure Call (γ : Type) where
  filing : Extraction γ
  forceRefresh : Bool
  count : Nat

section
variable {γ : Type} {md5 : String → String}

/-- The tables that a refresh deletes from. -/
def Call.refreshed (c : Call γ) : List String :=
  if c.forceRefresh then
    (if 0 < c.count then ["sn_note_details"] else []) ++ ["sn_detail_registry", "sn_notes"]
  else []

theorem refreshed_deletable (c : Call γ) : ∀ u ∈ c.refreshed, u ∈ deletable := by
  rw [Call.refreshed]
  split_ifs <;> decide

/-- A note as it is stored. -/
theorem noteRow_stored (md5 : String → String) (x : Extraction γ) (note : Note γ) (now : String) :
    (Schemas.snNotes.schema.coerce now (x.noteRow md5 note)).get "note_id" =
        .text (noteId x.filingId note.number) ∧
      (Schemas.snNotes.schema.coerce now (x.noteRow md5 note)).get "filing_id" =
        .text x.filingId ∧
      (Schemas.snNotes.schema.coerce now (x.noteRow md5 note)).get "accession_no" =
        .text x.accessionNo :=
  ⟨Schema.get_coerce_given (by decide) Value.noConfusion now,
    Schema.get_coerce_given (by decide) Value.noConfusion now,
    Schema.get_coerce_given (by decide) Value.noConfusion now⟩

theorem noteRows_apart (x : Extraction γ)
    (hws : Schemas.snNotes.schema.StoredAs (x.noteRows md5) ws) :
    Apart Schemas.snNotes.schema.conflicts ws := by
  refine Schema.apart_of_nodup keys_notes ?_
  rw [hws.map_get (by decide)]
  · rw [Extraction.noteRows, List.map_map]
    have hnumbers := (x.unique.sublist ((List.filter_sublist (p := Note.readable)).map Note.number))
    have hids : (x.readableNotes.map ((fun row => Row.get row "note_id") ∘ x.noteRow md5)) =
        (x.readableNotes.map Note.number).map fun n => .text (noteId x.filingId n) := by
      rw [List.map_map]
      rfl
    rw [hids]
    exact hnumbers.map fun a b hab => (noteId_inj (Value.text.inj hab)).2
  · intro row hrow
    obtain ⟨note, -, rfl⟩ := List.mem_map.1 hrow
    exact Value.noConfusion

end

section
variable {γ : Type} [BEq γ] {cells : Cells γ} {md5 : String → String} {c : Call γ}

def Call.tasks (cells : Cells γ) (md5 : String → String) (c : Call γ) : List (List Stmt) :=
  extractAndPersistFiling cells md5 c.filing c.forceRefresh c.count

/-- The rows of a filing are those of this call: each of its tables, of its notes and of its
details, and after a refresh no other entry is in the registry. -/
structure Call.Kept (cells : Cells γ) (md5 : String → String) (c : Call γ) (db : Database) :
    Prop where
  filing : ∃ now, ∀ r, (r ∈ db.rows "sn_filings" ∧
    r.get "accession_no" = .text c.filing.accessionNo) ↔ r = c.filing.filed md5 now
  details : ∀ r, (r ∈ db.rows "sn_note_details" ∧
    r.get "accession_no" = .text c.filing.accessionNo) ↔ r ∈ c.filing.detailRows cells md5
  notes : ∀ r ∈ db.rows "sn_notes", r.get "accession_no" = .text c.filing.accessionNo →
    ∃ row ∈ c.filing.noteRows md5, ∃ now, r = Schemas.snNotes.schema.coerce now row
  eachNote : ∀ row ∈ c.filing.noteRows md5, ∃ now,
    Schemas.snNotes.schema.coerce now row ∈ db.rows "sn_notes"
  registry : c.forceRefresh = true → ∀ r ∈ db.rows "sn_detail_registry",
    r.get "source_accession_no" = .text c.filing.accessionNo →
      ∃ row ∈ c.filing.registryRows cells md5, ∃ now,
        r = Schemas.snDetailRegistry.schema.coerce now row

/-- The rows of a filing stay as they are, and it has no new entry in the registry. -/
structure Untouched (a : String) (db db' : Database) : Prop where
  rows : ∀ u ∈ ["sn_filings", "sn_notes", "sn_note_details"], ∀ r, r.get "accession_no" = .text a →
    (r ∈ db'.rows u ↔ r ∈ db.rows u)
  registry : ∀ r ∈ db'.rows "sn_detail_registry", r.get "source_accession_no" = .text a →
    r ∈ db.rows "sn_detail_registry"

theorem Untouched.trans (h : Untouched a db₁ db₂) (h' : Untouched a db₂ db₃) :
    Untouched a db₁ db₃ where
  rows u hu r ha := (h'.rows u hu r ha).trans (h.rows u hu r ha)
  registry r hr ha := h.registry r (h'.registry r hr ha) ha

theorem Untouched.kept (h : c.Kept cells md5 db) (hu : Untouched c.filing.accessionNo db db') :
    c.Kept cells md5 db' where
  filing := by
    obtain ⟨now, hnow⟩ := h.filing
    refine ⟨now, fun r => ?_⟩
    rw [← hnow r]
    exact and_congr_left fun ha => hu.rows _ (by decide) r ha
  details r := by
    rw [← h.details r]
    exact and_congr_left fun ha => hu.rows _ (by decide) r ha
  notes r hr ha := h.notes r ((hu.rows _ (by decide) r ha).1 hr) ha
  eachNote row hrow := by
    obtain ⟨now, hm⟩ := h.eachNote row hrow
    obtain ⟨note, -, rfl⟩ := List.mem_map.1 hrow
    exact ⟨now, (hu.rows _ (by decide) _ (noteRow_stored md5 c.filing note now).2.2).2 hm⟩
  registry hforce r hr ha := h.registry hforce r (hu.registry r hr ha) ha

theorem tasks_eq (cells : Cells γ) (md5 : String → String) (c : Call γ) : c.tasks cells md5 =
    c.refreshed.map (deleteRowsOf · c.filing.accessionNo) ++
      ([[c.filing.filingStmt md5]] ++ c.filing.leafTasks cells md5) := by
  rw [Call.tasks, extractAndPersistFiling, Call.refreshed, List.append_assoc]
  congr 1
  rw [deleteFilingData]
  cases c.forceRefresh with
  | false => rfl
  | true =>
    rw [if_pos rfl, if_pos rfl]
    split <;> rfl

/-! ### What follows the filing -/

/-- What the tasks after that of the filing leave in each table. -/
structure Below (cells : Cells γ) (md5 : String → String) (x : Extraction γ)
    (db db' : Database) : Prop where
  filings : ∀ r, r ∈ db'.rows "sn_filings" ↔ r ∈ db.rows "sn_filings"
  details : ∀ r, r ∈ db'.rows "sn_note_details" ↔
    (r ∈ db.rows "sn_note_details" ∧ ∀ row ∈ x.detailRows cells md5,
      Schemas.snNoteDetails.schema.conflicts row r = false) ∨ r ∈ x.detailRows cells md5
  notes : ∃ ws, Schemas.snNotes.schema.StoredAs (x.noteRows md5) ws ∧
    ∀ r, r ∈ db'.rows "sn_notes" ↔ (r ∈ db.rows "sn_notes" ∧
      ∀ w ∈ ws, Schemas.snNotes.schema.conflicts w r = false) ∨ r ∈ ws
  registry : ∃ ws, Schemas.snDetailRegistry.schema.StoredAs (x.registryRows cells md5) ws ∧
    ∀ r ∈ db'.rows "sn_detail_registry", r ∈ db.rows "sn_detail_registry" ∨ r ∈ ws

theorem rowsAt_filings (cells : Cells γ) (md5 : String → String) (x : Extraction γ) :
    Stmt.rowsAt "sn_filings" (x.leafTasks cells md5).flatten = [] := by
  rw [Stmt.rowsAt, List.filterMap_eq_nil_iff]
  intro s hs
  rcases mem_leafStmts hs with ⟨row, -, rfl⟩ | ⟨row, -, rfl⟩ | ⟨row, -, rfl⟩ <;>
    exact if_neg (by decide)

theorem WellKept.drained_below (h : WellKept db) {x : Extraction γ} (hp : p ∈ db.rows "sn_filings")
    (hid : p.get "filing_id" = .text x.filingId)
    (ha : p.get "accession_no" = .text x.accessionNo)
    (hd : Drained snTables db (x.leafTasks cells md5) db') :
    SameSchemas db db' ∧ Below cells md5 x db db' := by
  obtain ⟨hs, hall⟩ := hd.leaf fun ss hss s hs now =>
    leafWrite h hp hid ha (List.mem_flatten.2 ⟨ss, hss, hs⟩) now
  refine ⟨hs, ?_, ?_, ?_, ?_⟩
  · obtain ⟨T, hT, -⟩ := h.declared.filings
    obtain ⟨ws, hws, hmem⟩ := hall _ (by decide) T hT
    rw [rowsAt_filings] at hws
    cases hws
    exact hmem
  · obtain ⟨T, hT, hschema⟩ := h.declared.details
    obtain ⟨ws, hws, hmem⟩ := hall _ (by decide) T hT
    rw [rowsAt_details, hschema] at hws
    have hrows : ws = x.detailRows cells md5 := hws.eq fun row hrow now => by
      obtain ⟨nowIso, r, rfl, -⟩ := mem_detailRows hrow
      exact coerce_detailRow nowIso r now
    intro r
    rw [hmem r, hschema, hrows,
      mem_putAll_apart (Schema.conflicts_comm _) (detailRows_apart cells md5 x)]
  · obtain ⟨T, hT, hschema⟩ := h.declared.notes
    obtain ⟨ws, hws, hmem⟩ := hall _ (by decide) T hT
    rw [rowsAt_notes, hschema] at hws
    refine ⟨ws, hws, fun r => ?_⟩
    rw [hmem r, hschema, mem_putAll_apart (Schema.conflicts_comm _) (noteRows_apart x hws)]
  · obtain ⟨T, hT, hschema⟩ := h.declared.registry
    obtain ⟨ws, hws, hmem⟩ := hall _ (by decide) T hT
    rw [rowsAt_registry, hschema] at hws
    refine ⟨ws, hws, fun r hr => ?_⟩
    rcases mem_putAll.1 ((hmem r).1 hr) with ⟨hold, -⟩ | ⟨as₁, as₂, rfl, -⟩
    · exact .inl hold
    · exact .inr (List.mem_append_right as₁ List.mem_cons_self)

theorem Below.wellKept (h : WellKept db) {x : Extraction γ} (hbar : '|' ∉ x.accessionNo.toList)
    (hp : p ∈ db.rows "sn_filings") (hid : p.get "filing_id" = .text x.filingId)
    (ha : p.get "accession_no" = .text x.accessionNo) (hs : SameSchemas db db')
    (hb : Below cells md5 x db db') : WellKept db' where
  declared := h.declared.congr hs
  filing r hr := h.filing r ((hb.filings r).1 hr)
  note r hr := by
    obtain ⟨ws, hws, hmem⟩ := hb.notes
    rcases (hmem r).1 hr with ⟨hold, -⟩ | hnew
    · obtain ⟨id, a, number, hnames, hid', ha', hnote, q, hq, hqid⟩ := h.note r hold
      exact ⟨id, a, number, hnames, hid', ha', hnote, q, (hb.filings q).2 hq, hqid⟩
    · obtain ⟨row, hrow, now, rfl⟩ := hws.mem hnew
      obtain ⟨note, -, rfl⟩ := List.mem_map.1 hrow
      obtain ⟨hnote, hfid, hacc⟩ := noteRow_stored md5 x note now
      exact ⟨_, _, _, filingId_names hbar, hfid, hacc, hnote, p, (hb.filings p).2 hp, hid⟩
  detail r hr := by
    rcases (hb.details r).1 hr with ⟨hold, -⟩ | hnew
    · obtain ⟨id, a, hbegins, hid', ha', q, hq, hqa⟩ := h.detail r hold
      exact ⟨id, a, hbegins, hid', ha', q, (hb.filings q).2 hq, hqa⟩
    · obtain ⟨nowIso, t, rfl, hid', hacc, hbegins⟩ := mem_detailRows hnew
      exact ⟨_, _, hbegins hbar, hid', hacc, p, (hb.filings p).2 hp, ha⟩

/-- Rows of another filing give way to none of this one. -/
theorem Below.details_elsewhere (h : WellKept db) {x : Extraction γ}
    (hbar : '|' ∉ x.accessionNo.toList) (hb : Below cells md5 x db db')
    (ha : r.get "accession_no" = .text a) (hne : a ≠ x.accessionNo) :
    r ∈ db'.rows "sn_note_details" ↔ r ∈ db.rows "sn_note_details" := by
  rw [hb.details r]
  constructor
  · rintro (⟨hold, -⟩ | hnew)
    · exact hold
    · obtain ⟨nowIso, t, rfl, -, hacc, -⟩ := mem_detailRows hnew
      rw [ha, Value.text.injEq] at hacc
      exact absurd hacc hne
  · refine fun hold => .inl ⟨hold, fun row hrow => ?_⟩
    rw [Bool.eq_false_iff, Ne, Schema.conflicts_single keys_details]
    obtain ⟨nowIso, t, rfl, hid, -, hbegins⟩ := mem_detailRows hrow
    obtain ⟨id, a', hbegins', hid', ha', -⟩ := h.detail r hold
    rintro ⟨-, he⟩
    rw [hid, hid', Value.text.injEq] at he
    rw [ha, Value.text.injEq] at ha'
    subst ha'
    rw [he] at hbegins
    exact hne (hbegins'.unique (hbegins hbar))

theorem Below.notes_elsewhere (h : WellKept db) {x : Extraction γ}
    (hbar : '|' ∉ x.accessionNo.toList) (hb : Below cells md5 x db db')
    (ha : r.get "accession_no" = .text a) (hne : a ≠ x.accessionNo) :
    r ∈ db'.rows "sn_notes" ↔ r ∈ db.rows "sn_notes" := by
  obtain ⟨ws, hws, hmem⟩ := hb.notes
  rw [hmem r]
  constructor
  · rintro (⟨hold, -⟩ | hnew)
    · exact hold
    · obtain ⟨row, hrow, now, rfl⟩ := hws.mem hnew
      obtain ⟨note, -, rfl⟩ := List.mem_map.1 hrow
      obtain ⟨-, -, hacc⟩ := noteRow_stored md5 x note now
      rw [ha, Value.text.injEq] at hacc
      exact absurd hacc hne
  · refine fun hold => .inl ⟨hold, fun w hw => ?_⟩
    rw [Bool.eq_false_iff, Ne, Schema.conflicts_single keys_notes]
    obtain ⟨row, hrow, now, rfl⟩ := hws.mem hw
    obtain ⟨note, -, rfl⟩ := List.mem_map.1 hrow
    obtain ⟨hnote, -, -⟩ := noteRow_stored md5 x note now
    obtain ⟨id, a', number, hnames, -, ha', hnote', -⟩ := h.note r hold
    rintro ⟨-, he⟩
    rw [hnote, hnote', Value.text.injEq] at he
    rw [ha, Value.text.injEq] at ha'
    subst ha'
    have hids := (noteId_inj he).1
    subst hids
    exact hne (hnames.unique (filingId_names hbar))

/-! ### Calls -/

/-- What was there of the filing is gone before its details and notes are written. -/
theorem Below.kept {db db₁ : Database} (hrefreshed : ∀ v ∈ snTables, ∀ r, r ∈ db₁.rows v ↔
      r ∈ db.rows v ∧ ¬ (v ∈ c.refreshed ∧
        r.get (accessionColumn v) = .text c.filing.accessionNo))
    (hfiled : Filed md5 c.filing now db₁ db₂) (hb : Below cells md5 c.filing db₂ db') :
    c.Kept cells md5 db' where
  filing := by
    refine ⟨now, fun r => ?_⟩
    rw [hb.filings r, hfiled.filings r]
    constructor
    · rintro ⟨⟨-, hne⟩ | hr, ha⟩
      · exact absurd ha hne
      · exact hr
    · rintro rfl
      exact ⟨.inr rfl, filed_accessionNo c.filing now⟩
  details r := by
    rw [hb.details r, hfiled.below _ (by decide) r]
    constructor
    · rintro ⟨⟨⟨-, hne⟩, -⟩ | hr, ha⟩
      · exact absurd ha hne
      · exact hr
    · intro hr
      obtain ⟨nowIso, t, rfl, -, hacc, -⟩ := mem_detailRows hr
      exact ⟨.inr hr, hacc⟩
  notes r hr ha := by
    obtain ⟨ws, hws, hmem⟩ := hb.notes
    rcases (hmem r).1 hr with ⟨hold, -⟩ | hnew
    · exact absurd ha ((hfiled.below _ (by decide) r).1 hold).2
    · exact hws.mem hnew
  eachNote row hrow := by
    obtain ⟨ws, hws, hmem⟩ := hb.notes
    obtain ⟨at', hm⟩ := hws.each hrow
    exact ⟨at', (hmem _).2 (.inr hm)⟩
  registry hforce r hr ha := by
    obtain ⟨ws, hws, hmem⟩ := hb.registry
    rcases hmem r hr with hold | hnew
    · rw [hfiled.registry, hrefreshed _ (by decide)] at hold
      refine absurd ⟨?_, ha⟩ hold.2
      rw [Call.refreshed, if_pos hforce]
      exact List.mem_append_right _ (by decide)
    · exact hws.mem hnew

theorem Below.untouched (h : WellKept db₂) (hbar : '|' ∉ c.filing.accessionNo.toList)
    (hrefreshed : ∀ v ∈ snTables, ∀ r, r ∈ db₁.rows v ↔
      r ∈ db.rows v ∧ ¬ (v ∈ c.refreshed ∧
        r.get (accessionColumn v) = .text c.filing.accessionNo))
    (hfiled : Filed md5 c.filing now db₁ db₂) (hb : Below cells md5 c.filing db₂ db')
    (hne : a ≠ c.filing.accessionNo) : Untouched a db db' where
  rows u hu r ha := by
    have hother : r.get "accession_no" ≠ .text c.filing.accessionNo := by
      rw [ha, Ne, Value.text.injEq]
      exact hne
    simp only [List.mem_cons, List.not_mem_nil, or_false] at hu
    rcases hu with rfl | rfl | rfl
    · rw [hb.filings, hfiled.filings, hrefreshed _ (by decide)]
      constructor
      · rintro (⟨⟨hold, -⟩, -⟩ | rfl)
        · exact hold
        · exact absurd (filed_accessionNo c.filing now) hother
      · exact fun hold => .inl ⟨⟨hold, fun hc => hother hc.2⟩, hother⟩
    · rw [hb.notes_elsewhere h hbar ha hne, hfiled.below _ (by decide), and_iff_left hother,
        hrefreshed _ (by decide), and_iff_left fun hc => hother hc.2]
    · rw [hb.details_elsewhere h hbar ha hne, hfiled.below _ (by decide), and_iff_left hother,
        hrefreshed _ (by decide), and_iff_left fun hc => hother hc.2]
  registry r hr ha := by
    obtain ⟨ws, hws, hmem⟩ := hb.registry
    rcases hmem r hr with hold | hnew
    · rw [hfiled.registry, hrefreshed _ (by decide)] at hold
      exact hold.1
    · obtain ⟨row, hrow, at', rfl⟩ := hws.mem hnew
      obtain ⟨d, -, rfl⟩ := List.mem_map.1 hrow
      have hacc : (Schemas.snDetailRegistry.schema.coerce at'
          (registerDetailTable md5 c.filing d)).get "source_accession_no" =
          .text c.filing.accessionNo := Schema.get_coerce_given (by decide) Value.noConfusion at'
      rw [ha, Value.text.injEq] at hacc
      exact absurd hacc hne

/-- One call writes the rows of its filing, whatever is committed between its tasks. -/
theorem WellKept.called (h : WellKept db) (hbar : '|' ∉ c.filing.accessionNo.toList)
    (hd : Drained snTables db (c.tasks cells md5) db') :
    WellKept db' ∧ c.Kept cells md5 db' ∧
      ∀ a, a ≠ c.filing.accessionNo → Untouched a db db' := by
  rw [tasks_eq] at hd
  obtain ⟨db₁, hfirst, hd⟩ := hd.split
  obtain ⟨db₂, hfiling, hlast⟩ := hd.split
  obtain ⟨h₁, hrefreshed⟩ := h.refreshed (refreshed_deletable c) hfirst
  obtain ⟨h₂, now, hfiled⟩ := h₁.drained_filing hbar hfiling
  have hp : c.filing.filed md5 now ∈ db₂.rows "sn_filings" := (hfiled.filings _).2 (.inr rfl)
  obtain ⟨hs, hb⟩ := h₂.drained_below hp (filed_filingId _ now) (filed_accessionNo _ now) hlast
  refine ⟨?_, hb.kept hrefreshed hfiled, fun a ha => hb.untouched h₂ hbar hrefreshed hfiled ha⟩
  exact hb.wellKept h₂ hbar hp (filed_filingId _ now) (filed_accessionNo _ now) hs

/-- Calls one after the other leave the rows of the filings that they are not about. -/
theorem WellKept.calls {calls : List (Call γ)} (h : WellKept db)
    (hbar : ∀ c ∈ calls, '|' ∉ c.filing.accessionNo.toList)
    (hd : Drained snTables db (calls.flatMap (Call.tasks cells md5)) db') :
    WellKept db' ∧ ∀ a, (∀ c ∈ calls, c.filing.accessionNo ≠ a) → Untouched a db db' := by
  induction calls generalizing db with
  | nil =>
    have hsame := hd.same
    refine ⟨h.same hsame, fun a _ => ⟨fun u hu r _ => ?_, fun r hr _ => ?_⟩⟩
    · have hin : ∀ u ∈ ["sn_filings", "sn_notes", "sn_note_details"], u ∈ snTables := by decide
      rw [hsame.rows u (hin u hu)]
    · rw [hsame.rows _ (by decide)] at hr
      exact hr
  | cons c calls ih =>
    rw [List.flatMap_cons] at hd
    obtain ⟨db₁, hfirst, hlast⟩ := hd.split
    obtain ⟨h₁, -, hothers⟩ := h.called (hbar c List.mem_cons_self) hfirst
    obtain ⟨h', huntouched⟩ := ih h₁ (fun c' hc' => hbar c' (List.mem_cons_of_mem c hc')) hlast
    refine ⟨h', fun a ha => (hothers a fun he => ha c List.mem_cons_self he.symm).trans ?_⟩
    exact huntouched a fun c' hc' => ha c' (List.mem_cons_of_mem c hc')

end

/-- The tables before anything is written. -/
def emptyTables : Database :=
  ofSchemas [("sn_filings", Schemas.snFilings.schema), ("sn_notes", Schemas.snNotes.schema),
    ("sn_note_details", Schemas.snNoteDetails.schema),
    ("sn_detail_registry", Schemas.snDetailRegistry.schema)]

theorem wellKept_emptyTables : WellKept emptyTables := by
  have hrows (t : String) : emptyTables.rows t = [] := rows_ofSchemas _ t
  refine ⟨?_, ?_, ?_, ?_⟩
  · intro t ht
    simp only [snTables, List.mem_cons, List.not_mem_nil, or_false] at ht
    rcases ht with rfl | rfl | rfl | rfl <;> rfl
  all_goals
    intro r hr
    rw [hrows] at hr
    cases hr

/-- A filing of one note with one table, read as texts. -/
def annualReport (value : String) : Extraction String where
  accessionNo := "0000320193-24-000123"
  ticker := "AAPL"
  form := "10-K"
  filingDate := "2024-11-01"
  period := "2024-09-28"
  companyName := "Apple Inc."
  cik := 320193
  fyMonth := 9
  quarter := 4
  year := 2024
  notes := [
    { number := 1
      readable := true
      title := some "Revenue"
      shortName := none
      text := "Net sales"
      expands := ["us-gaap:Revenues"]
      expandsStatements := []
      tableCount := 1
      details := [
        { str := some "Net sales by segment"
          df := some ⟨["concept", "2024-09-28 (FY)"],
            [fun col => if col = "concept" then "us-gaap:Revenues" else value], by decide, by decide⟩
          recordsAt := "2024-11-02T00:00:00+00:00"
          registeredAt := "2024-11-02T00:00:01+00:00" }] }]
  unique := List.nodup_singleton _

def textCells : Cells String where
  isna s := decide (s = "")
  str s := s
  level _ := 0
  truthy s := decide (s ≠ "")

/-- The digests of the texts of that filing. -/
def digest (s : String) : String :=
  ([
    ("AAPL|10-K|0000320193-24-000123|2024-09-28|320193",
      "670a11d65d43f36076ef2f97ac140c6b"),
    ("Net sales",
      "ae5fd284ec4aee30fa1596d638f9d9fb"),
    ("1|Revenue|ae5fd284ec4aee30fa1596d638f9d9fb|1|1",
      "2d6aa38fb5e5ce700b271356a47d94e3"),
    ("0000320193-24-000123|1|0|us-gaap:Revenues|2024-09-28 (FY)|0||391",
      "c23cbf572084678bdb2e78c23ef6e290"),
    ("0000320193-24-000123|1|0|us-gaap:Revenues|2024-09-28 (FY)|0||394",
      "6118d8c2442d1c988497d738cbd604c1"),
    ("AAPL|Net_sales_by_segment_D0|0000320193-24-000123|1",
      "e65c42b753b38df7e9612fe7cebae8c2")].lookup s).getD ""

end StockNotes
