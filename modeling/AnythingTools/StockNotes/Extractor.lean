import AnythingTools.Relational.Leaf
import AnythingTools.Schemas
import AnythingTools.StockNotes.TidyTransform
import AnythingTools.Text.JsonDumps

namespace StockNotes
open Relational
set_option autoImplicit true

/-! ### What is read of a filing -/

/-- A detail of a note: its text, if it has one, its table, if there is one that can be melted, and
when its records and its entry in the registry are made. -/
structure DetailItem (γ : Type) where
  str : Option String
  df : Option (DataFrame γ)
  recordsAt : String
  registeredAt : String

/-- A note of a filing. One that is not readable fails before anything of it is written. -/
structure Note (γ : Type) where
  number : Int
  readable : Bool
  title : Option String
  shortName : Option String
  text : String
  expands : List String
  expandsStatements : List String
  tableCount : Nat
  details : List (DetailItem γ)

/-- A filing as it is found, with no number for two of its notes. -/
structure Extraction (γ : Type) where
  accessionNo : String
  ticker : String
  form : String
  filingDate : String
  period : String
  companyName : String
  cik : Int
  fyMonth : Int
  quarter : Int
  year : Int
  notes : List (Note γ)
  unique : (notes.map Note.number).Nodup

/-! ### The rows -/

def textOrNull : Option String → Value
  | none => .null
  | some s => .text s

/-- `json.dumps` of a list of texts. -/
def jsonTexts (texts : List String) : String :=
  "[" ++ ", ".intercalate
    (texts.map fun s => String.ofList (Text.stringText true (s.toList.map Char.toNat))) ++ "]"

def MetaValue.value : MetaValue → Value
  | .text s => .text s
  | .level n => .int n

/-- A record with its times, as a dict. -/
def TidyRecord.toDict (nowIso : String) (r : TidyRecord) : Row :=
  [("detail_id", .text r.detailId), ("accession_no", .text r.accessionNo),
    ("note_number", .int r.noteNumber), ("detail_index", .int r.detailIndex),
    ("ticker", .text r.ticker), ("form", .text r.form), ("row_order", .int r.rowOrder),
    ("period_raw", .text r.periodRaw), ("value", .text r.value),
    ("period_end_date", .text r.periodEndDate), ("period_type", .text r.periodType),
    ("content_hash", .text r.contentHash), ("extracted_at", .text nowIso),
    ("created_at", .text nowIso), ("updated_at", .text nowIso)] ++
    r.metadata.map fun p => (p.1, p.2.value)

def detailColumns : List String :=
  ["detail_id", "accession_no", "note_number", "detail_index", "ticker", "form", "concept",
    "label", "standard_concept", "level", "abstract", "dimension", "is_breakdown",
    "dimension_axis", "dimension_member", "dimension_member_label", "dimension_label", "balance",
    "weight", "preferred_sign", "parent_concept", "parent_abstract_concept", "period_raw",
    "period_end_date", "period_type", "value", "row_order", "content_hash", "extracted_at",
    "created_at", "updated_at"]

/-- What stands for a missing value. -/
def orEmpty (c : String) : Value → Value
  | .null => if c ∈ ["note_number", "detail_index", "level", "row_order"] then .int 0 else .text ""
  | v => v

def detailRow (nowIso : String) (r : TidyRecord) : Row :=
  Row.build detailColumns fun c => orEmpty c ((r.toDict nowIso).get c)

/-- The records are written in transactions of five hundred. -/
def upsertTidyRecords (nowIso : String) (records : List TidyRecord) : List (List Stmt) :=
  (Python.chunks 500 records).map fun chunk =>
    chunk.map fun r => .replace "sn_note_details" (detailRow nowIso r)

/-- The table that records the accession number under its own name. -/
def accessionColumn (table : String) : String :=
  if table = "sn_detail_registry" then "source_accession_no" else "accession_no"

def deleteRowsOf (table accessionNo : String) : List Stmt :=
  [.delete table [(accessionColumn table, .text accessionNo)]]

/-- `count` is how many details there were when they were counted. -/
def deleteFilingData (accessionNo : String) (count : Nat) : List (List Stmt) :=
  (if 0 < count then [deleteRowsOf "sn_note_details" accessionNo] else []) ++
    [deleteRowsOf "sn_detail_registry" accessionNo, deleteRowsOf "sn_notes" accessionNo]

section
variable {γ : Type} (cells : Cells γ) (md5 : String → String)

def makeRegistryId (ticker detailTableName accessionNo : String) (noteNumber : Int) : String :=
  md5 ("|".intercalate [ticker, detailTableName, accessionNo, toString noteNumber])

/-- The first line of the text of a detail. -/
def detailTitle (di : Nat) : Option String → String
  | none => "Detail_" ++ toString di
  | some s =>
    if s = "" then "Detail " ++ toString di
    else String.ofList ((s.toList.take 100).takeWhile fun c => decide (c ≠ '\n'))

def stripUnderscores (cs : List Char) : List Char :=
  ((cs.dropWhile fun c => decide (c = '_')).reverse.dropWhile fun c => decide (c = '_')).reverse

/-- The name of the table of a detail, which its place in the note makes its own. -/
def detailTableName (noteNumber : Int) (di : Nat) (title : String) : String :=
  let place := "_D" ++ toString di
  let safeTitle := Sync.strip title
  let name := if safeTitle = "" then "Note" ++ toString noteNumber ++ place else safeTitle
  let safe := name.toList.map fun c => if c.isAlphanum then c else '_'
  String.ofList (stripUnderscores (safe.take 40)) ++ place

def quarterlyStatus (form : String) : String :=
  if form ∈ ["10-Q", "6-K"] then "direct"
  else if form ∈ ["10-K", "20-F"] then "from_annual_filing"
  else "unknown"

/-- A detail of a note with the records of its table. -/
structure Placed where
  noteNumber : Int
  index : Nat
  title : String
  records : List TidyRecord
  concepts : List String
  recordsAt : String
  registeredAt : String

def registerDetailTable (x : Extraction γ) (d : Placed) : Row :=
  let name := detailTableName d.noteNumber d.index d.title
  [("registry_id", .text (makeRegistryId md5 x.ticker name x.accessionNo d.noteNumber)),
    ("ticker", .text x.ticker), ("detail_table_name", .text name),
    ("source_title", .text d.title), ("source_note_number", .int d.noteNumber),
    ("source_accession_no", .text x.accessionNo), ("role_or_type", .text "detail"),
    ("available_concepts", .text (jsonTexts d.concepts)), ("tidy_schema_version", .int 1),
    ("row_count", .int d.records.length), ("quarter", .int x.quarter), ("year", .int x.year),
    ("quarterly_status", .text (quarterlyStatus x.form)), ("content_hash", .text ""),
    ("created_at", .text d.registeredAt), ("updated_at", .text d.registeredAt)]

def Extraction.filingId (x : Extraction γ) : String :=
  x.ticker ++ "|" ++ x.form ++ "|" ++ x.accessionNo

/-- The times are those of the commit. -/
def Extraction.filingRow (x : Extraction γ) : Row :=
  [("filing_id", .text x.filingId), ("ticker", .text x.ticker), ("form", .text x.form),
    ("filing_date", .text x.filingDate), ("accession_no", .text x.accessionNo),
    ("period_of_report", .text x.period), ("company_name", .text x.companyName),
    ("cik", .int x.cik), ("fiscal_year_end_month", .int x.fyMonth), ("quarter", .int x.quarter),
    ("year", .int x.year),
    ("content_hash", .text (md5 (x.filingId ++ "|" ++ x.period ++ "|" ++ toString x.cik)))]

def noteId (filingId : String) (number : Int) : String := filingId ++ "|N" ++ toString number

def Note.shortTitle (note : Note γ) : Option String :=
  if note.shortName = none ∨ note.shortName = some "" then note.title else note.shortName

def Extraction.noteRow (x : Extraction γ) (note : Note γ) : Row :=
  let narrativeHash := if note.text = "" then "" else md5 note.text
  let content := "|".intercalate [toString note.number, note.title.getD "None", narrativeHash,
    toString note.tableCount, toString note.details.length]
  [("note_id", .text (noteId x.filingId note.number)), ("filing_id", .text x.filingId),
    ("ticker", .text x.ticker), ("form", .text x.form), ("accession_no", .text x.accessionNo),
    ("note_number", .int note.number), ("title", textOrNull note.title),
    ("short_name", textOrNull note.shortTitle), ("narrative_text", .text note.text),
    ("narrative_hash", .text narrativeHash), ("expands", .text (jsonTexts note.expands)),
    ("expands_statements", .text (jsonTexts note.expandsStatements)),
    ("table_count", .int note.tableCount), ("details_count", .int note.details.length),
    ("quarter", .int x.quarter), ("year", .int x.year),
    ("quarterly_status", .text (quarterlyStatus x.form)), ("version", .int 1),
    ("content_hash", .text (md5 content))]

/-! ### The tasks -/

variable [BEq γ]

/-- The table of a detail, unless it is empty, with its records. -/
def Extraction.place (x : Extraction γ) (note : Note γ) (p : DetailItem γ × Nat) :
    Option Placed :=
  match p.1.df with
  | none => none
  | some df =>
    if df.rows = [] ∨ df.columns = [] then none
    else
      let tidy := transformToTidy cells md5 df x.ticker x.form x.accessionNo note.number p.2
      some {
        noteNumber := note.number
        index := p.2
        title := detailTitle p.2 p.1.str
        records := tidy.1
        concepts := tidy.2
        recordsAt := p.1.recordsAt
        registeredAt := p.1.registeredAt }

def Extraction.placed (x : Extraction γ) (note : Note γ) : List Placed :=
  note.details.zipIdx.filterMap (x.place cells md5 note)

def detailTasks (x : Extraction γ) (d : Placed) : List (List Stmt) :=
  upsertTidyRecords d.recordsAt d.records ++
    [[.replace "sn_detail_registry" (registerDetailTable md5 x d)]]

/-- The details of a note come before the note. -/
def Extraction.noteTasks (x : Extraction γ) (note : Note γ) : List (List Stmt) :=
  if note.readable then
    (x.placed cells md5 note).flatMap (detailTasks md5 x) ++
      [[.replace "sn_notes" (x.noteRow md5 note)]]
  else []

def Extraction.leafTasks (x : Extraction γ) : List (List Stmt) :=
  x.notes.flatMap (x.noteTasks cells md5)

/-- What is handed to the writer, in order. -/
def extractAndPersistFiling (x : Extraction γ) (forceRefresh : Bool) (count : Nat) :
    List (List Stmt) :=
  (if forceRefresh then deleteFilingData x.accessionNo count else []) ++
    [[.replace "sn_filings" (x.filingRow md5)]] ++ x.leafTasks cells md5

/-- What is returned: the filing, and how many notes and tables there were. -/
structure Summary where
  filingId : String
  ticker : String
  accessionNo : String
  noteCount : Nat
  detailTableCount : Nat
deriving DecidableEq, Repr

def Extraction.readableNotes (x : Extraction γ) : List (Note γ) := x.notes.filter Note.readable

def Extraction.tables (x : Extraction γ) : List Placed :=
  x.readableNotes.flatMap (x.placed cells md5)

def Extraction.summary (x : Extraction γ) : Summary where
  filingId := x.filingId
  ticker := x.ticker
  accessionNo := x.accessionNo
  noteCount := x.notes.length
  detailTableCount := (x.tables cells md5).length

/-! ### What the tasks give for each table -/

def Extraction.detailRows (x : Extraction γ) : List Row :=
  (x.tables cells md5).flatMap fun d => d.records.map (detailRow d.recordsAt)

def Extraction.noteRows (x : Extraction γ) : List Row := x.readableNotes.map (x.noteRow md5)

def Extraction.registryRows (x : Extraction γ) : List Row :=
  (x.tables cells md5).map (registerDetailTable md5 x)

end

end StockNotes
