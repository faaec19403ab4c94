import Mathlib.Data.List.Nodup
import Std.Data.String.ToInt
import AnythingTools.Separators
import AnythingTools.Sync.PullToLocal

namespace StockNotes
open Separators
set_option autoImplicit true

/-! ### The names of the periods -/

/-- The zeros of the decimal digits that `\d` stands for. -/
def decimalZeros : List Nat :=
  [48, 1632, 1776, 1984, 2406, 2534, 2662, 2790, 2918, 3046, 3174, 3302, 3430, 3558, 3664, 3792,
    3872, 4160, 4240, 6112, 6160, 6470, 6608, 6784, 6800, 6992, 7088, 7232, 7248, 42528, 43216,
    43264, 43472, 43504, 43600, 44016, 65296, 66720, 68912, 69734, 69872, 69942, 70096, 70384,
    70736, 70864, 71248, 71360, 71472, 71904, 72016, 72784, 73040, 73120, 73552, 92768, 92864,
    93008, 120782, 120792, 120802, 120812, 120822, 123200, 123632, 124144, 125264, 130032]

/-- The value of a digit. -/
def decimalValue (c : Char) : Option Nat :=
  (decimalZeros.find? fun d => decide (d ≤ c.toNat) && decide (c.toNat < d + 10)).map
    fun d => c.toNat - d

def isDecimal (c : Char) : Bool := (decimalValue c).isSome

/-- A date of ten characters, and what follows it. -/
def datePart : List Char → Option (List Char × List Char)
  | a :: b :: c :: d :: '-' :: e :: f :: '-' :: g :: h :: rest =>
    if [a, b, c, d, e, f, g, h].all isDecimal then
      some ([a, b, c, d, '-', e, f, '-', g, h], rest)
    else none
  | _ => none

def periodTypes : List String := ["FY", "Q1", "Q2", "Q3", "Q4", "YTD", "H1", "H2"]

/-- The type of a period in parentheses, and what follows it. -/
def typePart : List Char → Option (List Char × List Char)
  | '(' :: cs =>
    (periodTypes.find? fun t => (t.toList ++ [')']).isPrefixOf cs).map fun t =>
      (t.toList, cs.drop (t.length + 1))
  | _ => none

/-- The first place where something is found. -/
def search (part : List Char → Option (List Char × List Char)) : List Char → Option String
  | [] => (part []).map fun found => String.ofList found.1
  | c :: cs =>
    match part (c :: cs) with
    | some found => some (String.ofList found.1)
    | none => search part cs

structure PeriodColumn where
  endDate : String
  periodType : String
deriving DecidableEq, Repr

/-- A date and a type with nothing else; a line may end after them. -/
def wholePeriod (col : List Char) : Option PeriodColumn := do
  let (endDate, rest) ← datePart col
  let (periodType, rest) ← typePart (rest.dropWhile Sync.isSpace)
  if rest = [] ∨ rest = ['\n'] then
    some ⟨String.ofList endDate, String.ofList periodType⟩
  else none

def parsePeriodColumn (colName : String) : PeriodColumn :=
  match wholePeriod colName.toList with
  | some p => p
  | none =>
    { endDate := (search datePart colName.toList).getD "1970-01-01"
      periodType := (search typePart colName.toList).getD "UNKNOWN" }

/-! ### The table and its records -/

def xbrlMetadataColumns : List String :=
  ["abstract", "balance", "concept", "dimension", "dimension_axis", "dimension_label",
    "dimension_member", "dimension_member_label", "is_breakdown", "label", "level",
    "parent_abstract_concept", "parent_concept", "preferred_sign", "standard_concept", "weight"]

/-- A table that can be melted: no name twice, and none of those that melting adds. -/
structure DataFrame (γ : Type) where
  columns : List String
  rows : List (String → γ)
  unique : columns.Nodup
  plain : "period_raw" ∉ columns ∧ "value" ∉ columns

/-- What is done with a cell: `pd.isna`, `str`, `int(float(val))` with zero where it fails, and
whether it counts as true. -/
structure Cells (γ : Type) where
  isna : γ → Bool
  str : γ → String
  level : γ → Int
  truthy : γ → Bool

section
variable {γ : Type} (cells : Cells γ) (md5 : String → String)

/-- The columns, with the order of the rows. -/
def DataFrame.availableCols (df : DataFrame γ) : List String :=
  if "row_order" ∈ df.columns then df.columns else df.columns ++ ["row_order"]

def DataFrame.metadataCols (df : DataFrame γ) : List String :=
  df.availableCols.filter fun c => decide (c ∈ xbrlMetadataColumns ∨ c = "row_order")

def DataFrame.periodCols (df : DataFrame γ) : List String :=
  df.availableCols.filter fun c => decide (c ∉ xbrlMetadataColumns ∧ c ≠ "row_order")

/-- A row after melting. -/
structure Melted (γ : Type) where
  cell : String → Option γ
  rowOrder : Nat
  periodRaw : String
  value : γ

/-- The metadata of a row. -/
def DataFrame.metadata (df : DataFrame γ) (row : String → γ) (col : String) : Option γ :=
  if col ∈ df.metadataCols ∧ col ≠ "row_order" then some (row col) else none

/-- `melt`: the rows of each period column in turn, each with its metadata. -/
def DataFrame.melt (df : DataFrame γ) : List (Melted γ) :=
  df.periodCols.flatMap fun col => df.rows.zipIdx.map fun p =>
    { cell := df.metadata p.1, rowOrder := p.2, periodRaw := col, value := p.1 col }

/-- The text of a cell that may be missing. -/
def Cells.text (cell : γ) : String := if cells.isna cell then "" else cells.str cell

inductive MetaValue where
  | text (s : String)
  | level (n : Int)
deriving DecidableEq, Repr

/-- Columns of flags, which are texts before the missing ones are looked for. -/
def boolCols : List String := ["abstract", "dimension", "is_breakdown"]

/-- What a record holds of a column of metadata in the end. -/
def Cells.metaValue (col : String) (cell : Option γ) : MetaValue :=
  match cell with
  | none => if col = "level" then .level 0 else .text ""
  | some cell =>
    if col ∈ boolCols then .text (cells.str cell)
    else if cells.isna cell then if col = "level" then .level 0 else .text ""
    else if col = "level" then .level (cells.level cell)
    else .text (cells.str cell)

/-- The note of a filing that a table is a detail of. -/
structure Detail (γ : Type) where
  noteNumber : Int
  detailIdx : Int
  df : DataFrame γ

structure TidyRecord where
  accessionNo : String
  noteNumber : Int
  detailIndex : Int
  ticker : String
  form : String
  rowOrder : Nat
  periodRaw : String
  value : String
  periodEndDate : String
  periodType : String
  detailId : String
  contentHash : String
  metadata : List (String × MetaValue)

def detailId (accessionNo : String) (noteNumber detailIndex : Int) (concept periodRaw : String)
    (rowOrder : Nat) : String :=
  "|".intercalate
    [accessionNo, toString noteNumber, toString detailIndex, concept, periodRaw, toString rowOrder]

/-- The concept of a row, if there is one. -/
def Cells.concept (m : Melted γ) : String := ((m.cell "concept").map cells.text).getD ""

/-- One turn of the loop over the records. -/
def tidyRecord (ticker form accessionNo : String) (noteNumber detailIdx : Int) (m : Melted γ) :
    TidyRecord :=
  let id := detailId accessionNo noteNumber detailIdx (cells.concept m) m.periodRaw m.rowOrder
  { accessionNo, noteNumber, detailIndex := detailIdx, ticker, form
    rowOrder := m.rowOrder
    periodRaw := m.periodRaw
    value := cells.text m.value
    periodEndDate := (parsePeriodColumn m.periodRaw).endDate
    periodType := (parsePeriodColumn m.periodRaw).periodType
    detailId := id
    contentHash := md5 ("||".intercalate [id, cells.text m.value])
    metadata := xbrlMetadataColumns.map fun col => (col, cells.metaValue col (m.cell col)) }

/-- The concepts that occur, each once. -/
def uniqueConcepts [BEq γ] (df : DataFrame γ) : List String :=
  if "concept" ∈ df.columns then
    let concepts := (df.melt.filterMap fun m => m.cell "concept").filter fun c => !cells.isna c
    (concepts.eraseDups.filter cells.truthy).map cells.str
  else []

def transformToTidy [BEq γ] (df : DataFrame γ) (ticker form accessionNo : String)
    (noteNumber detailIdx : Int) : List TidyRecord × List String :=
  if df.periodCols = [] then ([], [])
  else
    (df.melt.map (tidyRecord cells md5 ticker form accessionNo noteNumber detailIdx),
      uniqueConcepts cells df)

/-! ### The ids -/

theorem bar_notMem_natString (n : Nat) : '|' ∉ (toString n).toList := by
  intro h
  have htoString : (toString n).toList = Nat.toDigits 10 n := Nat.toList_repr
  rw [htoString] at h
  exact absurd (Nat.isDigit_of_mem_toDigits (by decide) (by decide) h) (by decide)

theorem bar_notMem_intString (n : Int) : '|' ∉ (toString n).toList := by
  intro h
  have htoString : toString n = if 0 ≤ n then n.toNat.repr else "-" ++ (-n).toNat.repr :=
    Int.repr_eq_if
  rw [htoString] at h
  split at h
  next => exact bar_notMem_natString n.toNat h
  next =>
    rw [String.toList_append] at h
    rcases List.mem_append.1 h with h | h
    · exact absurd h (by decide)
    · exact bar_notMem_natString (-n).toNat h

/-- An id tells the note, the detail and the row, and the concept and the period joined. -/
theorem detailId_inj {accessionNo : String} {noteNumber noteNumber' detailIdx detailIdx' : Int}
    {concept concept' period period' : String} {row row' : Nat}
    (h : detailId accessionNo noteNumber detailIdx concept period row =
      detailId accessionNo noteNumber' detailIdx' concept' period' row') :
    noteNumber = noteNumber' ∧ detailIdx = detailIdx' ∧ row = row' ∧
      concept ++ ("|" ++ period) = concept' ++ ("|" ++ period') := by
  have hparts (note idx : Int) (concept period : String) (row : Nat) :
      (detailId accessionNo note idx concept period row).toList =
        accessionNo.toList ++ (['|'] ++ ((toString note).toList ++ (['|'] ++
          ((toString idx).toList ++ (['|'] ++ ((concept.toList ++ (['|'] ++ period.toList)) ++
            (['|'] ++ (toString row).toList))))))) := by
    simp [detailId]
  have hlist := congrArg String.toList h
  rw [hparts, hparts] at hlist
  have htail := List.append_cancel_left (List.append_cancel_left hlist)
  obtain ⟨hnote, htail⟩ := Separable.append_inj
    (separable_singleton.2 (bar_notMem_intString noteNumber))
    (separable_singleton.2 (bar_notMem_intString noteNumber')) htail
  obtain ⟨hidx, htail⟩ := Separable.append_inj
    (separable_singleton.2 (bar_notMem_intString detailIdx))
    (separable_singleton.2 (bar_notMem_intString detailIdx')) htail
  have hrev (row : Nat) : Separable ['|'].reverse (toString row).toList.reverse :=
    separable_singleton.2 fun hm => bar_notMem_natString row (List.mem_reverse.1 hm)
  obtain ⟨hmid, hrow⟩ := Separable.append_inj_right (hrev row) (hrev row') htail
  refine ⟨Int.repr_injective (String.toList_inj.1 hnote),
    Int.repr_injective (String.toList_inj.1 hidx), Nat.repr_injective (String.toList_inj.1 hrow), ?_⟩
  rw [← String.toList_inj, String.toList_append, String.toList_append, String.toList_append,
    String.toList_append]
  exact hmid

/-! ### What the records keep -/

theorem periodCols_nodup (df : DataFrame γ) : df.periodCols.Nodup := by
  have havailable : df.availableCols.Nodup := by
    rw [DataFrame.availableCols]
    split
    next => exact df.unique
    next h =>
      refine df.unique.append (List.nodup_singleton _) ?_
      exact List.disjoint_singleton.2 h
  exact havailable.filter _

theorem mem_melt {df : DataFrame γ} {m : Melted γ} :
    m ∈ df.melt ↔ ∃ col ∈ df.periodCols, ∃ i row, df.rows[i]? = some row ∧
      m = ⟨df.metadata row, i, col, row col⟩ := by
  rw [DataFrame.melt, List.mem_flatMap]
  refine exists_congr fun col => and_congr_right fun _ => ?_
  rw [List.mem_map]
  constructor
  · rintro ⟨⟨row, i⟩, hp, rfl⟩
    exact ⟨i, row, List.mk_mem_zipIdx_iff_getElem?.1 hp, rfl⟩
  · rintro ⟨i, row, hi, rfl⟩
    exact ⟨(row, i), List.mk_mem_zipIdx_iff_getElem?.2 hi, rfl⟩

/-- Melting goes through each row for each period. -/
theorem melt_keys (df : DataFrame γ) :
    df.melt.map (fun m => (m.periodRaw, m.rowOrder)) =
      df.periodCols ×ˢ List.range df.rows.length := by
  rw [DataFrame.melt, List.map_flatMap]
  refine List.flatMap_congr fun col _ => ?_
  rw [List.map_map, List.range_eq_range', ← List.zipIdx_map_snd 0 df.rows, List.map_map]
  rfl

theorem melt_nodup (df : DataFrame γ) : df.melt.Nodup := by
  have hkeys := (periodCols_nodup df).product (List.nodup_range (n := df.rows.length))
  rw [← melt_keys] at hkeys
  exact hkeys.of_map _

/-- The id of the record of a melted row tells the row. -/
theorem detailId_melt_inj {df : DataFrame γ} {accessionNo : String} {noteNumber detailIdx : Int}
    {m m' : Melted γ} (hm : m ∈ df.melt) (hm' : m' ∈ df.melt)
    (h : detailId accessionNo noteNumber detailIdx (cells.concept m) m.periodRaw m.rowOrder =
      detailId accessionNo noteNumber detailIdx (cells.concept m') m'.periodRaw m'.rowOrder) :
    m = m' := by
  obtain ⟨-, -, hrow, hjoin⟩ := detailId_inj h
  obtain ⟨col, _, i, row, hi, rfl⟩ := mem_melt.1 hm
  obtain ⟨col', _, i', row', hi', rfl⟩ := mem_melt.1 hm'
  have hii : i = i' := hrow
  subst hii
  cases hi.symm.trans hi'
  -- the same row, so that the concepts are the same and what is left is the period
  have hcol : col = col' := (String.append_right_inj "|").1 ((String.append_right_inj _).1 hjoin)
  rw [hcol]

/-- A filing with the tables of its notes. -/
structure Filing (γ : Type) where
  ticker : String
  form : String
  accessionNo : String
  details : List (Detail γ)
  unique : (details.map fun d => (d.noteNumber, d.detailIdx)).Nodup

variable [BEq γ]

theorem records_eq (df : DataFrame γ) (ticker form accessionNo : String)
    (noteNumber detailIdx : Int) :
    (transformToTidy cells md5 df ticker form accessionNo noteNumber detailIdx).1 =
      df.melt.map (tidyRecord cells md5 ticker form accessionNo noteNumber detailIdx) := by
  rw [transformToTidy]
  split
  next h =>
    rw [DataFrame.melt, h]
    rfl
  next => rfl

def Filing.recordsOf (filing : Filing γ) (d : Detail γ) : List TidyRecord :=
  (transformToTidy cells md5 d.df filing.ticker filing.form filing.accessionNo d.noteNumber
    d.detailIdx).1

/-- Each row has one record for each period, with the text of its cell. -/
theorem recordsOf_keys (filing : Filing γ) (d : Detail γ) :
    ((filing.recordsOf cells md5 d).map fun r => (r.periodRaw, r.rowOrder)) =
        d.df.periodCols ×ˢ List.range d.df.rows.length ∧
      ∀ r ∈ filing.recordsOf cells md5 d, ∃ row, d.df.rows[r.rowOrder]? = some row ∧
        r.value = cells.text (row r.periodRaw) := by
  rw [Filing.recordsOf, records_eq]
  constructor
  · rw [List.map_map]
    exact melt_keys d.df
  · intro r hr
    obtain ⟨m, hm, rfl⟩ := List.mem_map.1 hr
    obtain ⟨col, _, i, row, hi, rfl⟩ := mem_melt.1 hm
    exact ⟨row, hi, rfl⟩

theorem recordsOf_ids (filing : Filing γ) (d : Detail γ) :
    ((filing.recordsOf cells md5 d).map TidyRecord.detailId).Nodup := by
  rw [Filing.recordsOf, records_eq, List.map_map]
  exact (melt_nodup d.df).map_on fun m hm m' hm' h => detailId_melt_inj cells hm hm' h

/-- No id is of two tables. -/
theorem recordsOf_disjoint (filing : Filing γ) {d d' : Detail γ}
    (h : (d.noteNumber, d.detailIdx) ≠ (d'.noteNumber, d'.detailIdx)) :
    List.Disjoint ((filing.recordsOf cells md5 d).map TidyRecord.detailId)
      ((filing.recordsOf cells md5 d').map TidyRecord.detailId) := by
  rw [Filing.recordsOf, Filing.recordsOf, records_eq, records_eq, List.map_map, List.map_map]
  intro id hid hid'
  obtain ⟨m, _, rfl⟩ := List.mem_map.1 hid
  obtain ⟨m', _, hm'⟩ := List.mem_map.1 hid'
  obtain ⟨hnote, hidx, -, -⟩ := detailId_inj hm'
  exact h (Prod.ext hnote.symm hidx.symm)

end

end StockNotes
