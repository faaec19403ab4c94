import Mathlib.Algebra.Order.Field.Rat
import Mathlib.Data.Int.ConditionallyCompleteOrder
import Mathlib.Data.Prod.Lex
import Mathlib.Data.String.Basic
import Mathlib.Order.WithBot
import AnythingTools.KeepFirst
import AnythingTools.Nearest
import AnythingTools.StockNotes.TidyTransform

namespace StockFinancials
open KeepFirst Nearest
set_option autoImplicit true

/-! ### The facts -/

/-- The end of a period; `nan` stands for the missing values of pandas that count as true. -/
inductive PeriodEnd where
  | none
  | nan
  | text (s : String)
deriving DecidableEq, Repr

structure FactRow where
  concept : String
  periodStart : Option String
  periodEnd : PeriodEnd
  fiscalPeriod : String
  fiscalYear : Option Int := none
  numericValue : Option ℚ
  unit : Option String := some "USD"
  periodType : String := "duration"
deriving DecidableEq

structure FactsTable where
  rows : List FactRow
  hasUnit : Bool := true

/-- A row of the blueprint of a statement. -/
structure BlueprintRow where
  concept : String
  label : String
  depth : Int
  isAbstract : Bool
  isTotal : Bool
deriving DecidableEq, Repr

/-- What `pd.Timestamp` makes of a text. -/
inductive Stamp where
  | date (year : Int) (month : Nat)
  | nat
  | raises
deriving DecidableEq, Repr

/-- What pandas makes of dates: the parts of a time stamp, `calc_duration`, and the median of the
ends that can be read. -/
structure Dates where
  timestamp : String → Stamp
  days : FactRow → Option Int
  median : List PeriodEnd → Option Int

/-- `not period_end`. -/
def PeriodEnd.falsy : PeriodEnd → Bool
  | .none => true
  | .nan => false
  | .text s => decide (s = "")

/-- `f"{year}-{fiscal_period}"`. -/
def labelOf (year fiscalPeriod : String) : String := year ++ "-" ++ fiscalPeriod

def periodEndToQuarterLabel (dates : Dates) (periodEnd : PeriodEnd) (fiscalPeriod : String) :
    String :=
  if periodEnd.falsy then "Unknown"
  else
    match periodEnd with
    | .none => "Unknown"
    | .nan => labelOf "nan" fiscalPeriod
    | .text s =>
      match dates.timestamp s with
      | .date year month =>
        labelOf (toString (if fiscalPeriod = "Q4" ∧ month ≤ 3 then year - 1 else year)) fiscalPeriod
      | .nat => labelOf "nan" fiscalPeriod
      | .raises => labelOf s fiscalPeriod

/-! ### The values to date -/

/-- Numbers from the greatest on, the missing ones last. -/
def descending : Option Int → WithTop Int
  | none => ⊤
  | some n => ((-n : Int) : WithTop Int)

def missingLast : Option String → WithTop String
  | none => ⊤
  | some s => (s : WithTop String)

abbrev PeriodKey := String × Option String × String

def FactRow.key (r : FactRow) : PeriodKey := (r.concept, r.periodStart, r.fiscalPeriod)

def FactRow.sortKey (dates : Dates) (r : FactRow) :
    String ×ₗ WithTop String ×ₗ String ×ₗ WithTop Int :=
  toLex (r.concept, toLex (missingLast r.periodStart,
    toLex (r.fiscalPeriod, descending (dates.days r))))

def fiscalPeriods : List String := ["Q1", "Q2", "Q3", "Q4", "FY"]

/-- The rows of the concepts that are of a period. -/
def considered (facts : FactsTable) (cList : List String) : List FactRow :=
  facts.rows.filter fun r =>
    decide (r.concept ∈ cList ∧ r.fiscalPeriod ∈ fiscalPeriods ∧ r.periodType = "duration")

/-- The row of the longest duration for each concept, start and fiscal period. -/
def yearToDate (dates : Dates) (rows : List FactRow) : List FactRow :=
  keepFirst FactRow.key (byKey (FactRow.sortKey dates) rows)

/-! ### The differences -/

structure DerivedRow where
  concept : String
  periodEnd : PeriodEnd
  fiscalPeriod : String
  fiscalYear : Option Int
  quarterLabel : String
  numericValue : ℚ
  unit : Option String
  periodType : String := "duration"
  statementType : String := "cashflow"
deriving DecidableEq

/-- The row of a quarter, with the year and the unit of the first row of its group. -/
def quarterRow (dates : Dates) (hasUnit : Bool) (c : String) (first : FactRow) (quarter : String)
    (row : FactRow) (numericValue : ℚ) : DerivedRow where
  concept := c
  periodEnd := row.periodEnd
  fiscalPeriod := quarter
  fiscalYear := first.fiscalYear
  quarterLabel := periodEndToQuarterLabel dates row.periodEnd quarter
  numericValue
  unit := if hasUnit then first.unit else some "USD"

/-- The row of a quarter, if it has a value. -/
def entry (dates : Dates) (hasUnit : Bool) (c : String) (first : FactRow) (quarter : String)
    (row : Option FactRow) (value : Option ℚ) : List DerivedRow :=
  match row, value with
  | some r, some v => [quarterRow dates hasUnit c first quarter r v]
  | _, _ => []

/-- A difference of two values, of which none is missing. -/
def difference (a b : Option ℚ) : Option ℚ := do return (← a) - (← b)

def FactRow.quarter (fiscalPeriod : String) (rows : List FactRow) : Option FactRow :=
  rows.find? fun r => decide (r.fiscalPeriod = fiscalPeriod)

/-- The quarters of a group. There is no first row where the start is missing, since that equals
nothing. -/
def deriveGroup (dates : Dates) (hasUnit : Bool) (c : String) :
    List FactRow → Option (List DerivedRow)
  | [] => none
  | first :: rest =>
    let fg := first :: rest
    let q1 := FactRow.quarter "Q1" fg
    let q2 := FactRow.quarter "Q2" fg
    let q3 := FactRow.quarter "Q3" fg
    let fy := FactRow.quarter "FY" fg
    let value (row : Option FactRow) : Option ℚ := row.bind FactRow.numericValue
    some
      (entry dates hasUnit c first "Q1" q1 (value q1) ++
        entry dates hasUnit c first "Q2" q2 (difference (value q2) (value q1)) ++
        entry dates hasUnit c first "Q3" q3 (difference (value q3) (value q2)) ++
        entry dates hasUnit c first "Q4" fy (difference (value fy) (value q3)))

/-- `cd[cd["period_start"] == ps]`. -/
def groupOf (df : List FactRow) (c : String) (ps : Option String) : List FactRow :=
  df.filter fun r => decide (r.concept = c) && (ps.any fun s => decide (r.periodStart = some s))

/-- The concepts with their starts, in the order of the loops. -/
def groupKeys (df : List FactRow) : List (String × Option String) :=
  (keepFirst id (df.map FactRow.concept)).flatMap fun c =>
    (keepFirst id ((df.filter fun r => decide (r.concept = c)).map FactRow.periodStart)).map
      fun ps => (c, ps)

/-- The quarters of all groups, where none of them raises. -/
def deriveAll (dates : Dates) (hasUnit : Bool) (df : List FactRow) :
    List (String × Option String) → Option (List DerivedRow)
  | [] => some []
  | g :: gs => do
    let derived ← deriveGroup dates hasUnit g.1 (groupOf df g.1 g.2)
    let rest ← deriveAll dates hasUnit df gs
    return derived ++ rest

def DerivedRow.key (r : DerivedRow) : String × String := (r.concept, r.quarterLabel)

def DerivedRow.sortKey (r : DerivedRow) : String ×ₗ String ×ₗ WithTop Int :=
  toLex (r.concept, toLex (r.quarterLabel, descending r.fiscalYear))

/-- The first row of each quarter of a concept. No value is missing. -/
def quarterly (derived : List DerivedRow) : List DerivedRow :=
  keepFirst DerivedRow.key (byKey DerivedRow.sortKey derived)

/-! ### The frame -/

structure ResultRow extends DerivedRow where
  label : String
  depth : Int
  isTotal : Bool
  conceptOrder : Nat
deriving DecidableEq

def enrichWithBlueprint (bp : List BlueprintRow) (df : List DerivedRow) : List ResultRow :=
  df.map fun r =>
    let found := bp.reverse.find? fun b => decide (b.concept = r.concept)
    let order := bp.zipIdx.reverse.find? fun b => decide (b.1.concept = r.concept)
    { r with
      label := (found.map BlueprintRow.label).getD ((r.concept.splitOn ":").getLastD "")
      depth := (found.map BlueprintRow.depth).getD 0
      isTotal := (found.map BlueprintRow.isTotal).getD false
      conceptOrder := (order.map Prod.snd).getD 999 }

/-- The digits of `int(s)`, which single underscores may part. -/
def digitsValue : Nat → List Char → Option Nat
  | n, [] => some n
  | n, '_' :: c :: cs => do digitsValue (n * 10 + (← StockNotes.decimalValue c)) cs
  | n, c :: cs => do digitsValue (n * 10 + (← StockNotes.decimalValue c)) cs

/-- `int(s)`. -/
def intOf (s : String) : Option Int :=
  match (Sync.strip s).toList with
  | [] => none
  | ['-'] => none
  | ['+'] => none
  | '-' :: c :: cs => do digitsValue (← StockNotes.decimalValue c) cs |>.map fun n => -(n : Int)
  | '+' :: c :: cs => do digitsValue (← StockNotes.decimalValue c) cs |>.map Int.ofNat
  | c :: cs => do digitsValue (← StockNotes.decimalValue c) cs |>.map Int.ofNat

def parseQuarterLabel (label : String) : Int × Int :=
  match label.splitOn "-Q" with
  | year :: quarter :: _ =>
    match intOf year, intOf quarter with
    | some y, some q => (y, q)
    | _, _ => (0, 0)
  | _ => (0, 0)

/-- The median of the ends of a quarter. -/
def quarterDate (dates : Dates) (df : List ResultRow) (label : String) : Option Int :=
  dates.median ((df.filter fun r => decide (r.quarterLabel = label)).map fun r => r.periodEnd)

/-- A quarter without a date is before all others. -/
def latest : Option Int → WithBot Int
  | none => ⊥
  | some d => (d : WithBot Int)

/-- The latest quarters first, by their dates or, where there are none, by their names. -/
def sortQuartersDesc (dates : Dates) (df : List ResultRow) (labels : List String) : List String :=
  if labels.any fun label => (quarterDate dates df label).isSome then
    byKey (fun label => OrderDual.toDual (latest (quarterDate dates df label))) labels
  else byKey (fun label => OrderDual.toDual (toLex (parseQuarterLabel label))) labels

def quarterLabels (df : List ResultRow) : List String := keepFirst id (df.map fun r => r.quarterLabel)

def limitQuarters (dates : Dates) (df : List ResultRow) (numQuarters : Int) : List ResultRow :=
  if df = [] ∨ numQuarters ≤ 0 then df
  else
    let wanted := (sortQuartersDesc dates df (quarterLabels df)).take numQuarters.toNat
    df.filter fun r => decide (r.quarterLabel ∈ wanted)

/-- The concepts of the statement that have facts. -/
def conceptList (facts : FactsTable) (bp : List BlueprintRow) : List String :=
  ((bp.filter fun b => !b.isAbstract).map BlueprintRow.concept).filter fun c =>
    decide (c ∈ facts.rows.map FactRow.concept)

/-- The values to date that the quarters are derived from. -/
def cashflowFacts (dates : Dates) (facts : FactsTable) (bp : List BlueprintRow) : List FactRow :=
  yearToDate dates (considered facts (conceptList facts bp))

/-- The frame before it is limited. -/
def cashflowRows (dates : Dates) (facts : FactsTable) (bp : List BlueprintRow) :
    Option (List ResultRow) := do
  let df := cashflowFacts dates facts bp
  let derived ← deriveAll dates facts.hasUnit df (groupKeys df)
  return enrichWithBlueprint bp (quarterly derived)

/-- `process_cashflow`; there is no frame where it raises. A blueprint without columns has no
`is_abstract`. -/
def processCashflow (dates : Dates) (facts : FactsTable) (blueprint : Option (List BlueprintRow))
    (numQuarters : Int) : Option (List ResultRow) := do
  let bp ← blueprint
  if conceptList facts bp = [] then return []
  else if considered facts (conceptList facts bp) = [] then return []
  else
    let df ← cashflowRows dates facts bp
    return limitQuarters dates df numQuarters

/-! ### The rows of the longest durations -/

theorem mem_yearToDate {rows : List FactRow} (h : r ∈ yearToDate dates rows) : r ∈ rows :=
  (perm_byKey _ rows).mem_iff.1 ((keepFirst_sublist _ _).subset h)

/-- A row with a duration comes after one that is as long. -/
theorem descending_le (h : descending a ≤ descending (some n)) : ∃ m, a = some m ∧ n ≤ m := by
  cases a with
  | none => exact absurd (top_le_iff.1 h) (WithTop.coe_ne_top)
  | some m =>
    refine ⟨m, rfl, ?_⟩
    have hle : (-m : Int) ≤ -n := WithTop.coe_le_coe.1 h
    omega

/-- The row that is used of a fiscal period has the longest duration. -/
theorem longest_yearToDate {rows : List FactRow} (h : r ∈ yearToDate dates rows) (hr' : r' ∈ rows)
    (hk : r'.key = r.key) (hd : dates.days r' = some n) : ∃ m, dates.days r = some m ∧ n ≤ m := by
  rcases le_of_mem_keepFirst (pairwise_byKey _ rows) h ((perm_byKey _ rows).mem_iff.2 hr') hk with
    rfl | hle
  · exact ⟨n, hd, Int.le_refl n⟩
  · obtain ⟨hc, hs, hp⟩ : r'.concept = r.concept ∧ r'.periodStart = r.periodStart ∧
        r'.fiscalPeriod = r.fiscalPeriod := by
      simpa only [FactRow.key, Prod.mk.injEq] using hk
    rw [FactRow.sortKey, FactRow.sortKey, hc, hs, hp, hd, Prod.Lex.toLex_le_toLex] at hle
    simp only [lt_irrefl, false_or, true_and, Prod.Lex.toLex_le_toLex] at hle
    exact descending_le hle

/-! ### The groups -/

/-- The rows of a group. -/
theorem mem_groupOf {df : List FactRow} :
    r ∈ groupOf df c (some ps) ↔ r ∈ df ∧ r.concept = c ∧ r.periodStart = some ps := by
  rw [groupOf, List.mem_filter, Option.any_some, Bool.and_eq_true, decide_eq_true_iff,
    decide_eq_true_iff]

theorem mem_groupKeys {df : List FactRow} {g : String × Option String} :
    g ∈ groupKeys df ↔ ∃ r ∈ df, r.concept = g.1 ∧ r.periodStart = g.2 := by
  rw [groupKeys, List.mem_flatMap]
  constructor
  · rintro ⟨c, _, hg⟩
    obtain ⟨ps, hps, rfl⟩ := List.mem_map.1 hg
    obtain ⟨r, hr, hs⟩ := List.mem_map.1 (mem_keepFirst_id.1 hps)
    obtain ⟨hr, hc⟩ := List.mem_filter.1 hr
    exact ⟨r, hr, of_decide_eq_true hc, hs⟩
  · rintro ⟨r, hr, hc, hs⟩
    have hrow : r ∈ df.filter fun r => decide (r.concept = g.1) :=
      List.mem_filter.2 ⟨hr, decide_eq_true hc⟩
    refine ⟨g.1, mem_keepFirst_id.2 (hc ▸ List.mem_map_of_mem hr), ?_⟩
    exact List.mem_map.2 ⟨g.2, mem_keepFirst_id.2 (hs ▸ List.mem_map_of_mem hrow), rfl⟩

theorem deriveAll_some {gs : List (String × Option String)}
    (h : ∀ g ∈ gs, groupOf df g.1 g.2 ≠ []) : ∃ ds, deriveAll dates u df gs = some ds := by
  induction gs with
  | nil => exact ⟨[], rfl⟩
  | cons g gs ih =>
    obtain ⟨ds, hds⟩ := ih fun g' hg' => h g' (List.mem_cons_of_mem g hg')
    cases hg : groupOf df g.1 g.2 with
    | nil => exact absurd hg (h g List.mem_cons_self)
    | cons first rest =>
      rw [deriveAll, hg, hds]
      exact ⟨_, rfl⟩

theorem mem_deriveAll {gs : List (String × Option String)} {ds : List DerivedRow}
    (h : deriveAll dates u df gs = some ds) :
    e ∈ ds ↔ ∃ g ∈ gs, ∃ d, deriveGroup dates u g.1 (groupOf df g.1 g.2) = some d ∧ e ∈ d := by
  induction gs generalizing ds with
  | nil =>
    cases h
    simp
  | cons g gs ih =>
    rw [deriveAll] at h
    obtain ⟨d, hd, h⟩ := Option.bind_eq_some_iff.1 h
    obtain ⟨rest, hrest, h⟩ := Option.bind_eq_some_iff.1 h
    cases h
    rw [List.mem_append, ih hrest]
    constructor
    · rintro (he | ⟨g', hg', d', hd', he⟩)
      · exact ⟨g, List.mem_cons_self, d, hd, he⟩
      · exact ⟨g', List.mem_cons_of_mem g hg', d', hd', he⟩
    · rintro ⟨g', hg', d', hd', he⟩
      rcases List.mem_cons.1 hg' with rfl | hg'
      · cases hd.symm.trans hd'
        exact .inl he
      · exact .inr ⟨g', hg', d', hd', he⟩

theorem concept_entry (h : e ∈ entry dates u c first quarter row value) : e.concept = c := by
  cases row with
  | none => cases h
  | some r =>
    cases value with
    | none => cases h
    | some v =>
      rw [List.mem_singleton.1 h]
      rfl

theorem concept_deriveGroup (h : deriveGroup dates u c fg = some d) (he : e ∈ d) :
    e.concept = c := by
  cases fg with
  | nil => cases h
  | cons first rest =>
    cases h
    simp only [List.mem_append] at he
    rcases he with ((he | he) | he) | he <;> exact concept_entry he

/-! ### The four quarters of a group -/

/-- What is used of a fiscal period of a group. -/
def used (df : List FactRow) (c ps fiscalPeriod : String) : Option FactRow :=
  FactRow.quarter fiscalPeriod (groupOf df c (some ps))

theorem mem_used {df : List FactRow} (h : used df c ps fp = some r) :
    r ∈ df ∧ r.key = (c, some ps, fp) := by
  obtain ⟨hr, hc, hs⟩ := mem_groupOf.1 (List.mem_of_find?_eq_some h)
  have hp : r.fiscalPeriod = fp := by simpa using List.find?_some h
  exact ⟨hr, by rw [FactRow.key, hc, hs, hp]⟩

/-- A row that is used for a group, with its value. -/
structure Uses (df : List FactRow) (c ps fiscalPeriod : String) (r : FactRow) (v : ℚ) : Prop where
  used : used df c ps fiscalPeriod = some r
  value : r.numericValue = some v

theorem deriveGroup_full (dates : Dates) (u : Bool) {df : List FactRow} (h1 : Uses df c ps "Q1" q1 v1)
    (h2 : Uses df c ps "Q2" q2 v2) (h3 : Uses df c ps "Q3" q3 v3) (hfy : Uses df c ps "FY" fy v) :
    ∃ first, deriveGroup dates u c (groupOf df c (some ps)) =
      some [quarterRow dates u c first "Q1" q1 v1, quarterRow dates u c first "Q2" q2 (v2 - v1),
        quarterRow dates u c first "Q3" q3 (v3 - v2), quarterRow dates u c first "Q4" fy (v - v3)] := by
  have hu1 := h1.used
  have hu2 := h2.used
  have hu3 := h3.used
  have hufy := hfy.used
  rw [used] at hu1 hu2 hu3 hufy
  cases hg : groupOf df c (some ps) with
  | nil =>
    rw [hg] at hu1
    cases hu1
  | cons first rest =>
    rw [hg] at hu1 hu2 hu3 hufy
    refine ⟨first, ?_⟩
    rw [deriveGroup, hu1, hu2, hu3, hufy]
    simp only [Option.bind_some, h1.value, h2.value, h3.value, hfy.value]
    rfl

/-- The last letter of a label tells the quarter, where the end of the period is known. -/
theorem getLast?_label (dates : Dates) (e : PeriodEnd) {quarter : String}
    (hq : quarter.toList ≠ []) :
    (periodEndToQuarterLabel dates e quarter).toList.getLast? =
      if e.falsy then some 'n' else quarter.toList.getLast? := by
  have hlabel (year : String) : (labelOf year quarter).toList.getLast? = quarter.toList.getLast? := by
    rw [labelOf, String.toList_append, List.getLast?_append_of_ne_nil _ hq]
  rw [periodEndToQuarterLabel.eq_def]
  split
  next => rfl
  next h =>
    cases e with
    | none => exact absurd rfl h
    | nan => exact hlabel "nan"
    | text s =>
      dsimp only
      split
      next => exact hlabel _
      next => exact hlabel _
      next => exact hlabel s

/-- The labels of the quarters of a group. -/
def groupLabels (dates : Dates) (q1 q2 q3 fy : FactRow) : List String :=
  [periodEndToQuarterLabel dates q1.periodEnd "Q1", periodEndToQuarterLabel dates q2.periodEnd "Q2",
    periodEndToQuarterLabel dates q3.periodEnd "Q3", periodEndToQuarterLabel dates fy.periodEnd "Q4"]

/-- At most one of the rows is without an end. -/
def Ended (rows : List FactRow) : Prop := rows.countP (fun r => r.periodEnd.falsy) ≤ 1

instance (rows : List FactRow) : Decidable (Ended rows) :=
  inferInstanceAs (Decidable (_ ≤ 1))

theorem lasts_nodup : ∀ b1 b2 b3 b4 : Bool,
    (if b4 then 1 else 0) + (if b3 then 1 else 0) + (if b2 then 1 else 0) + (if b1 then 1 else 0) ≤ 1 →
      [if b1 then 'n' else '1', if b2 then 'n' else '2', if b3 then 'n' else '3',
        if b4 then 'n' else '4'].Nodup := by decide

theorem groupLabels_nodup (dates : Dates) (h : Ended [q1, q2, q3, fy]) :
    (groupLabels dates q1 q2 q3 fy).Nodup := by
  apply List.Nodup.of_map fun s : String => s.toList.getLast?
  simp only [groupLabels, List.map_cons, List.map_nil]
  rw [getLast?_label dates _ (by decide), getLast?_label dates _ (by decide),
    getLast?_label dates _ (by decide), getLast?_label dates _ (by decide)]
  simp only [Ended, List.countP_cons, List.countP_nil, Nat.zero_add] at h
  have hn := (lasts_nodup _ _ _ _ h).map (Option.some_injective Char)
  simp only [List.map_cons, List.map_nil, apply_ite some] at hn
  exact hn

/-- Different groups of a concept never come to the same label. -/
def GroupsApart (dates : Dates) (hasUnit : Bool) (df : List FactRow) : Prop :=
  ∀ c ps ps' d d', ps ≠ ps' → deriveGroup dates hasUnit c (groupOf df c ps) = some d →
    deriveGroup dates hasUnit c (groupOf df c ps') = some d' →
      ∀ e ∈ d, ∀ e' ∈ d', e.quarterLabel ≠ e'.quarterLabel

/-- Of the labels of a group, its four quarters are left. -/
theorem quarterly_group {df : List FactRow} {ds : List DerivedRow} (hapart : GroupsApart dates u df)
    (hds : deriveAll dates u df (groupKeys df) = some ds) (h1 : Uses df c ps "Q1" q1 v1)
    (h2 : Uses df c ps "Q2" q2 v2) (h3 : Uses df c ps "Q3" q3 v3) (hfy : Uses df c ps "FY" fy v)
    (hended : Ended [q1, q2, q3, fy]) :
    ∃ es : List DerivedRow, es.map DerivedRow.numericValue = [v1, v2 - v1, v3 - v2, v - v3] ∧
      ((quarterly ds).filter fun r =>
        decide (r.key ∈ (groupLabels dates q1 q2 q3 fy).map fun label => (c, label))).Perm es := by
  obtain ⟨first, hgroup⟩ := deriveGroup_full dates u h1 h2 h3 hfy
  refine ⟨[quarterRow dates u c first "Q1" q1 v1, quarterRow dates u c first "Q2" q2 (v2 - v1),
    quarterRow dates u c first "Q3" q3 (v3 - v2), quarterRow dates u c first "Q4" fy (v - v3)],
    rfl, ?_⟩
  set es := [quarterRow dates u c first "Q1" q1 v1, quarterRow dates u c first "Q2" q2 (v2 - v1),
    quarterRow dates u c first "Q3" q3 (v3 - v2), quarterRow dates u c first "Q4" fy (v - v3)]
    with hes
  have hkeys : es.map DerivedRow.key =
      (groupLabels dates q1 q2 q3 fy).map fun label => (c, label) := rfl
  have hn : (es.map DerivedRow.key).Nodup := by
    rw [hkeys]
    exact (groupLabels_nodup dates hended).map fun _ _ h => (Prod.mk.inj h).2
  have hkey : (c, some ps) ∈ groupKeys df := by
    obtain ⟨hr, hk⟩ := mem_used h1.used
    rw [FactRow.key, Prod.mk.injEq, Prod.mk.injEq] at hk
    exact mem_groupKeys.2 ⟨q1, hr, hk.1, hk.2.1⟩
  have hmem : ∀ e ∈ es, e ∈ ds := fun e he =>
    (mem_deriveAll hds).2 ⟨(c, some ps), hkey, es, hgroup, he⟩
  have honly : ∀ e ∈ es, ∀ b ∈ ds, b.key = e.key → b = e := by
    intro e he b hb hk
    obtain ⟨⟨c', ps'⟩, _, d, hd, hbd⟩ := (mem_deriveAll hds).1 hb
    have hc : c' = c := (concept_deriveGroup hd hbd).symm.trans
      ((congrArg Prod.fst hk).trans (concept_deriveGroup hgroup he))
    subst hc
    by_cases hps : ps' = some ps
    · subst hps
      have hsame : d = es := Option.some.inj (hd.symm.trans hgroup)
      rw [hsame] at hbd
      exact List.inj_on_of_nodup_map hn hbd he hk
    · exact absurd (congrArg Prod.snd hk) (hapart c' ps' (some ps) d es hps hd hgroup b hbd e he)
  have hperm := perm_byKey DerivedRow.sortKey ds
  rw [← hkeys]
  exact filter_keepFirst_perm (fun b => decide_eq_true_iff) hn
    (fun e he => hperm.mem_iff.2 (hmem e he)) fun e he b hb => honly e he b (hperm.mem_iff.1 hb)

/-! ### The frame that is returned -/

theorem perm_sortQuartersDesc (dates : Dates) (df : List ResultRow) (labels : List String) :
    (sortQuartersDesc dates df labels).Perm labels := by
  rw [sortQuartersDesc]
  split
  next => exact perm_byKey _ labels
  next => exact perm_byKey _ labels

/-- A limit that no quarter is beyond. -/
theorem limitQuarters_eq_self {df : List ResultRow}
    (h : numQuarters ≤ 0 ∨ ((quarterLabels df).length : Int) ≤ numQuarters) :
    limitQuarters dates df numQuarters = df := by
  rw [limitQuarters]
  split
  next => rfl
  next hnot =>
    rw [not_or] at hnot
    have hle : ((quarterLabels df).length : Int) ≤ numQuarters := h.resolve_left hnot.2
    have hperm := perm_sortQuartersDesc dates df (quarterLabels df)
    have hlen : (sortQuartersDesc dates df (quarterLabels df)).length ≤ numQuarters.toNat := by
      rw [hperm.length_eq]
      omega
    rw [List.filter_eq_self]
    intro r hr
    rw [List.take_of_length_le hlen, decide_eq_true_iff, hperm.mem_iff, quarterLabels,
      mem_keepFirst_id]
    exact List.mem_map_of_mem hr

/-- Where every row has a start, no group raises. -/
theorem deriveAll_groupKeys (dates : Dates) (u : Bool) (df : List FactRow)
    (h : ∀ r ∈ df, r.periodStart ≠ none) : ∃ ds, deriveAll dates u df (groupKeys df) = some ds := by
  apply deriveAll_some
  intro g hg hnil
  obtain ⟨r, hr, hc, hs⟩ := mem_groupKeys.1 hg
  cases hps : g.2 with
  | none => exact h r hr (hs.trans hps)
  | some ps =>
    have hrow := mem_groupOf.2 ⟨hr, hc, hs.trans hps⟩
    rw [← hps, hnil] at hrow
    cases hrow

/-- The early returns are not taken where there is a row. -/
theorem processCashflow_of_mem {facts : FactsTable} {bp : List BlueprintRow}
    (hr : r ∈ considered facts (conceptList facts bp)) (hrows : cashflowRows dates facts bp = some df) :
    processCashflow dates facts (some bp) numQuarters = some (limitQuarters dates df numQuarters) := by
  have hconcept : r.concept ∈ conceptList facts bp :=
    (of_decide_eq_true (List.mem_filter.1 hr).2).1
  rw [processCashflow, Option.bind_eq_bind, Option.bind_some, if_neg (List.ne_nil_of_mem hconcept),
    if_neg (List.ne_nil_of_mem hr), hrows]
  rfl

/-- The rows of a group in the frame. -/
def groupRows (frame : List ResultRow) (c : String) (labels : List String) : List ResultRow :=
  frame.filter fun r => decide (r.concept = c ∧ r.quarterLabel ∈ labels)

theorem groupRows_enrich (bp : List BlueprintRow) (df : List DerivedRow) (c : String)
    (labels : List String) :
    (groupRows (enrichWithBlueprint bp df) c labels).map (fun r => r.numericValue) =
      (df.filter fun r => decide (r.key ∈ labels.map fun label => (c, label))).map
        DerivedRow.numericValue := by
  rw [groupRows, enrichWithBlueprint, List.filter_map, List.map_map]
  have hfilter (r : DerivedRow) : (r.concept = c ∧ r.quarterLabel ∈ labels) ↔
      r.key ∈ labels.map fun label => (c, label) := by
    rw [DerivedRow.key, List.mem_map]
    constructor
    · rintro ⟨hc, hl⟩
      exact ⟨r.quarterLabel, hl, by rw [hc]⟩
    · rintro ⟨label, hl, he⟩
      rw [Prod.mk.injEq] at he
      exact ⟨he.1.symm, he.2 ▸ hl⟩
  refine congrArg _ (List.filter_congr fun r _ => ?_)
  exact decide_eq_decide.2 (hfilter r)

/-- In a frame whose groups have labels of their own and that no limit cuts, the four quarters of a
group sum up to its year, of which at most one end is unknown. -/
theorem processCashflow_sums (dates : Dates) (facts : FactsTable) (bp : List BlueprintRow)
    (numQuarters : Int) (c ps : String) (q1 q2 q3 fy : FactRow) (v1 v2 v3 v : ℚ)
    (hstart : ∀ r ∈ considered facts (conceptList facts bp), r.periodStart ≠ none)
    (hapart : GroupsApart dates facts.hasUnit (cashflowFacts dates facts bp))
    (hnum : numQuarters ≤ 0 ∨ ∀ df, cashflowRows dates facts bp = some df →
      ((quarterLabels df).length : Int) ≤ numQuarters)
    (h1 : Uses (cashflowFacts dates facts bp) c ps "Q1" q1 v1)
    (h2 : Uses (cashflowFacts dates facts bp) c ps "Q2" q2 v2)
    (h3 : Uses (cashflowFacts dates facts bp) c ps "Q3" q3 v3)
    (hfy : Uses (cashflowFacts dates facts bp) c ps "FY" fy v) (hended : Ended [q1, q2, q3, fy]) :
    (∃ frame, processCashflow dates facts (some bp) numQuarters = some frame ∧
      (groupRows frame c (groupLabels dates q1 q2 q3 fy)).length = 4 ∧
      ((groupRows frame c (groupLabels dates q1 q2 q3 fy)).map fun r => r.numericValue).sum = v) ∧
    ∀ r ∈ [q1, q2, q3, fy], ∀ r' ∈ considered facts (conceptList facts bp), r'.key = r.key →
      ∀ n, dates.days r' = some n → ∃ m, dates.days r = some m ∧ n ≤ m := by
  constructor
  · obtain ⟨ds, hds⟩ := deriveAll_groupKeys dates facts.hasUnit
      (cashflowFacts dates facts bp) fun r hr => hstart r (mem_yearToDate hr)
    have hrows : cashflowRows dates facts bp = some (enrichWithBlueprint bp (quarterly ds)) := by
      rw [cashflowRows, hds]
      rfl
    refine ⟨enrichWithBlueprint bp (quarterly ds), ?_, ?_⟩
    · rw [processCashflow_of_mem (mem_yearToDate (mem_used h1.used).1) hrows]
      exact congrArg some (limitQuarters_eq_self (hnum.imp_right fun h => h _ hrows))
    · obtain ⟨es, hvalues, hperm⟩ := quarterly_group hapart hds h1 h2 h3 hfy hended
      have hsame := (hperm.map DerivedRow.numericValue)
      rw [← groupRows_enrich bp, hvalues] at hsame
      refine ⟨?_, ?_⟩
      · have hlen := hsame.length_eq
        rwa [List.length_map] at hlen
      · rw [hsame.sum_eq]
        simp only [List.sum_cons, List.sum_nil]
        rw [add_zero, sub_add_sub_cancel', sub_add_sub_cancel', add_sub_cancel]
  · intro r hr r' hr' hk n hn
    have hmem : r ∈ cashflowFacts dates facts bp := by
      simp only [List.mem_cons, List.not_mem_nil, or_false] at hr
      rcases hr with rfl | rfl | rfl | rfl
      · exact (mem_used h1.used).1
      · exact (mem_used h2.used).1
      · exact (mem_used h3.used).1
      · exact (mem_used hfy.used).1
    exact longest_yearToDate hmem hr' hk hn

/-! ### A year of cash flows -/

/-- The durations and the dates of the year 2023. -/
def dates2023 : Dates where
  timestamp
    | "2023-03-31" => .date 2023 3
    | "2023-06-30" => .date 2023 6
    | "2023-09-30" => .date 2023 9
    | "2023-12-31" => .date 2023 12
    | _ => .raises
  days r :=
    match r.periodEnd with
    | .text "2023-03-31" => some 89
    | .text "2023-06-30" => some 180
    | .text "2023-09-30" => some 272
    | .text "2023-12-31" => some 364
    | _ => none
  median _ := none

def fact (fiscalPeriod : String) (periodEnd : PeriodEnd) (value : ℚ) : FactRow where
  concept := "us-gaap:Cash"
  periodStart := some "2023-01-01"
  periodEnd
  fiscalPeriod
  numericValue := some value

def year2023 (q1End q2End : PeriodEnd) : List FactRow :=
  [fact "Q1" q1End 1, fact "Q2" q2End 3, fact "Q3" (.text "2023-09-30") 6,
    fact "FY" (.text "2023-12-31") 10]

def cashBlueprint (concept : String) : List BlueprintRow :=
  [{ concept, label := "Cash", depth := 0, isAbstract := false, isTotal := false }]

/-- The groups of one start have no other to share a label with. -/
theorem groupsApart_of_start (ps : String) {df : List FactRow}
    (h : ∀ r ∈ df, r.periodStart = none ∨ r.periodStart = some ps) : GroupsApart dates u df := by
  have hstart {c : String} {ps' : Option String} {d : List DerivedRow}
      (hd : deriveGroup dates u c (groupOf df c ps') = some d) : ps' = some ps := by
    cases hg : groupOf df c ps' with
    | nil =>
      rw [hg] at hd
      cases hd
    | cons r rest =>
      have hr : r ∈ groupOf df c ps' := hg ▸ List.mem_cons_self
      cases ps' with
      | none =>
        rw [groupOf, List.mem_filter, Option.any_none, Bool.and_false] at hr
        cases hr.2
      | some s =>
        obtain ⟨hr, _, hs⟩ := mem_groupOf.1 hr
        rcases h r hr with hnone | hsome
        · exact absurd (hs.symm.trans hnone) (Option.some_ne_none s)
        · exact hs.symm.trans hsome
  intro c ps₁ ps₂ d d' hne hd hd'
  exact absurd ((hstart hd).trans (hstart hd').symm) hne

theorem processCashflow_sums_2023 :
    (∃ frame, processCashflow dates2023
        ⟨year2023 (.text "2023-03-31") (.text "2023-06-30"), true⟩
        (some (cashBlueprint "us-gaap:Cash")) 0 = some frame ∧
      (groupRows frame "us-gaap:Cash" ["2023-Q1", "2023-Q2", "2023-Q3", "2023-Q4"]).length = 4 ∧
      ((groupRows frame "us-gaap:Cash"
        ["2023-Q1", "2023-Q2", "2023-Q3", "2023-Q4"]).map fun r => r.numericValue).sum = 10) := by
  have h := processCashflow_sums dates2023
    ⟨year2023 (.text "2023-03-31") (.text "2023-06-30"), true⟩ (cashBlueprint "us-gaap:Cash") 0
    "us-gaap:Cash" "2023-01-01" (fact "Q1" (.text "2023-03-31") 1)
    (fact "Q2" (.text "2023-06-30") 3) (fact "Q3" (.text "2023-09-30") 6)
    (fact "FY" (.text "2023-12-31") 10) 1 3 6 10 (by decide +kernel)
    (groupsApart_of_start "2023-01-01" (by decide +kernel)) (.inl (Int.le_refl 0))
    ⟨by decide +kernel, rfl⟩ ⟨by decide +kernel, rfl⟩ ⟨by decide +kernel, rfl⟩
    ⟨by decide +kernel, rfl⟩ (by decide)
  have hlabels : groupLabels dates2023 (fact "Q1" (.text "2023-03-31") 1)
      (fact "Q2" (.text "2023-06-30") 3) (fact "Q3" (.text "2023-09-30") 6)
      (fact "FY" (.text "2023-12-31") 10) = ["2023-Q1", "2023-Q2", "2023-Q3", "2023-Q4"] := by
    decide +kernel
  rw [hlabels] at h
  exact h.1

/-- Every group of the table sums up, whatever the blueprint names and whichever dates are missing. -/
def EveryGroupSums (dates : Dates) (facts : FactsTable) (bp : List BlueprintRow)
    (numQuarters : Int) : Prop :=
  GroupsApart dates facts.hasUnit
      (yearToDate dates (considered facts (facts.rows.map FactRow.concept))) →
    ∀ c ps q1 q2 q3 fy v1 v2 v3 v,
      Uses (yearToDate dates (considered facts (facts.rows.map FactRow.concept))) c ps "Q1" q1 v1 →
      Uses (yearToDate dates (considered facts (facts.rows.map FactRow.concept))) c ps "Q2" q2 v2 →
      Uses (yearToDate dates (considered facts (facts.rows.map FactRow.concept))) c ps "Q3" q3 v3 →
      Uses (yearToDate dates (considered facts (facts.rows.map FactRow.concept))) c ps "FY" fy v →
      ∃ frame, processCashflow dates facts (some bp) numQuarters = some frame ∧
        (groupRows frame c (groupLabels dates q1 q2 q3 fy)).length = 4 ∧
        ((groupRows frame c (groupLabels dates q1 q2 q3 fy)).map fun r => r.numericValue).sum = v

/-- Two quarters without an end are both `Unknown`, a row without a start raises, and a concept that
the blueprint does not name has no rows. -/
theorem not_every_group_sums :
    ¬EveryGroupSums dates2023 ⟨year2023 .none .none, true⟩ (cashBlueprint "us-gaap:Cash") 0 ∧
    ¬EveryGroupSums dates2023
      ⟨{ fact "Q1" (.text "2023-03-31") 1 with periodStart := none } ::
        year2023 (.text "2023-03-31") (.text "2023-06-30"), true⟩ (cashBlueprint "us-gaap:Cash") 0 ∧
    ¬EveryGroupSums dates2023 ⟨year2023 (.text "2023-03-31") (.text "2023-06-30"), true⟩
      (cashBlueprint "us-gaap:Debt") 0 := by
  refine ⟨fun h => ?_, fun h => ?_, fun h => ?_⟩
  · obtain ⟨frame, hframe, hlen, -⟩ :=
      h (groupsApart_of_start "2023-01-01" (by decide +kernel)) "us-gaap:Cash" "2023-01-01"
        (fact "Q1" .none 1) (fact "Q2" .none 3) (fact "Q3" (.text "2023-09-30") 6)
        (fact "FY" (.text "2023-12-31") 10) 1 3 6 10 ⟨by decide +kernel, rfl⟩
        ⟨by decide +kernel, rfl⟩ ⟨by decide +kernel, rfl⟩ ⟨by decide +kernel, rfl⟩
    have hthree : (processCashflow dates2023 ⟨year2023 .none .none, true⟩
        (some (cashBlueprint "us-gaap:Cash")) 0).map (fun frame => (groupRows frame "us-gaap:Cash"
          (groupLabels dates2023 (fact "Q1" .none 1) (fact "Q2" .none 3)
            (fact "Q3" (.text "2023-09-30") 6) (fact "FY" (.text "2023-12-31") 10))).length) =
          some 3 := by decide +kernel
    rw [hframe, Option.map_some, hlen] at hthree
    cases hthree
  · obtain ⟨frame, hframe, -⟩ :=
      h (groupsApart_of_start "2023-01-01" (by decide +kernel)) "us-gaap:Cash" "2023-01-01"
        (fact "Q1" (.text "2023-03-31") 1) (fact "Q2" (.text "2023-06-30") 3)
        (fact "Q3" (.text "2023-09-30") 6) (fact "FY" (.text "2023-12-31") 10) 1 3 6 10
        ⟨by decide +kernel, rfl⟩ ⟨by decide +kernel, rfl⟩ ⟨by decide +kernel, rfl⟩
        ⟨by decide +kernel, rfl⟩
    have hnone : processCashflow dates2023
        ⟨{ fact "Q1" (.text "2023-03-31") 1 with periodStart := none } ::
          year2023 (.text "2023-03-31") (.text "2023-06-30"), true⟩
        (some (cashBlueprint "us-gaap:Cash")) 0 = none := by decide +kernel
    rw [hnone] at hframe
    cases hframe
  · obtain ⟨frame, hframe, hlen, -⟩ :=
      h (groupsApart_of_start "2023-01-01" (by decide +kernel)) "us-gaap:Cash" "2023-01-01"
        (fact "Q1" (.text "2023-03-31") 1) (fact "Q2" (.text "2023-06-30") 3)
        (fact "Q3" (.text "2023-09-30") 6) (fact "FY" (.text "2023-12-31") 10) 1 3 6 10
        ⟨by decide +kernel, rfl⟩ ⟨by decide +kernel, rfl⟩ ⟨by decide +kernel, rfl⟩
        ⟨by decide +kernel, rfl⟩
    have hempty : processCashflow dates2023
        ⟨year2023 (.text "2023-03-31") (.text "2023-06-30"), true⟩
        (some (cashBlueprint "us-gaap:Debt")) 0 = some [] := by decide +kernel
    rw [hempty] at hframe
    cases hframe
    cases hlen

end StockFinancials
