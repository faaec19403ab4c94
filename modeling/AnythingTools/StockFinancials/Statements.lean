import AnythingTools.StockFinancials.Cashflow

namespace StockFinancials
open KeepFirst Nearest
set_option autoImplicit true

/-! ### The rows of a statement -/

/-- A row before the blueprint is looked at. -/
structure FrameRow where
  concept : String
  periodEnd : PeriodEnd
  fiscalPeriod : String
  fiscalYear : Option Int
  quarterLabel : String
  numericValue : Option ℚ
  unit : Option String
  periodType : String := "duration"
deriving DecidableEq

structure StatementRow extends FrameRow where
  statementType : String
  label : String
  depth : Int
  isTotal : Bool
  conceptOrder : Nat
deriving DecidableEq

/-- `_enrich_with_blueprint` for one row. -/
def enriched (bp : List BlueprintRow) (statementType : String) (r : FrameRow) : StatementRow :=
  let found := bp.reverse.find? fun b => decide (b.concept = r.concept)
  let order := bp.zipIdx.reverse.find? fun b => decide (b.1.concept = r.concept)
  { r with
    statementType
    label := (found.map BlueprintRow.label).getD ((r.concept.splitOn ":").getLastD "")
    depth := (found.map BlueprintRow.depth).getD 0
    isTotal := (found.map BlueprintRow.isTotal).getD false
    conceptOrder := (order.map Prod.snd).getD 999 }

/-- The columns that the order of the quarters is read from. -/
def StatementRow.toResult (r : StatementRow) : ResultRow where
  concept := r.concept
  periodEnd := r.periodEnd
  fiscalPeriod := r.fiscalPeriod
  fiscalYear := r.fiscalYear
  quarterLabel := r.quarterLabel
  numericValue := r.numericValue.getD 0
  unit := r.unit
  periodType := r.periodType
  statementType := r.statementType
  label := r.label
  depth := r.depth
  isTotal := r.isTotal
  conceptOrder := r.conceptOrder

/-- The names of the quarters that a limit keeps. -/
def wantedQuarters (dates : Dates) (df : List StatementRow) (numQuarters : Int) : List String :=
  let frame := df.map StatementRow.toResult
  (sortQuartersDesc dates frame (quarterLabels frame)).take numQuarters.toNat

def limitStatement (dates : Dates) (df : List StatementRow) (numQuarters : Int) :
    List StatementRow :=
  if df = [] ∨ numQuarters ≤ 0 then df
  else df.filter fun r => decide (r.quarterLabel ∈ wantedQuarters dates df numQuarters)

/-! ### Income -/

/-- `part` and, with no line break between, `after` behind it. -/
def followedBy (part after concept : String) : Bool :=
  concept.toList.tails.any fun cs =>
    part.toList.isPrefixOf cs &&
      decide (after.toList <:+:
        (cs.drop part.length).takeWhile fun c => decide (c ≠ '\n'))

def contains (part concept : String) : Bool := decide (part.toList <:+: concept.toList)

def isNonAdditiveConcept (concept : String) : Bool :=
  contains "EarningsPerShare" concept || followedBy "WeightedAverageNumberOf" "Shares" concept ||
    contains "CommonStockDividendsPerShare" concept || contains "AntidilutiveSecurities" concept

/-- Missing ends are last, and all the same. -/
def endKey : PeriodEnd → WithTop String
  | .text s => (s : WithTop String)
  | _ => ⊤

/-- `MAX_QUARTERLY_DURATION_DAYS`. -/
def maxQuarterlyDurationDays : Int := 105

/-- The facts of the concepts that are of a quarter and no longer than one. -/
def quarterFacts (dates : Dates) (facts : FactsTable) (cList : List String) : List FactRow :=
  facts.rows.filter fun r =>
    decide (r.concept ∈ cList ∧ r.fiscalPeriod ∈ ["Q1", "Q2", "Q3", "Q4"] ∧
      r.periodType = "duration") &&
      (dates.days r).any fun d => decide (d ≤ maxQuarterlyDurationDays)

def reportedKey (r : FactRow) : String × WithTop String × String :=
  (r.concept, endKey r.periodEnd, r.fiscalPeriod)

/-- Of the facts of one end the one of the latest fiscal year. -/
def reported (dates : Dates) (facts : FactsTable) (cList : List String) : List FactRow :=
  keepFirst reportedKey
    (byKey (fun r => toLex (r.concept, toLex (endKey r.periodEnd,
      toLex (r.fiscalPeriod, descending r.fiscalYear)))) (quarterFacts dates facts cList))

def reportedRow (dates : Dates) (hasUnit : Bool) (r : FactRow) : FrameRow where
  concept := r.concept
  periodEnd := r.periodEnd
  fiscalPeriod := r.fiscalPeriod
  fiscalYear := r.fiscalYear
  quarterLabel := periodEndToQuarterLabel dates r.periodEnd r.fiscalPeriod
  numericValue := r.numericValue
  unit := if hasUnit then r.unit else none
  periodType := r.periodType

/-- `existing_df["period_end"] == pe`, which a missing end never is. -/
def sameEnd : PeriodEnd → PeriodEnd → Bool
  | .text s, .text t => decide (s = t)
  | _, _ => false

/-- Of the facts of one start the longest. -/
def longest (dates : Dates) (facts : FactsTable) (concepts : List String) (fiscalPeriod : String) :
    List FactRow :=
  keepFirst (fun r => (r.concept, r.periodStart))
    (byKey (fun r => toLex (r.concept, toLex (missingLast r.periodStart,
        descending (dates.days r))))
      (facts.rows.filter fun r =>
        decide (r.concept ∈ concepts ∧ r.fiscalPeriod = fiscalPeriod ∧ r.periodType = "duration")))

/-- The fourth quarter of a year, if it is not reported and the first three are known. -/
def fourthQuarter (dates : Dates) (hasUnit : Bool) (existing : List FrameRow)
    (ytdQ3 : List FactRow) (fy : FactRow) : Option FrameRow := do
  let fv ← fy.numericValue
  if existing.any fun r => decide (r.concept = fy.concept ∧ r.fiscalPeriod = "Q4") &&
      sameEnd r.periodEnd fy.periodEnd then none
  else
    let ps ← fy.periodStart
    let q3 ← ytdQ3.find? fun r => decide (r.concept = fy.concept ∧ r.periodStart = some ps)
    let v ← q3.numericValue
    some {
      concept := fy.concept
      periodEnd := fy.periodEnd
      fiscalPeriod := "Q4"
      fiscalYear := fy.fiscalYear
      quarterLabel := periodEndToQuarterLabel dates fy.periodEnd "Q4"
      numericValue := some (fv - v)
      unit := if hasUnit then fy.unit else some "USD" }

def additive (concepts : List String) : List String :=
  concepts.filter fun c => !isNonAdditiveConcept c

def fourthQuarters (dates : Dates) (facts : FactsTable) (concepts : List String)
    (existing : List FrameRow) : List FrameRow :=
  (longest dates facts (additive concepts) "FY").filterMap
    (fourthQuarter dates facts.hasUnit existing (longest dates facts (additive concepts) "Q3"))

def FrameRow.key (r : FrameRow) : String × String := (r.concept, r.quarterLabel)

def FrameRow.sortKey (r : FrameRow) : String ×ₗ String ×ₗ WithTop Int :=
  toLex (r.concept, toLex (r.quarterLabel, descending r.fiscalYear))

/-- `_derive_q4_from_fy`. What is there already is only gone through again where something is
added to it. -/
def deriveQ4FromFy (dates : Dates) (facts : FactsTable) (concepts : List String)
    (existing : List FrameRow) : List FrameRow :=
  let derived := fourthQuarters dates facts concepts existing
  if derived = [] then existing
  else
    keepFirst FrameRow.key
      (byKey FrameRow.sortKey ((existing ++ derived).filter fun r => r.numericValue.isSome))

/-- The frame before it is limited. -/
def incomeRows (dates : Dates) (facts : FactsTable) (bp : List BlueprintRow) :
    List StatementRow :=
  let cList := conceptList facts bp
  (deriveQ4FromFy dates facts cList
    ((reported dates facts cList).map (reportedRow dates facts.hasUnit))).map
      (enriched bp "income")

/-- `process_income`, which raises where the blueprint has no columns. -/
def processIncome (dates : Dates) (facts : FactsTable) (blueprint : Option (List BlueprintRow))
    (numQuarters : Int) : Option (List StatementRow) := do
  let bp ← blueprint
  if conceptList facts bp = [] then return []
  else return limitStatement dates (incomeRows dates facts bp) numQuarters

/-! ### The balance sheet -/

/-- The facts of an instant, by their ends. -/
def instants (facts : FactsTable) (cList : List String) : List FactRow :=
  facts.rows.filter fun r =>
    decide (r.concept ∈ cList ∧ r.fiscalPeriod ∈ fiscalPeriods ∧ r.periodType = "instant")

def instantKey (r : FactRow) : String × WithTop String := (r.concept, endKey r.periodEnd)

def balanceFacts (facts : FactsTable) (cList : List String) : List FactRow :=
  keepFirst instantKey
    (byKey (fun r => toLex (r.concept, toLex (endKey r.periodEnd, r.fiscalPeriod)))
      (instants facts cList))

/-- The end of a year is that of its fourth quarter. -/
def quarterOf (fiscalPeriod : String) : String := if fiscalPeriod = "FY" then "Q4" else fiscalPeriod

def balanceRow (dates : Dates) (hasUnit : Bool) (r : FactRow) : FrameRow where
  concept := r.concept
  periodEnd := r.periodEnd
  fiscalPeriod := quarterOf r.fiscalPeriod
  fiscalYear := r.fiscalYear
  quarterLabel := periodEndToQuarterLabel dates r.periodEnd (quarterOf r.fiscalPeriod)
  numericValue := r.numericValue
  unit := if hasUnit then r.unit else none
  periodType := r.periodType

def balanceRows (dates : Dates) (facts : FactsTable) (bp : List BlueprintRow) :
    List StatementRow :=
  ((balanceFacts facts (conceptList facts bp)).map (balanceRow dates facts.hasUnit)).map
    (enriched bp "balance")

def processBalance (dates : Dates) (facts : FactsTable) (blueprint : Option (List BlueprintRow))
    (numQuarters : Int) : Option (List StatementRow) := do
  let bp ← blueprint
  if conceptList facts bp = [] then return []
  else return limitStatement dates (balanceRows dates facts bp) numQuarters

/-! ### The first of each key in order -/

theorem mem_keepFirst_byKey [DecidableEq κ] [LinearOrder δ] {key : α → κ} {order : α → δ}
    {l : List α} (h : a ∈ keepFirst key (byKey order l)) : a ∈ l :=
  (perm_byKey order l).mem_iff.1 ((keepFirst_sublist key _).subset h)

theorem keepFirst_byKey_le [DecidableEq κ] [LinearOrder δ] {key : α → κ} {order : α → δ}
    {l : List α} (h : a ∈ keepFirst key (byKey order l)) (hb : b ∈ l) (hk : key b = key a) :
    order a ≤ order b := by
  rcases le_of_mem_keepFirst (pairwise_byKey order l) h ((perm_byKey order l).mem_iff.2 hb) hk with
    rfl | hle
  · exact le_refl _
  · exact hle

theorem exists_keepFirst [DecidableEq κ] (key : α → κ) {l : List α} (h : a ∈ l) :
    ∃ b ∈ keepFirst key l, key b = key a := by
  have hsome : (l.find? fun b => decide (key b = key a)).isSome = true := by
    rw [List.find?_isSome]
    exact ⟨a, h, decide_eq_true rfl⟩
  obtain ⟨b, hb⟩ := Option.isSome_iff_exists.1 hsome
  have hk : key b = key a := by simpa using List.find?_some hb
  refine ⟨b, mem_keepFirst.2 ?_, hk⟩
  rw [hk]
  exact hb

theorem exists_keepFirst_byKey [DecidableEq κ] [LinearOrder δ] (key : α → κ) (order : α → δ)
    {l : List α} (h : a ∈ l) : ∃ b ∈ keepFirst key (byKey order l), key b = key a :=
  exists_keepFirst key ((perm_byKey order l).mem_iff.2 h)

/-! ### What the rows of the income statement come from -/

section
variable {dates : Dates} {facts : FactsTable} {concepts : List String}

/-- A fact of a quarter that none of a later fiscal year stands beside. -/
structure IsReported (dates : Dates) (facts : FactsTable) (concepts : List String)
    (f : FactRow) : Prop where
  mem : f ∈ quarterFacts dates facts concepts
  newest : ∀ f' ∈ quarterFacts dates facts concepts, reportedKey f' = reportedKey f →
    descending f.fiscalYear ≤ descending f'.fiscalYear

theorem isReported_of_mem (h : f ∈ reported dates facts concepts) :
    IsReported dates facts concepts f where
  mem := mem_keepFirst_byKey h
  newest f' hf' hk := by
    have hle := keepFirst_byKey_le h hf' hk
    simp only [reportedKey, Prod.mk.injEq] at hk
    obtain ⟨hc, he, hp⟩ := hk
    rw [hc, he, hp, Prod.Lex.toLex_le_toLex] at hle
    simpa only [lt_irrefl, false_or, true_and, Prod.Lex.toLex_le_toLex] using hle

/-- A fact of some concept and period that is as long as any of its start. -/
structure IsLongest (dates : Dates) (facts : FactsTable) (concepts : List String)
    (period : String) (f : FactRow) : Prop where
  mem : f ∈ facts.rows
  concept : f.concept ∈ concepts
  period : f.fiscalPeriod = period
  duration : f.periodType = "duration"
  longest : ∀ f' ∈ facts.rows, f'.concept = f.concept → f'.fiscalPeriod = f.fiscalPeriod →
    f'.periodType = "duration" → f'.periodStart = f.periodStart →
    ∀ n, dates.days f' = some n → ∃ m, dates.days f = some m ∧ n ≤ m

theorem isLongest_of_mem (h : f ∈ longest dates facts concepts fp) :
    IsLongest dates facts concepts fp f := by
  obtain ⟨hf, hcond⟩ := List.mem_filter.1 (mem_keepFirst_byKey h)
  obtain ⟨hc, hp, hd⟩ := of_decide_eq_true hcond
  refine ⟨hf, hc, hp, hd, fun f' hf' hc' hp' hd' hs n hn => ?_⟩
  have hmem : f' ∈ facts.rows.filter fun r =>
      decide (r.concept ∈ concepts ∧ r.fiscalPeriod = fp ∧ r.periodType = "duration") :=
    List.mem_filter.2 ⟨hf', decide_eq_true ⟨hc' ▸ hc, hp'.trans hp, hd'⟩⟩
  have hle := keepFirst_byKey_le h hmem (Prod.ext hc' hs)
  rw [hc', hs, Prod.Lex.toLex_le_toLex] at hle
  simp only [lt_irrefl, false_or, true_and, Prod.Lex.toLex_le_toLex] at hle
  rw [hn] at hle
  exact descending_le hle

/-- A row that is the year less its first three quarters. -/
structure IsDerived (dates : Dates) (facts : FactsTable) (concepts : List String)
    (existing : List FrameRow) (r : FrameRow) : Prop where
  source : ∃ fy q3 v w, IsLongest dates facts (additive concepts) "FY" fy ∧
    IsLongest dates facts (additive concepts) "Q3" q3 ∧ q3.concept = fy.concept ∧
    q3.periodStart = fy.periodStart ∧ fy.periodStart ≠ none ∧ fy.numericValue = some v ∧
    q3.numericValue = some w ∧ r.numericValue = some (v - w) ∧ r.concept = fy.concept ∧
    r.periodEnd = fy.periodEnd ∧ r.fiscalYear = fy.fiscalYear
  quarter : r.fiscalPeriod = "Q4" ∧ r.quarterLabel = periodEndToQuarterLabel dates r.periodEnd "Q4"
  unreported : ∀ r' ∈ existing, r'.concept = r.concept → r'.fiscalPeriod = "Q4" →
    sameEnd r'.periodEnd r.periodEnd = false

theorem isDerived_of_mem {existing : List FrameRow}
    (h : r ∈ fourthQuarters dates facts concepts existing) :
    IsDerived dates facts concepts existing r := by
  obtain ⟨fy, hfy, hr⟩ := List.mem_filterMap.1 h
  rw [fourthQuarter] at hr
  cases hv : fy.numericValue with
  | none =>
    rw [hv] at hr
    cases hr
  | some v =>
    rw [hv, Option.bind_eq_bind, Option.bind_some] at hr
    split at hr
    next => cases hr
    next hany =>
      obtain ⟨ps, hps, hr⟩ := Option.bind_eq_some_iff.1 hr
      obtain ⟨q3, hfind, hr⟩ := Option.bind_eq_some_iff.1 hr
      obtain ⟨w, hw, hr⟩ := Option.bind_eq_some_iff.1 hr
      cases hr
      obtain ⟨hc, hs⟩ : q3.concept = fy.concept ∧ q3.periodStart = some ps := by
        simpa using List.find?_some hfind
      refine ⟨⟨fy, q3, v, w, isLongest_of_mem hfy,
        isLongest_of_mem (List.mem_of_find?_eq_some hfind), hc, hs.trans hps.symm, ?_, hv, hw, rfl,
        rfl, rfl, rfl⟩, ⟨rfl, rfl⟩, fun r' hr' hc' hp' => ?_⟩
      · rw [hps]
        exact Option.some_ne_none ps
      · rw [Bool.not_eq_true, List.any_eq_false] at hany
        have hnot := hany r' hr'
        rw [Bool.and_eq_true, decide_eq_true_eq, not_and, Bool.not_eq_true] at hnot
        exact hnot ⟨hc', hp'⟩

/-- The rows that fourth quarters are added to. -/
def reportedRows (dates : Dates) (facts : FactsTable) (bp : List BlueprintRow) : List FrameRow :=
  (reported dates facts (conceptList facts bp)).map (reportedRow dates facts.hasUnit)

theorem mem_deriveQ4 {existing : List FrameRow}
    (h : r ∈ deriveQ4FromFy dates facts concepts existing) :
    r ∈ existing ∨ r ∈ fourthQuarters dates facts concepts existing := by
  rw [deriveQ4FromFy] at h
  split_ifs at h
  · exact .inl h
  · exact List.mem_append.1 (List.mem_of_mem_filter (mem_keepFirst_byKey h))

/-- What has a value is kept, unless a row of its quarter has a later fiscal year. -/
theorem deriveQ4_keeps {existing : List FrameRow}
    (h : r ∈ existing ∨ r ∈ fourthQuarters dates facts concepts existing)
    (hv : r.numericValue.isSome = true) :
    ∃ r' ∈ deriveQ4FromFy dates facts concepts existing, r'.key = r.key ∧
      r'.numericValue.isSome = true ∧ descending r'.fiscalYear ≤ descending r.fiscalYear := by
  rw [deriveQ4FromFy]
  split_ifs with hnone
  · rw [hnone] at h
    refine ⟨r, h.resolve_right List.not_mem_nil, rfl, hv, le_refl _⟩
  · have hmem : r ∈ (existing ++ fourthQuarters dates facts concepts existing).filter
        fun r => r.numericValue.isSome := List.mem_filter.2 ⟨List.mem_append.2 h, hv⟩
    obtain ⟨r', hr', hk⟩ := exists_keepFirst_byKey FrameRow.key FrameRow.sortKey hmem
    refine ⟨r', hr', hk, (List.mem_filter.1 (mem_keepFirst_byKey hr')).2, ?_⟩
    have hle := keepFirst_byKey_le hr' hmem hk.symm
    simp only [FrameRow.key, Prod.mk.injEq] at hk
    rw [FrameRow.sortKey, FrameRow.sortKey, hk.1, hk.2, Prod.Lex.toLex_le_toLex] at hle
    simpa only [lt_irrefl, false_or, true_and, Prod.Lex.toLex_le_toLex] using hle

theorem deriveQ4_unique {existing : List FrameRow}
    (h : fourthQuarters dates facts concepts existing ≠ []) :
    ((deriveQ4FromFy dates facts concepts existing).map FrameRow.key).Nodup ∧
      ∀ r ∈ deriveQ4FromFy dates facts concepts existing, r.numericValue.isSome = true := by
  rw [deriveQ4FromFy]
  rw [if_neg h]
  exact ⟨keys_keepFirst _ _, fun r hr => (List.mem_filter.1 (mem_keepFirst_byKey hr)).2⟩

theorem eq_fy_of_le (hp : p ∈ fiscalPeriods) (hle : p ≤ "FY") : p = "FY" := by
  simp only [fiscalPeriods, List.mem_cons, List.not_mem_nil, or_false] at hp
  rcases hp with rfl | rfl | rfl | rfl | rfl
  · exact absurd hle (by decide)
  · exact absurd hle (by decide)
  · exact absurd hle (by decide)
  · exact absurd hle (by decide)
  · rfl

end

end StockFinancials
