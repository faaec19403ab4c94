import AnythingTools.Sync.Bidirectional
import AnythingTools.Sync.DeltaPartition
import Mathlib.Algebra.Order.Ring.Rat
import Mathlib.Tactic.NormNum

namespace Sync
open Relational
set_option autoImplicit true

/-- The dictionary of one table in the metrics; each key may be missing. -/
structure TableMetrics where
  opRows : Option Nat := none
  opLatest : Option Value := none
  opOnly : Option Nat := none
  cloudOnly : Option Nat := none
  conflicts : Option Nat := none
  contentIdentical : Option (List String) := none
  timestampDrift : Option (List Conflict) := none
  genuineConflicts : Option (List Conflict) := none
deriving DecidableEq, Repr

/-- The metrics that the bidirectional sync makes of its deltas; `stats` gives the number of
operational rows of a table and the latest time stamp. -/
def metricsTables (stats : String → Nat × Value) (deltas : List (String × Deltas)) :
    List (String × TableMetrics) :=
  deltas.map fun p => (p.1,
    { opRows := some (stats p.1).1
      opLatest := some (stats p.1).2
      opOnly := some p.2.opOnly.length
      cloudOnly := some p.2.cloudOnly.length
      conflicts := some p.2.genuineConflicts.length })

structure TableBreakdown where
  opOnly : Nat
  cloudOnly : Nat
  identical : Nat
  conflicts : Nat
  opNewer : Nat
  cloudNewer : Nat
  timestampDrift : Nat
deriving DecidableEq, Repr

def TableBreakdown.total (b : TableBreakdown) : Nat :=
  b.opOnly + b.cloudOnly + b.identical + b.conflicts

/-- The share of conflicts in percent. -/
def percent (conflicts total : Nat) : ℚ :=
  if 0 < total then conflicts / total * 100 else 0

def TableBreakdown.conflictRate (b : TableBreakdown) : ℚ := percent b.conflicts b.total

/-- What a strategy would write and delete. -/
structure Outcome where
  opToCloud : Nat := 0
  cloudToOp : Nat := 0
  opDeletes : Nat := 0
  cloudDeletes : Nat := 0
  conflictOpWins : Nat := 0
  conflictCloudWins : Nat := 0
deriving DecidableEq, Repr

structure Recommendation where
  strategy : Strategy
  confidence : ℚ
  reasoning : String
  perTable : List (String × TableBreakdown)
  outcomes : List (Strategy × Outcome)

def computeBreakdown (data : TableMetrics) : TableBreakdown :=
  let conflicts := data.genuineConflicts.getD []
  let drift := data.timestampDrift.getD []
  { opOnly := data.opOnly.getD 0
    cloudOnly := data.cloudOnly.getD 0
    identical := (data.contentIdentical.getD []).length
    conflicts := conflicts.length
    opNewer := drift.countP fun d => decide (d.cloudTs < d.opTs)
    cloudNewer := drift.countP fun d => decide (d.opTs < d.cloudTs)
    timestampDrift := drift.length }

def computeBreakdowns (tables : List (String × TableMetrics)) : List (String × TableBreakdown) :=
  tables.map fun p => (p.1, computeBreakdown p.2)

def addOutcome (total : Outcome) (tbl : TableBreakdown) : Strategy → Outcome
  | .operationalWins =>
    { total with
      opToCloud := total.opToCloud + tbl.opOnly
      cloudDeletes := total.cloudDeletes + tbl.cloudOnly
      conflictOpWins := total.conflictOpWins + tbl.conflicts }
  | .cloudWins =>
    { total with
      cloudToOp := total.cloudToOp + tbl.cloudOnly
      opDeletes := total.opDeletes + tbl.opOnly
      conflictCloudWins := total.conflictCloudWins + tbl.conflicts }
  | .newestOverallWins =>
    { total with
      opToCloud := total.opToCloud + tbl.opOnly
      cloudToOp := total.cloudToOp + tbl.cloudOnly
      conflictOpWins := total.conflictOpWins + tbl.opNewer +
        (tbl.conflicts - tbl.opNewer - tbl.cloudNewer)
      conflictCloudWins := total.conflictCloudWins + tbl.cloudNewer }
  | .abort => total

def computeOutcomes (perTable : List (String × TableBreakdown)) : List (Strategy × Outcome) :=
  [.operationalWins, .cloudWins, .newestOverallWins].map fun strategy =>
    (strategy, perTable.foldl (fun total p => addOutcome total p.2 strategy) {})

/-- The strategy with its confidence and the reason; `fmt` writes a rate with one decimal. -/
def judge (fmt : ℚ → String) (totalConflicts totalCloudOnly : Nat) (rate : ℚ) :
    Strategy × ℚ × String :=
  if totalConflicts = 0 ∧ totalCloudOnly = 0 then
    (.operationalWins, 95 / 100, "No conflicts and no cloud-only entries.")
  else if totalConflicts = 0 then
    (.newestOverallWins, 90 / 100,
      "Safe bidirectional merge with zero conflict resolution needed.")
  else if rate < 5 then
    (.newestOverallWins, 85 / 100,
      "Low conflict rate (" ++ fmt rate ++ "%). Safe to auto-resolve by timestamp.")
  else if rate < 20 then
    (.newestOverallWins, 60 / 100, "Moderate conflict rate (" ++ fmt rate ++
      "%). Auto-resolve by timestamp, but review recommended.")
  else
    (.abort, 90 / 100,
      "High conflict rate (" ++ fmt rate ++ "%). Manual review strongly recommended.")

def recommend (fmt : ℚ → String) (tables : List (String × TableMetrics)) : Recommendation :=
  let perTable := computeBreakdowns tables
  let totalConflicts := (perTable.map fun t => t.2.conflicts).sum
  let totalCloudOnly := (perTable.map fun t => t.2.cloudOnly).sum
  let totalRows := (perTable.map fun t => t.2.total).sum
  let (strategy, confidence, reasoning) :=
    judge fmt totalConflicts totalCloudOnly (percent totalConflicts totalRows)
  { strategy, confidence, reasoning, perTable, outcomes := computeOutcomes perTable }

/-- The rows of a table that the diff counts: each class but the drift, which is part of one. -/
def Deltas.classed (d : Deltas) : Nat :=
  d.opOnly.length + d.cloudOnly.length + d.contentIdentical.length + d.genuineConflicts.length

/-- The share of genuine conflicts over all tables. -/
def overallConflictRate (deltas : List (String × Deltas)) : ℚ :=
  percent (deltas.map fun p => p.2.genuineConflicts.length).sum
    (deltas.map fun p => p.2.classed).sum

/-- The recommendation rests on what the deltas hold, and many conflicts are answered with an
abort. -/
structure RestsOn (parseTs : String → Int) (advice : Recommendation)
    (deltas : List (String × Deltas)) : Prop where
  breakdowns : (advice.perTable.map fun t =>
      (t.1, t.2.conflicts, t.2.identical, t.2.opNewer, t.2.cloudNewer)) =
    deltas.map fun p => (p.1, p.2.genuineConflicts.length, p.2.contentIdentical.length,
      p.2.opNewer parseTs, p.2.cloudNewer parseTs)
  aborts : 20 ≤ overallConflictRate deltas → advice.strategy = .abort

/-- An abort is recommended for a fifth of conflicts or more. -/
theorem judge_eq_abort (fmt : ℚ → String) (totalConflicts totalCloudOnly : Nat) (rate : ℚ) :
    (judge fmt totalConflicts totalCloudOnly rate).1 = .abort ↔
      totalConflicts ≠ 0 ∧ 20 ≤ rate := by
  rw [judge]
  by_cases h0 : totalConflicts = 0
  · by_cases hc : totalCloudOnly = 0 <;> simp [h0, hc]
  · rw [if_neg fun h => h0 h.1, if_neg h0]
    by_cases h5 : rate < 5
    · rw [if_pos h5]
      have h20 : ¬ 20 ≤ rate := not_le.2 (h5.trans (by norm_num))
      simp [h20]
    · rw [if_neg h5]
      by_cases h20 : rate < 20
      · simp [h20]
      · simp [h20, h0, not_lt.1 h20]

/-- The metrics of the sync carry no conflicts, no identical and no drifted rows over to the
breakdowns. -/
theorem computeBreakdowns_metrics (stats : String → Nat × Value)
    (deltas : List (String × Deltas)) :
    computeBreakdowns (metricsTables stats deltas) = deltas.map fun p => (p.1,
      { opOnly := p.2.opOnly.length, cloudOnly := p.2.cloudOnly.length
        identical := 0, conflicts := 0, opNewer := 0, cloudNewer := 0, timestampDrift := 0 }) := by
  rw [computeBreakdowns, metricsTables, List.map_map]
  rfl

/-- Whatever the deltas, the sync is never advised to abort. -/
theorem recommend_metrics_ne_abort (fmt : ℚ → String) (stats : String → Nat × Value)
    (deltas : List (String × Deltas)) :
    (recommend fmt (metricsTables stats deltas)).strategy ≠ .abort := by
  have hzero : ((computeBreakdowns (metricsTables stats deltas)).map
      fun t => t.2.conflicts).sum = 0 := by
    rw [computeBreakdowns_metrics, List.map_map]
    exact List.sum_eq_zero fun n hn => by
      obtain ⟨p, _, rfl⟩ := List.mem_map.1 hn
      rfl
  intro h
  exact ((judge_eq_abort fmt _ _ _).1 h).1 hzero

theorem percent_zero (n : Nat) : percent 0 n = 0 := by
  rw [percent]
  split
  · rw [Nat.cast_zero, zero_div, zero_mul]
  · rfl

/-- The recommendation rests on the deltas where none of them has a conflict, an identical row or
a drifted row that is newer on a side. -/
theorem recommend_restsOn_iff (parseTs : String → Int) (fmt : ℚ → String)
    (stats : String → Nat × Value) (deltas : List (String × Deltas)) :
    RestsOn parseTs (recommend fmt (metricsTables stats deltas)) deltas ↔
      ∀ p ∈ deltas, p.2.genuineConflicts = [] ∧ p.2.contentIdentical = [] ∧
        p.2.opNewer parseTs = 0 ∧ p.2.cloudNewer parseTs = 0 := by
  have hper : (recommend fmt (metricsTables stats deltas)).perTable =
      computeBreakdowns (metricsTables stats deltas) := rfl
  have hzero : ((recommend fmt (metricsTables stats deltas)).perTable.map fun t =>
      (t.1, t.2.conflicts, t.2.identical, t.2.opNewer, t.2.cloudNewer)) =
      deltas.map fun p => (p.1, 0, 0, 0, 0) := by
    rw [hper, computeBreakdowns_metrics, List.map_map]
    rfl
  constructor
  · intro h p hp
    have hb := h.breakdowns
    rw [hzero] at hb
    have he := List.map_inj_left.1 hb p hp
    simp only [Prod.mk.injEq, true_and] at he
    obtain ⟨h₁, h₂, h₃, h₄⟩ := he
    exact ⟨List.length_eq_zero_iff.1 h₁.symm, List.length_eq_zero_iff.1 h₂.symm, h₃.symm, h₄.symm⟩
  · intro h
    refine ⟨?_, fun hrate => ?_⟩
    · rw [hzero]
      apply List.map_congr_left
      intro p hp
      obtain ⟨h₁, h₂, h₃, h₄⟩ := h p hp
      rw [h₁, h₂, h₃, h₄]
      rfl
    · have hsum : (deltas.map fun p => p.2.genuineConflicts.length).sum = 0 :=
        List.sum_eq_zero fun n hn => by
          obtain ⟨p, hp, rfl⟩ := List.mem_map.1 hn
          rw [(h p hp).1, List.length_nil]
      rw [overallConflictRate, hsum, percent_zero] at hrate
      exact absurd hrate (by norm_num)

/-- The only row is in conflict, and the operational side is recommended to win. -/
theorem all_conflicts_recommended :
    let deltas := [("sf_tickers", computeDeltas (fun t => t.length)
      (tickersDb [hashedTicker "A" "1" "2024"]) (tickersDb [hashedTicker "A" "2" "2024-05"])
      "sf_tickers")]
    let advice := recommend (fun r => toString r)
      (metricsTables (fun _ => (1, .text "2024")) deltas)
    overallConflictRate deltas = 100 ∧ advice.strategy = .operationalWins ∧
      ¬ RestsOn (fun t => t.length) advice deltas := by
  refine ⟨by decide +kernel, by decide +kernel, fun h => ?_⟩
  have hs := h.aborts (by decide +kernel)
  exact absurd hs (recommend_metrics_ne_abort _ _ _)

end Sync
