import AnythingTools.Sync.Recommender
import AnythingTools.Sync.SyncEngine

namespace Sync
open Relational Relational.Database Schemas
set_option autoImplicit true

/-- How the query for a table's watermark ends. -/
inductive LedgerRead where
  | found
  | operationalError
  | raises
deriving DecidableEq, Repr

/-- Which reads of the local database fail. -/
structure LocalFaults where
  connects : Bool := true
  countFails : String → Bool := fun _ => false
  ledger : String → LedgerRead := fun _ => .found

/-- Which reads of the cloud fail. -/
structure CloudFaults where
  connects : Bool := true
  countFails : String → Bool := fun _ => false

/-- `SELECT COUNT(*)`; of a missing table it fails. -/
def countRows (fails : String → Bool) (db : Database) (t : String) : Option Nat :=
  match db.find t with
  | none => none
  | some T => if fails t = true then none else some T.rows.length

structure LocalProof where
  totalRows : Nat
  watermark : Value
  hasUpdatedAt : Bool
deriving DecidableEq, Repr

/-- The watermark of a table, unless its query raises. -/
def readWatermark (f : LocalFaults) (db : Database) (t : String) : Option Value :=
  match f.ledger t with
  | .found => some (getTableWatermark db t)
  | .operationalError => some defaultWatermark
  | .raises => none

/-- The proofs up to the first exception: a count that fails is a zero, a watermark that cannot be
read ends the loop. -/
def localProofsLoop (f : LocalFaults) (db : Database) :
    List (String × TableDdl) → List (String × LocalProof)
  | [] => []
  | p :: ps =>
    if isVirtual p.2 = true then localProofsLoop f db ps
    else
      match readWatermark f db p.1 with
      | none => []
      | some watermark =>
        (p.1, {
          totalRows := (countRows f.countFails db p.1).getD 0
          watermark
          hasUpdatedAt := decide ("updated_at" ∈ p.2.schema.names) }) :: localProofsLoop f db ps

/-- The local proofs as any reads leave them. -/
def localProofs (f : LocalFaults) (tables : List (String × TableDdl)) (db : Database) :
    List (String × LocalProof) :=
  if f.connects = true then localProofsLoop f db tables else []

/-- A table that cannot be counted counts for minus one; no proofs without a connection. -/
def cloudProofs (g : CloudFaults) (engine : CloudEngine) (tables : List (String × TableDdl))
    (cloud : Database) : List (String × Int) :=
  if engine.enabled = true ∧ g.connects = true then
    (tables.filter fun p => !isVirtual p.2).map fun p =>
      (p.1, match countRows g.countFails cloud p.1 with
        | some n => (n : Int)
        | none => -1)
  else []

def totals (proofs : List (String × LocalProof)) : List (String × Int) :=
  proofs.map fun p => (p.1, (p.2.totalRows : Int))

/-- The decision of a start under the given failures. -/
def decision (f : LocalFaults) (g : CloudFaults) (engine : CloudEngine)
    (tables : List (String × TableDdl)) (db cloud : Database) : SyncDecision :=
  decideStartupAction (totals (localProofs f tables db)) (cloudProofs g engine tables cloud)

/-- The count queries that the loop gets to, with what each returns. -/
def countQueries (f : LocalFaults) (db : Database) :
    List (String × TableDdl) → List (String × Option Nat)
  | [] => []
  | p :: ps =>
    if isVirtual p.2 = true then countQueries f db ps
    else (p.1, countRows f.countFails db p.1) ::
      if f.ledger p.1 = .raises then [] else countQueries f db ps

/-- Every local table was counted, and is empty. -/
def CountedEmpty (f : LocalFaults) (tables : List (String × TableDdl)) (db : Database) : Prop :=
  f.connects = true ∧ countQueries f db tables =
    (tables.filter fun p => !isVirtual p.2).map fun p => (p.1, some 0)

/-- A count of a table with rows succeeds before an exception ends the loop, and stays. -/
def SeesRows (f : LocalFaults) (db : Database) : List (String × TableDdl) → Prop
  | [] => False
  | p :: ps =>
    if isVirtual p.2 = true then SeesRows f db ps
    else f.ledger p.1 ≠ .raises ∧
      ((∃ n, countRows f.countFails db p.1 = some (n + 1)) ∨ SeesRows f db ps)

/-- No count fails, and no watermark but that of an empty last table. -/
def Unbroken (f : LocalFaults) (db : Database) : List (String × TableDdl) → Prop
  | [] => True
  | p :: ps =>
    if isVirtual p.2 = true then Unbroken f db ps
    else (countRows f.countFails db p.1).isSome = true ∧
      (f.ledger p.1 = .raises → countRows f.countFails db p.1 = some 0 ∧
        ∀ q ∈ ps, isVirtual q.2 = true) ∧
      Unbroken f db ps

/-- The cloud is reached, and a count of a table with rows succeeds. -/
def CloudSeesRows (g : CloudFaults) (engine : CloudEngine) (tables : List (String × TableDdl))
    (cloud : Database) : Prop :=
  engine.enabled = true ∧ g.connects = true ∧ ∃ p ∈ tables, isVirtual p.2 = false ∧
    ∃ n, countRows g.countFails cloud p.1 = some (n + 1)

theorem decideStartupAction_pullOnly : (decideStartupAction l c).action = .pullOnly ↔
    hasData l = false ∧ hasData c = true := by
  rw [decideStartupAction]
  by_cases hc : c = []
  · rw [if_pos hc, hc]
    simp [hasData]
  · rw [if_neg hc]
    cases hasData l <;> cases hasData c
    case true.true =>
      dsimp only
      split <;> simp
    all_goals simp

theorem hasData_localProofsLoop (f : LocalFaults) (db : Database)
    (tables : List (String × TableDdl)) :
    hasData (totals (localProofsLoop f db tables)) = true ↔ SeesRows f db tables := by
  induction tables with
  | nil => simp [localProofsLoop, totals, hasData, SeesRows]
  | cons p ps ih =>
    rw [localProofsLoop, SeesRows]
    by_cases hv : isVirtual p.2 = true
    · rw [if_pos hv, if_pos hv, ih]
    · rw [if_neg hv, if_neg hv, readWatermark]
      have hcount (w : Value) : hasData (totals ((p.1, {
            totalRows := (countRows f.countFails db p.1).getD 0
            watermark := w
            hasUpdatedAt := decide ("updated_at" ∈ p.2.schema.names) }) ::
            localProofsLoop f db ps)) = true ↔
          (∃ n, countRows f.countFails db p.1 = some (n + 1)) ∨ SeesRows f db ps := by
        rw [← ih, totals, List.map_cons, hasData, List.any_cons, Bool.or_eq_true,
          decide_eq_true_eq]
        refine or_congr ?_ Iff.rfl
        cases countRows f.countFails db p.1 with
        | none => simp
        | some n => cases n <;> simp
      cases hl : f.ledger p.1
      case raises => simp [totals, hasData]
      case found => simpa using hcount _
      case operationalError => simpa using hcount _

theorem hasData_localProofs (f : LocalFaults) (db : Database)
    (tables : List (String × TableDdl)) :
    hasData (totals (localProofs f tables db)) = true ↔
      f.connects = true ∧ SeesRows f db tables := by
  rw [localProofs]
  by_cases hf : f.connects = true
  · rw [if_pos hf, hasData_localProofsLoop]
    exact (and_iff_right hf).symm
  · rw [if_neg hf]
    simp [totals, hasData, hf]

theorem hasData_cloudProofs (g : CloudFaults) (engine : CloudEngine) (cloud : Database)
    (tables : List (String × TableDdl)) :
    hasData (cloudProofs g engine tables cloud) = true ↔
      CloudSeesRows g engine tables cloud := by
  rw [cloudProofs, CloudSeesRows]
  by_cases he : engine.enabled = true ∧ g.connects = true
  · rw [if_pos he, hasData, List.any_map, List.any_eq_true]
    simp only [List.mem_filter, Function.comp_apply, decide_eq_true_eq, Bool.not_eq_true', he,
      true_and, and_assoc]
    refine exists_congr fun p => and_congr_right fun _ => and_congr_right fun _ => ?_
    cases countRows g.countFails cloud p.1 with
    | none => simp
    | some n => cases n <;> simp
  · rw [if_neg he, ← and_assoc]
    simp [hasData, he]

/-- Without failures these are the proofs of a plain start. -/
theorem totals_localProofs (tables : List (String × TableDdl)) (db : Database) :
    totals (localProofs {} tables db) = computeLocalProofs tables db := by
  have hcount (t : String) : (countRows (fun _ => false) db t).getD 0 = (db.rows t).length := by
    rw [countRows, rows]
    cases db.find t <;> rfl
  rw [localProofs, if_pos rfl, computeLocalProofs]
  induction tables with
  | nil => rfl
  | cons p ps ih =>
    rw [localProofsLoop]
    by_cases hv : isVirtual p.2 = true
    · rw [if_pos hv, ih, List.filter_cons_of_neg (by simp [hv])]
    · rw [if_neg hv, List.filter_cons_of_pos (by simp [hv]), List.map_cons, ← ih, readWatermark]
      dsimp only
      rw [totals, List.map_cons, hcount]
      rfl

theorem unbroken_of_virtual (f : LocalFaults) (db : Database) {tables : List (String × TableDdl)}
    (h : ∀ q ∈ tables, isVirtual q.2 = true) : Unbroken f db tables := by
  induction tables with
  | nil => trivial
  | cons p ps ih =>
    rw [Unbroken, if_pos (h p List.mem_cons_self)]
    exact ih fun q hq => h q (List.mem_cons_of_mem p hq)

/-- Where no table is seen to have rows, all are counted empty unless a failure intervenes. -/
theorem countQueries_eq_iff (f : LocalFaults) (db : Database) (tables : List (String × TableDdl))
    (h : ¬ SeesRows f db tables) :
    countQueries f db tables =
      (tables.filter fun p => !isVirtual p.2).map (fun p => (p.1, some 0)) ↔
      Unbroken f db tables := by
  induction tables with
  | nil => simp [countQueries, Unbroken]
  | cons p ps ih =>
    rw [SeesRows] at h
    rw [countQueries, Unbroken]
    by_cases hv : isVirtual p.2 = true
    · rw [if_pos hv] at h
      rw [if_pos hv, if_pos hv, List.filter_cons_of_neg (by simp [hv]), ih h]
    · rw [if_neg hv] at h
      rw [if_neg hv, if_neg hv, List.filter_cons_of_pos (by simp [hv]), List.map_cons,
        List.cons.injEq, Prod.mk.injEq, eq_self, true_and]
      by_cases hr : f.ledger p.1 = .raises
      · rw [if_pos hr, eq_comm (a := []), List.map_eq_nil_iff, List.filter_eq_nil_iff]
        simp only [Bool.not_eq_true', Bool.not_eq_false, hr, true_implies]
        constructor
        · rintro ⟨h0, hps⟩
          exact ⟨by rw [h0]; rfl, ⟨h0, hps⟩, unbroken_of_virtual f db hps⟩
        · exact fun hu => hu.2.1
      · rw [if_neg hr]
        rw [not_and_or, not_or] at h
        obtain ⟨hn, hps⟩ := h.resolve_left (not_not_intro hr)
        rw [ih hps]
        refine and_congr ?_ (by simp [hr])
        cases hc : countRows f.countFails db p.1 with
        | none => simp
        | some n =>
          cases n with
          | zero => simp
          | succ n => exact (hn ⟨n, hc⟩).elim

/-- A start pulls only over tables that were counted and are empty, unless the cloud is seen to
have rows, no local table is, and a local read failed. -/
theorem pullOnly_countedEmpty_iff (f : LocalFaults) (g : CloudFaults) (engine : CloudEngine)
    (tables : List (String × TableDdl)) (db cloud : Database) :
    ((decision f g engine tables db cloud).action = .pullOnly → CountedEmpty f tables db) ↔
      ¬ CloudSeesRows g engine tables cloud ∨ (f.connects = true ∧ SeesRows f db tables) ∨
        (f.connects = true ∧ Unbroken f db tables) := by
  rw [decision, decideStartupAction_pullOnly, hasData_cloudProofs, ← Bool.not_eq_true,
    hasData_localProofs]
  by_cases hc : CloudSeesRows g engine tables cloud
  · by_cases hs : f.connects = true ∧ SeesRows f db tables
    · simp [hs]
    · simp only [hc, hs, not_false_eq_true, and_self, true_implies, not_true_eq_false, false_or]
      rw [CountedEmpty]
      refine and_congr_right fun hf => countQueries_eq_iff f db tables fun h => hs ⟨hf, h⟩
  · simp [hc]

/-- The local table has a row, its count fails, and the start is to pull only. -/
theorem failed_count_pulls :
    let f : LocalFaults := { countFails := fun t => t == "sf_tickers" }
    let db := tickersDb [hashedTicker "A" "1" "2024"]
    let cloud := tickersDb [hashedTicker "B" "2" "2024"]
    (decision f {} { now := "2024-05-01 10:00:00" } [("sf_tickers", sfTickers)] db
        cloud).action = .pullOnly ∧
      ¬ CountedEmpty f [("sf_tickers", sfTickers)] db := by
  refine ⟨by decide +kernel, fun h => ?_⟩
  have hq := h.2
  exact absurd hq (by decide +kernel)

end Sync
