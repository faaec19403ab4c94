import AnythingTools.Separators
import AnythingTools.Sync.DeltaPartition
import AnythingTools.Sync.PullToLocal

namespace Sync
open Relational Schemas Separators
set_option autoImplicit true

/-- The text of a cell in the hashed line. -/
def normalized (v : Value) : String := strip (Python.strOr v)

def normalizedCells (e : Env) (tableName : String) (row : Row) : List (List Char) :=
  (getChecksumColumns e tableName).map fun c => (normalized (row.get c)).toList

/-- No text but the last ends with a bar or has two in a row. -/
def Unambiguous (e : Env) (tableName : String) (row : Row) : Prop :=
  ∀ p ∈ (normalizedCells e tableName row).dropLast, Separable "||".toList p

instance (e : Env) (tableName : String) (row : Row) : Decidable (Unambiguous e tableName row) :=
  inferInstanceAs (Decidable (∀ p ∈ (normalizedCells e tableName row).dropLast, _))

/-- The rows hold the same text in every checksum column. -/
def SameTexts (e : Env) (tableName : String) (r r' : Row) : Prop :=
  ∀ c ∈ getChecksumColumns e tableName, normalized (r.get c) = normalized (r'.get c)

theorem normalizedCells_eq_iff : normalizedCells e t r = normalizedCells e t r' ↔
    SameTexts e t r r' := by
  rw [normalizedCells, normalizedCells, List.map_inj_left]
  simp only [SameTexts, String.toList_inj]

/-- Two rows have the same hash where their joined texts are equal. -/
theorem computeRowHash_eq_iff {e : Env} (hinj : Function.Injective e.digest) (t : String)
    (r r' : Row) : computeRowHash e t r = computeRowHash e t r' ↔
      "||".toList.intercalate (normalizedCells e t r) =
        "||".toList.intercalate (normalizedCells e t r') := by
  rw [computeRowHash, computeRowHash, hinj.eq_iff, ← String.toList_inj,
    String.toList_intercalate, String.toList_intercalate, List.map_map, List.map_map]
  rfl

/-- A digest without collisions. -/
def markedEnv : Env where
  parseTs _ := 0
  digest s := "#" ++ s
  now := "2024-05-01 10:00:00"

theorem markedEnv_injective : Function.Injective markedEnv.digest := by
  intro s s' h
  exact (String.append_right_inj "#").1 h

def namedTicker (company latestQuarter latestExtraction : String) : Row :=
  sfTickers.schema.coerce "2024-05-01 10:00:00"
    [("ticker", .text "A"), ("company_name", .text company),
      ("latest_quarter", .text latestQuarter), ("latest_extraction_at", .text latestExtraction)]

end Sync
