import AnythingTools.Relational.Row
import Mathlib.Data.List.Lex

namespace Relational
set_option autoImplicit true

/-- What SQLite sorts a value by: NULL, numbers, texts, blobs. Two numbers are not told apart, since
the compared columns hold texts. -/
def Value.sortKey : Value → List Nat
  | .null => []
  | .int _ => [1]
  | .real _ => [1]
  | .text s => 2 :: s.toList.map Char.toNat
  | .blob bs => 3 :: bs.map UInt8.toNat

/-- `a < b`, which no NULL satisfies. -/
def sqlLt (a b : Value) : Bool := decide (a ≠ .null) && decide (a.sortKey < b.sortKey)

/-- `MAX(...)`; of no values it is NULL. -/
def sqlMax (vs : List Value) : Value :=
  vs.foldl (fun m v => if m.sortKey < v.sortKey then v else m) .null

theorem sqlMax_lt {vs : List Value} {k : List Nat} (hk : [] < k) :
    (sqlMax vs).sortKey < k ↔ ∀ v ∈ vs, v.sortKey < k := by
  have hgen (m : Value) (vs : List Value) :
      (vs.foldl (fun m v => if m.sortKey < v.sortKey then v else m) m).sortKey < k ↔
        m.sortKey < k ∧ ∀ v ∈ vs, v.sortKey < k := by
    induction vs generalizing m with
    | nil => simp
    | cons v vs ih =>
      rw [List.foldl_cons, ih, List.forall_mem_cons, ← and_assoc]
      apply and_congr_left
      intro _
      split
      next h =>
        constructor
        · exact fun hv => ⟨h.trans hv, hv⟩
        · exact fun hb => hb.2
      next h =>
        constructor
        · exact fun hm => ⟨hm, (not_lt.1 h).trans_lt hm⟩
        · exact fun hb => hb.1
  have hnull : Value.sortKey .null < k := hk
  rw [sqlMax, hgen, and_iff_right hnull]

theorem sqlMax_mem (vs : List Value) : sqlMax vs = .null ∨ sqlMax vs ∈ vs := by
  have hgen (m : Value) (vs : List Value) :
      vs.foldl (fun m v => if m.sortKey < v.sortKey then v else m) m = m ∨
        vs.foldl (fun m v => if m.sortKey < v.sortKey then v else m) m ∈ vs := by
    induction vs generalizing m with
    | nil => exact .inl rfl
    | cons v vs ih =>
      rw [List.foldl_cons]
      rcases ih (if m.sortKey < v.sortKey then v else m) with h | h
      · rw [h]
        split
        · exact .inr List.mem_cons_self
        · exact .inl rfl
      · exact .inr (List.mem_cons_of_mem v h)
  exact hgen .null vs

end Relational
