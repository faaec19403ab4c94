import Mathlib.Data.List.Infix
import AnythingTools.Relational.Row

namespace Relational
set_option autoImplicit true

/-- The type affinity of a column. -/
inductive Affinity where
  | integer
  | text
  | blob
  | real
  | numeric
deriving DecidableEq, Repr

/-- The upper-case type name contains the word. -/
def typeHas (type word : String) : Bool :=
  decide (word.toList <:+: type.toList.map Char.toUpper)

/-- The affinity of a declared type. -/
def Affinity.ofType (type : String) : Affinity :=
  if typeHas type "INT" then .integer
  else if typeHas type "CHAR" || typeHas type "CLOB" || typeHas type "TEXT" then .text
  else if typeHas type "BLOB" || decide (type = "") then .blob
  else if typeHas type "REAL" || typeHas type "FLOA" || typeHas type "DOUB" then .real
  else .numeric

def numeral (cs : List Char) : Option Nat :=
  if cs ≠ [] ∧ cs.all Char.isDigit = true then some (Nat.ofDigitChars 10 cs 0) else none

/-- The integer that a decimal text spells. -/
def decimal : List Char → Option Int
  | '-' :: cs => (numeral cs).map fun n => -(n : Int)
  | '+' :: cs => (numeral cs).map fun n => (n : Int)
  | cs => (numeral cs).map fun n => (n : Int)

/-- The conversion of a bound value before it is compared with a column. Only the texts of
integers turn into numbers, since no other text is compared with a numeric key. -/
def Affinity.convert : Affinity → Value → Value
  | .text, .int n => .text (toString n)
  | .text, .real r => .text r
  | .integer, .text s => ((decimal s.toList).map Value.int).getD (.text s)
  | .real, .text s => ((decimal s.toList).map Value.int).getD (.text s)
  | .numeric, .text s => ((decimal s.toList).map Value.int).getD (.text s)
  | _, v => v

theorem numeral_toDigits (n : Nat) : numeral (Nat.toDigits 10 n) = some n := by
  have hne : Nat.toDigits 10 n ≠ [] := Nat.toDigits_ne_nil
  have hall : (Nat.toDigits 10 n).all Char.isDigit = true := by
    rw [List.all_eq_true]
    intro c hc
    exact Nat.isDigit_of_mem_toDigits (by omega) (by omega) hc
  rw [numeral, if_pos ⟨hne, hall⟩, Nat.ofDigitChars_ten_toDigits]

theorem decimal_digit (h : c.isDigit = true) :
    decimal (c :: cs) = (numeral (c :: cs)).map fun n => (n : Int) := by
  unfold decimal
  split
  next he =>
    obtain ⟨hc, _⟩ := List.cons.inj he
    subst hc
    cases h
  next he =>
    obtain ⟨hc, _⟩ := List.cons.inj he
    subst hc
    cases h
  next => rfl

theorem decimal_toString (n : Int) : decimal (toString n).toList = some n := by
  cases n with
  | ofNat n =>
    have hs : (toString (Int.ofNat n)).toList = Nat.toDigits 10 n := Nat.toList_repr
    cases hd : Nat.toDigits 10 n with
    | nil => exact (Nat.toDigits_ne_nil hd).elim
    | cons c cs =>
      have hc : c.isDigit = true :=
        @Nat.isDigit_of_mem_toDigits 10 n c (by omega) (by omega) (hd ▸ List.mem_cons_self)
      rw [hs, hd, decimal_digit hc, ← hd, numeral_toDigits]
      rfl
  | negSucc n =>
    have hs : (toString (Int.negSucc n)).toList = '-' :: Nat.toDigits 10 (n + 1) := by
      have he : toString (Int.negSucc n) = "-" ++ (n + 1).repr := rfl
      rw [he, String.toList_append, Nat.toList_repr]
      rfl
    rw [hs, decimal, numeral_toDigits]
    rfl

@[simp] theorem Affinity.convert_null (a : Affinity) : a.convert .null = .null := by
  cases a <;> rfl

end Relational
