import Mathlib.Data.List.Basic
import Mathlib.Tactic.IntervalCases

namespace Calendar
set_option autoImplicit true

/-- In which of the consecutive spans of the given lengths a place is, counted from `k`, and where
in it. -/
def split (len : Nat → Nat) : (fuel k n : Nat) → Nat × Nat
  | 0, k, n => (k, n)
  | fuel + 1, k, n => if n < len k then (k, n) else split len fuel (k + 1) (n - len k)

/-- What the spans from `k` on add up to. -/
def total (len : Nat → Nat) : (fuel k : Nat) → Nat
  | 0, k => len k
  | fuel + 1, k => len k + total len fuel (k + 1)

theorem le_split (len : Nat → Nat) (fuel k n : Nat) : k ≤ (split len fuel k n).1 := by
  induction fuel generalizing k n with
  | zero => exact Nat.le_refl k
  | succ fuel ih =>
    rw [split]
    split
    · exact Nat.le_refl k
    · exact Nat.le_of_succ_le (ih (k + 1) _)

theorem split_le (len : Nat → Nat) (fuel k n : Nat) : (split len fuel k n).1 ≤ k + fuel := by
  induction fuel generalizing k n with
  | zero => exact Nat.le_refl k
  | succ fuel ih =>
    rw [split]
    split
    · exact Nat.le_add_right k _
    · have h := ih (k + 1) (n - len k)
      omega

/-- A place within the total is within its span. -/
theorem split_lt_len (len : Nat → Nat) (fuel k n : Nat) (h : n < total len fuel k) :
    (split len fuel k n).2 < len (split len fuel k n).1 := by
  induction fuel generalizing k n with
  | zero => exact h
  | succ fuel ih =>
    rw [total] at h
    rw [split]
    split
    next hn => exact hn
    next => exact ih (k + 1) (n - len k) (by omega)

/-- A later place is in a later span, or later in the same one. -/
theorem split_lt (len : Nat → Nat) (fuel k : Nat) (h : n < n') :
    (split len fuel k n).1 < (split len fuel k n').1 ∨
      (split len fuel k n).1 = (split len fuel k n').1 ∧
        (split len fuel k n).2 < (split len fuel k n').2 := by
  induction fuel generalizing k n n' with
  | zero => exact .inr ⟨rfl, h⟩
  | succ fuel ih =>
    rw [split, split]
    by_cases hn' : n' < len k
    · rw [if_pos hn', if_pos (h.trans hn')]
      exact .inr ⟨rfl, h⟩
    · rw [if_neg hn']
      by_cases hn : n < len k
      · rw [if_pos hn]
        exact .inl (le_split len fuel (k + 1) _)
      · rw [if_neg hn]
        exact ih (k + 1) (by omega)

def isLeap (y : Nat) : Bool := (y % 4 == 0 && y % 100 != 0) || y % 400 == 0

def monthLength (y m : Nat) : Nat :=
  if m = 2 then if isLeap y then 29 else 28
  else if m ∈ [4, 6, 9, 11] then 30
  else 31

def yearLength (y : Nat) : Nat := if isLeap y then 366 else 365

/-- The days from the first of the year 1 to the last of 9999. -/
def days : Nat := total yearLength 9998 1

theorem days_eq : days = 3652059 := by decide +kernel

theorem total_monthLength (y : Nat) : total (monthLength y) 11 1 = yearLength y := by
  rw [yearLength]
  cases h : isLeap y <;> simp [total, monthLength, h]

/-- The year, the month and the day of the month of a day number. -/
def date (day : Nat) : Nat × Nat × Nat :=
  let year := split yearLength 9998 1 day
  let month := split (monthLength year.1) 11 1 year.2
  (year.1, month.1, month.2 + 1)

example : date 739006 = (2024, 5, 1) := by decide +kernel

def digit (d : Nat) : Char := Char.ofNat (48 + d)

/-- A number in `w` digits. -/
def pad : (w n : Nat) → List Char
  | 0, _ => []
  | w + 1, n => digit (n / 10 ^ w) :: pad w (n % 10 ^ w)

@[simp] theorem length_pad (w n : Nat) : (pad w n).length = w := by
  induction w generalizing n with
  | zero => rfl
  | succ w ih => rw [pad, List.length_cons, ih]

theorem digit_lt (h : a < b) (hb : b < 10) : digit a < digit b := by
  interval_cases b <;> interval_cases a <;> decide

/-- Numbers of the same width sort as their texts do. -/
theorem pad_lt (w : Nat) (h : n < n') (hn' : n' < 10 ^ w) : pad w n < pad w n' := by
  induction w generalizing n n' with
  | zero =>
    rw [Nat.pow_zero] at hn'
    omega
  | succ w ih =>
    have hp : 0 < 10 ^ w := Nat.pow_pos (by omega)
    have hle : n / 10 ^ w ≤ n' / 10 ^ w := Nat.div_le_div_right h.le
    have hlt : n' / 10 ^ w < 10 := by
      rw [Nat.div_lt_iff_lt_mul hp, Nat.mul_comm, ← Nat.pow_succ]
      exact hn'
    rw [pad, pad, List.cons_lt_cons_iff]
    rcases Nat.lt_or_eq_of_le hle with hd | hd
    · exact .inl (digit_lt hd hlt)
    · refine .inr ⟨by rw [hd], ih ?_ (Nat.mod_lt n' hp)⟩
      have hn := Nat.div_add_mod n (10 ^ w)
      have hm := Nat.div_add_mod n' (10 ^ w)
      rw [hd] at hn
      omega

theorem pad_digits (w n : Nat) (h : n < 10 ^ (w + 1)) :
    pad (w + 1) n = pad w (n / 10) ++ [digit (n % 10)] := by
  induction w generalizing n with
  | zero =>
    have hn : n % 10 = n := Nat.mod_eq_of_lt (by simpa using h)
    rw [pad, pad, pad, Nat.pow_zero, Nat.div_one, hn, List.nil_append]
  | succ w ih =>
    have hp : 0 < 10 ^ (w + 1) := Nat.pow_pos (by omega)
    have hdiv : n % 10 ^ (w + 1) / 10 = n / 10 % 10 ^ w := by
      rw [Nat.pow_succ', Nat.mod_mul_right_div_self]
    have hmod : n % 10 ^ (w + 1) % 10 = n % 10 :=
      Nat.mod_mod_of_dvd n (Nat.pow_succ' ▸ Nat.dvd_mul_right 10 (10 ^ w))
    rw [pad, ih _ (Nat.mod_lt n hp), hdiv, hmod, pad, Nat.div_div_eq_div_mul, Nat.pow_succ',
      List.cons_append]

theorem digitChar_eq_digit (h : d < 10) : d.digitChar = digit d := by
  interval_cases d <;> rfl

/-- A number without zeros in front is written in as many digits as it has. -/
theorem toDigits_eq_pad (w : Nat) (h : 10 ^ w ≤ n) (h' : n < 10 ^ (w + 1)) :
    Nat.toDigits 10 n = pad (w + 1) n := by
  induction w generalizing n with
  | zero =>
    have hn : n < 10 := by simpa using h'
    rw [Nat.toDigits_of_lt_base hn, pad, pad, Nat.pow_zero, Nat.div_one, digitChar_eq_digit hn]
  | succ w ih =>
    have hbase : 10 ≤ n := by
      rw [Nat.pow_succ'] at h
      exact (Nat.le_mul_of_pos_right 10 (Nat.pow_pos (by omega))).trans h
    have hlow : 10 ^ w ≤ n / 10 := by
      rw [Nat.le_div_iff_mul_le (by omega), ← Nat.pow_succ]
      exact h
    have hhigh : n / 10 < 10 ^ (w + 1) := by
      rw [Nat.div_lt_iff_lt_mul (by omega), ← Nat.pow_succ]
      exact h'
    rw [Nat.toDigits_of_base_le (by omega) hbase, ih hlow hhigh, pad_digits _ _ h',
      digitChar_eq_digit (Nat.mod_lt n (by omega))]
/-- The order of texts with heads of one length. -/
theorem append_lt_append_iff {a b x y : List Char} (h : a.length = b.length) :
    a ++ x < b ++ y ↔ a < b ∨ a = b ∧ x < y := by
  induction a generalizing b with
  | nil =>
    have hb : b = [] := List.length_eq_zero_iff.1 h.symm
    subst hb
    simp
  | cons c a ih =>
    cases b with
    | nil => cases h
    | cons d b =>
      rw [List.cons_append, List.cons_append, List.cons_lt_cons_iff, List.cons_lt_cons_iff,
        ih (Nat.succ.inj h), List.cons.injEq]
      tauto

/-- `YYYY-MM-DD`. -/
def dateText (day : Nat) : List Char :=
  pad 4 (date day).1 ++ '-' :: (pad 2 (date day).2.1 ++ '-' :: pad 2 (date day).2.2)

@[simp] theorem length_dateText (day : Nat) : (dateText day).length = 10 := by
  simp [dateText]

theorem monthLength_le (y m : Nat) : monthLength y m ≤ 31 := by
  rw [monthLength]
  split
  · split <;> omega
  · split <;> omega

/-- Later dates have later texts. -/
theorem dateText_lt (h : n < n') (hn' : n' < days) : dateText n < dateText n' := by
  have hyear := split_lt yearLength 9998 1 h
  have hyear' := split_le yearLength 9998 1 n'
  have hrest := split_lt_len yearLength 9998 1 n' hn'
  rw [dateText, dateText, append_lt_append_iff (by rw [length_pad, length_pad]),
    List.cons_lt_cons_iff]
  rcases hyear with hlt | ⟨heq, hlt⟩
  · have hlast : (date n').1 ≤ 1 + 9998 := hyear'
    exact .inl (pad_lt 4 hlt (by omega))
  · refine .inr ⟨congrArg (pad 4) heq, .inr ⟨rfl, ?_⟩⟩
    rw [date, date]
    dsimp only
    rw [heq]
    generalize (split yearLength 9998 1 n').1 = y at hrest ⊢
    have hmonth := split_lt (monthLength y) 11 1 hlt
    have hmonth' := split_le (monthLength y) 11 1 (split yearLength 9998 1 n').2
    have hday := split_lt_len (monthLength y) 11 1 (split yearLength 9998 1 n').2
      (by rw [total_monthLength]; exact hrest)
    have hlength := monthLength_le y (split (monthLength y) 11 1 (split yearLength 9998 1 n').2).1
    rw [append_lt_append_iff (by rw [length_pad, length_pad]), List.cons_lt_cons_iff]
    rcases hmonth with hm | ⟨hm, hd⟩
    · exact .inl (pad_lt 2 hm (by omega))
    · refine .inr ⟨congrArg (pad 2) hm, .inr ⟨rfl, ?_⟩⟩
      exact pad_lt 2 (by omega) (by omega)

theorem dateText_lt_iff (hn : n < days) (hn' : n' < days) :
    dateText n < dateText n' ↔ n < n' := by
  apply Iff.intro
  · intro h
    rcases Nat.lt_trichotomy n n' with hlt | heq | hgt
    · exact hlt
    · rw [heq] at h
      exact (List.lt_irrefl _ h).elim
    · exact (List.lt_asymm h (dateText_lt hgt hn)).elim
  · exact fun h => dateText_lt h hn'

/-- A point in time, in microseconds from the start of the year 1. -/
structure Instant where
  micros : Nat
  valid : micros / 1000000 / 86400 < days

def Instant.seconds (t : Instant) : Nat := t.micros / 1000000

/-- `HH:MM:SS`. -/
def timeText (seconds : Nat) : List Char :=
  pad 2 (seconds / 3600) ++ ':' :: (pad 2 (seconds / 60 % 60) ++ ':' :: pad 2 (seconds % 60))

/-- `datetime.isoformat` in UTC, which leaves out a fraction of zero. -/
def isoformat (t : Instant) : String :=
  String.ofList (dateText (t.seconds / 86400) ++ 'T' :: (timeText (t.seconds % 86400) ++
    (if t.micros % 1000000 = 0 then [] else '.' :: pad 6 (t.micros % 1000000)) ++
      "+00:00".toList))

/-- `datetime(...)` of SQLite. -/
def sqlDatetime (seconds : Nat) : String :=
  String.ofList (dateText (seconds / 86400) ++ ' ' :: timeText (seconds % 86400))

end Calendar
