import AnythingTools.IsoFormat
import AnythingTools.StockFinancials.Cashflow

namespace StockFinancials
open Calendar IsoFormat
set_option autoImplicit true

/-- A day of the years that `pd.Timestamp` covers with its nanoseconds. -/
structure Day where
  year : Nat
  month : Nat
  day : Nat
  valid : ValidDate year month day
  covered : 1678 ≤ year ∧ year ≤ 2261

def Day.text (d : Day) : String :=
  String.ofList (pad 4 d.year ++ '-' :: (pad 2 d.month ++ '-' :: pad 2 d.day))

def Day.number (d : Day) : Nat := dayNumber d.year d.month d.day

inductive FiscalQuarter where
  | q1
  | q2
  | q3
  | q4
deriving DecidableEq, Repr

namespace FiscalQuarter

/-- `fiscal_period`. -/
def period : FiscalQuarter → String
  | q1 => "Q1"
  | q2 => "Q2"
  | q3 => "Q3"
  | q4 => "Q4"

def next : FiscalQuarter → FiscalQuarter
  | q1 => q2
  | q2 => q3
  | q3 => q4
  | q4 => q1

end FiscalQuarter

/-- A quarter of a fiscal year and the end of its period. -/
structure Quarter where
  fiscal : FiscalQuarter
  ends : Day

/-- The one quarter comes directly after the other. -/
def Quarter.Follows (a b : Quarter) : Prop :=
  b.fiscal = a.fiscal.next ∧ a.ends.number < b.ends.number

instance (a b : Quarter) : Decidable (a.Follows b) := inferInstanceAs (Decidable (_ ∧ _))

/-- Consecutive quarters of a company. Their ends may lie in any months and move from year to
year. -/
structure FiscalCalendar where
  quarters : List Quarter
  consecutive : quarters.IsChain Quarter.Follows

/-- `pd.Timestamp` finds the year and the month of a date. -/
def ReadsDays (dates : Dates) : Prop :=
  ∀ d : Day, dates.timestamp d.text = .date d.year d.month

def Quarter.label (dates : Dates) (q : Quarter) : String :=
  periodEndToQuarterLabel dates (.text q.ends.text) q.fiscal.period

/-- Different quarters have different labels, and the labels sort as the ends of the periods. -/
def Ordered (dates : Dates) (c : FiscalCalendar) : Prop :=
  ∀ a ∈ c.quarters, ∀ b ∈ c.quarters, (a.label dates = b.label dates → a = b) ∧
    (a.label dates < b.label dates ↔ a.ends.number < b.ends.number)

/-- A fourth quarter ends by March, with the third one in the year before, or the quarter after it
ends in a later year. -/
def YearsFit (a b : Quarter) : Prop :=
  (a.fiscal = .q3 → b.ends.month ≤ 3 → a.ends.year < b.ends.year) ∧
    (a.fiscal = .q4 → 3 < a.ends.month → a.ends.year < b.ends.year)

instance (a b : Quarter) : Decidable (YearsFit a b) := inferInstanceAs (Decidable (_ ∧ _))

/-! ### The order of two labels -/

variable {dates : Dates} {a b : Quarter}

/-- The year in the label. -/
def Quarter.labelYear (q : Quarter) : Nat :=
  if q.fiscal = .q4 ∧ q.ends.month ≤ 3 then q.ends.year - 1 else q.ends.year

theorem labelYear_bounds (q : Quarter) : 10 ^ 3 ≤ q.labelYear ∧ q.labelYear < 10 ^ 4 := by
  have hcovered := q.ends.covered
  rw [Quarter.labelYear]
  split <;> omega

theorem period_eq_q4 (f : FiscalQuarter) : f.period = "Q4" ↔ f = .q4 := by
  cases f <;> decide

theorem text_ne_empty (d : Day) : d.text ≠ "" := by
  intro h
  have hlength := congrArg (fun s => s.toList.length) h
  simp [Day.text] at hlength

theorem toList_label (h : ReadsDays dates) (q : Quarter) :
    (q.label dates).toList = pad 4 q.labelYear ++ '-' :: q.fiscal.period.toList := by
  obtain ⟨hlow, hhigh⟩ := labelYear_bounds q
  have hcovered := q.ends.covered
  have hyear : (if q.fiscal.period = "Q4" ∧ q.ends.month ≤ 3 then (q.ends.year : Int) - 1
      else q.ends.year) = (q.labelYear : Nat) := by
    simp only [period_eq_q4, Quarter.labelYear]
    split <;> omega
  have hfalsy : (PeriodEnd.text q.ends.text).falsy = false := decide_eq_false (text_ne_empty q.ends)
  have hlabel : q.label dates = labelOf (toString (q.labelYear : Int)) q.fiscal.period := by
    rw [Quarter.label, periodEndToQuarterLabel, hfalsy]
    simp only [Bool.false_eq_true, if_false, h q.ends, hyear]
  have hdigits : (toString (q.labelYear : Int)).toList = pad 4 q.labelYear := by
    rw [← toDigits_eq_pad 3 hlow hhigh, ← Nat.toList_repr]
    rfl
  rw [hlabel, labelOf, String.toList_append, String.toList_append, hdigits, List.append_assoc]
  rfl

theorem period_lt (f f' : FiscalQuarter) (h : f.next = f') :
    f.period.toList < f'.period.toList ↔ f ≠ .q4 := by
  subst h
  cases f <;> decide

/-- A later quarter has the greater label if its year is later, or the same within a fiscal year. -/
theorem label_lt_iff (h : ReadsDays dates) (hf : a.Follows b) :
    a.label dates < b.label dates ↔
      a.labelYear < b.labelYear ∨ a.labelYear = b.labelYear ∧ a.fiscal ≠ .q4 := by
  have hyears := sorts_pad 4 (labelYear_bounds a).2 (labelYear_bounds b).2
  have hirrefl : ¬ '-' < '-' := Char.lt_irrefl '-'
  rw [String.lt_iff_toList_lt, toList_label h, toList_label h, append_lt_append_iff hyears.length,
    hyears.lt, hyears.eq, List.cons_lt_cons_iff, period_lt _ _ hf.1.symm]
  simp only [hirrefl, false_or, true_and]

theorem year_le (h : a.Follows b) : a.ends.year ≤ b.ends.year := by
  by_contra hlt
  have ha := a.ends.valid.2
  have hb := b.ends.valid.2
  have hmonth := monthLength_le a.ends.year a.ends.month
  have hmonth' := monthLength_le b.ends.year b.ends.month
  have hnumber := dayNumber_lt b.ends.valid a.ends.valid (by omega)
  exact absurd h.2 (Nat.lt_asymm hnumber)

/-- One step of the calendar. -/
theorem label_lt_iff_yearsFit (h : ReadsDays dates) (hf : a.Follows b) :
    a.label dates < b.label dates ↔ YearsFit a b := by
  have hyear := year_le hf
  have ha := a.ends.covered
  have hb := b.ends.covered
  have hnext := hf.1
  rw [label_lt_iff h hf, YearsFit, Quarter.labelYear, Quarter.labelYear]
  cases hq : a.fiscal with
  | q1 =>
    rw [hq] at hnext
    simp only [hnext, FiscalQuarter.next, reduceCtorEq, false_and, if_false, ne_eq,
      not_false_eq_true, and_true, false_implies, and_self, iff_true]
    omega
  | q2 =>
    rw [hq] at hnext
    simp only [hnext, FiscalQuarter.next, reduceCtorEq, false_and, if_false, ne_eq,
      not_false_eq_true, and_true, false_implies, and_self, iff_true]
    omega
  | q3 =>
    rw [hq] at hnext
    simp only [hnext, FiscalQuarter.next, reduceCtorEq, false_and, if_false, true_and, ne_eq,
      not_false_eq_true, and_true, true_implies, false_implies]
    split <;> omega
  | q4 =>
    rw [hq] at hnext
    simp only [hnext, FiscalQuarter.next, reduceCtorEq, false_and, if_false, true_and, ne_eq,
      not_true_eq_false, and_false, or_false, true_implies, false_implies]
    split <;> omega

/-! ### The labels of a calendar -/

theorem number_pairwise (c : FiscalCalendar) :
    c.quarters.Pairwise fun a b => a.ends.number < b.ends.number := by
  have htrans : IsTrans Quarter fun a b => a.ends.number < b.ends.number :=
    ⟨fun _ _ _ => Nat.lt_trans⟩
  exact (c.consecutive.imp fun _ _ h => h.2).pairwise

/-- The labels sort right everywhere if they do from each quarter to the next. -/
theorem ordered_iff_isChain (dates : Dates) (c : FiscalCalendar) :
    Ordered dates c ↔ c.quarters.IsChain fun a b => a.label dates < b.label dates := by
  have hnumber := number_pairwise c
  constructor
  · intro h
    have hall : c.quarters.Pairwise fun a b => a.label dates < b.label dates :=
      hnumber.imp_of_mem fun ha hb hlt => (h _ ha _ hb).2.2 hlt
    exact hall.isChain
  · intro h
    have htrans : IsTrans Quarter fun a b => a.label dates < b.label dates :=
      ⟨fun _ _ _ => String.lt_trans⟩
    have hboth := h.pairwise.and hnumber
    apply List.Pairwise.forall_of_forall_of_flip
    · exact fun a _ => ⟨fun _ => rfl, iff_of_false (String.lt_irrefl _) (Nat.lt_irrefl _)⟩
    · exact hboth.imp fun ⟨hlt, hn⟩ =>
        ⟨fun he => absurd (he ▸ hlt) (String.lt_irrefl _), iff_of_true hlt hn⟩
    · exact hboth.imp fun ⟨hlt, hn⟩ => ⟨fun he => absurd (he ▸ hlt) (String.lt_irrefl _),
        iff_of_false (String.lt_asymm hlt) (Nat.lt_asymm hn)⟩

/-- The labels of a calendar tell its quarters apart and sort as they do exactly if the years of
the fourth quarters fit those of their neighbours. -/
theorem labels_ordered_iff (dates : Dates) (h : ReadsDays dates) (c : FiscalCalendar) :
    Ordered dates c ↔ c.quarters.IsChain YearsFit := by
  have hf := List.isChain_iff_getElem.1 c.consecutive
  rw [ordered_iff_isChain, List.isChain_iff_getElem, List.isChain_iff_getElem]
  constructor
  · exact fun hl i hi => (label_lt_iff_yearsFit h (hf i hi)).1 (hl i hi)
  · exact fun hy i hi => (label_lt_iff_yearsFit h (hf i hi)).2 (hy i hi)

/-- A `pd.Timestamp` that reads dates. -/
def isoDates : Dates where
  timestamp s :=
    match number 4 s.toList with
    | some (year, '-' :: rest) =>
      match number 2 rest with
      | some (month, _) => .date year month
      | none => .raises
    | _ => .raises
  days _ := none
  median _ := none

theorem readsDays_isoDates : ReadsDays isoDates := by
  intro d
  have hcovered := d.covered
  have hmonth := d.valid.2.1
  have hyear : d.year < 10 ^ 4 := by omega
  have hm : d.month < 100 := by omega
  simp [isoDates, Day.text, number_pad 4 _ hyear, number_two _ hm]

def newYear : Quarter := ⟨.q1, ⟨2023, 1, 1, by decide, by decide⟩⟩

def newYearsEve : Quarter := ⟨.q1, ⟨2023, 12, 31, by decide, by decide⟩⟩

/-- The fiscal years of a company that ends them on the Sunday closest to September 30. -/
def sundays : FiscalCalendar where
  quarters :=
    [newYear, ⟨.q2, ⟨2023, 4, 2, by decide, by decide⟩⟩,
      ⟨.q3, ⟨2023, 7, 2, by decide, by decide⟩⟩, ⟨.q4, ⟨2023, 10, 1, by decide, by decide⟩⟩,
      newYearsEve]
  consecutive := by decide +kernel

/-- Two first quarters end in 2023, and the one overwrites the other. -/
theorem labels_collide : ReadsDays isoDates ∧ ¬ Ordered isoDates sundays := by
  refine ⟨readsDays_isoDates, fun h => ?_⟩
  have hsame : newYear.label isoDates = newYearsEve.label isoDates := by decide +kernel
  have he := (h newYear List.mem_cons_self newYearsEve (by simp [sundays])).1 hsame
  have hmonth : newYear.ends.month = newYearsEve.ends.month := by rw [he]
  exact absurd hmonth (by decide)

/-- The fiscal years of a company that ends them with January. -/
def januaries : FiscalCalendar where
  quarters :=
    [⟨.q3, ⟨2023, 10, 29, by decide, by decide⟩⟩, ⟨.q4, ⟨2024, 1, 28, by decide, by decide⟩⟩,
      ⟨.q1, ⟨2024, 4, 28, by decide, by decide⟩⟩, ⟨.q2, ⟨2024, 7, 28, by decide, by decide⟩⟩,
      ⟨.q3, ⟨2024, 10, 27, by decide, by decide⟩⟩, ⟨.q4, ⟨2025, 1, 26, by decide, by decide⟩⟩]
  consecutive := by decide +kernel

theorem labels_ordered_januaries : Ordered isoDates januaries :=
  (labels_ordered_iff isoDates readsDays_isoDates januaries).2 (by decide)

end StockFinancials
