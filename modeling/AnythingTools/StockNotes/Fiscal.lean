import AnythingTools.Calendar
import AnythingTools.StockFinancials.Cashflow
import AnythingTools.Sync.AddColumn

namespace StockNotes
open Calendar
set_option autoImplicit true

/-- A quarter and its fiscal year, as the code returns them. -/
abbrev Quarter := Int × Int

/-- The quarter of a day, which the day of the month does not matter for. -/
def fiscalQuarterFromPeriodEnd (year m fiscalYearEndMonth : Int) : Quarter :=
  let q := (m - fiscalYearEndMonth - 1) % 12 / 3 + 1
  let fy := if m ≤ fiscalYearEndMonth then year else year + 1
  if m = fiscalYearEndMonth then (4, year) else (q, fy)

/-- The year and the month at the front of a text, or zeros. -/
def parseQuarterDate (dateStr : String) : Int × Int :=
  match (Sync.strip dateStr).toList.splitOn '-' with
  | year :: month :: _ =>
    match StockFinancials.intOf (String.ofList year),
      StockFinancials.intOf (String.ofList month) with
    | some year, some month =>
      if (1 ≤ month ∧ month ≤ 12) ∧ 1900 < year then (year, month) else (0, 0)
    | _, _ => (0, 0)
  | _ => (0, 0)

/-- `date(year, month, 1)` for a month that there is. -/
def firstOfMonth (year : Int) : Except Python.Error Unit :=
  if 2 ^ 31 ≤ year then .error .overflow
  else if 1 ≤ year ∧ year ≤ 9999 then .ok ()
  else .error .valueError

/-- The one quarter is not after the other. -/
def NotAfter (x y : Quarter) : Prop := x.2 < y.2 ∨ x.2 = y.2 ∧ x.1 ≤ y.1

instance (x y : Quarter) : Decidable (NotAfter x y) := inferInstanceAs (Decidable (_ ∨ _))

/-- The loop over the quarters. -/
def quarterLoop (last : Quarter) (maxQuarters : Int) (quarters : List Quarter) (current : Quarter) :
    List Quarter :=
  if NotAfter current last then
    let quarters' := quarters ++ [current]
    let current' := if 4 < current.1 + 1 then (1, current.2 + 1) else (current.1 + 1, current.2)
    if maxQuarters ≤ quarters'.length then quarters'
    else quarterLoop last maxQuarters quarters' current'
  else quarters
termination_by ((last.2 + 1 - current.2).toNat, (4 - current.1).toNat)
decreasing_by
  rename_i hle _
  rw [Prod.lex_def]
  simp only [NotAfter] at hle
  split
  · left
    dsimp only
    omega
  · right
    dsimp only
    omega

def quarterDateRange (startDate endDate : String) (fiscalYearEndMonth maxQuarters : Int := 12) :
    Except Python.Error (List Quarter) :=
  let start := if startDate = "" then (0, 0) else parseQuarterDate startDate
  let last := if endDate = "" then (0, 0) else parseQuarterDate endDate
  if start.1 = 0 ∨ last.1 = 0 then .ok []
  else do
    firstOfMonth start.1
    firstOfMonth last.1
    return quarterLoop (fiscalQuarterFromPeriodEnd last.1 last.2 fiscalYearEndMonth) maxQuarters []
      (fiscalQuarterFromPeriodEnd start.1 start.2 fiscalYearEndMonth)

/-! ### The row of all quarters -/

def IsMonth (m : Int) : Prop := 1 ≤ m ∧ m ≤ 12

instance (m : Int) : Decidable (IsMonth m) := inferInstanceAs (Decidable (_ ∧ _))

def IsQuarter (x : Quarter) : Prop := 1 ≤ x.1 ∧ x.1 ≤ 4

def nextQuarter (x : Quarter) : Quarter := if x.1 = 4 then (1, x.2 + 1) else (x.1 + 1, x.2)

/-- The year and the month, three months later. -/
def threeMonthsLater (year m : Int) : Int × Int :=
  if m ≤ 9 then (year, m + 3) else (year + 1, m - 9)

/-- Exactly the quarters from the first to the last, without a gap. -/
def GapFree (first last : Quarter) (quarters : List Quarter) : Prop :=
  (quarters.IsChain fun x y => y = nextQuarter x) ∧
    ∀ x, x ∈ quarters ↔ IsQuarter x ∧ NotAfter first x ∧ NotAfter x last

/-- Where a quarter is in the row of all quarters. -/
def place (x : Quarter) : Int := 4 * x.2 + x.1 - 1

def quarterAt (n : Int) : Quarter := (n % 4 + 1, n / 4)

def quartersBetween (first last : Quarter) : List Quarter :=
  (List.range (place last + 1 - place first).toNat).map fun k => quarterAt (place first + (k : Nat))

theorem isQuarter_quarterAt (n : Int) : IsQuarter (quarterAt n) := by
  simp only [IsQuarter, quarterAt]
  omega

theorem place_quarterAt (n : Int) : place (quarterAt n) = n := by
  simp only [place, quarterAt]
  omega

theorem quarterAt_place (h : IsQuarter x) : quarterAt (place x) = x := by
  obtain ⟨hlow, hhigh⟩ := h
  simp only [quarterAt, place]
  ext <;> dsimp only <;> omega

theorem notAfter_iff (hx : IsQuarter x) (hy : IsQuarter y) : NotAfter x y ↔ place x ≤ place y := by
  obtain ⟨hx1, hx4⟩ := hx
  obtain ⟨hy1, hy4⟩ := hy
  simp only [NotAfter, place]
  omega

theorem nextQuarter_quarterAt (n : Int) : nextQuarter (quarterAt n) = quarterAt (n + 1) := by
  rw [nextQuarter]
  by_cases h : (quarterAt n).1 = 4
  · rw [if_pos h]
    simp only [quarterAt] at h ⊢
    ext <;> dsimp only <;> omega
  · rw [if_neg h]
    simp only [quarterAt] at h ⊢
    ext <;> dsimp only <;> omega

theorem quartersBetween_cons (hc : IsQuarter current) (h : place current ≤ place last) :
    quartersBetween current last = current :: quartersBetween (nextQuarter current) last := by
  have hnext : place (nextQuarter current) = place current + 1 := by
    rw [← quarterAt_place hc, nextQuarter_quarterAt, place_quarterAt, place_quarterAt]
  have hlength : (place last + 1 - place current).toNat =
      (place last + 1 - (place current + 1)).toNat + 1 := by omega
  rw [quartersBetween, quartersBetween, hnext, hlength, List.range_succ_eq_map, List.map_cons,
    List.map_map]
  congr 1
  · rw [Int.natCast_zero, Int.add_zero, quarterAt_place hc]
  · apply List.map_congr_left
    intro k _
    rw [Function.comp_apply, Nat.succ_eq_add_one, Int.natCast_succ, Int.add_assoc,
      Int.add_comm 1]

theorem quartersBetween_nil (h : place last < place current) :
    quartersBetween current last = [] := by
  have hzero : (place last + 1 - place current).toNat = 0 := by omega
  rw [quartersBetween, hzero]
  rfl

theorem gapFree_quartersBetween (hf : IsQuarter first) (hl : IsQuarter last) :
    GapFree first last (quartersBetween first last) := by
  constructor
  · rw [quartersBetween, List.isChain_iff_getElem]
    intro i hi
    simp only [List.getElem_map, List.getElem_range, nextQuarter_quarterAt]
    congr 1
    push_cast
    omega
  · intro x
    rw [quartersBetween, List.mem_map]
    constructor
    · rintro ⟨k, hk, rfl⟩
      have hk := List.mem_range.1 hk
      have hx := isQuarter_quarterAt (place first + k)
      rw [notAfter_iff hf hx, notAfter_iff hx hl, place_quarterAt]
      exact ⟨hx, by omega, by omega⟩
    · rintro ⟨hx, hfirst, hlast⟩
      rw [notAfter_iff hf hx] at hfirst
      rw [notAfter_iff hx hl] at hlast
      refine ⟨(place x - place first).toNat, List.mem_range.2 (by omega), ?_⟩
      have hplace : place first + ((place x - place first).toNat : Int) = place x := by omega
      rw [hplace, quarterAt_place hx]

/-! ### The quarter of a month -/

variable {fye : Int}

theorem isQuarter_fiscal (year m fye : Int) :
    IsQuarter (fiscalQuarterFromPeriodEnd year m fye) := by
  rw [fiscalQuarterFromPeriodEnd, IsQuarter]
  split <;> dsimp only <;> omega

/-- Three months each make a quarter, counted from the end of a fiscal year. -/
theorem place_fiscal (hfye : IsMonth fye) (hm : IsMonth m) :
    place (fiscalQuarterFromPeriodEnd year m fye) = (12 * year + m + 11 - fye) / 3 := by
  obtain ⟨hfye1, hfye12⟩ := hfye
  obtain ⟨hm1, hm12⟩ := hm
  simp only [place, fiscalQuarterFromPeriodEnd]
  split
  next h => omega
  next h =>
    split <;> omega

theorem fiscal_monotone (hfye : IsMonth fye) (hm : IsMonth m) (hm' : IsMonth m')
    (h : year < year' ∨ year = year' ∧ m ≤ m') :
    NotAfter (fiscalQuarterFromPeriodEnd year m fye) (fiscalQuarterFromPeriodEnd year' m' fye) := by
  rw [notAfter_iff (isQuarter_fiscal _ _ _) (isQuarter_fiscal _ _ _), place_fiscal hfye hm,
    place_fiscal hfye hm']
  obtain ⟨hm1, hm12⟩ := hm
  obtain ⟨hm1', hm12'⟩ := hm'
  omega

theorem fiscal_threeMonthsLater (hfye : IsMonth fye) (hm : IsMonth m) :
    fiscalQuarterFromPeriodEnd (threeMonthsLater year m).1 (threeMonthsLater year m).2 fye =
      nextQuarter (fiscalQuarterFromPeriodEnd year m fye) := by
  have hlater : IsMonth (threeMonthsLater year m).2 := by
    obtain ⟨hm1, hm12⟩ := hm
    simp only [threeMonthsLater, IsMonth]
    split <;> dsimp only <;> omega
  have hplace : place (fiscalQuarterFromPeriodEnd (threeMonthsLater year m).1
      (threeMonthsLater year m).2 fye) = place (fiscalQuarterFromPeriodEnd year m fye) + 1 := by
    rw [place_fiscal hfye hlater, place_fiscal hfye hm, threeMonthsLater]
    split <;> dsimp only <;> omega
  rw [← quarterAt_place (isQuarter_fiscal _ _ _), hplace, ← nextQuarter_quarterAt,
    quarterAt_place (isQuarter_fiscal _ _ _)]

/-! ### The loop -/

theorem advance_eq (h : IsQuarter x) :
    (if 4 < x.1 + 1 then (1, x.2 + 1) else (x.1 + 1, x.2)) = nextQuarter x := by
  obtain ⟨hlow, hhigh⟩ := h
  rw [nextQuarter]
  split <;> split <;> first | rfl | omega

theorem isQuarter_next (h : IsQuarter x) : IsQuarter (nextQuarter x) := by
  rw [← quarterAt_place h, nextQuarter_quarterAt]
  exact isQuarter_quarterAt _

/-- The loop collects the quarters that are left, up to the limit. -/
theorem quarterLoop_eq (quarters : List Quarter) (hl : IsQuarter last) (hc : IsQuarter current)
    (hmax : (quarters.length : Int) < maxQuarters) :
    quarterLoop last maxQuarters quarters current =
      quarters ++ (quartersBetween current last).take (maxQuarters - quarters.length).toNat := by
  fun_induction quarterLoop last maxQuarters quarters current with
  | case1 quarters current hle quarters' hfull =>
    have hone : (maxQuarters - quarters.length).toNat = 1 := by
      simp only [quarters', List.length_append, List.length_singleton] at hfull
      omega
    rw [notAfter_iff hc hl] at hle
    rw [hone, quartersBetween_cons hc hle, List.take_succ_cons, List.take_zero]
  | case2 quarters current hle quarters' current' hfull ih =>
    have hnext : current' = nextQuarter current := advance_eq hc
    have hlength : (quarters'.length : Int) = quarters.length + 1 := by
      simp only [quarters', List.length_append, List.length_singleton]
      omega
    have htake : (maxQuarters - quarters.length).toNat =
        (maxQuarters - quarters'.length).toNat + 1 := by omega
    rw [notAfter_iff hc hl] at hle
    rw [ih (hnext ▸ isQuarter_next hc) (by omega), htake, quartersBetween_cons hc hle,
      List.take_succ_cons, ← hnext, List.append_assoc, List.singleton_append]
  | case3 quarters current hnot =>
    rw [notAfter_iff hc hl] at hnot
    rw [quartersBetween_nil (by omega), List.take_nil, List.append_nil]

theorem quarterDateRange_eq (hs : parseQuarterDate startDate = (year, m))
    (he : parseQuarterDate endDate = (year', m')) (hyear : 1901 ≤ year ∧ year ≤ 9999)
    (hyear' : 1901 ≤ year' ∧ year' ≤ 9999) (hmax : 1 ≤ maxQuarters) :
    quarterDateRange startDate endDate fye maxQuarters =
      .ok ((quartersBetween (fiscalQuarterFromPeriodEnd year m fye)
        (fiscalQuarterFromPeriodEnd year' m' fye)).take maxQuarters.toNat) := by
  have hempty : parseQuarterDate "" = (0, 0) := by decide +kernel
  have hfirst (n : Int) (h : 1901 ≤ n ∧ n ≤ 9999) : firstOfMonth n = .ok () := by
    rw [firstOfMonth, if_neg (by omega), if_pos (by omega)]
  have hstart : (if startDate = "" then (0, 0) else parseQuarterDate startDate) = (year, m) := by
    split
    next h =>
      rw [h, hempty] at hs
      exact hs
    next => exact hs
  have hend : (if endDate = "" then (0, 0) else parseQuarterDate endDate) = (year', m') := by
    split
    next h =>
      rw [h, hempty] at he
      exact he
    next => exact he
  have hzero : ¬ (year = 0 ∨ year' = 0) := by omega
  have hloop := quarterLoop_eq [] (isQuarter_fiscal year' m' fye)
    (isQuarter_fiscal year m fye) (Int.lt_of_lt_of_le Int.zero_lt_one hmax)
  rw [quarterDateRange, hstart, hend]
  simp only [hzero, if_false, hfirst _ hyear, hfirst _ hyear']
  rw [List.length_nil, Int.natCast_zero, Int.sub_zero, List.nil_append] at hloop
  exact congrArg Except.ok hloop

/-! ### The text of a month -/

/-- `YYYY-MM`. -/
def monthText (year m : Nat) : String := String.ofList (pad 4 year ++ '-' :: pad 2 m)

theorem digit_spec (h : d < 10) : decimalValue (digit d) = some d ∧ digit d ≠ '_' ∧
    digit d ≠ '-' ∧ digit d ≠ '+' ∧ Sync.isSpace (digit d) = false := by
  interval_cases d <;> decide

theorem digitsValue_pad (w acc : Nat) (h : n < 10 ^ w) :
    StockFinancials.digitsValue acc (pad w n) = some (acc * 10 ^ w + n) := by
  induction w generalizing n acc with
  | zero =>
    have hn : n = 0 := by simpa using h
    rw [hn]
    simp [pad, StockFinancials.digitsValue]
  | succ w ih =>
    have hp : 0 < 10 ^ w := Nat.pow_pos (by omega)
    have hd : n / 10 ^ w < 10 := by
      rw [Nat.div_lt_iff_lt_mul hp, ← Nat.pow_succ']
      exact h
    obtain ⟨hvalue, hunder, -⟩ := digit_spec hd
    have hn := Nat.div_add_mod n (10 ^ w)
    have hsum : (acc * 10 + n / 10 ^ w) * 10 ^ w + n % 10 ^ w = acc * 10 ^ (w + 1) + n := by
      rw [Nat.pow_succ', ← Nat.mul_assoc, Nat.add_mul, Nat.mul_comm (n / 10 ^ w)]
      omega
    rw [pad, StockFinancials.digitsValue, hvalue]
    · simp only [Option.bind_eq_bind, Option.bind_some]
      rw [ih _ (Nat.mod_lt n hp), hsum]
    · intro c cs hc
      exact absurd hc hunder

theorem not_space_of_mem_pad (w : Nat) (h : n < 10 ^ w) (hc : c ∈ pad w n) :
    Sync.isSpace c = false ∧ c ≠ '-' ∧ c ≠ '+' := by
  induction w generalizing n with
  | zero => cases hc
  | succ w ih =>
    have hp : 0 < 10 ^ w := Nat.pow_pos (by omega)
    have hd : n / 10 ^ w < 10 := by
      rw [Nat.div_lt_iff_lt_mul hp, ← Nat.pow_succ']
      exact h
    rcases List.mem_cons.1 hc with rfl | hc
    · obtain ⟨-, -, hminus, hplus, hspace⟩ := digit_spec hd
      exact ⟨hspace, hminus, hplus⟩
    · exact ih (Nat.mod_lt n hp) hc

/-- Blanks at the ends are all that is taken off. -/
theorem toList_strip {cs : List Char} (h : ∀ c ∈ cs, Sync.isSpace c = false) :
    (Sync.strip (String.ofList cs)).toList = cs := by
  have hfront : cs.dropWhile Sync.isSpace = cs := by
    cases cs with
    | nil => rfl
    | cons c cs => rw [List.dropWhile_cons_of_neg (by simp [h c List.mem_cons_self])]
  have hback : cs.reverse.dropWhile Sync.isSpace = cs.reverse := by
    cases hr : cs.reverse with
    | nil => rfl
    | cons c rest =>
      have hc : c ∈ cs := List.mem_reverse.1 (hr ▸ List.mem_cons_self)
      rw [List.dropWhile_cons_of_neg (by simp [h c hc])]
  rw [Sync.strip, String.toList_ofList, String.toList_ofList, hfront, hback, List.reverse_reverse]

theorem intOf_pad (w : Nat) (h : n < 10 ^ (w + 1)) :
    StockFinancials.intOf (String.ofList (pad (w + 1) n)) = some (n : Int) := by
  have hp : 0 < 10 ^ w := Nat.pow_pos (by omega)
  have hd : n / 10 ^ w < 10 := by
    rw [Nat.div_lt_iff_lt_mul hp, ← Nat.pow_succ']
    exact h
  obtain ⟨hvalue, -, hminus, hplus, -⟩ := digit_spec hd
  have hsum : n / 10 ^ w * 10 ^ w + n % 10 ^ w = n := Nat.div_add_mod' n (10 ^ w)
  rw [StockFinancials.intOf, toList_strip fun c hc => (not_space_of_mem_pad _ h hc).1, pad]
  split
  next hnil => cases hnil
  next hcs => exact absurd (List.cons.inj hcs).1 hminus
  next hcs => exact absurd (List.cons.inj hcs).1 hplus
  next hcs => exact absurd (List.cons.inj hcs).1 hminus
  next hcs => exact absurd (List.cons.inj hcs).1 hplus
  next c cs _ _ hcs =>
    cases hcs
    simp only [hvalue, Option.bind_eq_bind, Option.bind_some,
      digitsValue_pad w _ (Nat.mod_lt n hp), hsum]
    rfl

theorem parseQuarterDate_monthText (hyear : 1901 ≤ year ∧ year ≤ 9999) (hm : 1 ≤ m ∧ m ≤ 12) :
    parseQuarterDate (monthText year m) = ((year : Int), (m : Int)) := by
  have hyear4 : year < 10 ^ 4 := by omega
  have hm2 : m < 10 ^ 2 := by omega
  have hspace : ∀ c ∈ pad 4 year ++ '-' :: pad 2 m, Sync.isSpace c = false := by
    intro c hc
    rcases List.mem_append.1 hc with hc | hc
    · exact (not_space_of_mem_pad 4 hyear4 hc).1
    · rcases List.mem_cons.1 hc with rfl | hc
      · decide
      · exact (not_space_of_mem_pad 2 hm2 hc).1
  have hsplit : (pad 4 year ++ '-' :: pad 2 m).splitOn '-' = [pad 4 year, pad 2 m] := by
    rw [List.splitOn_append_cons_self, List.splitOn_eq_singleton, List.splitOn_eq_singleton]
    · rfl
    · exact fun h => (not_space_of_mem_pad 2 hm2 h).2.1 rfl
    · exact fun h => (not_space_of_mem_pad 4 hyear4 h).2.1 rfl
  rw [parseQuarterDate, monthText, toList_strip hspace, hsplit]
  simp only [intOf_pad 3 hyear4, intOf_pad 1 hm2]
  rw [if_pos (by omega)]

/-- The quarters of months are in the order of the months, three months make one quarter, and a
range of them is the gap-free list from its first quarter to its last one, up to the limit. A month
is read from its text. -/
theorem quarterDateRange_gapFree (fye : Int) (hfye : IsMonth fye) :
    (∀ year m year' m', IsMonth m → IsMonth m' → year < year' ∨ year = year' ∧ m ≤ m' →
      NotAfter (fiscalQuarterFromPeriodEnd year m fye)
        (fiscalQuarterFromPeriodEnd year' m' fye)) ∧
    (∀ year m, IsMonth m →
      fiscalQuarterFromPeriodEnd (threeMonthsLater year m).1 (threeMonthsLater year m).2 fye =
        nextQuarter (fiscalQuarterFromPeriodEnd year m fye)) ∧
    (∀ startDate endDate year m year' m' maxQuarters,
      parseQuarterDate startDate = (year, m) → parseQuarterDate endDate = (year', m') →
      1901 ≤ year ∧ year ≤ 9999 → 1901 ≤ year' ∧ year' ≤ 9999 → 1 ≤ maxQuarters →
        ∃ quarters, GapFree (fiscalQuarterFromPeriodEnd year m fye)
            (fiscalQuarterFromPeriodEnd year' m' fye) quarters ∧
          quarterDateRange startDate endDate fye maxQuarters =
            .ok (quarters.take maxQuarters.toNat)) ∧
    ∀ year m : Nat, 1901 ≤ year ∧ year ≤ 9999 → 1 ≤ m ∧ m ≤ 12 →
      parseQuarterDate (monthText year m) = ((year : Int), (m : Int)) := by
  refine ⟨?_, ?_, ?_, fun _ _ => parseQuarterDate_monthText⟩
  · intro year m year' m' hm hm' h
    exact fiscal_monotone hfye hm hm' h
  · intro year m hm
    exact fiscal_threeMonthsLater hfye hm
  · intro startDate endDate year m year' m' maxQuarters hs he hyear hyear' hmax
    exact ⟨_, gapFree_quartersBetween (isQuarter_fiscal _ _ _) (isQuarter_fiscal _ _ _),
      quarterDateRange_eq hs he hyear hyear' hmax⟩

/-- With fiscal years that end in June. -/
theorem quarterDateRange_june :
    (NotAfter (fiscalQuarterFromPeriodEnd 2023 6 6) (fiscalQuarterFromPeriodEnd 2023 7 6)) ∧
    fiscalQuarterFromPeriodEnd 2024 2 6 = nextQuarter (fiscalQuarterFromPeriodEnd 2023 11 6) ∧
    ∃ quarters, GapFree (2, 2024) (1, 2025) quarters ∧
      quarterDateRange "2023-11" "2024-09" 6 3 = .ok (quarters.take 3) := by
  obtain ⟨hmonotone, hlater, hrange, -⟩ := quarterDateRange_gapFree 6 (by decide)
  exact ⟨hmonotone 2023 6 2023 7 (by decide) (by decide) (by decide), hlater 2023 11 (by decide),
    hrange "2023-11" "2024-09" 2023 11 2024 9 3 (by decide +kernel) (by decide +kernel) (by decide)
      (by decide) (by decide)⟩

end StockNotes
