import AnythingTools.Calendar

namespace IsoFormat
open Calendar
set_option autoImplicit true

theorem isDigit_digit (h : d < 10) : (digit d).isDigit = true := by
  interval_cases d <;> decide

theorem toNat_digit (h : d < 10) : (digit d).toNat - 48 = d := by
  interval_cases d <;> decide

theorem isDigit_pad (w : Nat) (h : n < 10 ^ w) (hc : c ∈ pad w n) : c.isDigit = true := by
  induction w generalizing n with
  | zero => cases hc
  | succ w ih =>
    have hp : 0 < 10 ^ w := Nat.pow_pos (by omega)
    rw [pad, List.mem_cons] at hc
    rcases hc with rfl | hc
    · apply isDigit_digit
      rw [Nat.div_lt_iff_lt_mul hp, Nat.mul_comm, ← Nat.pow_succ]
      exact h
    · exact ih (Nat.mod_lt n hp) hc

/-- The number of `w` digits at the front of a text, after a number already read. -/
def numberFrom : (w acc : Nat) → List Char → Option (Nat × List Char)
  | 0, acc, cs => some (acc, cs)
  | _ + 1, _, [] => none
  | w + 1, acc, c :: cs =>
    if c.isDigit then numberFrom w (acc * 10 + (c.toNat - 48)) cs else none

theorem numberFrom_pad (w k acc : Nat) (rest : List Char) (h : n < 10 ^ w) :
    numberFrom (w + k) acc (pad w n ++ rest) = numberFrom k (acc * 10 ^ w + n) rest := by
  induction w generalizing acc n with
  | zero =>
    have hn : n = 0 := by rw [Nat.pow_zero] at h; omega
    rw [hn, Nat.zero_add, Nat.pow_zero, Nat.mul_one, Nat.add_zero]
    rfl
  | succ w ih =>
    have hp : 0 < 10 ^ w := Nat.pow_pos (by omega)
    have hd : n / 10 ^ w < 10 := by
      rw [Nat.div_lt_iff_lt_mul hp, Nat.mul_comm, ← Nat.pow_succ]
      exact h
    have hread : (acc * 10 + n / 10 ^ w) * 10 ^ w + n % 10 ^ w = acc * 10 ^ (w + 1) + n := by
      have hn := Nat.div_add_mod n (10 ^ w)
      rw [Nat.pow_succ, Nat.add_mul, Nat.mul_assoc, Nat.mul_comm 10, Nat.mul_comm (n / 10 ^ w)]
      omega
    rw [Nat.add_right_comm, pad, List.cons_append, numberFrom, if_pos (isDigit_digit hd),
      toNat_digit hd, ih _ (Nat.mod_lt n hp), hread]

theorem numberFrom_zeros (k m acc : Nat) :
    numberFrom k acc (List.replicate (k + m) '0') =
      some (acc * 10 ^ k, List.replicate m '0') := by
  induction k generalizing acc with
  | zero => rw [Nat.zero_add, Nat.pow_zero, Nat.mul_one, numberFrom]
  | succ k ih =>
    have hzero : ('0' : Char).toNat - 48 = 0 := by decide
    rw [Nat.add_right_comm, List.replicate_succ, numberFrom, if_pos (by decide), hzero,
      Nat.add_zero, ih, Nat.mul_assoc, ← Nat.pow_succ']

def number (w : Nat) (cs : List Char) : Option (Nat × List Char) := numberFrom w 0 cs

@[simp] theorem number_pad (w : Nat) (rest : List Char) (h : n < 10 ^ w) :
    number w (pad w n ++ rest) = some (n, rest) := by
  have hread := numberFrom_pad w 0 0 rest h
  rw [Nat.add_zero, Nat.zero_mul, Nat.zero_add] at hread
  exact hread

theorem number_two (rest : List Char) (h : n < 100) : number 2 (pad 2 n ++ rest) = some (n, rest) :=
  number_pad 2 rest h

def expect (c : Char) : List Char → Option (List Char)
  | [] => none
  | d :: cs => if d = c then some cs else none

theorem expect_self (c : Char) (cs : List Char) : expect c (c :: cs) = some cs := if_pos rfl

/-- A number of digits ends where the text goes on otherwise. -/
theorem span_pad (w : Nat) (h : n < 10 ^ w) (hrest : ∀ c ∈ rest.head?, c.isDigit = false) :
    (pad w n ++ rest).takeWhile Char.isDigit = pad w n ∧
      (pad w n ++ rest).dropWhile Char.isDigit = rest := by
  have hdigits : ∀ c ∈ pad w n, c.isDigit = true := fun c hc => isDigit_pad w h hc
  rw [List.takeWhile_append_of_pos hdigits, List.dropWhile_append_of_pos hdigits]
  cases rest with
  | nil => exact ⟨List.append_nil _, rfl⟩
  | cons c rest =>
    have hc := hrest c rfl
    rw [List.takeWhile_cons_of_neg (by rw [hc]; decide), List.append_nil,
      List.dropWhile_cons_of_neg (by rw [hc]; decide)]
    exact ⟨rfl, rfl⟩

structure Clock where
  hour : Nat
  minute : Nat
  second : Nat := 0
  micros : Nat := 0
deriving DecidableEq, Repr

def Clock.total (c : Clock) : Nat :=
  (c.hour * 3600 + c.minute * 60 + c.second) * 1000000 + c.micros

/-- The fraction of a second that digits after a point give, cut off after the sixth. -/
def readFraction (digits : List Char) : Option Nat :=
  if digits = [] then none
  else (number 6 (digits ++ List.replicate 6 '0')).map Prod.fst

theorem readFraction_pad (h : n < 10 ^ w) (hw : 0 < w) (hw6 : w ≤ 6) :
    readFraction (pad w n) = some (n * 10 ^ (6 - w)) := by
  have hne : pad w n ≠ [] := by
    intro he
    have hlength := length_pad w n
    rw [he, List.length_nil] at hlength
    omega
  have hsix : w + (6 - w) = 6 := by omega
  have hread := numberFrom_pad w (6 - w) 0 (List.replicate 6 '0') h
  rw [hsix, Nat.zero_mul, Nat.zero_add] at hread
  have hzeros := numberFrom_zeros (6 - w) w n
  rw [Nat.sub_add_cancel hw6] at hzeros
  rw [readFraction, if_neg hne, number, hread, hzeros, Option.map_some]

/-- `HH:MM`, with seconds and a fraction of them where the text goes on that way. -/
def readClock (cs : List Char) : Option (Clock × List Char) := do
  let (hour, cs) ← number 2 cs
  let cs ← expect ':' cs
  let (minute, cs) ← number 2 cs
  match expect ':' cs with
  | none => some ({ hour, minute }, cs)
  | some cs =>
    let (second, cs) ← number 2 cs
    match cs with
    | [] => some ({ hour, minute, second }, [])
    | c :: rest =>
      if c = '.' ∨ c = ',' then
        let micros ← readFraction (rest.takeWhile Char.isDigit)
        some ({ hour, minute, second, micros }, rest.dropWhile Char.isDigit)
      else some ({ hour, minute, second }, c :: rest)

section
variable (hh : h < 100) (hm : m < 100) (hs : s < 100)
include hh hm

theorem readClock_minutes (rest : List Char) (hrest : expect ':' rest = none) :
    readClock (pad 2 h ++ ':' :: (pad 2 m ++ rest)) =
      some ({ hour := h, minute := m }, rest) := by
  simp [readClock, number_two _ hh, number_two _ hm, expect_self, hrest]

include hs

theorem readClock_seconds (rest : List Char) (hrest : ∀ c ∈ rest.head?, c ≠ '.' ∧ c ≠ ',') :
    readClock (pad 2 h ++ ':' :: (pad 2 m ++ ':' :: (pad 2 s ++ rest))) =
      some ({ hour := h, minute := m, second := s }, rest) := by
  cases rest with
  | nil =>
    have hread := number_two [] hs
    rw [List.append_nil] at hread
    simp [readClock, number_two _ hh, number_two _ hm, hread, expect_self]
  | cons c rest =>
    obtain ⟨hpoint, hcomma⟩ := hrest c rfl
    simp [readClock, number_two _ hh, number_two _ hm, number_two _ hs, expect_self, hpoint, hcomma]

theorem readClock_fraction (rest : List Char) (hn : n < 10 ^ w) (hw : 0 < w) (hw6 : w ≤ 6)
    (hrest : ∀ c ∈ rest.head?, c.isDigit = false) :
    readClock (pad 2 h ++ ':' :: (pad 2 m ++ ':' :: (pad 2 s ++ '.' :: (pad w n ++ rest)))) =
      some ({ hour := h, minute := m, second := s, micros := n * 10 ^ (6 - w) }, rest) := by
  obtain ⟨htake, hdrop⟩ := span_pad w hn hrest
  simp [readClock, number_two _ hh, number_two _ hm, number_two _ hs, expect_self, htake, hdrop,
    readFraction_pad hn hw hw6]

end

/-- An offset in microseconds and its sign, within a day of UTC. -/
def timezone (sign : Char) (n : Nat) : Option Int :=
  if n < 86400000000 then some (if sign = '-' then - (n : Int) else n) else none

/-- The offset from UTC in microseconds, of a text that ends with it or has none. -/
def readZone : List Char → Option (Option Int)
  | [] => some none
  | c :: cs =>
    if c = '+' ∨ c = '-' then do
      let (t, rest) ← readClock cs
      if rest = [] then (timezone c t.total).map some else none
    else none

def ValidDate (y m d : Nat) : Prop :=
  (1 ≤ y ∧ y ≤ 9999) ∧ (1 ≤ m ∧ m ≤ 12) ∧ 1 ≤ d ∧ d ≤ monthLength y m

instance : Decidable (ValidDate y m d) := inferInstanceAs (Decidable (_ ∧ _))

def ValidTime (h m s : Nat) : Prop := h < 24 ∧ m < 60 ∧ s < 60

instance : Decidable (ValidTime h m s) := inferInstanceAs (Decidable (_ ∧ _))

/-- The days from the first of the year 1 to a date. -/
def dayNumber (y m d : Nat) : Nat :=
  ((List.range (y - 1)).map fun i => yearLength (i + 1)).sum +
    ((List.range (m - 1)).map fun i => monthLength y (i + 1)).sum + (d - 1)

example : dayNumber 2024 5 1 = 739006 := by decide +kernel

/-- The spans before a place end where it starts, and the place's own span fits before any later
place. -/
theorem sum_add_le (len : Nat → Nat) (h : k < k') :
    ((List.range k).map len).sum + len k ≤ ((List.range k').map len).sum := by
  induction k' with
  | zero => omega
  | succ n ih =>
    rw [List.range_succ, List.map_append, List.sum_append, List.map_singleton, List.sum_singleton]
    rcases Nat.lt_or_eq_of_le (Nat.le_of_lt_succ h) with hlt | rfl
    · exact (ih hlt).trans (Nat.le_add_right _ _)
    · exact Nat.le_refl _

theorem sum_monthLength (y : Nat) :
    ((List.range 12).map fun i => monthLength y (i + 1)).sum = yearLength y := by
  rw [yearLength]
  cases h : isLeap y <;> simp [List.range_succ, monthLength, h]

/-- The days of a year before a date in it are fewer than it has. -/
theorem dayOfYear_lt (h : ValidDate y m d) :
    ((List.range (m - 1)).map fun i => monthLength y (i + 1)).sum + (d - 1) < yearLength y := by
  obtain ⟨-, ⟨hm, hm12⟩, hd, hlength⟩ := h
  have hsum := sum_add_le (fun i => monthLength y (i + 1)) (by omega : m - 1 < m)
  rw [Nat.sub_add_cancel hm] at hsum
  have hle : ((List.range m).map fun i => monthLength y (i + 1)).sum ≤ yearLength y := by
    rw [← sum_monthLength]
    rcases Nat.lt_or_eq_of_le hm12 with hlt | rfl
    · have hyear := sum_add_le (fun i => monthLength y (i + 1)) hlt
      omega
    · exact Nat.le_refl _
  omega

/-- Later dates have later numbers. -/
theorem dayNumber_lt (h : ValidDate y m d) (h' : ValidDate y' m' d')
    (hlt : (y * 100 + m) * 100 + d < (y' * 100 + m') * 100 + d') :
    dayNumber y m d < dayNumber y' m' d' := by
  have hday := dayOfYear_lt h
  obtain ⟨⟨hy, -⟩, ⟨hm, hm12⟩, hd, hlength⟩ := h
  obtain ⟨⟨hy', -⟩, ⟨hm', hm12'⟩, hd', hlength'⟩ := h'
  have h31 := hlength.trans (monthLength_le y m)
  have h31' := hlength'.trans (monthLength_le y' m')
  rw [dayNumber, dayNumber]
  rcases Nat.lt_trichotomy y y' with hyear | rfl | hyear
  · have hsum := sum_add_le (fun i => yearLength (i + 1)) (by omega : y - 1 < y' - 1)
    rw [Nat.sub_add_cancel hy] at hsum
    omega
  · rcases Nat.lt_trichotomy m m' with hmonth | rfl | hmonth
    · have hsum := sum_add_le (fun i => monthLength y (i + 1)) (by omega : m - 1 < m' - 1)
      rw [Nat.sub_add_cancel hm] at hsum
      omega
    · omega
    · omega
  · omega

/-- `datetime.fromisoformat` for a date alone and for a date with a time of day: the time on the
clock in microseconds from the start of the year 1, and the offset if one is given. -/
def fromisoformat (cs : List Char) : Option (Int × Option Int) := do
  let (y, cs) ← number 4 cs
  let cs ← expect '-' cs
  let (m, cs) ← number 2 cs
  let cs ← expect '-' cs
  let (d, cs) ← number 2 cs
  if ValidDate y m d then
    match cs with
    | [] => some (dayNumber y m d * 86400000000, none)
    | _ :: cs =>
      let (t, cs) ← readClock cs
      let zone ← readZone cs
      if ValidTime t.hour t.minute t.second then
        some (dayNumber y m d * 86400000000 + t.total, zone)
      else none
  else none

/-- The digits after a decimal point. -/
structure Fraction where
  width : Nat
  value : Nat
  pos : 0 < width
  le_six : width ≤ 6
  lt : value < 10 ^ width

def Fraction.micros (f : Fraction) : Nat := f.value * 10 ^ (6 - f.width)

inductive Zone where
  | naive
  | z
  | offset (micros : Int) (valid : micros.natAbs < 86400000000)

theorem Zone.utc_valid : (0 : Int).natAbs < 86400000000 := by decide

def Zone.micros : Zone → Option Int
  | naive => none
  | z => some 0
  | offset o _ => some o

/-- `+HH:MM`, with seconds where the offset has any and their fraction where it has one. -/
def offsetText (o : Int) : List Char :=
  let seconds := o.natAbs / 1000000
  (if o < 0 then '-' else '+') :: (pad 2 (seconds / 3600) ++ ':' :: (pad 2 (seconds / 60 % 60) ++
    if o.natAbs % 60000000 = 0 then []
    else ':' :: (pad 2 (seconds % 60) ++
      if o.natAbs % 1000000 = 0 then [] else '.' :: pad 6 (o.natAbs % 1000000))))

/-- The text after the minutes of an offset is read with them. -/
theorem readClock_offset (n : Nat) (h : n < 86400000000) :
    ∃ t : Clock, readClock (pad 2 (n / 1000000 / 3600) ++
        ':' :: (pad 2 (n / 1000000 / 60 % 60) ++
          if n % 60000000 = 0 then []
          else ':' :: (pad 2 (n / 1000000 % 60) ++
            if n % 1000000 = 0 then [] else '.' :: pad 6 (n % 1000000)))) = some (t, []) ∧
      t.total = n := by
  have hh : n / 1000000 / 3600 < 100 := by omega
  have hm : n / 1000000 / 60 % 60 < 100 := by omega
  have hs : n / 1000000 % 60 < 100 := by omega
  split
  next hzero =>
    have hread := readClock_minutes hh hm [] rfl
    refine ⟨_, hread, ?_⟩
    simp only [Clock.total]
    omega
  next =>
    split
    next hzero =>
      have hread := readClock_seconds hh hm hs [] (by simp)
      refine ⟨_, hread, ?_⟩
      simp only [Clock.total]
      omega
    next =>
      have hread := readClock_fraction hh hm hs [] (w := 6) (n := n % 1000000) (by omega)
        (by omega) (by omega) (by simp)
      rw [List.append_nil] at hread
      refine ⟨_, hread, ?_⟩
      simp only [Clock.total]
      omega

theorem readZone_sign (cs : List Char) (hc : c = '+' ∨ c = '-') :
    readZone (c :: cs) = (readClock cs).bind fun p =>
      if p.2 = [] then (timezone c p.1.total).map some else none := by
  rw [readZone, if_pos hc]
  rfl

theorem readZone_cons (hc : c = '+' ∨ c = '-') (hread : readClock cs = some (t, [])) :
    readZone (c :: cs) = (timezone c t.total).map some := by
  rw [readZone_sign cs hc, hread, Option.bind_some, if_pos rfl]

theorem readZone_offsetText (o : Int) (h : o.natAbs < 86400000000) :
    readZone (offsetText o) = some (some o) := by
  obtain ⟨t, hread, ht⟩ := readClock_offset o.natAbs h
  rw [offsetText]
  by_cases hneg : o < 0
  · have habs : -(o.natAbs : Int) = o := by omega
    rw [if_pos hneg, readZone_cons (.inr rfl) hread, ht, timezone, if_pos h, if_pos rfl, habs,
      Option.map_some]
  · have habs : (o.natAbs : Int) = o := by omega
    rw [if_neg hneg, readZone_cons (.inl rfl) hread, ht, timezone, if_pos h,
      if_neg (by decide), habs, Option.map_some]

def Zone.text : Zone → List Char
  | naive => []
  | z => ['Z']
  | offset o _ => offsetText o

/-- A date, a time of day and how they are written. -/
structure Stamp where
  year : Nat
  month : Nat
  day : Nat
  hour : Nat
  minute : Nat
  second : Nat
  blank : Bool := false
  fraction : Option Fraction := none
  zone : Zone
  validDate : ValidDate year month day
  validTime : ValidTime hour minute second

namespace Stamp

def dateText (s : Stamp) : List Char :=
  pad 4 s.year ++ '-' :: (pad 2 s.month ++ '-' :: pad 2 s.day)

def timeText (s : Stamp) : List Char :=
  pad 2 s.hour ++ ':' :: (pad 2 s.minute ++ ':' :: pad 2 s.second)

def fractionText (s : Stamp) : List Char :=
  match s.fraction with
  | none => []
  | some f => '.' :: pad f.width f.value

/-- What follows the seconds. -/
def suffix (s : Stamp) : List Char := s.fractionText ++ s.zone.text

def separator (s : Stamp) : Char := if s.blank then ' ' else 'T'

def text (s : Stamp) : List Char := s.dateText ++ s.separator :: (s.timeText ++ s.suffix)

def clock (s : Stamp) : Clock :=
  { hour := s.hour, minute := s.minute, second := s.second
    micros := (s.fraction.map Fraction.micros).getD 0 }

/-- The time on the clock, in microseconds. -/
def wall (s : Stamp) : Int := dayNumber s.year s.month s.day * 86400000000 + s.clock.total

theorem month_lt (s : Stamp) : s.month < 100 := by
  have h := s.validDate.2.1.2
  omega

theorem day_lt (s : Stamp) : s.day < 100 := by
  have h := s.validDate.2.2.2
  have hlength := monthLength_le s.year s.month
  omega

theorem year_lt (s : Stamp) : s.year < 10 ^ 4 := by
  have h := s.validDate.1.2
  omega

theorem hour_lt (s : Stamp) : s.hour < 100 := s.validTime.1.trans (by omega)

theorem minute_lt (s : Stamp) : s.minute < 100 := s.validTime.2.1.trans (by omega)

theorem second_lt (s : Stamp) : s.second < 100 := s.validTime.2.2.trans (by omega)

/-- A zone that is read back starts with a sign, or is not there. -/
theorem head_offsetText (o : Int) (hc : c ∈ (offsetText o).head?) : c = '+' ∨ c = '-' := by
  rw [offsetText, List.head?_cons, Option.mem_some_iff] at hc
  split at hc
  · exact .inr hc.symm
  · exact .inl hc.symm

theorem readClock_timeText (s : Stamp) (zone : List Char)
    (hzone : ∀ c ∈ zone.head?, c = '+' ∨ c = '-') :
    readClock (s.timeText ++ (s.fractionText ++ zone)) = some (s.clock, zone) := by
  simp only [timeText, List.append_assoc, List.cons_append, fractionText, clock]
  cases s.fraction with
  | none =>
    apply readClock_seconds s.hour_lt s.minute_lt s.second_lt zone
    intro c hc
    rcases hzone c hc with rfl | rfl <;> decide
  | some f =>
    apply readClock_fraction s.hour_lt s.minute_lt s.second_lt zone f.lt f.pos f.le_six
    intro c hc
    rcases hzone c hc with rfl | rfl <;> decide

/-- What is written is read back, where UTC is written as an offset. -/
theorem fromisoformat_text (s : Stamp) (zone : List Char) (offset : Option Int) (c : Char)
    (hzone : ∀ c ∈ zone.head?, c = '+' ∨ c = '-') (hread : readZone zone = some offset) :
    fromisoformat (s.dateText ++ c :: (s.timeText ++ (s.fractionText ++ zone))) =
      some (s.wall, offset) := by
  have hclock := readClock_timeText s zone hzone
  have hvalid : ValidTime s.clock.hour s.clock.minute s.clock.second := s.validTime
  simp [fromisoformat, dateText, number_pad 4 _ s.year_lt, number_two _ s.month_lt,
    number_two _ s.day_lt, expect_self, s.validDate, hclock, hread, hvalid, wall]

end Stamp

/-- Two texts of one length sort as two numbers do. -/
structure Sorts (x x' : List Char) (n n' : Nat) : Prop where
  length : x.length = x'.length
  lt : x < x' ↔ n < n'
  eq : x = x' ↔ n = n'

theorem sorts_pad (w : Nat) (h : n < 10 ^ w) (h' : n' < 10 ^ w) :
    Sorts (pad w n) (pad w n') n n' := by
  rcases Nat.lt_trichotomy n n' with hlt | rfl | hgt
  · have hpad := pad_lt w hlt h'
    have hne : pad w n ≠ pad w n' := by
      intro he
      rw [he] at hpad
      exact List.lt_irrefl _ hpad
    exact ⟨by simp, iff_of_true hpad hlt, iff_of_false hne hlt.ne⟩
  · exact ⟨rfl, iff_of_false (List.lt_irrefl _) (Nat.lt_irrefl n), iff_of_true rfl rfl⟩
  · have hpad := pad_lt w hgt h
    have hne : pad w n ≠ pad w n' := by
      intro he
      rw [he] at hpad
      exact List.lt_irrefl _ hpad
    exact ⟨by simp, iff_of_false (List.lt_asymm hpad) (Nat.lt_asymm hgt),
      iff_of_false hne hgt.ne'⟩

/-- A field of two digits further on. -/
theorem Sorts.field (h : Sorts x x' n n') (c : Char) (hm : m < 100) (hm' : m' < 100) :
    Sorts (x ++ c :: pad 2 m) (x' ++ c :: pad 2 m') (n * 100 + m) (n' * 100 + m') := by
  have hpad := sorts_pad 2 hm hm'
  refine ⟨by simp [h.length], ?_, ?_⟩
  · rw [append_lt_append_iff h.length, List.cons_lt_cons_iff, h.lt, h.eq, hpad.lt]
    have hirrefl : ¬ c < c := Char.lt_irrefl c
    simp only [hirrefl, false_or, true_and]
    omega
  · constructor
    · intro he
      obtain ⟨hx, ht⟩ := List.append_inj he h.length
      have hn := h.eq.1 hx
      have hk := hpad.eq.1 (List.cons.inj ht).2
      omega
    · intro he
      rw [h.eq.2 (by omega : n = n'), hpad.eq.2 (by omega : m = m')]

namespace Stamp

/-- The year, the month and the day as one number. -/
def date (s : Stamp) : Nat := (s.year * 100 + s.month) * 100 + s.day

/-- The hour, the minute and the second as one number. -/
def time (s : Stamp) : Nat := (s.hour * 100 + s.minute) * 100 + s.second

theorem sorts_dateText (a b : Stamp) : Sorts a.dateText b.dateText a.date b.date := by
  have h := ((sorts_pad 4 a.year_lt b.year_lt).field '-' a.month_lt b.month_lt).field '-'
    a.day_lt b.day_lt
  rw [List.append_assoc, List.append_assoc] at h
  exact h

theorem sorts_timeText (a b : Stamp) : Sorts a.timeText b.timeText a.time b.time := by
  have h := ((sorts_pad 2 a.hour_lt b.hour_lt).field ':' a.minute_lt b.minute_lt).field ':'
    a.second_lt b.second_lt
  rw [List.append_assoc, List.append_assoc] at h
  exact h

/-- The written date decides, then a blank before a `T`, then the written time, and then the texts
of the fraction and the zone. -/
def Before (a b : Stamp) : Prop :=
  a.date < b.date ∨ a.date = b.date ∧ (a.blank = true ∧ b.blank = false ∨ a.blank = b.blank ∧
    (a.time < b.time ∨ a.time = b.time ∧ a.suffix < b.suffix))

instance (a b : Stamp) : Decidable (a.Before b) := inferInstanceAs (Decidable (_ ∨ _))

theorem separator_lt (a b : Stamp) :
    a.separator < b.separator ↔ a.blank = true ∧ b.blank = false := by
  rw [separator, separator]
  cases a.blank <;> cases b.blank <;> decide

theorem separator_eq (a b : Stamp) : a.separator = b.separator ↔ a.blank = b.blank := by
  rw [separator, separator]
  cases a.blank <;> cases b.blank <;> decide

theorem text_lt_iff (a b : Stamp) : a.text < b.text ↔ a.Before b := by
  have hdate := sorts_dateText a b
  have htime := sorts_timeText a b
  rw [text, text, append_lt_append_iff hdate.length, List.cons_lt_cons_iff,
    append_lt_append_iff htime.length, hdate.lt, hdate.eq, separator_lt, separator_eq, htime.lt,
    htime.eq, Before]

theorem fraction_lt (f : Fraction) : f.micros < 1000000 := by
  have hpow : 10 ^ f.width * 10 ^ (6 - f.width) = 1000000 := by
    rw [← Nat.pow_add, Nat.add_sub_cancel' f.le_six]
  calc f.value * 10 ^ (6 - f.width)
    _ < 10 ^ f.width * 10 ^ (6 - f.width) :=
      Nat.mul_lt_mul_of_pos_right f.lt (Nat.pow_pos (by omega))
    _ = 1000000 := hpow

theorem clock_micros_lt (s : Stamp) : s.clock.micros < 1000000 := by
  rw [clock]
  cases s.fraction with
  | none => exact Nat.zero_lt_succ _
  | some f => exact fraction_lt f

/-- A stamp as `isoformat` writes it, with six digits of a fraction or none. -/
def Iso (s : Stamp) : Prop := ∀ f ∈ s.fraction, f.width = 6

/-- A longer fraction sorts later, since a sign sorts before the point. -/
theorem suffix_lt {a b : Stamp} (ha : a.Iso) (hb : b.Iso) (hzone : a.zone = b.zone)
    (hsign : ∀ c ∈ a.zone.text.head?, c = '+' ∨ c = '-')
    (h : a.clock.micros < b.clock.micros) : a.suffix < b.suffix := by
  rw [suffix, suffix, ← hzone]
  simp only [Iso, clock, fractionText] at ha hb h ⊢
  cases hfa : a.fraction with
  | none =>
    cases hfb : b.fraction with
    | none =>
      rw [hfa, hfb] at h
      exact absurd h (Nat.lt_irrefl _)
    | some g =>
      rw [List.nil_append, List.cons_append]
      cases hz : a.zone.text with
      | nil => exact List.nil_lt_cons _ _
      | cons c rest =>
        rw [List.cons_lt_cons_iff]
        left
        rcases hsign c (by rw [hz, List.head?_cons]; rfl) with rfl | rfl <;> decide
  | some f =>
    cases hfb : b.fraction with
    | none =>
      rw [hfb] at h
      exact absurd h (Nat.not_lt_zero _)
    | some g =>
      have hf := ha f hfa
      have hg := hb g hfb
      have hflt := f.lt
      have hglt := g.lt
      rw [hfa, hfb] at h
      simp only [Option.map_some, Option.getD_some, Fraction.micros, hf, hg] at h
      rw [hf] at hflt
      rw [hg] at hglt
      dsimp only
      rw [List.cons_append, List.cons_append, List.cons_lt_cons_iff, hf, hg,
        append_lt_append_iff (by rw [length_pad, length_pad]), (sorts_pad 6 hflt hglt).lt]
      exact .inr ⟨rfl, .inl (by omega)⟩

/-- Of two stamps written by `isoformat` with one separator and one zone, the one with the earlier
time on its clock is written first. -/
theorem before_of_wall_lt {a b : Stamp} (ha : a.Iso) (hb : b.Iso) (hblank : a.blank = b.blank)
    (hzone : a.zone = b.zone) (hsign : ∀ c ∈ a.zone.text.head?, c = '+' ∨ c = '-')
    (h : a.wall < b.wall) : a.Before b := by
  have hma := a.clock_micros_lt
  have hmb := b.clock_micros_lt
  obtain ⟨hha, hmina, hsa⟩ := a.validTime
  obtain ⟨hhb, hminb, hsb⟩ := b.validTime
  have ha_day : a.day < 100 := a.day_lt
  have hb_day : b.day < 100 := b.day_lt
  have ha_month : a.month < 100 := a.month_lt
  have hb_month : b.month < 100 := b.month_lt
  simp only [wall, Clock.total] at h
  have hca : a.clock.hour = a.hour ∧ a.clock.minute = a.minute ∧ a.clock.second = a.second :=
    ⟨rfl, rfl, rfl⟩
  have hcb : b.clock.hour = b.hour ∧ b.clock.minute = b.minute ∧ b.clock.second = b.second :=
    ⟨rfl, rfl, rfl⟩
  rw [hca.1, hca.2.1, hca.2.2, hcb.1, hcb.2.1, hcb.2.2] at h
  rcases Nat.lt_trichotomy a.date b.date with hdate | hdate | hdate
  · exact .inl hdate
  · refine .inr ⟨hdate, .inr ⟨hblank, ?_⟩⟩
    rw [date, date] at hdate
    have hday : dayNumber a.year a.month a.day = dayNumber b.year b.month b.day := by
      rw [show a.year = b.year by omega, show a.month = b.month by omega,
        show a.day = b.day by omega]
    rw [hday] at h
    rcases Nat.lt_trichotomy a.time b.time with htime | htime | htime
    · exact .inl htime
    · refine .inr ⟨htime, suffix_lt ha hb hzone hsign ?_⟩
      rw [time, time] at htime
      omega
    · rw [time, time] at htime
      omega
  · have hday := dayNumber_lt b.validDate a.validDate hdate
    omega

end Stamp

end IsoFormat
