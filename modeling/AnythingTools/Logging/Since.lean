import AnythingTools.IsoOffset
import AnythingTools.StockFinancials.Cashflow

namespace Logging
open Calendar IsoFormat
set_option autoImplicit true

/-! ### The argument -/

/-- Characters that `str.isdigit` takes for digits and `int` does not. -/
def otherDigits : List (Nat × Nat) :=
  [(178, 179), (185, 185), (4969, 4977), (6618, 6618), (8304, 8304), (8308, 8313), (8320, 8329),
    (9312, 9320), (9332, 9340), (9352, 9360), (9450, 9450), (9461, 9469), (9471, 9471),
    (10102, 10110), (10112, 10120), (10122, 10130), (68160, 68163), (69216, 69224), (69714, 69722),
    (127232, 127242)]

/-- `str.isdigit`. -/
def isdigit (s : List Char) : Bool :=
  !s.isEmpty && s.all fun c => StockNotes.isDecimal c ||
    otherDigits.any fun r => decide (r.1 ≤ c.toNat) && decide (c.toNat ≤ r.2)

inductive SinceError where
  | indexError
  | valueError
  | overflowError
  | argumentTypeError (since : String)
deriving DecidableEq, Repr

/-- The seconds of a unit of time. -/
def unitSeconds : Char → Option Nat
  | 'm' => some 60
  | 'h' => some 3600
  | 'd' => some 86400
  | 'w' => some 604800
  | _ => none

/-- `datetime.now(timezone.utc) - delta`. A span that `timedelta` refuses is too long as well. -/
def ago (now : Instant) (seconds : Int) : Except SinceError Aware :=
  if h : 0 ≤ seconds ∧ seconds * 1000000 ≤ now.micros then
    .ok (.utc ⟨now.micros - seconds.toNat * 1000000, by
      have hvalid := now.valid
      omega⟩)
  else .error .overflowError

/-- What `datetime.fromisoformat` reads: a time of the calendar and its offset, if there is one. -/
structure Datetime where
  wall : Instant
  tzinfo : Option Int
  valid : ∀ o ∈ tzinfo, o.natAbs < 86400000000

/-- `dt.replace(tzinfo=timezone.utc)` where there is no offset. -/
def Datetime.orUtc (dt : Datetime) : Aware :=
  match h : dt.tzinfo with
  | none => .utc dt.wall
  | some o => ⟨dt.wall, o, dt.valid o (by rw [h]; rfl)⟩

/-- The point in time of a `--since` value, with the offset it is given in. What
`datetime.fromisoformat` reads depends on the version of Python. -/
def readSince (fromisoformat : String → Option Datetime) (now : Instant) (since : String) :
    Except SinceError Aware :=
  let since := Sync.strip since
  match since.toList.getLast? with
  | none => .error .indexError
  | some last =>
    let digits := since.toList.dropLast
    match unitSeconds last, isdigit digits with
    | some unit, true =>
      match StockFinancials.intOf (String.ofList digits) with
      | none => .error .valueError
      | some n => if 4300 < digits.length then .error .valueError else ago now (n * unit)
    | _, _ =>
      match fromisoformat since with
      | some dt => .ok dt.orUtc
      | none => .error (.argumentTypeError since)

def parseSince (fromisoformat : String → Option Datetime) (now : Instant) (since : Option String) :
    Except SinceError (Option String) :=
  match since with
  | none => .ok none
  | some s =>
    if s = "" then .ok none
    else (readSince fromisoformat now s).map fun a => some a.isoformat

/-! ### The query -/

/-- The arguments of `_build_where`. -/
structure Filters where
  level : Option String := none
  tagPrefix : Option String := none
  jobId : Option String := none
  since : Option String := none
  search : Option String := none
  searchPayload : Bool := false

inductive Clause where
  | levelIn (levels : List String)
  | levelIs (level : String)
  | tagLike (pattern : String)
  | jobIs (jobId : String)
  | timestampFrom (since : String)
  | messageLike (pattern : String)
  | messageOrPayloadLike (pattern : String)
deriving DecidableEq

namespace Clause

def sql : Clause → String
  | levelIn levels => "level IN (" ++ ",".intercalate (levels.map fun _ => "?") ++ ")"
  | levelIs _ => "level = ?"
  | tagLike _ => "tag LIKE ?"
  | jobIs _ => "job_id = ?"
  | timestampFrom _ => "timestamp >= ?"
  | messageLike _ => "LOWER(message) LIKE LOWER(?)"
  | messageOrPayloadLike _ => "(LOWER(message) LIKE LOWER(?) OR LOWER(payload_json) LIKE LOWER(?))"

def params : Clause → List String
  | levelIn levels => levels
  | levelIs level => [level]
  | tagLike pattern => [pattern]
  | jobIs jobId => [jobId]
  | timestampFrom since => [since]
  | messageLike pattern => [pattern]
  | messageOrPayloadLike pattern => [pattern, pattern]

end Clause

def levelOrder : List (String × Nat) :=
  [("DEBUG", 1), ("INFO", 2), ("WARNING", 3), ("ERROR", 4), ("CRITICAL", 5)]

/-- `str.upper`. Outside ASCII only the dotless i becomes a letter of a level. -/
def upper (s : String) : String :=
  String.ofList (s.toList.map fun c => if c = 'ı' then 'I' else c.toUpper)

/-- A string that counts as true. -/
def given : Option String → Option String
  | some s => if s = "" then none else some s
  | none => none

def levelClause (level : String) : Clause :=
  match levelOrder.lookup (upper level) with
  | some threshold => .levelIn ((levelOrder.filter fun l => decide (threshold ≤ l.2)).map Prod.fst)
  | none => .levelIs level

/-- `tag_prefix.rstrip(":") + ":%"`. -/
def tagPattern (tagPrefix : String) : String :=
  String.ofList (tagPrefix.toList.reverse.dropWhile (· = ':')).reverse ++ ":%"

def clauses (f : Filters) : List Clause :=
  ((given f.level).map levelClause).toList ++
    ((given f.tagPrefix).map fun tagPrefix => .tagLike (tagPattern tagPrefix)).toList ++
    ((given f.jobId).map .jobIs).toList ++
    ((given f.since).map .timestampFrom).toList ++
    ((given f.search).map fun search =>
      if f.searchPayload then Clause.messageOrPayloadLike ("%" ++ search ++ "%")
      else .messageLike ("%" ++ search ++ "%")).toList

def buildWhere (f : Filters) : String × List String :=
  let cs := clauses f
  (if cs = [] then "" else " WHERE " ++ " AND ".intercalate (cs.map Clause.sql),
    cs.flatMap Clause.params)

/-! ### The rows -/

/-- What the query reads of a row of `logs`, and the time that `dual_log` stamps it with. -/
structure LogRow where
  stamped : Instant
  jobId : Option String
  tag : String
  level : String
  message : String
  payloadJson : Option String

/-- `datetime.now(timezone.utc).isoformat()`. -/
def LogRow.timestamp (r : LogRow) : String := isoformat r.stamped

/-- `LIKE` of SQLite, which ignores the case of ASCII letters; the pattern comes first. -/
def like : List Char → List Char → Bool
  | [], text => text.isEmpty
  | '%' :: p, [] => like p []
  | '%' :: p, c :: text => like p (c :: text) || like ('%' :: p) text
  | _ :: _, [] => false
  | '_' :: p, _ :: text => like p text
  | d :: p, c :: text => d.toLower == c.toLower && like p text
termination_by p text => (p.length, text.length)

def isLike (pattern text : String) : Bool := like pattern.toList text.toList

/-- `LOWER(text) LIKE LOWER(pattern)`. -/
def lowerLike (pattern text : String) : Bool :=
  like (pattern.toList.map Char.toLower) (text.toList.map Char.toLower)

def Clause.holds (r : LogRow) : Clause → Bool
  | levelIn levels => decide (r.level ∈ levels)
  | levelIs level => decide (r.level = level)
  | tagLike pattern => isLike pattern r.tag
  | jobIs jobId => decide (r.jobId = some jobId)
  | timestampFrom since => decide (since ≤ r.timestamp)
  | messageLike pattern => lowerLike pattern r.message
  | messageOrPayloadLike pattern =>
    lowerLike pattern r.message || r.payloadJson.any (lowerLike pattern)

/-- The rows that the `WHERE` clause selects. -/
def selectRows (f : Filters) (rows : List LogRow) : List LogRow :=
  rows.filter fun r => (clauses f).all (Clause.holds r)

/-! ### What `--since` selects -/

/-- With the since value, of the rows that the other filters select, those at or after its point in
time. -/
def SelectsSince (f : Filters) (a : Aware) (rows : List LogRow) : Prop :=
  selectRows { f with since := some a.isoformat } rows =
    (selectRows { f with since := none } rows).filter fun r => decide (a.instant ≤ r.stamped.micros)

/-- The row lies between the point in time of the since value and what its clock shows, read in
UTC. -/
def Between (a : Aware) (r : LogRow) : Prop :=
  0 < a.offset ∧ a.instant ≤ r.stamped.micros ∧ r.stamped.micros ≤ a.wall.micros ∨
    a.offset < 0 ∧ a.wall.micros < r.stamped.micros ∧ r.stamped.micros < a.instant

instance (a : Aware) (r : LogRow) : Decidable (Between a r) :=
  inferInstanceAs (Decidable (_ ∨ _))

/-- The text of a row is compared with that of the since value. -/
theorem from_iff (a : Aware) (r : LogRow) :
    (a.isoformat ≤ r.timestamp ↔ a.instant ≤ r.stamped.micros) ↔ ¬ Between a r := by
  rw [LogRow.timestamp, Aware.le_utc_iff, Between, Aware.instant]
  omega

theorem isoformat_ne_empty (a : Aware) : a.isoformat ≠ "" := by
  intro h
  have hlength := congrArg (fun s => s.toList.length) h
  simp [Aware.isoformat] at hlength

/-- The clause of the since value is one of several that all hold. -/
theorem all_clauses (f : Filters) (a : Aware) (r : LogRow) :
    (clauses { f with since := some a.isoformat }).all (Clause.holds r) =
      ((clauses { f with since := none }).all (Clause.holds r) &&
        decide (a.isoformat ≤ r.timestamp)) := by
  have hgiven : given (some a.isoformat) = some a.isoformat := if_neg (isoformat_ne_empty a)
  simp only [clauses, hgiven, List.all_append]
  simp only [given, Option.map_some, Option.map_none, Option.toList_some, Option.toList_none,
    List.all_cons, List.all_nil, Clause.holds, Bool.and_true]
  rw [Bool.and_right_comm]

theorem selectRows_since (f : Filters) (a : Aware) (rows : List LogRow) :
    selectRows { f with since := some a.isoformat } rows =
      (selectRows { f with since := none } rows).filter fun r =>
        decide (a.isoformat ≤ r.timestamp) := by
  rw [selectRows, selectRows, List.filter_filter]
  apply List.filter_congr
  intro r _
  rw [all_clauses, Bool.and_comm]

theorem filter_eq_iff {p q : α → Bool} {l : List α} :
    l.filter p = l.filter q ↔ ∀ a ∈ l, (p a = true ↔ q a = true) := by
  constructor
  · intro h a ha
    have hmem : a ∈ l.filter p ↔ a ∈ l.filter q := by rw [h]
    rw [List.mem_filter, List.mem_filter] at hmem
    simpa only [ha, true_and] using hmem
  · intro h
    apply List.filter_congr
    intro a ha
    rw [Bool.eq_iff_iff]
    exact h a ha

theorem selectsSince_iff (f : Filters) (a : Aware) (rows : List LogRow) :
    SelectsSince f a rows ↔ ∀ r ∈ selectRows { f with since := none } rows, ¬ Between a r := by
  rw [SelectsSince, selectRows_since, filter_eq_iff]
  simp only [decide_eq_true_eq, from_iff]

/-- An accepted since value selects the rows at or after its point in time, whatever else is asked
for, exactly if none of the rows lies between that and its clock. -/
theorem parseSince_selects_iff (fromisoformat : String → Option Datetime) (now : Instant)
    (since text : String) (h : parseSince fromisoformat now (some since) = .ok (some text)) :
    ∃ a, readSince fromisoformat now since = .ok a ∧ a.isoformat = text ∧
      ∀ f rows, SelectsSince f a rows ↔
        ∀ r ∈ selectRows { f with since := none } rows, ¬ Between a r := by
  rw [parseSince] at h
  split at h
  next => cases h
  next =>
    cases hread : readSince fromisoformat now since with
    | error e =>
      rw [hread] at h
      cases h
    | ok a =>
      rw [hread] at h
      exact ⟨a, rfl, Option.some.inj (Except.ok.inj h), fun f rows => selectsSince_iff f a rows⟩

/-- In UTC the texts sort as the times do. -/
theorem selectsSince_of_utc (h : a.offset = 0) (f : Filters) (rows : List LogRow) :
    SelectsSince f a rows := by
  rw [selectsSince_iff]
  intro r _ hbetween
  rw [Between, h] at hbetween
  omega

/-- `datetime.fromisoformat` for dates and times in the extended format. -/
def isoDatetime (s : String) : Option Datetime :=
  match fromisoformat s.toList with
  | none => none
  | some (wall, tzinfo) =>
    if h : wall.toNat / 1000000 / 86400 < days ∧ ∀ o ∈ tzinfo, o.natAbs < 86400000000 then
      some ⟨⟨wall.toNat, h.1⟩, tzinfo, h.2⟩
    else none

deriving instance DecidableEq for Instant, Aware

/-- The first of May 2024, so many hours after midnight. -/
def may1At (hour : Nat) (h : hour < 24) : Instant where
  micros := (739006 * 86400 + hour * 3600) * 1000000
  valid := by
    have hdays := days_eq
    omega

def noonInBerlin : Aware := ⟨may1At 12 (by decide), 7200000000, by decide⟩

/-- A row of an hour later than noon in Berlin. -/
def laterRow : LogRow where
  stamped := may1At 11 (by decide)
  jobId := none
  tag := "Worker:Manager:Poll"
  level := "ERROR"
  message := "DB poll failed"
  payloadJson := none

/-- The row is at or after the point in time, and is not selected. -/
theorem later_row_missed :
    readSince isoDatetime (may1At 13 (by decide)) "2024-05-01T12:00:00+02:00" = .ok noonInBerlin ∧
      ¬ SelectsSince {} noonInBerlin [laterRow] := by
  refine ⟨by decide +kernel, ?_⟩
  intro h
  have hlength := congrArg List.length h
  exact absurd hlength (by decide +kernel)

theorem parseSince_selects_twoHours :
    ∃ a, readSince isoDatetime (may1At 13 (by decide)) "2h" = .ok a ∧
      a.isoformat = "2024-05-01T11:00:00+00:00" ∧
      ∀ f rows, SelectsSince f a rows ↔
        ∀ r ∈ selectRows { f with since := none } rows, ¬ Between a r :=
  parseSince_selects_iff isoDatetime (may1At 13 (by decide)) "2h" "2024-05-01T11:00:00+00:00"
    (by decide +kernel)

end Logging
