import AnythingTools.Machine
import AnythingTools.Sync.SyncEngine

namespace Sync
open Relational Relational.Database Schemas
set_option autoImplicit true

variable {tables : List (String × TableDdl)}

/-- A moment of the clock, in UTC. -/
structure Moment where
  year : Nat
  month : Nat
  day : Nat
  hour : Nat
  minute : Nat
  second : Nat
  microsecond : Nat := 0
deriving DecidableEq, Repr

/-- A decimal numeral with leading zeros. -/
def padded (width n : Nat) : List Char :=
  let ds := Nat.toDigits 10 n
  List.replicate (width - ds.length) '0' ++ ds

def Moment.date (m : Moment) : List Char :=
  padded 4 m.year ++ '-' :: padded 2 m.month ++ '-' :: padded 2 m.day

def Moment.time (m : Moment) : List Char :=
  padded 2 m.hour ++ ':' :: padded 2 m.minute ++ ':' :: padded 2 m.second

/-- `CURRENT_TIMESTAMP`. -/
def currentTimestamp (m : Moment) : String := String.ofList (m.date ++ ' ' :: m.time)

/-- `datetime.now(timezone.utc).isoformat()`. -/
def isoformat (m : Moment) : String :=
  String.ofList (m.date ++ 'T' :: m.time ++
    (if m.microsecond = 0 then [] else '.' :: padded 6 m.microsecond) ++ "+00:00".toList)

theorem text_lt {s s' : String} (h : s.toList.map Char.toNat < s'.toList.map Char.toNat) :
    (Value.text s).sortKey < (Value.text s').sortKey := List.cons_lt_cons_self.2 h

/-- On one day the text of SQLite comes before the one of Python, whatever the hours are. -/
theorem currentTimestamp_lt_isoformat {m w : Moment} (h : m.date = w.date) :
    (Value.text (currentTimestamp m)).sortKey < (Value.text (isoformat w)).sortKey := by
  apply text_lt
  rw [currentTimestamp, isoformat, String.toList_ofList, String.toList_ofList, h,
    List.append_assoc, List.append_assoc, List.map_append, List.map_append]
  apply List.append_left_lt
  have hsep : ' '.toNat < 'T'.toNat := by decide
  exact List.Lex.rel hsep

/-- How a write of the program dates its rows. -/
inductive Stamp where
  | sqlite (m : Moment)
  | python (m : Moment)
deriving DecidableEq, Repr

def Stamp.text : Stamp → String
  | .sqlite m => currentTimestamp m
  | .python m => isoformat m

/-- A table with the version of one of its rows. -/
abbrev Version := String × Row

/-- A ledger entry on its way to the writer, and what the diff of its run has read. -/
structure Completed where
  nowIso : String
  pushedTotal : Nat
  seen : List Version

inductive Phase where
  | idle
  | analysing (todo : List (String × TableDdl)) (pending : Nat)
  | pushing (todo : List String) (seen : List Version)
deriving DecidableEq

/-- The local database, the run of `sync_all`, the ledger entries in the writer's queue, and the
versions that the diffs of completed runs have read. -/
structure SyncState where
  db : Database
  phase : Phase := .idle
  queue : List Completed := []
  seen : List Version := []

inductive SyncStep where
  | write (db' : Database) (stamp : Stamp)
  | begin
  | analyse (counted : Bool)
  | abandon
  | skip
  | push
  | diff (read : Bool)
  | retry
  | fail
  | finish (now : Moment) (pushedTotal : Nat) (queued : Bool)
  | ledger (now : String)

/-- A local write dates every row version that it brings, and leaves the ledger alone. -/
def dated (tables : List (String × TableDdl)) (db db' : Database) (stamp : Stamp) : Bool :=
  decide (db'.rows "sync_ledger" = db.rows "sync_ledger") &&
    (triadTables tables).all fun t => (db'.rows t).all fun r =>
      decide (r ∈ db.rows t) || decide (r.get "updated_at" = .text stamp.text)

def syncStep (tables : List (String × TableDdl)) (s : SyncState) : SyncStep → Option SyncState
  | .write db' stamp => if dated tables s.db db' stamp = true then some { s with db := db' } else none
  | .begin =>
    match s.phase with
    | .idle => some { s with phase := .analysing (tables.filter fun p => !isVirtual p.2) 0 }
    | _ => none
  | .analyse counted =>
    match s.phase with
    | .analysing (p :: todo) pending =>
      -- a table whose queries fail counts for nothing
      let pendingCount := if counted then pendingDeltaRows s.db true p else 0
      some { s with phase := .analysing todo (pending + pendingCount) }
    | _ => none
  | .abandon =>
    match s.phase with
    | .analysing _ pending => some { s with phase := .analysing [] pending }
    | _ => none
  | .skip =>
    match s.phase with
    | .analysing [] 0 => some { s with phase := .idle }
    | _ => none
  | .push =>
    match s.phase with
    | .analysing [] (_ + 1) => some { s with phase := .pushing (pushedTables tables) [] }
    | _ => none
  | .diff read =>
    match s.phase with
    | .pushing (t :: todo) seen =>
      let manifest := if read then (s.db.rows t).map fun r => (t, r) else []
      some { s with phase := .pushing todo (seen ++ manifest) }
    | _ => none
  | .retry =>
    match s.phase with
    | .pushing _ _ => some { s with phase := .pushing (pushedTables tables) [] }
    | _ => none
  | .fail =>
    match s.phase with
    | .pushing _ _ => some { s with phase := .idle }
    | _ => none
  | .finish now pushedTotal queued =>
    match s.phase with
    | .pushing [] seen =>
      some { s with
        phase := .idle
        queue := if queued then s.queue ++ [⟨isoformat now, pushedTotal, seen⟩] else s.queue }
    | _ => none
  | .ledger now =>
    match s.queue with
    | c :: queue =>
      match s.db.exec now (.replace "sync_ledger" (ledgerEntry c.nowIso c.pushedTotal)) with
      | .ok db' => some { s with db := db', queue, seen := s.seen ++ c.seen }
      | .error _ => some { s with queue }
    | [] => none

/-- Before anything happened. -/
def Fresh (tables : List (String × TableDdl)) (s : SyncState) : Prop :=
  s.phase = .idle ∧ s.queue = [] ∧ s.db.rows "sync_ledger" = [] ∧
    ∀ t ∈ triadTables tables, s.db.rows t = []

/-- A run that is about to skip has nothing to push: every version there is was read by the diff
of a completed run. -/
def SkipsSoundly (tables : List (String × TableDdl)) (s : SyncState) : Prop :=
  s.phase = .analysing [] 0 →
    ∀ t ∈ triadTables tables, ∀ r ∈ s.db.rows t, (t, r) ∈ s.seen

instance : Decidable (Fresh tables s) := inferInstanceAs (Decidable (_ ∧ _ ∧ _ ∧ _))

instance : Decidable (SkipsSoundly tables s) := inferInstanceAs (Decidable (_ → _))

/-- Above the first watermark and every completion time that counts for the table. -/
def AboveLedger (db : Database) (t : String) (v : Value) : Prop :=
  defaultWatermark.sortKey < v.sortKey ∧ ∀ c ∈ completedAt db t, c.sortKey < v.sortKey

instance : Decidable (AboveLedger db t v) := inferInstanceAs (Decidable (_ ∧ _))

def AllSeen (s : SyncState) (t : String) : Prop := ∀ r ∈ s.db.rows t, (t, r) ∈ s.seen

instance : Decidable (AllSeen s t) := inferInstanceAs (Decidable (∀ _ ∈ _, _))

/-- No running analysis that has found nothing yet is done with the table. -/
def NotYetCounted (s : SyncState) (t : String) : Bool :=
  match s.phase with
  | .analysing todo 0 => decide (t ∈ todo.map Prod.fst)
  | _ => true

/-- The tables that an analysis without result leaves out at this step have been read as they are:
one whose queries fail, or all that are left when it is abandoned. -/
def leftOut (s : SyncState) : SyncStep → List String
  | .analyse false =>
    match s.phase with
    | .analysing (p :: _) 0 => [p.1]
    | _ => []
  | .abandon =>
    match s.phase with
    | .analysing todo 0 => todo.map Prod.fst
    | _ => []
  | _ => []

/-- A new version is above the watermark of its table and comes before the table is counted. -/
def WrittenAbove (tables : List (String × TableDdl)) (s : SyncState) (db' : Database) : Prop :=
  ∀ t ∈ triadTables tables, ∀ r ∈ db'.rows t, r ∈ s.db.rows t ∨ (t, r) ∈ s.seen ∨
    AboveLedger s.db t (r.get "updated_at") ∧ NotYetCounted s t = true

instance : Decidable (WrittenAbove tables s db') := inferInstanceAs (Decidable (∀ _ ∈ _, _))

/-- What a run has not read is above the time that it is stamped with. -/
def StampedBelow (tables : List (String × TableDdl)) (s : SyncState) (c : Completed) : Prop :=
  ∀ t ∈ triadTables tables, ∀ r ∈ s.db.rows t, (t, r) ∈ s.seen ∨ (t, r) ∈ c.seen ∨
    (Value.text c.nowIso).sortKey < (r.get "updated_at").sortKey

instance : Decidable (StampedBelow tables s c) := inferInstanceAs (Decidable (∀ _ ∈ _, _))

/-- The condition on one step. -/
def Sound (tables : List (String × TableDdl)) (s : SyncState) : SyncStep → Prop
  | .write db' _ => WrittenAbove tables s db'
  | .ledger _ => ∀ c ∈ s.queue.head?, StampedBelow tables s c
  | a => ∀ t ∈ leftOut s a, t ∈ triadTables tables → AllSeen s t

instance : Decidable (Sound tables s a) :=
  match a with
  | .write _ _ => inferInstanceAs (Decidable (WrittenAbove _ _ _))
  | .ledger _ => inferInstanceAs (Decidable (∀ _ ∈ _, _))
  | .begin => inferInstanceAs (Decidable (∀ _ ∈ _, _))
  | .analyse _ => inferInstanceAs (Decidable (∀ _ ∈ _, _))
  | .abandon => inferInstanceAs (Decidable (∀ _ ∈ _, _))
  | .skip => inferInstanceAs (Decidable (∀ _ ∈ _, _))
  | .push => inferInstanceAs (Decidable (∀ _ ∈ _, _))
  | .diff _ => inferInstanceAs (Decidable (∀ _ ∈ _, _))
  | .retry => inferInstanceAs (Decidable (∀ _ ∈ _, _))
  | .fail => inferInstanceAs (Decidable (∀ _ ∈ _, _))
  | .finish _ _ _ => inferInstanceAs (Decidable (∀ _ ∈ _, _))

/-- Every version is read by a completed run or above its watermark, and what a fruitless analysis
is done with is read. -/
structure Covered (tables : List (String × TableDdl)) (s : SyncState) : Prop where
  rows : ∀ t ∈ triadTables tables, ∀ r ∈ s.db.rows t,
    (t, r) ∈ s.seen ∨ AboveLedger s.db t (r.get "updated_at")
  counted : ∀ todo, s.phase = .analysing todo 0 →
    ∀ t ∈ triadTables tables, t ∉ todo.map Prod.fst → AllSeen s t

theorem pending_of_above (h : AboveLedger db t (r.get "updated_at")) :
    isPending (getTableWatermark db t) r = true := by
  have hd : isPending defaultWatermark r = true := by
    rw [isPending, sqlLt, decide_eq_true h.1]
    rfl
  rw [getTableWatermark]
  split
  next ht =>
    rcases sqlMax_mem (completedAt db t) with hm | hm
    · rw [hm] at ht
      cases ht
    · have hne : sqlMax (completedAt db t) ≠ .null := by
        intro hn
        rw [hn] at ht
        cases ht
      rw [isPending, sqlLt, decide_eq_true hne, decide_eq_true (h.2 _ hm)]
      rfl
  next => exact hd

/-- A version dated by SQLite on the day of a completed run is not pending. -/
theorem same_day_not_pending {m w : Moment} (hw : ∀ c ∈ completedAt db t, ∃ s, c = .text s)
    (hc : .text (isoformat w) ∈ completedAt db t) (hd : m.date = w.date)
    (hu : r.get "updated_at" = .text (currentTimestamp m)) :
    isPending (getTableWatermark db t) r = false := by
  have hlt := currentTimestamp_lt_isoformat hd
  have hmax : ¬ (sqlMax (completedAt db t)).sortKey < (Value.text (isoformat w)).sortKey := by
    intro h
    exact lt_irrefl _ ((sqlMax_lt (List.nil_lt_cons _ _)).1 h _ hc)
  rcases sqlMax_mem (completedAt db t) with hm | hm
  · rw [hm] at hmax
    exact (hmax (List.nil_lt_cons _ _)).elim
  · obtain ⟨s, hs⟩ := hw _ hm
    rw [hs] at hmax
    have hne : s ≠ "" := by
      intro he
      subst he
      apply hmax
      refine lt_of_le_of_lt (not_lt.1 fun hl => ?_) hlt
      exact List.not_lt_nil _ (List.cons_lt_cons_self.1 hl)
    have htruthy : Python.truthy (.text s) = true := decide_eq_true hne
    rw [getTableWatermark, hs, if_pos htruthy, isPending, hu, sqlLt, Bool.and_eq_false_iff]
    right
    exact decide_eq_false fun h => hmax (h.trans hlt)

/-- A table that counts for nothing has been read as it is. -/
theorem allSeen_of_no_pending (hs : Covered tables s) (ht : p.1 ∈ triadTables tables)
    (hp : pendingDeltaRows s.db true p = 0) : AllSeen s p.1 := by
  intro r hr
  obtain ⟨T, hT, hm⟩ := mem_rows hr
  rw [pendingDeltaRows, hT] at hp
  dsimp only at hp
  split at hp
  · rcases hs.rows p.1 ht r hr with hseen | habove
    · exact hseen
    · have hnot := List.countP_eq_zero.1 hp r hm
      rw [if_pos rfl] at hnot
      exact (hnot (pending_of_above habove)).elim
  · rw [List.length_eq_zero_iff] at hp
    rw [hp] at hm
    cases hm

theorem completedAt_congr (h : db'.rows "sync_ledger" = db.rows "sync_ledger") (t : String) :
    completedAt db' t = completedAt db t := by
  rw [completedAt, completedAt, h]

theorem covered_write (h : dated tables s.db db' stamp = true) (hc : WrittenAbove tables s db')
    (hs : Covered tables s) : Covered tables { s with db := db' } := by
  rw [dated, Bool.and_eq_true, decide_eq_true_eq] at h
  have hledger (t : String) (v : Value) (ha : AboveLedger s.db t v) : AboveLedger db' t v := by
    rw [AboveLedger, completedAt_congr h.1]
    exact ha
  constructor
  · intro t ht r hr
    rcases hc t ht r hr with hold | hseen | ⟨habove, _⟩
    · exact (hs.rows t ht r hold).imp_right (hledger t _)
    · exact .inl hseen
    · exact .inr (hledger t _ habove)
  · intro todo hph t ht hn r hr
    rcases hc t ht r hr with hold | hseen | ⟨_, hnot⟩
    · exact hs.counted todo hph t ht hn r hold
    · exact hseen
    · change s.phase = _ at hph
      rw [NotYetCounted, hph] at hnot
      exact (hn (of_decide_eq_true hnot)).elim

/-- A change of phase alone. -/
theorem covered_phase {ph : Phase} (hs : Covered tables s)
    (hph : ∀ todo, ph = .analysing todo 0 →
      ∀ t ∈ triadTables tables, t ∉ todo.map Prod.fst → AllSeen s t) :
    Covered tables { s with phase := ph } where
  rows := hs.rows
  counted := hph

theorem mem_triadTables_map (ht : t ∈ triadTables tables) :
    t ∈ (tables.filter fun p => !isVirtual p.2).map Prod.fst := by
  obtain ⟨p, hp, he⟩ := List.mem_map.1 ht
  obtain ⟨hm, hb⟩ := List.mem_filter.1 hp
  rw [Bool.and_eq_true] at hb
  exact List.mem_map.2 ⟨p, List.mem_filter.2 ⟨hm, hb.1⟩, he⟩

theorem completed_coerce (S : Schema) (now nowIso : String) (n : Nat) :
    (S.coerce now (ledgerEntry nowIso n)).get "completed_at" = .null ∨
      (S.coerce now (ledgerEntry nowIso n)).get "completed_at" = .text nowIso := by
  rw [Schema.coerce, Row.get_build]
  split
  · split
    · exact .inl rfl
    · right
      rw [if_pos]
      · rfl
      · refine ⟨?_, ?_⟩
        · change "completed_at" ∈ ["operation_id", "table_name", "direction", "row_count", "state",
            "completed_at"]
          decide
        · intro h
          cases h.2
  · exact .inl rfl

/-- A ledger entry adds its own time to those that count, and no row to the other tables. -/
theorem ledger_entry (h : exec now db (.replace "sync_ledger" (ledgerEntry nowIso n)) = .ok db')
    (hl : t ≠ "sync_ledger") : (∀ r ∈ db'.rows t, r ∈ db.rows t) ∧
      ∀ c ∈ completedAt db' t, c ∈ completedAt db t ∨ c = .null ∨ c = .text nowIso := by
  constructor
  · intro r hr
    rcases (mem_exec h).1 hr with ⟨hold, _⟩ | ⟨row, T, hst, _⟩
    · exact hold
    · exact (hl (Stmt.replace.inj hst).1.symm).elim
  · intro c hc
    obtain ⟨r, hr, he⟩ := List.mem_map.1 hc
    obtain ⟨hr, hcount⟩ := List.mem_filter.1 hr
    rcases (mem_exec h).1 hr with ⟨hold, _⟩ | ⟨row, T, hst, _, hrow⟩
    · exact .inl (List.mem_map.2 ⟨r, List.mem_filter.2 ⟨hold, hcount⟩, he⟩)
    · rw [(Stmt.replace.inj hst).2.symm] at hrow
      rw [← he, hrow]
      exact .inr (completed_coerce _ _ _ _)

theorem covered_ledger (h : s.db.exec now (.replace "sync_ledger"
      (ledgerEntry c.nowIso c.pushedTotal)) = .ok db') (hl : "sync_ledger" ∉ triadTables tables)
    (hc : StampedBelow tables s c) (hs : Covered tables s) :
    Covered tables { s with db := db', queue, seen := s.seen ++ c.seen } := by
  have hentry (t : String) (ht : t ∈ triadTables tables) :=
    ledger_entry (t := t) h fun he => hl (he ▸ ht)
  constructor
  · intro t ht r hr
    obtain ⟨hold, hnew⟩ := hentry t ht
    have hr := hold r hr
    rcases hs.rows t ht r hr with hseen | habove
    · exact .inl (List.mem_append_left _ hseen)
    · rcases hc t ht r hr with hseen | hseen | hstamp
      · exact .inl (List.mem_append_left _ hseen)
      · exact .inl (List.mem_append_right _ hseen)
      · refine .inr ⟨habove.1, ?_⟩
        intro x hx
        rcases hnew x hx with hx | hx | hx
        · exact habove.2 x hx
        · rw [hx]
          have hnull : Value.sortKey .null < defaultWatermark.sortKey := by decide
          exact hnull.trans habove.1
        · rw [hx]
          exact hstamp
  · intro todo hph t ht hn r hr
    exact List.mem_append_left _ (hs.counted todo hph t ht hn r ((hentry t ht).1 r hr))

theorem covered_step (hl : "sync_ledger" ∉ triadTables tables) {a : SyncStep}
    (hc : Sound tables s a) (h : syncStep tables s a = some s') (hs : Covered tables s) :
    Covered tables s' := by
  cases a with
  | write db' stamp =>
    rw [syncStep] at h
    split at h
    next hd =>
      cases h
      exact covered_write hd hc hs
    next => cases h
  | begin =>
    rw [syncStep] at h
    split at h
    · cases h
      apply covered_phase hs
      intro todo hph t ht hn
      cases hph
      exact (hn (mem_triadTables_map ht)).elim
    · cases h
  | analyse counted =>
    rw [syncStep] at h
    split at h
    next p todo pending hph =>
      cases h
      apply covered_phase hs
      intro todo' he t ht hn
      obtain ⟨htodo, hzero⟩ := Phase.analysing.inj he
      obtain ⟨hpending, hcount⟩ := Nat.add_eq_zero_iff.1 hzero
      subst htodo
      rw [hpending] at hph
      by_cases hp : t = p.1
      · subst hp
        cases counted with
        | true => exact allSeen_of_no_pending hs ht hcount
        | false =>
          apply hc p.1 _ ht
          rw [leftOut, hph]
          exact List.mem_singleton_self _
      · apply hs.counted _ hph t ht
        rw [List.map_cons, List.mem_cons, not_or]
        exact ⟨hp, hn⟩
    next => cases h
  | abandon =>
    rw [syncStep] at h
    split at h
    next todo pending hph =>
      cases h
      apply covered_phase hs
      intro todo' he t ht hn
      obtain ⟨_, hzero⟩ := Phase.analysing.inj he
      rw [hzero] at hph
      by_cases hm : t ∈ todo.map Prod.fst
      · apply hc t _ ht
        rw [leftOut, hph]
        exact hm
      · exact hs.counted todo hph t ht hm
    next => cases h
  | skip =>
    rw [syncStep] at h
    split at h
    · cases h
      exact covered_phase hs fun _ he => by cases he
    · cases h
  | push =>
    rw [syncStep] at h
    split at h
    · cases h
      exact covered_phase hs fun _ he => by cases he
    · cases h
  | diff read =>
    rw [syncStep] at h
    split at h
    · cases h
      exact covered_phase hs fun _ he => by cases he
    · cases h
  | retry =>
    rw [syncStep] at h
    split at h
    · cases h
      exact covered_phase hs fun _ he => by cases he
    · cases h
  | fail =>
    rw [syncStep] at h
    split at h
    · cases h
      exact covered_phase hs fun _ he => by cases he
    · cases h
  | finish now pushedTotal queued =>
    rw [syncStep] at h
    split at h
    · cases h
      exact { rows := hs.rows, counted := fun _ he => by cases he }
    · cases h
  | ledger now =>
    rw [syncStep] at h
    split at h
    next c queue hq =>
      split at h
      next db' hx =>
        cases h
        apply covered_ledger hx hl _ hs
        apply hc c
        rw [hq]
        rfl
      next =>
        cases h
        exact { rows := hs.rows, counted := hs.counted }
    next => cases h

theorem ledger_not_watched (e : Env) : "sync_ledger" ∉ triadTables e.tables := by
  rw [Env.tables]
  cases e.sqliteVecAvailable <;> decide

/-- A run from the beginning, each step of which meets the condition, never skips a version that no
completed run has read. -/
theorem skips_soundly {e : Env} (h0 : Fresh e.tables s)
    (hm : Machine.Meets (syncStep e.tables) (Sound e.tables) s as)
    (hr : Machine.run (syncStep e.tables) s as = some s') : SkipsSoundly e.tables s' := by
  have hfresh : Covered e.tables s := by
    obtain ⟨hph, _, _, hrows⟩ := h0
    constructor
    · intro t ht r hr
      rw [hrows t ht] at hr
      cases hr
    · intro todo he
      rw [hph] at he
      cases he
  have hcovered : Covered e.tables s' :=
    Machine.run_invariant (fun s a s' hc hs => covered_step (ledger_not_watched e) hc hs) hm hr
      hfresh
  intro hph t ht
  exact hcovered.counted [] hph t ht List.not_mem_nil

def may1 (hour : Nat) : Moment := ⟨2024, 5, 1, hour, 0, 0, 250000⟩

def batchAt (status : String) (stamp : Stamp) : Row :=
  broadcastBatches.schema.coerce "2024-05-01 00:00:00"
    [("batch_id", .text "b1"), ("target_site", .text "site"), ("status", .text status),
      ("updated_at", .text stamp.text)]

/-- One batch, and a completed run of ten o'clock if there was one. -/
def withBatch (b : Row) (completed : Bool) : Database :=
  operationalDb [("broadcast_batches", [b]), ("sync_ledger",
    if completed then [syncLedger.schema.coerce (currentTimestamp (may1 10))
      (ledgerEntry (isoformat (may1 10)) 1)] else [])]

/-- A run of `sync_all` up to its decision. -/
def analysis : List SyncStep := .begin :: List.replicate 10 (.analyse true)

/-- The rest of a run that pushes. -/
def pushUntil (hour : Nat) : List SyncStep :=
  .push :: List.replicate 10 (.diff true) ++
    [.finish (may1 hour) 1 true, .ledger (currentTimestamp (may1 hour))]

/-- A batch is pushed, and then finalized with the stamp at eleven. -/
def finalizing (stamp : Stamp) : List SyncStep :=
  .write (withBatch (batchAt "PARTIAL" (.python (may1 9))) false) (.python (may1 9)) ::
    analysis ++ pushUntil 10 ++
    .write (withBatch (batchAt "COMPLETED" stamp) true) stamp :: analysis

def beforeBatch : SyncState := { db := operationalDb [] }

/-- The finalized batch is dated in the form of SQLite, below the time of the run before. -/
theorem finalized_skipped : ¬ ∀ (e : Env) (s s' : SyncState) (as : List SyncStep),
    Fresh e.tables s → Machine.run (syncStep e.tables) s as = some s' →
      SkipsSoundly e.tables s' := by
  intro h
  have hrun : (Machine.run (syncStep exampleEnv.tables) beforeBatch
      (finalizing (.sqlite (may1 11)))).isSome = true := by decide +kernel
  have hsound := h exampleEnv beforeBatch _ _ (by decide +kernel) (Option.some_get hrun).symm
  revert hsound hrun
  decide +kernel

/-- Dated in the form of Python it is pushed, and the next run may skip. -/
theorem finalized_pushed :
    ∃ s', Machine.run (syncStep exampleEnv.tables) beforeBatch
        (finalizing (.python (may1 11)) ++ pushUntil 12 ++ analysis) = some s' ∧
      s'.phase = .analysing [] 0 ∧ SkipsSoundly exampleEnv.tables s' := by
  have hrun : (Machine.run (syncStep exampleEnv.tables) beforeBatch
      (finalizing (.python (may1 11)) ++ pushUntil 12 ++ analysis)).isSome = true := by
    decide +kernel
  refine ⟨_, (Option.some_get hrun).symm, by decide +kernel +revert, ?_⟩
  exact skips_soundly (by decide +kernel) (by decide +kernel) (Option.some_get hrun).symm

end Sync
