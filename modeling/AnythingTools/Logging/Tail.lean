import Mathlib.Data.List.Sort
import Mathlib.Data.String.Basic
import AnythingTools.Machine

namespace Logging
set_option autoImplicit true

/-- What `cmd_tail` reads of a row of `logs`, and its key. -/
structure Entry where
  id : String
  timestamp : String
  level : String
  tag : String
  message : String
deriving DecidableEq

/-- The line that `cmd_tail` prints. -/
def Entry.line (r : Entry) : String :=
  "| " ++ String.ofList (r.timestamp.toList.take 19) ++ " | " ++ r.level ++ " | " ++ r.tag ++ " | " ++
    String.ofList (r.message.toList.map fun c => if c = '\n' then ' ' else c) ++ " |"

/-- The rows of `logs`, whose primary key is `id`. -/
structure Table where
  rows : List Entry
  primaryKey : (rows.map Entry.id).Nodup

/-- The rows that were there when the tail started, those inserted between then and its last poll
and those inserted since, with the queue of the logs writer, `last_ts` and what is printed. -/
structure State where
  before : List Entry
  read : List Entry := []
  unread : List Entry := []
  primaryKey : ((before ++ (read ++ unread)).map Entry.id).Nodup
  queue : List Entry
  lastTs : String
  printed : List Entry := []

def State.rows (s : State) : List Entry := s.before ++ (s.read ++ s.unread)

/-- `SELECT MAX(timestamp) FROM logs`. -/
def maxTimestamp (rows : List Entry) : Option String := (rows.map Entry.timestamp).max?

/-- The start of `cmd_tail`; `now` is the text of the current time. -/
def start (logs : Table) (queue : List Entry) (now : String) : State where
  before := logs.rows
  primaryKey := by
    rw [List.append_nil, List.append_nil]
    exact logs.primaryKey
  queue
  lastTs :=
    match maxTimestamp logs.rows with
    | some ts => if ts = "" then now else ts
    | none => now

/-- `SELECT * FROM logs WHERE timestamp > ? ORDER BY timestamp ASC`. -/
def newRows (rows : List Entry) (lastTs : String) : List Entry :=
  (rows.filter fun r => decide (lastTs < r.timestamp)).insertionSort fun a b =>
    a.timestamp ≤ b.timestamp

/-- The loop over the rows: `last_ts`, and what is printed. -/
def printRows (lastTs : String) (printed rows : List Entry) : String × List Entry :=
  rows.foldl (fun p r => (r.timestamp, p.2 ++ [r])) (lastTs, printed)

def logsQueueSize : Nat := 10000

/-- A call of `dual_log`, whose row is stamped before it is enqueued; the logs writer commits a row,
or fails to; a poll of the tail. -/
inductive Event where
  | log (r : Entry)
  | commit
  | fail
  | poll

theorem nodup_concat_entry {rows : List Entry} (h : (rows.map Entry.id).Nodup)
    (hr : r.id ∉ rows.map Entry.id) : ((rows ++ [r]).map Entry.id).Nodup := by
  rw [List.map_append, List.map_singleton]
  refine List.nodup_append.2 ⟨h, List.nodup_singleton _, ?_⟩
  intro a ha b hb
  rw [List.mem_singleton] at hb
  rw [hb]
  exact fun he => hr (he ▸ ha)

def State.insert (s : State) (r : Entry) (h : r.id ∉ s.rows.map Entry.id) : State :=
  { s with
    unread := s.unread ++ [r]
    primaryKey := by
      rw [← List.append_assoc, ← List.append_assoc, List.append_assoc s.before]
      exact nodup_concat_entry s.primaryKey h }

def State.poll (s : State) : State :=
  let p := printRows s.lastTs s.printed (newRows s.rows s.lastTs)
  { s with
    read := s.read ++ s.unread
    unread := []
    primaryKey := by
      rw [List.append_nil]
      exact s.primaryKey
    lastTs := p.1
    printed := p.2 }

def step (s : State) : Event → Option State
  | .log r =>
    if s.queue.length < logsQueueSize then some { s with queue := s.queue ++ [r] } else some s
  | .commit =>
    match s.queue with
    | [] => none
    | r :: queue =>
      if h : r.id ∈ s.rows.map Entry.id then some { s with queue }
      else some { s.insert r h with queue }
  | .fail =>
    match s.queue with
    | [] => none
    | _ :: queue => some { s with queue }
  | .poll => some s.poll

/-- Every row that was inserted between the start of the tail and its last poll is printed exactly
once. -/
def PrintsOnce (s : State) : Prop := ∀ r ∈ s.read, s.printed.count r = 1

/-- A poll finds the rows inserted since the one before it later than all that this one saw. -/
def InOrder (s : State) : Event → Prop
  | .poll => ∀ r ∈ s.unread, s.lastTs < r.timestamp
  | _ => True

instance (s : State) : Decidable (PrintsOnce s) :=
  inferInstanceAs (Decidable (∀ r ∈ s.read, s.printed.count r = 1))

instance (s : State) (e : Event) : Decidable (InOrder s e) := by
  cases e <;> unfold InOrder <;> infer_instance

theorem printRows_eq (lastTs : String) (printed rows : List Entry) :
    (printRows lastTs printed rows).2 = printed ++ rows := by
  induction rows generalizing lastTs printed with
  | nil => exact (List.append_nil printed).symm
  | cons r rows ih =>
    have hstep : printRows lastTs printed (r :: rows) =
        printRows r.timestamp (printed ++ [r]) rows := rfl
    rw [hstep, ih, List.append_assoc, List.singleton_append]

/-- Over rows in order, `last_ts` ends as the latest. -/
theorem le_printRows {rows : List Entry} (h : ∀ r ∈ rows, lastTs ≤ r.timestamp)
    (hs : rows.Pairwise fun a b => a.timestamp ≤ b.timestamp) (printed : List Entry) :
    lastTs ≤ (printRows lastTs printed rows).1 ∧
      ∀ r ∈ rows, r.timestamp ≤ (printRows lastTs printed rows).1 := by
  induction rows generalizing lastTs printed with
  | nil => exact ⟨le_refl lastTs, List.forall_mem_nil _⟩
  | cons r rows ih =>
    rw [List.pairwise_cons] at hs
    obtain ⟨hr, hrest⟩ := ih hs.1 hs.2 (printed ++ [r])
    exact ⟨(h r List.mem_cons_self).trans hr, List.forall_mem_cons.2 ⟨hr, hrest⟩⟩

theorem mem_newRows : r ∈ newRows rows lastTs ↔ r ∈ rows ∧ lastTs < r.timestamp := by
  rw [newRows, (List.perm_insertionSort _ _).mem_iff, List.mem_filter, decide_eq_true_eq]

theorem pairwise_newRows (rows : List Entry) (lastTs : String) :
    (newRows rows lastTs).Pairwise fun a b => a.timestamp ≤ b.timestamp := by
  have htrans : IsTrans Entry fun a b => a.timestamp ≤ b.timestamp := ⟨fun _ _ _ => le_trans⟩
  have htotal : Std.Total fun a b : Entry => a.timestamp ≤ b.timestamp := ⟨fun _ _ => le_total _ _⟩
  exact List.pairwise_insertionSort _ _

/-- The tail is past all rows that its polls saw, and has printed those of them inserted since its
start. -/
structure Seen (s : State) : Prop where
  past : ∀ r ∈ s.before ++ s.read, r.timestamp ≤ s.lastTs
  printed : s.printed.Perm s.read

theorem seen_start (logs : Table) (queue : List Entry) (now : String) :
    Seen (start logs queue now) := by
  refine ⟨?_, List.Perm.refl []⟩
  intro r hr
  have hmem : r.timestamp ∈ logs.rows.map Entry.timestamp :=
    List.mem_map_of_mem ((List.mem_append.1 hr).resolve_right List.not_mem_nil)
  rw [start, maxTimestamp]
  cases hmax : (logs.rows.map Entry.timestamp).max? with
  | none =>
    rw [List.max?_eq_none_iff.1 hmax] at hmem
    cases hmem
  | some ts =>
    have hle : r.timestamp ≤ ts := (List.max?_eq_some_iff.1 hmax).2 r.timestamp hmem
    simp only
    split
    next hts =>
      rw [hts] at hle
      refine hle.trans (le_of_not_gt fun hlt => ?_)
      exact List.not_lt_nil now.toList (String.lt_iff_toList_lt.1 hlt)
    next => exact hle

/-- A poll selects those of the unread rows that are later than `last_ts`. -/
theorem Seen.newRows_perm {s : State} (h : Seen s) :
    (newRows s.rows s.lastTs).Perm (s.unread.filter fun r => decide (s.lastTs < r.timestamp)) := by
  have hold : (s.before ++ s.read).filter (fun r => decide (s.lastTs < r.timestamp)) = [] := by
    rw [List.filter_eq_nil_iff]
    intro r hr
    rw [decide_eq_true_eq]
    exact not_lt_of_ge (h.past r hr)
  refine (List.perm_insertionSort _ _).trans ?_
  rw [State.rows, ← List.append_assoc, List.filter_append, hold, List.nil_append]

theorem Seen.printed_poll {s : State} (h : Seen s) :
    s.poll.printed.Perm
      (s.read ++ s.unread.filter fun r => decide (s.lastTs < r.timestamp)) := by
  have heq : s.poll.printed = s.printed ++ newRows s.rows s.lastTs := printRows_eq _ _ _
  rw [heq]
  exact h.printed.append h.newRows_perm

theorem State.nodup (s : State) : (s.read ++ s.unread).Nodup :=
  (List.nodup_append.1 (List.Nodup.of_map Entry.id s.primaryKey)).2.1

/-- After a poll every row it saw is printed once exactly when the unread ones were all later. -/
theorem printsOnce_poll_iff (h : Seen s) : PrintsOnce s.poll ↔ InOrder s .poll := by
  have hcount (r : Entry) : s.poll.printed.count r =
      (s.read ++ s.unread.filter fun r => decide (s.lastTs < r.timestamp)).count r :=
    h.printed_poll.count_eq r
  apply Iff.intro
  · intro hp r hr
    have hone := hp r (List.mem_append_right s.read hr)
    rw [hcount] at hone
    have hmem := List.count_pos_iff.1 (hone ▸ Nat.one_pos)
    rcases List.mem_append.1 hmem with hread | hnew
    · exact absurd rfl ((List.nodup_append.1 s.nodup).2.2 r hread r hr)
    · exact of_decide_eq_true (List.mem_filter.1 hnew).2
  · intro hlater r hr
    have hall : s.unread.filter (fun r => decide (s.lastTs < r.timestamp)) = s.unread :=
      List.filter_eq_self.2 fun r hr => decide_eq_true (hlater r hr)
    rw [hcount, hall]
    exact List.count_eq_one_of_mem s.nodup hr

theorem seen_poll (h : Seen s) (ho : InOrder s .poll) : Seen s.poll := by
  have hall : s.unread.filter (fun r => decide (s.lastTs < r.timestamp)) = s.unread :=
    List.filter_eq_self.2 fun r hr => decide_eq_true (ho r hr)
  have hle : ∀ r ∈ newRows s.rows s.lastTs, s.lastTs ≤ r.timestamp :=
    fun r hr => (mem_newRows.1 hr).2.le
  obtain ⟨hlast, hnew⟩ := le_printRows hle (pairwise_newRows _ _) s.printed
  constructor
  · intro r hr
    change r ∈ s.before ++ (s.read ++ s.unread) at hr
    by_cases hlt : s.lastTs < r.timestamp
    · exact hnew r (mem_newRows.2 ⟨hr, hlt⟩)
    · exact (le_of_not_gt hlt).trans hlast
  · have hperm := h.printed_poll
    rw [hall] at hperm
    exact hperm

theorem printsOnce_of_seen (h : Seen s) : PrintsOnce s := by
  intro r hr
  rw [h.printed.count_eq]
  exact List.count_eq_one_of_mem (List.nodup_append.1 s.nodup).1 hr

theorem seen_step (ho : InOrder s e) (h : step s e = some s') (hs : Seen s) : Seen s' := by
  revert h
  fun_cases step s e <;> intro h <;> cases h
  case case1 => exact ⟨hs.past, hs.printed⟩
  case case2 => exact hs
  case case4 => exact ⟨hs.past, hs.printed⟩
  case case5 => exact ⟨hs.past, hs.printed⟩
  case case7 => exact ⟨hs.past, hs.printed⟩
  case case8 => exact seen_poll hs ho

theorem printsOnce_step_iff (s : State) (e : Event) (hs : Seen s) :
    (∀ s', step s e = some s' → PrintsOnce s') ↔ InOrder s e := by
  cases e with
  | poll =>
    rw [← printsOnce_poll_iff hs]
    exact ⟨fun h => h _ rfl, fun h _ hs' => Option.some.inj hs' ▸ h⟩
  | log r => exact ⟨fun _ => trivial, fun ho _ h => printsOnce_of_seen (seen_step ho h hs)⟩
  | commit => exact ⟨fun _ => trivial, fun ho _ h => printsOnce_of_seen (seen_step ho h hs)⟩
  | fail => exact ⟨fun _ => trivial, fun ho _ h => printsOnce_of_seen (seen_step ho h hs)⟩

theorem printsOnce_run_iff (hs : Seen s) (es : List Event) :
    Machine.Always step (fun _ _ => PrintsOnce) s es ↔ Machine.Meets step InOrder s es :=
  Machine.always_iff_meets_of_invariant printsOnce_step_iff
    (fun _ _ _ ho h hs => seen_step ho h hs) hs es

/-- In a run of the tail every row inserted before one of its polls is printed exactly once, when
and only when each poll finds the rows inserted since the one before later than all seen before. -/
theorem printsOnce_iff (logs : Table) (queue : List Entry) (now : String) (es : List Event) :
    Machine.Always step (fun _ _ => PrintsOnce) (start logs queue now) es ↔
      Machine.Meets step InOrder (start logs queue now) es :=
  printsOnce_run_iff (seen_start logs queue now) es

def started : Entry :=
  { id := "01HX1", timestamp := "2024-05-01T10:00:05.000001+00:00", level := "INFO",
    tag := "Worker:Manager:Start", message := "Unified WorkerManager started." }

def polled : Entry :=
  { id := "01HX2", timestamp := "2024-05-01T10:00:05.000001+00:00", level := "WARNING",
    tag := "Worker:Manager:Poll", message := "DB poll failed" }

/-- Two rows of one microsecond, the second committed after the poll that printed the first. -/
theorem tied_row_not_printed :
    ¬ Machine.Always step (fun _ _ => PrintsOnce)
      (start ⟨[], List.nodup_nil⟩ [] "2024-05-01T10:00:00+00:00")
      [.log started, .log polled, .commit, .poll, .commit, .poll] := by
  rw [printsOnce_run_iff (seen_start _ _ _)]
  decide +kernel

end Logging
