import AnythingTools.Machine
import AnythingTools.Paging
import AnythingTools.Relational.Row

namespace Sync
open Relational Paging
set_option autoImplicit true

/-- A row of the local table with its rowid. -/
structure LocalRow where
  rowid : Int
  cells : Row
deriving DecidableEq, Repr

/-- The rebuild of a table between two statements: the local table in rowid order, the offset of
the next batch, and the local rows that the batches so far have inserted in the cloud. -/
structure Rebuild where
  rows : List LocalRow
  offset : Nat := 0
  cloud : List LocalRow := []
  done : Bool := false
deriving DecidableEq, Repr

/-- The next batch, or a statement of another connection. -/
inductive RebuildStep where
  | batch
  | insert (r : LocalRow)
  | delete (rowid : Int)
deriving DecidableEq, Repr

def batchSize : Nat := 1000

/-- `SELECT ... LIMIT 1000 OFFSET offset`. -/
def Rebuild.fetch (s : Rebuild) : List LocalRow := (s.rows.drop s.offset).take batchSize

/-- A step of the rebuild, or of another writer while it lasts. -/
def rebuildStep (s : Rebuild) : RebuildStep → Option Rebuild
  | .batch =>
    if s.done = true then none
    else if s.fetch = [] then some { s with done := true }
    else some { s with offset := s.offset + batchSize, cloud := s.cloud ++ s.fetch }
  | .insert r =>
    if s.done = true ∨ ∃ q ∈ s.rows, q.rowid = r.rowid then none
    else some { s with rows := s.rows.orderedInsert (fun a b => a.rowid ≤ b.rowid) r }
  | .delete rowid =>
    if s.done = true then none
    else some { s with rows := s.rows.filter fun q => decide (q.rowid ≠ rowid) }

/-- While rows are left to read, other writers add none before the rows that were read, and remove
none of these. -/
def Undisturbed (s : Rebuild) : RebuildStep → Prop
  | .batch => True
  | .insert r => s.rows.length < s.offset ∨ ∀ q ∈ s.rows.take s.offset, q.rowid < r.rowid
  | .delete rowid => s.rows.length ≤ s.offset ∨ ∀ q ∈ s.rows.take s.offset, q.rowid ≠ rowid

instance : (s : Rebuild) → (a : RebuildStep) → Decidable (Undisturbed s a)
  | _, .batch => isTrue trivial
  | s, .insert r =>
    inferInstanceAs (Decidable (_ ∨ ∀ q ∈ s.rows.take s.offset, q.rowid < r.rowid))
  | s, .delete rowid =>
    inferInstanceAs (Decidable (_ ∨ ∀ q ∈ s.rows.take s.offset, q.rowid ≠ rowid))

/-- The row is in the local table at every step. -/
def Stays (r : LocalRow) (s : Rebuild) (as : List RebuildStep) : Prop :=
  Machine.Meets rebuildStep (fun s _ => r ∈ s.rows) s as

def Rebuild.position (s : Rebuild) (r : LocalRow) : Nat := before LocalRow.rowid s.rows r.rowid

/-- A row that stays is copied once the offset has passed it. -/
structure Paged (r : LocalRow) (s : Rebuild) : Prop where
  ordered : Ordered LocalRow.rowid s.rows
  mem : r ∈ s.rows
  copied : s.cloud.count r = if s.position r < s.offset then 1 else 0
  finished : s.done = true → s.position r < s.offset

theorem Paged.batch (h : Paged r s) (hs : rebuildStep s .batch = some s') : Paged r s' := by
  have hpage := h.ordered.mem_page h.mem s.offset batchSize
  rw [rebuildStep] at hs
  split at hs
  · cases hs
  · split at hs
    next hnil =>
      cases hs
      refine ⟨h.ordered, h.mem, h.copied, fun _ => ?_⟩
      have hlen : s.rows.length ≤ s.offset := by
        have hl := congrArg List.length hnil
        rw [Rebuild.fetch, List.length_take, List.length_drop, List.length_nil, batchSize] at hl
        omega
      exact Nat.lt_of_lt_of_le (before_lt_length h.mem) hlen
    next hnd _ =>
      cases hs
      have hnodup : s.fetch.Nodup :=
        (h.ordered.nodup.sublist (List.drop_sublist _ _)).sublist (List.take_sublist _ _)
      refine ⟨h.ordered, h.mem, ?_, fun hd => absurd hd hnd⟩
      have hcount : s.fetch.count r =
          if s.offset ≤ s.position r ∧ s.position r < s.offset + batchSize then 1 else 0 := by
        split
        next hin => exact List.count_eq_one_of_mem hnodup (hpage.2 hin)
        next hout => exact List.count_eq_zero.2 fun hm => hout (hpage.1 hm)
      have hpos : Rebuild.position { s with
          offset := s.offset + batchSize, cloud := s.cloud ++ s.fetch } r = s.position r := rfl
      rw [hpos]
      dsimp only
      rw [List.count_append, h.copied, hcount]
      split <;> split <;> split <;> omega

theorem Paged.insert (h : Paged r s) (hu : Undisturbed s (.insert x))
    (hs : rebuildStep s (.insert x) = some s') : Paged r s' := by
  have htake := h.ordered.mem_take h.mem s.offset
  have hlen : s.position r < s.rows.length := before_lt_length h.mem
  rw [rebuildStep] at hs
  split at hs
  · cases hs
  next hno =>
    rw [not_or] at hno
    cases hs
    have hpos : Rebuild.position { s with
        rows := s.rows.orderedInsert (fun a b => a.rowid ≤ b.rowid) x } r =
        s.position r + if x.rowid < r.rowid then 1 else 0 := before_insert _ _ _ _
    -- a row that was read keeps its place before the offset
    have hside : s.position r + (if x.rowid < r.rowid then 1 else 0) < s.offset ↔
        s.position r < s.offset := by
      split
      next hlt =>
        rcases hu with hu | hu
        · omega
        · constructor
          · omega
          · intro hr
            exact absurd (hu r (htake.2 hr)) (not_lt.2 hlt.le)
      next => rw [Nat.add_zero]
    refine ⟨h.ordered.insert fun a ha he => hno.2 ⟨a, ha, he⟩, ?_, ?_, fun hd => absurd hd hno.1⟩
    · exact (List.perm_orderedInsert _ x s.rows).mem_iff.2 (List.mem_cons_of_mem x h.mem)
    · rw [hpos]
      dsimp only
      rw [h.copied]
      simp only [hside]

theorem Paged.delete (h : Paged r s) (hu : Undisturbed s (.delete i)) (hr : r ∈ s'.rows)
    (hs : rebuildStep s (.delete i) = some s') : Paged r s' := by
  have hlen : s.position r < s.rows.length := before_lt_length h.mem
  rw [rebuildStep] at hs
  split at hs
  · cases hs
  next hnd =>
    cases hs
    have hpos : Rebuild.position { s with
        rows := s.rows.filter fun q => decide (q.rowid ≠ i) } r +
        (if i < r.rowid ∧ i ∈ s.rows.map LocalRow.rowid then 1 else 0) = s.position r :=
      h.ordered.before_delete i r.rowid
    have hside : Rebuild.position { s with
        rows := s.rows.filter fun q => decide (q.rowid ≠ i) } r < s.offset ↔
        s.position r < s.offset := by
      split at hpos
      next hin =>
        obtain ⟨hlt, hi⟩ := hin
        obtain ⟨q, hq, rfl⟩ := List.mem_map.1 hi
        have hqr : s.position q < s.position r := h.ordered.before_lt hq h.mem hlt
        rcases hu with hu | hu
        · omega
        · have hq' : ¬ s.position q < s.offset := fun hlt =>
            hu q ((h.ordered.mem_take hq s.offset).2 hlt) rfl
          omega
      next => rw [← hpos, Nat.add_zero]
    refine ⟨h.ordered.sublist List.filter_sublist, hr, ?_, fun hd => absurd hd hnd⟩
    dsimp only
    rw [h.copied]
    simp only [hside]

/-- Every row that stays is in the rebuilt table exactly once. -/
def CopiesOnce (l : List LocalRow) (as : List RebuildStep) : Prop :=
  ∀ s, Machine.run rebuildStep { rows := l } as = some s → s.done = true →
    ∀ r, Stays r { rows := l } as → s.cloud.count r = 1

theorem paged_start (hl : Ordered LocalRow.rowid l) (hr : r ∈ l) : Paged r { rows := l } where
  ordered := hl
  mem := hr
  copied := by simp
  finished := nofun

theorem paged_step (hcond : Undisturbed s a ∧ r ∈ s.rows) (hs : rebuildStep s a = some s')
    (hinv : r ∈ s.rows ∨ s.done = true → Paged r s) :
    r ∈ s'.rows ∨ s'.done = true → Paged r s' := by
  have hp := hinv (.inl hcond.2)
  cases a with
  | batch => exact fun _ => hp.batch hs
  | insert x => exact fun _ => hp.insert hcond.1 hs
  | delete i =>
    rintro (hr | hd)
    · exact hp.delete hcond.1 hr hs
    · rw [rebuildStep] at hs
      split at hs
      · cases hs
      next hnd =>
        cases hs
        exact absurd hd hnd

/-- In a run that no other writer disturbs, every row that stays is copied exactly once. -/
theorem copiesOnce_of_undisturbed (hl : Ordered LocalRow.rowid l)
    (h : Machine.Meets rebuildStep Undisturbed { rows := l } as) : CopiesOnce l as := by
  intro s hrun hdone r hstays
  have hinv : r ∈ s.rows ∨ s.done = true → Paged r s :=
    Machine.run_invariant (fun _ _ _ => paged_step) (Machine.meets_and h hstays) hrun
      fun hr => paged_start hl (hr.resolve_right nofun)
  have hp := hinv (.inr hdone)
  rw [hp.copied, if_pos (hp.finished hdone)]

/-- A row is added at the end and another one removed when all rows are read. -/
theorem copiesOnce_appended : CopiesOnce [⟨1, [("id", .int 1)]⟩, ⟨2, [("id", .int 2)]⟩]
    [.batch, .insert ⟨3, [("id", .int 3)]⟩, .delete 1, .batch] :=
  copiesOnce_of_undisturbed (by decide) (by decide)

/-- The batches so far are the start of the table. -/
structure CopiedSoFar (l : List LocalRow) (s : Rebuild) : Prop where
  rows : s.rows = l
  cloud : s.cloud = l.take s.offset
  finished : s.done = true → l.length ≤ s.offset

theorem CopiedSoFar.step (ha : a = .batch) (hs : rebuildStep s a = some s')
    (h : CopiedSoFar l s) : CopiedSoFar l s' := by
  rw [ha, rebuildStep] at hs
  split at hs
  · cases hs
  · split at hs
    next hnil =>
      cases hs
      refine ⟨h.rows, h.cloud, fun _ => ?_⟩
      have hl := congrArg List.length hnil
      rw [Rebuild.fetch, h.rows, List.length_take, List.length_drop, List.length_nil,
        batchSize] at hl
      dsimp only
      omega
    next hnd _ =>
      cases hs
      refine ⟨h.rows, ?_, fun hd => absurd hd hnd⟩
      dsimp only
      rw [h.cloud, Rebuild.fetch, h.rows, List.take_add]

/-- Without other writers the batches are the local table, in its order. -/
theorem rebuild_alone (has : ∀ a ∈ as, a = .batch)
    (hrun : Machine.run rebuildStep { rows := l } as = some s) (hdone : s.done = true) :
    s.cloud = l := by
  have h : CopiedSoFar l s :=
    Machine.run_invariant (fun _ _ _ => CopiedSoFar.step) (Machine.meets_of_forall fun _ => has)
      hrun ⟨rfl, rfl, nofun⟩
  rw [h.cloud, List.take_of_length_le (h.finished hdone)]

def manyRows : List LocalRow := (List.range 1001).map fun i => ⟨i, [("id", .int i)]⟩

/-- The first row is deleted after the first batch, and the last one is not read any more. -/
theorem deleted_row_hides_another : ¬ CopiesOnce manyRows [.batch, .delete 0, .batch] := by
  intro h
  obtain ⟨s, hrun, hdone, hcount⟩ : ∃ s,
      Machine.run rebuildStep { rows := manyRows } [.batch, .delete 0, .batch] = some s ∧
        s.done = true ∧ s.cloud.count ⟨1000, [("id", .int 1000)]⟩ = 0 :=
    ⟨{ rows := manyRows.tail, offset := 1000, cloud := manyRows.take 1000, done := true },
      by decide +kernel, rfl, by decide +kernel⟩
  have hstays : Stays ⟨1000, [("id", .int 1000)]⟩ { rows := manyRows }
      [.batch, .delete 0, .batch] := by
    unfold Stays
    decide +kernel
  rw [h s hrun hdone _ hstays] at hcount
  cases hcount

end Sync
