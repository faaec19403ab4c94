import AnythingTools.Publisher.Batch

namespace Publisher
open JobItems
set_option autoImplicit true

/-- The committed rows and the queue of the writer. -/
structure Stored where
  db : Db
  queue : List Write := []

/-- `update_batch_status_from_details`: the rows are counted as they are committed. -/
def updateBatchStatusFromDetails (db : Db) : List Write :=
  ((statusFromDetails db.batch.details).map Write.setBatchStatus).toList

inductive StoredEvent where
  | enqueue (w : Write)
  | recompute
  | write

def Stored.step (s : Stored) : StoredEvent → Option Stored
  | .enqueue w => some { s with queue := s.queue ++ [w] }
  | .recompute => some { s with queue := s.queue ++ updateBatchStatusFromDetails s.db }
  | .write =>
    match s.queue with
    | w :: queue => some { db := s.db.commit w, queue }
    | [] => none

/-- The rows as they are once the queue is empty. -/
def Stored.drained (s : Stored) : Db := s.db.commitAll s.queue

/-- The status is the one that the details give. -/
def StatusAgrees (db : Db) : Prop :=
  ∀ status, statusFromDetails db.batch.details = some status → db.batch.status = status

theorem drained_write {s s' : Stored} (h : s.step .write = some s') : s'.drained = s.drained := by
  rw [Stored.step] at h
  split at h
  next w queue hq =>
    cases h
    rw [Stored.drained, Stored.drained, hq]
    rfl
  next => cases h

theorem drained_writes {s s' : Stored} (hw : ∀ e ∈ es, e = StoredEvent.write)
    (h : Machine.run Stored.step s es = some s') : s'.drained = s.drained := by
  induction es generalizing s with
  | nil =>
    cases h
    rfl
  | cons e es ih =>
    obtain ⟨s₁, h₁, hrest⟩ := Machine.run_cons_some h
    rw [hw e List.mem_cons_self] at h₁
    rw [ih (fun e he => hw e (List.mem_cons_of_mem _ he)) hrest, drained_write h₁]

theorem statusFromDetails_eq_none {details : List Detail} :
    statusFromDetails details = none ↔ details = [] := by
  rw [← List.length_eq_zero_iff, statusFromDetails]
  constructor
  · intro h
    by_contra hne
    simp only [if_neg hne] at h
    split_ifs at h
  · intro h
    simp only [if_pos h]

theorem statusFromDetails_empty_iff (db : Db) (ws : List Write) :
    statusFromDetails (db.commitAll ws).batch.details = none ↔
      statusFromDetails db.batch.details = none := by
  rw [statusFromDetails_eq_none, statusFromDetails_eq_none, details_commitAll, List.map_eq_nil_iff]

/-- The status written last agrees with the rows exactly when the pending statements leave the
status that is read off them. -/
theorem statusAgrees_recompute (s : Stored) :
    StatusAgrees (s.db.commitAll (s.queue ++ updateBatchStatusFromDetails s.db)) ↔
      statusFromDetails s.db.batch.details = statusFromDetails s.drained.batch.details := by
  rw [commitAll_append, updateBatchStatusFromDetails]
  change StatusAgrees (s.drained.commitAll _) ↔ _
  cases h : statusFromDetails s.db.batch.details with
  | none =>
    have hnone := (statusFromDetails_empty_iff s.db s.queue).2 h
    change StatusAgrees s.drained ↔ none = statusFromDetails (s.db.commitAll s.queue).batch.details
    rw [hnone]
    refine iff_of_true ?_ rfl
    intro status hs
    rw [Stored.drained, hnone] at hs
    cases hs
  | some status =>
    change (∀ st, statusFromDetails s.drained.batch.details = some st → status = st) ↔ _
    cases h' : statusFromDetails s.drained.batch.details with
    | none =>
      rw [Stored.drained, statusFromDetails_empty_iff, h] at h'
      cases h'
    | some status' =>
      rw [Option.some.injEq]
      exact ⟨fun hall => hall status' rfl, fun he st hst => he.trans (Option.some.inj hst)⟩

/-- After any calls and any steps of the writer, the status is recomputed, and no detail changes
any more: it agrees with the rows exactly when the statements pending at the time of the call
leave the status that is read off the details. -/
theorem status_agrees_iff (s₀ : Stored) (before after : List StoredEvent) {s s' : Stored}
    (_ : Machine.run Stored.step s₀ before = some s)
    (h : Machine.run Stored.step s (.recompute :: after) = some s')
    (hw : ∀ e ∈ after, e = StoredEvent.write) (hq : s'.queue = []) :
    StatusAgrees s'.db ↔
      statusFromDetails s.db.batch.details = statusFromDetails s.drained.batch.details := by
  obtain ⟨s₁, h₁, hrest⟩ := Machine.run_cons_some h
  cases h₁
  have hdb : s'.db = s'.drained := by
    rw [Stored.drained, hq, commitAll_nil]
  rw [hdb, drained_writes hw hrest]
  exact statusAgrees_recompute s

/-- The article is published, and its status committed before the details are counted. -/
def committedBefore : List StoredEvent := [.enqueue (.setDetail "a1" .publishedArchive none), .write]

theorem status_agrees_committed : ∃ s s', Machine.run Stored.step ⟨oneArticle .publishing .translating, []⟩
    committedBefore = some s ∧ Machine.run Stored.step s [.recompute, .write] = some s' ∧
    (StatusAgrees s'.db ↔
      statusFromDetails s.db.batch.details = statusFromDetails s.drained.batch.details) :=
  ⟨_, _, rfl, rfl,
    status_agrees_iff ⟨oneArticle .publishing .translating, []⟩ committedBefore [.write] rfl rfl (by simp) rfl⟩

/-- The pipeline counts the details as soon as it has queued the last one. -/
theorem status_behind_queue : ¬ ∀ (before after : List StoredEvent) (s s' : Stored),
    Machine.run Stored.step ⟨oneArticle .publishing .translating, []⟩ before = some s →
    Machine.run Stored.step s (.recompute :: after) = some s' →
    (∀ e ∈ after, e = StoredEvent.write) → s'.queue = [] → StatusAgrees s'.db := by
  intro h
  have hagrees := h [.enqueue (.setDetail "a1" .publishedArchive none)] [.write, .write] _ _
    rfl rfl (by simp) rfl
  exact absurd (hagrees .completed (by decide)) (by decide)

end Publisher
