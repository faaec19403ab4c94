import AnythingTools.Scraper.Reported

namespace Scraper
open Relational JobItems
set_option autoImplicit true

/-! ### The items of the steps -/

/-- The steps of a run that have an item, in their order. -/
def runSteps : List String := ["extract", "slim", "curate", "artifacts", "finalize"]

theorem nodup_runSteps : runSteps.Nodup := by decide

/-- The first `k` steps have items. They are settled, except that of a curation without candidates;
the items that are not of the batch are as they were. -/
structure Reached (jobId batchId : String) (emptyPool : Prop) (k : Nat)
    (before items : List (Item Output)) : Prop where
  present : ∀ step, itemRow items jobId step batchId ≠ none ↔ step ∈ runSteps.take k
  settled : ∀ step i, itemRow items jobId step batchId = some i →
    i.status = .completed ∨ i.status = .failed ∨
      i.status = .pending ∧ step = "curate" ∧ emptyPool
  curated : ∀ i, itemRow items jobId "curate" batchId = some i → emptyPool → i.status = .pending
  elsewhere : ∀ jobId' step ulid, ¬ (jobId' = jobId ∧ ulid = batchId) →
    itemRow items jobId' step ulid = itemRow before jobId' step ulid

variable {j u step : String} {emptyPool : Prop} {k : Nat} {before items items' : List (Item Output)}
  {x : ToolRun} {s : ToolDb}

theorem Reached.zero (h : ∀ step, itemRow before j step u = none) :
    Reached j u emptyPool 0 before before where
  present step := by
    rw [h, List.take_zero]
    exact iff_of_false (fun hn => hn rfl) List.not_mem_nil
  settled step i hi := by
    rw [h] at hi
    cases hi
  curated i hi := by
    rw [h] at hi
    cases hi
  elsewhere _ _ _ _ := rfl

/-- Another step has an item. -/
theorem mem_take_succ (hk : runSteps[k]? = some step) :
    step' ∈ runSteps.take (k + 1) ↔ step' ∈ runSteps.take k ∨ step' = step := by
  rw [List.take_add_one, hk, List.mem_append, Option.toList_some, List.mem_singleton]

theorem notMem_take (hk : runSteps[k]? = some step) : step ∉ runSteps.take k := by
  intro hmem
  obtain ⟨i, hi, he⟩ := List.mem_take_iff_getElem.1 hmem
  obtain ⟨hlt, hget⟩ := List.getElem?_eq_some_iff.1 hk
  have := (nodup_runSteps.getElem_inj_iff).1 (he.trans hget.symm)
  omega

/-- The next step, whose item is written and nothing else. -/
theorem Reached.next (h : Reached j u emptyPool k before items) (hk : runSteps[k]? = some step)
    (hi : itemRow items' j step u = some i)
    (hstatus : i.status = .completed ∨ i.status = .failed ∨
      i.status = .pending ∧ step = "curate" ∧ emptyPool)
    (hcurate : step = "curate" → emptyPool → i.status = .pending)
    (hother : ∀ j' step' u', ¬ (j' = j ∧ step' = step ∧ u' = u) →
      itemRow items' j' step' u' = itemRow items j' step' u') :
    Reached j u emptyPool (k + 1) before items' := by
  have hne (step' : String) (hs : step' ≠ step) :
      itemRow items' j step' u = itemRow items j step' u := hother j step' u fun he => hs he.2.1
  refine ⟨fun step' => ?_, fun step' i' hi' => ?_, fun i' hi' => ?_, fun j' step' u' hju => ?_⟩
  · rw [mem_take_succ hk]
    by_cases hs : step' = step
    · rw [hs, hi]
      exact iff_of_true (Option.some_ne_none i) (.inr rfl)
    · rw [hne step' hs, or_iff_left hs]
      exact h.present step'
  · by_cases hs : step' = step
    · rw [hs, hi] at hi'
      cases hi'
      rw [hs]
      exact hstatus
    · rw [hne step' hs] at hi'
      exact h.settled step' i' hi'
  · by_cases hs : "curate" = step
    · rw [hs, hi] at hi'
      cases hi'
      exact hcurate hs.symm
    · rw [hne "curate" hs] at hi'
      exact h.curated i' hi'
  · rw [hother j' step' u' fun he => hju ⟨he.1, he.2.2⟩]
    exact h.elsewhere j' step' u' hju

/-- The step to come has no item yet. -/
theorem Reached.absent (h : Reached j u emptyPool k before items) (hk : runSteps[k]? = some step) :
    itemRow items j step u = none := by
  by_contra hn
  exact notMem_take hk ((h.present step).1 hn)

/-- An item that is not there is added at the end. -/
theorem commit_add_absent (items : List (Item Output)) (now : String)
    (hm : itemKey m = (.text step, .text u)) (habsent : itemRow items j step u = none) :
    commit items (.add j m now) = items ++ [{ jobId := j, itemMetadata := m, updatedAt := now }] := by
  have hany : (items.any fun i => i.sameAs j m) = false := by
    rw [List.any_eq_false]
    intro i hi
    rw [sameAs_isOf hm]
    exact List.find?_eq_none.1 habsent i hi
  rw [commit, hany, if_neg Bool.false_ne_true]

namespace ToolRun

theorem items_addItem (x : ToolRun) (s : ToolDb) (hj : x.job = some j)
    (habsent : itemRow s.items j step x.batchId = none) :
    (∃ i, itemRow (s.commitAll (x.addItem step)).items j step x.batchId = some i ∧
        i.status = .pending) ∧
      ∀ j' step' u', ¬ (j' = j ∧ step' = step ∧ u' = x.batchId) →
        itemRow (s.commitAll (x.addItem step)).items j' step' u' = itemRow s.items j' step' u' := by
  have hm : itemKey (x.metadata step) = (.text step, .text x.batchId) := itemKey_makeMetadata ..
  have hrow : (s.commitAll (x.addItem step)).items = s.items ++
      [{ jobId := j, itemMetadata := x.metadata step, updatedAt := x.now step }] := by
    rw [addItem, hj]
    exact commit_add_absent s.items (x.now step) hm habsent
  have hnew (j' step' u' : String) :
      Item.isOf (ω := Output) { jobId := j, itemMetadata := x.metadata step, updatedAt := x.now step }
        j' step' u' = decide (j' = j ∧ step' = step ∧ u' = x.batchId) := by
    rw [Bool.eq_iff_iff, decide_eq_true_iff, isOf_iff, hm, Prod.mk.injEq, Value.text.injEq,
      Value.text.injEq]
    exact ⟨fun h => ⟨h.1.symm, h.2.1.symm, h.2.2.symm⟩, fun h => ⟨h.1.symm, h.2.1.symm, h.2.2.symm⟩⟩
  constructor
  · refine ⟨{ jobId := j, itemMetadata := x.metadata step, updatedAt := x.now step }, ?_, rfl⟩
    rw [hrow, itemRow, List.find?_append]
    rw [itemRow] at habsent
    rw [habsent, Option.none_or, List.find?_singleton, hnew, if_pos]
    exact decide_eq_true ⟨rfl, rfl, rfl⟩
  · intro j' step' u' hne
    rw [hrow, itemRow, List.find?_append, List.find?_singleton, hnew, if_neg, Option.or_none, itemRow]
    exact fun h => hne (of_decide_eq_true h)

/-- The item of a step, added and then given its status. -/
theorem items_settle (x : ToolRun) (s : ToolDb) (hj : x.job = some j)
    (habsent : itemRow s.items j step x.batchId = none) (status : ItemStatus) (output : Output) :
    (∃ i, itemRow (s.commitAll (x.addItem step ++ x.updateItem step status output)).items j step
        x.batchId = some i ∧ i.status = status ∧ i.outputData = some output) ∧
      ∀ j' step' u', ¬ (j' = j ∧ step' = step ∧ u' = x.batchId) →
        itemRow (s.commitAll (x.addItem step ++ x.updateItem step status output)).items j' step' u' =
          itemRow s.items j' step' u' := by
  have hm : itemKey (x.metadata step) = (.text step, .text x.batchId) := itemKey_makeMetadata ..
  obtain ⟨⟨i, hi, -⟩, hother⟩ := items_addItem x s hj habsent
  have hrow : (s.commitAll (x.addItem step ++ x.updateItem step status output)).items =
      commit (s.commitAll (x.addItem step)).items
        (.update j (x.metadata step) status output (x.now step)) := by
    rw [ToolDb.commitAll_append, updateItem, hj]
    rfl
  rw [hrow]
  constructor
  · rw [itemRow_update_self _ _ _ _ hm, hi]
    exact ⟨_, rfl, rfl, rfl⟩
  · intro j' step' u' hne
    rw [itemRow_update_ne _ _ _ _ hm hne, hother j' step' u' hne]

end ToolRun

/-- A step that is done with. -/
theorem Reached.settle (h : Reached j x.batchId emptyPool k before s.items) (hj : x.job = some j)
    (hk : runSteps[k]? = some step) (hstatus : status = .completed ∨ status = .failed)
    (hcurate : step = "curate" → ¬ emptyPool) (output : Output) :
    Reached j x.batchId emptyPool (k + 1) before
        (s.commitAll (x.addItem step ++ x.updateItem step status output)).items ∧
      ∃ i, itemRow (s.commitAll (x.addItem step ++ x.updateItem step status output)).items j step
        x.batchId = some i ∧ i.status = status ∧ i.outputData = some output := by
  obtain ⟨⟨i, hi, hst, hout⟩, hother⟩ := x.items_settle s hj (h.absent hk) status output
  refine ⟨h.next hk hi ?_ (fun hs hn => absurd hn (hcurate hs)) hother, i, hi, hst, hout⟩
  rw [hst]
  exact hstatus.imp_right .inl

/-- The curation without candidates. -/
theorem Reached.leave (h : Reached j x.batchId emptyPool k before s.items) (hj : x.job = some j)
    (hk : runSteps[k]? = some "curate") (hno : emptyPool) :
    Reached j x.batchId emptyPool (k + 1) before (s.commitAll (x.addItem "curate")).items := by
  obtain ⟨⟨i, hi, hst⟩, hother⟩ := x.items_addItem s hj (h.absent hk)
  exact h.next hk hi (.inr (.inr ⟨hst, rfl, hno⟩)) (fun _ _ => hst) hother

/-! ### How a run leaves its items -/

/-- Where a run stops, some first steps have items; the last one is given what a completed run
returns. -/
structure Ended (x : ToolRun) (j : String) (emptyPool : Prop) (before : List (Item Output))
    (s : ToolDb) (run : List ToolWrite × Outcome) : Prop where
  reached : ∃ k, Reached j x.batchId emptyPool k before (s.commitAll run.1).items
  finished : ∀ p, run.2 = .completed p →
    ∃ i, itemRow (s.commitAll run.1).items j "finalize" x.batchId = some i ∧
      i.status = .completed ∧ i.outputData = some (.finished p)

theorem Ended.stop (h : Reached j x.batchId emptyPool k before s.items)
    (hout : ∀ p, outcome ≠ .completed p) : Ended x j emptyPool before s ([], outcome) where
  reached := ⟨k, h⟩
  finished p hp := absurd hp (hout p)

theorem Ended.after (h : Ended x j emptyPool before (s.commitAll ws) run) :
    Ended x j emptyPool before s (ToolRun.after ws run) := by
  have hs : s.commitAll (ToolRun.after ws run).1 = (s.commitAll ws).commitAll run.1 :=
    ToolDb.commitAll_append s ws run.1
  constructor
  · rw [hs]
    exact h.reached
  · intro p hp
    rw [hs]
    exact h.finished p hp

theorem ToolRun.canceled_ne (summary : String) (p : Payload) :
    (ToolRun.canceled summary).2 ≠ .completed p := Outcome.noConfusion

theorem items_broadcast (x : ToolRun) (s : ToolDb) (t : String) (valid top10 : List Fields) :
    (s.commitAll (x.broadcast t valid top10)).items = s.items := rfl

theorem finalize_ended (hj : x.job = some j)
    (h : Reached j x.batchId emptyPool 4 before s.items) (t : String) (results : Results)
    (slim : List Fields) (c : Curated) (artifacts : List Artifact) :
    Ended x j emptyPool before s (x.finalize t results slim c artifacts) := by
  rw [ToolRun.finalize]
  refine Ended.after ?_
  rw [← items_broadcast x s t results.valid c.top10] at h
  generalize s.commitAll (x.broadcast t results.valid c.top10) = s' at h ⊢
  split
  next => exact Ended.stop h fun p => Outcome.noConfusion
  next summary =>
    dsimp only
    generalize hp : Payload.mk .. = payload
    obtain ⟨hreached, i, hi, hst, hout⟩ := h.settle hj rfl (.inl rfl)
      (fun he => absurd he (by decide)) (.finished payload)
    refine Ended.after ?_
    split
    next => exact Ended.stop hreached fun p => Outcome.noConfusion
    next =>
      refine ⟨⟨5, hreached⟩, fun p hp => ⟨i, hi, hst, ?_⟩⟩
      cases hp
      exact hout

theorem writeTop10_ended (hj : x.job = some j)
    (h : Reached j x.batchId emptyPool 3 before s.items) (t : String) (results : Results)
    (slim : List Fields) (c : Curated) (artifacts : List Artifact) :
    Ended x j emptyPool before s (x.writeTop10 t results slim c artifacts) := by
  have hsettled (status : ItemStatus) (hst : status = .completed ∨ status = .failed)
      (output : Output) := (h.settle hj rfl hst (fun he => absurd he (by decide)) output).1
  have hrest (s' : ToolDb) (h' : Reached j x.batchId emptyPool 4 before s'.items)
      (artifacts : List Artifact) : Ended x j emptyPool before s'
        (if x.stopped 3 then ToolRun.canceled "Scraper canceled before backup acknowledgment."
        else if x.stopped 4 then ToolRun.canceled "Scraper canceled before finalization."
        else x.finalize t results slim c artifacts) := by
    split
    next => exact Ended.stop h' (ToolRun.canceled_ne _)
    next =>
      split
      next => exact Ended.stop h' (ToolRun.canceled_ne _)
      next => exact finalize_ended hj h' ..
  rw [ToolRun.writeTop10]
  split
  next => exact Ended.stop h (ToolRun.canceled_ne _)
  next =>
    refine Ended.after ?_
    split
    next => exact hrest _ (hsettled .completed (.inl rfl) _) _
    next => exact hrest _ (hsettled .failed (.inr rfl) _) _

theorem curate_ended (hj : x.job = some j) (slim : List Fields)
    (h : Reached j x.batchId (slim = []) 2 before s.items) (t : String) (results : Results)
    (artifacts : List Artifact) :
    Ended x j (slim = []) before s (x.curate t results slim artifacts) := by
  rw [ToolRun.curate]
  split
  next => exact Ended.stop h (ToolRun.canceled_ne _)
  next =>
    dsimp only
    refine Ended.after (writeTop10_ended hj ?_ ..)
    split
    next hempty =>
      rw [List.append_nil]
      exact h.leave hj rfl (List.isEmpty_iff.1 hempty)
    next hsome =>
      exact (h.settle hj rfl (.inl rfl) (fun _ he => hsome (List.isEmpty_iff.2 he)) _).1

theorem slimList_ended (hj : x.job = some j) (results : Results)
    (h : Reached j x.batchId (buildSlimList results.valid = []) 1 before s.items) (t : String)
    (artifacts : List Artifact) :
    Ended x j (buildSlimList results.valid = []) before s (x.slimList t results artifacts) := by
  rw [ToolRun.slimList]
  split
  next => exact Ended.stop h (ToolRun.canceled_ne _)
  next =>
    split
    next => exact Ended.stop h fun p => Outcome.noConfusion
    next =>
      exact Ended.after (curate_ended hj _
        (h.settle hj rfl (.inl rfl) (fun he => absurd he (by decide)) _).1 ..)

theorem extract_ended (hj : x.job = some j) (results : Results)
    (h : Reached j x.batchId (buildSlimList results.valid = []) 0 before s.items) (t : String) :
    Ended x j (buildSlimList results.valid = []) before s (x.extract t results) := by
  rw [ToolRun.extract]
  split
  next => exact Ended.stop h fun p => Outcome.noConfusion
  next =>
    have hsettled (status : ItemStatus) (hst : status = .completed ∨ status = .failed)
        (output : Output) := (h.settle hj rfl hst (fun he => absurd he (by decide)) output).1
    split
    next =>
      have hfailed := hsettled .failed (.inr rfl) .emptyResults
      rw [ToolDb.commitAll_append] at hfailed
      refine Ended.after ⟨⟨1, hfailed⟩, fun p hp => ?_⟩
      cases hp
    next =>
      have hdone := hsettled .completed (.inl rfl) (.extracted results.valid.length x.batchId)
      rw [ToolDb.commitAll_append] at hdone
      exact Ended.after (Ended.after (slimList_ended hj results hdone t _))

/-- The pool is empty if no article is there to be reported. -/
theorem reportable_eq_nil (h : x.scraped = .ok results) :
    (∀ results, x.scraped = .ok results → x.reportable results = []) ↔
      buildSlimList (x.mergeCompletedArticles results).valid = [] := by
  obtain ⟨hulids, hnamed⟩ := ulids_buildSlimList (x.mergeCompletedArticles results).valid
  have hpool : x.reportable results = [] ↔
      buildSlimList (x.mergeCompletedArticles results).valid = [] := by
    rw [ToolRun.reportable, ← hulids, ← List.length_eq_zero_iff, length_filterMap_ulid hnamed,
      List.length_eq_zero_iff]
  rw [← hpool]
  constructor
  · exact fun hall => hall results h
  · intro hnil results' h'
    rw [h] at h'
    cases h'
    exact hnil

end Scraper
