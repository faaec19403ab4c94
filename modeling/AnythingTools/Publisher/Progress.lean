import AnythingTools.Jobs.ItemRow
import AnythingTools.Publisher.Run

namespace Publisher
open JobItems Relational
set_option autoImplicit true

theorem sameAs_has {i : Item Output} (hm : itemKey m = (.text stepType, .text ulid)) :
    i.sameAs jobId m = (decide (i.jobId = jobId) && Item.has i stepType ulid) := sameAs_isOf hm

/-- An item has one key. -/
theorem has_inj {i : Item Output} (h : Item.has i stepType ulid = true)
    (h' : Item.has i stepType' ulid' = true) : stepType = stepType' ∧ ulid = ulid' := by
  rw [Item.has, decide_eq_true_eq] at h h'
  rw [h, Prod.mk.injEq] at h'
  exact ⟨Value.text.inj h'.1, Value.text.inj h'.2⟩

/-- The row that holds the progress of a job. -/
def progressRow (items : List (Item Output)) (jobId stepType ulid : String) :
    Option (Item Output) :=
  items.find? fun i => decide (i.jobId = jobId) && Item.has i stepType ulid

def outputCount : Option Output → Nat
  | some (.chunksSent n) => n
  | _ => 0

theorem chunksSent_eq (items : List (Item Output)) (jobId : String) (channel : Channel)
    (ulid : String) : chunksSent items jobId channel ulid =
      outputCount ((progressRow items jobId channel.step ulid).bind Item.outputData) := by
  rw [chunksSent, progressRow]
  cases items.find? fun i => decide (i.jobId = jobId) && Item.has i channel.step ulid with
  | none => rfl
  | some i =>
    change (match i.outputData with
      | some (.chunksSent n) => n
      | _ => 0) = outputCount i.outputData
    unfold outputCount
    rfl

/-- The rows of an update of one key. -/
def updated (jobId : String) (m : Metadata) (status : ItemStatus) (output : Output) (now : String)
    (i : Item Output) : Item Output :=
  if i.sameAs jobId m then
    { i with status, outputData := some output, updatedAt := now, itemMetadata := m }
  else i

theorem commit_update (items : List (Item Output)) (jobId : String) (m : Metadata)
    (status : ItemStatus) (output : Output) (now : String) :
    commit items (.update jobId m status output now) =
      items.map (updated jobId m status output now) := rfl

/-- An update gives no row another key. -/
theorem has_updated (jobId : String) (m : Metadata) (status : ItemStatus) (output : Output)
    (now : String) (i : Item Output) (stepType ulid : String) :
    Item.has (updated jobId m status output now i) stepType ulid = Item.has i stepType ulid := by
  rw [updated]
  split
  next h => rw [Item.has, Item.has, (sameAs_iff.1 h).2.1]
  next => rfl

theorem progressRow_update (items : List (Item Output)) (jobId : String) (m : Metadata)
    (status : ItemStatus) (output : Output) (now jobId' stepType ulid : String) :
    progressRow (commit items (.update jobId m status output now)) jobId' stepType ulid =
      (progressRow items jobId' stepType ulid).map (updated jobId m status output now) :=
  itemRow_update items jobId m status output now jobId' stepType ulid

theorem progressRow_add (items : List (Item Output)) (jobId : String) (m : Metadata)
    (now jobId' stepType ulid : String) :
    progressRow (commit items (.add jobId m now)) jobId' stepType ulid =
        progressRow items jobId' stepType ulid ∨
      progressRow items jobId' stepType ulid = none ∧
        progressRow (commit items (.add jobId m now)) jobId' stepType ulid =
          some { jobId, itemMetadata := m, updatedAt := now } :=
  itemRow_add items jobId m now jobId' stepType ulid

/-- A row that is added has no output. -/
@[simp] theorem chunksSent_add (items : List (Item Output)) (jobId : String) (m : Metadata)
    (now jobId' : String) (channel : Channel) (ulid : String) :
    chunksSent (commit items (.add jobId m now)) jobId' channel ulid =
      chunksSent items jobId' channel ulid := by
  rw [chunksSent_eq, chunksSent_eq]
  rcases progressRow_add items jobId m now jobId' channel.step ulid with h | ⟨h, h'⟩
  · rw [h]
  · rw [h, h']
    rfl

/-- After `add_job_item` there is a row of the key. -/
theorem progressRow_added (items : List (Item Output)) (now : String)
    (hm : itemKey m = (.text stepType, .text ulid)) :
    (progressRow (commit items (.add jobId m now)) jobId stepType ulid).isSome = true := by
  rw [progressRow, List.find?_isSome, commit]
  split
  next h =>
    obtain ⟨i, hi, hs⟩ := List.any_eq_true.1 h
    rw [sameAs_has hm] at hs
    exact ⟨i, hi, hs⟩
  next =>
    refine ⟨_, List.mem_append_right _ (List.mem_singleton_self _), ?_⟩
    rw [Bool.and_eq_true, decide_eq_true_eq, Item.has, decide_eq_true_eq]
    exact ⟨rfl, hm⟩

theorem progressRow_has (h : progressRow items jobId stepType ulid = some i) :
    i.jobId = jobId ∧ Item.has i stepType ulid = true := by
  have hp := List.find?_some h
  rw [Bool.and_eq_true, decide_eq_true_eq] at hp
  exact hp

/-- An update of another key leaves the counter. -/
theorem chunksSent_update_ne (items : List (Item Output)) (status : ItemStatus) (output : Output)
    (now : String) (hm : itemKey m = (.text stepType, .text ulid))
    (hne : ¬ (jobId' = jobId ∧ channel.step = stepType ∧ ulid' = ulid)) :
    chunksSent (commit items (.update jobId m status output now)) jobId' channel ulid' =
      chunksSent items jobId' channel ulid' := by
  rw [chunksSent_eq, chunksSent_eq, progressRow_update]
  cases h : progressRow items jobId' channel.step ulid' with
  | none => rfl
  | some i =>
    obtain ⟨hj, hk⟩ := progressRow_has h
    have hsame : ¬ i.sameAs jobId m = true := by
      rw [sameAs_has hm, Bool.and_eq_true, decide_eq_true_eq]
      rintro ⟨hj', hk'⟩
      obtain ⟨hs, hu⟩ := has_inj hk hk'
      exact hne ⟨hj.symm.trans hj', hs, hu⟩
    rw [Option.map_some, updated, if_neg hsame]

/-- An update of the key sets the counter, once the row is there. -/
theorem chunksSent_update_self (items : List (Item Output)) (status : ItemStatus)
    (output : Output) (now : String) (hm : itemKey m = (.text channel.step, .text ulid))
    (hrow : (progressRow items jobId channel.step ulid).isSome = true) :
    chunksSent (commit items (.update jobId m status output now)) jobId channel ulid =
      outputCount (some output) := by
  obtain ⟨i, hi⟩ := Option.isSome_iff_exists.1 hrow
  obtain ⟨hj, hk⟩ := progressRow_has hi
  have hsame : i.sameAs jobId m = true := by
    rw [sameAs_has hm, Bool.and_eq_true, decide_eq_true_eq]
    exact ⟨hj, hk⟩
  rw [chunksSent_eq, progressRow_update, hi, Option.map_some, updated, if_pos hsame]
  rfl

/-- The completed translations of an article. -/
def isCached (ulid : String) (i : Item Output) : Bool :=
  Item.has i "translate" ulid && decide (i.status = .completed)

/-- Every completed translation has its texts. -/
def TranslationsKept (items : List (Item Output)) : Prop :=
  ∀ i ∈ items, ∀ ulid, isCached ulid i = true → ∃ t, i.outputData = some (.translation t)

def translationOf : Option Output → Option Translation
  | some (.translation t) => some t
  | _ => none

theorem cached_eq (items : List (Item Output)) (ulid : String) : cached items ulid =
    ((items.filter (isCached ulid)).insertionSort fun a b => b.updatedAt ≤ a.updatedAt).head?.bind
      fun i => translationOf i.outputData := by
  have hkept : (fun i : Item Output => Item.has i "translate" ulid && decide (i.status = .completed)) =
      isCached ulid := rfl
  rw [cached, hkept]
  cases ((items.filter (isCached ulid)).insertionSort
      (fun a b => b.updatedAt ≤ a.updatedAt)).head? with
  | none => rfl
  | some i =>
    dsimp only [Option.bind_some]
    unfold translationOf
    rfl

theorem cached_congr {items items' : List (Item Output)}
    (h : items'.filter (isCached ulid) = items.filter (isCached ulid)) :
    cached items' ulid = cached items ulid := by
  rw [cached_eq, cached_eq, h]

theorem cached_none (h : items.filter (isCached ulid) = []) : cached items ulid = none := by
  rw [cached_eq, h]
  rfl

theorem cached_some (hk : TranslationsKept items) (h : items.filter (isCached ulid) ≠ []) :
    ∃ i ∈ items, isCached ulid i = true ∧ ∃ t, i.outputData = some (.translation t) ∧
      cached items ulid = some t := by
  have hp := List.perm_insertionSort (fun a b : Item Output => b.updatedAt ≤ a.updatedAt)
    (items.filter (isCached ulid))
  have hne : (items.filter (isCached ulid)).insertionSort
      (fun a b => b.updatedAt ≤ a.updatedAt) ≠ [] := by
    intro he
    rw [he] at hp
    exact h hp.symm.eq_nil
  obtain ⟨i, rows, he⟩ := List.exists_cons_of_ne_nil hne
  have hi : i ∈ items.filter (isCached ulid) := by
    rw [← hp.mem_iff, he]
    exact List.mem_cons_self
  obtain ⟨hmem, hc⟩ := List.mem_filter.1 hi
  obtain ⟨t, ht⟩ := hk i hmem ulid hc
  refine ⟨i, hmem, hc, t, ht, ?_⟩
  rw [cached_eq, he, List.head?_cons, Option.bind_some, ht]
  rfl

theorem filter_of_cached_none (hk : TranslationsKept items) (h : cached items ulid = none) :
    items.filter (isCached ulid) = [] := by
  by_contra hne
  obtain ⟨_, _, _, t, _, ht⟩ := cached_some hk hne
  rw [h] at ht
  cases ht

/-- A row that is added is not completed. -/
theorem mem_commit_add (h : i ∈ commit items (.add jobId m now)) :
    i ∈ items ∨ i.status = .pending ∧ i.outputData = (none : Option Output) := by
  rw [commit] at h
  split at h
  next => exact .inl h
  next =>
    rcases List.mem_append.1 h with h | h
    · exact .inl h
    · rw [List.mem_singleton.1 h]
      exact .inr ⟨rfl, rfl⟩

theorem not_isCached {i : Item Output} (h : i.status ≠ .completed) (ulid : String) :
    isCached ulid i = false := by
  rw [isCached, decide_eq_false h, Bool.and_false]

@[simp] theorem cached_add (items : List (Item Output)) (jobId : String) (m : Metadata)
    (now ulid : String) : cached (commit items (.add jobId m now)) ulid = cached items ulid := by
  apply cached_congr
  rw [commit]
  split
  next => rfl
  next =>
    rw [List.filter_append, List.filter_singleton, not_isCached ItemStatus.noConfusion,
      cond_false, List.append_nil]

theorem kept_add (hk : TranslationsKept items) (jobId : String) (m : Metadata) (now : String) :
    TranslationsKept (commit items (.add jobId m now)) := by
  intro i hi ulid hc
  rcases mem_commit_add hi with hi | ⟨hs, _⟩
  · exact hk i hi ulid hc
  · rw [not_isCached (by rw [hs]; exact ItemStatus.noConfusion)] at hc
    cases hc

theorem isCached_has (h : isCached ulid i = true) : Item.has i "translate" ulid = true := by
  rw [isCached, Bool.and_eq_true] at h
  exact h.1

section
variable {m : Metadata} (hm : itemKey m = (.text stepType, .text ulid))
include hm

/-- An update leaves the rows of the other keys. -/
theorem updated_of_ne {i : Item Output} (hi : Item.has i stepType' ulid' = true)
    (hne : ¬ (stepType' = stepType ∧ ulid' = ulid)) : updated jobId m status output now i = i := by
  rw [updated, if_neg]
  rw [sameAs_has hm, Bool.and_eq_true]
  rintro ⟨_, hs⟩
  exact hne (has_inj hi hs)

theorem filter_update_ne (items : List (Item Output)) (jobId : String) (status : ItemStatus)
    (output : Output) (now : String) (hne : ¬ ("translate" = stepType ∧ ulid' = ulid)) :
    (commit items (.update jobId m status output now)).filter (isCached ulid') =
      items.filter (isCached ulid') := by
  have hp : isCached ulid' ∘ updated jobId m status output now = isCached ulid' := by
    funext i
    rw [Function.comp_apply]
    cases hh : Item.has i "translate" ulid' with
    | true => rw [updated_of_ne hm hh hne]
    | false => rw [isCached, isCached, has_updated, hh, Bool.false_and, Bool.false_and]
  rw [commit_update, List.filter_map, hp]
  apply (List.map_congr_left _).trans (List.map_id _)
  intro i hi
  exact updated_of_ne hm (isCached_has (List.mem_filter.1 hi).2) hne

theorem cached_update_ne (items : List (Item Output)) (jobId : String) (status : ItemStatus)
    (output : Output) (now : String) (hne : ¬ ("translate" = stepType ∧ ulid' = ulid)) :
    cached (commit items (.update jobId m status output now)) ulid' = cached items ulid' :=
  cached_congr (filter_update_ne hm items jobId status output now hne)

/-- Completed with a translation, failed, or of another step: what the updates of a run are. -/
theorem kept_update (hk : TranslationsKept items) (jobId now : String)
    (h : stepType = "translate" → status = .completed → ∃ t, output = .translation t) :
    TranslationsKept (commit items (.update jobId m status output now)) := by
  intro i' hi' ulid' hc
  obtain ⟨i, hi, he⟩ := List.mem_map.1 hi'
  by_cases hs : i.sameAs jobId m = true
  · rw [if_pos hs] at he
    have hkey : Item.has i' stepType ulid = true := by
      rw [← he, Item.has, decide_eq_true_eq]
      exact hm
    obtain ⟨hstep, _⟩ := has_inj hkey (isCached_has hc)
    rw [isCached, Bool.and_eq_true, decide_eq_true_eq, ← he] at hc
    obtain ⟨t, ht⟩ := h hstep hc.2
    refine ⟨t, ?_⟩
    rw [← he, ht]
  · rw [if_neg hs] at he
    rw [← he] at hc ⊢
    exact hk i hi ulid' hc

end

/-- A translation that fails leaves an article without one. -/
theorem cached_update_failed (hk : TranslationsKept items) (jobId : String) (output : Output)
    (now : String) (h : cached items ulid' = none) :
    cached (commit items (.update jobId m .failed output now)) ulid' = none := by
  apply cached_none
  have hnone := filter_of_cached_none hk h
  rw [List.filter_eq_nil_iff] at hnone ⊢
  intro i' hi' hc
  obtain ⟨i, hi, he⟩ := List.mem_map.1 hi'
  by_cases hs : i.sameAs jobId m = true
  · rw [if_pos hs] at he
    rw [← he, not_isCached ItemStatus.noConfusion] at hc
    cases hc
  · rw [if_neg hs] at he
    rw [← he] at hc
    exact hnone i hi hc

/-- The first translation of an article is what the cache has from then on. -/
theorem cached_update_translated (hk : TranslationsKept items)
    (hm : itemKey m = (.text "translate", .text ulid)) (now : String)
    (hrow : (progressRow items jobId "translate" ulid).isSome = true)
    (h : cached items ulid = none) :
    cached (commit items (.update jobId m .completed (.translation t) now)) ulid = some t := by
  have hnone := filter_of_cached_none hk h
  rw [List.filter_eq_nil_iff] at hnone
  have hall : ∀ i' ∈ commit items (.update jobId m .completed (.translation t) now),
      isCached ulid i' = true → i'.outputData = some (.translation t) := by
    intro i' hi' hc
    obtain ⟨i, hi, he⟩ := List.mem_map.1 hi'
    by_cases hs : i.sameAs jobId m = true
    · rw [if_pos hs] at he
      rw [← he]
    · rw [if_neg hs] at he
      rw [← he] at hc
      exact absurd hc (hnone i hi)
  obtain ⟨i, hi⟩ := Option.isSome_iff_exists.1 hrow
  obtain ⟨hj, hk'⟩ := progressRow_has hi
  have hsame : i.sameAs jobId m = true := by
    rw [sameAs_has hm, Bool.and_eq_true, decide_eq_true_eq]
    exact ⟨hj, hk'⟩
  have hne : (commit items (.update jobId m .completed (.translation t) now)).filter
      (isCached ulid) ≠ [] := by
    apply List.ne_nil_of_mem
    apply List.mem_filter.2
    refine ⟨List.mem_map_of_mem (List.mem_of_find?_eq_some hi), ?_⟩
    rw [if_pos hsame, isCached, Bool.and_eq_true, Item.has, decide_eq_true_eq]
    exact ⟨hm, rfl⟩
  have hkept : TranslationsKept
      (commit items (.update jobId m .completed (.translation t) now)) :=
    kept_update hm hk jobId now fun _ _ => ⟨t, rfl⟩
  obtain ⟨i', hi', hc, t', ht', hcached⟩ := cached_some hkept hne
  rw [hall i' hi' hc] at ht'
  cases ht'
  exact hcached

end Publisher
