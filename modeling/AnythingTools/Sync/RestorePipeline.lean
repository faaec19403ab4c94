import AnythingTools.Sync.CascadeFrame
import Mathlib.Data.List.Flatten
import Mathlib.Data.List.TakeWhile

namespace Sync
open Relational Relational.Database Schemas
set_option autoImplicit true

variable {temp : Database}

/-- What a restore meets on its way: reads of the staged rows that raise, transactions that the
full queue drops, the number of those in the queue that the writer has executed when the call
returns, and whether anything outside the tables raises. -/
structure RestoreIo where
  cloudEnabled : Bool := true
  raises : Bool := false
  fetchFails : String → Nat → Bool := fun _ _ => false
  dropped : String → Nat → Bool := fun _ _ => false
  executed : Nat

/-- The chunks of a table with their places. -/
def tableChunks (temp : Database) (t : String) : List (List Row × Nat) :=
  (Python.chunks 1000 (temp.rows t)).zipIdx

/-- The transactions that come into the queue. A read that raises ends its table; nobody looks at
the receipts. -/
def handedOver (io : RestoreIo) (temp : Database) : List (List Stmt) :=
  persistedTables.flatMap fun t =>
    (((tableChunks temp t).takeWhile fun c => !io.fetchFails t c.2).filter fun c =>
      !io.dropped t c.2).map fun c => c.1.map (insertOrReplace temp t)

/-- What the call returns, and the statements that are committed by then. -/
structure Restoring where
  returned : Bool
  committed : List Stmt := []

def restorePipeline (e : Env) (io : RestoreIo) (db cloud : Database) : Restoring :=
  if io.cloudEnabled = false then { returned := false }
  else
    match pullToLocal e cloud with
    | .error _ => { returned := false }
    | .ok temp =>
      { returned := !io.raises
        committed := applied e.now db ((handedOver io temp).take io.executed) }

/-- A restore that returns True has committed every staged row, as often as it was brought. -/
def RestoreSound (e : Env) (io : RestoreIo) (db cloud : Database) : Prop :=
  (restorePipeline e io db cloud).returned = true →
    ∀ temp, pullToLocal e cloud = .ok temp → ∀ t ∈ persistedTables, ∀ s,
      ((temp.rows t).map (insertOrReplace temp t)).count s ≤
        (restorePipeline e io db cloud).committed.count s

/-- Each transaction breaks no constraint of the database that the ones before it have left. -/
def Accepts (now : String) (db : Database) : List (List Stmt) → Prop
  | [] => True
  | ss :: txs => ∃ db', db.execAll now ss = .ok db' ∧ Accepts now db' txs

/-- No chunk gets lost on its way to the database. -/
structure NothingLost (e : Env) (io : RestoreIo) (db temp : Database) : Prop where
  fetched : ∀ t ∈ persistedTables, ∀ c ∈ tableChunks temp t, io.fetchFails t c.2 = false
  queued : ∀ t ∈ persistedTables, ∀ c ∈ tableChunks temp t, io.dropped t c.2 = false
  inTime : (restoreTransactions temp).length ≤ io.executed
  accepted : Accepts e.now db (restoreTransactions temp)

theorem applied_sublist (now : String) (db : Database) (txs : List (List Stmt)) :
    (applied now db txs).Sublist txs.flatten := by
  induction txs generalizing db with
  | nil => exact .slnil
  | cons ss txs ih =>
    rw [applied, List.flatten_cons]
    cases db.execAll now ss with
    | ok db' => exact (List.Sublist.refl ss).append (ih db')
    | error err => exact (ih db).trans (List.sublist_append_right ss _)

theorem applied_eq_flatten (db : Database) (hne : ∀ ss ∈ txs, ss ≠ []) :
    applied now db txs = txs.flatten ↔ Accepts now db txs := by
  induction txs generalizing db with
  | nil => exact iff_of_true rfl trivial
  | cons ss txs ih =>
    have ih := fun db => ih db fun ss hs => hne ss (List.mem_cons_of_mem _ hs)
    rw [applied, List.flatten_cons, Accepts]
    cases he : db.execAll now ss with
    | ok db' =>
      simp only [List.append_cancel_left_eq, ih, Except.ok.injEq, exists_eq_left']
    | error err =>
      apply iff_of_false
      · intro h
        have hl := (applied_sublist now db txs).length_le
        have hpos := List.length_pos_iff.2 (hne ss List.mem_cons_self)
        dsimp only at h
        rw [h, List.length_append] at hl
        omega
      · rintro ⟨db', h, _⟩
        cases h

/-- Lists without empty parts that are told apart by a part differ when they are joined. -/
theorem eq_of_flatten {l l' : List (List α)} (h : l.Sublist l') (hne : ∀ a ∈ l', a ≠ [])
    (he : l'.flatten.length ≤ l.flatten.length) : l = l' := by
  induction h with
  | slnil => rfl
  | cons a h ih =>
    have hl := h.flatten.length_le
    have hpos := List.length_pos_iff.2 (hne a List.mem_cons_self)
    rw [List.flatten_cons, List.length_append] at he
    omega
  | cons_cons a h ih =>
    rw [List.flatten_cons, List.flatten_cons, List.length_append, List.length_append] at he
    rw [ih (fun b hb => hne b (List.mem_cons_of_mem _ hb)) (by omega)]

theorem flatMap_sublist {l : List α} {f g : α → List β} (h : ∀ a ∈ l, (f a).Sublist (g a)) :
    (l.flatMap f).Sublist (l.flatMap g) := by
  induction l with
  | nil => exact .slnil
  | cons a l ih =>
    rw [List.flatMap_cons, List.flatMap_cons]
    exact (h a List.mem_cons_self).append (ih fun b hb => h b (List.mem_cons_of_mem a hb))

theorem eq_of_flatMap {l : List α} {f g : α → List β} (h : ∀ a ∈ l, (f a).Sublist (g a))
    (he : l.flatMap f = l.flatMap g) : ∀ a ∈ l, f a = g a := by
  induction l with
  | nil =>
    intro a ha
    cases ha
  | cons b l ih =>
    have hb := h b List.mem_cons_self
    have hl : ∀ a ∈ l, (f a).Sublist (g a) := fun a ha => h a (List.mem_cons_of_mem b ha)
    rw [List.flatMap_cons, List.flatMap_cons] at he
    have hlen := congrArg List.length he
    rw [List.length_append, List.length_append] at hlen
    have hrest := (flatMap_sublist hl).length_le
    have hhead : f b = g b := hb.eq_of_length_le (by omega)
    rw [hhead, List.append_cancel_left_eq] at he
    intro a ha
    rcases List.mem_cons.1 ha with heq | ha
    · rw [heq, hhead]
    · exact ih hl he a ha

theorem restoreTransactions_eq (temp : Database) : restoreTransactions temp =
    persistedTables.flatMap fun t => (tableChunks temp t).map fun c =>
      c.1.map (insertOrReplace temp t) := by
  apply List.flatMap_congr
  intro t _
  have hfst : (tableChunks temp t).map Prod.fst = Python.chunks 1000 (temp.rows t) := by
    rw [tableChunks, List.zipIdx_map_fst]
  rw [← hfst, List.map_map]
  rfl

theorem handedOver_table_sublist (io : RestoreIo) (temp : Database) (t : String) :
    ((((tableChunks temp t).takeWhile fun c => !io.fetchFails t c.2).filter fun c =>
      !io.dropped t c.2).map fun c => c.1.map (insertOrReplace temp t)).Sublist
      ((tableChunks temp t).map fun c => c.1.map (insertOrReplace temp t)) :=
  (List.filter_sublist.trans (List.takeWhile_sublist _)).map _

theorem handedOver_sublist (io : RestoreIo) (temp : Database) :
    (handedOver io temp).Sublist (restoreTransactions temp) := by
  rw [restoreTransactions_eq]
  exact flatMap_sublist fun t _ => handedOver_table_sublist io temp t

/-- All transactions come into the queue when no read fails and none is dropped. -/
theorem handedOver_eq_iff : handedOver io temp = restoreTransactions temp ↔
    ∀ t ∈ persistedTables, ∀ c ∈ tableChunks temp t,
      io.fetchFails t c.2 = false ∧ io.dropped t c.2 = false := by
  rw [restoreTransactions_eq]
  constructor
  · intro h t ht
    have he := eq_of_flatMap (fun t _ => handedOver_table_sublist io temp t) h t ht
    have hlen := congrArg List.length he
    rw [List.length_map, List.length_map] at hlen
    have hsub := List.filter_sublist (p := fun c : List Row × Nat => !io.dropped t c.2)
      (l := (tableChunks temp t).takeWhile fun c => !io.fetchFails t c.2)
    have htake := List.takeWhile_sublist (l := tableChunks temp t) fun c => !io.fetchFails t c.2
    have hall := htake.eq_of_length_le (by have := hsub.length_le; omega)
    have hkept := hsub.eq_of_length_le (by have := htake.length_le; omega)
    rw [hall] at hkept
    rw [List.takeWhile_eq_self_iff] at hall
    rw [List.filter_eq_self] at hkept
    intro c hc
    exact ⟨Bool.not_eq_true' _ ▸ hall c hc, Bool.not_eq_true' _ ▸ hkept c hc⟩
  · intro h
    apply List.flatMap_congr
    intro t ht
    have hall : ((tableChunks temp t).takeWhile fun c => !io.fetchFails t c.2) =
        tableChunks temp t := by
      rw [List.takeWhile_eq_self_iff]
      intro c hc
      rw [(h t ht c hc).1]
      rfl
    have hkept : ((tableChunks temp t).filter fun c => !io.dropped t c.2) =
        tableChunks temp t := by
      rw [List.filter_eq_self]
      intro c hc
      rw [(h t ht c hc).2]
      rfl
    rw [hall, hkept]

theorem chunk_ne_nil (temp : Database) : ∀ ss ∈ restoreTransactions temp, ss ≠ [] := by
  have hslices (n f : Nat) (l : List Row) (hn : 0 < n) : ∀ c ∈ Python.slices n f l, c ≠ [] := by
    induction f generalizing l with
    | zero =>
      intro c hc
      cases hc
    | succ f ih =>
      cases l with
      | nil =>
        intro c hc
        cases hc
      | cons a l =>
        intro c hc
        rcases List.mem_cons.1 hc with he | hc
        · intro hnil
          rw [he, List.take_eq_nil_iff] at hnil
          rcases hnil with hz | hz
          · omega
          · cases hz
        · exact ih _ c hc
  intro ss hss hnil
  obtain ⟨t, _, hss⟩ := List.mem_flatMap.1 hss
  obtain ⟨c, hc, he⟩ := List.mem_map.1 hss
  rw [hnil, List.map_eq_nil_iff] at he
  exact hslices 1000 _ _ (by decide) c hc he

theorem flatten_restoreTransactions (temp : Database) : (restoreTransactions temp).flatten =
    persistedTables.flatMap fun t => (temp.rows t).map (insertOrReplace temp t) := by
  rw [restoreTransactions, List.flatten_eq_flatMap, List.flatMap_assoc]
  apply List.flatMap_congr
  intro t _
  rw [← List.flatten_eq_flatMap, ← List.map_flatten, Python.flatten_chunks (by decide)]

/-- A statement is among those of its own table only. -/
theorem count_flatMap {g : String → List Stmt} (hg : ∀ t, ∀ s ∈ g t, s.target = t)
    (ts : List String) (hn : ts.Nodup) (ht : s.target ∈ ts) :
    (ts.flatMap g).count s = (g s.target).count s := by
  have hzero (t : String) (hne : t ≠ s.target) : (g t).count s = 0 := by
    rw [List.count_eq_zero]
    exact fun hs => hne (hg t s hs).symm
  induction ts with
  | nil => cases ht
  | cons t ts ih =>
    rw [List.nodup_cons] at hn
    rw [List.flatMap_cons, List.count_append]
    by_cases he : t = s.target
    · have hrest : (ts.flatMap g).count s = 0 := by
        rw [List.count_eq_zero]
        intro hs
        obtain ⟨u, hu, hs⟩ := List.mem_flatMap.1 hs
        apply hn.1
        rw [he, hg u s hs]
        exact hu
      rw [hrest, he, Nat.add_zero]
    · rw [hzero t he, Nat.zero_add]
      apply ih hn.2
      rcases List.mem_cons.1 ht with h | h
      · exact (he h.symm).elim
      · exact h

theorem persistedTables_nodup : persistedTables.Nodup := by decide

/-- Committing every row is committing all statements. -/
theorem counts_iff {committed : List Stmt}
    (hsub : committed.Sublist (restoreTransactions temp).flatten) :
    (∀ t ∈ persistedTables, ∀ s,
      ((temp.rows t).map (insertOrReplace temp t)).count s ≤ committed.count s) ↔
      committed = (restoreTransactions temp).flatten := by
  constructor
  · intro h
    apply hsub.eq_of_length_le
    apply List.Subperm.length_le
    rw [List.subperm_ext_iff]
    intro s hs
    rw [flatten_restoreTransactions] at hs ⊢
    obtain ⟨t, ht, hm⟩ := List.mem_flatMap.1 hs
    have htarget (u : String) (s : Stmt)
        (hs : s ∈ (temp.rows u).map (insertOrReplace temp u)) : s.target = u := by
      obtain ⟨q, _, he⟩ := List.mem_map.1 hs
      rw [← he, insertOrReplace_target]
    have he := htarget t s hm
    rw [count_flatMap htarget _ persistedTables_nodup (he ▸ ht), he]
    exact h t ht s
  · intro h t ht s
    rw [h, flatten_restoreTransactions]
    apply List.Sublist.count_le
    rw [List.flatMap_def]
    exact List.sublist_flatten_of_mem (List.mem_map_of_mem ht)

/-- A restore that returns True has committed every row exactly when no chunk of it got lost. -/
theorem restore_sound_iff (e : Env) (io : RestoreIo) (db cloud : Database) :
    RestoreSound e io db cloud ↔ (io.cloudEnabled = true → io.raises = false →
      ∀ temp, pullToLocal e cloud = .ok temp → NothingLost e io db temp) := by
  rw [RestoreSound, restorePipeline]
  by_cases hc : io.cloudEnabled = false
  · rw [if_pos hc, hc]
    apply iff_of_true
    · intro h
      cases h
    · intro h
      cases h
  · rw [if_neg hc]
    rw [Bool.not_eq_false] at hc
    cases hp : pullToLocal e cloud with
    | error err =>
      apply iff_of_true
      · intro h
        cases h
      · intro _ _ temp h
        cases h
    | ok temp =>
      simp only [hc, Bool.not_eq_true', Except.ok.injEq, forall_eq', forall_true_left]
      apply forall_congr'
      intro _
      have hhanded := handedOver_sublist io temp
      have htake := (List.take_sublist io.executed (handedOver io temp)).trans hhanded
      have hne := chunk_ne_nil temp
      have hflat := htake.flatten
      rw [counts_iff ((applied_sublist _ _ _).trans hflat)]
      constructor
      · intro h
        have happlied := (applied_sublist e.now db ((handedOver io temp).take io.executed))
        have hall : (handedOver io temp).take io.executed = restoreTransactions temp := by
          apply eq_of_flatten htake hne
          rw [← h]
          exact happlied.length_le
        have hqueue : handedOver io temp = restoreTransactions temp := by
          apply hhanded.eq_of_length_le
          rw [← hall]
          exact (List.take_sublist _ _).length_le
        rw [hall, applied_eq_flatten db hne] at h
        have hio := handedOver_eq_iff.1 hqueue
        rw [hqueue, List.take_eq_self_iff] at hall
        exact ⟨fun t ht c hm => (hio t ht c hm).1, fun t ht c hm => (hio t ht c hm).2, hall, h⟩
      · intro h
        have hqueue : handedOver io temp = restoreTransactions temp :=
          handedOver_eq_iff.2 fun t ht c hm => ⟨h.fetched t ht c hm, h.queued t ht c hm⟩
        rw [hqueue, List.take_of_length_le h.inTime]
        exact (applied_eq_flatten db hne).2 h.accepted

/-- A fact whose ticker is in neither database. -/
def orphanFact : Database :=
  cloudOf [("sf_quarterly_facts", [factRow "AAPL" "BS" "Revenue" "2024-Q1"])]

/-- The writer rejects the only transaction, and the restore returns True. -/
theorem orphan_lost :
    (restorePipeline exampleEnv { executed := 1 } (operationalDb []) orphanFact).returned = true ∧
      (restorePipeline exampleEnv { executed := 1 } (operationalDb []) orphanFact).committed = [] ∧
      ¬ RestoreSound exampleEnv { executed := 1 } (operationalDb []) orphanFact := by
  have hr : (restorePipeline exampleEnv { executed := 1 } (operationalDb []) orphanFact).returned =
      true := by decide +kernel
  have hc : (restorePipeline exampleEnv { executed := 1 } (operationalDb []) orphanFact).committed =
      [] := by decide +kernel
  have hp : ((pullToLocal exampleEnv orphanFact).toOption.map fun temp =>
      temp.rows "sf_quarterly_facts") = some [factRow "AAPL" "BS" "Revenue" "2024-Q1"] := by
    decide +kernel
  refine ⟨hr, hc, ?_⟩
  intro h
  cases hpull : pullToLocal exampleEnv orphanFact with
  | error err =>
    rw [hpull] at hp
    cases hp
  | ok temp =>
    rw [hpull] at hp
    have hrows := Option.some.inj hp
    have hcount := h hr temp hpull "sf_quarterly_facts" (by decide)
      (insertOrReplace temp "sf_quarterly_facts" (factRow "AAPL" "BS" "Revenue" "2024-Q1"))
    dsimp only at hrows
    rw [hc, hrows, List.map_singleton, List.count_singleton_self, List.count_nil] at hcount
    omega

end Sync
