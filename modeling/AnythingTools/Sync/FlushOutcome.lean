import AnythingTools.Relational.Transaction
import AnythingTools.Sync.FlushBatch

namespace Sync
open Relational Relational.Database
set_option autoImplicit true

variable {S : Schema} {k : BatchKey} {cols : List String} {records rows : List Row}

/-- What one record does to the rows of its table. -/
def applyRecord (engine : CloudEngine) (S : Schema) (k : BatchKey) (cols : List String)
    (rows : List Row) (r : Row) : List Row :=
  match k.operation with
  | .delete => rows.filter fun q => !Row.sameKey k.pkCol.cols q r
  | .upsert =>
    match stagedRow engine cols r with
    | some s => S.mergeRow engine.now k.pkCol.cols s rows
    | none => rows

def applyRecords (engine : CloudEngine) (S : Schema) (k : BatchKey) (cols : List String)
    (rows records : List Row) : List Row := records.foldl (applyRecord engine S k cols) rows

/-- The staged records fit the table, and the embedding is no key. -/
def Fitting (engine : CloudEngine) (S : Schema) (k : BatchKey) (cols : List String) : Prop :=
  (∀ r s, stagedRow engine cols r = some s → Fits S k.pkCol.cols s) ∧
    "embedding" ∉ k.pkCol.cols

/-- A later record may take the place of an earlier one of its key: no cell of the key is NULL, and
the later one is staged if the earlier one is. -/
def Covers (engine : CloudEngine) (pkCol : PkCol) (cols : List String) (r r' : Row) : Prop :=
  ∀ key, dedupKey pkCol r = some key → dedupKey pkCol r' = some key →
    .null ∉ key ∧
      ((stagedRow engine cols r).isSome = true → (stagedRow engine cols r').isSome = true)

instance (engine : CloudEngine) (pkCol : PkCol) (cols : List String) (r r' : Row) :
    Decidable (Covers engine pkCol cols r r') :=
  decidable_of_iff (∀ key ∈ dedupKey pkCol r, dedupKey pkCol r' = some key → .null ∉ key ∧
    ((stagedRow engine cols r).isSome = true → (stagedRow engine cols r').isSome = true)) Iff.rfl

theorem columns_staged (h : stagedRow engine cols r = some s) : s.columns = cols := by
  rw [stagedRow] at h
  split at h
  · obtain ⟨v, _, he⟩ := Option.map_eq_some_iff.1 h
    rw [← he, Row.columns_build]
  · cases h
    exact Row.columns_build _ _

theorem get_staged (h : stagedRow engine cols r = some s) (hc : c ∈ cols) (hne : c ≠ "embedding") :
    s.get c = r.get c := by
  rw [stagedRow] at h
  split at h
  · obtain ⟨v, _, he⟩ := Option.map_eq_some_iff.1 h
    rw [← he, Row.get_build_of_mem hc, if_neg hne]
  · cases h
    exact Row.get_build_of_mem hc

theorem staged_key (hF : Fitting engine S k cols) (h : stagedRow engine cols r = some s) :
    Row.Agree k.pkCol.cols s r := by
  intro c hc
  apply get_staged h
  · rw [← columns_staged h]
    exact (hF.1 r s h).keyed c hc
  · exact fun he => hF.2 (he ▸ hc)

/-- Rows meet in the key when they are deduplicated by one key without NULL. -/
theorem sameKey_iff_dedupKey (pkCol : PkCol) (r r' : Row) :
    Row.sameKey pkCol.cols r r' = true ↔
      ∃ key, dedupKey pkCol r = some key ∧ dedupKey pkCol r' = some key ∧ .null ∉ key := by
  rw [Row.sameKey_iff]
  cases pkCol with
  | one c =>
    simp only [PkCol.cols, List.mem_singleton, forall_eq, dedupKey]
    constructor
    · rintro ⟨hn, he⟩
      have hn' : r'.get c ≠ .null := he ▸ hn
      refine ⟨[r.get c], if_neg hn, ?_, ?_⟩
      · rw [if_neg hn', he]
      · rw [List.mem_singleton]
        exact fun h => hn h.symm
    · rintro ⟨key, hr, hr', _⟩
      split at hr
      · cases hr
      · split at hr'
        · cases hr'
        next hn hn' =>
          rw [Option.some.injEq] at hr hr'
          rw [← hr', List.cons.injEq] at hr
          exact ⟨hn, hr.1⟩
  | several cs =>
    simp only [PkCol.cols, dedupKey]
    constructor
    · intro h
      have hcol (r : Row) (hn : ∀ c ∈ cs, r.get c ≠ .null) :
          (cs.all fun c => decide (c ∈ r.columns)) = true := by
        rw [List.all_eq_true]
        intro c hc
        rw [decide_eq_true_eq]
        by_contra hno
        exact hn c hc (Row.get_of_not_mem hno)
      refine ⟨cs.map r.get, if_pos (hcol r fun c hc => (h c hc).1), ?_, ?_⟩
      · rw [if_pos (hcol r' fun c hc => (h c hc).2 ▸ (h c hc).1), Option.some.injEq]
        exact List.map_congr_left fun c hc => (h c hc).2.symm
      · intro hm
        obtain ⟨c, hc, he⟩ := List.mem_map.1 hm
        exact (h c hc).1 he
    · rintro ⟨key, hr, hr', hn⟩ c hc
      split at hr
      · split at hr'
        · rw [Option.some.injEq] at hr hr'
          have he := List.map_inj_left.1 (hr.trans hr'.symm) c hc
          refine ⟨?_, he⟩
          intro hnull
          apply hn
          rw [← hr, List.mem_map]
          exact ⟨c, hc, hnull⟩
        · cases hr'
      · cases hr

theorem applyRecord_perm (h : rows.Perm rows') (r : Row) :
    (applyRecord engine S k cols rows r).Perm (applyRecord engine S k cols rows' r) := by
  rw [applyRecord, applyRecord]
  split
  · exact h.filter _
  · split
    · exact mergeRow_perm h
    · exact h

theorem applyRecords_perm (h : rows.Perm rows') (records : List Row) :
    (applyRecords engine S k cols rows records).Perm
      (applyRecords engine S k cols rows' records) := by
  induction records generalizing rows rows' with
  | nil => exact h
  | cons r records ih => exact ih (applyRecord_perm h r)

theorem applyRecords_append (records records' : List Row) :
    applyRecords engine S k cols rows (records ++ records') =
      applyRecords engine S k cols (applyRecords engine S k cols rows records) records' :=
  List.foldl_append

theorem dedupedRecords_append (pkCol : PkCol) (l : List Row) (r : Row) :
    dedupedRecords pkCol (l ++ [r]) = dedupStep pkCol (dedupedRecords pkCol l) r := by
  rw [dedupedRecords, List.foldl_append]
  rfl

/-- Two records are deduplicated by different keys, or by none. -/
def Distinct (pkCol : PkCol) (r r' : Row) : Prop :=
  ∀ key, dedupKey pkCol r = some key → dedupKey pkCol r' ≠ some key

/-- A record with a key that is not NULL is kept apart from those of other keys. -/
theorem distinct_iff {pkCol : PkCol} (hself : Row.sameKey pkCol.cols r r = true) :
    Distinct pkCol r r' ↔ Row.sameKey pkCol.cols r r' = false := by
  rw [← Bool.not_eq_true, sameKey_iff_dedupKey]
  obtain ⟨key, hk, _, hn⟩ := (sameKey_iff_dedupKey pkCol r r).1 hself
  constructor
  · rintro hd ⟨key', hk₁, hk₂, _⟩
    exact hd key' hk₁ hk₂
  · intro hno key' hk₁ hk₂
    obtain rfl := Option.some.inj (hk.symm.trans hk₁)
    exact hno ⟨_, hk, hk₂, hn⟩

/-- A record takes the place of one with its key, and leaves the others. -/
theorem mem_dedupStep_iff : a ∈ dedupStep pkCol acc r ↔ a = r ∨ a ∈ acc ∧ Distinct pkCol a r := by
  rw [dedupStep]
  cases hr : dedupKey pkCol r with
  | none =>
    have hd : Distinct pkCol a r := fun key _ hk => by rw [hr] at hk; cases hk
    rw [List.mem_append, List.mem_singleton, or_comm]
    exact or_congr_right (and_iff_left hd).symm
  | some k =>
    have hd (b : Row) : Distinct pkCol b r ↔ dedupKey pkCol b ≠ some k := by
      constructor
      · exact fun h hb => h k hb hr
      · intro h key hb hk
        rw [hr] at hk
        exact h (hb.trans hk.symm)
    dsimp only
    rw [hd]
    split
    next hany =>
      obtain ⟨b, hb, hbk⟩ := List.any_eq_true.1 hany
      rw [decide_eq_true_eq] at hbk
      rw [List.mem_map]
      constructor
      · rintro ⟨c, hc, rfl⟩
        split
        · exact .inl rfl
        next hck => exact .inr ⟨hc, hck⟩
      · rintro (rfl | ⟨ha, hak⟩)
        · exact ⟨b, hb, if_pos hbk⟩
        · exact ⟨a, ha, if_neg hak⟩
    next hany =>
      rw [List.mem_append, List.mem_singleton, or_comm]
      refine or_congr_right (and_iff_left_of_imp fun ha hak => hany ?_).symm
      exact List.any_eq_true.2 ⟨a, ha, decide_eq_true hak⟩

/-- Deduplication leaves the last record of each key. -/
theorem mem_dedupedRecords_iff : a ∈ dedupedRecords pkCol l ↔
    ∃ front back, l = front ++ a :: back ∧ ∀ b ∈ back, Distinct pkCol a b := by
  induction l using List.reverseRecOn with
  | nil => simp [dedupedRecords]
  | append_singleton l r ih =>
    rw [dedupedRecords_append, mem_dedupStep_iff, ih]
    constructor
    · rintro (rfl | ⟨⟨front, back, rfl, hback⟩, hr⟩)
      · exact ⟨l, [], rfl, fun b hb => nomatch hb⟩
      · refine ⟨front, back ++ [r], by simp, fun b hb => ?_⟩
        rcases List.mem_append.1 hb with hb | hb
        · exact hback b hb
        · rw [List.mem_singleton.1 hb]
          exact hr
    · rintro ⟨front, back, he, hback⟩
      rcases List.eq_nil_or_concat back with rfl | ⟨back, b, rfl⟩
      · obtain ⟨_, hr⟩ := List.append_inj' he rfl
        exact .inl (List.cons.inj hr).1.symm
      · rw [List.concat_eq_append, ← List.cons_append, ← List.append_assoc] at he
        obtain ⟨hl, hr⟩ := List.append_inj' he rfl
        obtain rfl := (List.cons.inj hr).1
        simp only [List.concat_eq_append, List.mem_append, List.mem_singleton] at hback
        exact .inr ⟨⟨front, back, hl, fun b hb => hback b (.inl hb)⟩, hback r (.inr rfl)⟩

theorem mem_dedupedRecords (h : a ∈ dedupedRecords pkCol l) : a ∈ l := by
  obtain ⟨front, back, rfl, _⟩ := mem_dedupedRecords_iff.1 h
  exact List.mem_append_right front List.mem_cons_self

/-- Each record is left, or another one of its key. -/
theorem exists_dedupedRecords (pkCol : PkCol) (hr : r ∈ l) : ∃ a ∈ dedupedRecords pkCol l, a = r ∨
    ∃ key, dedupKey pkCol a = some key ∧ dedupKey pkCol r = some key := by
  induction l using List.reverseRecOn with
  | nil => cases hr
  | append_singleton l x ih =>
    rw [dedupedRecords_append]
    rcases List.mem_append.1 hr with hr | hr
    · obtain ⟨a, ha, hor⟩ := ih hr
      by_cases hd : Distinct pkCol a x
      · exact ⟨a, mem_dedupStep_iff.2 (.inr ⟨ha, hd⟩), hor⟩
      · simp only [Distinct, not_forall, not_not] at hd
        obtain ⟨key, hak, hxk⟩ := hd
        refine ⟨x, mem_dedupStep_iff.2 (.inl rfl), .inr ⟨key, hxk, ?_⟩⟩
        rcases hor with rfl | ⟨key', hak', hrk'⟩
        · exact hak
        · rw [hrk', ← hak', hak]
    · exact ⟨x, mem_dedupStep_iff.2 (.inl rfl), .inl (List.mem_singleton.1 hr).symm⟩

theorem get_of_dedupKey {pkCol : PkCol}
    (h : ∃ key, dedupKey pkCol r = some key ∧ dedupKey pkCol r' = some key)
    (hc : c ∈ pkCol.cols) : r.get c = r'.get c := by
  obtain ⟨key, hr, hr'⟩ := h
  cases pkCol with
  | one d =>
    rw [dedupKey] at hr hr'
    split at hr
    · cases hr
    · split at hr'
      · cases hr'
      · rw [List.mem_singleton.1 hc]
        rw [Option.some.injEq] at hr hr'
        exact (List.cons.inj (hr.trans hr'.symm)).1
  | several cs =>
    rw [dedupKey] at hr hr'
    split at hr
    · split at hr'
      · rw [Option.some.injEq] at hr hr'
        exact List.map_inj_left.1 (hr.trans hr'.symm) c hc
      · cases hr'
    · cases hr

theorem distinct_dedupedRecords (pkCol : PkCol) (l : List Row) :
    (dedupedRecords pkCol l).Pairwise (Distinct pkCol) := by
  induction l using List.reverseRecOn with
  | nil => exact .nil
  | append_singleton l r ih =>
    have hlast (acc : List Row) (hacc : acc.Pairwise (Distinct pkCol))
        (hr : ∀ a ∈ acc, Distinct pkCol a r) : (acc ++ [r]).Pairwise (Distinct pkCol) := by
      rw [List.pairwise_append]
      refine ⟨hacc, List.pairwise_singleton _ _, ?_⟩
      intro a ha b hb
      rw [List.mem_singleton.1 hb]
      exact hr a ha
    rw [dedupedRecords_append, dedupStep]
    split
    next hn =>
      apply hlast _ ih
      intro a _ key _ hk
      rw [hn] at hk
      cases hk
    next k hk =>
      split
      · apply List.pairwise_map.2
        apply ih.imp
        intro a b hab key
        by_cases ha : dedupKey pkCol a = some k
        · have hb : dedupKey pkCol b ≠ some k := hab k ha
          rw [if_pos ha, if_neg hb, hk]
          intro he
          rw [← he]
          exact hb
        · rw [if_neg ha]
          split
          · intro hak hrk
            rw [hk] at hrk
            exact ha (hak.trans hrk.symm)
          · exact hab key
      next hany =>
        apply hlast _ ih
        intro a ha key hak hrk
        apply hany
        rw [hk] at hrk
        exact List.any_eq_true.2 ⟨a, ha, decide_eq_true (hak.trans hrk.symm)⟩

theorem applyRecord_upsert (hk : k.operation = .upsert) (rows : List Row) (r : Row) :
    applyRecord engine S k cols rows r =
      match stagedRow engine cols r with
      | some s => S.mergeRow engine.now k.pkCol.cols s rows
      | none => rows := by
  rw [applyRecord, hk]

theorem applyRecord_none (hk : k.operation = .upsert) (h : stagedRow engine cols r = none) :
    applyRecord engine S k cols rows r = rows := by
  rw [applyRecord_upsert hk, h]

theorem applyRecord_some (hk : k.operation = .upsert) (h : stagedRow engine cols r = some s) :
    applyRecord engine S k cols rows r = S.mergeRow engine.now k.pkCol.cols s rows := by
  rw [applyRecord_upsert hk, h]

theorem not_sameKey_of_distinct (hF : Fitting engine S k cols) (h : Distinct k.pkCol a b)
    (ha : stagedRow engine cols a = some s) (hb : stagedRow engine cols b = some s') :
    Row.sameKey k.pkCol.cols s s' = false := by
  rw [← Bool.not_eq_true, Row.sameKey_agree (staged_key hF ha),
    Row.sameKey_agree_right (staged_key hF hb), sameKey_iff_dedupKey]
  intro ⟨key, hak, hbk, _⟩
  exact h key hak hbk

theorem Distinct.symm (h : Distinct pkCol a b) : Distinct pkCol b a :=
  fun key hb ha => h key ha hb

/-- A record may be moved over records of other keys. -/
theorem applyRecords_move (hk : k.operation = .upsert) (hF : Fitting engine S k cols)
    (rows : List Row) {a : Row} (h : ∀ b ∈ records, Distinct k.pkCol a b) :
    (applyRecords engine S k cols (applyRecord engine S k cols rows a) records).Perm
      (applyRecord engine S k cols (applyRecords engine S k cols rows records) a) := by
  induction records generalizing rows with
  | nil => exact .refl _
  | cons b records ih =>
    have hswap : (applyRecord engine S k cols (applyRecord engine S k cols rows a) b).Perm
        (applyRecord engine S k cols (applyRecord engine S k cols rows b) a) := by
      cases ha : stagedRow engine cols a with
      | none => rw [applyRecord_none hk ha, applyRecord_none hk ha]
      | some s =>
        cases hb : stagedRow engine cols b with
        | none => rw [applyRecord_none hk hb, applyRecord_none hk hb]
        | some s' =>
          rw [applyRecord_some hk ha, applyRecord_some hk hb, applyRecord_some hk hb,
            applyRecord_some hk ha]
          apply mergeRow_swap (hF.1 b s' hb) (hF.1 a s ha)
          exact not_sameKey_of_distinct hF (h b List.mem_cons_self).symm hb ha
    have hrest := ih (applyRecord engine S k cols rows b) fun b hb => h b (List.mem_cons_of_mem _ hb)
    exact (applyRecords_perm hswap records).trans hrest

/-- The last record of a key covers the one that it takes the place of. -/
theorem applyRecord_cover (hk : k.operation = .upsert) (hF : Fitting engine S k cols)
    (h : Covers engine k.pkCol cols a r) (ha : dedupKey k.pkCol a = some key)
    (hr : dedupKey k.pkCol r = some key) (rows : List Row) :
    applyRecord engine S k cols (applyRecord engine S k cols rows a) r =
      applyRecord engine S k cols rows r := by
  obtain ⟨hnull, hstaged⟩ := h key ha hr
  cases hsa : stagedRow engine cols a with
  | none => rw [applyRecord_none hk hsa]
  | some sa =>
    rw [hsa] at hstaged
    obtain ⟨sr, hsr⟩ := Option.isSome_iff_exists.1 (hstaged rfl)
    rw [applyRecord_some hk hsa, applyRecord_some hk hsr, applyRecord_some hk hsr]
    apply mergeRow_absorb (hF.1 a sa hsa)
    · intro c
      rw [columns_staged hsa, columns_staged hsr]
    · rw [Row.sameKey_agree (staged_key hF hsa), Row.sameKey_agree_right (staged_key hF hsr),
        sameKey_iff_dedupKey]
      exact ⟨key, ha, hr, hnull⟩

/-- Deduplication changes nothing where later records cover earlier ones. -/
theorem applyRecords_deduped (hk : k.operation = .upsert) (hF : Fitting engine S k cols)
    (h : records.Pairwise (Covers engine k.pkCol cols)) :
    (applyRecords engine S k cols rows (dedupedRecords k.pkCol records)).Perm
      (applyRecords engine S k cols rows records) := by
  induction records using List.reverseRecOn with
  | nil => exact .refl _
  | append_singleton l r ih =>
    rw [List.pairwise_append] at h
    have hl := ih h.1
    have hdistinct := distinct_dedupedRecords k.pkCol l
    have hmem {a} (ha : a ∈ dedupedRecords k.pkCol l) : a ∈ l := mem_dedupedRecords ha
    rw [dedupedRecords_append, applyRecords_append]
    generalize dedupedRecords k.pkCol l = acc at hl hdistinct hmem
    have hnew : (applyRecords engine S k cols rows (acc ++ [r])).Perm
        (applyRecords engine S k cols (applyRecords engine S k cols rows l) [r]) := by
      rw [applyRecords_append]
      exact applyRecords_perm hl [r]
    rw [dedupStep]
    split
    · exact hnew
    next key hr =>
      split
      next hany =>
        obtain ⟨a, ha, hak⟩ := List.any_eq_true.1 hany
        rw [decide_eq_true_eq] at hak
        obtain ⟨front, back, he⟩ := List.append_of_mem ha
        subst he
        rw [List.pairwise_append, List.pairwise_cons] at hdistinct
        obtain ⟨_, ⟨hback, _⟩, hfront⟩ := hdistinct
        have hkeep (l : List Row) (hl : ∀ b ∈ l, dedupKey k.pkCol b ≠ some key) :
            (l.map fun b => if dedupKey k.pkCol b = some key then r else b) = l := by
          refine (List.map_congr_left (g := fun b => b) fun b hb => ?_).trans (List.map_id' _)
          rw [if_neg (hl b hb)]
        rw [List.map_append, List.map_cons, if_pos hak,
          hkeep front fun b hb hbk => hfront b hb a List.mem_cons_self key hbk hak,
          hkeep back fun b hb => hback b hb key hak]
        have hmove := fun (x : Row) (hx : dedupKey k.pkCol x = some key) =>
          applyRecords_move hk hF (applyRecords engine S k cols rows front)
            fun b (hb : b ∈ back) y hxy hby =>
              hback b hb key hak (hby.trans (hxy.symm.trans hx))
        have hsplit (x : Row) : applyRecords engine S k cols rows (front ++ x :: back) =
            applyRecords engine S k cols (applyRecord engine S k cols
              (applyRecords engine S k cols rows front) x) back := by
          rw [applyRecords_append]
          rfl
        have hcover := h.2.2 a (hmem ha) r (List.mem_singleton_self r)
        rw [hsplit]
        rw [hsplit] at hl
        refine (hmove r hr).trans ?_
        rw [← applyRecord_cover hk hF hcover hak hr]
        exact applyRecord_perm ((hmove a hak).symm.trans hl) r
      next => exact hnew

end Sync
