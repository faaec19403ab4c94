import AnythingTools.Sync.Bidirectional

namespace Sync
open Relational Schemas
set_option autoImplicit true

theorem pkStr_text (ss : List String) : pkStr (ss.map .text) = "|".intercalate ss := by
  rw [pkStr, List.map_map]
  congr 1
  exact List.map_id ss

theorem intercalate_length (h : ss ≠ []) :
    ("|".intercalate ss).length + 1 = (ss.map fun s => s.length + 1).sum := by
  induction ss with
  | nil => exact (h rfl).elim
  | cons s ss ih =>
    cases ss with
    | nil => rw [String.intercalate_singleton, List.map_singleton, List.sum_singleton]
    | cons s' ss =>
      have hi := ih (List.cons_ne_nil _ _)
      have hb : "|".length = 1 := rfl
      rw [String.intercalate_cons_cons, String.length_append, String.length_append, hb,
        List.map_cons, List.sum_cons, ← hi]
      omega

theorem mapM_bind_text {xs : List Json} {ss : List String}
    (h : xs.mapM Python.bind = .ok (ss.map .text)) : xs = ss.map Json.text := by
  induction xs generalizing ss with
  | nil =>
    cases ss with
    | nil => rfl
    | cons s ss => cases h
  | cons x xs ih =>
    obtain ⟨v, vs, hx, hxs, he⟩ := Python.mapM_cons_ok h
    cases ss with
    | nil => cases he
    | cons s ss =>
      obtain ⟨hv, hvs⟩ := List.cons.inj he
      subst hv
      subst hvs
      rw [List.map_cons, ih hxs, Python.bind_text hx]

/-- A string of single characters that were joined with bars is not read back. -/
theorem loads_joined_str (h : Json.loads ("|".intercalate (s :: s' :: ss)) = some (.str us))
    (hi : us.map (fun u => Json.str [u]) = (s :: s' :: ss).map Json.text) : False := by
  obtain ⟨cs, rest, hw, hs⟩ := Json.loads_str h
  cases us with
  | nil => cases hi
  | cons u us =>
    rw [List.map_cons, List.map_cons] at hi
    have hu : [u] = s.toList.map Char.toNat := Json.str.inj (List.cons.inj hi).1
    obtain ⟨c, hc, hcu⟩ := List.map_eq_singleton_iff.1 hu.symm
    have ht : ("|".intercalate (s :: s' :: ss)).toList =
        c :: '|' :: ("|".intercalate (s' :: ss)).toList := by
      rw [String.intercalate_cons_cons, String.toList_append, String.toList_append, hc]
      rfl
    rw [ht, Json.skipWs, List.dropWhile_cons] at hw
    split at hw
    · rw [List.dropWhile_cons_of_neg (by decide)] at hw
      exact absurd (List.cons.inj hw).1 (by decide)
    · obtain ⟨hcq, hcs⟩ := List.cons.inj hw
      subst hcq
      rw [← hcs] at hs
      have hh := Json.string_head hs (by decide) (by decide)
      rw [List.head?_cons, Option.some.injEq] at hh
      exact absurd (hcu.trans hh) (by decide)

/-- Joining at least two texts with a bar gives no text from which they are read back: the text
of any list, object or string with these items is longer, or starts otherwise. -/
theorem loads_joined (hn : 2 ≤ ss.length) (h : Json.loads ("|".intercalate ss) = some v)
    (hi : v.items = some (ss.map Json.text)) : False := by
  have hw := Json.loads_weight h
  have hl : ("|".intercalate ss).length + 1 = (ss.map fun s => s.length + 1).sum :=
    intercalate_length (fun he => by
      rw [he] at hn
      cases hn)
  cases v with
  | list xs =>
    cases hi
    rw [Json.weight, Json.elementWeights_eq, List.map_map] at hw
    have hle : (ss.map fun s => s.length + 1).sum ≤
        (ss.map ((fun x => Json.weight x + 1) ∘ Json.text)).sum := by
      apply List.sum_le_sum
      intro s _
      rw [Function.comp_apply, Json.weight_text]
      omega
    omega
  | dict ms =>
    have hk : Json.keys ms = ss.map fun s => s.toList.map Char.toNat := by
      have hm := Option.some.inj hi
      have hinj : Function.Injective Json.str := fun _ _ he => Json.str.inj he
      apply List.map_injective_iff.2 hinj
      rw [hm, List.map_map]
      rfl
    have hks := Json.keys_weight ms
    rw [hk, List.map_map] at hks
    rw [Json.weight] at hw
    have hle : (ss.map fun s => s.length + 1).sum ≤
        (ss.map ((fun k => k.length + 4) ∘ fun s => s.toList.map Char.toNat)).sum := by
      apply List.sum_le_sum
      intro s _
      rw [Function.comp_apply, List.length_map, String.length_toList]
      omega
    omega
  | str us =>
    cases ss with
    | nil => cases hn
    | cons s ss =>
      cases ss with
      | nil => exact absurd hn (by simp)
      | cons s' ss => exact loads_joined_str h (Option.some.inj hi)
  | null => cases hi
  | bool b => cases hi
  | int n => cases hi
  | float r => cases hi

theorem zip_right_inj {ks : List α} {as bs : List β} (ha : as.length = ks.length)
    (hb : bs.length = ks.length) (h : ks.zip as = ks.zip bs) : as = bs := by
  rw [← List.map_snd_zip (Nat.le_of_eq ha), h, List.map_snd_zip (Nat.le_of_eq hb)]

/-- The key text of a row of texts is never decoded to its key. -/
theorem decodeKey_pkStr {ss : List String} (hn : 2 ≤ pkCol.length)
    (hl : ss.length = pkCol.length) :
    decodeKey pkCol (pkStr (ss.map .text)) ≠ .ok (some (pkCol.zip (ss.map .text))) := by
  intro h
  rw [pkStr_text] at h
  obtain ⟨v, xs, vs, hv, hi, hx, hb, hz⟩ := decodeKey_some h
  have hvs : vs = ss.map .text := by
    apply zip_right_inj _ _ hz.symm
    · rw [Python.length_mapM_ok hb, hx]
    · rw [List.length_map, hl]
  subst hvs
  rw [mapM_bind_text hb] at hi
  exact loads_joined (hl ▸ hn) hv hi

section
variable (parseTs : String → Int)

/-- What the encoding of composite keys promises for one table: each key text is decoded to the
key of its row, each row of the cloud alone is restored once by a strategy that takes it, and each
row of the operational side alone is deleted once when the cloud wins. -/
structure CompositeRoundTrip (op temp : Database) (t : String) : Prop where
  decodes : ∀ r ∈ op.rows t ++ temp.rows t,
    decodeKey (detectPkColumns op t).1 (pkStr ((detectPkColumns op t).1.map r.get)) =
      .ok (some ((detectPkColumns op t).1.zip ((detectPkColumns op t).1.map r.get)))
  restored : ∀ o, ∀ strategy ∈ [Strategy.newestOverallWins, .cloudWins], ∃ ss,
    tableStatements o strategy temp t (computeDeltas parseTs op temp t) = .ok ss ∧
      ∀ r ∈ temp.rows t, pkStr ((detectPkColumns op t).1.map r.get) ∈
          (computeDeltas parseTs op temp t).cloudOnly →
        ss.count (.ok (insertOrReplace temp t r)) = 1
  deleted : ∀ o, ∃ ss,
    tableStatements o .cloudWins temp t (computeDeltas parseTs op temp t) = .ok ss ∧
      ∀ r ∈ op.rows t, pkStr ((detectPkColumns op t).1.map r.get) ∈
          (computeDeltas parseTs op temp t).opOnly →
        ss.count (.ok (.delete t ((detectPkColumns op t).1.zip
          ((detectPkColumns op t).1.map r.get)))) = 1

theorem fetchRows_nil (h : db.rows t = []) (ks : List String) (a b : Bool) :
    fetchRows db t ks a b = [] := by
  rw [fetchRows]
  cases hT : db.find t with
  | none => rfl
  | some T =>
    rw [Database.rows_of_find hT] at h
    simp only [h, List.map_nil, ite_self]

theorem computeDeltas_nil (ho : op.rows t = []) (hc : temp.rows t = []) :
    computeDeltas parseTs op temp t = { pkCol := (detectPkColumns op t).1 } := by
  rw [computeDeltas]
  dsimp only
  rw [fetchRows_nil ho, fetchRows_nil hc]
  rfl

theorem restoreStatements_nil (temp : Database) (t : String) (pkCol : List String) :
    restoreStatements temp t pkCol [] = .ok [] := by
  unfold restoreStatements
  split
  · rfl
  · dsimp only
    rw [if_neg fun h => h.2 rfl]
    rfl

theorem tableStatements_nil (o : SyncOptions) (strategy : Strategy) (temp : Database) (t : String)
    (pkCol : List String) : tableStatements o strategy temp t { pkCol } = .ok [] := by
  rw [tableStatements]
  dsimp only
  rw [restoreStatements_nil, deleteStatements, conflictStatements]
  cases strategy <;> rfl

/-- The texts of a key. -/
theorem key_texts {pkCol : List String} {r : Row} (h : ∀ c ∈ pkCol, ∃ s, r.get c = .text s) :
    ∃ ss : List String, ss.length = pkCol.length ∧ pkCol.map r.get = ss.map .text := by
  induction pkCol with
  | nil => exact ⟨[], rfl, rfl⟩
  | cons c cs ih =>
    obtain ⟨s, hs⟩ := h c List.mem_cons_self
    obtain ⟨ss, hl, he⟩ := ih fun d hd => h d (List.mem_cons_of_mem _ hd)
    exact ⟨s :: ss, by rw [List.length_cons, List.length_cons, hl],
      by rw [List.map_cons, List.map_cons, hs, he]⟩

/-- The round trip of composite keys holds only for a table that is empty on both sides. -/
theorem composite_round_trip_iff {op temp : Database} {t : String}
    (hn : 2 ≤ (detectPkColumns op t).1.length)
    (htext : ∀ r ∈ op.rows t ++ temp.rows t, ∀ c ∈ (detectPkColumns op t).1,
      ∃ s, r.get c = .text s) :
    CompositeRoundTrip parseTs op temp t ↔ op.rows t = [] ∧ temp.rows t = [] := by
  apply Iff.intro
  · intro h
    rw [← List.append_eq_nil_iff, List.eq_nil_iff_forall_not_mem]
    intro r hr
    obtain ⟨ss, hl, he⟩ := key_texts (htext r hr)
    have hd := h.decodes r hr
    rw [he] at hd
    exact decodeKey_pkStr hn hl hd
  · intro ⟨ho, hc⟩
    have hd := computeDeltas_nil parseTs ho hc
    refine ⟨?_, ?_, ?_⟩
    · intro r hr
      rw [ho, hc] at hr
      cases hr
    · intro o strategy _
      rw [hd]
      refine ⟨[], tableStatements_nil o strategy temp t _, ?_⟩
      intro r hr
      rw [hc] at hr
      cases hr
    · intro o
      rw [hd]
      refine ⟨[], tableStatements_nil o .cloudWins temp t _, ?_⟩
      intro r hr
      rw [ho] at hr
      cases hr

/-- A fact of the financial statements with the defaults of its table. -/
def factRow (ticker statementType concept quarter : String) : Row :=
  sfQuarterlyFacts.schema.coerce "2024-05-01 00:00:00"
    [("ticker", .text ticker), ("statement_type", .text statementType),
      ("concept", .text concept), ("quarter", .text quarter)]

/-- A database that holds one table of facts. -/
def factsDb (rows : List Row) : Database :=
  (Database.ofSchemas [("sf_quarterly_facts", sfQuarterlyFacts.schema)]).update "sf_quarterly_facts"
    fun T => { T with rows }

/-- A cloud row that is missing locally: its key text `AAPL|BS|Revenue|2024-Q1` is not decoded. -/
theorem composite_round_trip_fails :
    ¬ CompositeRoundTrip (fun _ => 0) (factsDb [])
      (factsDb [factRow "AAPL" "BS" "Revenue" "2024-Q1"]) "sf_quarterly_facts" := by
  intro h
  have hd := h.decodes (factRow "AAPL" "BS" "Revenue" "2024-Q1") (by decide)
  obtain ⟨v, xs, vs, hv, _⟩ := decodeKey_some hd
  have hn : (Json.loads "AAPL|BS|Revenue|2024-Q1").isNone = true := by decide +kernel
  have hk : pkStr ((detectPkColumns (factsDb []) "sf_quarterly_facts").1.map
      (factRow "AAPL" "BS" "Revenue" "2024-Q1").get) = "AAPL|BS|Revenue|2024-Q1" := by decide
  rw [hk] at hv
  rw [hv] at hn
  cases hn

theorem composite_round_trip_facts :
    CompositeRoundTrip (fun _ => 0) (factsDb [])
      (factsDb [factRow "AAPL" "BS" "Revenue" "2024-Q1"]) "sf_quarterly_facts" ↔
      (factsDb []).rows "sf_quarterly_facts" = [] ∧
        (factsDb [factRow "AAPL" "BS" "Revenue" "2024-Q1"]).rows "sf_quarterly_facts" = [] := by
  apply composite_round_trip_iff
  · decide
  · have hrow : (factsDb []).rows "sf_quarterly_facts" ++
        (factsDb [factRow "AAPL" "BS" "Revenue" "2024-Q1"]).rows "sf_quarterly_facts" =
        [factRow "AAPL" "BS" "Revenue" "2024-Q1"] := by decide
    have hpk : (detectPkColumns (factsDb []) "sf_quarterly_facts").1 =
        ["ticker", "statement_type", "concept", "quarter"] := by decide
    rw [hrow, hpk]
    intro r hr c hc
    rw [List.mem_singleton] at hr
    subst hr
    simp only [List.mem_cons, List.not_mem_nil, or_false] at hc
    rcases hc with rfl | rfl | rfl | rfl
    · exact ⟨"AAPL", rfl⟩
    · exact ⟨"BS", rfl⟩
    · exact ⟨"Revenue", rfl⟩
    · exact ⟨"2024-Q1", rfl⟩

end
end Sync
