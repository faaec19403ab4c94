import AnythingTools.Jobs.RunOutcome
import AnythingTools.Publisher.Run
import AnythingTools.Text.ParseLlmJson

namespace Publisher
open Jobs (member)
set_option autoImplicit true

/-! ### The replies of the model -/

/-- What `_call_llm` keeps of a translation; the model may put any value for a text. -/
structure TransData where
  translatedTitle : Json
  translatedSummary : Json
  translatedConclusion : Json

/-- Whether a value counts as true; `nonzero` tells it of the literal of a float. -/
def truthy (nonzero : String → Bool) : Json → Bool
  | .null => false
  | .bool b => b
  | .int n => decide (n ≠ 0)
  | .float lexeme => nonzero lexeme
  | .str s => !s.isEmpty
  | .list xs => !xs.isEmpty
  | .dict ms => !ms.isEmpty

/-- `t.get(key, "")`. -/
def field (key : String) (t : Json) : Json := (member key t).getD (.str [])

/-- The loop over the translations: an entry that is no object, or has no ulid, is passed over; one
whose ulid cannot be a key raises, and what was read before it is kept. -/
def readTranslations : List Json → List (List Nat × TransData)
  | [] => []
  | t :: ts =>
    match member "ulid" t with
    | none => readTranslations ts
    | some (.list _) => []
    | some (.dict _) => []
    | some (.str ulid) =>
      (ulid, ⟨field "translated_title" t, field "translated_summary" t,
        field "translated_conclusion" t⟩) :: readTranslations ts
    | some _ => readTranslations ts

/-- The list of the translations in a reply: under one of its two names, or else the first value. -/
def translationList (nonzero : String → Bool) (parsed : Json) : Option Json :=
  match parsed with
  | .dict ms =>
    let named := (member "translations" parsed).getD
      ((member "articles" parsed).getD (.list []))
    if truthy nonzero named then some named
    else match ms with
      | [] => some named
      | m :: _ => (ms.reverse.find? fun p => decide (p.1 = m.1)).map Prod.snd
  | _ => none

/-- `_call_llm`; there is no text where the call raises. -/
def callLlm (nonzero : String → Bool) (reply : Option (List Char)) : List (List Nat × TransData) :=
  match reply.bind fun text => translationList nonzero (Text.parseLlmJson text) with
  | some (.list ts) => readTranslations ts
  | _ => []

/-- The translation of an article in a reply; the last one counts, if it has a title. -/
def transDataOf (nonzero : String → Bool) (reply : Option (List Char)) (ulid : String) :
    Option TransData :=
  (((callLlm nonzero reply).reverse.find? fun p =>
    decide (p.1 = ulid.toList.map Char.toNat)).map Prod.snd).filter
      fun t => truthy nonzero t.translatedTitle

/-! ### The loop of the translator -/

/-- What is written for an article that has failed, and for one that is translated. -/
structure Recorder (τ ε : Type) where
  failure : Detail → Nat → List ε
  translation : Detail → Nat → τ → List ε

structure Ledger (τ ε : Type) where
  translatedMap : String → Option τ
  failedUlids : List String := []
  retryCount : String → Nat
  written : List ε := []

structure TranslatorState (τ ε : Type) where
  ledger : Ledger τ ε
  queue : List Detail
  iteration : Nat := 0

section
variable {τ ε : Type} (record : Recorder τ ε)

def Ledger.fail (l : Ledger τ ε) (d : Detail) : Ledger τ ε :=
  { l with
    failedUlids := l.failedUlids.insert d.ulid
    written := l.written ++ record.failure d (l.retryCount d.ulid) }

def Ledger.translate (l : Ledger τ ε) (d : Detail) (t : τ) : Ledger τ ε :=
  { l with
    translatedMap := Function.update l.translatedMap d.ulid (some t)
    written := l.written ++ record.translation d (l.retryCount d.ulid) t }

def Ledger.miss (l : Ledger τ ε) (d : Detail) : Ledger τ ε :=
  { l with retryCount := Function.update l.retryCount d.ulid (l.retryCount d.ulid + 1) }

/-- The tries of the article are used up. -/
def Ledger.spent (l : Ledger τ ε) (d : Detail) : Bool :=
  decide (maxTranslationRetries ≤ l.retryCount d.ulid)

/-- Take articles off the queue until the batch is full. -/
def fillBatch : Nat → List Detail → Ledger τ ε → List Detail × List Detail × Ledger τ ε
  | _, [], l => ([], [], l)
  | 0, queue, l => ([], queue, l)
  | room + 1, d :: queue, l =>
    if l.spent d then fillBatch (room + 1) queue (l.fail record d)
    else
      let (batch, rest, l) := fillBatch room queue l
      (d :: batch, rest, l)

/-- The articles of a batch after the reply. -/
def settleBatch (reply : String → Option τ) :
    List Detail → List Detail → Ledger τ ε → List Detail × Ledger τ ε
  | [], queue, l => (queue, l)
  | d :: batch, queue, l =>
    match reply d.ulid with
    | some t => settleBatch reply batch queue (l.translate record d t)
    | none =>
      if (l.miss d).spent d then settleBatch reply batch queue ((l.miss d).fail record d)
      else settleBatch reply batch (queue ++ [d]) (l.miss d)

/-- One iteration of the loop; a batch that is empty asks for no reply and settles nothing. -/
def TranslatorState.iterate (replies : Nat → String → Option τ) (s : TranslatorState τ ε) :
    TranslatorState τ ε :=
  let (batch, rest, l) := fillBatch record batchSize s.queue s.ledger
  let (queue, l) := settleBatch record (replies (s.iteration + 1)) batch rest l
  { ledger := l, queue, iteration := s.iteration + 1 }

/-- The loop, with what is left of the limit. -/
def TranslatorState.loop (replies : Nat → String → Option τ) :
    Nat → TranslatorState τ ε → TranslatorState τ ε
  | 0, s => s
  | left + 1, s => if s.queue = [] then s else (s.iterate record replies).loop replies left

def safetyLimit (queue : List Detail) : Nat := queue.length * maxTranslationRetries + 1

/-- The articles without a cached translation. -/
def uncached (cached : String → Option τ) (articles : List Detail) : List Detail :=
  articles.filter fun d => (cached d.ulid).isNone

/-- `translate_all`, with the translations and the retry counts that it loads. -/
def translateArticles (replies : Nat → String → Option τ) (cached : String → Option τ)
    (stored : String → Nat) (articles : List Detail) : TranslatorState τ ε :=
  TranslatorState.loop record replies (safetyLimit (uncached cached articles))
    { ledger := { translatedMap := cached, retryCount := stored }
      queue := uncached cached articles }

@[simp] theorem translatedMap_fail (l : Ledger τ ε) (d : Detail) :
    (l.fail record d).translatedMap = l.translatedMap := rfl

@[simp] theorem failedUlids_fail (l : Ledger τ ε) (d : Detail) :
    (l.fail record d).failedUlids = l.failedUlids.insert d.ulid := rfl

@[simp] theorem translatedMap_translate (l : Ledger τ ε) (d : Detail) (t : τ) :
    (l.translate record d t).translatedMap = Function.update l.translatedMap d.ulid (some t) := rfl

@[simp] theorem failedUlids_translate (l : Ledger τ ε) (d : Detail) (t : τ) :
    (l.translate record d t).failedUlids = l.failedUlids := rfl

@[simp] theorem retryCount_miss (l : Ledger τ ε) (d : Detail) :
    (l.miss d).retryCount d.ulid = l.retryCount d.ulid + 1 := Function.update_self ..

/-! ### What the loop keeps -/

/-- Each article that was waiting is still pending, translated or failed; nothing is known of the
others but what was cached. -/
structure Placed (cached : String → Option τ) (waiting : List Detail) (l : Ledger τ ε)
    (pending : List Detail) : Prop where
  known : ∀ d ∈ pending, d ∈ waiting
  apart : (pending.map Detail.ulid).Nodup
  untouched : ∀ d ∈ pending, l.translatedMap d.ulid = none ∧ d.ulid ∉ l.failedUlids
  settled : ∀ d ∈ waiting, d.ulid ∉ pending.map Detail.ulid →
    ((l.translatedMap d.ulid).isSome = true ∧ d.ulid ∉ l.failedUlids) ∨
      (l.translatedMap d.ulid = none ∧ d.ulid ∈ l.failedUlids)
  others : ∀ u, u ∉ waiting.map Detail.ulid → l.translatedMap u = cached u ∧ u ∉ l.failedUlids

variable {cached : String → Option τ} {waiting : List Detail} {l : Ledger τ ε}

theorem Placed.perm (h : Placed cached waiting l pending) (hp : pending.Perm pending') :
    Placed cached waiting l pending' where
  known d hd := h.known d (hp.mem_iff.2 hd)
  apart := ((hp.map _).nodup_iff).1 h.apart
  untouched d hd := h.untouched d (hp.mem_iff.2 hd)
  settled d hd hn := h.settled d hd fun hm => hn ((hp.map _).mem_iff.1 hm)
  others := h.others

theorem Placed.miss (h : Placed cached waiting l pending) (d : Detail) :
    Placed cached waiting (l.miss d) pending :=
  ⟨h.known, h.apart, h.untouched, h.settled, h.others⟩

/-- The ulid of a pending article is that of no other. -/
theorem Placed.ne (h : Placed cached waiting l (d :: pending)) (he : e ∈ pending) :
    e.ulid ≠ d.ulid := by
  have hn := h.apart
  rw [List.map_cons, List.nodup_cons] at hn
  intro heq
  exact hn.1 (heq ▸ List.mem_map_of_mem he)

theorem Placed.fail (h : Placed cached waiting l (d :: pending)) :
    Placed cached waiting (l.fail record d) pending where
  known e he := h.known e (List.mem_cons_of_mem d he)
  apart := (List.nodup_cons.1 h.apart).2
  untouched e he := by
    have ho := h.untouched e (List.mem_cons_of_mem d he)
    refine ⟨ho.1, ?_⟩
    rw [failedUlids_fail, List.mem_insert_iff]
    rintro (heq | hm)
    · exact h.ne he heq
    · exact ho.2 hm
  settled e he hn := by
    by_cases heq : e.ulid = d.ulid
    · refine .inr ⟨heq ▸ (h.untouched d List.mem_cons_self).1, ?_⟩
      rw [failedUlids_fail, List.mem_insert_iff]
      exact .inl heq
    · have hs := h.settled e he fun hm => (List.mem_cons.1 hm).elim heq hn
      rw [failedUlids_fail, List.mem_insert_iff, or_iff_right heq]
      exact hs
  others u hu := by
    have ho := h.others u hu
    refine ⟨ho.1, ?_⟩
    rw [failedUlids_fail, List.mem_insert_iff]
    rintro (rfl | hm)
    · exact hu (List.mem_map_of_mem (h.known d List.mem_cons_self))
    · exact ho.2 hm

theorem Placed.translate (h : Placed cached waiting l (d :: pending)) (t : τ) :
    Placed cached waiting (l.translate record d t) pending where
  known e he := h.known e (List.mem_cons_of_mem d he)
  apart := (List.nodup_cons.1 h.apart).2
  untouched e he := by
    rw [translatedMap_translate, failedUlids_translate, Function.update_of_ne (h.ne he)]
    exact h.untouched e (List.mem_cons_of_mem d he)
  settled e he hn := by
    rw [translatedMap_translate, failedUlids_translate]
    by_cases heq : e.ulid = d.ulid
    · refine .inl ?_
      rw [heq, Function.update_self]
      exact ⟨rfl, (h.untouched d List.mem_cons_self).2⟩
    · rw [Function.update_of_ne heq]
      exact h.settled e he fun hm => (List.mem_cons.1 hm).elim heq hn
  others u hu := by
    have hne : u ≠ d.ulid := by
      rintro rfl
      exact hu (List.mem_map_of_mem (h.known d List.mem_cons_self))
    rw [translatedMap_translate, failedUlids_translate, Function.update_of_ne hne]
    exact h.others u hu

/-- What is taken off the queue is in the batch, or has failed. -/
theorem placed_fillBatch (room : Nat) (queue aside : List Detail)
    (h : Placed cached waiting l (aside ++ queue)) :
    Placed cached waiting (fillBatch record room queue l).2.2
      (aside ++ ((fillBatch record room queue l).1 ++ (fillBatch record room queue l).2.1)) := by
  induction queue generalizing room aside l with
  | nil => cases room <;> exact h
  | cons d queue ih =>
    cases room with
    | zero => exact h
    | succ room =>
      rw [fillBatch]
      split
      next => exact ih (room + 1) aside ((h.perm List.perm_middle).fail record)
      next =>
        have hrest := ih room (aside ++ [d]) (by rwa [List.append_assoc])
        rw [List.append_assoc] at hrest
        exact hrest

theorem placed_settleBatch (reply : String → Option τ) (batch queue : List Detail)
    (h : Placed cached waiting l (batch ++ queue)) :
    Placed cached waiting (settleBatch record reply batch queue l).2
      (settleBatch record reply batch queue l).1 := by
  induction batch generalizing queue l with
  | nil => exact h
  | cons d batch ih =>
    rw [settleBatch]
    split
    next t _ => exact ih queue (h.translate record t)
    next =>
      split
      next => exact ih queue ((h.miss d).fail record)
      next =>
        apply ih
        rw [← List.append_assoc]
        exact (h.miss d).perm (List.perm_append_singleton d (batch ++ queue)).symm

/-! ### How long it runs -/

/-- How often an article can still be taken off the queue. -/
def Ledger.tries (l : Ledger τ ε) (d : Detail) : Nat :=
  if l.spent d then 1 else maxTranslationRetries - l.retryCount d.ulid

def Ledger.triesOf (l : Ledger τ ε) (queue : List Detail) : Nat := (queue.map l.tries).sum

theorem tries_pos (l : Ledger τ ε) (d : Detail) : 0 < l.tries d := by
  rw [Ledger.tries, Ledger.spent]
  split
  next => exact Nat.one_pos
  next h =>
    rw [decide_eq_true_iff] at h
    omega

theorem tries_le (l : Ledger τ ε) (d : Detail) : l.tries d ≤ maxTranslationRetries := by
  rw [Ledger.tries]
  split
  next => decide
  next => exact Nat.sub_le _ _

theorem tries_congr {l l' : Ledger τ ε} (h : l'.retryCount d.ulid = l.retryCount d.ulid) :
    l'.tries d = l.tries d := by
  rw [Ledger.tries, Ledger.tries, Ledger.spent, Ledger.spent, h]

theorem tries_miss_ne (l : Ledger τ ε) (h : e.ulid ≠ d.ulid) : (l.miss d).tries e = l.tries e :=
  tries_congr (Function.update_of_ne h _ _)

/-- A try that has failed is one less. -/
theorem tries_miss (l : Ledger τ ε) (h : (l.miss d).spent d = false) :
    (l.miss d).tries d + 1 = l.tries d := by
  have hlt := of_decide_eq_false h
  rw [retryCount_miss] at hlt
  have hs : l.spent d = false := by
    rw [Ledger.spent, decide_eq_false_iff_not]
    omega
  rw [Ledger.tries, Ledger.tries, h, hs, retryCount_miss]
  simp only [Bool.false_eq_true, if_false]
  omega

theorem triesOf_append (l : Ledger τ ε) (queue queue' : List Detail) :
    l.triesOf (queue ++ queue') = l.triesOf queue + l.triesOf queue' := by
  rw [Ledger.triesOf, List.map_append, List.sum_append]
  rfl

theorem triesOf_cons (l : Ledger τ ε) (d : Detail) (queue : List Detail) :
    l.triesOf (d :: queue) = l.tries d + l.triesOf queue := by
  rw [Ledger.triesOf, List.map_cons, List.sum_cons]
  rfl

theorem triesOf_congr {l l' : Ledger τ ε} {queue : List Detail}
    (h : ∀ d ∈ queue, l'.tries d = l.tries d) : l'.triesOf queue = l.triesOf queue := by
  rw [Ledger.triesOf, Ledger.triesOf, List.map_congr_left h]

/-- Taking articles off the queue costs a try of each that fails, and the others are not spent. -/
theorem triesOf_fillBatch (room : Nat) (queue : List Detail) (l : Ledger τ ε) :
    (fillBatch record room queue l).2.2.retryCount = l.retryCount ∧
      l.triesOf ((fillBatch record room queue l).1 ++ (fillBatch record room queue l).2.1) ≤
        l.triesOf queue ∧
      (room ≠ 0 → queue ≠ [] → (fillBatch record room queue l).1 = [] →
        l.triesOf (fillBatch record room queue l).2.1 < l.triesOf queue) := by
  induction queue generalizing room l with
  | nil =>
    cases room with
    | zero => exact ⟨rfl, Nat.le_refl _, fun _ h => absurd rfl h⟩
    | succ room => exact ⟨rfl, Nat.le_refl _, fun _ h => absurd rfl h⟩
  | cons d queue ih =>
    cases room with
    | zero => exact ⟨rfl, Nat.le_refl _, fun h => absurd rfl h⟩
    | succ room =>
      have hpos := tries_pos l d
      rw [fillBatch, triesOf_cons]
      split
      next =>
        obtain ⟨hcount, hle, -⟩ := ih (room + 1) (l.fail record d)
        have hsame (queue : List Detail) : (l.fail record d).triesOf queue = l.triesOf queue :=
          triesOf_congr fun _ _ => tries_congr rfl
        rw [hsame, hsame] at hle
        refine ⟨hcount, by omega, ?_⟩
        intro _ _ hnil
        rw [hnil, List.nil_append] at hle
        omega
      next =>
        obtain ⟨hcount, hle, -⟩ := ih room l
        refine ⟨hcount, ?_, fun _ _ h => absurd h (List.cons_ne_nil _ _)⟩
        dsimp only
        rw [List.cons_append, triesOf_cons]
        exact Nat.add_le_add_left hle _

/-- Each article of a batch costs a try. -/
theorem triesOf_settleBatch (reply : String → Option τ) (batch queue : List Detail)
    (h : Placed cached waiting l (batch ++ queue)) :
    (settleBatch record reply batch queue l).2.triesOf (settleBatch record reply batch queue l).1 +
        batch.length ≤ l.triesOf (batch ++ queue) := by
  induction batch generalizing queue l with
  | nil => exact Nat.le_refl _
  | cons d batch ih =>
    have hpos := tries_pos l d
    have hmiss : (l.miss d).triesOf (batch ++ queue) = l.triesOf (batch ++ queue) :=
      triesOf_congr fun e he => tries_miss_ne l (h.ne he)
    rw [settleBatch, List.cons_append, triesOf_cons, List.length_cons]
    split
    next t _ =>
      have hle := ih queue (h.translate record t)
      have hsame : (l.translate record d t).triesOf (batch ++ queue) = l.triesOf (batch ++ queue) :=
        triesOf_congr fun _ _ => tries_congr rfl
      omega
    next =>
      split
      next =>
        have hle := ih queue ((h.miss d).fail record)
        have hsame : ((l.miss d).fail record d).triesOf (batch ++ queue) =
            (l.miss d).triesOf (batch ++ queue) := triesOf_congr fun _ _ => tries_congr rfl
        omega
      next hs =>
        have hperm := (List.perm_append_singleton d (batch ++ queue)).symm
        rw [List.append_assoc] at hperm
        have hle := ih (queue ++ [d]) ((h.miss d).perm hperm)
        have htry := tries_miss l (Bool.eq_false_iff.2 hs)
        rw [← List.append_assoc, triesOf_append, triesOf_cons] at hle
        have hnil : (l.miss d).triesOf [] = 0 := rfl
        omega

/-- An iteration keeps the articles placed and costs a try at least. -/
theorem placed_iterate (replies : Nat → String → Option τ) {s : TranslatorState τ ε}
    (h : Placed cached waiting s.ledger s.queue) (hne : s.queue ≠ []) :
    Placed cached waiting (s.iterate record replies).ledger (s.iterate record replies).queue ∧
      (s.iterate record replies).ledger.triesOf (s.iterate record replies).queue + 1 ≤
        s.ledger.triesOf s.queue := by
  have hfill := placed_fillBatch record batchSize s.queue [] h
  rw [List.nil_append] at hfill
  obtain ⟨hcount, hle, hlt⟩ := triesOf_fillBatch record batchSize s.queue s.ledger
  refine ⟨placed_settleBatch record (replies (s.iteration + 1)) _ _ hfill, ?_⟩
  have hsettle := triesOf_settleBatch record (replies (s.iteration + 1)) _ _ hfill
  have hsame (queue : List Detail) :
      (fillBatch record batchSize s.queue s.ledger).2.2.triesOf queue = s.ledger.triesOf queue :=
    triesOf_congr fun d _ => tries_congr (congrFun hcount d.ulid)
  rw [hsame] at hsettle
  by_cases hbatch : (fillBatch record batchSize s.queue s.ledger).1 = []
  · have hless := hlt (by decide) hne hbatch
    have hrest : s.ledger.triesOf ((fillBatch record batchSize s.queue s.ledger).1 ++
        (fillBatch record batchSize s.queue s.ledger).2.1) =
          s.ledger.triesOf (fillBatch record batchSize s.queue s.ledger).2.1 := by
      rw [hbatch, List.nil_append]
    rw [← hrest] at hless
    exact Nat.lt_of_le_of_lt (Nat.le_of_add_right_le hsettle) hless
  · have hone := List.length_pos_iff.2 hbatch
    exact ((Nat.add_le_add_left hone _).trans hsettle).trans hle

/-- A loop that has as many iterations left as there are tries empties the queue. -/
theorem placed_loop (replies : Nat → String → Option τ) (left : Nat) {s : TranslatorState τ ε}
    (h : Placed cached waiting s.ledger s.queue) (hleft : s.ledger.triesOf s.queue ≤ left) :
    (s.loop record replies left).queue = [] ∧
      (s.loop record replies left).iteration ≤ s.iteration + s.ledger.triesOf s.queue ∧
      Placed cached waiting (s.loop record replies left).ledger [] := by
  induction left generalizing s with
  | zero =>
    cases hq : s.queue with
    | nil => exact ⟨hq, Nat.le_add_right _ _, hq ▸ h⟩
    | cons d queue =>
      have hpos := tries_pos s.ledger d
      rw [hq, triesOf_cons] at hleft
      omega
  | succ left ih =>
    rw [TranslatorState.loop]
    split
    next hq => exact ⟨hq, Nat.le_add_right _ _, hq ▸ h⟩
    next hq =>
      obtain ⟨hplaced, hlt⟩ := placed_iterate record replies h hq
      obtain ⟨hqueue, hiter, hplaced⟩ := ih hplaced (Nat.le_of_succ_le_succ (hlt.trans hleft))
      have hnext : (s.iterate record replies).iteration = s.iteration + 1 := rfl
      exact ⟨hqueue, by omega, hplaced⟩

theorem triesOf_le (l : Ledger τ ε) (queue : List Detail) :
    l.triesOf queue ≤ queue.length * maxTranslationRetries := by
  induction queue with
  | nil => exact Nat.zero_le _
  | cons d queue ih =>
    have hd := tries_le l d
    rw [triesOf_cons, List.length_cons, Nat.succ_mul]
    omega

theorem placed_uncached (cached : String → Option τ) (stored : String → Nat)
    {articles : List Detail} (h : (articles.map Detail.ulid).Nodup) :
    Placed (ε := ε) cached (uncached cached articles)
      { translatedMap := cached, retryCount := stored } (uncached cached articles) where
  known _ hd := hd
  apart := h.sublist (List.filter_sublist.map Detail.ulid)
  untouched _ hd := ⟨Option.isNone_iff_eq_none.1 (List.mem_filter.1 hd).2, List.not_mem_nil⟩
  settled _ hd hn := absurd (List.mem_map_of_mem hd) hn
  others _ _ := ⟨rfl, List.not_mem_nil⟩

/-- An article with a cached translation does not wait. -/
theorem ulid_not_uncached {cached : String → Option τ} {u : String} {t : τ} (h : cached u = some t)
    (articles : List Detail) : u ∉ (uncached cached articles).map Detail.ulid := by
  intro hm
  obtain ⟨d, hd, rfl⟩ := List.mem_map.1 hm
  have hnone := (List.mem_filter.1 hd).2
  rw [h] at hnone
  cases hnone

/-- The loop ends of itself, with each article translated or failed. -/
theorem settled_translateArticles (replies : Nat → String → Option τ)
    (cached : String → Option τ) (stored : String → Nat) {articles : List Detail}
    (h : (articles.map Detail.ulid).Nodup) :
    let s := translateArticles record replies cached stored articles
    s.queue = [] ∧ s.iteration < safetyLimit (uncached cached articles) ∧
      ∀ d ∈ articles,
        ((s.ledger.translatedMap d.ulid).isSome = true ∧ d.ulid ∉ s.ledger.failedUlids) ∨
          (s.ledger.translatedMap d.ulid = none ∧ d.ulid ∈ s.ledger.failedUlids) := by
  intro s
  have hplaced := placed_uncached (ε := ε) cached stored h
  have htries := Nat.lt_succ_of_le (triesOf_le (ε := ε)
    { translatedMap := cached, retryCount := stored } (uncached cached articles))
  obtain ⟨hqueue, hiter, hend⟩ := placed_loop record replies
    (s := ⟨{ translatedMap := cached, retryCount := stored }, uncached cached articles, 0⟩)
    (safetyLimit (uncached cached articles)) hplaced htries.le
  refine ⟨hqueue, hiter.trans_lt ?_, ?_⟩
  · rw [Nat.zero_add]
    exact htries
  · intro d hd
    cases hc : cached d.ulid with
    | none =>
      have hwaits : d ∈ uncached cached articles := List.mem_filter.2 ⟨hd, by rw [hc]; rfl⟩
      exact hend.settled d hwaits List.not_mem_nil
    | some t =>
      obtain ⟨hmap, hfailed⟩ := hend.others d.ulid (ulid_not_uncached hc articles)
      exact .inl ⟨(congrArg Option.isSome (hmap.trans hc)).trans rfl, hfailed⟩

end

/-- The articles of `translate_all`, for every sequence of replies and calls that raise. -/
theorem translateAll_settles {ε : Type} (record : Recorder TransData ε)
    (nonzero : String → Bool) (replies : Nat → Option (List Char))
    (cached : String → Option TransData) (stored : String → Nat) (articles : List Detail)
    (h : (articles.map Detail.ulid).Nodup) :
    let s := translateArticles record (fun i => transDataOf nonzero (replies i)) cached stored
      articles
    s.queue = [] ∧ s.iteration < safetyLimit (uncached cached articles) ∧
      ∀ d ∈ articles,
        ((s.ledger.translatedMap d.ulid).isSome = true ∧ d.ulid ∉ s.ledger.failedUlids) ∨
          (s.ledger.translatedMap d.ulid = none ∧ d.ulid ∈ s.ledger.failedUlids) :=
  settled_translateArticles record _ cached stored h

/-- The articles of a batch of one, whose calls all raise. -/
theorem translateAll_settles_raising :
    let s := translateArticles (⟨fun _ n => [n], fun _ _ _ => []⟩ : Recorder TransData Nat)
      (fun _ => transDataOf (fun _ => true) none) (fun _ => none) (fun _ => 1)
      (oneArticle .publishing .pending).batch.details
    s.queue = [] ∧ s.iteration < 4 ∧ "a1" ∈ s.ledger.failedUlids := by
  obtain ⟨hqueue, hiter, hplaced⟩ := translateAll_settles
    (⟨fun _ n => [n], fun _ _ _ => []⟩ : Recorder TransData Nat) (fun _ => true) (fun _ => none)
    (fun _ => none) (fun _ => 1) (oneArticle .publishing .pending).batch.details (by decide)
  refine ⟨hqueue, hiter, ?_⟩
  rcases hplaced _ List.mem_cons_self with ⟨hsome, -⟩ | ⟨-, hfailed⟩
  · exact absurd hsome (by decide)
  · exact hfailed

/-! ### The translator of a run -/

def recorder (cfg : Config) (env : Env) : Recorder Translation Effect where
  failure := recordFailure cfg env
  translation := recordTranslation cfg env

/-- The state of a run without the articles that have failed. -/
def TranslatorState.toTranslator (s : TranslatorState Translation Effect) : Translator where
  translated := s.ledger.translatedMap
  retries := s.ledger.retryCount
  queue := s.queue
  effects := s.ledger.written

theorem takeBatch_fillBatch (cfg : Config) (env : Env) (room : Nat) (queue : List Detail)
    (l : Ledger Translation Effect) :
    let filled := fillBatch (recorder cfg env) room queue l
    ∃ es, takeBatch cfg env l.retryCount room queue = (filled.1, filled.2.1, es) ∧
      filled.2.2.written = l.written ++ es ∧ filled.2.2.translatedMap = l.translatedMap ∧
        filled.2.2.retryCount = l.retryCount := by
  induction queue generalizing room l with
  | nil => cases room <;> exact ⟨[], rfl, (List.append_nil _).symm, rfl, rfl⟩
  | cons d queue ih =>
    cases room with
    | zero => exact ⟨[], rfl, (List.append_nil _).symm, rfl, rfl⟩
    | succ room =>
      rw [fillBatch, takeBatch]
      by_cases hs : maxTranslationRetries ≤ l.retryCount d.ulid
      · obtain ⟨es, htake, hwritten, hrest⟩ := ih (room + 1) (l.fail (recorder cfg env) d)
        have hspent : l.spent d = true := decide_eq_true hs
        have hcount : (l.fail (recorder cfg env) d).retryCount = l.retryCount := rfl
        rw [hcount] at htake
        rw [if_pos hspent, if_pos hs, htake]
        refine ⟨_, rfl, ?_, hrest⟩
        rw [hwritten, ← List.append_assoc]
        rfl
      · obtain ⟨es, htake, hrest⟩ := ih room l
        have hspent : ¬l.spent d = true := fun h => hs (of_decide_eq_true h)
        rw [if_neg hspent, if_neg hs, htake]
        exact ⟨es, rfl, hrest⟩

theorem translateOne_spent (cfg : Config) (env : Env) (iteration : Nat) {d : Detail}
    (s : TranslatorState Translation Effect) (h : env.llm iteration d.ulid = none)
    (hs : (s.ledger.miss d).spent d = true) :
    translateOne cfg env iteration s.toTranslator d =
      TranslatorState.toTranslator
        { s with ledger := (s.ledger.miss d).fail (recorder cfg env) d } := by
  have hle := of_decide_eq_true hs
  rw [retryCount_miss] at hle
  rw [translateOne, h, Ledger.fail, retryCount_miss]
  exact if_pos hle

theorem translateOne_kept (cfg : Config) (env : Env) (iteration : Nat) {d : Detail}
    (s : TranslatorState Translation Effect) (h : env.llm iteration d.ulid = none)
    (hs : ¬(s.ledger.miss d).spent d = true) :
    translateOne cfg env iteration s.toTranslator d =
      TranslatorState.toTranslator
        { s with ledger := s.ledger.miss d, queue := s.queue ++ [d] } := by
  have hlt : ¬maxTranslationRetries ≤ s.ledger.retryCount d.ulid + 1 := by
    rw [← retryCount_miss]
    exact fun hle => hs (decide_eq_true hle)
  rw [translateOne, h]
  exact if_neg hlt

theorem toTranslator_settleBatch (cfg : Config) (env : Env) (iteration i : Nat)
    (batch queue : List Detail) (l : Ledger Translation Effect) :
    batch.foldl (translateOne cfg env iteration) (TranslatorState.toTranslator ⟨l, queue, i⟩) =
      TranslatorState.toTranslator
        ⟨(settleBatch (recorder cfg env) (env.llm iteration) batch queue l).2,
          (settleBatch (recorder cfg env) (env.llm iteration) batch queue l).1, i⟩ := by
  induction batch generalizing queue l with
  | nil => rfl
  | cons d batch ih =>
    rw [List.foldl_cons, settleBatch]
    cases hreply : env.llm iteration d.ulid with
    | some t =>
      have hone : translateOne cfg env iteration (TranslatorState.toTranslator ⟨l, queue, i⟩) d =
          TranslatorState.toTranslator ⟨l.translate (recorder cfg env) d t, queue, i⟩ := by
        rw [translateOne, hreply]
        rfl
      rw [hone]
      exact ih queue (l.translate (recorder cfg env) d t)
    | none =>
      by_cases hs : (l.miss d).spent d = true
      · rw [translateOne_spent cfg env iteration ⟨l, queue, i⟩ hreply hs, if_pos hs]
        exact ih queue ((l.miss d).fail (recorder cfg env) d)
      · rw [translateOne_kept cfg env iteration ⟨l, queue, i⟩ hreply hs, if_neg hs]
        exact ih (queue ++ [d]) (l.miss d)

/-- A round of a run is an iteration of the loop. -/
theorem toTranslator_iterate (cfg : Config) (env : Env) (s : TranslatorState Translation Effect) :
    translateRound cfg env (s.iteration + 1) s.toTranslator =
      (s.iterate (recorder cfg env) env.llm).toTranslator := by
  obtain ⟨es, htake, hwritten, hmap, hcount⟩ :=
    takeBatch_fillBatch cfg env batchSize s.queue s.ledger
  have hround := toTranslator_settleBatch cfg env (s.iteration + 1) (s.iteration + 1)
    (fillBatch (recorder cfg env) batchSize s.queue s.ledger).1
    (fillBatch (recorder cfg env) batchSize s.queue s.ledger).2.1
    (fillBatch (recorder cfg env) batchSize s.queue s.ledger).2.2
  refine Eq.trans ?_ hround
  simp only [translateRound, TranslatorState.toTranslator, htake, hwritten, hmap, hcount]

theorem toTranslator_loop (cfg : Config) (env : Env) (left : Nat)
    (s : TranslatorState Translation Effect) :
    translateRounds cfg env left s.iteration s.toTranslator =
      (s.loop (recorder cfg env) env.llm left).toTranslator := by
  induction left generalizing s with
  | zero => rfl
  | succ left ih =>
    rw [translateRounds, TranslatorState.loop]
    by_cases hq : s.queue = []
    · rw [if_pos hq]
      exact if_pos hq
    · rw [if_neg hq, ← ih (s.iterate (recorder cfg env) env.llm), ← toTranslator_iterate]
      exact if_neg hq

/-- The translator of a run is this one, with what the run has done before. -/
theorem toTranslator_translateAll (cfg : Config) (env : Env) (db : Db) (articles : List Detail)
    (es : List Effect) :
    translateAll cfg env db articles es =
      (TranslatorState.loop (recorder cfg env) env.llm
        (safetyLimit (uncached (loadCached env db articles es) articles))
        { ledger :=
            { translatedMap := loadCached env db articles es
              retryCount := loadRetries env db es
              written := es }
          queue := uncached (loadCached env db articles es) articles }).toTranslator :=
  toTranslator_loop cfg env (safetyLimit (uncached (loadCached env db articles es) articles))
    ⟨{ translatedMap := loadCached env db articles es
       retryCount := loadRetries env db es
       written := es }, uncached (loadCached env db articles es) articles, 0⟩

end Publisher
