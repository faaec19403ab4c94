import Mathlib.Data.List.Sort
import AnythingTools.Jobs.RunOutcome
import AnythingTools.Sync.PullToLocal

namespace Scraper
open Jobs (member)
set_option autoImplicit true

/-! ### The candidates -/

/-- A dictionary of texts, of which some may be `None`. -/
abbrev Fields := String → Option (Option String)

/-- `c.get(key, default)`. -/
def Fields.get (c : Fields) (key : String) (default : Option String) : Option String :=
  (c key).getD default

structure CurationCandidate where
  ulid : String
  title : Option String
  conclusion : Option String
  url : Option String
deriving DecidableEq, Repr

/-- The ulid of a candidate that has one. -/
def Fields.ulid (c : Fields) : Option String := (c.get "ulid" none).filter fun u => decide (u ≠ "")

def minSummaryChars : Nat := 600

/-- `str(s)`. -/
def strText (s : Option String) : String := s.getD "None"

/-- One entry of `valid_candidates`, if the article has a ulid and a summary of some length. -/
def assemble (c : Fields) : Option CurationCandidate := do
  let ulid ← c.ulid
  if minSummaryChars ≤ (Sync.strip (strText (c.get "summary" (some "")))).length then
    some
      { ulid
        title := c.get "title" (some "")
        conclusion := c.get "conclusion" (some "")
        url := c.get "normalized_url" (c.get "url" (some "")) }
  else none

/-! ### `ContextPacker` -/

/-- A character inside a literal of `json.dumps` that may hold any other character. -/
def jsonChar (c : Char) : List Char :=
  if c = '"' then ['\\', '"']
  else if c = '\\' then ['\\', '\\']
  else if c = '\n' then ['\\', 'n']
  else if c = '\r' then ['\\', 'r']
  else if c = '\t' then ['\\', 't']
  else if c.toNat = 8 then ['\\', 'b']
  else if c.toNat = 12 then ['\\', 'f']
  else if c.toNat < 32 then
    ['\\', 'u', '0', '0', Nat.digitChar (c.toNat / 16), Nat.digitChar (c.toNat % 16)]
  else [c]

def jsonText : Option String → List Char
  | none => "null".toList
  | some s => '"' :: (s.toList.flatMap jsonChar ++ ['"'])

def itemStr (c : CurationCandidate) : List Char :=
  "\x7b\"title\": ".toList ++ jsonText c.title ++ ", \"conclusion\": ".toList ++
    jsonText c.conclusion ++ ", \"ulid\": ".toList ++ jsonText (some c.ulid) ++ "\x7d".toList

/-- The key that the candidates are sorted by, the longest conclusion first. -/
def CurationCandidate.before (a b : CurationCandidate) : Bool :=
  let size (c : CurationCandidate) : Nat := (c.conclusion.getD "").length
  decide (size b < size a) ||
    (decide (size a = size b) && decide (a.title.getD "" ≤ b.title.getD ""))

inductive ContentMode where
  | full
  | truncate
deriving DecidableEq, Repr

/-- The loop of `pack`, with what is packed and its length. -/
def packLoop (budget : Nat) :
    List CurationCandidate → List CurationCandidate → Nat → List CurationCandidate × ContentMode
  | [], packed, _ => (packed, .full)
  | c :: cs, packed, currentLen =>
    if budget < currentLen + (itemStr c).length then
      if packed = [] then ([c], .truncate) else (packed, .full)
    else packLoop budget cs (packed ++ [c]) (currentLen + (itemStr c).length)

structure Packed where
  candidates : List CurationCandidate
  targetCount : Nat
  mode : ContentMode

def pack (budget : Nat) (candidates : List CurationCandidate) : Packed :=
  let (packed, mode) :=
    packLoop budget (candidates.insertionSort fun a b => a.before b = true) [] 0
  { candidates := packed, targetCount := min 10 packed.length, mode }

/-! ### `Top10Curator` -/

/-- What a call of the model comes to; the content may be missing. -/
inductive Reply where
  | raised
  | content (text : Option String)
deriving DecidableEq, Repr

/-- Why an attempt is repeated. -/
inductive CurationError where
  | empty
  | count (expected got : Nat)
  | exception
deriving DecidableEq, Repr

/-- The loop over the ulids of a reply; one that cannot be a member of a set raises. -/
def validUlids (candidateUlids : List String) : List Json → List String → Option (List String)
  | [], valid => some valid
  | .list _ :: _, _ => none
  | .dict _ :: _, _ => none
  | .str u :: us, valid =>
    match candidateUlids.find? fun ulid => decide (ulid.toList.map Char.toNat = u) with
    | some ulid =>
      if ulid ∈ valid then validUlids candidateUlids us valid
      else validUlids candidateUlids us (valid ++ [ulid])
    | none => validUlids candidateUlids us valid
  | _ :: us, valid => validUlids candidateUlids us valid

/-- The ulids that a reply names. -/
def topUlids (text : String) : Option (List Json) :=
  match Json.loads text with
  | some (.dict ms) => Json.items ((member "top_10" (.dict ms)).getD (.list []))
  | _ => none

/-- `ulid_to_item`, of which the last candidate of a ulid is left. -/
def ulidToItem (packed : List CurationCandidate) (ulid : String) : Option CurationCandidate :=
  packed.reverse.find? fun c => decide (c.ulid = ulid)

/-- One attempt. -/
def readReply (packed : Packed) : Reply → Except CurationError (List CurationCandidate)
  | .raised => .error .exception
  | .content text =>
    if text.getD "" = "" then .error .empty
    else
      match (topUlids (text.getD "")).bind fun us =>
          validUlids (packed.candidates.map CurationCandidate.ulid) us [] with
      | none => .error .exception
      | some valid =>
        if valid.length = packed.targetCount then
          .ok (valid.filterMap (ulidToItem packed.candidates))
        else .error (.count packed.targetCount valid.length)

structure CurationResult where
  curatedList : List CurationCandidate
  targetCount : Nat
  contentMode : Option ContentMode
  fallbackUsed : Bool
  calls : Nat
  previousErrors : List CurationError

def maxRetries : Nat := 3

/-- The attempts, with the number that are left, and the slice that they fall back to. -/
def attempts (packed : Packed) (replies : Nat → Reply) :
    Nat → Nat → List CurationError → CurationResult
  | 0, calls, previousErrors =>
    { curatedList :=
        (packed.candidates.take packed.targetCount).filterMap fun c =>
          ulidToItem packed.candidates c.ulid
      targetCount := packed.targetCount
      contentMode := some packed.mode
      fallbackUsed := true
      calls, previousErrors }
  | left + 1, calls, previousErrors =>
    match readReply packed (replies (calls + 1)) with
    | .ok curatedList =>
      { curatedList
        targetCount := packed.targetCount
        contentMode := some packed.mode
        fallbackUsed := false
        calls := calls + 1
        previousErrors }
    | .error e => attempts packed replies left (calls + 1) (previousErrors ++ [e])

/-- The candidates that `curate` packs. -/
def packedCandidates (budget : Nat) (candidates : List Fields) : Packed :=
  pack budget (candidates.filterMap assemble)

/-- The result where there is nothing to choose from. -/
def noCandidates (contentMode : Option ContentMode) : CurationResult where
  curatedList := []
  targetCount := 0
  contentMode
  fallbackUsed := false
  calls := 0
  previousErrors := []

def curate (budget : Nat) (replies : Nat → Reply) (candidates : List Fields) : CurationResult :=
  if candidates.filterMap assemble = [] then noCandidates none
  else
    let packed := packedCandidates budget candidates
    if packed.targetCount = 0 then noCandidates (some packed.mode)
    else attempts packed replies maxRetries 0 []

/-! ### What is packed -/

/-- The sizes of the packed candidates sum to the budget at most, or there is one of them. -/
def Fits (budget : Nat) (packed : List CurationCandidate) : Prop :=
  (packed.map fun c => (itemStr c).length).sum ≤ budget ∨ packed.length = 1

/-- The loop packs the candidates from the front, at least one. -/
theorem packLoop_fits (budget : Nat) (cs packed : List CurationCandidate) {currentLen : Nat}
    (hlen : (packed.map fun c => (itemStr c).length).sum = currentLen) (hle : currentLen ≤ budget) :
    (∃ k, (packLoop budget cs packed currentLen).1 = packed ++ cs.take k) ∧
      Fits budget (packLoop budget cs packed currentLen).1 := by
  induction cs generalizing packed currentLen with
  | nil => exact ⟨⟨0, (List.append_nil _).symm⟩, .inl (hlen.trans_le hle)⟩
  | cons c cs ih =>
    rw [packLoop]
    split
    next =>
      split
      next hnil =>
        subst hnil
        exact ⟨⟨1, rfl⟩, .inr rfl⟩
      next => exact ⟨⟨0, (List.append_nil _).symm⟩, .inl (hlen.trans_le hle)⟩
    next hroom =>
      have hlen' : ((packed ++ [c]).map fun c => (itemStr c).length).sum =
          currentLen + (itemStr c).length := by
        rw [List.map_append, List.sum_append, hlen]
        rfl
      obtain ⟨⟨k, hk⟩, hfits⟩ := ih (packed ++ [c]) hlen' (Nat.le_of_not_lt hroom)
      refine ⟨⟨k + 1, ?_⟩, hfits⟩
      rw [hk, List.append_assoc]
      rfl

/-- What is packed is among the candidates, none of them twice. -/
theorem pack_subperm (budget : Nat) (candidates : List CurationCandidate) :
    (pack budget candidates).candidates.Subperm candidates ∧
      Fits budget (pack budget candidates).candidates := by
  obtain ⟨⟨k, hk⟩, hfits⟩ := packLoop_fits budget
    (candidates.insertionSort fun a b => a.before b = true) [] rfl (Nat.zero_le budget)
  refine ⟨?_, hfits⟩
  have htake : (pack budget candidates).candidates =
      (candidates.insertionSort fun a b => a.before b = true).take k := hk
  rw [htake]
  exact (List.take_sublist _ _).subperm.trans (List.perm_insertionSort _ _).subperm

/-! ### What is chosen -/

/-- So many of the packed candidates, each once. -/
structure Chosen (packed : Packed) (curatedList : List CurationCandidate) : Prop where
  count : curatedList.length = packed.targetCount
  apart : (curatedList.map CurationCandidate.ulid).Nodup
  drawn : ∀ c ∈ curatedList, c ∈ packed.candidates

theorem validUlids_nodup {us : List Json} {valid : List String}
    (h : validUlids candidateUlids us valid = some result) (hn : valid.Nodup)
    (hs : ∀ u ∈ valid, u ∈ candidateUlids) :
    result.Nodup ∧ ∀ u ∈ result, u ∈ candidateUlids := by
  induction us generalizing valid with
  | nil =>
    cases h
    exact ⟨hn, hs⟩
  | cons u us ih =>
    cases u with
    | list xs => cases h
    | dict ms => cases h
    | str u =>
      rw [validUlids] at h
      split at h
      next ulid hfind =>
        split at h
        next => exact ih h hn hs
        next hnew =>
          refine ih h (hn.append (List.nodup_singleton ulid) ?_) ?_
          · exact List.disjoint_singleton.2 hnew
          · intro v hv
            rcases List.mem_append.1 hv with hv | hv
            · exact hs v hv
            · rw [List.mem_singleton.1 hv]
              exact List.mem_of_find?_eq_some hfind
      next => exact ih h hn hs
    | _ => exact ih h hn hs

/-- The ulid of a packed candidate leads to one of that ulid. -/
theorem ulidToItem_of_mem {packed : List CurationCandidate}
    (h : u ∈ packed.map CurationCandidate.ulid) :
    ∃ c ∈ packed, ulidToItem packed u = some c ∧ c.ulid = u := by
  obtain ⟨c, hc, hu⟩ := List.mem_map.1 h
  have hsome : (ulidToItem packed u).isSome = true := by
    rw [ulidToItem, List.find?_isSome]
    exact ⟨c, List.mem_reverse.2 hc, decide_eq_true hu⟩
  obtain ⟨c', hc'⟩ := Option.isSome_iff_exists.1 hsome
  have hmem := List.mem_reverse.1 (List.mem_of_find?_eq_some hc')
  exact ⟨c', hmem, hc', by simpa using List.find?_some hc'⟩

theorem filterMap_ulidToItem {packed : List CurationCandidate} {us : List String}
    (h : ∀ u ∈ us, u ∈ packed.map CurationCandidate.ulid) :
    (us.filterMap (ulidToItem packed)).map CurationCandidate.ulid = us ∧
      ∀ c ∈ us.filterMap (ulidToItem packed), c ∈ packed := by
  induction us with
  | nil => exact ⟨rfl, fun c hc => absurd hc List.not_mem_nil⟩
  | cons u us ih =>
    obtain ⟨hmap, hdrawn⟩ := ih fun v hv => h v (List.mem_cons_of_mem u hv)
    obtain ⟨c, hc, hitem, hu⟩ := ulidToItem_of_mem (h u List.mem_cons_self)
    rw [List.filterMap_cons_some hitem]
    refine ⟨by rw [List.map_cons, hmap, hu], ?_⟩
    intro c' hc'
    rcases List.mem_cons.1 hc' with rfl | hc'
    · exact hc
    · exact hdrawn c' hc'

/-- Ulids of packed candidates, each once, and as many as are wanted. -/
theorem chosen_of_ulids {packed : Packed} {us : List String} (hlen : us.length = packed.targetCount)
    (hn : us.Nodup) (h : ∀ u ∈ us, u ∈ packed.candidates.map CurationCandidate.ulid) :
    Chosen packed (us.filterMap (ulidToItem packed.candidates)) := by
  obtain ⟨hmap, hdrawn⟩ := filterMap_ulidToItem h
  refine ⟨?_, hmap.symm ▸ hn, hdrawn⟩
  rw [← hlen, ← congrArg List.length hmap, List.length_map]

theorem readReply_chosen (h : readReply packed reply = .ok curatedList) :
    Chosen packed curatedList := by
  cases reply with
  | raised => cases h
  | content text =>
    rw [readReply] at h
    split at h
    next => cases h
    next =>
      split at h
      next => cases h
      next valid hvalid =>
        obtain ⟨us, _, hus⟩ := Option.bind_eq_some_iff.1 hvalid
        split at h
        next hlen =>
          cases h
          obtain ⟨hn, hs⟩ := validUlids_nodup hus List.nodup_nil
            fun u hu => absurd hu List.not_mem_nil
          exact chosen_of_ulids hlen hn hs
        next => cases h

/-- The slice that `curate` falls back to. -/
theorem fallback_chosen {packed : Packed}
    (hn : (packed.candidates.map CurationCandidate.ulid).Nodup)
    (hle : packed.targetCount ≤ packed.candidates.length) :
    Chosen packed ((packed.candidates.take packed.targetCount).filterMap fun c =>
      ulidToItem packed.candidates c.ulid) := by
  have htake := (List.take_sublist packed.targetCount packed.candidates).map CurationCandidate.ulid
  have hlen : ((packed.candidates.take packed.targetCount).map CurationCandidate.ulid).length =
      packed.targetCount := by
    rw [List.length_map, List.length_take, Nat.min_eq_left hle]
  have hslice := chosen_of_ulids hlen (hn.sublist htake) fun u hu => htake.subset hu
  rwa [List.filterMap_map] at hslice

/-- Whatever the model answers, the attempts end with a choice. -/
theorem attempts_chosen {packed : Packed} (replies : Nat → Reply) (left calls : Nat)
    (previousErrors : List CurationError)
    (hn : (packed.candidates.map CurationCandidate.ulid).Nodup)
    (hle : packed.targetCount ≤ packed.candidates.length) :
    Chosen packed (attempts packed replies left calls previousErrors).curatedList ∧
      (attempts packed replies left calls previousErrors).calls ≤ calls + left := by
  induction left generalizing calls previousErrors with
  | zero => exact ⟨fallback_chosen hn hle, Nat.le_refl _⟩
  | succ left ih =>
    rw [attempts]
    split
    next hread => exact ⟨readReply_chosen hread, Nat.add_le_add_left (Nat.succ_pos left) calls⟩
    next e _ =>
      obtain ⟨hchosen, hcalls⟩ := ih (calls + 1) (previousErrors ++ [e])
      exact ⟨hchosen, by omega⟩


theorem ulid_assemble {c : Fields} (h : assemble c = some candidate) :
    c.ulid = some candidate.ulid := by
  rw [assemble] at h
  obtain ⟨ulid, hulid, h⟩ := Option.bind_eq_some_iff.1 h
  split at h
  next =>
    cases h
    exact hulid
  next => cases h

theorem ulids_assemble (candidates : List Fields) :
    ((candidates.filterMap assemble).map CurationCandidate.ulid).Sublist
      (candidates.filterMap Fields.ulid) := by
  induction candidates with
  | nil => exact List.Sublist.refl _
  | cons c candidates ih =>
    cases hc : assemble c with
    | none =>
      rw [List.filterMap_cons_none hc]
      exact ih.trans (List.Sublist.filterMap _ (List.sublist_cons_self c candidates))
    | some candidate =>
      rw [List.filterMap_cons_some hc, List.filterMap_cons_some (ulid_assemble hc), List.map_cons]
      exact ih.cons_cons _

theorem chosen_nil {packed : Packed} (h : packed.targetCount = 0) : Chosen packed [] :=
  ⟨h.symm, List.nodup_nil, fun _ hc => absurd hc List.not_mem_nil⟩

/-- The early returns choose from nothing. -/
theorem curate_chosen (budget : Nat) (replies : Nat → Reply) (candidates : List Fields)
    (hn : ((packedCandidates budget candidates).candidates.map CurationCandidate.ulid).Nodup) :
    Chosen (packedCandidates budget candidates) (curate budget replies candidates).curatedList ∧
      (curate budget replies candidates).calls ≤ maxRetries := by
  rw [curate]
  split
  next hvalid =>
    have hzero : (packedCandidates budget candidates).targetCount = 0 := by
      rw [packedCandidates, hvalid]
      rfl
    exact ⟨chosen_nil hzero, Nat.zero_le _⟩
  next =>
    dsimp only
    split
    next hzero => exact ⟨chosen_nil hzero, Nat.zero_le _⟩
    next =>
      obtain ⟨hchosen, hcalls⟩ := attempts_chosen replies maxRetries 0 [] hn (Nat.min_le_right 10 _)
      exact ⟨hchosen, (Nat.zero_add maxRetries) ▸ hcalls⟩

/-- For every sequence of replies, `curate` asks a few times at most, and returns ten of the
packed candidates, or all of them, each once. -/
theorem curate_chooses (budget : Nat) (replies : Nat → Reply) (candidates : List Fields)
    (h : (candidates.filterMap Fields.ulid).Nodup) :
    let packed := (packedCandidates budget candidates).candidates
    let result := curate budget replies candidates
    result.calls ≤ maxRetries ∧ result.curatedList.length = min 10 packed.length ∧
      (result.curatedList.map CurationCandidate.ulid).Nodup ∧
      (∀ c ∈ result.curatedList, c ∈ packed) ∧ packed.Subperm (candidates.filterMap assemble) ∧
      Fits budget packed := by
  intro packed result
  obtain ⟨hsub, hfits⟩ := pack_subperm budget (candidates.filterMap assemble)
  have hn : (packed.map CurationCandidate.ulid).Nodup := by
    obtain ⟨l, hperm, hl⟩ := hsub
    exact ((hperm.map _).nodup_iff).1 ((h.sublist (ulids_assemble candidates)).sublist (hl.map _))
  obtain ⟨hchosen, hcalls⟩ := curate_chosen budget replies candidates hn
  exact ⟨hcalls, hchosen.count, hchosen.apart, hchosen.drawn, hsub, hfits⟩

/-- An article with a summary that is long enough. -/
def summarized (ulid : String) : Fields := fun key =>
  if key = "ulid" then some (some ulid)
  else if key = "summary" then some (some (String.ofList (List.replicate 600 's')))
  else none

theorem curate_chooses_raised :
    let packed := (packedCandidates 40 [summarized "a1", summarized "a2"]).candidates
    let result := curate 40 (fun _ => .raised) [summarized "a1", summarized "a2"]
    result.calls ≤ maxRetries ∧ result.curatedList.length = min 10 packed.length ∧
      (result.curatedList.map CurationCandidate.ulid).Nodup ∧
      (∀ c ∈ result.curatedList, c ∈ packed) ∧
      packed.Subperm ([summarized "a1", summarized "a2"].filterMap assemble) ∧ Fits 40 packed :=
  curate_chooses 40 (fun _ => .raised) [summarized "a1", summarized "a2"] (by decide)

end Scraper
