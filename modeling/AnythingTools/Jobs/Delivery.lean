import Mathlib.Data.List.DropRight
import AnythingTools.Dict
import AnythingTools.Jobs.RunOutcome
import AnythingTools.Text.JsonValues

namespace Jobs
open Json Text
set_option autoImplicit true

def key (s : String) : List Nat := s.toList.map Char.toNat

/-- `text or "\x7b\x7d"`. -/
def orEmptyDict (text : Option (List Char)) : List Char :=
  if text.getD [] = [] then ['\x7b', '\x7d'] else text.getD []

/-! ### The result of a job -/

/-- The output as the callback is given it. -/
def Output.value (F : FloatText) : Output → Json
  | .parsed v => canonical F (asDict v)
  | .raw text => Json.text text

def Normal.attachments (normal : Normal) : Json := .list (normal.attachmentPaths.map Json.text)

def Normal.value (F : FloatText) (normal : Normal) : Json :=
  .dict ((key "status", Json.text normal.status.text) :: (key "result", normal.result.value F) ::
    if normal.attachmentPaths = [] then [] else [(key "attachment_paths", normal.attachments)])

/-- `payload_json` of `_run_job`. SQLite takes no text with a lone surrogate. -/
def payloadJson (F : FloatText) (normal : Normal) : Option (List Char) :=
  if writable false (normal.value F) = true then some (dumps F false (normal.value F)) else none

/-- `parsed_result` of a poll. -/
def parsedResult (F : FloatText) (resultJson : Option (List Char)) : Json :=
  let text := orEmptyDict resultJson
  (loadsValue F text).getD (.dict [(key "raw", .str (text.map Char.toNat))])

/-- What `_retry_callback_only` hands to the callback: the output and the attachments. -/
def retryArguments (resultData : Json) : Json × Json :=
  match resultData with
  | .dict ms => ((member "result" (.dict ms)).getD (.dict ms),
      (member "attachment_paths" (.dict ms)).getD (.list []))
  | v => (v, .list [])

theorem isValue_output (F : FloatText) (output : Output) : IsValue F (output.value F) := by
  cases output with
  | parsed v =>
    exact ⟨canonical_canonical F _, (distinctKeys_canonical F _).trans (distinctKeys_asDict v)⟩
  | raw text => exact isValue_text F text

theorem isValue_attachments (F : FloatText) (normal : Normal) : IsValue F normal.attachments := by
  apply isValue_list
  intro x hx
  obtain ⟨path, _, rfl⟩ := List.mem_map.1 hx
  exact isValue_text F path

theorem isValue_normal (F : FloatText) (normal : Normal) : IsValue F (normal.value F) := by
  have houtput := isValue_output F normal.result
  have hpaths := isValue_attachments F normal
  have hstatus := isValue_text F normal.status.text
  apply isValue_dict.2
  split_ifs
  · have hkeys : [key "status", key "result"].Nodup := by decide
    exact ⟨hkeys, by simp [houtput, hstatus]⟩
  · have hkeys : [key "status", key "result", key "attachment_paths"].Nodup := by decide
    exact ⟨hkeys, by simp [houtput, hstatus, hpaths]⟩

theorem writable_attachments (a : Bool) (normal : Normal) :
    writable a normal.attachments = true := by
  rw [Normal.attachments, writable]
  induction normal.attachmentPaths with
  | nil => rfl
  | cons path paths ih =>
    rw [List.map_cons, writables, ih, Bool.and_true]
    exact writableString_chars a path.toList

/-- Only a lone surrogate in the output keeps the result from being stored. -/
theorem writable_normal (F : FloatText) (normal : Normal) :
    writable false (normal.value F) = writable false (normal.result.value F) := by
  have hkey (s : String) : writableString false (key s) = true := writableString_chars false s.toList
  have hstatus : writable false (Json.text normal.status.text) = true :=
    writableString_chars false normal.status.text.toList
  rw [Normal.value]
  split_ifs
  · simp only [writable, writableMembers, hkey, hstatus, Bool.true_and, Bool.and_true]
  · simp only [writable, writableMembers, hkey, hstatus, writable_attachments, Bool.true_and,
      Bool.and_true]

theorem retryArguments_value (F : FloatText) (normal : Normal) :
    retryArguments (normal.value F) = (normal.result.value F, normal.attachments) := by
  rw [Normal.value]
  split_ifs with h
  · rw [Normal.attachments, h]
    rfl
  · rfl

/-- The retry of a delivery hands over what the first delivery did, and every result is stored
that has no lone surrogate. -/
theorem retried_as_delivered (F : FloatText) (normal : Normal) :
    (∀ stored, payloadJson F normal = some stored →
      retryArguments (parsedResult F (some stored)) =
        (normal.result.value F, normal.attachments)) ∧
    ((payloadJson F normal).isSome = true ↔ writable false (normal.result.value F) = true) := by
  rw [payloadJson, writable_normal]
  refine ⟨fun stored h => ?_, ?_⟩
  · split_ifs at h with hw
    cases h
    rw [← writable_normal] at hw
    have hread := loadsValue_dumps (isValue_normal F normal) hw
    have hne : dumps F false (normal.value F) ≠ [] := List.cons_ne_nil _ _
    rw [parsedResult, orEmptyDict, Option.getD_some, if_neg hne, hread, Option.getD_some, retryArguments_value]
  · split_ifs with hw
    · exact iff_of_true rfl hw
    · exact iff_of_false Bool.false_ne_true hw

theorem isFloat_oneAndHalf : IsFloat "1.5".toList := by
  refine ⟨[], ['1'], ['.', '5'], [], .inl rfl, .inr ⟨List.cons_ne_nil _ _, ?_, ?_⟩,
    .inr ⟨['5'], List.cons_ne_nil _ _, ?_, rfl⟩, .inl rfl, ?_, rfl⟩
  · decide
  · exact List.forall_mem_singleton.2 rfl
  · exact List.forall_mem_singleton.2 rfl
  · exact fun h => List.cons_ne_nil _ _ h.1

/-- The `repr` of one and a half. -/
def reprOneAndHalf : FloatText where
  repr _ := "1.5"
  idem _ := rfl
  spelled _ := .inr isFloat_oneAndHalf

/-- A result that is a float, with an attachment. -/
def rateNormal : Normal :=
  { status := .completed, result := .parsed (.float "1.50"), attachmentPaths := ["rates.csv"] }

theorem retried_as_delivered_rate :
    ∃ stored, payloadJson reprOneAndHalf rateNormal = some stored ∧
      retryArguments (parsedResult reprOneAndHalf (some stored)) =
        (.float "1.5", .list [Json.text "rates.csv"]) := by
  obtain ⟨hsame, hstored⟩ := retried_as_delivered reprOneAndHalf rateNormal
  obtain ⟨stored, h⟩ := Option.isSome_iff_exists.1 (hstored.2 rfl)
  exact ⟨stored, h, hsame stored h⟩

/-! ### The result as the API shows it -/

/-- A float as `repr` spells it is zero if its digits are. -/
def isZero (lexeme : String) : Bool :=
  (lexeme.toList.takeWhile (· ≠ 'e')).all fun c => c = '-' || c = '0' || c = '.'

/-- `if v:` -/
def truthy : Json → Bool
  | .null => false
  | .bool b => b
  | .int n => decide (n ≠ 0)
  | .float lexeme => !isZero lexeme
  | .str s => !s.isEmpty
  | .list xs => !xs.isEmpty
  | .dict ms => !ms.isEmpty

/-- `final_payload.get("artifacts") or final_payload.get("attachment_paths")` -/
def artifactsOf (payload : Json) : Json :=
  let artifacts := (member "artifacts" payload).getD .null
  if truthy artifacts then artifacts else (member "attachment_paths" payload).getD .null

/-- `for a in arts`, where that does not raise. -/
def elements : Json → Option (List Json)
  | .list xs => some xs
  | .str s => some (s.map fun c => .str [c])
  | .dict ms => some (ms.map fun m => .str m.1)
  | _ => none

def isSlash (c : Nat) : Bool := decide (c = '/'.toNat)

/-- `artifact_url_from_request`; only a string has a `lstrip`. -/
def artifactUrlFromRequest (baseUrl : List Nat) : Json → Option Json
  | .str relPath =>
    some (.str (baseUrl.rdropWhile isSlash ++ key "/artifacts/" ++ relPath.dropWhile isSlash))
  | _ => none

/-- `{"raw": row["result_json"]}` -/
def rawPayload (text : List Char) : Json := .dict [(key "raw", .str (text.map Char.toNat))]

/-- The payload with the URLs of its artifacts. -/
def withArtifactUrls (baseUrl : List Nat) (payload : Json) : Option Json :=
  match payload with
  | .dict ms =>
    if truthy (artifactsOf (.dict ms)) then
      (elements (artifactsOf (.dict ms))).map fun artifacts => .dict (Dict.set ms (key "artifact_urls")
        (.list (artifacts.filterMap (artifactUrlFromRequest baseUrl))))
    else some payload
  | v => some v

/-- `final_payload` of `get_job_status`. -/
def finalPayload (F : FloatText) (baseUrl : List Nat) (resultJson : Option (List Char)) : Json :=
  match resultJson with
  | none => .null
  | some text =>
    if text = [] then .null
    else
      match loadsValue F text with
      | some (.dict ms) =>
        (withArtifactUrls baseUrl ((member "result" (.dict ms)).getD (.dict ms))).getD
          (rawPayload text)
      | _ => rawPayload text

theorem key_inj (h : key s = key t) : s = t := by
  have hinj : Function.Injective Char.toNat := fun c d hcd => Char.toNat_inj.1 hcd
  exact String.toList_inj.1 (hinj.list_map h)

theorem member_dict (ms : List (List Nat × Json)) : member name (.dict ms) =
    (ms.reverse.find? fun m => decide (m.1 = key name)).map Prod.snd := rfl

/-- The member of another key is as it was. -/
theorem member_set_ne (ms : List (List Nat × Json)) (v : Json) (h : name ≠ name') :
    member name (.dict (Dict.set ms (key name') v)) = member name (.dict ms) := by
  have hkey : ¬ key name' = key name := fun he => h (key_inj he).symm
  rw [member_dict, member_dict, Dict.set]
  split
  next =>
    have hsame (m : List Nat × Json) :
        ((fun m : List Nat × Json => decide (m.1 = key name)) ∘
          fun m => if m.1 = key name' then (key name', v) else m) m = decide (m.1 = key name) := by
      rw [Function.comp_apply]
      split
      next hm =>
        rw [hm]
      next => rfl
    rw [← List.map_reverse, List.find?_map, funext hsame, Option.map_map]
    cases hfind : ms.reverse.find? fun m => decide (m.1 = key name) with
    | none => rfl
    | some m =>
      have hm := of_decide_eq_true
        (List.find?_some (p := fun m : List Nat × Json => decide (m.1 = key name)) hfind)
      rw [Option.map_some, Option.map_some, Function.comp_apply, if_neg]
      rw [hm]
      exact fun he => hkey he.symm
  next =>
    rw [List.reverse_append, List.reverse_singleton, List.find?_append, List.find?_singleton,
      if_neg (fun he => hkey (of_decide_eq_true he)), Option.none_or]

/-- The member that is set. -/
theorem member_set (ms : List (List Nat × Json)) (v : Json) :
    member name (.dict (Dict.set ms (key name) v)) = some v := by
  rw [member_dict, Dict.set]
  split
  next hin =>
    have hsame (m : List Nat × Json) :
        ((fun m : List Nat × Json => decide (m.1 = key name)) ∘
          fun m => if m.1 = key name then (key name, v) else m) m = decide (m.1 = key name) := by
      rw [Function.comp_apply]
      split
      next hm => rw [hm]
      next => rfl
    obtain ⟨m, hm, hkey⟩ := List.mem_map.1 hin
    obtain ⟨found, hfind⟩ := Option.isSome_iff_exists.1
      (List.find?_isSome (p := fun m : List Nat × Json => decide (m.1 = key name)).2
        ⟨m, List.mem_reverse.2 hm, decide_eq_true hkey⟩)
    have hfound := of_decide_eq_true
      (List.find?_some (p := fun m : List Nat × Json => decide (m.1 = key name)) hfind)
    rw [← List.map_reverse, List.find?_map, funext hsame, hfind, Option.map_some, Option.map_some,
      if_pos hfound]
  next =>
    rw [List.reverse_append, List.reverse_singleton, List.find?_append, List.find?_singleton,
      if_pos (decide_eq_true rfl), Option.some_or, Option.map_some]

/-- The payload that is shown for an output: its members as they are, and with artifacts that can be
gone through also the URLs of those that are strings. -/
structure Shows (baseUrl : List Nat) (output shown : Json) : Prop where
  members : ∀ name, name ≠ "artifact_urls" → member name shown = member name output
  plain : truthy (artifactsOf output) = false → shown = output
  urls : truthy (artifactsOf output) = true → ∃ artifacts, elements (artifactsOf output) = some artifacts ∧
    member "artifact_urls" shown =
      some (.list (artifacts.filterMap (artifactUrlFromRequest baseUrl)))

theorem shows_withArtifactUrls (h : withArtifactUrls baseUrl output = some shown) :
    Shows baseUrl output shown := by
  cases output with
  | dict ms =>
    rw [withArtifactUrls] at h
    split at h
    next htruthy =>
      obtain ⟨artifacts, helements, rfl⟩ := Option.map_eq_some_iff.1 h
      refine ⟨fun name hne => member_set_ne ms _ hne, fun hfalse => ?_, fun _ => ?_⟩
      · rw [htruthy] at hfalse
        cases hfalse
      · exact ⟨artifacts, helements, member_set ms _⟩
    next hfalse =>
      cases h
      exact ⟨fun name _ => rfl, fun _ => rfl, fun htrue => absurd htrue hfalse⟩
  | _ =>
    cases h
    exact ⟨fun name _ => rfl, fun _ => rfl, fun htrue => absurd htrue Bool.false_ne_true⟩

/-- Artifacts that are there can be gone through. -/
def CanList (payload : Json) : Prop :=
  truthy (artifactsOf payload) = true → (elements (artifactsOf payload)).isSome = true

theorem withArtifactUrls_isSome (baseUrl : List Nat) :
    (withArtifactUrls baseUrl payload).isSome = true ↔ CanList payload := by
  cases payload with
  | dict ms =>
    rw [withArtifactUrls, CanList]
    split
    next htruthy =>
      rw [Option.isSome_map]
      exact ⟨fun h _ => h, fun h => h htruthy⟩
    next hfalse => exact iff_of_true rfl fun htrue => absurd htrue hfalse
  | _ => exact iff_of_true rfl fun htrue => absurd htrue Bool.false_ne_true

/-- The stored result is read back whole. -/
theorem finalPayload_stored (F : FloatText) (baseUrl : List Nat) (normal : Normal)
    (h : payloadJson F normal = some stored) : finalPayload F baseUrl (some stored) =
      (withArtifactUrls baseUrl (normal.result.value F)).getD (rawPayload stored) := by
  rw [payloadJson] at h
  split at h
  next hw =>
    cases h
    have hread := loadsValue_dumps (isValue_normal F normal) hw
    have hne : dumps F false (normal.value F) ≠ [] := List.cons_ne_nil _ _
    have hresult : (member "result" (normal.value F)).getD (normal.value F) =
        normal.result.value F := congrArg Prod.fst (retryArguments_value F normal)
    rw [finalPayload, if_neg hne, hread, ← hresult]
    rfl
  next => cases h

/-- The result of a run with one file. -/
def reportNormal : Normal :=
  { status := .completed
    result := .parsed (.dict [(key "summary", Json.text "Done."),
      (key "artifacts", .list [.dict [(key "filename", Json.text "top10.json")]])])
    attachmentPaths := ["scraper/top10.json"] }

/-- `req.args` of the body of a request, as the request model takes it. -/
def requestArgs (body : Json) : Option Json :=
  match (member "args" body).getD (.dict []) with
  | .dict ms => some (.dict ms)
  | _ => none

/-- `args_json` as `enqueue_tool` stores it. -/
def argsJson (F : FloatText) (args : Json) : List Char := dumps F true args

/-- The arguments that a poll gives to `_run_job`, and the API to a resume handler. -/
def storedArgs (F : FloatText) (argsJson : Option (List Char)) : Json :=
  (loadsValue F (orEmptyDict argsJson)).getD (.dict [])

/-- A member of a value is one, and can be written. -/
theorem isValue_member (hv : IsValue F v ∧ writable a v = true) (h : member name v = some x) :
    IsValue F x ∧ writable a x = true := by
  cases v with
  | dict ms =>
    rw [member, Option.map_eq_some_iff] at h
    obtain ⟨m, hm, rfl⟩ := h
    have hmem := List.mem_reverse.1 (List.mem_of_find?_eq_some hm)
    exact ⟨(isValue_dict.1 hv.1).2 m hmem, (writableMembers_iff.1 hv.2 m hmem).2⟩
  | _ => cases h

/-- The tool gets the arguments of the request, whatever the strings in them, and their text is
ASCII. -/
theorem args_kept (F : FloatText) {text : List Char} (hbody : loadsValue F text = some body)
    (hargs : requestArgs body = some args) :
    storedArgs F (some (argsJson F args)) = args ∧ IsAscii (argsJson F args) := by
  have hvalue : IsValue F args ∧ writable true args = true := by
    rw [requestArgs] at hargs
    cases hm : member "args" body with
    | none =>
      rw [hm] at hargs
      cases hargs
      exact ⟨⟨rfl, rfl⟩, rfl⟩
    | some x =>
      rw [hm, Option.getD_some] at hargs
      have hx := isValue_member (isValue_of_loadsValue hbody) hm
      cases x with
      | dict ms =>
        cases hargs
        exact hx
      | _ => cases hargs
  have hread := loadsValue_dumps hvalue.1 hvalue.2
  refine ⟨?_, isAscii_dumps F args⟩
  have hne : argsJson F args ≠ [] := by
    intro hnil
    rw [argsJson] at hnil
    rw [hnil] at hread
    cases hread
  rw [storedArgs, orEmptyDict, Option.getD_some, if_neg hne, argsJson, hread, Option.getD_some]

/-- A request whose arguments have a float and a lone surrogate. -/
def rateRequest : Json :=
  .dict [(key "args", .dict [(key "rate", .float "1.5"), (key "name", .str [0xD800])])]

theorem args_kept_rate :
    storedArgs reprOneAndHalf (some (argsJson reprOneAndHalf
      (.dict [(key "rate", .float "1.5"), (key "name", .str [0xD800])]))) =
        .dict [(key "rate", .float "1.5"), (key "name", .str [0xD800])] := by
  have hvalue : IsValue reprOneAndHalf rateRequest := ⟨rfl, by decide +kernel⟩
  have hbody := loadsValue_dumps (a := true) hvalue (by decide +kernel)
  exact (args_kept reprOneAndHalf hbody rfl).1

end Jobs
