import AnythingTools.Clients.Conserved

namespace Clients
set_option autoImplicit true

def InputItem.isMessage : InputItem → Bool
  | message _ _ => true
  | functionCall _ _ _ _ | functionCallOutput _ _ _ => false

/-- The calls and outputs of a message, as the history has them. -/
def Message.callItems (m : Message) : List InputItem :=
  match m.role with
  | .tool => [.functionCallOutput m.toolCallId m.content.get none]
  | .assistant => m.toolCalls.map ToolCall.item
  | _ => []

/-- A message of the input mentions JSON, and the calls and outputs are those of the history,
without a further field. -/
structure JsonRequired (request : LLMRequest) (input : List InputItem) : Prop where
  mentioned : ∃ item ∈ input, item.isMessage = true ∧ item.mentionsJson = true
  unchanged : input.filter (fun item => !item.isMessage) =
    (nonSystemMessages request.messages).flatMap Message.callItems

/-- The message leaves no call or output behind its text. -/
def Message.EndsAsMessage (m : Message) : Prop :=
  m.role ≠ .tool ∧ (m.role = .assistant → m.toolCalls = [])

instance (m : Message) : Decidable m.EndsAsMessage := inferInstanceAs (Decidable (_ ∧ _))

/-! ### The texts that the code adds -/

theorem mentionsJson_jsonPrompt : mentionsJson jsonPrompt = true := by decide +kernel

theorem mentionsJson_append_jsonSuffix (s : String) : mentionsJson (s ++ jsonSuffix) = true := by
  have hsuffix : mentionsJson jsonSuffix = true := by decide +kernel
  rw [mentionsJson, decide_eq_true_eq] at hsuffix ⊢
  rw [String.toList_append, List.map_append]
  exact hsuffix.trans (List.suffix_append _ _).isInfix

theorem mentionsJson_classifyImagePrompt (cwd path : String) :
    mentionsJson (classifyImagePrompt cwd path) = false := by
  have hscreenshot : mentionsJson screenshotPrompt = false := by decide +kernel
  have hupload : mentionsJson uploadPrompt = false := by decide +kernel
  have hartifact : mentionsJson artifactPrompt = false := by decide +kernel
  rw [classifyImagePrompt]
  split
  · exact hscreenshot
  · split
    · exact hupload
    · exact hartifact

@[simp] theorem mentionsJson_empty : mentionsJson "" = false := by decide +kernel

@[simp] theorem mentionsJson_part (a : Attachment) : a.part.mentionsJson = false := by
  rw [Attachment.part]
  split <;> rfl

/-! ### The items of one message -/

theorem any_synthPrompt (cwd : String) (atts : List Attachment) :
    (synthPrompt cwd atts).any InputPart.mentionsJson = false := by
  rw [synthPrompt, List.any_map, List.any_eq_false]
  intro a _
  rw [Function.comp_apply, InputPart.mentionsJson, mentionsJson_classifyImagePrompt]
  exact Bool.false_ne_true

theorem any_parts (atts : List Attachment) :
    (atts.map Attachment.part).any InputPart.mentionsJson = false := by
  rw [List.any_map, List.any_eq_false]
  intro a _
  rw [Function.comp_apply, mentionsJson_part]
  exact Bool.false_ne_true

theorem any_calls (calls : List ToolCall) :
    (calls.map ToolCall.item).any InputItem.mentionsJson = false := by
  rw [List.any_map, List.any_eq_false]
  intro tc _
  rw [Function.comp_apply, ToolCall.item, InputItem.mentionsJson, Option.getD_none,
    mentionsJson_empty]
  exact Bool.false_ne_true

theorem any_textPart (role : Role) (text : String) :
    (textPart role text).any InputPart.mentionsJson = mentionsJson text := by
  rw [textPart]
  by_cases h : text = ""
  · rw [if_pos h, h, mentionsJson_empty]
    rfl
  · rw [if_neg h]
    split
    · exact Bool.or_false _
    · exact Bool.or_false _

theorem any_flippedItems (cwd text : String) (m : Message) (atts : List Attachment) :
    (flippedItems cwd text m atts).any InputItem.mentionsJson = mentionsJson text := by
  have htext : (if text = "" then [] else
      [InputItem.message .assistant (.parts [.outputText text])]).any InputItem.mentionsJson =
        mentionsJson text := by
    by_cases h : text = ""
    · rw [if_pos h, h, mentionsJson_empty]
      rfl
    · rw [if_neg h]
      simp only [List.any_cons, List.any_nil, InputItem.mentionsJson, InputPart.mentionsJson,
        Bool.or_false]
  rw [flippedItems, List.any_append, htext, List.any_cons, any_calls, InputItem.mentionsJson,
    List.any_append, any_synthPrompt, any_parts, Bool.or_false, Bool.or_false, Bool.or_false]

theorem any_standardItems (text : String) (m : Message) (atts : List Attachment) :
    (standardItems text m atts).any InputItem.mentionsJson = mentionsJson text := by
  have hcalls : (if m.role = .assistant then m.toolCalls.map ToolCall.item else []).any
      InputItem.mentionsJson = false := by
    split
    · exact any_calls _
    · rfl
  rw [standardItems, List.any_cons, hcalls, Bool.or_false]
  split
  · rfl
  · rw [InputItem.mentionsJson, List.any_append, any_textPart, any_parts, Bool.or_false]

theorem filter_calls (calls : List ToolCall) :
    (calls.map ToolCall.item).filter (fun item => !item.isMessage) =
      calls.map ToolCall.item := by
  rw [List.filter_eq_self]
  intro item hitem
  obtain ⟨tc, -, rfl⟩ := List.mem_map.1 hitem
  rfl

/-- The last item before calls is the last where there are no calls. -/
theorem getLast?_calls (front : List InputItem) (r : Role) (c : InputContent)
    (calls : List ToolCall) :
    (∀ item ∈ (front ++ .message r c :: calls.map ToolCall.item).getLast?,
      item.isMessage = true) ↔ calls = [] := by
  rcases List.eq_nil_or_concat calls with rfl | ⟨before, tc, rfl⟩
  · rw [List.map_nil, List.getLast?_append]
    constructor
    · intro _
      rfl
    · rintro _ item hitem
      cases hitem
      rfl
  · rw [List.concat_eq_append, List.map_append, List.map_singleton, ← List.cons_append,
      ← List.append_assoc, List.getLast?_append]
    constructor
    · intro h
      exact absurd (h _ rfl) Bool.false_ne_true
    · intro h
      exact absurd h (List.append_ne_nil_of_right_ne_nil _ (List.cons_ne_nil _ _))

/-- What an iteration adds beside a text: the calls and outputs of the message. -/
structure Adds (m : Message) (items : List InputItem) : Prop where
  calls : items.filter (fun item => !item.isMessage) = m.callItems
  nonempty : items ≠ []
  ends : (∀ item ∈ items.getLast?, item.isMessage = true) ↔ m.EndsAsMessage

theorem adds_flippedItems (cwd text : String) (atts : List Attachment)
    (hrole : m.role = .assistant) : Adds m (flippedItems cwd text m atts) where
  calls := by
    have htext : (if text = "" then [] else
        [InputItem.message .assistant (.parts [.outputText text])]).filter
          (fun item => !item.isMessage) = [] := by
      split <;> rfl
    rw [flippedItems, List.filter_append, htext, List.nil_append, List.filter_cons_of_neg,
      filter_calls, Message.callItems, hrole]
    exact Bool.false_ne_true
  nonempty := List.append_ne_nil_of_right_ne_nil _ (List.cons_ne_nil _ _)
  ends := by
    rw [flippedItems, getLast?_calls, Message.EndsAsMessage, hrole]
    exact ⟨fun h => ⟨Role.noConfusion, fun _ => h⟩, fun h => h.2 rfl⟩

theorem adds_standardItems (text : String) (atts : List Attachment) (htool : m.role ≠ .tool) :
    Adds m (standardItems text m atts) where
  calls := by
    rw [standardItems, List.filter_cons_of_neg Bool.false_ne_true, Message.callItems]
    split
    next hrole =>
      rw [filter_calls, hrole]
    next hrole =>
      cases h : m.role with
      | assistant => exact absurd h hrole
      | tool => exact absurd h htool
      | system => rfl
      | user => rfl
      | other name => rfl
  nonempty := List.cons_ne_nil _ _
  ends := by
    rw [standardItems, Message.EndsAsMessage]
    by_cases hrole : m.role = .assistant
    · have hlast := getLast?_calls [] m.role (if atts = [] ∧ m.toolCalls = [] then .str text
        else .parts (textPart m.role text ++ atts.map Attachment.part)) m.toolCalls
      rw [List.nil_append] at hlast
      rw [if_pos hrole, hlast]
      exact ⟨fun h => ⟨htool, fun _ => h⟩, fun h => h.2 hrole⟩
    · rw [if_neg hrole, List.getLast?_singleton]
      constructor
      · intro _
        exact ⟨htool, fun h => absurd h hrole⟩
      · rintro _ item hitem
        cases hitem
        rfl

theorem adds_messageItems (h : messageItems cwd m atts = .ok items) : Adds m items := by
  rcases messageItems_cases h with ⟨htool, rfl⟩ | ⟨htool, ⟨himage, rfl⟩ | ⟨-, rfl⟩⟩
  · refine ⟨by rw [Message.callItems, htool]; rfl, List.cons_ne_nil _ _, ?_⟩
    constructor
    · intro hlast
      exact absurd (hlast _ rfl) Bool.false_ne_true
    · intro hends
      exact absurd htool hends.1
  · rw [Message.hasImage, Bool.and_eq_true, decide_eq_true_eq] at himage
    exact adds_flippedItems _ _ _ himage.1
  · exact adds_standardItems _ _ htool

theorem any_messageItems (h : messageItems cwd m atts = .ok items) :
    items.any InputItem.mentionsJson = true ↔
      m.role ≠ .tool ∧ mentionsJson m.content.plain = true := by
  rcases messageItems_cases h with ⟨htool, rfl⟩ | ⟨htool, ⟨-, rfl⟩ | ⟨-, rfl⟩⟩
  · rw [List.any_cons, List.any_nil, InputItem.mentionsJson, Option.getD_none, mentionsJson_empty]
    exact ⟨fun hf => absurd hf Bool.false_ne_true, fun hne => absurd htool hne.1⟩
  · rw [any_flippedItems]
    exact ⟨fun hj => ⟨htool, hj⟩, And.right⟩
  · rw [any_standardItems]
    exact ⟨fun hj => ⟨htool, hj⟩, And.right⟩

/-! ### The input -/

theorem any_inputFrom (h : inputFrom cwd byIndex i ms = .ok input) :
    input.any InputItem.mentionsJson = true ↔
      ∃ m ∈ ms, m.role ≠ .tool ∧ mentionsJson m.content.plain = true := by
  induction ms generalizing i input with
  | nil =>
    cases h
    exact ⟨fun hf => absurd hf Bool.false_ne_true, fun ⟨m, hm, _⟩ => (List.not_mem_nil hm).elim⟩
  | cons m ms ih =>
    obtain ⟨items, rest, hitems, hrest, rfl⟩ := inputFrom_cons h
    rw [List.any_append, Bool.or_eq_true, any_messageItems hitems, ih hrest]
    constructor
    · rintro (hm | ⟨m', hm', h'⟩)
      · exact ⟨m, List.mem_cons_self, hm⟩
      · exact ⟨m', List.mem_cons_of_mem m hm', h'⟩
    · rintro ⟨m', hm', h'⟩
      rcases List.mem_cons.1 hm' with rfl | hm'
      · exact .inl h'
      · exact .inr ⟨m', hm', h'⟩

theorem filter_inputFrom (h : inputFrom cwd byIndex i ms = .ok input) :
    input.filter (fun item => !item.isMessage) = ms.flatMap Message.callItems := by
  induction ms generalizing i input with
  | nil =>
    cases h
    rfl
  | cons m ms ih =>
    obtain ⟨items, rest, hitems, hrest, rfl⟩ := inputFrom_cons h
    rw [List.filter_append, List.flatMap_cons, (adds_messageItems hitems).calls, ih hrest]

theorem getLast?_inputFrom (h : inputFrom cwd byIndex i ms = .ok input) :
    (∀ item ∈ input.getLast?, item.isMessage = true) ↔
      ∀ m ∈ ms.getLast?, m.EndsAsMessage := by
  induction ms generalizing i input with
  | nil =>
    cases h
    exact ⟨fun _ m hm => (Option.not_mem_none m hm).elim,
      fun _ item hitem => (Option.not_mem_none item hitem).elim⟩
  | cons m ms ih =>
    obtain ⟨items, rest, hitems, hrest, rfl⟩ := inputFrom_cons h
    have hadds := adds_messageItems hitems
    cases ms with
    | nil =>
      cases hrest
      rw [List.append_nil, hadds.ends]
      constructor
      · rintro hends m' hm'
        cases hm'
        exact hends
      · exact fun hends => hends m rfl
    | cons m' ms =>
      obtain ⟨items', rest', hitems', -, rfl⟩ := inputFrom_cons hrest
      have hne : items' ++ rest' ≠ [] := List.append_ne_nil_of_left_ne_nil
        (adds_messageItems hitems').nonempty _
      rw [List.getLast?_append_of_ne_nil _ hne, List.getLast?_cons_cons]
      exact ih hrest

/-! ### The repair -/

theorem instructLast_append (front : List InputItem) (item : InputItem) :
    instructLast (front ++ [item]) = front ++ [item.instruct] := by
  induction front with
  | nil => rfl
  | cons first front ih =>
    cases front with
    | nil => rfl
    | cons next front => exact congrArg (first :: ·) ih

@[simp] theorem isMessage_instruct (item : InputItem) :
    item.instruct.isMessage = item.isMessage := by
  cases item with
  | message r c => cases c <;> rfl
  | functionCall => rfl
  | functionCallOutput => rfl

theorem mentionsJson_instruct (item : InputItem) : item.instruct.mentionsJson = true := by
  cases item with
  | message r c =>
    cases c with
    | str s => exact mentionsJson_append_jsonSuffix s
    | parts ps =>
      have hsuffix : mentionsJson jsonSuffix = true := mentionsJson_append_jsonSuffix ""
      rw [InputItem.instruct, InputItem.mentionsJson, List.any_append, List.any_cons,
        InputPart.mentionsJson, hsuffix, Bool.true_or, Bool.or_true]
  | functionCall id name args c => exact mentionsJson_append_jsonSuffix _
  | functionCallOutput id out c => exact mentionsJson_append_jsonSuffix _

theorem instruct_ne (item : InputItem) (h : item.mentionsJson = false) : item.instruct ≠ item := by
  intro heq
  have hmentions := mentionsJson_instruct item
  rw [heq, h] at hmentions
  exact Bool.false_ne_true hmentions

/-- The repair of an input with no mention of JSON touches no call where the last item is a
message. -/
theorem instructLast_iff (hnone : input.any InputItem.mentionsJson = false) :
    ((∃ item ∈ instructLast input, item.isMessage = true ∧ item.mentionsJson = true) ∧
        (instructLast input).filter (fun item => !item.isMessage) =
          input.filter fun item => !item.isMessage) ↔
      ∀ item ∈ input.getLast?, item.isMessage = true := by
  rcases List.eq_nil_or_concat input with rfl | ⟨front, last, rfl⟩
  · constructor
    · rintro - item hitem
      cases hitem
    · intro _
      exact ⟨⟨_, List.mem_cons_self, rfl, mentionsJson_jsonPrompt⟩, rfl⟩
  · rw [List.concat_eq_append] at hnone ⊢
    rw [instructLast_append, List.filter_append, List.filter_append, List.getLast?_concat,
      List.append_cancel_left_eq]
    constructor
    · rintro ⟨-, hcalls⟩ item hitem
      cases hitem
      by_contra hcall
      rw [Bool.not_eq_true] at hcall
      rw [List.filter_cons_of_pos (by rw [isMessage_instruct, hcall]; rfl),
        List.filter_cons_of_pos (by rw [hcall]; rfl)] at hcalls
      refine instruct_ne last ?_ (List.cons.inj hcalls).1
      rw [List.any_append, Bool.or_eq_false_iff] at hnone
      rw [← hnone.2, List.any_cons, List.any_nil, Bool.or_false]
    · intro hlast
      have hmessage := hlast last rfl
      refine ⟨⟨last.instruct, List.mem_append_right _ (List.mem_singleton_self _), ?_,
        mentionsJson_instruct last⟩, ?_⟩
      · rw [isMessage_instruct, hmessage]
      · have hnone (item : InputItem) (h : item.isMessage = true) :
            [item].filter (fun item => !item.isMessage) = [] := by
          rw [List.filter_cons, h]
          rfl
        rw [hnone last hmessage, hnone last.instruct (by rw [isMessage_instruct, hmessage])]

theorem requireJson_iff (hcalls : ∀ item ∈ input, item.mentionsJson = true →
      item.isMessage = true) :
    ((∃ item ∈ requireJson input, item.isMessage = true ∧ item.mentionsJson = true) ∧
        (requireJson input).filter (fun item => !item.isMessage) =
          input.filter fun item => !item.isMessage) ↔
      input.any InputItem.mentionsJson = true ∨
        ∀ item ∈ input.getLast?, item.isMessage = true := by
  rw [requireJson]
  split
  next hany =>
    obtain ⟨item, hitem, hmentions⟩ := List.any_eq_true.1 hany
    exact ⟨fun _ => .inl hany, fun _ => ⟨⟨item, hitem, hcalls item hitem hmentions, hmentions⟩,
      rfl⟩⟩
  next hnone =>
    rw [Bool.not_eq_true] at hnone
    rw [instructLast_iff hnone, hnone]
    exact ⟨.inr, fun h => h.resolve_left Bool.false_ne_true⟩

theorem not_mentionsJson_callItems (h : item ∈ Message.callItems m) :
    item.mentionsJson = false := by
  rw [Message.callItems.eq_def] at h
  split at h
  · obtain rfl := List.mem_singleton.1 h
    exact mentionsJson_empty
  · obtain ⟨tc, -, rfl⟩ := List.mem_map.1 h
    exact mentionsJson_empty
  · cases h

/-- In JSON mode a message of the built input mentions JSON, and the calls and outputs are those of
the history, exactly where a text of the history mentions JSON or the history does not end with a
call or an output. -/
theorem buildResponsesPayload_json_iff (hformat : request.responseFormat = some .jsonObject)
    (h : buildResponsesPayload cwd request defaultModel = .ok payload) :
    JsonRequired request payload.input ↔
      (∃ m ∈ nonSystemMessages request.messages,
        m.role ≠ .tool ∧ mentionsJson m.content.plain = true) ∨
      ∀ m ∈ (nonSystemMessages request.messages).getLast?, m.EndsAsMessage := by
  obtain ⟨input, hinput, hpayload⟩ := input_of_ok h
  have hrequire : payload.input = requireJson input := by rw [hpayload, hformat]
  have hfilter := filter_inputFrom hinput
  have hcalls : ∀ item ∈ input, item.mentionsJson = true → item.isMessage = true := by
    intro item hitem hmentions
    by_contra hcall
    rw [Bool.not_eq_true] at hcall
    have hmem : item ∈ input.filter fun item => !item.isMessage := by
      rw [List.mem_filter, hcall]
      exact ⟨hitem, rfl⟩
    rw [hfilter, List.mem_flatMap] at hmem
    obtain ⟨m, -, hm⟩ := hmem
    rw [not_mentionsJson_callItems hm] at hmentions
    exact Bool.false_ne_true hmentions
  rw [← any_inputFrom hinput, ← getLast?_inputFrom hinput, ← requireJson_iff hcalls, hfilter,
    ← hrequire]
  exact ⟨fun hr => ⟨hr.mentioned, hr.unchanged⟩, fun hr => ⟨hr.1, hr.2⟩⟩

/-- A request in JSON mode after the output of a tool. -/
def jsonTurn (prompt : String) : LLMRequest where
  messages :=
    [⟨.user, .str prompt, none, []⟩, ⟨.assistant, .str "Reading.", none, [readCall]⟩,
      ⟨.tool, .str "Done.", some "call_1", []⟩]
  responseFormat := some .jsonObject

theorem buildResponsesPayload_json_turn :
    ∃ payload, buildResponsesPayload "/srv/app" (jsonTurn "Answer in JSON.") "gpt-4o" =
      .ok payload ∧ JsonRequired (jsonTurn "Answer in JSON.") payload.input := by
  obtain ⟨payload, h⟩ := buildResponsesPayload_ok "/srv/app" "gpt-4o" (jsonTurn "Answer in JSON.")
    (by decide)
  refine ⟨payload, h, (buildResponsesPayload_json_iff rfl h).2 (.inl ?_)⟩
  exact ⟨_, List.mem_cons_self, by decide, by decide +kernel⟩

/-- After the output of a tool the instruction goes into a field of that output. -/
theorem jsonTurn_not_required :
    ∃ payload, buildResponsesPayload "/srv/app" (jsonTurn "Answer.") "gpt-4o" = .ok payload ∧
      ¬ JsonRequired (jsonTurn "Answer.") payload.input := by
  refine ⟨_, rfl, ?_⟩
  intro h
  have hunchanged := h.unchanged
  revert hunchanged
  decide +kernel

end Clients
