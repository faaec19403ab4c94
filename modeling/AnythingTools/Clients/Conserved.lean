import AnythingTools.Clients.Payloads

namespace Clients
set_option autoImplicit true

/-! ### What an input says -/

/-- What an input is to carry of a history. -/
inductive Entry where
  | text (s : String)
  | call (id name arguments : Option String)
  | output (id : Option String) (output : Content)
deriving DecidableEq, Repr

/-- A text, unless it is empty. -/
def said (s : String) : List Entry := if s = "" then [] else [.text s]

def InputPart.entries : InputPart → List Entry
  | inputText s | outputText s => said s
  | inputImage _ | inputFile _ _ => []

/-- The texts, calls and outputs of an item. -/
def InputItem.entries : InputItem → List Entry
  | message _ (.str s) => said s
  | message _ (.parts ps) => ps.flatMap InputPart.entries
  | functionCall id name args c => .call id name args :: said (c.getD "")
  | functionCallOutput id out c => .output id out :: said (c.getD "")

def InputPart.isBlock : InputPart → Bool
  | inputText _ | outputText _ => false
  | inputImage _ | inputFile _ _ => true

/-- The images and files of an item. -/
def InputItem.blocks : InputItem → List InputPart
  | message _ (.parts ps) => ps.filter InputPart.isBlock
  | _ => []

/-- The text of a content that may be `None`. -/
def Content.plain : Content → String
  | absent | null => ""
  | str s => s
  | parts ps => " ".intercalate (ps.filterMap ContentPart.text?)

def ToolCall.entry (tc : ToolCall) : Entry := .call tc.id tc.name tc.arguments

/-- What a message says: its output, or its text, the text that introduces its images and its
calls. -/
def Message.entries (cwd : String) (atts : List Attachment) (m : Message) : List Entry :=
  if m.role = .tool then [.output m.toolCallId m.content.get]
  else said m.content.plain ++
    ((if m.hasImage atts then (synthPrompt cwd atts).flatMap InputPart.entries else []) ++
      m.toolCalls.map ToolCall.entry)

/-- The attachments of a message by its place. -/
def LLMRequest.attachmentsOf (request : LLMRequest) (i : Nat) : List Attachment :=
  request.fileAttachments.filter fun a => decide ((i : Int) = a.historyIndex)

/-- What the history says, in its order. -/
def LLMRequest.entries (cwd : String) (request : LLMRequest) : List Entry :=
  (nonSystemMessages request.messages).zipIdx.flatMap fun m =>
    m.1.entries cwd (request.attachmentsOf m.2)

/-- The entries, with the instruction of the JSON mode at the end or joined to a text there. -/
inductive Carries (entries : List Entry) : List Entry → Prop where
  | same : Carries entries entries
  | added (note : String) : note ∈ [jsonPrompt, jsonSuffix] →
      Carries entries (entries ++ [.text note])
  | joined (front : List Entry) (s : String) : entries = front ++ [.text s] →
      Carries entries (front ++ [.text (s ++ jsonSuffix)])

/-- The input has each text, call and output of the history once, in order, and each attachment
once. -/
structure Conserved (cwd : String) (request : LLMRequest) (input : List InputItem) : Prop where
  entries : Carries (request.entries cwd) (input.flatMap InputItem.entries)
  blocks : (input.flatMap InputItem.blocks).Perm (request.fileAttachments.map Attachment.part)

/-- Only an assistant calls tools, and only one that does may have no content. -/
structure Message.Valid (m : Message) : Prop where
  calls : m.role ≠ .assistant → m.toolCalls = []
  content : m.content = .null → m.role = .assistant ∧ m.toolCalls ≠ []

instance (m : Message) : Decidable m.Valid :=
  decidable_of_iff ((m.role ≠ .assistant → m.toolCalls = []) ∧
    (m.content = .null → m.role = .assistant ∧ m.toolCalls ≠ []))
    ⟨fun h => ⟨h.1, h.2⟩, fun h => ⟨h.calls, h.content⟩⟩

/-- The attachment belongs to the message. -/
def LLMRequest.Addresses (request : LLMRequest) (a : Attachment) (m : Message) : Prop :=
  ∃ i : Nat, a.historyIndex = i ∧ (nonSystemMessages request.messages)[i]? = some m

structure LLMRequest.Valid (request : LLMRequest) : Prop where
  messages : ∀ m ∈ request.messages, m.Valid
  attachments : ∀ a ∈ request.fileAttachments, ∃ m, request.Addresses a m

/-! ### The instruction of the JSON mode -/

theorem jsonSuffix_ne : jsonSuffix ≠ "" := by decide

theorem said_of_ne (h : s ≠ "") : said s = [.text s] := if_neg h

theorem append_jsonSuffix_ne (s : String) : s ++ jsonSuffix ≠ "" := by
  intro h
  have hlist := congrArg String.toList h
  rw [String.toList_append, String.toList_empty, List.append_eq_nil_iff] at hlist
  exact jsonSuffix_ne (String.toList_eq_nil_iff.1 hlist.2)

theorem Carries.append_left (front : List Entry) (h : Carries entries l) :
    Carries (front ++ entries) (front ++ l) := by
  cases h with
  | same => exact .same
  | added note hnote =>
    rw [← List.append_assoc]
    exact .added note hnote
  | joined before s he =>
    rw [← List.append_assoc]
    exact .joined _ s (by rw [he, List.append_assoc])

theorem carries_said (s : String) : Carries (said s) (said (s ++ jsonSuffix)) := by
  rw [said_of_ne (append_jsonSuffix_ne s)]
  by_cases h : s = ""
  · subst h
    exact .added jsonSuffix (by decide)
  · exact .joined [] s (said_of_ne h)

theorem entries_instruct (item : InputItem) : Carries item.entries item.instruct.entries := by
  cases item with
  | message r c =>
    cases c with
    | str s => exact carries_said s
    | parts ps =>
      rw [InputItem.instruct, InputItem.entries, InputItem.entries, List.flatMap_append]
      exact .added jsonSuffix (by decide)
  | functionCall id name args c => exact (carries_said _).append_left [_]
  | functionCallOutput id out c => exact (carries_said _).append_left [_]

theorem entries_instructLast (input : List InputItem) :
    Carries (input.flatMap InputItem.entries) ((instructLast input).flatMap InputItem.entries) := by
  induction input with
  | nil => exact .added jsonPrompt (by decide)
  | cons item rest ih =>
    cases rest with
    | nil =>
      rw [instructLast, List.flatMap_singleton, List.flatMap_singleton]
      exact entries_instruct item
    | cons next items =>
      rw [instructLast, List.flatMap_cons, List.flatMap_cons]
      exact ih.append_left _

theorem blocks_instruct (item : InputItem) : item.instruct.blocks = item.blocks := by
  cases item with
  | message r c =>
    cases c with
    | str s => rfl
    | parts ps =>
      rw [InputItem.instruct, InputItem.blocks, InputItem.blocks, List.filter_append]
      exact List.append_nil _
  | functionCall => rfl
  | functionCallOutput => rfl

theorem blocks_instructLast (input : List InputItem) :
    (instructLast input).flatMap InputItem.blocks = input.flatMap InputItem.blocks := by
  induction input with
  | nil => rfl
  | cons item rest ih =>
    cases rest with
    | nil =>
      rw [instructLast, List.flatMap_singleton, List.flatMap_singleton, blocks_instruct]
    | cons next items => rw [instructLast, List.flatMap_cons, List.flatMap_cons, ih]

/-! ### The items of one message -/

theorem Content.text_eq (h : c ≠ Content.null) : c.text = .ok c.plain := by
  cases c with
  | null => exact absurd rfl h
  | absent => rfl
  | str s => rfl
  | parts ps => rfl

@[simp] theorem Attachment.entries_part (a : Attachment) : a.part.entries = [] := by
  rw [Attachment.part]
  split <;> rfl

@[simp] theorem Attachment.isBlock_part (a : Attachment) : a.part.isBlock = true := by
  rw [Attachment.part]
  split <;> rfl

theorem entries_parts (atts : List Attachment) :
    (atts.map Attachment.part).flatMap InputPart.entries = [] := by
  rw [List.flatMap_map, List.flatMap_eq_nil_iff]
  exact fun a _ => a.entries_part

theorem blocks_parts (atts : List Attachment) :
    (atts.map Attachment.part).filter InputPart.isBlock = atts.map Attachment.part := by
  rw [List.filter_eq_self]
  intro p hp
  obtain ⟨a, -, rfl⟩ := List.mem_map.1 hp
  exact a.isBlock_part

theorem entries_calls (calls : List ToolCall) :
    (calls.map ToolCall.item).flatMap InputItem.entries = calls.map ToolCall.entry := by
  induction calls with
  | nil => rfl
  | cons tc calls ih =>
    rw [List.map_cons, List.flatMap_cons, ih]
    rfl

theorem blocks_calls (calls : List ToolCall) :
    (calls.map ToolCall.item).flatMap InputItem.blocks = [] := by
  rw [List.flatMap_map, List.flatMap_eq_nil_iff]
  exact fun tc _ => rfl

theorem entries_textPart (role : Role) (text : String) :
    (textPart role text).flatMap InputPart.entries = said text := by
  rw [textPart]
  by_cases h : text = ""
  · rw [if_pos h, said, if_pos h]
    rfl
  · rw [if_neg h]
    split
    · rw [List.flatMap_singleton, InputPart.entries]
    · rw [List.flatMap_singleton, InputPart.entries]

theorem blocks_textPart (role : Role) (text : String) :
    (textPart role text).filter InputPart.isBlock = [] := by
  rw [textPart]
  split
  · rfl
  · split <;> rfl

theorem entries_flippedItems (cwd text : String) (m : Message) (atts : List Attachment) :
    (flippedItems cwd text m atts).flatMap InputItem.entries = said text ++
      ((synthPrompt cwd atts).flatMap InputPart.entries ++ m.toolCalls.map ToolCall.entry) := by
  have htext : (if text = "" then [] else
      [InputItem.message .assistant (.parts [.outputText text])]).flatMap InputItem.entries =
        said text := by
    by_cases h : text = ""
    · rw [if_pos h, said, if_pos h]
      rfl
    · rw [if_neg h, List.flatMap_singleton]
      exact List.append_nil _
  rw [flippedItems, List.flatMap_append, htext, List.flatMap_cons, InputItem.entries,
    List.flatMap_append, entries_parts, List.append_nil, entries_calls]

theorem blocks_flippedItems (cwd text : String) (m : Message) (atts : List Attachment) :
    (flippedItems cwd text m atts).flatMap InputItem.blocks = atts.map Attachment.part := by
  have htext : (if text = "" then [] else
      [InputItem.message .assistant (.parts [.outputText text])]).flatMap InputItem.blocks =
        [] := by
    split <;> rfl
  have hprompt : (synthPrompt cwd atts).filter InputPart.isBlock = [] := by
    rw [synthPrompt, List.filter_map, List.map_eq_nil_iff, List.filter_eq_nil_iff]
    exact fun _ _ => Bool.false_ne_true
  rw [flippedItems, List.flatMap_append, htext, List.nil_append, List.flatMap_cons, blocks_calls,
    InputItem.blocks, List.filter_append, hprompt, blocks_parts, List.nil_append, List.append_nil]

theorem entries_standardItems (text : String) (m : Message) (atts : List Attachment)
    (h : m.role ≠ .assistant → m.toolCalls = []) :
    (standardItems text m atts).flatMap InputItem.entries =
      said text ++ m.toolCalls.map ToolCall.entry := by
  have hcalls : (if m.role = .assistant then m.toolCalls.map ToolCall.item else []).flatMap
      InputItem.entries = m.toolCalls.map ToolCall.entry := by
    split
    next => exact entries_calls _
    next hr =>
      rw [h hr]
      rfl
  rw [standardItems, List.flatMap_cons, hcalls]
  congr 1
  split
  · rfl
  · rw [InputItem.entries, List.flatMap_append, entries_textPart, entries_parts, List.append_nil]

theorem blocks_standardItems (text : String) (m : Message) (atts : List Attachment) :
    (standardItems text m atts).flatMap InputItem.blocks = atts.map Attachment.part := by
  have hcalls : (if m.role = .assistant then m.toolCalls.map ToolCall.item else []).flatMap
      InputItem.blocks = [] := by
    split
    · exact blocks_calls _
    · rfl
  rw [standardItems, List.flatMap_cons, hcalls, List.append_nil]
  split
  next hnone =>
    rw [hnone.1]
    rfl
  next => rw [InputItem.blocks, List.filter_append, blocks_textPart, blocks_parts, List.nil_append]

/-- What one iteration adds: the output of a tool, or the items of a message with its text. -/
theorem messageItems_cases (h : messageItems cwd m atts = .ok items) :
    (m.role = .tool ∧ items = [.functionCallOutput m.toolCallId m.content.get none]) ∨
      m.role ≠ .tool ∧ (m.hasImage atts = true ∧ items = flippedItems cwd m.content.plain m atts ∨
        m.hasImage atts = false ∧ items = standardItems m.content.plain m atts) := by
  rw [messageItems] at h
  split at h
  next htool =>
    cases h
    exact .inl ⟨htool, rfl⟩
  next htool =>
    have hcontent : m.content ≠ .null := by
      intro hnull
      rw [hnull] at h
      cases h
    rw [Content.text_eq hcontent] at h
    cases h
    refine .inr ⟨htool, ?_⟩
    cases himage : m.hasImage atts with
    | true => exact .inl ⟨rfl, rfl⟩
    | false => exact .inr ⟨rfl, rfl⟩

theorem entries_messageItems (hm : m.Valid) (h : messageItems cwd m atts = .ok items) :
    items.flatMap InputItem.entries = m.entries cwd atts := by
  rw [Message.entries]
  rcases messageItems_cases h with ⟨htool, rfl⟩ | ⟨htool, ⟨himage, rfl⟩ | ⟨himage, rfl⟩⟩
  · rw [if_pos htool]
    rfl
  · rw [if_neg htool, himage]
    exact entries_flippedItems _ _ _ _
  · rw [if_neg htool, himage]
    exact entries_standardItems _ _ _ hm.calls

theorem blocks_messageItems (h : messageItems cwd m atts = .ok items) :
    items.flatMap InputItem.blocks =
      if m.role = .tool then [] else atts.map Attachment.part := by
  rcases messageItems_cases h with ⟨htool, rfl⟩ | ⟨htool, ⟨-, rfl⟩ | ⟨-, rfl⟩⟩
  · rw [if_pos htool]
    rfl
  · rw [if_neg htool]
    exact blocks_flippedItems _ _ _ _
  · rw [if_neg htool]
    exact blocks_standardItems _ _ _

theorem messageItems_ok (cwd : String) (m : Message) (atts : List Attachment) :
    (∃ items, messageItems cwd m atts = .ok items) ↔ m.role ≠ .tool → m.content ≠ .null := by
  rw [messageItems]
  by_cases htool : m.role = .tool
  · rw [if_pos htool]
    exact ⟨fun _ hne => absurd htool hne, fun _ => ⟨_, rfl⟩⟩
  · rw [if_neg htool]
    constructor
    · rintro ⟨items, h⟩ - hnull
      rw [hnull] at h
      cases h
    · intro h
      rw [Content.text_eq (h htool)]
      exact ⟨_, rfl⟩

/-! ### The loop -/

theorem inputFrom_cons (h : inputFrom cwd byIndex i (m :: ms) = .ok input) :
    ∃ items rest, messageItems cwd m (attachmentsAt byIndex i) = .ok items ∧
      inputFrom cwd byIndex (i + 1) ms = .ok rest ∧ input = items ++ rest := by
  rw [inputFrom] at h
  cases hitems : messageItems cwd m (attachmentsAt byIndex i) with
  | error e =>
    rw [hitems] at h
    cases h
  | ok items =>
    rw [hitems] at h
    cases hrest : inputFrom cwd byIndex (i + 1) ms with
    | error e =>
      simp only [hrest] at h
      cases h
    | ok rest =>
      simp only [hrest] at h
      cases h
      exact ⟨items, rest, rfl, rfl, rfl⟩

theorem inputFrom_ok (cwd : String) (byIndex : List (Int × List Attachment)) (i : Nat)
    (ms : List Message) : (∃ input, inputFrom cwd byIndex i ms = .ok input) ↔
      ∀ m ∈ ms, m.role ≠ .tool → m.content ≠ .null := by
  induction ms generalizing i with
  | nil => exact ⟨fun _ m hm => (List.not_mem_nil hm).elim, fun _ => ⟨[], rfl⟩⟩
  | cons m ms ih =>
    rw [List.forall_mem_cons]
    constructor
    · rintro ⟨input, h⟩
      obtain ⟨items, rest, hitems, hrest, -⟩ := inputFrom_cons h
      exact ⟨(messageItems_ok _ _ _).1 ⟨items, hitems⟩, (ih _).1 ⟨rest, hrest⟩⟩
    · rintro ⟨hm, hms⟩
      obtain ⟨items, hitems⟩ := (messageItems_ok cwd m (attachmentsAt byIndex i)).2 hm
      obtain ⟨rest, hrest⟩ := (ih (i + 1)).2 hms
      exact ⟨items ++ rest, by rw [inputFrom, hitems, hrest]; rfl⟩

theorem entries_inputFrom (hms : ∀ m ∈ ms, m.Valid) (h : inputFrom cwd byIndex i ms = .ok input) :
    input.flatMap InputItem.entries =
      (ms.zipIdx i).flatMap fun m => m.1.entries cwd (attachmentsAt byIndex m.2) := by
  induction ms generalizing i input with
  | nil =>
    cases h
    rfl
  | cons m ms ih =>
    obtain ⟨items, rest, hitems, hrest, rfl⟩ := inputFrom_cons h
    rw [List.forall_mem_cons] at hms
    rw [List.flatMap_append, List.zipIdx_cons, List.flatMap_cons,
      entries_messageItems hms.1 hitems, ih hms.2 hrest]

theorem blocks_inputFrom (h : inputFrom cwd byIndex i ms = .ok input) :
    input.flatMap InputItem.blocks = (ms.zipIdx i).flatMap fun m =>
      if m.1.role = .tool then [] else (attachmentsAt byIndex m.2).map Attachment.part := by
  induction ms generalizing i input with
  | nil =>
    cases h
    rfl
  | cons m ms ih =>
    obtain ⟨items, rest, hitems, hrest, rfl⟩ := inputFrom_cons h
    rw [List.flatMap_append, List.zipIdx_cons, List.flatMap_cons, blocks_messageItems hitems,
      ih hrest]

/-! ### The attachments -/

/-- The attachment belongs to one of the messages, which is not the output of a tool. -/
def delivered (ms : List Message) (i : Nat) (a : Attachment) : Bool :=
  (ms.zipIdx i).any fun m => decide (m.1.role ≠ .tool) && decide ((m.2 : Int) = a.historyIndex)

theorem delivered_iff : delivered ms i a = true ↔
    ∃ k m, ms[k]? = some m ∧ m.role ≠ .tool ∧ ((i + k : Nat) : Int) = a.historyIndex := by
  simp only [delivered, List.any_eq_true, Bool.and_eq_true, decide_eq_true_eq]
  constructor
  · rintro ⟨⟨m, j⟩, hm, hrole, hindex⟩
    obtain ⟨hle, hget⟩ := List.mem_zipIdx_iff_le_and_getElem?_sub.1 hm
    exact ⟨j - i, m, hget, hrole, by rw [Nat.add_sub_cancel' hle]; exact hindex⟩
  · rintro ⟨k, m, hget, hrole, hindex⟩
    refine ⟨(m, i + k), List.mem_zipIdx_iff_le_and_getElem?_sub.2 ⟨Nat.le_add_right i k, ?_⟩,
      hrole, hindex⟩
    rw [Nat.add_sub_cancel_left]
    exact hget

theorem delivered_perm (atts : List Attachment) (ms : List Message) (i : Nat) :
    ((ms.zipIdx i).flatMap fun m => if m.1.role = .tool then [] else
      atts.filter fun a => decide ((m.2 : Int) = a.historyIndex)).Perm
        (atts.filter (delivered ms i)) := by
  induction ms generalizing i with
  | nil =>
    have hnone : atts.filter (delivered [] i) = [] := by
      rw [List.filter_eq_nil_iff]
      exact fun _ _ => Bool.false_ne_true
    rw [hnone]
    exact .refl _
  | cons m ms ih =>
    have hsplit : atts.filter (delivered (m :: ms) i) = atts.filter fun a =>
        (decide (m.role ≠ .tool) && decide ((i : Int) = a.historyIndex)) ||
          delivered ms (i + 1) a := rfl
    have hfirst : (if m.role = .tool then [] else
        atts.filter fun a => decide ((i : Int) = a.historyIndex)) =
          atts.filter fun a => decide (m.role ≠ .tool) && decide ((i : Int) = a.historyIndex) := by
      split
      next htool => simp [htool]
      next htool => simp [htool]
    rw [hsplit, List.zipIdx_cons, List.flatMap_cons, hfirst]
    refine ((ih (i + 1)).append_left _).trans (Grouping.filter_or_perm ?_).symm
    rintro a - ⟨hhere, hlater⟩
    obtain ⟨k, m', -, -, hindex⟩ := delivered_iff.1 hlater
    rw [Bool.and_eq_true, decide_eq_true_eq, decide_eq_true_eq] at hhere
    omega

theorem attachmentsAt_groups (request : LLMRequest) (i : Nat) :
    attachmentsAt (Grouping.groups Attachment.historyIndex request.fileAttachments) i =
      request.attachmentsOf i := Grouping.lookup_groups _ _ _

/-- Each attachment to a message that is not the output of a tool has a block. -/
theorem blocks_perm (request : LLMRequest)
    (h : inputFrom cwd (Grouping.groups Attachment.historyIndex request.fileAttachments) 0 ms =
      .ok input) :
    (input.flatMap InputItem.blocks).Perm
      ((request.fileAttachments.filter (delivered ms 0)).map Attachment.part) := by
  have hblocks : input.flatMap InputItem.blocks = ((ms.zipIdx 0).flatMap fun m =>
      if m.1.role = .tool then [] else request.fileAttachments.filter fun a =>
        decide ((m.2 : Int) = a.historyIndex)).map Attachment.part := by
    rw [blocks_inputFrom h, List.map_flatMap]
    apply List.flatMap_congr
    intro m _
    rw [attachmentsAt_groups]
    split <;> rfl
  rw [hblocks]
  exact (delivered_perm request.fileAttachments ms 0).map Attachment.part

/-! ### The payload -/

theorem systemInstructions_ok (h : ∀ m ∈ messages, m.content ≠ .null) :
    systemInstructions messages = .ok
      ((messages.filter fun m => decide (m.role = .system)).map fun m => m.content.plain) := by
  apply Python.mapM_eq_map
  intro m hm
  exact Content.text_eq (h m (List.mem_filter.1 hm).1)

/-- The input of the payload, before the instruction of the JSON mode. -/
theorem input_of_ok (h : buildResponsesPayload cwd request defaultModel = .ok payload) :
    ∃ input, inputFrom cwd (Grouping.groups Attachment.historyIndex request.fileAttachments) 0
      (nonSystemMessages request.messages) = .ok input ∧
        payload.input = match request.responseFormat with
          | some .jsonObject => requireJson input
          | _ => input := by
  rw [buildResponsesPayload] at h
  cases hsystem : systemInstructions request.messages with
  | error e =>
    rw [hsystem] at h
    cases h
  | ok instructions =>
    rw [hsystem] at h
    cases hinput : inputFrom cwd (Grouping.groups Attachment.historyIndex request.fileAttachments) 0
        (nonSystemMessages request.messages) with
    | error e =>
      simp only [hinput] at h
      cases h
    | ok input =>
      simp only [hinput] at h
      cases h
      exact ⟨input, rfl, rfl⟩

theorem entries_requireJson (input : List InputItem) :
    Carries (input.flatMap InputItem.entries) ((requireJson input).flatMap InputItem.entries) := by
  rw [requireJson]
  split
  · exact .same
  · exact entries_instructLast input

theorem blocks_requireJson (input : List InputItem) :
    (requireJson input).flatMap InputItem.blocks = input.flatMap InputItem.blocks := by
  rw [requireJson]
  split
  · rfl
  · exact blocks_instructLast input

/-- The input of the payload says what the input of the loop says, and has its attachments. -/
theorem payload_input (h : buildResponsesPayload cwd request defaultModel = .ok payload) :
    ∃ input, inputFrom cwd (Grouping.groups Attachment.historyIndex request.fileAttachments) 0
      (nonSystemMessages request.messages) = .ok input ∧
        Carries (input.flatMap InputItem.entries) (payload.input.flatMap InputItem.entries) ∧
          payload.input.flatMap InputItem.blocks = input.flatMap InputItem.blocks := by
  obtain ⟨input, hinput, hpayload⟩ := input_of_ok h
  refine ⟨input, hinput, ?_⟩
  rw [hpayload]
  split
  · exact ⟨entries_requireJson input, blocks_requireJson input⟩
  · exact ⟨.same, rfl⟩

theorem buildResponsesPayload_ok (cwd defaultModel : String) (request : LLMRequest)
    (h : ∀ m ∈ request.messages, m.content ≠ .null) :
    ∃ payload, buildResponsesPayload cwd request defaultModel = .ok payload := by
  obtain ⟨input, hinput⟩ := (inputFrom_ok cwd
    (Grouping.groups Attachment.historyIndex request.fileAttachments) 0
      (nonSystemMessages request.messages)).2 fun m hm _ => h m (List.mem_filter.1 hm).1
  rw [buildResponsesPayload, systemInstructions_ok h]
  simp only [hinput]
  exact ⟨_, rfl⟩

theorem entries_request {request : LLMRequest} (hv : request.Valid)
    (h : inputFrom cwd (Grouping.groups Attachment.historyIndex request.fileAttachments) 0
      (nonSystemMessages request.messages) = .ok input) :
    input.flatMap InputItem.entries = request.entries cwd := by
  rw [entries_inputFrom (fun m hm => hv.messages m (List.mem_filter.1 hm).1) h, LLMRequest.entries]
  apply List.flatMap_congr
  intro m _
  rw [attachmentsAt_groups]

theorem delivered_iff_addresses {request : LLMRequest} (h : request.Addresses a m) :
    delivered (nonSystemMessages request.messages) 0 a = true ↔ m.role ≠ .tool := by
  obtain ⟨i, hindex, hget⟩ := h
  rw [delivered_iff]
  constructor
  · rintro ⟨k, m', hget', hrole, hk⟩
    have hik : k = i := by omega
    rw [hik, hget] at hget'
    cases hget'
    exact hrole
  · intro hrole
    exact ⟨i, m, hget, hrole, by omega⟩

/-- For a valid request the payload is built, with each text, call and output of the history and
each attachment once, where no content is `None` and no attachment belongs to the output of a
tool. -/
theorem buildResponsesPayload_conserves_iff {request : LLMRequest} (cwd defaultModel : String)
    (hv : request.Valid) :
    (∃ payload, buildResponsesPayload cwd request defaultModel = .ok payload ∧
        Conserved cwd request payload.input) ↔
      (∀ m ∈ request.messages, m.content ≠ .null) ∧
        ∀ a ∈ request.fileAttachments, ∀ m, request.Addresses a m → m.role ≠ .tool := by
  constructor
  · rintro ⟨payload, h, hconserved⟩
    obtain ⟨input, hinput, -, hblocks⟩ := payload_input h
    constructor
    · intro m hm hnull
      obtain ⟨hrole, -⟩ := (hv.messages m hm).content hnull
      have hkept : m ∈ nonSystemMessages request.messages := by
        rw [nonSystemMessages, List.mem_filter, hrole]
        exact ⟨hm, rfl⟩
      refine (inputFrom_ok _ _ _ _).1 ⟨input, hinput⟩ m hkept ?_ hnull
      rw [hrole]
      exact Role.noConfusion
    · intro a ha m haddr
      have hperm := hconserved.blocks
      rw [hblocks] at hperm
      have hlength := ((blocks_perm request hinput).symm.trans hperm).length_eq
      rw [List.length_map, List.length_map, List.length_filter_eq_length_iff] at hlength
      exact (delivered_iff_addresses haddr).1 (hlength a ha)
  · rintro ⟨hcontent, hrole⟩
    obtain ⟨payload, h⟩ := buildResponsesPayload_ok cwd defaultModel request hcontent
    obtain ⟨input, hinput, hcarries, hblocks⟩ := payload_input h
    refine ⟨payload, h, ?_, ?_⟩
    · rw [← entries_request hv hinput]
      exact hcarries
    · have hall : request.fileAttachments.filter
          (delivered (nonSystemMessages request.messages) 0) = request.fileAttachments := by
        rw [List.filter_eq_self]
        intro a ha
        obtain ⟨m, haddr⟩ := hv.attachments a ha
        exact (delivered_iff_addresses haddr).2 (hrole a ha m haddr)
      have hperm := blocks_perm request hinput
      rw [hall] at hperm
      rw [hblocks]
      exact hperm

def readCall : ToolCall where
  id := some "call_1"
  name := some "scraper"
  arguments := some "{}"

def screenshot (i : Int) : Attachment where
  historyIndex := i
  path := "data/temp/browser_state/1.png"
  mimeType := "image/png"
  base64 := "iVBORw0K"

/-- A turn of an assistant with a call, a screenshot after it, and the output of the call. -/
def toolTurn (content : Content) (i : Int) : LLMRequest where
  messages :=
    [⟨.system, .str "Be brief.", none, []⟩, ⟨.user, .str "Open the page.", none, []⟩,
      ⟨.assistant, content, none, [readCall]⟩, ⟨.tool, .str "Opened.", some "call_1", []⟩]
  fileAttachments := [screenshot i]

theorem buildResponsesPayload_conserves_turn :
    ∃ payload, buildResponsesPayload "/srv/app" (toolTurn (.str "Opening it.") 1) "gpt-4o" =
      .ok payload ∧ Conserved "/srv/app" (toolTurn (.str "Opening it.") 1) payload.input := by
  have hv : (toolTurn (.str "Opening it.") 1).Valid := by
    refine ⟨by decide, ?_⟩
    rintro a ha
    obtain rfl := List.mem_singleton.1 ha
    exact ⟨_, 1, rfl, rfl⟩
  refine (buildResponsesPayload_conserves_iff "/srv/app" "gpt-4o" hv).2 ⟨by decide, ?_⟩
  rintro a ha m ⟨i, hindex, hget⟩
  obtain rfl := List.mem_singleton.1 ha
  obtain rfl : i = 1 := Int.ofNat.inj hindex.symm
  cases hget
  decide

/-- A call without a text is refused, and a screenshot of the output of a tool is lost. -/
theorem toolTurn_not_conserved :
    ((toolTurn .null 1).Valid ∧
      ¬ ∃ payload, buildResponsesPayload "/srv/app" (toolTurn .null 1) "gpt-4o" = .ok payload ∧
        Conserved "/srv/app" (toolTurn .null 1) payload.input) ∧
    (toolTurn (.str "Opening it.") 2).Valid ∧
      ¬ ∃ payload, buildResponsesPayload "/srv/app" (toolTurn (.str "Opening it.") 2) "gpt-4o" =
        .ok payload ∧ Conserved "/srv/app" (toolTurn (.str "Opening it.") 2) payload.input := by
  refine ⟨⟨⟨by decide, ?_⟩, ?_⟩, ⟨by decide, ?_⟩, ?_⟩
  · rintro a ha
    obtain rfl := List.mem_singleton.1 ha
    exact ⟨_, 1, rfl, rfl⟩
  · rintro ⟨payload, h, -⟩
    cases h
  · rintro a ha
    obtain rfl := List.mem_singleton.1 ha
    exact ⟨_, 2, rfl, rfl⟩
  · rintro ⟨payload, h, hconserved⟩
    obtain ⟨input, hinput, -, hblocks⟩ := payload_input h
    cases hinput
    have hlength := hconserved.blocks.length_eq
    rw [hblocks] at hlength
    revert hlength
    decide

end Clients
