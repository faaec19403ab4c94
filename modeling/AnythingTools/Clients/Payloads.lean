import Mathlib.Data.List.Infix
import AnythingTools.Grouping
import AnythingTools.Python

namespace Clients
set_option autoImplicit true

/-! ### Requests -/

inductive Role where
  | system
  | user
  | assistant
  | tool
  | other (name : Option String)
deriving DecidableEq, Repr

/-- A part of a content list; only parts of type `text` are read. -/
inductive ContentPart where
  | text (text : Option String)
  | other
deriving DecidableEq, Repr

/-- What a message has under `content`. -/
inductive Content where
  | absent
  | null
  | str (s : String)
  | parts (ps : List ContentPart)
deriving DecidableEq, Repr

structure ToolCall where
  id : Option String
  name : Option String
  arguments : Option String
deriving DecidableEq, Repr

/-- A message of the history. Without `tool_calls` the list is empty. -/
structure Message where
  role : Role
  content : Content
  toolCallId : Option String := none
  toolCalls : List ToolCall := []
deriving DecidableEq, Repr

structure Attachment where
  historyIndex : Int := -1
  path : String
  mimeType : String
  base64 : String
deriving DecidableEq, Repr

structure JsonSchema where
  name : Option Json
  strict : Option Json
  schema : Option Json
  description : Option Json

inductive ResponseFormat where
  | jsonObject
  | jsonSchema (js : JsonSchema)
  | other

/-- The fields of an `LLMRequest` that the payload is built from. -/
structure LLMRequest where
  messages : List Message
  model : Option String := none
  tools : Option Json := none
  toolChoice : Option Json := none
  temperature : Option Json := none
  maxTokens : Option Json := none
  timeoutS : Option Json := none
  responseFormat : Option ResponseFormat := none
  fileAttachments : List Attachment := []

/-! ### Payloads -/

inductive InputPart where
  | inputText (text : String)
  | outputText (text : String)
  | inputImage (imageUrl : String)
  | inputFile (filename fileData : String)
deriving DecidableEq, Repr

inductive InputContent where
  | str (s : String)
  | parts (ps : List InputPart)
deriving DecidableEq, Repr

/-- An item of `input`. Calls and outputs are built without a `content`. -/
inductive InputItem where
  | message (role : Role) (content : InputContent)
  | functionCall (callId name arguments : Option String) (content : Option String)
  | functionCallOutput (callId : Option String) (output : Content) (content : Option String)
deriving DecidableEq, Repr

/-- The `format` under `text`. -/
inductive TextFormat where
  | jsonObject
  | jsonSchema (name strict schema : Json) (description : Option Json)

structure Payload where
  model : String
  input : List InputItem
  instructions : Option String
  tools : Option Json
  toolChoice : Option Json
  reasoningEffort : Option String
  temperature : Option Json
  maxOutputTokens : Option Json
  timeout : Option Json
  text : Option TextFormat

/-! ### Texts, attachments and calls -/

def ContentPart.text? : ContentPart → Option String
  | text t => some (t.getD "")
  | other => none

/-- The text of a content. `None` is no string, and no list to go through either. -/
def Content.text : Content → Except Python.Error String
  | absent => .ok ""
  | null => .error .typeError
  | str s => .ok s
  | parts ps => .ok (" ".intercalate (ps.filterMap ContentPart.text?))

/-- What `msg.get("content")` passes on. -/
def Content.get : Content → Content
  | absent => null
  | c => c

def responsesImageMimes : List String :=
  ["image/png", "image/jpeg", "image/gif", "image/bmp", "image/tiff"]

def Attachment.isImage (a : Attachment) : Bool := decide (a.mimeType ∈ responsesImageMimes)

def basename (path : String) : String :=
  String.ofList (path.toList.reverse.takeWhile fun c => decide (c ≠ '/')).reverse

def Attachment.dataUrl (a : Attachment) : String :=
  "data:" ++ a.mimeType ++ ";base64," ++ a.base64

def Attachment.part (a : Attachment) : InputPart :=
  if a.isImage then .inputImage a.dataUrl else .inputFile (basename a.path) a.dataUrl

def ToolCall.item (tc : ToolCall) : InputItem := .functionCall tc.id tc.name tc.arguments none

/-! ### Where an image comes from -/

/-- One component of an absolute path that is made normal. -/
def normStep (comps : List (List Char)) (c : List Char) : List (List Char) :=
  if c = [] ∨ c = ['.'] then comps
  else if c = ['.', '.'] then comps.dropLast
  else comps ++ [c]

/-- The components of `os.path.abspath(path)`. -/
def abspath (cwd path : String) : List (List Char) :=
  let full := if path.toList.head? = some '/' then path.toList
    else cwd.toList ++ '/' :: path.toList
  (full.splitOn '/').foldl normStep []

/-- `os.path.commonpath` of two absolute paths. -/
def commonpath : List (List Char) → List (List Char) → List (List Char)
  | a :: as, b :: bs => if a = b then a :: commonpath as bs else []
  | _, _ => []

def screenshotDirAbs (cwd : String) : List (List Char) := abspath cwd "data/temp/browser_state"

def uploadDirAbs (cwd : String) : List (List Char) := abspath cwd "data/temp/multimodal"

def screenshotPrompt : String :=
  "System: Visual confirmation of the current browser state captured " ++
    "immediately after the previous tool action. Interpret this image as " ++
    "evidence of the browser's present state, not a user submission."

def uploadPrompt : String := "System: Image submitted directly by the user."

def artifactPrompt : String :=
  "System: Visual artifact produced as the output of a completed tool action."

def classifyImagePrompt (cwd path : String) : String :=
  let absPath := abspath cwd path
  if commonpath absPath (screenshotDirAbs cwd) = screenshotDirAbs cwd then screenshotPrompt
  else if commonpath absPath (uploadDirAbs cwd) = uploadDirAbs cwd then uploadPrompt
  else artifactPrompt

/-! ### The input -/

/-- An assistant turn that carries an image. -/
def Message.hasImage (m : Message) (atts : List Attachment) : Bool :=
  decide (m.role = .assistant) && atts.any Attachment.isImage

/-- The part with the text of a message, unless that is empty. -/
def textPart (role : Role) (text : String) : List InputPart :=
  if text = "" then []
  else if role = .assistant then [.outputText text] else [.inputText text]

/-- The text that introduces the attachments of an assistant turn. -/
def synthPrompt (cwd : String) (atts : List Attachment) : List InputPart :=
  (atts.take 1).map fun a => .inputText (classifyImagePrompt cwd a.path)

/-- The items of an assistant turn with an image, whose attachments the user seems to send. -/
def flippedItems (cwd : String) (text : String) (m : Message) (atts : List Attachment) :
    List InputItem :=
  (if text = "" then [] else [.message .assistant (.parts [.outputText text])]) ++
    .message .user (.parts (synthPrompt cwd atts ++ atts.map Attachment.part)) ::
      m.toolCalls.map ToolCall.item

def standardItems (text : String) (m : Message) (atts : List Attachment) : List InputItem :=
  .message m.role (if atts = [] ∧ m.toolCalls = [] then .str text
    else .parts (textPart m.role text ++ atts.map Attachment.part)) ::
      if m.role = .assistant then m.toolCalls.map ToolCall.item else []

/-- One iteration of the loop over the messages. -/
def messageItems (cwd : String) (m : Message) (atts : List Attachment) :
    Except Python.Error (List InputItem) :=
  if m.role = .tool then .ok [.functionCallOutput m.toolCallId m.content.get none]
  else do
    let text ← m.content.text
    return if m.hasImage atts then flippedItems cwd text m atts else standardItems text m atts

def attachmentsAt (attachmentByIndex : List (Int × List Attachment)) (i : Nat) : List Attachment :=
  (attachmentByIndex.lookup (i : Int)).getD []

def inputFrom (cwd : String) (attachmentByIndex : List (Int × List Attachment)) :
    Nat → List Message → Except Python.Error (List InputItem)
  | _, [] => .ok []
  | i, m :: ms => do
    let items ← messageItems cwd m (attachmentsAt attachmentByIndex i)
    let rest ← inputFrom cwd attachmentByIndex (i + 1) ms
    return items ++ rest

def nonSystemMessages (messages : List Message) : List Message :=
  messages.filter fun m => decide (m.role ≠ .system)

def systemInstructions (messages : List Message) : Except Python.Error (List String) :=
  (messages.filter fun m => decide (m.role = .system)).mapM fun m => m.content.text

/-! ### JSON mode -/

/-- `"json" in s.lower()`. No character beyond ASCII has one of these letters in lower case. -/
def mentionsJson (s : String) : Bool := decide ("json".toList <:+: s.toList.map Char.toLower)

def InputPart.mentionsJson : InputPart → Bool
  | inputText t | outputText t => Clients.mentionsJson t
  | inputImage _ | inputFile _ _ => false

def InputItem.mentionsJson : InputItem → Bool
  | message _ (.str s) => Clients.mentionsJson s
  | message _ (.parts ps) => ps.any InputPart.mentionsJson
  | functionCall _ _ _ c | functionCallOutput _ _ c => Clients.mentionsJson (c.getD "")

def jsonPrompt : String := "Output strictly in JSON."

def jsonSuffix : String := "\n\nOutput strictly in JSON."

/-- The repair of one item, whatever it is. -/
def InputItem.instruct : InputItem → InputItem
  | message r (.str s) => message r (.str (s ++ jsonSuffix))
  | message r (.parts ps) => message r (.parts (ps ++ [.inputText jsonSuffix]))
  | functionCall id name args c => functionCall id name args (some (c.getD "" ++ jsonSuffix))
  | functionCallOutput id out c => functionCallOutput id out (some (c.getD "" ++ jsonSuffix))

def instructLast : List InputItem → List InputItem
  | [] => [.message .user (.str jsonPrompt)]
  | [item] => [item.instruct]
  | item :: next :: items => item :: instructLast (next :: items)

def requireJson (input : List InputItem) : List InputItem :=
  if input.any InputItem.mentionsJson then input else instructLast input

/-! ### The payload -/

def isReasoning (model : String) : Bool :=
  ["o1", "o3", "gpt-5"].any fun m => decide (m.toList <:+: model.toList)

def resolveModel (model : Option String) (default : String) : String :=
  match model with
  | some m => if m = "" then default else m
  | none => default

def textFormat : ResponseFormat → Option TextFormat
  | .jsonObject => some .jsonObject
  | .jsonSchema js => some (.jsonSchema (js.name.getD (.str ("response".toList.map Char.toNat)))
      (js.strict.getD (.bool false)) (js.schema.getD (.dict [])) js.description)
  | .other => none

def buildResponsesPayload (cwd : String) (request : LLMRequest) (defaultModel : String) :
    Except Python.Error Payload := do
  let model := resolveModel request.model defaultModel
  let instructions ← systemInstructions request.messages
  let input ← inputFrom cwd (Grouping.groups Attachment.historyIndex request.fileAttachments) 0
    (nonSystemMessages request.messages)
  return {
    model := model
    input := match request.responseFormat with
      | some .jsonObject => requireJson input
      | _ => input
    instructions := if instructions = [] then none else some ("\n".intercalate instructions)
    tools := request.tools
    toolChoice := request.toolChoice
    reasoningEffort := if isReasoning model then some "low" else none
    temperature := if isReasoning model then none else request.temperature
    maxOutputTokens := request.maxTokens
    timeout := request.timeoutS
    text := request.responseFormat.bind textFormat }

end Clients
