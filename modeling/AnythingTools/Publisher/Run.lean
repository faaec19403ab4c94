import AnythingTools.Publisher.Batch
import AnythingTools.Sync.PullToLocal

namespace Publisher
open JobItems Relational
set_option autoImplicit true

inductive Channel where
  | briefing
  | archive
deriving DecidableEq, Repr

/-- `STEP_PUBLISH_BRIEFING` and `STEP_PUBLISH_ARCHIVE`. -/
def Channel.step : Channel → String
  | .briefing => "publish_briefing"
  | .archive => "publish_archive"

/-- What a delivery to the channel makes of the status of a detail. -/
def Channel.published : Channel → PublishStatus
  | .briefing => .publishedBriefing
  | .archive => .publishedArchive

/-- The statuses that the channel passes over. -/
def Channel.passes : Channel → PublishStatus → Bool
  | .briefing, status => decide (status ∈ [.publishedBriefing, .publishedArchive])
  | .archive, status => decide (status = .publishedArchive)

/-- The message arrived, was refused for good, or may be tried again later. -/
inductive Outcome where
  | ok
  | permanent
  | transient
deriving DecidableEq, Repr

/-- What a run does to the outside, in its order. -/
inductive Effect where
  | queue (w : Write)
  | lock
  | send (channel : Channel) (ulid : String) (index : Nat) (text : String) (outcome : Outcome)

def Effect.write? : Effect → Option Write
  | .queue w => some w
  | _ => none

def Effect.isLock : Effect → Bool
  | .lock => true
  | _ => false

def queued (es : List Effect) : List Write := es.filterMap Effect.write?

def locked (es : List Effect) : Bool := es.any Effect.isLock

/-- The reads of a run. -/
inductive Read where
  | batchArticles
  | allArticles
  | detailsForPublish
  | cached (ulid : String)
  | retries (ulid : String)
  | chunksSent (channel : Channel) (ulid : String)
  | counts
deriving DecidableEq, Repr

/-- The settings. `split` escapes a text and cuts it into messages. -/
structure Config where
  client : Bool := true
  configured : Channel → Bool := fun _ => true
  split : String → List String
  model : String := "gpt-5.4-mini"

/-- What a run depends on: its job, the replies of the model in each round, what becomes of the
messages, and how many of its own statements the writer has committed at each of its reads. -/
structure Env where
  jobId : Option String
  llm : Nat → String → Option Translation
  telegram : Channel → String → Nat → Outcome
  lag : Read → Nat
  now : String

structure Args where
  reset : Bool := false
  finalize : Bool := false
deriving DecidableEq, Repr

def Db.withStatus (db : Db) (status : BatchStatus) : Db :=
  { db with batch := { db.batch with status } }

/-- What a reader sees: the lock is taken at once, the statements when the writer comes to them. -/
def view (db : Db) (es : List Effect) (n : Nat) : Db :=
  (if locked es then db.withStatus .publishing else db).commitAll ((queued es).take n)

/-! ### The items of the publisher -/

def Item.has (i : Item Output) (step ulid : String) : Bool :=
  decide (itemKey i.itemMetadata = (.text step, .text ulid))

/-- `chunks_sent` of the job's item. -/
def chunksSent (items : List (Item Output)) (jobId : String) (channel : Channel) (ulid : String) :
    Nat :=
  match items.find? fun i => decide (i.jobId = jobId) && Item.has i channel.step ulid with
  | some i =>
    match i.outputData with
    | some (.chunksSent n) => n
    | _ => 0
  | none => 0

/-- The newest completed translation of an article, whichever job has made it. -/
def cached (items : List (Item Output)) (ulid : String) : Option Translation :=
  let rows := items.filter fun i =>
    Item.has i "translate" ulid && decide (i.status = .completed)
  match (rows.insertionSort fun a b => b.updatedAt ≤ a.updatedAt).head? with
  | some i =>
    match i.outputData with
    | some (.translation t) => some t
    | _ => none
  | none => none

/-- How often the job has failed to translate the article. -/
def failedRetries (items : List (Item Output)) (jobId ulid : String) : Nat :=
  match items.find? fun i => decide (i.jobId = jobId) && Item.has i "translate" ulid &&
      decide (i.status = .failed) with
  | some i =>
    match jsonExtract i.itemMetadata "retry" with
    | .int n => n.toNat
    | _ => 0
  | none => 0

/-- `add_job_item` and `update_item_status`; a run without a job has no items. -/
def addItem (env : Env) (m : Metadata) : List Effect :=
  env.jobId.toList.map fun jobId => .queue (.item (.add jobId m env.now))

def updateItem (env : Env) (m : Metadata) (status : ItemStatus) (output : Output) : List Effect :=
  env.jobId.toList.map fun jobId => .queue (.item (.update jobId m status output env.now))

/-! ### The validator -/

def isValid (a : Article) : Bool :=
  decide (a.ulid ≠ "" ∧ a.ulid ≠ "None") && (a.title.any fun title => Sync.strip title ≠ "")

def invalidReason (a : Article) : String :=
  if a.ulid = "" ∨ a.ulid = "None" then s!"Invalid ULID: '{a.ulid}'"
  else s!"Missing/empty title for ULID {a.ulid}"

def recordInvalid (env : Env) (d : Detail) : List Effect :=
  let m := makeMetadata env.now "validate" (some d.ulid) 0 none
    (some s!"Skipped: {invalidReason d.article}")
  addItem env m ++ updateItem env m .failed .empty

/-- What the validator and the pipeline write about the articles that are left out. -/
def skipInvalid (env : Env) (skipped : List Detail) : List Effect :=
  skipped.flatMap (recordInvalid env) ++
    (skipped.filter fun d => d.ulid ≠ "").map fun d => .queue (.setDetail d.ulid .skipped none)

/-! ### The translator -/

def maxTranslationRetries : Nat := 3

def batchSize : Nat := 10

structure Translator where
  translated : String → Option Translation
  retries : String → Nat
  queue : List Detail
  effects : List Effect

def translateMeta (cfg : Config) (env : Env) (d : Detail) (retry : Nat) (error : Option String) :
    Metadata :=
  makeMetadata env.now "translate" (some d.ulid) retry (some cfg.model) error d.isTop10

def recordFailure (cfg : Config) (env : Env) (d : Detail) (retry : Nat) : List Effect :=
  let m := translateMeta cfg env d retry (some "Max retries reached")
  .queue (.setDetail d.ulid .failed none) :: (addItem env m ++ updateItem env m .failed .empty)

def recordTranslation (cfg : Config) (env : Env) (d : Detail) (retry : Nat) (t : Translation) :
    List Effect :=
  let m := translateMeta cfg env d retry none
  .queue (.setDetail d.ulid .translating (some t)) ::
    (addItem env m ++ updateItem env m .completed (.translation t))

/-- The articles of one call, what is left of the queue, and the records of the articles whose
tries are used up. -/
def takeBatch (cfg : Config) (env : Env) (retries : String → Nat) :
    Nat → List Detail → List Detail × List Detail × List Effect
  | _, [] => ([], [], [])
  | 0, queue => ([], queue, [])
  | room + 1, d :: queue =>
    if maxTranslationRetries ≤ retries d.ulid then
      let (batch, rest, es) := takeBatch cfg env retries (room + 1) queue
      (batch, rest, recordFailure cfg env d (retries d.ulid) ++ es)
    else
      let (batch, rest, es) := takeBatch cfg env retries room queue
      (d :: batch, rest, es)

/-- What the reply of a call says of one article of it. -/
def translateOne (cfg : Config) (env : Env) (iteration : Nat) (st : Translator) (d : Detail) :
    Translator :=
  match env.llm iteration d.ulid with
  | some t =>
    { st with
      translated := Function.update st.translated d.ulid (some t)
      effects := st.effects ++ recordTranslation cfg env d (st.retries d.ulid) t }
  | none =>
    let retry := st.retries d.ulid + 1
    let retries := Function.update st.retries d.ulid retry
    if maxTranslationRetries ≤ retry then
      { st with retries, effects := st.effects ++ recordFailure cfg env d retry }
    else { st with retries, queue := st.queue ++ [d] }

def translateRound (cfg : Config) (env : Env) (iteration : Nat) (st : Translator) : Translator :=
  let (batch, rest, es) := takeBatch cfg env st.retries batchSize st.queue
  batch.foldl (translateOne cfg env iteration)
    { st with queue := rest, effects := st.effects ++ es }

/-- The loop of `translate_all`; the number is what is left of `safety_limit`. -/
def translateRounds (cfg : Config) (env : Env) : Nat → Nat → Translator → Translator
  | 0, _, st => st
  | limit + 1, iteration, st =>
    if st.queue = [] then st
    else translateRounds cfg env limit (iteration + 1) (translateRound cfg env (iteration + 1) st)

/-- The translations that other runs have left. -/
def loadCached (env : Env) (db : Db) (articles : List Detail) (es : List Effect)
    (ulid : String) : Option Translation :=
  if ulid ∈ articles.map Detail.ulid then
    cached (view db es (env.lag (.cached ulid))).items ulid
  else none

def loadRetries (env : Env) (db : Db) (es : List Effect) (ulid : String) : Nat :=
  match env.jobId with
  | some jobId => failedRetries (view db es (env.lag (.retries ulid))).items jobId ulid
  | none => 0

def translateAll (cfg : Config) (env : Env) (db : Db) (articles : List Detail)
    (es : List Effect) : Translator :=
  let translated := loadCached env db articles es
  let queue := articles.filter fun d => (translated d.ulid).isNone
  translateRounds cfg env (queue.length * maxTranslationRetries + 1) 0
    { translated, retries := loadRetries env db es, queue, effects := es }

/-! ### The channels -/

def rawText : Channel → Translation → String
  | .briefing, t => s!"{t.title}\n\n{t.summary}\n\n{t.conclusion}"
  | .archive, t => s!"{t.title}\n\n{t.conclusion}\n\n{t.summary}"

def link (a : Article) : String := if a.url = "" then "URL Unavailable" else a.url

/-- The messages of an article: the link and the chunks of the text. -/
def messages (cfg : Config) (channel : Channel) (a : Article) (t : Translation) : List String :=
  link a :: cfg.split (rawText channel t)

/-- How the delivery of an article ends; the number is `chunks_sent`. -/
inductive Delivery where
  | sent (chunksSent : Nat)
  | refused (chunksSent : Nat)
  | raised
deriving DecidableEq, Repr

/-- Send what is left of the messages, `chunks_sent` of which were sent before, and record each.
The link is the first message, so that chunk `i` is message `i + 1`. -/
def sendMessages (env : Env) (channel : Channel) (ulid : String) (m : Metadata) :
    List String → Nat → List Effect × Delivery
  | [], n => ([], .sent n)
  | text :: texts, n =>
    match env.telegram channel ulid n with
    | .ok =>
      let (es, ending) := sendMessages env channel ulid m texts (n + 1)
      (.send channel ulid n text .ok ::
        (updateItem env m .running (.chunksSent (n + 1)) ++ es), ending)
    | .permanent => ([.send channel ulid n text .permanent], .refused n)
    | .transient => ([.send channel ulid n text .transient], .raised)

def publishMeta (env : Env) (channel : Channel) (d : Detail) : Metadata :=
  makeMetadata env.now channel.step (some d.ulid) 0 none none
    (match channel with
      | .briefing => true
      | .archive => d.isTop10)

def progressOf (env : Env) (db : Db) (channel : Channel) (d : Detail) (es : List Effect) : Nat :=
  match env.jobId with
  | some jobId =>
    chunksSent (view db es (env.lag (.chunksSent channel d.ulid))).items jobId channel d.ulid
  | none => 0

/-- One article in the loop of `publish_briefing` or `publish_archive`. The flag says that a
transient error was raised. -/
def publishArticle (cfg : Config) (env : Env) (db : Db) (channel : Channel) (t : Translation)
    (d : Detail) (es : List Effect) : List Effect × Bool :=
  if channel.passes d.publishStatus then (es, false)
  else
    let m := publishMeta env channel d
    let es := es ++ addItem env m
    let n := progressOf env db channel d es
    match sendMessages env channel d.ulid m ((messages cfg channel d.article t).drop n) n with
    | (new, .sent n) =>
      (es ++ new ++ .queue (.setDetail d.ulid channel.published none) ::
        updateItem env m .completed (.chunksSent n), false)
    | (new, .refused n) =>
      (es ++ new ++ .queue (.setDetail d.ulid .failed none) ::
        updateItem env m .failed (.chunksSent n), false)
    | (new, .raised) => (es ++ new, true)

/-- The loop over the translated articles. -/
def publishArticles (cfg : Config) (env : Env) (db : Db) (channel : Channel)
    (translated : String → Option Translation) :
    List Detail → List Effect → List Effect × Bool
  | [], es => (es, false)
  | d :: ds, es =>
    match translated d.ulid with
    | none => publishArticles cfg env db channel translated ds es
    | some t =>
      match publishArticle cfg env db channel t d es with
      | (es, true) => (es, true)
      | (es, false) => publishArticles cfg env db channel translated ds es

/-- `publish_briefing` and `publish_archive`: the briefing is of the top 10. -/
def publishChannel (cfg : Config) (env : Env) (db : Db) (channel : Channel)
    (translated : String → Option Translation) (articles : List Detail) (es : List Effect) :
    List Effect × Bool :=
  if cfg.configured channel then
    publishArticles cfg env db channel translated
      (articles.filter fun d => decide (channel = .archive) || d.isTop10) es
  else (es, false)

/-! ### The pipeline and the tool -/

def pendingArticles (env : Env) (db : Db) (resume reset : Bool) (es : List Effect) : List Detail :=
  if resume && !reset then
    getDetailsForPublish (view db es (env.lag .detailsForPublish)).batch
  else getBatchArticles (view db es (env.lag .allArticles)).batch

def deliver (cfg : Config) (env : Env) (db : Db) (translated : String → Option Translation)
    (articles : List Detail) (es : List Effect) : List Effect × Bool :=
  if cfg.client then
    match publishChannel cfg env db .briefing translated articles es with
    | (es, true) => (es, true)
    | (es, false) => publishChannel cfg env db .archive translated articles es
  else (es, false)

def setStatus (db : Db) (env : Env) (es : List Effect) : List Effect :=
  ((statusFromDetails (view db es (env.lag .counts)).batch.details).map fun status =>
    .queue (.setBatchStatus status)).toList

def validArticles (env : Env) (db : Db) (resume reset : Bool) (es : List Effect) : List Detail :=
  (pendingArticles env db resume reset es).filter fun d => isValid d.article

def invalidArticles (env : Env) (db : Db) (resume reset : Bool) (es : List Effect) : List Detail :=
  (pendingArticles env db resume reset es).filter fun d => !isValid d.article

/-- The phases of the pipeline before the delivery. -/
def prepare (cfg : Config) (env : Env) (db : Db) (resume reset : Bool) (es : List Effect) :
    Translator :=
  translateAll cfg env db (validArticles env db resume reset es)
    (es ++ skipInvalid env (invalidArticles env db resume reset es))

/-- `run_pipeline`, after which a transient error leaves the batch `PARTIAL`. -/
def runPipeline (cfg : Config) (env : Env) (db : Db) (resume reset : Bool) (es : List Effect) :
    List Effect × Bool :=
  let translator := prepare cfg env db resume reset es
  match deliver cfg env db translator.translated (validArticles env db resume reset es)
      translator.effects with
  | (es, true) => (es ++ [.queue (.setBatchStatus .partialResult)], true)
  | (es, false) => (es ++ setStatus db env es, false)

/-- What the status of the batch makes of a call. -/
inductive Route where
  | alreadyPublished
  | finalize
  | proceed
deriving DecidableEq, Repr

def route (args : Args) (status : BatchStatus) : Route :=
  if status = .completed ∧ args.reset = false ∧ args.finalize = false then .alreadyPublished
  else if args.finalize = true ∧ status ∈ [.partialResult, .publishing] then .finalize
  else .proceed

/-- The `WHERE` of the check-and-set. -/
def lockable (status : BatchStatus) : Bool :=
  decide (status ∈ [.pending, .partialResult, .completed])

inductive Ending where
  | alreadyPublished
  | finalized
  | depleted
  | notLocked
  | crashed
  | finished
deriving DecidableEq, Repr

/-- The status in the reply of the tool; that of a finished pipeline is read back. -/
def Ending.status (found : BatchStatus) : Ending → String
  | .alreadyPublished => "COMPLETED"
  | .finalized => "COMPLETED"
  | .depleted => "FAILED"
  | .notLocked => "FAILED"
  | .crashed => "FAILED"
  | .finished => found.text

/-- What a run has queued when it comes to load the articles. -/
def resetEffects (args : Args) : List Effect := if args.reset then [.queue .resetDetails] else []

/-- `PublisherTool.run` on a batch that nobody else works on. -/
def run (cfg : Config) (env : Env) (args : Args) (db : Db) : List Effect × Ending :=
  match route args db.batch.status with
  | .alreadyPublished => ([], .alreadyPublished)
  | .finalize => ([.queue .skipUnpublished, .queue (.setBatchStatus .completed)], .finalized)
  | .proceed =>
    let es := resetEffects args
    let articles := getBatchArticles (view db es (env.lag .batchArticles)).batch
    if articles.any Detail.isTop10 then
      if lockable db.batch.status then
        let resume := decide (db.batch.status ∈ [.pending, .partialResult])
        match runPipeline cfg env db resume args.reset (es ++ [.lock]) with
        | (es, true) => (es, .crashed)
        | (es, false) => (es, .finished)
      else (es, .notLocked)
    else (es ++ [.queue (.setBatchStatus .failed)], .depleted)

def plainConfig : Config where
  split text := [text]

theorem titled_t : "T" ≠ "" := by decide

/-- A job whose texts are translated and whose messages arrive. -/
def plainEnv (jobId : String) : Env where
  jobId := some jobId
  llm _ _ := some { title := "T", summary := "S", conclusion := "C", titled := titled_t }
  telegram _ _ _ := .ok
  lag _ := 0
  now := "2024-05-01T10:00:00"

end Publisher
