import RankLens.Admission
import RankLens.JsonValue

namespace RankLens

/-- The parts of the standard library the node agent reads captures with: `bytes.TrimSpace`
leaves nothing, and `json.Unmarshal` into a map. -/
structure Go where
  blank : Bytes → Bool
  unmarshal : Bytes → Option (List (String × JsonValue))

namespace Agent

def maxRecordBytes : Nat := 1 <<< 20

def maxSummaryBytes : Nat := 1 <<< 20

def maxSegmentBytes : Nat := 8 <<< 20

/-- A configuration `newAgent` accepts. -/
structure Config where
  clusterId : String
  attemptId : String
  producerId : String
  deletionGeneration : Nat
  maxSpoolBytes : Nat
  minSpoolFreeBytes : Nat
  maxAgentMemoryBytes : Nat
  identities : clusterId ≠ "" ∧ attemptId ≠ "" ∧ producerId ≠ ""
  generation : deletionGeneration < 2 ^ 64
  budget : 0 < maxSpoolBytes ∧ maxSpoolBytes < 2 ^ 63

structure FileCursor where
  offset : Nat
  digest : String
deriving DecidableEq, Repr

/-- The agent's state. What a map does not hold reads as the zero value. -/
structure State where
  transportEpoch : String
  nextSequence : String → Nat
  files : String → FileCursor

structure NodeBudgetSnapshot where
  agentMemoryBytes : Nat
  maxAgentMemoryBytes : Nat
  spoolFreeBytes : Nat
  minSpoolFreeBytes : Nat
  maxSpoolBytes : Nat
deriving DecidableEq, Repr

structure SegmentUpload where
  envelopeMajor : Nat
  clusterId : String
  attemptId : String
  producerId : String
  transportEpoch : String
  streamId : String
  firstSequence : Nat
  lastSequence : Nat
  recordCount : Nat
  deletionGeneration : Nat
  compression : String
  contentType : String
  expandedSizeBytes : Nat
  payloadSha256 : String
  payloadBase64 : String
  nodeBudget : NodeBudgetSnapshot
deriving DecidableEq, Repr

def NodeBudgetSnapshot.toJson (b : NodeBudgetSnapshot) : JsonValue :=
  .object [("agent_memory_bytes", .number b.agentMemoryBytes),
    ("max_agent_memory_bytes", .number b.maxAgentMemoryBytes),
    ("spool_free_bytes", .number b.spoolFreeBytes),
    ("min_spool_free_bytes", .number b.minSpoolFreeBytes),
    ("max_spool_bytes", .number b.maxSpoolBytes)]

def SegmentUpload.members (u : SegmentUpload) : List (String × JsonValue) :=
  [("envelope_major", .number u.envelopeMajor), ("cluster_id", .string u.clusterId),
    ("attempt_id", .string u.attemptId), ("producer_id", .string u.producerId),
    ("transport_epoch", .string u.transportEpoch), ("stream_id", .string u.streamId),
    ("first_sequence", .number u.firstSequence), ("last_sequence", .number u.lastSequence),
    ("record_count", .number u.recordCount),
    ("deletion_generation", .number u.deletionGeneration),
    ("compression", .string u.compression), ("content_type", .string u.contentType),
    ("expanded_size_bytes", .number u.expandedSizeBytes),
    ("payload_sha256", .string u.payloadSha256), ("payload_base64", .string u.payloadBase64),
    ("node_budget", u.nodeBudget.toJson)]

def SegmentUpload.toJson (u : SegmentUpload) : JsonValue := .object u.members

def SegmentUpload.encoded (u : SegmentUpload) : Bytes := u.toJson.encode

def base64Char (n : Nat) : Char :=
  if n < 26 then Char.ofNat (65 + n)
  else if n < 52 then Char.ofNat (71 + n)
  else if n < 62 then Char.ofNat (n - 4)
  else if n = 62 then '+'
  else '/'

/-- `base64.StdEncoding.EncodeToString`. -/
def b64encode : Bytes → List Char
  | [] => []
  | [a] =>
    let n := a.toNat * 65536
    [base64Char (n / 262144), base64Char (n / 4096 % 64), '=', '=']
  | [a, b] =>
    let n := a.toNat * 65536 + b.toNat * 256
    [base64Char (n / 262144), base64Char (n / 4096 % 64), base64Char (n / 64 % 64), '=']
  | a :: b :: c :: rest =>
    let n := a.toNat * 65536 + b.toNat * 256 + c.toNat
    base64Char (n / 262144) :: base64Char (n / 4096 % 64) :: base64Char (n / 64 % 64) ::
      base64Char (n % 64) :: b64encode rest

/-- The parts of the name of a pending segment. The numbers are written with twenty digits. -/
structure SegmentName where
  streamDigest : String
  first : Nat
  last : Nat
deriving DecidableEq, Repr

structure PendingFile where
  name : SegmentName
  upload : SegmentUpload

structure ReceiptFile where
  receiptId : Uuid
  body : DurableReceipt

/-- The spool directory. `strays` are the bytes of the temporary files crashes left behind
among the pending segments. -/
structure Spool where
  pending : Table PendingFile.name
  strays : Nat
  receipts : Table ReceiptFile.receiptId
  saved : Option State

inductive Error where
  | oversized
  | measure (message : String)
  | memoryBudget (used limit : Nat)
  | freeBudget (free required : Nat)
  | different
  | quota (used limit : Nat)
  | os (message : String)
  | recordTooLong
  | invalidEvent
  | invalidSummary (file : String)
  | exceeds (file : String) (limit : Nat)
  | truncated (file : String)
deriving DecidableEq, Repr

def Error.message : Error → String
  | oversized => "sealed segment exceeds 8 MiB admission budget"
  | measure m => s!"measure spool filesystem free space: {m}"
  | memoryBudget used limit => s!"agent memory budget exceeded: used={used} limit={limit}"
  | freeBudget free required =>
    s!"spool filesystem free budget violated: free={free} required={required}"
  | different => "existing spool range has different content"
  | quota used limit => s!"spool quota exceeded: used={used} limit={limit}"
  | os m => m
  | recordTooLong => "event record exceeds 1 MiB"
  | invalidEvent => "invalid event JSON"
  | invalidSummary file => s!"invalid summary {file}"
  | exceeds file limit => s!"{file} exceeds {limit}-byte limit"
  | truncated file => s!"capture file {file} was truncated; refusing identity reuse"

/-- How `writeAtomic` ends. A failed write may have landed, and a crash may leave the
temporary file. -/
inductive WriteOutcome where
  | done
  | error (message : String) (landed : Bool)
  | crash (landed : Bool) (stray : Nat)
deriving DecidableEq, Repr

/-- What the machine does while one entry is worked on. -/
structure Weather where
  memory : Nat
  free : Except String Nat
  source : Option String
  spool : Option String
  write : WriteOutcome
  save : WriteOutcome

def Weather.calm (memory free : Nat) : Weather := ⟨memory, .ok free, none, none, .done, .done⟩

inductive Ended where
  | ok
  | failed (e : Error)
  | crashed
deriving DecidableEq, Repr

variable (env : Env) (go : Go) (config : Config)

def measureNodeBudgets (w : Weather) : Except Error NodeBudgetSnapshot :=
  match w.free with
  | .error m => .error (.measure m)
  | .ok free => .ok ⟨w.memory, config.maxAgentMemoryBytes, free, config.minSpoolFreeBytes,
      config.maxSpoolBytes⟩

def enforceNodeBudgets (w : Weather) : Except Error NodeBudgetSnapshot :=
  match measureNodeBudgets config w with
  | .error e => .error e
  | .ok snapshot =>
    if 0 < config.maxAgentMemoryBytes ∧ config.maxAgentMemoryBytes < snapshot.agentMemoryBytes then
      .error (.memoryBudget snapshot.agentMemoryBytes config.maxAgentMemoryBytes)
    else if 0 < config.minSpoolFreeBytes ∧ snapshot.spoolFreeBytes < config.minSpoolFreeBytes then
      .error (.freeBudget snapshot.spoolFreeBytes config.minSpoolFreeBytes)
    else .ok snapshot

/-- The envelope `spoolPayload` seals. Sequence numbers are unsigned 64-bit numbers. -/
def segmentUpload (state : State) (streamId : String) (payload : Bytes) (records : Nat)
    (nodeBudget : NodeBudgetSnapshot) : SegmentUpload where
  envelopeMajor := 2
  clusterId := config.clusterId
  attemptId := config.attemptId
  producerId := config.producerId
  transportEpoch := state.transportEpoch
  streamId := streamId
  firstSequence := state.nextSequence streamId
  lastSequence := (state.nextSequence streamId + records - 1) % 2 ^ 64
  recordCount := records
  deletionGeneration := config.deletionGeneration
  compression := "identity"
  contentType := "application/x-ndjson"
  expandedSizeBytes := payload.length
  payloadSha256 := env.sha256 payload
  payloadBase64 := String.ofList (b64encode payload)
  nodeBudget := nodeBudget

def streamDigest (streamId : String) : String :=
  String.ofList ((env.sha256 streamId.toUTF8.toList).toList.take 8)

def segmentName (u : SegmentUpload) : SegmentName :=
  ⟨streamDigest env u.streamId, u.firstSequence, u.lastSequence⟩

def sizes (pending : Table PendingFile.name) : Nat :=
  (pending.rows.map (fun p => p.upload.encoded.length)).sum

/-- The bytes in the pending directory, at most the limit. -/
def directoryBytes (spool : Spool) (limit : Nat) : Nat :=
  min (sizes spool.pending + spool.strays) limit

def advance (state : State) (u : SegmentUpload) : State :=
  { state with
    nextSequence :=
      Function.update state.nextSequence u.streamId ((u.lastSequence + 1) % 2 ^ 64) }

def store (spool : Spool) (u : SegmentUpload) : Spool :=
  { spool with pending := spool.pending.insert ⟨segmentName env u, u⟩ }

def spoolSegment (w : Weather) (u : SegmentUpload) (state : State) (spool : Spool) :
    Spool × State × Ended :=
  match spool.pending.get (segmentName env u) with
  | some existing =>
    if existing.upload.encoded ≠ u.encoded then (spool, state, .failed .different)
    else (spool, advance state u, .ok)
  | none =>
    let used := directoryBytes spool config.maxSpoolBytes
    if config.maxSpoolBytes - used < u.encoded.length then
      (spool, state, .failed (.quota used config.maxSpoolBytes))
    else
      match w.write with
      | .done => (store env spool u, advance state u, .ok)
      | .error m landed =>
        (if landed then store env spool u else spool, state, .failed (.os m))
      | .crash landed stray =>
        let spool := if landed then store env spool u else spool
        ({ spool with strays := spool.strays + stray }, state, .crashed)

def spoolPayload (w : Weather) (streamId : String) (payload : Bytes) (records : Nat)
    (state : State) (spool : Spool) : Spool × State × Ended :=
  if records = 0 ∨ payload = [] then (spool, state, .ok)
  else if maxSegmentBytes < payload.length then (spool, state, .failed .oversized)
  else
    match enforceNodeBudgets config w with
    | .error e => (spool, state, .failed e)
    | .ok budget =>
      match w.spool with
      | some m => (spool, state, .failed (.os m))
      | none => spoolSegment env config w
          (segmentUpload env config state streamId payload records budget) state spool

/-- The line of a rank summary file. The encoder writes the keys of a map in order. -/
def compactSummary (file : String) (content : Bytes) : Except Error Bytes :=
  match go.unmarshal content with
  | none => .error (.invalidSummary file)
  | some summary => .ok ((JsonValue.object [("payload", .object summary),
      ("record_kind", .string "rank_summary_file"), ("source_file", .string file)]).encode ++ [10])

/-- What stands before the last line end, and the line end. -/
def completePrefix (content : Bytes) : Bytes :=
  (content.reverse.dropWhile (fun b => b != 10)).reverse

/-- The pieces between line ends, with the current one reversed in `line`. -/
def splitLines (line : Bytes) : Bytes → List Bytes
  | [] => [line.reverse]
  | b :: rest => if b = 10 then line.reverse :: splitLines [] rest else splitLines (b :: line) rest

def countEvents : List Bytes → Except Error Nat
  | [] => .ok 0
  | line :: lines =>
    if go.blank line then countEvents lines
    else if maxRecordBytes < line.length then .error .recordTooLong
    else if (go.unmarshal line).isNone then .error .invalidEvent
    else (countEvents lines).map (fun n => n + 1)

def completeNDJSON (content : Bytes) : Except Error (Bytes × Nat) :=
  let complete := completePrefix content
  (countEvents go (splitLines [] complete)).map (fun count => (complete, count))

def saveState (outcome : WriteOutcome) (state : State) (spool : Spool) : Spool × State × Ended :=
  match outcome with
  | .done => ({ spool with saved := some state }, state, .ok)
  | .error m landed =>
    (if landed then { spool with saved := some state } else spool, state, .failed (.os m))
  | .crash landed _ =>
    (if landed then { spool with saved := some state } else spool, state, .crashed)

def setCursor (state : State) (name : String) (cursor : FileCursor) : State :=
  { state with files := Function.update state.files name cursor }

/-- Spool the payload of an entry, move its cursor and save. -/
def spoolEntry (w : Weather) (name streamId : String) (payload : Bytes) (records : Nat)
    (cursor : FileCursor) (state : State) (spool : Spool) : Spool × State × Ended :=
  match spoolPayload env config w streamId payload records state spool with
  | (spool, state, .ok) => saveState w.save (setCursor state name cursor) spool
  | (spool, state, ended) => (spool, state, ended)

def collectSummary (w : Weather) (name : String) (content : Bytes) (state : State)
    (spool : Spool) : Spool × State × Ended :=
  let cursor := state.files name
  if maxSummaryBytes < content.length then
    (spool, state, .failed (.exceeds name maxSummaryBytes))
  else if cursor.digest = env.sha256 content then (spool, state, .ok)
  else
    match compactSummary go name content with
    | .error e => (spool, state, .failed e)
    | .ok payload => spoolEntry env config w name "rank-summary" payload 1
        { cursor with digest := env.sha256 content } state spool

def collectEvents (w : Weather) (name : String) (content : Bytes) (state : State)
    (spool : Spool) : Spool × State × Ended :=
  let cursor := state.files name
  if content.length < cursor.offset then (spool, state, .failed (.truncated name))
  else
    match completeNDJSON go ((content.drop cursor.offset).take (8 * 1024 * 1024)) with
    | .error e => (spool, state, .failed e)
    | .ok (payload, records) =>
      if records = 0 then (spool, state, .ok)
      else spoolEntry env config w name "mpi-events" payload records
        { cursor with offset := cursor.offset + payload.length } state spool

def hasSuffix (name suffix : String) : Bool := suffix.toList.isSuffixOf name.toList

/-- One entry of the capture directory, with the content its read finds. -/
def collectEntry (w : Weather) (name : String) (content : Bytes) (state : State)
    (spool : Spool) : Spool × State × Ended :=
  match w.source with
  | some m => (spool, state, .failed (.os m))
  | none =>
    if hasSuffix name "-summary.json" then
      collectSummary env go config w name content state spool
    else if hasSuffix name "-events.jsonl" then
      collectEvents env go config w name content state spool
    else (spool, state, .ok)

end Agent

end RankLens
