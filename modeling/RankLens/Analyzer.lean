import RankLens.Canonical

namespace RankLens

namespace Analyzer

/-- How `json.loads` fails: with a decode error, with another `ValueError`, or for its nesting. -/
inductive JsonError where
  | decode (msg : String)
  | value (message : String)
  | recursion
deriving DecidableEq, Repr

/-- What the analyzer leaves to its interpreter: `json.loads` of a string, `int` of one, the number
a float is, how many containers `str` and the copies of a result can open, and `repr` and the
formats of floats in texts. -/
structure Interpreter where
  loads : PyStr → Except JsonError PyValue
  int : String → Option Int
  floatValue : List Char → ℚ
  room : Nat
  repr : PyValue → String
  fixed : ℚ → String
  percent : ℚ → String

inductive Escape where
  | telemetry (message : String)
  | value (message : String)
  | unicodeDecode
  | typeError
  | recursion
  | overflow
deriving DecidableEq, Repr

inductive Content where
  | unreadable (message : String)
  | undecodable
  | text (s : PyStr)
deriving DecidableEq, Repr

structure File where
  name : String
  content : Content
deriving DecidableEq, Repr

/-- A capture directory: its summaries and event files in the order of their paths. -/
structure Capture where
  directory : String
  summaries : List File
  manifest : Option Content
  events : List File
deriving DecidableEq, Repr

abbrev Dict := List (PyStr × PyValue)

def get (data : Dict) (key : String) : Option PyValue := data.lookup (PyStr.ofString key)

section floats

def halfEven (x : ℚ) : Int :=
  let below := ⌊x⌋
  let rest := x - below
  if rest < 1 / 2 then below
  else if 1 / 2 < rest then below + 1
  else if below % 2 = 0 then below else below + 1

/-- The nearest float to a number that is not negative, ties to even. -/
def float (x : ℚ) : ℚ :=
  let unit : ℚ := 2 ^ (max (Int.log 2 x) (-1022) - 52)
  halfEven (x / unit) * unit

/-- `a / b` of integers. -/
def trueDiv (a b : Nat) : Except Escape ℚ :=
  if (2 ^ 1024 - 2 ^ 970) * b ≤ a then .error .overflow else .ok (float ((a : ℚ) / b))

end floats

structure OperationStats where
  calls : Nat
  durationNs : Nat
  payloadBytes : Nat
deriving DecidableEq, Repr

structure RankSummary where
  rank : Nat
  worldSize : Nat
  hostname : PyStr
  pid : Nat
  runtimeNs : Nat
  mpiTimeNs : Nat
  mpiCalls : Nat
  bytesSent : Nat
  bytesReceived : Nat
  operations : List (PyStr × OperationStats)
  synthetic : Bool
  complete : Bool
  context : List (PyStr × PyStr)
deriving DecidableEq, Repr

section summaries

variable (py : Interpreter)

def requiredInt (data : Dict) (key : String) (path : String) : Except Escape Nat :=
  match get data key with
  | some (.int n) =>
    if n < 0 then .error (.telemetry (path ++ ": '" ++ key ++ "' must be a non-negative integer"))
    else .ok n.toNat
  | _ => .error (.telemetry (path ++ ": '" ++ key ++ "' must be a non-negative integer"))

def raiseUnless (p : Prop) [Decidable p] (e : Escape) : Except Escape Unit :=
  if p then .ok () else .error e

def isOneOf (names : List String) : Option PyValue → Bool
  | some (.str s) => names.any (fun name => PyStr.ofString name = s)
  | _ => false

/-- Looking the value up in a set of strings: what cannot be hashed raises. -/
def inSet (names : List String) : Option PyValue → Except Escape Bool
  | some (.list _) => .error .typeError
  | some (.dict _) => .error .typeError
  | v => .ok (isOneOf names v)

def isBool : Option PyValue → Bool
  | some (.bool _) => true
  | _ => false

/-- `schema_version` when it is the integer 1 or 2. -/
def supported : Option PyValue → Option Int
  | some (.int n) => if n = 1 ∨ n = 2 then some n else none
  | _ => none

def versionChecks (data : Dict) (path : String) : Except Escape Unit := do
  raiseUnless (isBool (get data "complete") = true)
    (.telemetry (path ++ ": version 2 complete must be boolean"))
  let known ← inSet ["collecting", "pre_finalize", "finalized", "finalize_failed"]
    (get data "capture_state")
  raiseUnless (known = true) (.telemetry (path ++ ": invalid version 2 capture_state " ++
    py.repr ((get data "capture_state").getD .none)))
  let _ ← requiredInt data "finalize_return_code" path
  let _ ← requiredInt data "request_completions" path
  let _ ← requiredInt data "failed_calls" path
  pure ()

/-- The operations read so far, and the calls of either kind. -/
structure Tally where
  operations : List (PyStr × OperationStats)
  apiOperationCalls : Nat
  completionCalls : Nat
deriving DecidableEq, Repr

def setItem {α : Type} (xs : List (PyStr × α)) (key : PyStr) (x : α) : List (PyStr × α) :=
  if (xs.lookup key).isSome then xs.map (fun m => if m.1 = key then (key, x) else m)
  else xs ++ [(key, x)]

def kindCalls (schemaVersion : Int) (path : String) (name : PyStr) (stats : Dict) (t : Tally) :
    Except Escape Tally :=
  if schemaVersion = 2 then do
    let known ← inSet ["api_call", "request_completion"] (get stats "record_kind")
    raiseUnless (known = true) (.telemetry (path ++ ": operation " ++ py.repr (.str name) ++
      " has invalid record_kind"))
    let calls ← requiredInt stats "calls" path
    if isOneOf ["request_completion"] (get stats "record_kind") = true then
      pure { t with completionCalls := t.completionCalls + calls }
    else pure { t with apiOperationCalls := t.apiOperationCalls + calls }
  else pure t

def readOperation (schemaVersion : Int) (path : String) (t : Tally) (entry : PyStr × PyValue) :
    Except Escape Tally :=
  match entry.2 with
  | .dict stats => do
    let t ← kindCalls py schemaVersion path entry.1 stats t
    let calls ← requiredInt stats "calls" path
    let durationNs ← requiredInt stats "duration_ns" path
    let payloadBytes ← requiredInt stats "payload_bytes" path
    pure { t with operations := setItem t.operations entry.1 ⟨calls, durationNs, payloadBytes⟩ }
  | _ => .error (.telemetry (path ++ ": invalid operation entry"))

def totalsChecks (data : Dict) (path : String) (t : Tally) : Except Escape Unit := do
  let mpiCalls ← requiredInt data "mpi_calls" path
  raiseUnless (mpiCalls = t.apiOperationCalls)
    (.telemetry (path ++ ": mpi_calls does not match api_call operation records"))
  let completions ← requiredInt data "request_completions" path
  raiseUnless (completions = t.completionCalls)
    (.telemetry (path ++ ": request_completions does not match request_completion records"))

def stringValues : Dict → Option (List (PyStr × PyStr))
  | [] => some []
  | (key, .str s) :: rest => (stringValues rest).map (fun ms => (key, s) :: ms)
  | _ :: _ => none

def contextOf : Option PyValue → Option (List (PyStr × PyStr))
  | none => some []
  | some (.dict members) => stringValues members
  | _ => none

def flag (default : Bool) : Option PyValue → Bool
  | some (.bool b) => b
  | _ => default

def parseSummary (path : String) (data : Dict) : Except Escape RankSummary :=
  match supported (get data "schema_version") with
  | none => .error (.telemetry (path ++ ": unsupported schema_version " ++
      py.repr ((get data "schema_version").getD .none)))
  | some schemaVersion => do
    if schemaVersion = 2 then versionChecks py data path else pure ()
    match get data "operations" with
    | some (.dict rawOperations) => do
      let t ← rawOperations.foldlM (readOperation py schemaVersion path) ⟨[], 0, 0⟩
      if schemaVersion = 2 then totalsChecks data path t else pure ()
      match get data "hostname" with
      | some (.str hostname) => do
        let rank ← requiredInt data "rank" path
        let worldSize ← requiredInt data "world_size" path
        raiseUnless (worldSize ≠ 0 ∧ rank < worldSize)
          (.telemetry (path ++ ": rank must be within a positive world_size"))
        raiseUnless ((get data "synthetic").isNone ∨ isBool (get data "synthetic"))
          (.telemetry (path ++ ": synthetic must be boolean"))
        raiseUnless ((get data "complete").isNone ∨ isBool (get data "complete"))
          (.telemetry (path ++ ": complete must be boolean"))
        match contextOf (get data "context") with
        | none => .error (.telemetry (path ++ ": context must contain string values"))
        | some context => do
          let pid ← requiredInt data "pid" path
          let runtimeNs ← requiredInt data "runtime_ns" path
          let mpiTimeNs ← requiredInt data "mpi_time_ns" path
          let mpiCalls ← requiredInt data "mpi_calls" path
          let bytesSent ← requiredInt data "bytes_sent" path
          let bytesReceived ← requiredInt data "bytes_received" path
          pure ⟨rank, worldSize, hostname, pid, runtimeNs, mpiTimeNs, mpiCalls, bytesSent,
            bytesReceived, t.operations, flag false (get data "synthetic"),
            flag true (get data "complete"), context⟩
      | _ => .error (.telemetry (path ++ ": hostname must be a string"))
    | _ => .error (.telemetry (path ++ ": operations must be an object"))

def loadSummary (directory : String) (file : File) : Except Escape RankSummary :=
  let path := directory ++ "/" ++ file.name
  match file.content with
  | .unreadable message => .error (.telemetry ("cannot read " ++ path ++ ": " ++ message))
  | .undecodable => .error (.telemetry ("cannot read " ++ path ++ ": invalid text"))
  | .text s =>
    match py.loads s with
    | .error (.decode msg) => .error (.telemetry ("cannot read " ++ path ++ ": " ++ msg))
    | .error (.value message) => .error (.value message)
    | .error .recursion => .error .recursion
    | .ok (.dict data) => parseSummary py path data
    | .ok _ => .error (.telemetry (path ++ ": summary root must be an object"))

def loadSummaries (capture : Capture) : Except Escape (List RankSummary) := do
  raiseUnless (capture.summaries ≠ []) (.telemetry
    ("no rank-*-summary.json files found in " ++ capture.directory))
  let summaries ← capture.summaries.mapM (loadSummary py capture.directory)
  raiseUnless ((summaries.map RankSummary.rank).Nodup)
    (.telemetry ("duplicate rank summaries found in " ++ capture.directory))
  raiseUnless (((summaries.map RankSummary.worldSize).dedup).length = 1)
    (.telemetry ("inconsistent world_size values in " ++ capture.directory))
  pure summaries

end summaries

/-- One of the 50 intervals of the timeline. -/
structure Bucket where
  timestampNs : Nat
  calls : Nat
  durationNs : Nat
deriving DecidableEq, Repr

/-- What the event files have added so far. The edges are in the order they were first seen, with
their bytes and messages. -/
structure Evidence where
  warnings : List String
  timeline : List Bucket
  edges : List ((Nat × Nat) × (Nat × Nat))
deriving DecidableEq, Repr

def warn (warnings : List String) (warning : String) : List String :=
  if warnings.length < 100 then warnings ++ [warning] else warnings

/-- The rank in the name of an event file, as text. -/
def rankField (name : String) : Option String :=
  match name.toList.splitOn '-' with
  | _ :: field :: _ => some (String.ofList field)
  | _ => none

/-- The lines of a text that is read with universal newlines. -/
def linesFrom (line : PyStr) : PyStr → List PyStr
  | [] => if line = [] then [] else [line]
  | 13 :: 10 :: rest => (line ++ [10]) :: linesFrom [] rest
  | 13 :: rest => (line ++ [10]) :: linesFrom [] rest
  | 10 :: rest => (line ++ [10]) :: linesFrom [] rest
  | c :: rest => linesFrom (line ++ [c]) rest

def textLines (s : PyStr) : List PyStr := linesFrom [] s

section depth

-- The value nests at most `room` containers deep.
mutual

def shallow : Nat → PyValue → Bool
  | 0, .list _ => false
  | 0, .dict _ => false
  | room + 1, .list xs => shallowItems room xs
  | room + 1, .dict members => shallowMembers room members
  | _, _ => true

def shallowItems : Nat → List PyValue → Bool
  | _, [] => true
  | room, x :: xs => shallow room x && shallowItems room xs

def shallowMembers : Nat → List (PyStr × PyValue) → Bool
  | _, [] => true
  | room, (_, x) :: rest => shallow room x && shallowMembers room rest

end

end depth

section events

variable (py : Interpreter)

def equalsInt (n : Int) : Option PyValue → Bool
  | some (.int m) => m = n
  | some (.bool b) => (if b then 1 else 0) = n
  | some (.float repr) => py.floatValue repr = n
  | _ => false

def completeSuffix : PyStr := PyStr.ofString "_complete"

/-- `str(operation).endswith("_complete")`, which only a string can be true of. -/
def isCompletion : Option PyValue → Except Escape Bool
  | some (.str s) => .ok (completeSuffix.isSuffixOf s)
  | some v => if shallow py.room v then .ok false else .error .recursion
  | none => .ok false

def hasKind (completion : Bool) : Option PyValue → Bool
  | some (.str s) =>
    s = PyStr.ofString (if completion then "request_completion" else "api_call")
  | _ => false

/-- The sequence of an event that goes on after the last one. -/
def nextSequence (lastSequence : Int) : Option PyValue → Option Int
  | some (.int n) => if n < 0 ∨ n ≤ lastSequence then none else some n
  | _ => none

/-- Why a line is skipped. -/
inductive Reason where
  | malformed (msg : String)
  | nonObject
  | schema
  | rank
  | sequence
  | kind
deriving DecidableEq, Repr

def Reason.text (place : String) : Reason → String
  | .malformed msg => "ignored malformed " ++ place ++ ": " ++ msg
  | .nonObject => "ignored non-object event in " ++ place
  | .schema => "ignored unsupported event schema in " ++ place
  | .rank => "ignored rank-mismatched event in " ++ place
  | .sequence => "ignored invalid event sequence in " ++ place
  | .kind => "ignored event with inconsistent record_kind in " ++ place

/-- A line that is skipped with a warning, or the event it holds, and the last sequence after. -/
inductive Reading where
  | ignored (reason : Reason) (lastSequence : Int)
  | event (event : Dict) (lastSequence : Int)

def readSequenced (lastSequence : Int) (event : Dict) : Except Escape Reading :=
  match nextSequence lastSequence (get event "sequence") with
  | none => .ok (.ignored .sequence lastSequence)
  | some sequence =>
    match isCompletion py (get event "operation") with
    | .error e => .error e
    | .ok completion =>
      if hasKind completion (get event "record_kind") = true then .ok (.event event sequence)
      else .ok (.ignored .kind sequence)

/-- The checks a line has to pass before it is counted. -/
def readLine (expectedRank lastSequence : Int) (line : PyStr) : Except Escape Reading :=
  match py.loads line with
  | .error (.decode msg) => .ok (.ignored (.malformed msg) lastSequence)
  | .error (.value message) => .error (.value message)
  | .error .recursion => .error .recursion
  | .ok (.dict event) =>
    match supported (get event "schema_version") with
    | none => .ok (.ignored .schema lastSequence)
    | some schemaVersion =>
      if equalsInt py expectedRank (get event "rank") = false then
        .ok (.ignored .rank lastSequence)
      else if schemaVersion = 2 then readSequenced py lastSequence event
      else .ok (.event event lastSequence)
  | .ok _ => .ok (.ignored .nonObject lastSequence)

/-- `event.get("error_code", 0) != 0`. -/
def failed (event : Dict) : Bool :=
  match get event "error_code" with
  | none => false
  | some v => !equalsInt py 0 (some v)

/-- The bucket of an event with a timestamp and a duration, and the duration. -/
def bucketOf (runtimeMaxNs : Nat) (event : Dict) : Option (Nat × Nat) :=
  match get event "timestamp_ns", get event "duration_ns" with
  | some (.int timestamp), some (.int duration) =>
    if 0 ≤ timestamp ∧ 0 ≤ duration then
      some (min 49 (timestamp.toNat * 50 / max runtimeMaxNs 1), duration.toNat)
    else none
  | _, _ => none

def count (timeline : List Bucket) : Option (Nat × Nat) → List Bucket
  | some (bucket, duration) => timeline.modify bucket (fun b =>
      { b with
        calls := b.calls + 1
        durationNs := b.durationNs + duration })
  | none => timeline

/-- The edge of a send with valid ends and payload, and its bytes. -/
def edgeOf (worldSize : Nat) (event : Dict) : Option ((Nat × Nat) × Nat) :=
  match get event "rank", get event "peer", get event "payload_bytes" with
  | some (.int source), some (.int destination), some (.int payloadBytes) =>
    if (0 ≤ source ∧ source < worldSize) ∧ (0 ≤ destination ∧ destination < worldSize) ∧
        0 ≤ payloadBytes then
      some ((source.toNat, destination.toNat), payloadBytes.toNat)
    else none
  | _, _, _ => none

def addEdge (edges : List ((Nat × Nat) × (Nat × Nat))) (key : Nat × Nat) (bytes : Nat) :
    List ((Nat × Nat) × (Nat × Nat)) :=
  if (edges.lookup key).isSome then
    edges.map (fun e => if e.1 = key then (key, (e.2.1 + bytes, e.2.2 + 1)) else e)
  else edges ++ [(key, (bytes, 1))]

def countSuccess (worldSize runtimeMaxNs : Nat) (place : String) (event : Dict) (s : Evidence) :
    Except Escape Evidence :=
  let s := { s with timeline := count s.timeline (bucketOf runtimeMaxNs event) }
  match inSet ["MPI_Send", "MPI_Isend"] (get event "operation") with
  | .error e => .error e
  | .ok false => .ok s
  | .ok true =>
    match edgeOf worldSize event with
    | some (key, bytes) => .ok { s with edges := addEdge s.edges key bytes }
    | none => .ok { s with warnings := warn s.warnings ("ignored invalid send event in " ++ place) }

def countEvent (worldSize runtimeMaxNs : Nat) (place : String) (event : Dict) (s : Evidence) :
    Except Escape Evidence :=
  if failed py event = true then .ok s else countSuccess worldSize runtimeMaxNs place event s

/-- The lines of one file, from a line number on. -/
def loadLines (worldSize runtimeMaxNs : Nat) (name : String) (expectedRank : Int) :
    Nat → Int → List PyStr → Evidence → Except Escape Evidence
  | _, _, [], s => .ok s
  | lineNumber, lastSequence, line :: rest, s =>
    let place := name ++ ":" ++ toString lineNumber
    match readLine py expectedRank lastSequence line with
    | .error e => .error e
    | .ok (.ignored reason last) =>
      loadLines worldSize runtimeMaxNs name expectedRank (lineNumber + 1) last rest
        { s with warnings := warn s.warnings (reason.text place) }
    | .ok (.event event last) =>
      match countEvent py worldSize runtimeMaxNs place event s with
      | .error e => .error e
      | .ok s => loadLines worldSize runtimeMaxNs name expectedRank (lineNumber + 1) last rest s

def expectedRank (file : File) : Option Int := (rankField file.name).bind py.int

/-- One event file. Bytes that are no text raise before the file is through, whatever the lines
before them have come to. -/
def loadFile (worldSize runtimeMaxNs : Nat) (s : Evidence) (file : File) :
    Except Escape Evidence :=
  match expectedRank py file with
  | none => .ok { s with
      warnings := s.warnings ++ ["ignored event file with invalid rank name: " ++ file.name] }
  | some rank =>
    match file.content with
    | .unreadable message => .ok { s with
        warnings := s.warnings ++ ["could not read " ++ file.name ++ ": " ++ message] }
    | .undecodable => .error .unicodeDecode
    | .text text => loadLines py worldSize runtimeMaxNs file.name rank 1 (-1) (textLines text) s

structure CommunicationEdge where
  source : Nat
  destination : Nat
  bytes : Nat
  messages : Nat
  trafficShare : ℚ
deriving DecidableEq

def edgeShare (totalBytesSent : Nat) (e : (Nat × Nat) × (Nat × Nat)) :
    Except Escape CommunicationEdge := do
  let share ← trueDiv e.2.1 (if totalBytesSent = 0 then 1 else totalBytesSent)
  pure ⟨e.1.1, e.1.2, e.2.1, e.2.2, share⟩

def loadCommunicationEdges (capture : Capture) (totalBytesSent worldSize runtimeMaxNs : Nat)
    (s : Evidence) : Except Escape (Evidence × List CommunicationEdge) := do
  let s ← capture.events.foldlM (loadFile py worldSize runtimeMaxNs) s
  let edges ← s.edges.mapM (edgeShare totalBytesSent)
  pure (s, edges.mergeSort (fun a b => b.bytes ≤ a.bytes))

end events

section analysis

/-- `totals[name] += stats` over all summaries. -/
def addStats (totals : List (PyStr × OperationStats)) (entry : PyStr × OperationStats) :
    List (PyStr × OperationStats) :=
  let old := (totals.lookup entry.1).getD ⟨0, 0, 0⟩
  setItem totals entry.1 ⟨old.calls + entry.2.calls, old.durationNs + entry.2.durationNs,
    old.payloadBytes + entry.2.payloadBytes⟩

def aggregateOperations (summaries : List RankSummary) : List (PyStr × OperationStats) :=
  ((summaries.flatMap RankSummary.operations).foldl addStats []).insertionSort
    (fun a b => a.1 ≤ b.1)

structure Finding where
  severity : String
  category : String
  title : String
  evidence : String
  recommendation : String
deriving DecidableEq, Repr

structure Coverage where
  summary : String
  eventDetail : String
  requestLifecycle : String
  partitionedRequests : PyStr
  reasons : List String
deriving DecidableEq, Repr

structure RankRow where
  rank : Nat
  hostname : PyStr
  runtimeNs : Nat
  mpiTimeNs : Nat
  context : List (PyStr × PyStr)
  complete : Bool
deriving DecidableEq, Repr

structure AnalysisResult where
  source : String
  worldSize : Nat
  ranksObserved : Nat
  runtimeMedianNs : Nat
  runtimeMaxNs : Nat
  mpiTimeNs : Nat
  aggregateRuntimeNs : Nat
  mpiFraction : ℚ
  imbalanceRatio : ℚ
  stragglerThreshold : ℚ
  stragglerRanks : List Nat
  operations : List (PyStr × OperationStats)
  communicationEdges : List CommunicationEdge
  rankRuntimes : List (Nat × Nat)
  findings : List Finding
  warnings : List String
  coverage : Coverage
  synthetic : Bool
  complete : Bool
  metadata : Dict
  ranks : List RankRow
  timeline : List Bucket

/-- `int(statistics.median(runtimes))`. -/
def median (runtimes : List Nat) : Except Escape Nat :=
  let data := runtimes.insertionSort (· ≤ ·)
  let half := data.length / 2
  if data.length % 2 = 1 then .ok (data.getD half 0)
  else do
    let middle ← trueDiv (data.getD (half - 1) 0 + data.getD half 0) 2
    pure ⌊middle⌋.toNat

def stragglers (threshold : ℚ) (medianRuntime : Nat) :
    List RankSummary → Except Escape (List Nat)
  | [] => .ok []
  | s :: rest => do
    let late ← if 0 < medianRuntime then do
        let ratio ← trueDiv s.runtimeNs medianRuntime
        pure (decide (threshold ≤ ratio))
      else pure false
    let ranks ← stragglers threshold medianRuntime rest
    pure (if late = true then s.rank :: ranks else ranks)

/-- A context string, or what stands for one that is missing. -/
def contextGet (s : RankSummary) (key default : String) : PyStr :=
  (s.context.lookup (PyStr.ofString key)).getD (PyStr.ofString default)

def lost (summaries : List RankSummary) (key : String) : Bool :=
  summaries.any (fun s => contextGet s key "0" ≠ PyStr.ofString "0")

def writerFailed (summaries : List RankSummary) : Bool :=
  summaries.any (fun s => contextGet s "writer_failed" "" = PyStr.ofString "true")

def loadMetadata (py : Interpreter) : Option Content → Except Escape Dict
  | none => .ok []
  | some (.unreadable message) => .error (.telemetry ("cannot read run metadata: " ++ message))
  | some .undecodable => .error (.telemetry "cannot read run metadata: invalid text")
  | some (.text s) =>
    match py.loads s with
    | .error (.decode msg) => .error (.telemetry ("cannot read run metadata: " ++ msg))
    | .error (.value message) => .error (.telemetry ("cannot read run metadata: " ++ message))
    | .error .recursion => .error .recursion
    | .ok (.dict metadata) => .ok metadata
    | .ok _ => .error (.telemetry "cannot read run metadata: root must be an object")

def truthy (py : Interpreter) : Option PyValue → Bool
  | none => false
  | some .none => false
  | some (.bool b) => b
  | some (.int n) => n ≠ 0
  | some (.float repr) => py.floatValue repr ≠ 0
  | some .nonfinite => true
  | some (.str s) => s ≠ []
  | some (.list xs) => !xs.isEmpty
  | some (.dict members) => !members.isEmpty

/-- The run identities of the ranks agree with each other and with `run.json`. -/
def checkRunIds (py : Interpreter) (summaries : List RankSummary) (metadata : Dict) :
    Except Escape Unit :=
  let runIds := ((summaries.map (fun s => contextGet s "run_id" "")).filter (· ≠ [])).dedup
  if 1 < runIds.length then .error (.telemetry "mixed run identities in capture")
  else if runIds ≠ [] ∧ truthy py (get metadata "run_id") = true then
    match get metadata "run_id" with
    | some (.list _) => .error .typeError
    | some (.dict _) => .error .typeError
    | some (.str s) =>
      if s ∈ runIds then .ok () else .error (.telemetry "mixed run identities in capture")
    | _ => .error (.telemetry "mixed run identities in capture")
  else .ok ()

def launcherFailed (py : Interpreter) (metadata : Dict) : Bool :=
  match get metadata "return_code" with
  | none => false
  | some v => !equalsInt py 0 (some v)

def allComplete (summaries : List RankSummary) (worldSize : Nat) : Bool :=
  summaries.length = worldSize && summaries.all RankSummary.complete

def captureWarnings (py : Interpreter) (capture : Capture) (summaries : List RankSummary)
    (worldSize mpiTime aggregateRuntime : Nat) (metadata : Dict) : List String :=
  (if summaries.length = worldSize then [] else
    ["expected " ++ toString worldSize ++ " rank summaries but found " ++
      toString summaries.length]) ++
  (if allComplete summaries worldSize then [] else
    ["capture is incomplete; runtimes and findings describe partial evidence"]) ++
  (if lost summaries "events_dropped" then
    ["event limit reached; communication edges and timeline are partial, " ++
      "operation totals remain complete"] else []) ++
  (if lost summaries "request_tracking_overflows" then
    ["request tracking limit reached; request lifecycle completion evidence is partial, " ++
      "API operation totals remain complete"] else []) ++
  (if writerFailed summaries then
    ["background event writer failed; event detail may be incomplete"] else []) ++
  (if capture.events = [] then
    ["no event streams; communication and timeline coverage unavailable"] else []) ++
  (if launcherFailed py metadata then
    ["launcher did not complete successfully; review run metadata"] else []) ++
  (if aggregateRuntime < mpiTime then
    ["summed MPI call time exceeds wall time; concurrent threads may overlap"] else [])

def coverageOf (capture : Capture) (summaries : List RankSummary) (complete rejected : Bool) :
    Coverage :=
  let dropped := lost summaries "events_dropped"
  let overflow := lost summaries "request_tracking_overflows"
  let known := summaries.all (fun s =>
    (s.context.lookup (PyStr.ofString "request_tracking_overflows")).isSome)
  let partitioned := (summaries.map (fun s => contextGet s "partitioned_requests" "unknown")).dedup
  { summary := if complete then "complete" else "partial"
    eventDetail := if capture.events = [] then "unavailable"
      else if dropped || writerFailed summaries || rejected then "partial" else "observed"
    requestLifecycle := if overflow then "partial" else if known then "observed" else "unknown"
    partitionedRequests := match partitioned with
      | [capability] => capability
      | _ => PyStr.ofString "unknown"
    reasons := (if complete then [] else ["capture_incomplete"]) ++
      (if capture.events = [] then ["event_stream_unavailable"] else []) ++
      (if dropped then ["event_limit_reached"] else []) ++
      (if writerFailed summaries then ["event_writer_failed"] else []) ++
      (if rejected then ["event_records_rejected"] else []) ++
      (if overflow then ["request_tracking_limit_reached"] else []) }

def emptyTimeline (maximumRuntime : Nat) : List Bucket :=
  (List.range 50).map (fun i => ⟨maximumRuntime * i / 50, 0, 0⟩)

end analysis

section findings

variable (py : Interpreter)

def stragglerFinding (result : AnalysisResult) : List Finding :=
  if result.stragglerRanks = [] then []
  else [{
    severity := "warning"
    category := "imbalance"
    title := "Runtime stragglers detected"
    evidence := "Ranks " ++ String.intercalate ", " (result.stragglerRanks.map toString) ++
      " ran at least " ++ py.fixed result.stragglerThreshold ++ "x the median; " ++
      "maximum/median is " ++ py.fixed result.imbalanceRatio ++ "x."
    recommendation := "Correlate these ranks with CPU affinity, NUMA locality, per-rank work, " ++
      "and node placement before changing resources." }]

/-- The finding about one operation, when it takes at least some share of the runtime. -/
def operationFinding (result : AnalysisResult) (name : String) (limit : ℚ)
    (finding : String → Finding) : Except Escape (List Finding) :=
  match result.operations.lookup (PyStr.ofString name) with
  | none => .ok []
  | some stats => do
    let share ← trueDiv stats.durationNs
      (if result.aggregateRuntimeNs = 0 then 1 else result.aggregateRuntimeNs)
    pure (if limit ≤ share then [finding (py.percent share)] else [])

def allreduceFinding (share : String) : Finding where
  severity := "warning"
  category := "collectives"
  title := "Allreduce is a major runtime component"
  evidence := "MPI_Allreduce accounts for " ++ share ++ " of aggregate rank runtime."
  recommendation := "Measure whether reductions can be fused or called less often, then " ++
    "benchmark topology-aware collective tuning with scientific output held constant."

def barrierFinding (share : String) : Finding where
  severity := "warning"
  category := "synchronization"
  title := "Barrier wait is substantial"
  evidence := "MPI_Barrier accounts for " ++ share ++ " of aggregate rank runtime."
  recommendation := "Inspect work completed immediately before each barrier; optimize the " ++
    "slowest path or remove redundant synchronization only after validating correctness."

def scalingFinding (result : AnalysisResult) : List Finding :=
  if float (1 / 2) ≤ result.mpiFraction then [{
    severity := "info"
    category := "scaling"
    title := "Communication dominates aggregate runtime"
    evidence := "Instrumented MPI calls account for " ++ py.percent result.mpiFraction ++
      " of rank time."
    recommendation := "Run a controlled rank-count sweep. Fewer ranks or larger work units may " ++
      "improve efficiency if this workload has crossed its strong-scaling limit." }]
  else []

def hotspotFinding (result : AnalysisResult) : List Finding :=
  match result.communicationEdges with
  | [] => []
  | edge :: _ =>
    if float (35 / 100) ≤ edge.trafficShare then [{
      severity := "warning"
      category := "communication"
      title := "Point-to-point traffic hotspot detected"
      evidence := "Rank " ++ toString edge.source ++ " to rank " ++ toString edge.destination ++
        " carries " ++ py.percent edge.trafficShare ++ " of observed MPI_Send payload bytes."
      recommendation := "Review decomposition and neighbor mapping, then compare " ++
        "placement-aware and baseline runs using identical workload metadata." }]
    else []

def noFinding : Finding where
  severity := "ok"
  category := "summary"
  title := "No configured rule crossed its threshold"
  evidence := "The captured operations do not show a dominant bottleneck under the current rules."
  recommendation := "Treat this as an absence of detected evidence, not proof of optimal " ++
    "performance; compare against a controlled scaling baseline."

def makeFindings (result : AnalysisResult) : Except Escape (List Finding) := do
  let allreduce ← operationFinding py result "MPI_Allreduce" (float (15 / 100)) allreduceFinding
  let barrier ← operationFinding py result "MPI_Barrier" (float (10 / 100)) barrierFinding
  let findings := stragglerFinding py result ++ allreduce ++ barrier ++
    scalingFinding py result ++ hotspotFinding py result
  pure (if findings = [] then [noFinding] else findings)

/-- What `analyze` has worked out before it reads the event files. -/
structure Overview where
  summaries : List RankSummary
  worldSize : Nat
  medianRuntime : Nat
  maximumRuntime : Nat
  stragglers : List Nat
  aggregateRuntime : Nat
  mpiTime : Nat
  totalBytesSent : Nat
  metadata : Dict

def overview (capture : Capture) (stragglerThreshold : ℚ) : Except Escape Overview := do
  raiseUnless (1 < stragglerThreshold)
    (.value "straggler_threshold must be greater than 1.0")
  let summaries ← loadSummaries py capture
  let runtimes := summaries.map RankSummary.runtimeNs
  let medianRuntime ← median runtimes
  let late ← stragglers stragglerThreshold medianRuntime summaries
  let metadata ← loadMetadata py capture.manifest
  checkRunIds py summaries metadata
  pure {
    summaries := summaries
    worldSize := (summaries.head?.map RankSummary.worldSize).getD 0
    medianRuntime := medianRuntime
    maximumRuntime := runtimes.foldr max 0
    stragglers := late.mergeSort
    aggregateRuntime := runtimes.sum
    mpiTime := (summaries.map RankSummary.mpiTimeNs).sum
    totalBytesSent := (summaries.map RankSummary.bytesSent).sum
    metadata := metadata }

def Overview.warnings (o : Overview) (capture : Capture) : List String :=
  captureWarnings py capture o.summaries o.worldSize o.mpiTime o.aggregateRuntime o.metadata

def Overview.complete (o : Overview) : Bool :=
  allComplete o.summaries o.worldSize && !launcherFailed py o.metadata

def Overview.evidence (o : Overview) (capture : Capture) : Evidence :=
  ⟨o.warnings py capture, emptyTimeline o.maximumRuntime, []⟩

def ratio (a b : Nat) : Except Escape ℚ := if b = 0 then .ok 0 else trueDiv a b

def rankRow (s : RankSummary) : RankRow :=
  ⟨s.rank, s.hostname, s.runtimeNs, s.mpiTimeNs, s.context, s.complete⟩

/-- The last part of `analyze`: the result, with the evidence of the event files. -/
def assemble (capture : Capture) (stragglerThreshold : ℚ) (o : Overview) (s : Evidence)
    (edges : List CommunicationEdge) : Except Escape AnalysisResult := do
  let mpiFraction ← ratio o.mpiTime o.aggregateRuntime
  let imbalanceRatio ← ratio o.maximumRuntime o.medianRuntime
  let rejected := decide ((o.warnings py capture).length < s.warnings.length)
  let result : AnalysisResult := {
    source := capture.directory
    worldSize := o.worldSize
    ranksObserved := o.summaries.length
    runtimeMedianNs := o.medianRuntime
    runtimeMaxNs := o.maximumRuntime
    mpiTimeNs := o.mpiTime
    aggregateRuntimeNs := o.aggregateRuntime
    mpiFraction := mpiFraction
    imbalanceRatio := imbalanceRatio
    stragglerThreshold := stragglerThreshold
    stragglerRanks := o.stragglers
    operations := aggregateOperations o.summaries
    communicationEdges := edges
    rankRuntimes := (o.summaries.map (fun s => (s.rank, s.runtimeNs))).mergeSort
      (fun a b => decide (a.1 < b.1 ∨ (a.1 = b.1 ∧ a.2 ≤ b.2)))
    findings := []
    warnings := s.warnings
    coverage := coverageOf capture o.summaries (o.complete py) rejected
    synthetic := o.summaries.any RankSummary.synthetic
    complete := o.complete py
    metadata := o.metadata
    ranks := (o.summaries.mergeSort (fun a b => decide (a.rank ≤ b.rank))).map rankRow
    timeline := s.timeline }
  let findings ← makeFindings py result
  pure { result with findings := findings }

/-- `analyze`, on a directory whose files and texts are given. -/
def analyze (capture : Capture) (stragglerThreshold : ℚ) : Except Escape AnalysisResult := do
  let o ← overview py capture stragglerThreshold
  let (s, edges) ← loadCommunicationEdges py capture o.totalBytesSent o.worldSize o.maximumRuntime
    (o.evidence py capture)
  assemble py capture stragglerThreshold o s edges

end findings

end Analyzer

end RankLens
