import RankLens.Admission
import RankLens.Analyzer

namespace RankLens

/-- The parts of the `json` module the projection uses: `loads` of one line, and the
canonical `dumps`. Each may raise. -/
structure Python where
  loads : Bytes → Except String JsonValue
  dumps : List (String × JsonValue) → Except String Bytes

structure NormalizedRow where
  attempt : AttemptKey
  receiptId : Uuid
  payloadSha256 : String
  recordIndex : Nat
  recordType : String
  schemaVersion : Option Int
  rank : Option Int
  sequence : Option Int
  operation : Option String
  recordKind : Option String
  timestampNs : Option Int
  durationNs : Option Int
  payloadBytes : Option Int
  errorCode : Option Int
  hostname : Option String
  worldSize : Option Int
  runtimeNs : Option Int
  mpiTimeNs : Option Int
  mpiCalls : Option Int
  requestCompletions : Option Int
  failedCalls : Option Int
  complete : Option Bool
  captureState : Option String
  recordJson : Bytes
deriving DecidableEq, Repr

namespace Parquet

variable (python : Python)

def integer (minimum maximum : Int) : Option JsonValue → Option Int
  | some (.number n) => if n < minimum ∨ maximum < n then none else some n
  | _ => none

/-- The default bounds of `_integer`. -/
def count : Option JsonValue → Option Int := integer 0 (2 ^ 63 - 1)

def positive : Option JsonValue → Option Int := integer 1 (2 ^ 63 - 1)

def text : Option JsonValue → Option String
  | some (.string s) => some s
  | _ => none

def flag : Option JsonValue → Option Bool
  | some (.bool b) => some b
  | _ => none

def recordType (value : List (String × JsonValue)) : String :=
  let get := JsonValue.member value
  if (positive (get "schema_version")).isSome ∧ (count (get "rank")).isSome ∧
      (count (get "runtime_ns")).isSome ∧ (count (get "mpi_time_ns")).isSome ∧
      (text (get "hostname")).isSome then "rank_summary"
  else if (positive (get "schema_version")).isSome ∧ (count (get "rank")).isSome ∧
      (count (get "sequence")).isSome ∧ (text (get "operation")).isSome ∧
      (count (get "duration_ns")).isSome then "mpi_event"
  else "unrecognized"

def row (k : AttemptKey) (segment : ParquetSegment) (index : Nat)
    (value : List (String × JsonValue)) (canonical : Bytes) : NormalizedRow :=
  let get := JsonValue.member value
  { attempt := k
    receiptId := segment.receiptId
    payloadSha256 := segment.payloadSha256
    recordIndex := index
    recordType := recordType value
    schemaVersion := integer 1 (2 ^ 31 - 1) (get "schema_version")
    rank := count (get "rank")
    sequence := count (get "sequence")
    operation := text (get "operation")
    recordKind := text (get "record_kind")
    timestampNs := count (get "timestamp_ns")
    durationNs := count (get "duration_ns")
    payloadBytes := count (get "payload_bytes")
    errorCode := integer (-(2 ^ 31)) (2 ^ 31 - 1) (get "error_code")
    hostname := text (get "hostname")
    worldSize := positive (get "world_size")
    runtimeNs := count (get "runtime_ns")
    mpiTimeNs := count (get "mpi_time_ns")
    mpiCalls := count (get "mpi_calls")
    requestCompletions := count (get "request_completions")
    failedCalls := count (get "failed_calls")
    complete := flag (get "complete")
    captureState := text (get "capture_state")
    recordJson := canonical }

/-- The rows of the lines of one segment, the first with the index `index`. At most `room`
more rows fit the limit. -/
def segmentRows (k : AttemptKey) (segment : ParquetSegment) :
    (room index : Nat) → List Bytes → Except String (List NormalizedRow)
  | _, _, [] => .ok []
  | room, index, line :: lines =>
    if blank line then segmentRows k segment room index lines
    else do
      let value ← python.loads line
      match value with
      | .object value =>
        let canonical ← python.dumps value
        match room with
        | 0 => .error "Parquet record limit exceeded"
        | room + 1 =>
          let rows ← segmentRows k segment room (index + 1) lines
          pure (row k segment index value canonical :: rows)
      | _ => .error "normalized record must be an object"

def segmentsRows (k : AttemptKey) : Nat → List ParquetSegment → Except String (List NormalizedRow)
  | _, [] => .ok []
  | room, segment :: segments => do
    let rows ← segmentRows python k segment room 0 (splitlines [] segment.payload)
    if rows.length ≠ segment.expectedRecords then
      .error "Parquet segment record count mismatch"
    else
      let more ← segmentsRows k (room - rows.length) segments
      pure (rows ++ more)

def buildNormalizedRows (k : AttemptKey) (segments : List ParquetSegment)
    (maxSegments maxRecords maxInputBytes : Nat) : Except String (List NormalizedRow) :=
  if segments = [] then .error "at least one segment is required"
  else if maxSegments < segments.length then .error "Parquet segment limit exceeded"
  else if maxInputBytes < (segments.map (fun s => s.payload.length)).sum then
    .error "Parquet input byte limit exceeded"
  else segmentsRows python k maxRecords segments

end Parquet

structure RankAggregate where
  sourceRowCount : Nat
  projectedSummaryRecords : Nat
  rankCount : Nat
  expectedWorldSize : Option Int
  finalizedRankCount : Nat
  runtimeMinNs : Option Int
  runtimeMedianNs : Option Rat
  runtimeMaxNs : Option Int
  mpiTimeTotalNs : Int
  mpiCallsTotal : Int
  requestCompletionsTotal : Int
  failedCallsTotal : Int
  coverageStatus : String
  coverageReasons : List String
deriving DecidableEq

namespace Analytics

/-- The rows the aggregate reads: rank summaries with a rank. -/
def summaries (rows : List NormalizedRow) : List NormalizedRow :=
  rows.filter (fun r => r.recordType = "rank_summary" && r.rank.isSome)

/-- The last row of each rank, in the order the ranks first appear. -/
def latestByRank (rows : List NormalizedRow) : List NormalizedRow :=
  let ranks := ((summaries rows).map NormalizedRow.rank).reverse.dedup.reverse
  ranks.filterMap (fun rank => (summaries rows).reverse.find? (fun r => r.rank = rank))

/-- `statistics.median`, of values that are not negative: the mean of two values is a float. -/
def median (values : List Int) : Option Rat :=
  let sorted := values.mergeSort
  let middle := sorted.length / 2
  if sorted.length % 2 = 1 then sorted[middle]?.map (fun x => (x : Rat))
  else
    match sorted[middle - 1]?, sorted[middle]? with
    | some a, some b => some (Analyzer.float ((a + b : Rat) / 2))
    | _, _ => none

def total (f : NormalizedRow → Option Int) (rows : List NormalizedRow) : Int :=
  (rows.map (fun r => (f r).getD 0)).sum

def aggregateRankSummaries (maxSourceRows : Nat) (rows : List NormalizedRow) :
    Except String RankAggregate :=
  if maxSourceRows < 1 then .error "max_source_rows must be positive"
  else if maxSourceRows < rows.length then
    .error s!"report projection has {rows.length} rows; query limit is {maxSourceRows}"
  else
    let latest := latestByRank rows
    let records := (summaries rows).length
    let sizes := (latest.filterMap NormalizedRow.worldSize).dedup
    let expected := if sizes.length = 1 then sizes.head? else none
    let finalized := latest.filter
      (fun r => r.complete = some true && r.captureState = some "finalized")
    let runtimes := finalized.filterMap NormalizedRow.runtimeNs
    let reasons :=
      (if latest = [] then ["no_rank_summaries"] else []) ++
      (if latest.length < records then ["duplicate_rank_summaries"] else []) ++
      (if 1 < sizes.length then ["inconsistent_world_size"] else []) ++
      (if latest ≠ [] ∧ finalized.length ≠ latest.length then
        ["incomplete_or_nonfinal_rank_summaries"] else []) ++
      (if latest ≠ [] ∧ finalized = [] then ["no_finalized_rank_summaries"] else []) ++
      (if expected.any (fun n => (finalized.length : Int) ≠ n) then
        ["finalized_rank_count_world_size_mismatch"] else [])
    .ok {
      sourceRowCount := rows.length
      projectedSummaryRecords := records
      rankCount := latest.length
      expectedWorldSize := expected
      finalizedRankCount := finalized.length
      runtimeMinNs := runtimes.min?
      runtimeMedianNs := median runtimes
      runtimeMaxNs := runtimes.max?
      mpiTimeTotalNs := total NormalizedRow.mpiTimeNs finalized
      mpiCallsTotal := total NormalizedRow.mpiCalls finalized
      requestCompletionsTotal := total NormalizedRow.requestCompletions finalized
      failedCallsTotal := total NormalizedRow.failedCalls finalized
      coverageStatus := if reasons = [] then "complete" else "partial"
      coverageReasons := reasons.dedup.mergeSort (fun a b => a ≤ b) }

end Analytics

end RankLens
