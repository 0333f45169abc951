import RankLens.Agent
import RankLens.Projection

namespace RankLens

/-- The nearest 64-bit floating-point number to a natural number, ties to even. -/
def roundFloat (n : Nat) : Nat :=
  let unit := 2 ^ (n.log2 - 52)
  let below := n / unit
  let rest := n % unit
  let up := unit < 2 * rest ∨ (unit = 2 * rest ∧ below % 2 = 1)
  (if up then below + 1 else below) * unit

/-- What `json.Unmarshal` makes of a number in an `any`. -/
def float64 (n : Int) : Int := n.sign * roundFloat n.natAbs

namespace JsonValue

def insertKey (m : String × JsonValue) : List (String × JsonValue) → List (String × JsonValue)
  | [] => [m]
  | x :: xs => if x.1 ≤ m.1 then x :: insertKey m xs else m :: x :: xs

-- A decoded document, as `json.Marshal` goes over it: numbers are floats, keys in order.
mutual

def decoded : JsonValue → JsonValue
  | .number n => .number (float64 n)
  | .array xs => .array (decodedItems xs)
  | .object members => .object (decodedMembers members)
  | j => j

def decodedItems : List JsonValue → List JsonValue
  | [] => []
  | x :: xs => decoded x :: decodedItems xs

def decodedMembers : List (String × JsonValue) → List (String × JsonValue)
  | [] => []
  | (key, x) :: xs => insertKey (key, decoded x) (decodedMembers xs)

end

end JsonValue

structure OperationStats where
  name : String
  calls : Nat
  durationNs : Nat
  payloadBytes : Nat
  recordKind : String
deriving DecidableEq, Repr

/-- The version-2 document of one rank, as `write_snapshot` fills it in. -/
structure RankSummary where
  complete : Bool
  captureState : String
  finalizeReturnCode : Int
  context : List (String × String)
  rank : Nat
  worldSize : Nat
  hostname : String
  pid : Nat
  runtimeNs : Nat
  mpiTimeNs : Nat
  mpiCalls : Nat
  requestCompletions : Nat
  failedCalls : Nat
  bytesSent : Nat
  bytesReceived : Nat
  operations : List OperationStats
deriving DecidableEq, Repr

def OperationStats.member (s : OperationStats) : String × JsonValue :=
  (s.name, .object [("calls", .number s.calls), ("duration_ns", .number s.durationNs),
    ("payload_bytes", .number s.payloadBytes), ("record_kind", .string s.recordKind)])

def RankSummary.members (d : RankSummary) : List (String × JsonValue) :=
  [("schema_version", .number 2), ("complete", .bool d.complete),
    ("capture_state", .string d.captureState),
    ("finalize_return_code", .number d.finalizeReturnCode),
    ("context", .object (d.context.map (fun m => (m.1, .string m.2)))),
    ("rank", .number d.rank), ("world_size", .number d.worldSize),
    ("hostname", .string d.hostname), ("pid", .number d.pid),
    ("runtime_ns", .number d.runtimeNs), ("mpi_time_ns", .number d.mpiTimeNs),
    ("mpi_calls", .number d.mpiCalls), ("request_completions", .number d.requestCompletions),
    ("failed_calls", .number d.failedCalls), ("bytes_sent", .number d.bytesSent),
    ("bytes_received", .number d.bytesReceived),
    ("operations", .object (d.operations.map OperationStats.member))]

/-- A string as the recorder writes it. -/
def recorderQuote (s : String) : List Char :=
  '"' :: s.toList.flatMap (fun c =>
    if c.toNat < 32 ∨ c ∈ ['"', '\\'] then JsonValue.escape c else [c]) ++ ['"']

def recorderMember (name : String) (value : List Char) : List Char :=
  recorderQuote name ++ [':', ' '] ++ value

def OperationStats.text (s : OperationStats) : List Char :=
  recorderMember s.name (Char.ofNat 123 :: List.intercalate [',', ' '] [
    recorderMember "calls" (JsonValue.digits s.calls),
    recorderMember "duration_ns" (JsonValue.digits s.durationNs),
    recorderMember "payload_bytes" (JsonValue.digits s.payloadBytes),
    recorderMember "record_kind" (recorderQuote s.recordKind)] ++ [Char.ofNat 125])

/-- The text `write_snapshot` leaves in the file of the rank. -/
def RankSummary.text (d : RankSummary) : List Char :=
  let block (ms : List (List Char)) := if ms = [] then [] else [' ', ' ', ' ', ' '] ++
    List.intercalate [',', '\n', ' ', ' ', ' ', ' '] ms ++ ['\n']
  [Char.ofNat 123, '\n', ' ', ' '] ++ List.intercalate [',', '\n', ' ', ' '] [
    recorderMember "schema_version" ['2'],
    recorderMember "complete" (JsonValue.marshal (.bool d.complete)),
    recorderMember "capture_state" (recorderQuote d.captureState),
    recorderMember "finalize_return_code" (JsonValue.digits d.finalizeReturnCode),
    recorderMember "context" (Char.ofNat 123 :: List.intercalate [',', ' ']
      (d.context.map (fun m => recorderMember m.1 (recorderQuote m.2))) ++ [Char.ofNat 125]),
    recorderMember "rank" (JsonValue.digits d.rank),
    recorderMember "world_size" (JsonValue.digits d.worldSize),
    recorderMember "hostname" (recorderQuote d.hostname),
    recorderMember "pid" (JsonValue.digits d.pid),
    recorderMember "runtime_ns" (JsonValue.digits d.runtimeNs),
    recorderMember "mpi_time_ns" (JsonValue.digits d.mpiTimeNs),
    recorderMember "mpi_calls" (JsonValue.digits d.mpiCalls),
    recorderMember "request_completions" (JsonValue.digits d.requestCompletions),
    recorderMember "failed_calls" (JsonValue.digits d.failedCalls),
    recorderMember "bytes_sent" (JsonValue.digits d.bytesSent),
    recorderMember "bytes_received" (JsonValue.digits d.bytesReceived),
    recorderMember "operations" (Char.ofNat 123 :: '\n' ::
      block (d.operations.map OperationStats.text) ++ [' ', ' ', Char.ofNat 125])] ++
    ['\n', Char.ofNat 125, '\n']

def RankSummary.content (d : RankSummary) : Bytes := d.text.flatMap String.utf8EncodeChar

/-- The row shows what the document says. -/
structure Survives (d : RankSummary) (r : NormalizedRow) : Prop where
  recordType : r.recordType = "rank_summary"
  rank : r.rank = some d.rank
  worldSize : r.worldSize = some d.worldSize
  hostname : r.hostname = some d.hostname
  runtimeNs : r.runtimeNs = some d.runtimeNs
  mpiTimeNs : r.mpiTimeNs = some d.mpiTimeNs
  mpiCalls : r.mpiCalls = some d.mpiCalls
  requestCompletions : r.requestCompletions = some d.requestCompletions
  failedCalls : r.failedCalls = some d.failedCalls
  complete : r.complete = some d.complete
  captureState : r.captureState = some d.captureState

/-- The record the agent makes of a document. -/
def summaryRecord (file : String) (summary : List (String × JsonValue)) :
    List (String × JsonValue) :=
  [("payload", .object summary), ("record_kind", .string "rank_summary_file"),
    ("source_file", .string file)]

variable {k : AttemptKey} {segment : ParquetSegment} {index : Nat}

theorem except_bind_ok {α β ε : Type} {x : Except ε α} {f : α → Except ε β} {y : β}
    (h : x >>= f = .ok y) : ∃ a, x = .ok a ∧ f a = .ok y := by
  cases x with
  | error e => cases h
  | ok a => exact ⟨a, rfl, h⟩

section Lines

theorem splitlines_line {xs : Bytes} (h : ∀ b ∈ xs, 32 ≤ b.toNat) (line : Bytes) :
    splitlines line (xs ++ [10]) = [line.reverse ++ xs] := by
  induction xs generalizing line with
  | nil => simp [splitlines]
  | cons b xs ih =>
    have hb : 32 ≤ b.toNat := h b List.mem_cons_self
    have h10 : b ≠ 10 := by
      intro he
      subst he
      exact absurd hb (by decide)
    have h13 : b ≠ 13 := by
      intro he
      subst he
      exact absurd hb (by decide)
    have hrest := ih (fun b' hb' => h b' (List.mem_cons_of_mem b hb')) (b :: line)
    rw [List.reverse_cons, List.append_assoc, List.singleton_append] at hrest
    rw [List.cons_append, splitlines, if_neg (not_or.mpr ⟨h10, h13⟩), hrest]
    intro _ he
    exact absurd he h13

theorem object_not_blank (members : List (String × JsonValue)) :
    blank (JsonValue.object members).encode = false := by
  rw [JsonValue.encode, JsonValue.marshal, List.cons_append, List.flatMap_cons]
  rfl

end Lines

namespace Parquet

variable {python : Python}

theorem summaryRecord_row (file : String) (summary : List (String × JsonValue))
    (canonical : Bytes) :
    (row k segment index (summaryRecord file summary) canonical).recordType = "unrecognized" ∧
      (row k segment index (summaryRecord file summary) canonical).rank = none :=
  ⟨rfl, rfl⟩

theorem segmentRows_single {room : Nat} {line : Bytes} {value : List (String × JsonValue)}
    {rows : List NormalizedRow} (hblank : blank line = false)
    (hloads : python.loads line = .ok (.object value))
    (h : segmentRows python k segment room 0 [line] = .ok rows) :
    ∃ canonical, rows = [row k segment 0 value canonical] := by
  rw [segmentRows, hblank, if_neg Bool.false_ne_true, hloads] at h
  obtain ⟨_, hvalue, h⟩ := except_bind_ok h
  obtain rfl := Except.ok.inj hvalue
  obtain ⟨canonical, hdumps, h⟩ := except_bind_ok h
  cases room with
  | zero => cases h
  | succ room =>
    obtain rfl := Except.ok.inj h
    exact ⟨canonical, rfl⟩

theorem segmentsRows_split {room : Nat} {before after : List ParquetSegment}
    {rows : List NormalizedRow}
    (h : segmentsRows python k room (before ++ segment :: after) = .ok rows) :
    ∃ room' r₁ r r₂, rows = r₁ ++ r ++ r₂ ∧
      segmentRows python k segment room' 0 (splitlines [] segment.payload) = .ok r := by
  induction before generalizing room rows with
  | nil =>
    rw [List.nil_append, segmentsRows] at h
    obtain ⟨r, hr, h⟩ := except_bind_ok h
    split at h
    · cases h
    · obtain ⟨more, hmore, h⟩ := except_bind_ok h
      obtain rfl := Except.ok.inj h
      exact ⟨room, [], r, more, rfl, hr⟩
  | cons s before ih =>
    rw [List.cons_append, segmentsRows] at h
    obtain ⟨r', hr', h⟩ := except_bind_ok h
    split at h
    · cases h
    · obtain ⟨more, hmore, h⟩ := except_bind_ok h
      obtain rfl := Except.ok.inj h
      obtain ⟨room', r₁, r, r₂, rfl, hr⟩ := ih hmore
      exact ⟨room', r' ++ r₁, r, r₂, by simp only [List.append_assoc], hr⟩

theorem buildNormalizedRows_ok {segments : List ParquetSegment}
    {maxSegments maxRecords maxInputBytes : Nat} {rows : List NormalizedRow}
    (h : buildNormalizedRows python k segments maxSegments maxRecords maxInputBytes = .ok rows) :
    segmentsRows python k maxRecords segments = .ok rows := by
  unfold buildNormalizedRows at h
  split_ifs at h
  exact h

end Parquet

theorem Analytics.summaries_skip {r : NormalizedRow} {r₁ r₂ : List NormalizedRow}
    (h : r.recordType ≠ "rank_summary") :
    summaries (r₁ ++ r :: r₂) = summaries (r₁ ++ r₂) := by
  rw [summaries, List.filter_append, List.filter_cons_of_neg, ← List.filter_append, summaries]
  rw [decide_eq_false h]
  exact Bool.false_ne_true

namespace Agent

variable {go : Go} {python : Python}

theorem compactSummary_ok {file : String} {content payload : Bytes}
    {summary : List (String × JsonValue)} (hread : go.unmarshal content = some summary)
    (h : compactSummary go file content = .ok payload) :
    payload = (JsonValue.object (summaryRecord file summary)).encode ++ [10] := by
  unfold compactSummary at h
  rw [hread] at h
  exact (Except.ok.inj h).symm

/-- The document of a rank is lost on its way: what the agent spools of it is projected to
a row that shows no rank, and the aggregate is the one without the row. -/
theorem rank_summary_lost {d : RankSummary} {file : String} {payload : Bytes}
    {before after : List ParquetSegment} {maxSegments maxRecords maxInputBytes : Nat}
    {rows : List NormalizedRow}
    (hread : go.unmarshal d.content = some (JsonValue.decodedMembers d.members))
    (hspooled : compactSummary go file d.content = .ok payload)
    (hloads : python.loads
      (JsonValue.object (summaryRecord file (JsonValue.decodedMembers d.members))).encode =
        .ok (.object (summaryRecord file (JsonValue.decodedMembers d.members))))
    (hsegment : segment.payload = payload)
    (hbuild : Parquet.buildNormalizedRows python k (before ++ segment :: after) maxSegments
      maxRecords maxInputBytes = .ok rows) :
    ∃ r₁ row r₂, rows = r₁ ++ row :: r₂ ∧ row.receiptId = segment.receiptId ∧
      row.recordType = "unrecognized" ∧ ¬ Survives d row ∧
      Analytics.summaries rows = Analytics.summaries (r₁ ++ r₂) := by
  have hpayload := compactSummary_ok hread hspooled
  obtain ⟨room, r₁, r, r₂, hrows, hr⟩ :=
    Parquet.segmentsRows_split (Parquet.buildNormalizedRows_ok hbuild)
  rw [hsegment, hpayload, splitlines_line (fun b hb => JsonValue.encode_printable _ hb),
    List.reverse_nil, List.nil_append] at hr
  obtain ⟨canonical, rfl⟩ :=
    Parquet.segmentRows_single (object_not_blank _) hloads hr
  have hrow := @Parquet.summaryRecord_row k segment 0 file
    (JsonValue.decodedMembers d.members) canonical
  refine ⟨r₁, _, r₂, by rw [hrows, List.append_assoc, List.singleton_append], rfl, hrow.1, ?_, ?_⟩
  · intro hsurvives
    have hrank := hsurvives.rank
    rw [hrow.2] at hrank
    cases hrank
  · rw [hrows, List.append_assoc, List.singleton_append]
    exact Analytics.summaries_skip (by rw [hrow.1]; decide)

end Agent

namespace Sample

/-- The last document of the only rank of a run. -/
def summary : RankSummary where
  complete := true
  captureState := "finalized"
  finalizeReturnCode := 0
  context := [("run_id", "run-1"), ("events_dropped", "0")]
  rank := 0
  worldSize := 1
  hostname := "node-a"
  pid := 4711
  runtimeNs := 1000
  mpiTimeNs := 300
  mpiCalls := 4
  requestCompletions := 1
  failedCalls := 0
  bytesSent := 64
  bytesReceived := 64
  operations := [⟨"MPI_Send", 4, 300, 64, "api_call"⟩]

def summaryFile : String := "rank-00000-summary.json"

def summaryLine : JsonValue :=
  .object (summaryRecord summaryFile (JsonValue.decodedMembers summary.members))

def summaryGo : Go where
  blank line := line.all (fun b => b = 32)
  unmarshal content :=
    if content = summary.content then some (JsonValue.decodedMembers summary.members) else none

def summaryPython : Python where
  loads line := if line = summaryLine.encode then .ok summaryLine else .error "Expecting value"
  dumps value := .ok (JsonValue.object value).encode

def summarySegment : ParquetSegment := ⟨7, "", 1, summaryLine.encode ++ [10]⟩

def summaryRows : Except String (List NormalizedRow) :=
  Parquet.buildNormalizedRows summaryPython ⟨"acme", "cluster-a", "attempt-1"⟩ [summarySegment]
    10000 10000000 67108864

end Sample

namespace Agent

theorem rank_summary_lost_sample : ∃ rows, Sample.summaryRows = .ok rows ∧
    ∃ r₁ row r₂, rows = r₁ ++ row :: r₂ ∧ row.receiptId = Sample.summarySegment.receiptId ∧
      row.recordType = "unrecognized" ∧ ¬ Survives Sample.summary row ∧
      Analytics.summaries rows = Analytics.summaries (r₁ ++ r₂) := by
  have hok : Sample.summaryRows.isOk = true := by decide +kernel
  cases hrows : Sample.summaryRows with
  | error e =>
    rw [hrows] at hok
    cases hok
  | ok rows =>
    have hread : Sample.summaryGo.unmarshal Sample.summary.content =
        some (JsonValue.decodedMembers Sample.summary.members) := by
      simp only [Sample.summaryGo, if_true]
    have hspooled : compactSummary Sample.summaryGo Sample.summaryFile Sample.summary.content =
        .ok Sample.summarySegment.payload := by
      unfold compactSummary
      rw [hread]
      rfl
    have hloads : Sample.summaryPython.loads (JsonValue.object (summaryRecord Sample.summaryFile
        (JsonValue.decodedMembers Sample.summary.members))).encode =
          .ok (.object (summaryRecord Sample.summaryFile
            (JsonValue.decodedMembers Sample.summary.members))) := by
      simp only [Sample.summaryPython, Sample.summaryLine, if_true]
    have hbuild : Parquet.buildNormalizedRows Sample.summaryPython
        ⟨"acme", "cluster-a", "attempt-1"⟩ ([] ++ Sample.summarySegment :: []) 10000 10000000
          67108864 = .ok rows := hrows
    exact ⟨rows, rfl, rank_summary_lost (d := Sample.summary) hread
      hspooled hloads rfl hbuild⟩

/-- A finalized run of one rank aggregates to no rank. -/
theorem finalized_rank_uncounted :
    Sample.summaryRows.map (List.map (fun r => (r.recordType, r.rank, r.runtimeNs))) =
      .ok [("unrecognized", none, none)] ∧
    (Sample.summaryRows.bind (Analytics.aggregateRankSummaries 100000)).map
      (fun a => (a.sourceRowCount, a.rankCount, a.coverageReasons)) =
        .ok (1, 0, ["no_rank_summaries"]) ∧
    compactSummary Sample.summaryGo Sample.summaryFile Sample.summary.content =
      .ok Sample.summarySegment.payload := by
  exact ⟨by decide +kernel, by decide +kernel, by decide +kernel⟩

end Agent

end RankLens