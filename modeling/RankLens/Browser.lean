import RankLens.Doubles
import RankLens.JsonText
import RankLens.Skipping

namespace RankLens

namespace Analyzer

section rounding

variable {n : Nat}

theorem float_natural (h : n < 2 ^ 53) : float (n : ℚ) = n := (Doubles.double_natural h.le).float

theorem float_large (h : 2 ^ 53 ≤ n) : (2 ^ 53 : ℚ) ≤ float n := by
  have top : float (2 ^ 53 : Nat) = (2 ^ 53 : Nat) := (Doubles.double_natural le_rfl).float
  have cast : ((2 ^ 53 : Nat) : ℚ) ≤ n := Nat.cast_le.mpr h
  have order := Doubles.float_mono (Nat.cast_nonneg (2 ^ 53)) cast
  rw [top] at order
  exact_mod_cast order

end rounding

end Analyzer

namespace Browser

open Analyzer (AnalysisResult Dict Interpreter float)

/-- What `JSON.parse` gives; a number that is none is infinite. -/
inductive JsValue where
  | null
  | bool (b : Bool)
  | number (x : Option ℚ)
  | string (s : PyStr)
  | array (xs : List JsValue)
  | object (members : List (PyStr × JsValue))

section validator

def maxSafeInteger : Nat := 2 ^ 53 - 1

/-- `Number.isSafeInteger` of a finite number. -/
def isSafeInteger (x : ℚ) : Bool := x.den = 1 && |x| ≤ maxSafeInteger

def isCount : Option JsValue → Bool
  | some (.number (some x)) => isSafeInteger x && 0 ≤ x
  | _ => false

def isMetric : Option JsValue → Bool
  | some (.number (some x)) => 0 ≤ x
  | _ => false

def isString : Option JsValue → Bool
  | some (.string _) => true
  | _ => false

def isBoolean : Option JsValue → Bool
  | some (.bool _) => true
  | _ => false

def isRecord : Option JsValue → Bool
  | some (.object _) => true
  | _ => false

/-- `value.key`, none when it is undefined. -/
def property (value : JsValue) (key : String) : Option JsValue :=
  match value with
  | .object members => members.lookup (PyStr.ofString key)
  | _ => none

def item (value : JsValue) (i : Nat) : Option JsValue :=
  match value with
  | .array xs => xs[i]?
  | _ => none

/-- `Array.isArray(value) && value.every(p)`. -/
def everyItem (p : JsValue → Bool) : Option JsValue → Bool
  | some (.array xs) => xs.all p
  | _ => false

def everyEntry (p : PyStr → JsValue → Bool) : Option JsValue → Bool
  | some (.object members) => members.all (fun m => p m.1 m.2)
  | _ => false

def validStats (name : PyStr) (stats : JsValue) : Bool :=
  name ≠ [] && isRecord (some stats) && isCount (property stats "calls") &&
    isCount (property stats "duration_ns") && isCount (property stats "payload_bytes")

def validRow (row : JsValue) : Bool :=
  match row with
  | .array xs => xs.length = 2 && isCount xs[0]? && isCount xs[1]?
  | _ => false

/-- `['warning', 'info', 'ok'].includes(String(value))`, where an array of one value has the text of
that value. -/
def isSeverity : JsValue → Bool
  | .string s => ["warning", "info", "ok"].any (fun name => PyStr.ofString name = s)
  | .array [x] => isSeverity x
  | _ => false

def validFinding (finding : JsValue) : Bool :=
  isRecord (some finding) &&
    ((property finding "severity").map isSeverity).getD false &&
    ["category", "title", "evidence", "recommendation"].all (fun key =>
      isString (property finding key))

def validEdge (edge : JsValue) : Bool :=
  isRecord (some edge) && isCount (property edge "source") &&
    isCount (property edge "destination") && isCount (property edge "bytes") &&
    isCount (property edge "messages") && isMetric (property edge "traffic_share")

def validShape (result : JsValue) : Bool :=
  isRecord (some result) && isString (property result "source") &&
    ["world_size", "ranks_observed", "runtime_median_ns", "runtime_max_ns", "mpi_time_ns",
      "aggregate_runtime_ns"].all (fun key => isCount (property result key)) &&
    ["mpi_fraction", "imbalance_ratio", "straggler_threshold"].all (fun key =>
      isMetric (property result key)) &&
    everyItem (fun rank => isCount (some rank)) (property result "straggler_ranks") &&
    everyEntry validStats (property result "operations") &&
    everyItem validRow (property result "rank_runtimes") &&
    everyItem validFinding (property result "findings") &&
    everyItem validEdge (property result "communication_edges") &&
    everyItem (fun warning => isString (some warning)) (property result "warnings")

def numberOf : Option JsValue → ℚ
  | some (.number (some x)) => x
  | _ => 0

def itemsOf : Option JsValue → List JsValue
  | some (.array xs) => xs
  | _ => []

def strings : Option JsValue → Bool := everyEntry (fun _ s => isString (some s))

def optional (value : JsValue) (key : String) (p : Option JsValue → Bool) : Bool :=
  match property value key with
  | none => true
  | some v => p (some v)

def validMetadata : Option JsValue → Bool
  | some (.object members) =>
    optional (.object members) "workload" isString && optional (.object members) "run_id" isString &&
      optional (.object members) "scheduler" strings && optional (.object members) "tags" strings
  | _ => false

def validRank (ids : List ℚ) (v : JsValue) : Bool :=
  isRecord (some v) && isCount (property v "rank") &&
    ids.contains (numberOf (property v "rank")) && isString (property v "hostname") &&
    isCount (property v "runtime_ns") && isCount (property v "mpi_time_ns") &&
    isBoolean (property v "complete") && strings (property v "context")

def validBucket (v : JsValue) : Bool :=
  isRecord (some v) && isCount (property v "timestamp_ns") && isCount (property v "calls") &&
    isCount (property v "duration_ns")

def isAnalysisResult (r : JsValue) : Bool :=
  let worldSize := numberOf (property r "world_size")
  let ranksObserved := numberOf (property r "ranks_observed")
  let rankRuntimes := itemsOf (property r "rank_runtimes")
  let ids := rankRuntimes.map (fun row => numberOf (item row 0))
  validShape r &&
    !(worldSize < 1 || ranksObserved < 1 || worldSize < ranksObserved ||
      numberOf (property r "straggler_threshold") ≤ 1 || rankRuntimes.length ≠ ranksObserved) &&
    !(ids.dedup.length ≠ ranksObserved || ids.any (fun rank => worldSize ≤ rank) ||
      (itemsOf (property r "straggler_ranks")).any (fun rank =>
        !ids.contains (numberOf (some rank)))) &&
    !(itemsOf (property r "communication_edges")).any (fun e =>
      worldSize ≤ numberOf (property e "source") ||
        worldSize ≤ numberOf (property e "destination")) &&
    optional r "synthetic" isBoolean && optional r "complete" isBoolean &&
    optional r "metadata" validMetadata &&
    optional r "ranks" (fun ranks => (itemsOf ranks).length = ranksObserved &&
      everyItem (validRank ids) ranks) &&
    optional r "timeline" (fun timeline => (itemsOf timeline).length ≤ 1000 &&
      everyItem validBucket timeline)

end validator

section serialisation

/-- A number of Python, read back by `JSON.parse`. -/
@[irreducible]
def jsNumber (n : Nat) : JsValue :=
  .number (if 2 ^ 1024 - 2 ^ 970 ≤ n then none else some (float n))

@[irreducible]
def intValue (n : Int) : Option ℚ :=
  if 2 ^ 1024 - 2 ^ 970 ≤ n.natAbs then none
  else some (if n < 0 then -float n.natAbs else float n.natAbs)

/-- A value that `json.dumps` has written, read back by `JSON.parse`. What is nested too deeply to
be copied is not written, and what is not finite is not read. -/
def readBack (py : Interpreter) : Nat → PyValue → Option JsValue
  | _, .none => some .null
  | _, .bool b => some (.bool b)
  | _, .int n => some (.number (intValue n))
  | _, .float repr => some (.number (some (py.floatValue repr)))
  | _, .nonfinite => none
  | _, .str s => some (.string s)
  | 0, .list _ => none
  | 0, .dict _ => none
  | room + 1, .list xs => (xs.mapM (readBack py room)).map .array
  | room + 1, .dict members =>
    (members.mapM (fun m => (readBack py room m.2).map (fun v => (m.1, v)))).map .object

def jsMember (key : String) (v : JsValue) : PyStr × JsValue := (PyStr.ofString key, v)

def jsText (s : String) : JsValue := .string (PyStr.ofString s)

def jsStats (stats : Analyzer.OperationStats) : JsValue :=
  .object [jsMember "calls" (jsNumber stats.calls),
    jsMember "duration_ns" (jsNumber stats.durationNs),
    jsMember "payload_bytes" (jsNumber stats.payloadBytes)]

def jsEdge (edge : Analyzer.CommunicationEdge) : JsValue :=
  .object [jsMember "source" (jsNumber edge.source),
    jsMember "destination" (jsNumber edge.destination), jsMember "bytes" (jsNumber edge.bytes),
    jsMember "messages" (jsNumber edge.messages),
    jsMember "traffic_share" (.number (some edge.trafficShare))]

def jsFinding (finding : Analyzer.Finding) : JsValue :=
  .object [jsMember "severity" (jsText finding.severity),
    jsMember "category" (jsText finding.category), jsMember "title" (jsText finding.title),
    jsMember "evidence" (jsText finding.evidence),
    jsMember "recommendation" (jsText finding.recommendation)]

def jsCoverage (coverage : Analyzer.Coverage) : JsValue :=
  .object [jsMember "summary" (jsText coverage.summary),
    jsMember "event_detail" (jsText coverage.eventDetail),
    jsMember "request_lifecycle" (jsText coverage.requestLifecycle),
    jsMember "partitioned_requests" (.string coverage.partitionedRequests),
    jsMember "reasons" (.array (coverage.reasons.map jsText))]

def jsRank (row : Analyzer.RankRow) : JsValue :=
  .object [jsMember "rank" (jsNumber row.rank), jsMember "hostname" (.string row.hostname),
    jsMember "runtime_ns" (jsNumber row.runtimeNs), jsMember "mpi_time_ns" (jsNumber row.mpiTimeNs),
    jsMember "context" (.object (row.context.map (fun m => (m.1, .string m.2)))),
    jsMember "complete" (.bool row.complete)]

def jsBucket (bucket : Analyzer.Bucket) : JsValue :=
  .object [jsMember "timestamp_ns" (jsNumber bucket.timestampNs),
    jsMember "calls" (jsNumber bucket.calls), jsMember "duration_ns" (jsNumber bucket.durationNs)]

/-- `to_dict` of a result, with its metadata read back. -/
def jsResult (result : AnalysisResult) (metadata : JsValue) : JsValue :=
  .object [jsMember "source" (jsText result.source),
    jsMember "world_size" (jsNumber result.worldSize),
    jsMember "ranks_observed" (jsNumber result.ranksObserved),
    jsMember "runtime_median_ns" (jsNumber result.runtimeMedianNs),
    jsMember "runtime_max_ns" (jsNumber result.runtimeMaxNs),
    jsMember "mpi_time_ns" (jsNumber result.mpiTimeNs),
    jsMember "aggregate_runtime_ns" (jsNumber result.aggregateRuntimeNs),
    jsMember "mpi_fraction" (.number (some result.mpiFraction)),
    jsMember "imbalance_ratio" (.number (some result.imbalanceRatio)),
    jsMember "straggler_threshold" (.number (some result.stragglerThreshold)),
    jsMember "straggler_ranks" (.array (result.stragglerRanks.map jsNumber)),
    jsMember "operations" (.object (result.operations.map (fun m => (m.1, jsStats m.2)))),
    jsMember "communication_edges" (.array (result.communicationEdges.map jsEdge)),
    jsMember "rank_runtimes" (.array (result.rankRuntimes.map (fun p =>
      .array [jsNumber p.1, jsNumber p.2]))),
    jsMember "findings" (.array (result.findings.map jsFinding)),
    jsMember "warnings" (.array (result.warnings.map jsText)),
    jsMember "coverage" (jsCoverage result.coverage),
    jsMember "schema_version" (jsNumber 1),
    jsMember "synthetic" (.bool result.synthetic),
    jsMember "complete" (.bool result.complete),
    jsMember "metadata" metadata,
    jsMember "ranks" (.array (result.ranks.map jsRank)),
    jsMember "timeline" (.array (result.timeline.map jsBucket))]

/-- `JSON.parse(json.dumps(result.to_dict()))`, none where one of them raises. -/
def exported (py : Interpreter) (result : AnalysisResult) : Option JsValue :=
  (readBack py py.room (.dict result.metadata)).map (jsResult result)

end serialisation

section counts

variable {n : Nat} {result : AnalysisResult} {metadata : JsValue}

theorem isSafeInteger_natural (h : n ≤ maxSafeInteger) : isSafeInteger (n : ℚ) = true := by
  have bound : |(n : ℚ)| ≤ maxSafeInteger := by
    rw [abs_of_nonneg (Nat.cast_nonneg n)]
    exact_mod_cast h
  rw [isSafeInteger, Bool.and_eq_true, decide_eq_true_iff, decide_eq_true_iff]
  exact ⟨Rat.den_natCast n, bound⟩

theorem jsNumber_small (h : n ≤ maxSafeInteger) : jsNumber n = .number (some (n : ℚ)) := by
  have low : n < 2 ^ 53 := by
    have : maxSafeInteger = 2 ^ 53 - 1 := rfl
    omega
  have high : 2 ^ 53 ≤ 2 ^ 1024 - 2 ^ 970 := by
    have gap : 2 ^ 1024 = 2 ^ 970 * 2 ^ 54 := by rw [← pow_add]
    have grows : ∀ k, 53 ≤ k → 2 ^ 53 ≤ 2 ^ k := fun k hk => Nat.pow_le_pow_right (by decide) hk
    have one := grows 970 (by decide)
    generalize 2 ^ 970 = x at *
    omega
  rw [jsNumber, if_neg (by omega), Analyzer.float_natural low]

theorem isCount_number : isCount (some (jsNumber n)) = true ↔ n ≤ maxSafeInteger := by
  constructor
  · intro h
    by_contra large
    have wide : 2 ^ 53 ≤ n := by
      have : maxSafeInteger = 2 ^ 53 - 1 := rfl
      omega
    unfold jsNumber at h
    split at h
    · exact nomatch h
    · simp only [isCount, isSafeInteger, Bool.and_eq_true, decide_eq_true_eq] at h
      have bound := (le_abs_self _).trans h.1.2
      have reached := (Analyzer.float_large wide).trans bound
      have below : ((2 ^ 53 - 1 : Nat) : ℚ) < 2 ^ 53 := by norm_num
      exact absurd reached (not_le.mpr below)
  · intro h
    rw [jsNumber_small h]
    simp [isCount, isSafeInteger_natural h]

structure SafeStats (stats : Analyzer.OperationStats) : Prop where
  calls : stats.calls ≤ maxSafeInteger
  durationNs : stats.durationNs ≤ maxSafeInteger
  payloadBytes : stats.payloadBytes ≤ maxSafeInteger

theorem validStats_iff {name : PyStr} {stats : Analyzer.OperationStats} :
    validStats name (jsStats stats) = true ↔ name ≠ [] ∧ SafeStats stats := by
  have e : validStats name (jsStats stats) = (decide (name ≠ []) && true &&
    isCount (some (jsNumber stats.calls)) && isCount (some (jsNumber stats.durationNs)) &&
      isCount (some (jsNumber stats.payloadBytes))) := rfl
  rw [e]
  simp only [Bool.and_eq_true, isCount_number, decide_eq_true_eq, and_true]
  exact ⟨fun h => ⟨h.1.1.1, h.1.1.2, h.1.2, h.2⟩, fun h => ⟨⟨⟨h.1, h.2.1⟩, h.2.2⟩, h.2.3⟩⟩

theorem validEdge_iff {edge : Analyzer.CommunicationEdge} :
    validEdge (jsEdge edge) = true ↔ (edge.source ≤ maxSafeInteger ∧
      edge.destination ≤ maxSafeInteger) ∧ (edge.bytes ≤ maxSafeInteger ∧
      edge.messages ≤ maxSafeInteger) ∧ 0 ≤ edge.trafficShare := by
  have e : validEdge (jsEdge edge) = (true && isCount (some (jsNumber edge.source)) &&
    isCount (some (jsNumber edge.destination)) && isCount (some (jsNumber edge.bytes)) &&
      isCount (some (jsNumber edge.messages)) && decide (0 ≤ edge.trafficShare)) := rfl
  rw [e]
  simp only [Bool.and_eq_true, isCount_number, decide_eq_true_eq, true_and, and_assoc]

theorem validRow_iff {p : Nat × Nat} : validRow (.array [jsNumber p.1, jsNumber p.2]) = true ↔
    p.1 ≤ maxSafeInteger ∧ p.2 ≤ maxSafeInteger := by
  have e : validRow (.array [jsNumber p.1, jsNumber p.2]) = (true &&
    isCount (some (jsNumber p.1)) && isCount (some (jsNumber p.2))) := rfl
  rw [e]
  simp only [Bool.and_eq_true, isCount_number, true_and]

theorem validBucket_iff {bucket : Analyzer.Bucket} : validBucket (jsBucket bucket) = true ↔
    bucket.timestampNs ≤ maxSafeInteger ∧ bucket.calls ≤ maxSafeInteger ∧
      bucket.durationNs ≤ maxSafeInteger := by
  have e : validBucket (jsBucket bucket) = (true && isCount (some (jsNumber bucket.timestampNs)) &&
    isCount (some (jsNumber bucket.calls)) && isCount (some (jsNumber bucket.durationNs))) := rfl
  rw [e]
  simp only [Bool.and_eq_true, isCount_number, true_and, and_assoc]

theorem validFinding_iff {finding : Analyzer.Finding} : validFinding (jsFinding finding) = true ↔
    finding.severity ∈ ["warning", "info", "ok"] := by
  have e : validFinding (jsFinding finding) = (true && (["warning", "info", "ok"].any (fun name =>
    PyStr.ofString name = PyStr.ofString finding.severity)) && true) := rfl
  rw [e, Bool.and_true, Bool.true_and, List.any_eq_true]
  simp only [decide_eq_true_eq]
  constructor
  · rintro ⟨name, hname, same⟩
    exact JsonText.ofString_injective same ▸ hname
  · exact fun h => ⟨_, h, rfl⟩

theorem validRank_iff {ids : List ℚ} {row : Analyzer.RankRow} :
    validRank ids (jsRank row) = true ↔ row.rank ≤ maxSafeInteger ∧
      numberOf (some (jsNumber row.rank)) ∈ ids ∧ row.runtimeNs ≤ maxSafeInteger ∧
      row.mpiTimeNs ≤ maxSafeInteger := by
  have e : validRank ids (jsRank row) = (true && isCount (some (jsNumber row.rank)) &&
    ids.contains (numberOf (some (jsNumber row.rank))) && true &&
    isCount (some (jsNumber row.runtimeNs)) && isCount (some (jsNumber row.mpiTimeNs)) && true &&
      (row.context.map (fun m => (m.1, JsValue.string m.2))).all (fun m =>
        isString (some m.2))) := rfl
  have texts : (row.context.map (fun m => (m.1, JsValue.string m.2))).all (fun m =>
      isString (some m.2)) = true := by simp [isString]
  rw [e, texts]
  simp only [Bool.and_eq_true, isCount_number, List.contains_iff_mem, true_and, and_true, and_assoc]

/-- What `analyze` promises of its result, whatever it was given. -/
structure Consistent (result : AnalysisResult) : Prop where
  worldSize : 1 ≤ result.worldSize
  ranksObserved : 1 ≤ result.ranksObserved ∧ result.ranksObserved ≤ result.worldSize
  stragglerThreshold : 1 < result.stragglerThreshold
  fractions : 0 ≤ result.mpiFraction ∧ 0 ≤ result.imbalanceRatio
  observed : result.rankRuntimes.length = result.ranksObserved
  distinct : (result.rankRuntimes.map Prod.fst).Nodup
  within : ∀ rank ∈ result.rankRuntimes.map Prod.fst, rank < result.worldSize
  stragglers : ∀ rank ∈ result.stragglerRanks, rank ∈ result.rankRuntimes.map Prod.fst
  edges : ∀ e ∈ result.communicationEdges, (e.source < result.worldSize ∧
    e.destination < result.worldSize) ∧ 0 ≤ e.trafficShare
  findings : ∀ f ∈ result.findings, f.severity ∈ ["warning", "info", "ok"]
  rows : result.ranks.length = result.ranksObserved
  ranks : ∀ row ∈ result.ranks, row.rank ∈ result.rankRuntimes.map Prod.fst
  timeline : result.timeline.length ≤ 1000

/-- The counts of a result that the browser holds exactly. -/
structure SafeCounts (result : AnalysisResult) : Prop where
  worldSize : result.worldSize ≤ maxSafeInteger
  runtimeMedianNs : result.runtimeMedianNs ≤ maxSafeInteger
  runtimeMaxNs : result.runtimeMaxNs ≤ maxSafeInteger
  mpiTimeNs : result.mpiTimeNs ≤ maxSafeInteger
  aggregateRuntimeNs : result.aggregateRuntimeNs ≤ maxSafeInteger
  operations : ∀ m ∈ result.operations, m.1 ≠ [] ∧ SafeStats m.2
  rankRuntimes : ∀ p ∈ result.rankRuntimes, p.2 ≤ maxSafeInteger
  edges : ∀ e ∈ result.communicationEdges, e.bytes ≤ maxSafeInteger ∧ e.messages ≤ maxSafeInteger
  ranks : ∀ row ∈ result.ranks, row.runtimeNs ≤ maxSafeInteger ∧ row.mpiTimeNs ≤ maxSafeInteger
  timeline : ∀ b ∈ result.timeline, b.timestampNs ≤ maxSafeInteger ∧ b.calls ≤ maxSafeInteger ∧
    b.durationNs ≤ maxSafeInteger

theorem validShape_iff : validShape (jsResult result metadata) = true ↔
    (result.worldSize ≤ maxSafeInteger ∧ result.ranksObserved ≤ maxSafeInteger ∧
      result.runtimeMedianNs ≤ maxSafeInteger ∧ result.runtimeMaxNs ≤ maxSafeInteger ∧
      result.mpiTimeNs ≤ maxSafeInteger ∧ result.aggregateRuntimeNs ≤ maxSafeInteger) ∧
    (0 ≤ result.mpiFraction ∧ 0 ≤ result.imbalanceRatio ∧ 0 ≤ result.stragglerThreshold) ∧
    (∀ rank ∈ result.stragglerRanks, rank ≤ maxSafeInteger) ∧
    (∀ m ∈ result.operations, m.1 ≠ [] ∧ SafeStats m.2) ∧
    (∀ p ∈ result.rankRuntimes, p.1 ≤ maxSafeInteger ∧ p.2 ≤ maxSafeInteger) ∧
    (∀ f ∈ result.findings, f.severity ∈ ["warning", "info", "ok"]) ∧
    ∀ e ∈ result.communicationEdges, (e.source ≤ maxSafeInteger ∧
      e.destination ≤ maxSafeInteger) ∧ (e.bytes ≤ maxSafeInteger ∧
      e.messages ≤ maxSafeInteger) ∧ 0 ≤ e.trafficShare := by
  have e : validShape (jsResult result metadata) = (true && true &&
    [result.worldSize, result.ranksObserved, result.runtimeMedianNs, result.runtimeMaxNs,
      result.mpiTimeNs, result.aggregateRuntimeNs].all (fun n => isCount (some (jsNumber n))) &&
    [result.mpiFraction, result.imbalanceRatio, result.stragglerThreshold].all (fun x =>
      decide (0 ≤ x)) &&
    (result.stragglerRanks.map jsNumber).all (fun rank => isCount (some rank)) &&
    (result.operations.map (fun m => (m.1, jsStats m.2))).all (fun m => validStats m.1 m.2) &&
    (result.rankRuntimes.map (fun p => JsValue.array [jsNumber p.1, jsNumber p.2])).all validRow &&
    (result.findings.map jsFinding).all validFinding &&
    (result.communicationEdges.map jsEdge).all validEdge &&
    (result.warnings.map jsText).all (fun warning => isString (some warning))) := rfl
  have texts : (result.warnings.map jsText).all (fun warning => isString (some warning)) = true := by
    simp [jsText, isString]
  rw [e, texts]
  simp only [Bool.and_eq_true, List.all_map, List.all_eq_true, Function.comp_apply, isCount_number,
    validStats_iff, validRow_iff, validFinding_iff, validEdge_iff, List.forall_mem_cons,
    List.not_mem_nil, decide_eq_true_eq, true_and, and_true, and_assoc, false_imp_iff,
    implies_true]

theorem isAnalysisResult_parts : isAnalysisResult (jsResult result metadata) =
    (let ids := (result.rankRuntimes.map (fun p => JsValue.array [jsNumber p.1, jsNumber p.2])).map
      (fun row => numberOf (item row 0))
    validShape (jsResult result metadata) &&
    !(numberOf (some (jsNumber result.worldSize)) < 1 ||
      numberOf (some (jsNumber result.ranksObserved)) < 1 ||
      numberOf (some (jsNumber result.worldSize)) < numberOf (some (jsNumber result.ranksObserved)) ||
      result.stragglerThreshold ≤ 1 ||
      (result.rankRuntimes.map (fun p => JsValue.array [jsNumber p.1, jsNumber p.2])).length ≠
        numberOf (some (jsNumber result.ranksObserved))) &&
    !(ids.dedup.length ≠ numberOf (some (jsNumber result.ranksObserved)) ||
      ids.any (fun rank => numberOf (some (jsNumber result.worldSize)) ≤ rank) ||
      (result.stragglerRanks.map jsNumber).any (fun rank => !ids.contains (numberOf (some rank)))) &&
    !(result.communicationEdges.map jsEdge).any (fun e =>
      numberOf (some (jsNumber result.worldSize)) ≤ numberOf (property e "source") ||
        numberOf (some (jsNumber result.worldSize)) ≤ numberOf (property e "destination")) &&
    true && true && validMetadata (some metadata) &&
    (((result.ranks.map jsRank).length = numberOf (some (jsNumber result.ranksObserved))) &&
      (result.ranks.map jsRank).all (validRank ids)) &&
    (((result.timeline.map jsBucket).length ≤ 1000) &&
      (result.timeline.map jsBucket).all validBucket) : Bool) := rfl

/-- The browser takes what `analyze` has written when its counts are safe and its metadata has the
shape of a manifest. -/
theorem isAnalysisResult_iff (h : Consistent result) :
    isAnalysisResult (jsResult result metadata) = true ↔
      SafeCounts result ∧ validMetadata (some metadata) = true := by
  rw [isAnalysisResult_parts]
  simp only [Bool.and_eq_true]
  constructor
  · rintro ⟨⟨⟨⟨⟨⟨⟨⟨shape, -⟩, -⟩, -⟩, -⟩, -⟩, hmetadata⟩, -, rows⟩, -, buckets⟩
    obtain ⟨⟨world, -, median, maximum, mpi, aggregate⟩, -, -, operations, runtimes, -, edges⟩ :=
      validShape_iff.mp shape
    simp only [List.all_map, List.all_eq_true, Function.comp_apply] at rows buckets
    refine ⟨⟨world, median, maximum, mpi, aggregate, operations, fun p hp => (runtimes p hp).2,
      fun e he => (edges e he).2.1, fun row hrow => ?_, fun b hb => ?_⟩, hmetadata⟩
    · exact (validRank_iff.mp (rows row hrow)).2.2
    · exact validBucket_iff.mp (buckets b hb)
  · rintro ⟨safe, hmetadata⟩
    have observedSafe : result.ranksObserved ≤ maxSafeInteger :=
      h.ranksObserved.2.trans safe.worldSize
    have inside : ∀ {rank : Nat}, rank < result.worldSize → rank ≤ maxSafeInteger :=
      fun hr => hr.le.trans safe.worldSize
    have number : ∀ {n : Nat}, n ≤ maxSafeInteger → numberOf (some (jsNumber n)) = (n : ℚ) := by
      intro n hn
      rw [jsNumber_small hn]
      rfl
    have ids : (result.rankRuntimes.map (fun p => JsValue.array [jsNumber p.1, jsNumber p.2])).map
        (fun row => numberOf (item row 0)) =
          (result.rankRuntimes.map Prod.fst).map (Nat.cast : Nat → ℚ) := by
      rw [List.map_map, List.map_map]
      exact List.map_congr_left (fun p hp => number (inside (h.within _ (List.mem_map_of_mem hp))))
    have known : ∀ rank ∈ result.rankRuntimes.map Prod.fst, rank ≤ maxSafeInteger ∧
        numberOf (some (jsNumber rank)) ∈
          (result.rankRuntimes.map Prod.fst).map (Nat.cast : Nat → ℚ) := by
      intro rank hrank
      have small := inside (h.within rank hrank)
      rw [number small]
      exact ⟨small, List.mem_map_of_mem hrank⟩
    have shape : validShape (jsResult result metadata) = true := by
      refine validShape_iff.mpr ⟨⟨safe.worldSize, observedSafe, safe.runtimeMedianNs,
        safe.runtimeMaxNs, safe.mpiTimeNs, safe.aggregateRuntimeNs⟩,
        ⟨h.fractions.1, h.fractions.2, (zero_lt_one.trans h.stragglerThreshold).le⟩,
        fun rank hrank => (known rank (h.stragglers rank hrank)).1, safe.operations,
        fun p hp => ⟨(known _ (List.mem_map_of_mem hp)).1, safe.rankRuntimes p hp⟩, h.findings,
        fun e he => ?_⟩
      obtain ⟨⟨source, destination⟩, share⟩ := h.edges e he
      exact ⟨⟨inside source, inside destination⟩, safe.edges e he, share⟩
    rw [ids, number safe.worldSize, number observedSafe]
    refine ⟨⟨⟨⟨⟨⟨⟨⟨shape, ?_⟩, ?_⟩, ?_⟩, trivial⟩, trivial⟩, hmetadata⟩, ?_, ?_⟩, ?_, ?_⟩
    · have one : (1 : ℚ) ≤ result.worldSize := by exact_mod_cast h.worldSize
      have some : (1 : ℚ) ≤ result.ranksObserved := by exact_mod_cast h.ranksObserved.1
      have most : (result.ranksObserved : ℚ) ≤ result.worldSize := by
        exact_mod_cast h.ranksObserved.2
      simp [h.observed, h.stragglerThreshold, not_lt.mpr one, not_lt.mpr some, not_lt.mpr most]
    · have distinct : ((result.rankRuntimes.map Prod.fst).map (Nat.cast : Nat → ℚ)).dedup.length =
          result.ranksObserved := by
        rw [List.Nodup.dedup (h.distinct.map Nat.cast_injective), List.length_map,
          List.length_map, h.observed]
      rw [distinct, Bool.not_eq_true', Bool.or_eq_false_iff, Bool.or_eq_false_iff]
      refine ⟨⟨by simp, ?_⟩, ?_⟩
      · rw [List.any_eq_false, List.forall_mem_map]
        intro rank hrank
        have low : (rank : ℚ) < result.worldSize := by exact_mod_cast h.within rank hrank
        simpa using low
      · rw [List.any_eq_false, List.forall_mem_map]
        intro rank hrank
        rw [Bool.not_eq_true, Bool.not_eq_false', List.contains_iff_mem]
        exact (known rank (h.stragglers rank hrank)).2
    · rw [Bool.not_eq_true', List.any_eq_false, List.forall_mem_map]
      intro e he
      obtain ⟨source, destination⟩ := (h.edges e he).1
      have low : (e.source : ℚ) < result.worldSize := by exact_mod_cast source
      have low' : (e.destination : ℚ) < result.worldSize := by exact_mod_cast destination
      have ends : numberOf (property (jsEdge e) "source") = e.source ∧
          numberOf (property (jsEdge e) "destination") = e.destination :=
        ⟨number (inside source), number (inside destination)⟩
      rw [ends.1, ends.2]
      simp [source, destination]
    · rw [List.length_map, h.rows, decide_eq_true_iff]
    · simp only [List.all_map, List.all_eq_true, Function.comp_apply]
      intro row hrow
      obtain ⟨small, mem⟩ := known _ (h.ranks row hrow)
      exact validRank_iff.mpr ⟨small, mem, safe.ranks row hrow⟩
    · rw [List.length_map, decide_eq_true_iff]
      exact h.timeline
    · simp only [List.all_map, List.all_eq_true, Function.comp_apply]
      exact fun b hb => validBucket_iff.mpr (safe.timeline b hb)

end counts

end Browser

end RankLens
