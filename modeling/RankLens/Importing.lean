import RankLens.Aggregates

namespace RankLens

namespace Browser

open Analyzer (AnalysisResult Capture Dict Interpreter analyze fileEvents get)

section metadata

/-- A value `json.dumps` writes and `JSON.parse` reads, with room for as many nested containers. -/
def Writable : Nat → PyValue → Prop
  | _, .nonfinite => False
  | 0, .list _ => False
  | 0, .dict _ => False
  | room + 1, .list xs => ∀ x ∈ xs, Writable room x
  | room + 1, .dict members => ∀ m ∈ members, Writable room m.2
  | _, _ => True

def IsText (v : PyValue) : Prop := ∃ s, v = .str s

def AreTexts (v : PyValue) : Prop := ∃ members, v = .dict members ∧ ∀ m ∈ members, IsText m.2

/-- The metadata has the shape that the browser asks for. -/
structure ManifestShape (room : Nat) (metadata : Dict) : Prop where
  writable : Writable room (.dict metadata)
  workload : ∀ v, get metadata "workload" = some v → IsText v
  runId : ∀ v, get metadata "run_id" = some v → IsText v
  scheduler : ∀ v, get metadata "scheduler" = some v → AreTexts v
  tags : ∀ v, get metadata "tags" = some v → AreTexts v

variable {py : Interpreter} {room : Nat}

theorem exists_mapM_some {α β : Type} {f : α → Option β} (xs : List α) :
    (∃ ys, xs.mapM f = some ys) ↔ ∀ x ∈ xs, ∃ y, f x = some y := by
  induction xs with
  | nil => exact ⟨(fun _ x hx => nomatch hx), fun _ => ⟨[], rfl⟩⟩
  | cons x xs ih =>
    rw [List.forall_mem_cons, ← ih, List.mapM_cons]
    constructor
    · rintro ⟨ys, h⟩
      obtain ⟨y, hy, h⟩ := Option.bind_eq_some_iff.mp h
      obtain ⟨rest, hrest, -⟩ := Option.bind_eq_some_iff.mp h
      exact ⟨⟨y, hy⟩, rest, hrest⟩
    · rintro ⟨⟨y, hy⟩, rest, hrest⟩
      rw [hy, hrest]
      exact ⟨y :: rest, rfl⟩

theorem readBack_writable (v : PyValue) :
    (∃ j, readBack py room v = some j) ↔ Writable room v := by
  induction room generalizing v with
  | zero => cases v <;> simp [readBack, Writable]
  | succ room ih =>
    cases v with
    | none => simp [readBack, Writable]
    | bool b => simp [readBack, Writable]
    | int n => simp [readBack, Writable]
    | float repr => simp [readBack, Writable]
    | nonfinite => simp [readBack, Writable]
    | str s => simp [readBack, Writable]
    | list xs =>
      rw [readBack, Writable]
      simp only [Option.map_eq_some_iff, ← ih]
      rw [← exists_mapM_some]
      exact ⟨fun ⟨_, ys, h, _⟩ => ⟨ys, h⟩, fun ⟨ys, h⟩ => ⟨_, ys, h, rfl⟩⟩
    | dict members =>
      rw [readBack, Writable]
      have each : ∀ m : PyStr × PyValue, (∃ j, readBack py room m.2 = some j) ↔
          ∃ p, (readBack py room m.2).map (fun v => (m.1, v)) = some p := by
        intro m
        simp only [Option.map_eq_some_iff]
        exact ⟨fun ⟨j, h⟩ => ⟨_, j, h, rfl⟩, fun ⟨_, j, h, _⟩ => ⟨j, h⟩⟩
      simp only [← ih, each]
      rw [← exists_mapM_some]
      simp only [Option.map_eq_some_iff]
      exact ⟨fun ⟨_, ys, h, _⟩ => ⟨ys, h⟩, fun ⟨ys, h⟩ => ⟨_, ys, h, rfl⟩⟩

theorem readBack_members {members : Dict} {js : List (PyStr × JsValue)}
    (h : members.mapM (fun m => (readBack py room m.2).map (fun v => (m.1, v))) = some js)
    (p : PyValue → Prop) (q : JsValue → Bool)
    (same : ∀ v j, readBack py room v = some j → (q j = true ↔ p v)) :
    (js.all (fun m => q m.2) = true ↔ ∀ m ∈ members, p m.2) ∧
      ∀ key, (match js.lookup key with | none => true | some j => q j) = true ↔
        ∀ v, members.lookup key = some v → p v := by
  induction members generalizing js with
  | nil =>
    obtain rfl : [] = js := Option.some.inj h
    exact ⟨by simp, fun key => by simp⟩
  | cons m members ih =>
    rw [List.mapM_cons] at h
    obtain ⟨first, hfirst, h⟩ := Option.bind_eq_some_iff.mp h
    obtain ⟨rest, hrest, h⟩ := Option.bind_eq_some_iff.mp h
    obtain rfl := Option.some.inj h
    obtain ⟨j, hj, rfl⟩ := Option.map_eq_some_iff.mp hfirst
    obtain ⟨every, under⟩ := ih hrest
    have here := same m.2 j hj
    refine ⟨?_, fun key => ?_⟩
    · rw [List.all_cons, Bool.and_eq_true, every, here, List.forall_mem_cons]
    · rw [List.lookup_cons, List.lookup_cons]
      cases hk : key == m.1 with
      | true => simpa using here
      | false => exact under key

theorem readBack_string {v : PyValue} {s : PyStr} (h : readBack py room v = some (.string s)) :
    v = .str s := by
  cases room <;> cases v <;> simp_all [readBack]

theorem readBack_object {v : PyValue} {js : List (PyStr × JsValue)}
    (h : readBack py room v = some (.object js)) : ∃ members room', v = .dict members ∧
      members.mapM (fun m => (readBack py room' m.2).map (fun v => (m.1, v))) = some js := by
  cases room <;> cases v <;> simp_all [readBack]
  exact ⟨_, h⟩

theorem isString_readBack {v : PyValue} {j : JsValue} (h : readBack py room v = some j) :
    isString (some j) = true ↔ IsText v := by
  constructor
  · intro hj
    cases j <;> simp only [isString, Bool.false_eq_true] at hj
    exact ⟨_, readBack_string h⟩
  · rintro ⟨s, rfl⟩
    have read : readBack py room (.str s) = some (.string s) := by cases room <;> rfl
    obtain rfl := Option.some.inj (read.symm.trans h)
    rfl

theorem strings_readBack {v : PyValue} {j : JsValue} (h : readBack py room v = some j) :
    strings (some j) = true ↔ AreTexts v := by
  constructor
  · intro hj
    cases j <;> simp only [strings, everyEntry, Bool.false_eq_true] at hj
    obtain ⟨members, room', rfl, read⟩ := readBack_object h
    exact ⟨members, rfl, (readBack_members read IsText (fun j => isString (some j))
      (fun _ _ => isString_readBack)).1.mp hj⟩
  · rintro ⟨members, rfl, texts⟩
    cases room with
    | zero => exact nomatch h
    | succ room =>
      rw [readBack, Option.map_eq_some_iff] at h
      obtain ⟨js, read, rfl⟩ := h
      exact (readBack_members read IsText (fun j => isString (some j))
        (fun _ _ => isString_readBack)).1.mpr texts

theorem validMetadata_iff {metadata : Dict} :
    (∃ j, readBack py room (.dict metadata) = some j ∧ validMetadata (some j) = true) ↔
      ManifestShape room metadata := by
  have under : ∀ {room : Nat} {js : List (PyStr × JsValue)},
      metadata.mapM (fun m => (readBack py room m.2).map (fun v => (m.1, v))) = some js →
      (validMetadata (some (.object js)) = true ↔
        (∀ v, get metadata "workload" = some v → IsText v) ∧
        (∀ v, get metadata "run_id" = some v → IsText v) ∧
        (∀ v, get metadata "scheduler" = some v → AreTexts v) ∧
        ∀ v, get metadata "tags" = some v → AreTexts v) := by
    intro room js read
    have text := (readBack_members read IsText (fun j => isString (some j))
      (fun _ _ => isString_readBack)).2
    have texts := (readBack_members read AreTexts (fun j => strings (some j))
      (fun _ _ => strings_readBack)).2
    rw [validMetadata, Bool.and_eq_true, Bool.and_eq_true, Bool.and_eq_true, and_assoc, and_assoc]
    exact and_congr (text _) (and_congr (text _) (and_congr (texts _) (texts _)))
  constructor
  · rintro ⟨j, h, hj⟩
    have writable := (readBack_writable (.dict metadata)).mp ⟨j, h⟩
    cases room with
    | zero => exact nomatch h
    | succ room =>
      rw [readBack, Option.map_eq_some_iff] at h
      obtain ⟨js, read, rfl⟩ := h
      obtain ⟨workload, runId, scheduler, tags⟩ := (under read).mp hj
      exact ⟨writable, workload, runId, scheduler, tags⟩
  · intro shape
    obtain ⟨j, h⟩ := (readBack_writable (.dict metadata)).mpr shape.writable
    refine ⟨j, h, ?_⟩
    cases room with
    | zero => exact nomatch h
    | succ room =>
      rw [readBack, Option.map_eq_some_iff] at h
      obtain ⟨js, read, rfl⟩ := h
      exact (under read).mpr ⟨shape.workload, shape.runId, shape.scheduler, shape.tags⟩

end metadata

section importing

open Analyzer (Overviewed Reported operationTotal payloadOver sendsOver fallsInto
  durationIn failed)

/-- The counts that a capture adds up to are safe, its operations are named, and `run.json` has the
shape of a manifest. -/
structure Importable (py : Interpreter) (capture : Capture) (summaries : List Analyzer.RankSummary)
    (metadata : Dict) : Prop where
  worldSize : (summaries.head?.map Analyzer.RankSummary.worldSize).getD 0 ≤ maxSafeInteger
  runtimes : (summaries.map Analyzer.RankSummary.runtimeNs).sum ≤ maxSafeInteger
  mpiTimes : (summaries.map Analyzer.RankSummary.mpiTimeNs).sum ≤ maxSafeInteger
  operations : ∀ name ∈ (summaries.flatMap Analyzer.RankSummary.operations).map Prod.fst,
    name ≠ [] ∧ ∀ part ∈ [Analyzer.OperationStats.calls, Analyzer.OperationStats.durationNs,
      Analyzer.OperationStats.payloadBytes],
      operationTotal part name (summaries.flatMap Analyzer.RankSummary.operations) ≤ maxSafeInteger
  edges : ∀ key, payloadOver py ((summaries.head?.map Analyzer.RankSummary.worldSize).getD 0) key
      (capture.events.flatMap (fileEvents py)) ≤ maxSafeInteger ∧
    ((capture.events.flatMap (fileEvents py)).filter (fun e => !failed py e)).countP
      (sendsOver ((summaries.head?.map Analyzer.RankSummary.worldSize).getD 0) key) ≤ maxSafeInteger
  timeline : ∀ i < 50,
    ((capture.events.flatMap (fileEvents py)).filter (fun e => !failed py e)).countP
      (fallsInto ((summaries.map Analyzer.RankSummary.runtimeNs).foldr max 0) i) ≤ maxSafeInteger ∧
    (((capture.events.flatMap (fileEvents py)).filter (fun e => !failed py e)).map (durationIn
      ((summaries.map Analyzer.RankSummary.runtimeNs).foldr max 0) i)).sum ≤ maxSafeInteger
  metadata : ManifestShape py.room metadata

variable {py : Interpreter} {capture : Capture} {threshold : ℚ} {result : AnalysisResult}
  {o : Analyzer.Overview} {summaries : List Analyzer.RankSummary}

theorem analyze_consistent (h : analyze py capture threshold = .ok result) : Consistent result := by
  obtain ⟨o, s, unsorted, ho, hs, hshares, hresult⟩ := Analyzer.analyze_ok h
  obtain ⟨o', ho', reported⟩ := Analyzer.analyze_reported h
  obtain rfl := Except.ok.inj (ho.symm.trans ho')
  have viewed := Analyzer.overview_overviewed ho
  obtain ⟨-, e, herr⟩ | ⟨-, s', hok, grown⟩ := @Analyzer.loadFiles_cases py o.worldSize
    o.maximumRuntime capture.events (o.evidence py capture)
  · exact nomatch hs.symm.trans herr
  obtain rfl := Except.ok.inj (hs.symm.trans hok)
  have ids : (result.rankRuntimes.map Prod.fst).Perm
      (o.summaries.map Analyzer.RankSummary.rank) := by
    have mapped := reported.rankRuntimes.map Prod.fst
    rwa [List.map_map] at mapped
  have known : ∀ rank, rank ∈ result.rankRuntimes.map Prod.fst ↔
      rank ∈ o.summaries.map Analyzer.RankSummary.rank := fun rank => ids.mem_iff
  have observed : result.rankRuntimes.length = result.ranksObserved := by
    rw [reported.rankRuntimes.length_eq, List.length_map, reported.ranksObserved]
  have some : 1 ≤ o.summaries.length := List.length_pos_iff.mpr viewed.ranked.some
  have few := viewed.ranked.length_le
  have within : ∀ e ∈ s.edges, e.1.1 < o.worldSize ∧ e.1.2 < o.worldSize := by
    rw [grown.edges]
    exact Analyzer.addSend_within _ (fun e he => nomatch he)
  refine ⟨?_, ?_, ?_, reported.fractions, observed,
    ids.nodup_iff.mpr viewed.ranked.distinct, ?_, ?_, ?_, reported.findings, ?_, ?_, ?_⟩
  · rw [hresult.worldSize]
    exact some.trans few
  · rw [reported.ranksObserved, hresult.worldSize]
    exact ⟨some, few⟩
  · rw [reported.stragglerThreshold]
    exact viewed.threshold
  · intro rank hrank
    obtain ⟨summary, hsummary, rfl⟩ := List.mem_map.mp ((known rank).mp hrank)
    rw [hresult.worldSize]
    exact viewed.ranked.within summary hsummary
  · rw [reported.stragglerRanks]
    exact fun rank hrank => (known rank).mpr (viewed.stragglers rank hrank)
  · rw [hresult.communicationEdges, hresult.worldSize]
    have each : ∀ edge ∈ unsorted, (edge.source < o.worldSize ∧ edge.destination < o.worldSize) ∧
        0 ≤ edge.trafficShare := by
      refine Analyzer.mapM_forall hshares (fun e he edge hshare => ?_)
      obtain ⟨share, hdiv, hshare⟩ := Analyzer.bind_ok_iff.mp hshare
      obtain rfl := Except.ok.inj hshare
      refine ⟨within e he, ?_⟩
      show 0 ≤ share
      rw [Analyzer.trueDiv_value hdiv]
      exact Analyzer.float_nonneg (div_nonneg (Nat.cast_nonneg _) (Nat.cast_nonneg _))
    exact fun edge hedge => each edge (List.mem_mergeSort.mp hedge)
  · rw [reported.ranks.length_eq, List.length_map, reported.ranksObserved]
  · intro row hrow
    obtain ⟨summary, hsummary, rfl⟩ := List.mem_map.mp (reported.ranks.subset hrow)
    exact (known _).mpr (List.mem_map_of_mem hsummary)
  · rw [hresult.timeline, grown.timeline]
    have length : ∀ (events : List Dict) (t : List Analyzer.Bucket),
        (events.foldl (Analyzer.addTime py o.maximumRuntime) t).length = t.length := by
      intro events t
      have same := fun i => @Analyzer.bucket_fold py o.maximumRuntime events t i
      refine le_antisymm (Nat.le_of_not_lt (fun hlt => ?_)) (Nat.le_of_not_lt (fun hlt => ?_))
      · have there := same t.length
        rw [List.getElem?_eq_none le_rfl, Option.map_none, List.getElem?_eq_none_iff] at there
        omega
      · have there := same (events.foldl (Analyzer.addTime py o.maximumRuntime) t).length
        rw [List.getElem?_eq_none le_rfl, eq_comm, Option.map_eq_none_iff,
          List.getElem?_eq_none_iff] at there
        omega
    rw [length]
    show ((List.range 50).map _).length ≤ 1000
    rw [List.length_map, List.length_range]
    decide

theorem operations_bounded (bound : Nat) : (∀ m ∈ Analyzer.aggregateOperations summaries,
    m.1 ≠ [] ∧ m.2.calls ≤ bound ∧ m.2.durationNs ≤ bound ∧ m.2.payloadBytes ≤ bound) ↔
      ∀ name ∈ (summaries.flatMap Analyzer.RankSummary.operations).map Prod.fst, name ≠ [] ∧
        ∀ part ∈ [Analyzer.OperationStats.calls, Analyzer.OperationStats.durationNs,
            Analyzer.OperationStats.payloadBytes],
          operationTotal part name (summaries.flatMap Analyzer.RankSummary.operations) ≤ bound := by
  obtain ⟨names, sums⟩ := Analyzer.aggregateOperations_summed summaries
  constructor
  · intro hall name hname
    obtain ⟨m, hm, rfl⟩ := List.mem_map.mp ((names name).mpr hname)
    have counted := hall m hm
    rw [sums m hm] at counted
    refine ⟨counted.1, List.forall_mem_cons.mpr ⟨counted.2.1, List.forall_mem_cons.mpr
      ⟨counted.2.2.1, List.forall_mem_singleton.mpr counted.2.2.2⟩⟩⟩
  · intro hall m hm
    obtain ⟨named, parts⟩ := hall m.1 ((names m.1).mp (List.mem_map_of_mem hm))
    rw [sums m hm]
    exact ⟨named, parts _ (by simp), parts _ (by simp), parts _ (by simp)⟩

theorem runtimes_bounded (viewed : Overviewed py capture threshold o)
    (h : o.aggregateRuntime ≤ maxSafeInteger) : o.maximumRuntime ≤ maxSafeInteger ∧
      o.medianRuntime ≤ maxSafeInteger ∧
      ∀ s ∈ o.summaries, s.runtimeNs ≤ maxSafeInteger := by
  rw [viewed.aggregate] at h
  have each : ∀ r ∈ o.summaries.map Analyzer.RankSummary.runtimeNs, r ≤ maxSafeInteger :=
    fun r hr => (List.le_sum_of_mem hr).trans h
  refine ⟨?_, Analyzer.median_le viewed.median each (by decide), List.forall_mem_map.mp each⟩
  rw [viewed.maximum]
  clear viewed h
  generalize o.summaries.map Analyzer.RankSummary.runtimeNs = runtimes at each
  induction runtimes with
  | nil => exact Nat.zero_le _
  | cons r runtimes ih =>
    obtain ⟨hr, each⟩ := List.forall_mem_cons.mp each
    exact max_le hr (ih each)

theorem safeCounts_iff (h : analyze py capture threshold = .ok result)
    (ho : Analyzer.overview py capture threshold = .ok o)
    (shape : ManifestShape py.room o.metadata) :
    SafeCounts result ↔ Importable py capture o.summaries o.metadata := by
  obtain ⟨o₁, s, unsorted, ho₁, -, -, hresult⟩ := Analyzer.analyze_ok h
  obtain rfl := Except.ok.inj (ho.symm.trans ho₁)
  obtain ⟨o₂, ho₂, reported⟩ := Analyzer.analyze_reported h
  obtain rfl := Except.ok.inj (ho.symm.trans ho₂)
  have viewed := Analyzer.overview_overviewed ho
  have edges := Analyzer.edges_bounded h ho maxSafeInteger
  have operations := @operations_bounded o.summaries maxSafeInteger
  rw [viewed.worldSize] at edges
  constructor
  · intro safe
    have runtimes : o.aggregateRuntime ≤ maxSafeInteger :=
      reported.aggregateRuntimeNs ▸ safe.aggregateRuntimeNs
    have maximum := (runtimes_bounded viewed runtimes).1
    have timeline := (Analyzer.timeline_bounded h ho maximum).mp safe.timeline
    rw [viewed.maximum] at timeline
    refine ⟨?_, viewed.aggregate ▸ runtimes, ?_, operations.mp ?_, edges.mp safe.edges, timeline,
      shape⟩
    · rw [← viewed.worldSize, ← hresult.worldSize]
      exact safe.worldSize
    · rw [← viewed.mpiTime, ← reported.mpiTimeNs]
      exact safe.mpiTimeNs
    · intro m hm
      obtain ⟨named, calls, durationNs, payloadBytes⟩ :=
        safe.operations m (reported.operations ▸ hm)
      exact ⟨named, calls, durationNs, payloadBytes⟩
  · intro importable
    have runtimes : o.aggregateRuntime ≤ maxSafeInteger := viewed.aggregate ▸ importable.runtimes
    obtain ⟨maximum, median, each⟩ := runtimes_bounded viewed runtimes
    have timeline := importable.timeline
    rw [← viewed.maximum] at timeline
    have mpi : o.mpiTime ≤ maxSafeInteger := viewed.mpiTime ▸ importable.mpiTimes
    refine ⟨?_, reported.runtimeMedianNs ▸ median, hresult.runtimeMaxNs ▸ maximum,
      reported.mpiTimeNs ▸ mpi, reported.aggregateRuntimeNs ▸ runtimes, ?_, ?_,
      edges.mpr importable.edges, ?_, (Analyzer.timeline_bounded h ho maximum).mpr timeline⟩
    · rw [hresult.worldSize, viewed.worldSize]
      exact importable.worldSize
    · rw [reported.operations]
      intro m hm
      obtain ⟨named, calls, durationNs, payloadBytes⟩ := operations.mpr importable.operations m hm
      exact ⟨named, calls, durationNs, payloadBytes⟩
    · intro p hp
      obtain ⟨summary, hsummary, rfl⟩ := List.mem_map.mp (reported.rankRuntimes.subset hp)
      exact each summary hsummary
    · intro row hrow
      obtain ⟨summary, hsummary, rfl⟩ := List.mem_map.mp (reported.ranks.subset hrow)
      exact ⟨each summary hsummary,
        (List.le_sum_of_mem (List.mem_map_of_mem hsummary)).trans importable.mpiTimes⟩

/-- What `analyze` returns can be imported in the browser exactly when the counts of its capture are
safe integers, no operation has an empty name, and `run.json` has the shape of a manifest. -/
theorem exported_importable_iff (h : analyze py capture threshold = .ok result) :
    (∃ j, exported py result = some j ∧ isAnalysisResult j = true) ↔
      ∃ summaries metadata, Analyzer.loadSummaries py capture = .ok summaries ∧
        Analyzer.loadMetadata py capture.manifest = .ok metadata ∧
        Importable py capture summaries metadata := by
  obtain ⟨o, ho, reported⟩ := Analyzer.analyze_reported h
  have viewed := Analyzer.overview_overviewed ho
  have written : (∃ j, exported py result = some j ∧ isAnalysisResult j = true) ↔
      SafeCounts result ∧ ManifestShape py.room o.metadata := by
    rw [← @validMetadata_iff py, ← reported.metadata]
    unfold exported
    constructor
    · rintro ⟨j, hj, valid⟩
      obtain ⟨metadata, read, rfl⟩ := Option.map_eq_some_iff.mp hj
      obtain ⟨safe, hmetadata⟩ := (isAnalysisResult_iff (analyze_consistent h)).mp valid
      exact ⟨safe, metadata, read, hmetadata⟩
    · rintro ⟨safe, metadata, read, hmetadata⟩
      exact ⟨_, Option.map_eq_some_iff.mpr ⟨metadata, read, rfl⟩,
        (isAnalysisResult_iff (analyze_consistent h)).mpr ⟨safe, hmetadata⟩⟩
  rw [written]
  constructor
  · rintro ⟨safe, shape⟩
    exact ⟨_, _, viewed.summaries, viewed.metadata, (safeCounts_iff h ho shape).mp safe⟩
  · rintro ⟨summaries, metadata, hsummaries, hmetadata, importable⟩
    obtain rfl := Except.ok.inj (viewed.summaries.symm.trans hsummaries)
    obtain rfl := Except.ok.inj (viewed.metadata.symm.trans hmetadata)
    exact ⟨(safeCounts_iff h ho importable.metadata).mpr importable, importable.metadata⟩

/-- A summary of the only rank, with its runtime. -/
def rankText (runtimeNs : Nat) : PyStr := Analyzer.written
  ["\x7b\"schema_version\": 1, ", "\"rank\": 0, ", "\"world_size\": 1, ",
    "\"hostname\": \"n1\", ", "\"pid\": 7, ", "\"runtime_ns\": ", toString runtimeNs, ", ",
    "\"mpi_time_ns\": 5, ", "\"mpi_calls\": 1, ", "\"bytes_sent\": 0, ",
    "\"bytes_received\": 0, ", "\"operations\": \x7b\"MPI_Barrier\": ",
    "\x7b\"calls\": 1, \"duration_ns\": 5, \"payload_bytes\": 0\x7d\x7d\x7d"]

def rankValue (runtimeNs : Nat) : PyValue := Analyzer.object [("schema_version", .int 1),
  ("rank", .int 0), ("world_size", .int 1), ("hostname", .str (PyStr.ofString "n1")),
  ("pid", .int 7), ("runtime_ns", .int runtimeNs), ("mpi_time_ns", .int 5), ("mpi_calls", .int 1),
  ("bytes_sent", .int 0), ("bytes_received", .int 0), ("operations", Analyzer.object
    [("MPI_Barrier", Analyzer.object
      [("calls", .int 1), ("duration_ns", .int 5), ("payload_bytes", .int 0)])])]

def runText : PyStr := Analyzer.written ["\x7b\"workload\": \"heat\"\x7d"]

def runReader (runtimeNs : Nat) : Interpreter := Analyzer.reader
  [(rankText runtimeNs, rankValue runtimeNs),
    (runText, Analyzer.object [("workload", .str (PyStr.ofString "heat"))])]

def oneRank (runtimeNs : Nat) : Capture where
  directory := "capture"
  summaries := [⟨"rank-00000-summary.json", .text (rankText runtimeNs)⟩]
  manifest := some (.text runText)
  events := []

theorem analyzed_of_any {outcome : Except Analyzer.Escape AnalysisResult}
    {p : AnalysisResult → Bool} (h : outcome.toOption.any p = true) :
    ∃ result, outcome = .ok result ∧ p result = true := by
  cases outcome with
  | error e => exact nomatch h
  | ok result => exact ⟨result, rfl, h⟩

theorem exported_importable_run : ∃ result,
    analyze (runReader 1000) (oneRank 1000) 2 = .ok result ∧
      (∃ j, exported (runReader 1000) result = some j ∧ isAnalysisResult j = true) ∧
      ∃ summaries metadata,
        Analyzer.loadSummaries (runReader 1000) (oneRank 1000) = .ok summaries ∧
        Analyzer.loadMetadata (runReader 1000) (oneRank 1000).manifest = .ok metadata ∧
        Importable (runReader 1000) (oneRank 1000) summaries metadata := by
  obtain ⟨result, h, shown⟩ := @analyzed_of_any (analyze (runReader 1000) (oneRank 1000) 2)
    (fun result => (exported (runReader 1000) result).any isAnalysisResult) (by decide +kernel)
  have accepted := (Option.any_eq_true _ _).mp shown
  exact ⟨result, h, accepted, (exported_importable_iff h).mp accepted⟩

/-- A runtime of 2^53 ns fits the counters of a recorder, and the browser rejects the analysis. -/
theorem long_run_rejected : ¬∀ (py : Interpreter) (capture : Capture) (threshold : ℚ)
    (result : AnalysisResult), analyze py capture threshold = .ok result →
      ∃ j, exported py result = some j ∧ isAnalysisResult j = true := by
  intro claimed
  obtain ⟨result, h, hidden⟩ := @analyzed_of_any
    (analyze (runReader (2 ^ 53)) (oneRank (2 ^ 53)) 2)
    (fun result => !(exported (runReader (2 ^ 53)) result).any isAnalysisResult) (by decide +kernel)
  obtain ⟨j, hj, accepted⟩ := claimed _ _ _ result h
  rw [hj, Option.any_some, accepted] at hidden
  exact nomatch hidden

end importing

end Browser

end RankLens
