import RankLens.JsonText
import RankLens.Observed
import RankLens.Recorder

namespace RankLens

open JsonText

namespace RankSummary

section document

variable {d : RankSummary}

def statsEntries (s : OperationStats) : List Entry :=
  [⟨"calls", JsonValue.digits s.calls, .int s.calls⟩,
    ⟨"duration_ns", JsonValue.digits s.durationNs, .int s.durationNs⟩,
    ⟨"payload_bytes", JsonValue.digits s.payloadBytes, .int s.payloadBytes⟩,
    ⟨"record_kind", recorderQuote s.recordKind, .str (PyStr.ofString s.recordKind)⟩]

def braced (lead blanks tail : List Char) (es : List Entry) : List Char :=
  '\x7b' :: (lead ++ (List.intercalate (',' :: blanks) (es.map (Entry.member [' '])) ++
    (tail ++ ['\x7d'])))

def operationEntry (s : OperationStats) : Entry :=
  ⟨s.name, braced [] [' '] [] (statsEntries s), .dict ((statsEntries s).map Entry.entry)⟩

def contextEntry (m : String × String) : Entry :=
  ⟨m.1, recorderQuote m.2, .str (PyStr.ofString m.2)⟩

/-- The operations as they are laid out, which leave no line when there are none. -/
def operationsText (d : RankSummary) : List Char :=
  if d.operations = [] then '\x7b' :: (['\n', ' ', ' '] ++ ['\x7d'])
  else braced ['\n', ' ', ' ', ' ', ' '] ['\n', ' ', ' ', ' ', ' '] ['\n', ' ', ' ']
    (d.operations.map operationEntry)

def entries (d : RankSummary) : List Entry :=
  [⟨"schema_version", JsonValue.digits 2, .int 2⟩,
    ⟨"complete", JsonValue.marshal (.bool d.complete), .bool d.complete⟩,
    ⟨"capture_state", recorderQuote d.captureState, .str (PyStr.ofString d.captureState)⟩,
    ⟨"finalize_return_code", JsonValue.digits d.finalizeReturnCode, .int d.finalizeReturnCode⟩,
    ⟨"context", braced [] [' '] [] (d.context.map contextEntry),
      .dict ((d.context.map contextEntry).map Entry.entry)⟩,
    ⟨"rank", JsonValue.digits d.rank, .int d.rank⟩,
    ⟨"world_size", JsonValue.digits d.worldSize, .int d.worldSize⟩,
    ⟨"hostname", recorderQuote d.hostname, .str (PyStr.ofString d.hostname)⟩,
    ⟨"pid", JsonValue.digits d.pid, .int d.pid⟩,
    ⟨"runtime_ns", JsonValue.digits d.runtimeNs, .int d.runtimeNs⟩,
    ⟨"mpi_time_ns", JsonValue.digits d.mpiTimeNs, .int d.mpiTimeNs⟩,
    ⟨"mpi_calls", JsonValue.digits d.mpiCalls, .int d.mpiCalls⟩,
    ⟨"request_completions", JsonValue.digits d.requestCompletions, .int d.requestCompletions⟩,
    ⟨"failed_calls", JsonValue.digits d.failedCalls, .int d.failedCalls⟩,
    ⟨"bytes_sent", JsonValue.digits d.bytesSent, .int d.bytesSent⟩,
    ⟨"bytes_received", JsonValue.digits d.bytesReceived, .int d.bytesReceived⟩,
    ⟨"operations", operationsText d, .dict ((d.operations.map operationEntry).map Entry.entry)⟩]

theorem text_entries (d : RankSummary) :
    d.text = braced ['\n', ' ', ' '] ['\n', ' ', ' '] ['\n'] d.entries ++ ['\n'] := by
  have stats : ∀ s : OperationStats, s.text = (operationEntry s).member [' '] := by
    intro s
    simp only [OperationStats.text, operationEntry, Entry.member, recorderMember, statsEntries,
      braced, List.map_cons, List.map_nil, List.cons_append, List.nil_append, List.append_assoc]
  have operations : (Char.ofNat 123 :: '\n' ::
      if d.operations.map OperationStats.text = [] then [] else [' ', ' ', ' ', ' '] ++
        List.intercalate [',', '\n', ' ', ' ', ' ', ' '] (d.operations.map OperationStats.text) ++
        ['\n']) ++ [' ', ' ', Char.ofNat 125] = operationsText d := by
    unfold operationsText
    by_cases h : d.operations = []
    · rw [h]
      rfl
    · rw [if_neg (by simpa using h), if_neg h, List.map_congr_left (fun s _ => stats s)]
      simp only [braced, List.map_map, List.cons_append, List.nil_append, List.append_assoc]
      rfl
  have context : (Char.ofNat 123 :: List.intercalate [',', ' ']
      (d.context.map (fun m => recorderMember m.1 (recorderQuote m.2))) ++ [Char.ofNat 125]) =
      braced [] [' '] [] (d.context.map contextEntry) := by
    simp only [braced, recorderMember, List.map_map, List.cons_append, List.nil_append,
      List.append_assoc]
    rfl
  unfold RankSummary.text
  dsimp only
  rw [context, operations]
  simp only [entries, braced, List.map_cons, List.map_nil, Entry.member, recorderMember,
    List.cons_append, List.nil_append, List.append_assoc]
  rfl

def kindTotal (kind : String) (operations : List OperationStats) : Nat :=
  ((operations.filter (fun s => s.recordKind = kind)).map OperationStats.calls).sum

/-- What the recorder sees to in a document. -/
structure Sound (d : RankSummary) : Prop where
  state : d.captureState ∈ ["collecting", "pre_finalize", "finalized", "finalize_failed"]
  returned : 0 ≤ d.finalizeReturnCode
  inside : d.rank < d.worldSize
  keys : (d.context.map Prod.fst).Nodup
  named : (d.operations.map OperationStats.name).Nodup
  kinds : ∀ s ∈ d.operations, s.recordKind = "api_call" ∨ s.recordKind = "request_completion"
  apiCalls : d.mpiCalls = kindTotal "api_call" d.operations
  completions : d.requestCompletions = kindTotal "request_completion" d.operations

/-- No number of the document leaves 64 bits. -/
structure InRange (d : RankSummary) : Prop where
  returned : d.finalizeReturnCode.natAbs < 2 ^ 64
  numbers : ∀ n ∈ [d.rank, d.worldSize, d.pid, d.runtimeNs, d.mpiTimeNs, d.mpiCalls,
    d.requestCompletions, d.failedCalls, d.bytesSent, d.bytesReceived], n < 2 ^ 64
  stats : ∀ s ∈ d.operations, ∀ n ∈ [s.calls, s.durationNs, s.payloadBytes], n < 2 ^ 64

/-- What `load_summary` makes of the document. -/
def read (d : RankSummary) : Analyzer.RankSummary where
  rank := d.rank
  worldSize := d.worldSize
  hostname := PyStr.ofString d.hostname
  pid := d.pid
  runtimeNs := d.runtimeNs
  mpiTimeNs := d.mpiTimeNs
  mpiCalls := d.mpiCalls
  bytesSent := d.bytesSent
  bytesReceived := d.bytesReceived
  operations := d.operations.map (fun s =>
    (PyStr.ofString s.name, ⟨s.calls, s.durationNs, s.payloadBytes⟩))
  synthetic := false
  complete := d.complete
  context := d.context.map (fun m => (PyStr.ofString m.1, PyStr.ofString m.2))

theorem reads_natural {depth n : Nat} (h : n < 2 ^ 64) :
    Reads (value depth) (JsonValue.digits n) (.int n) := reads_digits (digits_short h)

theorem reads_braced {depth : Nat} {lead blanks tail : List Char} {es : List Entry} (hne : es ≠ [])
    (hdistinct : (es.map Entry.key).Nodup) (hlead : ∀ b ∈ lead, isBlank b = true)
    (hblanks : ∀ b ∈ blanks, isBlank b = true) (htail : tail = [] ∨ ∃ t, tail = '\n' :: t)
    (hspace : ∀ b ∈ tail, isBlank b = true)
    (hes : ∀ e ∈ es, Reads (value depth) e.text e.value) :
    Reads (value (depth + 1)) (braced lead blanks tail es) (.dict (es.map Entry.entry)) :=
  reads_object hne hdistinct hlead (List.all_eq_true.mp (by decide)) hblanks
    htail hspace hes

theorem operationEntry_reads {s : OperationStats}
    (h : ∀ n ∈ [s.calls, s.durationNs, s.payloadBytes], n < 2 ^ 64) :
    Reads (value 1) (operationEntry s).text (operationEntry s).value := by
  have keys : ((statsEntries s).map Entry.key).Nodup := by
    show ["calls", "duration_ns", "payload_bytes", "record_kind"].Nodup
    decide
  refine reads_braced (List.cons_ne_nil _ _) keys (List.all_eq_true.mp (by decide))
    (List.all_eq_true.mp (by decide)) (.inl rfl) (List.all_eq_true.mp (by decide)) (fun e he => ?_)
  simp only [List.forall_mem_cons] at h
  simp only [statsEntries, List.mem_cons, List.not_mem_nil, or_false] at he
  obtain rfl | rfl | rfl | rfl := he
  · exact reads_natural h.1
  · exact reads_natural h.2.1
  · exact reads_natural h.2.2.1
  · exact reads_quote _

theorem operationsText_reads (hnamed : (d.operations.map OperationStats.name).Nodup)
    (h : ∀ s ∈ d.operations, ∀ n ∈ [s.calls, s.durationNs, s.payloadBytes], n < 2 ^ 64) :
    Reads (value 2) (operationsText d) (.dict ((d.operations.map operationEntry).map Entry.entry)) := by
  unfold operationsText
  by_cases hne : d.operations = []
  · rw [if_pos hne, hne]
    exact reads_empty (List.all_eq_true.mp (by decide))
  · rw [if_neg hne]
    refine reads_braced (by simpa using hne) ?_ (List.all_eq_true.mp (by decide))
      (List.all_eq_true.mp (by decide)) (.inr ⟨_, rfl⟩) (List.all_eq_true.mp (by decide)) ?_
    · rwa [List.map_map]
    · rw [List.forall_mem_map]
      exact fun s hs => operationEntry_reads (h s hs)

theorem parse_text (hs : d.Sound) (hr : d.InRange) (hcontext : d.context ≠ []) :
    parse d.text = some (.dict (d.entries.map Entry.entry)) := by
  have keys : (d.entries.map Entry.key).Nodup := by
    show ["schema_version", "complete", "capture_state", "finalize_return_code", "context", "rank",
      "world_size", "hostname", "pid", "runtime_ns", "mpi_time_ns", "mpi_calls",
      "request_completions", "failed_calls", "bytes_sent", "bytes_received", "operations"].Nodup
    decide
  rw [text_entries]
  refine parse_reads (reads_braced (List.cons_ne_nil _ _) keys (List.all_eq_true.mp (by decide))
    (List.all_eq_true.mp (by decide)) (.inr ⟨_, rfl⟩) (List.all_eq_true.mp (by decide)) (fun e he => ?_))
  obtain ⟨returned, numbers, stats⟩ := hr
  simp only [List.forall_mem_cons] at numbers
  obtain ⟨rank, worldSize, pid, runtime, mpiTime, mpiCalls, completions, failed, sent, received, -⟩ :=
    numbers
  simp only [entries, List.mem_cons, List.not_mem_nil, or_false] at he
  obtain rfl | rfl | rfl | rfl | rfl | rfl | rfl | rfl | rfl | rfl | rfl | rfl | rfl | rfl | rfl |
    rfl | rfl := he
  · exact @reads_digits 2 2 (digits_short (by decide))
  · exact reads_bool _
  · exact reads_quote _
  · exact reads_digits (digits_short returned)
  · refine reads_braced (by simpa using hcontext) ?_ (List.all_eq_true.mp (by decide))
      (List.all_eq_true.mp (by decide)) (.inl rfl) (List.all_eq_true.mp (by decide)) ?_
    · rw [List.map_map]
      exact hs.keys
    · rw [List.forall_mem_map]
      exact fun m _ => reads_quote _
  · exact reads_natural rank
  · exact reads_natural worldSize
  · exact reads_quote _
  · exact reads_natural pid
  · exact reads_natural runtime
  · exact reads_natural mpiTime
  · exact reads_natural mpiCalls
  · exact reads_natural completions
  · exact reads_natural failed
  · exact reads_natural sent
  · exact reads_natural received
  · exact operationsText_reads hs.named stats

end document

section parsing

open Analyzer (bind_ok_iff get requiredInt Tally Escape Interpreter parseSummary)

variable {d : RankSummary} {py : Interpreter} {path : String}

theorem get_entries (es : List Entry) (key : String) :
    get (es.map Entry.entry) key = (es.find? (fun e => key == e.key)).map Entry.value := by
  induction es with
  | nil => rfl
  | cons e es ih =>
    unfold Analyzer.get at ih ⊢
    rw [List.map_cons, Entry.entry, List.lookup_cons]
    by_cases h : key = e.key
    · rw [h, beq_self_eq_true, List.find?_cons_of_pos (by simp)]
      rfl
    · have other : ¬PyStr.ofString key = PyStr.ofString e.key := fun he => h (ofString_injective he)
      rw [show (PyStr.ofString key == PyStr.ofString e.key) = false from by simpa using other,
        List.find?_cons_of_neg (by simpa using h)]
      exact ih

theorem requiredInt_ok {data : Analyzer.Dict} {key : String} {n : Nat}
    (h : get data key = some (.int n)) : requiredInt data key path = .ok n := by
  unfold requiredInt
  rw [h]
  exact if_neg (by omega)

theorem isOneOf_ofString (names : List String) (s : String) :
    Analyzer.isOneOf names (some (.str (PyStr.ofString s))) = decide (s ∈ names) := by
  show (names.any fun name => decide (PyStr.ofString name = PyStr.ofString s)) = _
  induction names with
  | nil => rfl
  | cons name names ih =>
    rw [List.any_cons, ih]
    by_cases h : name = s
    · simp [h]
    · have other : ¬PyStr.ofString name = PyStr.ofString s := fun he => h (ofString_injective he)
      simp [other, Ne.symm h]

theorem inSet_ofString {names : List String} {s : String} (h : s ∈ names) :
    Analyzer.inSet names (some (.str (PyStr.ofString s))) = .ok true := by
  show Except.ok (Analyzer.isOneOf names _) = _
  rw [isOneOf_ofString, decide_eq_true h]

theorem readOperation_ok {s : OperationStats} {t : Tally}
    (h : s.recordKind = "api_call" ∨ s.recordKind = "request_completion")
    (hfresh : t.operations.lookup (PyStr.ofString s.name) = none) :
    Analyzer.readOperation py 2 path t (operationEntry s).entry = .ok {
      operations := t.operations ++
        [(PyStr.ofString s.name, ⟨s.calls, s.durationNs, s.payloadBytes⟩)]
      apiOperationCalls := t.apiOperationCalls +
        if s.recordKind = "api_call" then s.calls else 0
      completionCalls := t.completionCalls +
        if s.recordKind = "request_completion" then s.calls else 0 } := by
  have kind : get ((statsEntries s).map Entry.entry) "record_kind" =
      some (.str (PyStr.ofString s.recordKind)) := by
    rw [get_entries]
    rfl
  have calls := @requiredInt_ok path ((statsEntries s).map Entry.entry) "calls" s.calls
    (by rw [get_entries]; rfl)
  have durationNs := @requiredInt_ok path ((statsEntries s).map Entry.entry) "duration_ns"
    s.durationNs (by rw [get_entries]; rfl)
  have payloadBytes := @requiredInt_ok path ((statsEntries s).map Entry.entry) "payload_bytes"
    s.payloadBytes (by rw [get_entries]; rfl)
  have known : s.recordKind ∈ ["api_call", "request_completion"] := by
    obtain h | h := h <;> simp [h]
  have counted : Analyzer.kindCalls py 2 path (PyStr.ofString s.name)
      ((statsEntries s).map Entry.entry) t = .ok { t with
        apiOperationCalls := t.apiOperationCalls +
          if s.recordKind = "api_call" then s.calls else 0
        completionCalls := t.completionCalls +
          if s.recordKind = "request_completion" then s.calls else 0 } := by
    rw [Analyzer.kindCalls, if_pos rfl, kind, inSet_ofString known, calls, isOneOf_ofString]
    obtain h | h := h <;> simp [h] <;> rfl
  have fresh : (t.operations.lookup (PyStr.ofString s.name)).isSome = false := by rw [hfresh]; rfl
  unfold Analyzer.readOperation
  simp only [operationEntry, Entry.entry]
  rw [counted]
  show (requiredInt _ "calls" path >>= _) = _
  rw [calls]
  show (requiredInt _ "duration_ns" path >>= _) = _
  rw [durationNs]
  show (requiredInt _ "payload_bytes" path >>= _) = _
  rw [payloadBytes]
  show Except.ok _ = _
  simp only [Analyzer.setItem, fresh]
  rfl

theorem kindTotal_cons (kind : String) (s : OperationStats) (operations : List OperationStats) :
    kindTotal kind (s :: operations) =
      (if s.recordKind = kind then s.calls else 0) + kindTotal kind operations := by
  unfold kindTotal
  by_cases h : s.recordKind = kind
  · rw [List.filter_cons_of_pos (by simpa using h), if_pos h, List.map_cons, List.sum_cons]
  · rw [List.filter_cons_of_neg (by simpa using h), if_neg h, Nat.zero_add]

theorem lookup_fresh {α : Type} {xs : List (PyStr × α)} {key : PyStr} (h : key ∉ xs.map Prod.fst) :
    xs.lookup key = none := by
  cases hl : xs.lookup key with
  | none => rfl
  | some x => exact absurd (List.mem_map_of_mem (Analyzer.mem_of_lookup hl)) h

theorem readOperations_ok {operations : List OperationStats}
    (h : ∀ s ∈ operations, s.recordKind = "api_call" ∨ s.recordKind = "request_completion")
    {t : Tally} (hnamed : (t.operations.map Prod.fst ++
      operations.map (fun s => PyStr.ofString s.name)).Nodup) :
    ((operations.map operationEntry).map Entry.entry).foldlM
      (Analyzer.readOperation py 2 path) t = .ok {
        operations := t.operations ++ operations.map (fun s =>
          (PyStr.ofString s.name, ⟨s.calls, s.durationNs, s.payloadBytes⟩))
        apiOperationCalls := t.apiOperationCalls + kindTotal "api_call" operations
        completionCalls := t.completionCalls + kindTotal "request_completion" operations } := by
  induction operations generalizing t with
  | nil =>
    show Except.ok t = _
    rw [List.map_nil, List.append_nil]
    rfl
  | cons s operations ih =>
    obtain ⟨hs, h⟩ := List.forall_mem_cons.mp h
    rw [List.map_cons] at hnamed
    have fresh : t.operations.lookup (PyStr.ofString s.name) = none := lookup_fresh (fun hmem =>
      (List.nodup_append.mp hnamed).2.2 _ hmem _ List.mem_cons_self rfl)
    rw [List.map_cons, List.map_cons, List.foldlM_cons, readOperation_ok hs fresh]
    show List.foldlM _ _ _ = _
    rw [ih h (by simpa using hnamed)]
    simp only [kindTotal_cons, List.append_assoc, List.singleton_append, List.map_cons, Nat.add_assoc]

theorem parseSummary_sound (hs : d.Sound) :
    parseSummary py path (d.entries.map Entry.entry) = .ok d.read := by
  have schema : get (d.entries.map Entry.entry) "schema_version" = some (.int 2) := by
    rw [get_entries]; rfl
  have complete : get (d.entries.map Entry.entry) "complete" = some (.bool d.complete) := by
    rw [get_entries]; rfl
  have state : get (d.entries.map Entry.entry) "capture_state" =
      some (.str (PyStr.ofString d.captureState)) := by
    rw [get_entries]; rfl
  have returned : get (d.entries.map Entry.entry) "finalize_return_code" =
      some (.int d.finalizeReturnCode.toNat) := by
    rw [get_entries, Int.toNat_of_nonneg hs.returned]; rfl
  have synthetic : get (d.entries.map Entry.entry) "synthetic" = none := by
    rw [get_entries]; rfl
  have operations : get (d.entries.map Entry.entry) "operations" =
      some (.dict ((d.operations.map operationEntry).map Entry.entry)) := by
    rw [get_entries]; rfl
  have hostname : get (d.entries.map Entry.entry) "hostname" =
      some (.str (PyStr.ofString d.hostname)) := by
    rw [get_entries]; rfl
  have context : get (d.entries.map Entry.entry) "context" =
      some (.dict ((d.context.map contextEntry).map Entry.entry)) := by
    rw [get_entries]; rfl
  have natural : ∀ {key : String} {n : Nat}, (d.entries.find? (fun e => key == e.key)).map
      Entry.value = some (.int n) → requiredInt (d.entries.map Entry.entry) key path = .ok n :=
    fun h => requiredInt_ok (by rw [get_entries, h])
  have versions : Analyzer.versionChecks py (d.entries.map Entry.entry) path = .ok () := by
    unfold Analyzer.versionChecks
    refine bind_ok_iff.mpr ⟨(), by rw [complete]; rfl, ?_⟩
    refine bind_ok_iff.mpr ⟨true, by rw [state]; exact inSet_ofString hs.state, ?_⟩
    refine bind_ok_iff.mpr ⟨(), rfl, ?_⟩
    refine bind_ok_iff.mpr ⟨_, requiredInt_ok returned, ?_⟩
    refine bind_ok_iff.mpr ⟨_, @natural _ d.requestCompletions rfl, ?_⟩
    exact bind_ok_iff.mpr ⟨_, @natural _ d.failedCalls rfl, rfl⟩
  have named : (d.operations.map (fun s => PyStr.ofString s.name)).Nodup := by
    have mapped := hs.named.map ofString_injective
    rwa [List.map_map] at mapped
  have tally := @readOperations_ok py path d.operations hs.kinds ⟨[], 0, 0⟩ named
  have totals : Analyzer.totalsChecks (d.entries.map Entry.entry) path
      ⟨d.read.operations, d.mpiCalls, d.requestCompletions⟩ = .ok () := by
    unfold Analyzer.totalsChecks
    refine bind_ok_iff.mpr ⟨_, @natural _ d.mpiCalls rfl, ?_⟩
    refine bind_ok_iff.mpr ⟨(), if_pos rfl, ?_⟩
    exact bind_ok_iff.mpr ⟨_, @natural _ d.requestCompletions rfl, if_pos rfl⟩
  have strings : ∀ ms : List (String × String), Analyzer.stringValues
      ((ms.map contextEntry).map Entry.entry) =
        some (ms.map (fun m => (PyStr.ofString m.1, PyStr.ofString m.2))) := by
    intro ms
    induction ms with
    | nil => rfl
    | cons m ms ih =>
      show (Analyzer.stringValues _).map _ = _
      rw [ih]
      rfl
  unfold parseSummary
  rw [schema]
  refine bind_ok_iff.mpr ⟨(), versions, ?_⟩
  rw [operations]
  refine bind_ok_iff.mpr ⟨⟨d.read.operations, d.mpiCalls, d.requestCompletions⟩, ?_, ?_⟩
  · rw [hs.apiCalls, hs.completions]
    simp only [Nat.zero_add, List.nil_append] at tally
    exact tally
  refine bind_ok_iff.mpr ⟨(), totals, ?_⟩
  rw [hostname]
  refine bind_ok_iff.mpr ⟨_, @natural _ d.rank rfl, ?_⟩
  refine bind_ok_iff.mpr ⟨_, @natural _ d.worldSize rfl, ?_⟩
  refine bind_ok_iff.mpr ⟨(), if_pos ⟨Nat.ne_zero_of_lt hs.inside, hs.inside⟩, ?_⟩
  refine bind_ok_iff.mpr ⟨(), if_pos (.inl (by rw [synthetic]; rfl)), ?_⟩
  refine bind_ok_iff.mpr ⟨(), if_pos (.inr (by rw [complete]; rfl)), ?_⟩
  rw [context, show Analyzer.contextOf (some (.dict ((d.context.map contextEntry).map
    Entry.entry))) = _ from strings d.context, complete, synthetic]
  refine bind_ok_iff.mpr ⟨_, @natural _ d.pid rfl, ?_⟩
  refine bind_ok_iff.mpr ⟨_, @natural _ d.runtimeNs rfl, ?_⟩
  refine bind_ok_iff.mpr ⟨_, @natural _ d.mpiTimeNs rfl, ?_⟩
  refine bind_ok_iff.mpr ⟨_, @natural _ d.mpiCalls rfl, ?_⟩
  refine bind_ok_iff.mpr ⟨_, @natural _ d.bytesSent rfl, ?_⟩
  exact bind_ok_iff.mpr ⟨_, @natural _ d.bytesReceived rfl, rfl⟩

end parsing

end RankSummary

inductive CaptureState where
  | collecting
  | preFinalize
  | finalized
  | finalizeFailed
deriving DecidableEq, Repr

def CaptureState.text : CaptureState → String
  | .collecting => "collecting"
  | .preFinalize => "pre_finalize"
  | .finalized => "finalized"
  | .finalizeFailed => "finalize_failed"

/-- What `write_snapshot` is given, and what it asks its environment for. -/
structure Publishing where
  complete : Bool
  captureState : CaptureState
  finalizeReturnCode : Int
  runtimeNs : Nat
  writerFailed : Bool
  runId : String
  captureEpoch : String
  attemptId : String
  slurmJobId : String
  slurmStepId : String
  fluxJobId : String
  traceparent : String
  mpiVersion : Nat
  mpiSubversion : Nat
  partitioned : Bool
  usage : Option (Nat × Nat × Nat)
  cpuAffinity : Option (List Nat)

def Publishing.usageContext (p : Publishing) : List (String × String) :=
  match p.usage with
  | some (maxRss, userCpu, systemCpu) =>
    [("max_rss_bytes", toString maxRss), ("user_cpu_us", toString userCpu),
      ("system_cpu_us", toString systemCpu)]
  | none => []

def Publishing.affinityContext (p : Publishing) : List (String × String) :=
  match p.cpuAffinity with
  | some cpus => [("cpu_affinity", String.intercalate "," (cpus.map toString))]
  | none => []

namespace Recorder

def context (self : Recorder) (p : Publishing) : List (String × String) :=
  [("run_id", p.runId), ("capture_epoch", p.captureEpoch), ("attempt_id", p.attemptId),
    ("slurm_job_id", p.slurmJobId), ("slurm_step_id", p.slurmStepId),
    ("flux_job_id", p.fluxJobId), ("traceparent", p.traceparent),
    ("events_dropped", toString self.eventsDropped),
    ("events_written", toString self.eventsWritten),
    ("event_buffer_records", toString self.eventBufferCapacity),
    ("request_tracking_overflows", toString self.requestTrackingOverflows),
    ("request_tracking_limit", toString self.requestTrackingLimit),
    ("writer_failed", if p.writerFailed then "true" else "false"),
    ("tracing_enabled", if self.traceEvents then "true" else "false"),
    ("mpi_standard_version", toString p.mpiVersion ++ "." ++ toString p.mpiSubversion),
    ("partitioned_requests", if p.partitioned then "supported" else "unavailable")] ++
    (p.usageContext ++ p.affinityContext)

def operationName (index : Nat) : String := kOperationNames.getD index "Other"

def recordKind (index : Nat) : String :=
  if isCompletion index then "request_completion" else "api_call"

def called (operations : Nat → OperationSlot) : List Nat :=
  (List.range (kOperationNames.length + 1)).filter (fun index => (operations index).calls ≠ 0)

def row (operations : Nat → OperationSlot) (index : Nat) : OperationStats :=
  ⟨operationName index, (operations index).calls, (operations index).durationNs,
    (operations index).payloadBytes, recordKind index⟩

def document (self : Recorder) (p : Publishing) : RankSummary :=
  let state := self.captureSnapshot
  { complete := p.complete
    captureState := p.captureState.text
    finalizeReturnCode := p.finalizeReturnCode
    context := self.context p
    rank := self.rank
    worldSize := self.worldSize
    hostname := self.host
    pid := self.pid
    runtimeNs := p.runtimeNs
    mpiTimeNs := state.mpiTimeNs
    mpiCalls := state.apiCalls
    requestCompletions := state.requestCompletions
    failedCalls := state.failedCalls
    bytesSent := state.bytesSent
    bytesReceived := state.bytesReceived
    operations := (called state.operations).map (row state.operations) }

/-- The calls of either kind, over all slots. -/
def slotTotal (completion : Bool) (operations : Nat → OperationSlot) : Nat :=
  ((List.range (kOperationNames.length + 1)).map (fun index =>
    if isCompletion index = completion then (operations index).calls else 0)).sum

/-- The totals are the sums of the slots, and the rank is one of the world. -/
structure Balanced (r : Recorder) : Prop where
  inside : r.rank < r.worldSize
  apiCalls : r.apiCalls = slotTotal false r.operations
  completions : r.requestCompletions = slotTotal true r.operations

section balance

variable {self : Recorder} {p : Publishing}

theorem sum_bump {l : List Nat} {k c : Nat} {f g : Nat → Nat} (hl : l.Nodup) (hk : k ∈ l)
    (hg : g k = f k + c) (ho : ∀ i, i ≠ k → g i = f i) :
    (l.map g).sum = (l.map f).sum + c := by
  induction l with
  | nil => cases hk
  | cons i l ih =>
    obtain ⟨fresh, hl⟩ := List.nodup_cons.mp hl
    rw [List.map_cons, List.map_cons, List.sum_cons, List.sum_cons]
    by_cases h : i = k
    · subst h
      have same : l.map g = l.map f := List.map_congr_left (fun j hj => ho j (by
        rintro rfl
        exact fresh hj))
      rw [same, hg]
      omega
    · obtain rfl | hk := List.mem_cons.mp hk
      · exact absurd rfl h
      · rw [ih hl hk, ho i h]
        omega

theorem slotTotal_zero (completion : Bool) : slotTotal completion (fun _ => .zero) = 0 := by
  refine List.sum_eq_zero (fun n hn => ?_)
  obtain ⟨i, -, rfl⟩ := List.mem_map.mp hn
  split <;> rfl

theorem operationIndex_mem (operation : String) :
    operationIndex operation ∈ List.range (kOperationNames.length + 1) :=
  List.mem_range.mpr (Nat.lt_succ_of_le List.idxOf_le_length)

theorem slotTotal_account (self : Recorder) (call : RecordCall) (completion : Bool) :
    slotTotal completion (self.account call).operations = slotTotal completion self.operations +
      if isCompletion (operationIndex call.operation) = completion then 1 else 0 := by
  refine sum_bump List.nodup_range (operationIndex_mem call.operation) ?_ ?_
  · simp only [account, Function.update_self]
    split <;> rfl
  · intro i hi
    simp only [account, Function.update_of_ne hi]

theorem account_balanced (h : self.Balanced) (call : RecordCall) :
    (self.account call).Balanced := by
  refine ⟨h.inside, ?_, ?_⟩
  · rw [slotTotal_account, ← h.apiCalls]
    cases hc : isCompletion (operationIndex call.operation) <;> simp [account, hc]
  · rw [slotTotal_account, ← h.completions]
    cases hc : isCompletion (operationIndex call.operation) <;> simp [account, hc]

theorem record_balanced (h : self.Balanced) (call : RecordCall) : (self.record call).Balanced := by
  have counted := account_balanced h call
  unfold record
  split
  · unfold trace
    split <;> exact ⟨counted.inside, counted.apiCalls, counted.completions⟩
  · exact counted

theorem kindTotal_rows (operations : Nat → OperationSlot) (completion : Bool) (is : List Nat) :
    RankSummary.kindTotal (if completion then "request_completion" else "api_call")
      ((is.filter (fun index => (operations index).calls ≠ 0)).map (row operations)) =
      (is.map (fun index =>
        if isCompletion index = completion then (operations index).calls else 0)).sum := by
  induction is with
  | nil => rfl
  | cons i is ih =>
    have kind : (row operations i).recordKind =
        (if completion then "request_completion" else "api_call") ↔ isCompletion i = completion := by
      show recordKind i = _ ↔ _
      unfold recordKind
      cases isCompletion i <;> cases completion <;> decide
    rw [List.map_cons, List.sum_cons, ← ih]
    by_cases hi : (operations i).calls = 0
    · rw [List.filter_cons_of_neg (by simp [hi]), hi]
      simp
    · rw [List.filter_cons_of_pos (by simp [hi]), List.map_cons, RankSummary.kindTotal_cons]
      simp only [kind]
      rfl

theorem document_sound (h : self.Balanced) (hcode : 0 ≤ p.finalizeReturnCode) :
    (self.document p).Sound where
  state := by
    show p.captureState.text ∈ _
    cases p.captureState <;> decide
  returned := hcode
  inside := h.inside
  keys := by
    show ((self.context p).map Prod.fst).Nodup
    unfold context Publishing.usageContext Publishing.affinityContext
    cases p.usage <;> cases p.cpuAffinity <;>
      simp only [List.map_append, List.map_cons, List.map_nil] <;> decide
  named := by
    have names : ((List.range (kOperationNames.length + 1)).map operationName).Nodup := by
      decide +kernel
    show (((called self.operations).map (row self.operations)).map OperationStats.name).Nodup
    rw [List.map_map]
    exact names.sublist (List.filter_sublist.map operationName)
  kinds := by
    rintro s hs
    obtain ⟨i, -, rfl⟩ := List.mem_map.mp hs
    show recordKind i = _ ∨ recordKind i = _
    unfold recordKind
    split
    · exact .inr rfl
    · exact .inl rfl
  apiCalls := h.apiCalls.trans (kindTotal_rows self.operations false _).symm
  completions := h.completions.trans (kindTotal_rows self.operations true _).symm

end balance

end Recorder

namespace Recording

/-- The states of the runs of a recorder, whether it traces or not. -/
inductive Reaches : State → Prop where
  | start {rank worldSize : Nat} {host : String} {pid maxEvents eventBufferCapacity
      requestTrackingLimit : Nat} {traceEvents : Bool} (hrank : rank < worldSize) :
      Reaches (.initial (.initial rank worldSize host pid maxEvents eventBufferCapacity
        requestTrackingLimit traceEvents))
  | step {s s' : State} (h : Reaches s) (hs : Step s s') : Reaches s'

theorem step_balanced {s s' : State} (hs : Step s s') (h : s.recorder.Balanced) :
    s'.recorder.Balanced := by
  cases hs with
  | record call hp => exact Recorder.record_balanced h call
  | _ => exact ⟨h.inside, h.apiCalls, h.completions⟩

theorem reaches_balanced {s : State} (h : Reaches s) : s.recorder.Balanced := by
  induction h with
  | start hrank =>
    exact ⟨hrank, (Recorder.slotTotal_zero false).symm, (Recorder.slotTotal_zero true).symm⟩
  | step h hs ih => exact step_balanced hs ih

/-- `json.loads` reads the texts that are read here. -/
def ReadsJson (py : Analyzer.Interpreter) : Prop :=
  ∀ text v, parse text = some v → py.loads (text.map Char.toNat) = .ok v

/-- Whatever has been recorded, the document published at any moment is sound, and accepted. -/
theorem snapshot_loads {py : Analyzer.Interpreter} {s : State} {p : Publishing}
    (hpy : ReadsJson py) (h : Reaches s) (hcode : 0 ≤ p.finalizeReturnCode)
    (hrange : (s.recorder.document p).InRange) (directory name : String) :
    (s.recorder.document p).Sound ∧ Analyzer.loadSummary py directory
      ⟨name, .text ((s.recorder.document p).text.map Char.toNat)⟩ =
        .ok (s.recorder.document p).read := by
  have sound := Recorder.document_sound (reaches_balanced h) hcode
  have read := RankSummary.parse_text sound hrange (List.cons_ne_nil _ _)
  refine ⟨sound, ?_⟩
  unfold Analyzer.loadSummary
  simp only [hpy _ _ read]
  exact RankSummary.parseSummary_sound sound

/-- An interpreter that reads JSON as far as it is read here, and decimal numbers. -/
def jsonReader : Analyzer.Interpreter where
  loads s := (parse (s.map Char.ofNat)).elim (.error (.decode "Expecting value")) .ok
  int s :=
    if s.toList ≠ [] ∧ s.toList.all Char.isDigit = true then some (Nat.ofDigitChars 10 s.toList 0)
    else none
  floatValue _ := 0
  room := 1000
  repr _ := ""
  fixed _ := ""
  percent _ := ""

theorem jsonReader_reads : ReadsJson jsonReader := by
  intro text v h
  have back : (text.map Char.toNat).map Char.ofNat = text := by
    rw [List.map_map]
    exact (List.map_congr_left (fun c _ => Char.ofNat_toNat c)).trans (List.map_id text)
  show (parse _).elim _ _ = _
  rw [back, h]
  rfl

/-- One send of 64 bytes by the only rank. -/
def sentOnce : State :=
  let s : State := .initial (.initial 0 1 "n1" 7 100 10 10 true)
  { s with
    recorder := s.recorder.record ⟨"MPI_Send", 10, 5, 64, 0, 3, 0, 0, -1⟩
    calls := 1 }

theorem sentOnce_reaches : Reaches sentOnce :=
  .step (.start (by decide)) (.record ⟨"MPI_Send", 10, 5, 64, 0, 3, 0, 0, -1⟩ rfl)

def finalSnapshot : Publishing :=
  ⟨true, .finalized, 0, 100, false, "run-1", "1", "", "", "", "", "", 4, 0, true, none, some [0, 1]⟩

theorem sentOnce_loads : (sentOnce.recorder.document finalSnapshot).Sound ∧
    Analyzer.loadSummary jsonReader "capture" ⟨"rank-00000-summary.json",
      .text ((sentOnce.recorder.document finalSnapshot).text.map Char.toNat)⟩ = .ok (sentOnce.recorder.document finalSnapshot).read :=
  snapshot_loads jsonReader_reads sentOnce_reaches (by decide)
    ⟨by decide, by decide +kernel, by decide +kernel⟩ _ _

end Recording

end RankLens
