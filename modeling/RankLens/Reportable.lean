import RankLens.Canonical
import RankLens.Deployment

namespace RankLens

open PyStr (clean)

/-- How `json.loads` fails: with one of the two exceptions its callers catch, or not. -/
inductive LoadError where
  | caught (message : String)
  | escapes (message : String)
deriving DecidableEq, Repr

/-- What the services see of `json.loads`: `loads`, and the containers `json.dumps` can
open where the projection calls it. -/
structure PyJson where
  loads : Bytes → Except LoadError PyValue
  room : Nat

def PyJson.classify : Except LoadError PyValue → Loaded
  | .ok (.dict _) => .object
  | .ok _ => .other
  | .error (.caught message) => .undecodable message
  | .error (.escapes message) => .escapes message

/-- The services with this `json.loads`. -/
def Env.reading (env : Env) (json : PyJson) : Env :=
  { env with loads := fun line => PyJson.classify (json.loads line) }

/-- One row of the projection, as Python holds it. -/
structure ProjectedRow where
  receiptId : Uuid
  payloadSha256 : String
  recordIndex : Nat
  recordType : String
  schemaVersion : Option Int
  rank : Option Int
  sequence : Option Int
  operation : Option PyStr
  recordKind : Option PyStr
  timestampNs : Option Int
  durationNs : Option Int
  payloadBytes : Option Int
  errorCode : Option Int
  hostname : Option PyStr
  worldSize : Option Int
  runtimeNs : Option Int
  mpiTimeNs : Option Int
  mpiCalls : Option Int
  requestCompletions : Option Int
  failedCalls : Option Int
  complete : Option Bool
  captureState : Option PyStr
  recordJson : PyStr

namespace Projection

abbrev Record := List (PyStr × PyValue)

def get (value : Record) (key : String) : Option PyValue := value.lookup (PyStr.ofString key)

def integer (minimum maximum : Int) : Option PyValue → Option Int
  | some (.int n) => if n < minimum ∨ maximum < n then none else some n
  | _ => none

/-- The default bounds of `_integer`. -/
def count : Option PyValue → Option Int := integer 0 (2 ^ 63 - 1)

def positive : Option PyValue → Option Int := integer 1 (2 ^ 63 - 1)

def text : Option PyValue → Option PyStr
  | some (.str s) => some s
  | _ => none

def flag : Option PyValue → Option Bool
  | some (.bool b) => some b
  | _ => none

def recordType (value : Record) : String :=
  if (positive (get value "schema_version")).isSome ∧ (count (get value "rank")).isSome ∧
      (count (get value "runtime_ns")).isSome ∧ (count (get value "mpi_time_ns")).isSome ∧
      (text (get value "hostname")).isSome then "rank_summary"
  else if (positive (get value "schema_version")).isSome ∧ (count (get value "rank")).isSome ∧
      (count (get value "sequence")).isSome ∧ (text (get value "operation")).isSome ∧
      (count (get value "duration_ns")).isSome then "mpi_event"
  else "unrecognized"

def row (segment : ParquetSegment) (index : Nat) (value : Record) (canonical : PyStr) :
    ProjectedRow where
  receiptId := segment.receiptId
  payloadSha256 := segment.payloadSha256
  recordIndex := index
  recordType := recordType value
  schemaVersion := integer 1 (2 ^ 31 - 1) (get value "schema_version")
  rank := count (get value "rank")
  sequence := count (get value "sequence")
  operation := text (get value "operation")
  recordKind := text (get value "record_kind")
  timestampNs := count (get value "timestamp_ns")
  durationNs := count (get value "duration_ns")
  payloadBytes := count (get value "payload_bytes")
  errorCode := integer (-(2 ^ 31)) (2 ^ 31 - 1) (get value "error_code")
  hostname := text (get value "hostname")
  worldSize := positive (get value "world_size")
  runtimeNs := count (get value "runtime_ns")
  mpiTimeNs := count (get value "mpi_time_ns")
  mpiCalls := count (get value "mpi_calls")
  requestCompletions := count (get value "request_completions")
  failedCalls := count (get value "failed_calls")
  complete := flag (get value "complete")
  captureState := text (get value "capture_state")
  recordJson := canonical

variable (json : PyJson)

def ofLoad {α : Type} : Except LoadError α → Except String α
  | .ok a => .ok a
  | .error (.caught message) => .error message
  | .error (.escapes message) => .error message

/-- The rows of the lines of one segment, the first with the index `index`. At most `room`
more rows fit the limit. -/
def segmentRows (segment : ParquetSegment) :
    (room index : Nat) → List Bytes → Except String (List ProjectedRow)
  | _, _, [] => .ok []
  | room, index, line :: lines =>
    if blank line then segmentRows segment room index lines
    else
      match ofLoad (json.loads line) with
      | .error message => .error message
      | .ok (.dict value) =>
        match PyValue.dumps json.room (.dict value), room with
        | .error message, _ => .error message
        | .ok _, 0 => .error "Parquet record limit exceeded"
        | .ok canonical, room + 1 =>
          (segmentRows segment room (index + 1) lines).map (row segment index value canonical :: ·)
      | .ok _ => .error "normalized record must be an object"

def segmentsRows : Nat → List ParquetSegment → Except String (List ProjectedRow)
  | _, [] => .ok []
  | room, segment :: segments =>
    match segmentRows json segment room 0 (splitlines [] segment.payload) with
    | .error message => .error message
    | .ok rows =>
      if rows.length ≠ segment.expectedRecords then
        .error "Parquet segment record count mismatch"
      else (segmentsRows (room - rows.length) segments).map (rows ++ ·)

/-- A column of the table whose `pa.array` may refuse a value: integers of a width, or
strings, which are stored in UTF-8. -/
inductive Column where
  | ints (bits : Nat) (field : ProjectedRow → Option Int)
  | texts (field : ProjectedRow → Option PyStr)

def Column.admits : Column → ProjectedRow → Bool
  | .ints bits field, r => (field r).all (fun n => -(2 ^ (bits - 1)) ≤ n && n < 2 ^ (bits - 1))
  | .texts field, r => (field r).all clean

def Column.refusal : Column → String
  | .ints .. => "Value too large to fit in C integer type"
  | .texts .. => "surrogates not allowed"

def schema : List Column := [
  .ints 64 (fun r => some r.recordIndex),
  .ints 32 ProjectedRow.schemaVersion,
  .ints 64 ProjectedRow.rank,
  .ints 64 ProjectedRow.sequence,
  .texts ProjectedRow.operation,
  .texts ProjectedRow.recordKind,
  .ints 64 ProjectedRow.timestampNs,
  .ints 64 ProjectedRow.durationNs,
  .ints 64 ProjectedRow.payloadBytes,
  .ints 32 ProjectedRow.errorCode,
  .texts ProjectedRow.hostname,
  .ints 64 ProjectedRow.worldSize,
  .ints 64 ProjectedRow.runtimeNs,
  .ints 64 ProjectedRow.mpiTimeNs,
  .ints 64 ProjectedRow.mpiCalls,
  .ints 64 ProjectedRow.requestCompletions,
  .ints 64 ProjectedRow.failedCalls,
  .texts ProjectedRow.captureState,
  .texts (fun r => some r.recordJson)]

def arrays (rows : List ProjectedRow) : List Column → Except String Unit
  | [] => .ok ()
  | column :: columns => if rows.all column.admits then arrays rows columns else .error column.refusal

def buildNormalizedParquet (segments : List ParquetSegment)
    (maxSegments maxRecords maxInputBytes : Nat) : Except String (List ProjectedRow) :=
  if segments = [] then .error "at least one segment is required"
  else if maxSegments < segments.length then .error "Parquet segment limit exceeded"
  else if maxInputBytes < (segments.map (fun s => s.payload.length)).sum then
    .error "Parquet input byte limit exceeded"
  else
    match segmentsRows json maxRecords segments with
    | .error message => .error message
    | .ok rows => (arrays rows schema).map (fun _ => rows)

section accepted

variable {json} {env : Env} {settings : IngestionSettings} {segment : ParquetSegment}
  {lines : List Bytes} {rows : List ProjectedRow} {index room n : Nat} {value : Record}
  {canonical : PyStr}

def written (lines : List Bytes) : List Bytes := lines.filter (fun line => !blank line)

theorem written_blank {line : Bytes} (h : blank line = true) :
    written (line :: lines) = written lines := by
  simp [written, h]

theorem written_record {line : Bytes} (h : blank line = false) :
    written (line :: lines) = line :: written lines := by
  simp [written, h]

def Objects (json : PyJson) (lines : List Bytes) : Prop :=
  ∀ line ∈ written lines, ∃ value, json.loads line = .ok (.dict value)

def records (json : PyJson) (payload : Bytes) : List PyValue :=
  (written (splitlines [] payload)).filterMap (fun line => (json.loads line).toOption)

theorem classify_object {x : Except LoadError PyValue} (h : PyJson.classify x = .object) :
    ∃ value, x = .ok (.dict value) := by
  cases x with
  | error e => cases e <;> cases h
  | ok v =>
    cases v with
    | dict value => exact ⟨value, rfl⟩
    | _ => cases h

theorem countRecords_ok_iff : IngestionService.countRecords env index lines = .ok n ↔
    (∀ line ∈ written lines, env.loads line = .object) ∧ (written lines).length = n := by
  induction lines generalizing n index with
  | nil => simp [IngestionService.countRecords, written]
  | cons line lines ih =>
    rw [IngestionService.countRecords]
    by_cases hb : blank line = true
    · rw [if_pos hb, written_blank hb]
      exact ih
    · rw [if_neg hb, written_record (eq_false_of_ne_true hb), List.forall_mem_cons,
        List.length_cons]
      cases hl : env.loads line with
      | object =>
        cases hrest : IngestionService.countRecords env (index + 1) lines with
        | error f =>
          have hnot : ¬∀ line ∈ written lines, env.loads line = .object := by
            intro hm
            have hcount : IngestionService.countRecords env (index + 1) lines = .ok _ :=
              ih.mpr ⟨hm, rfl⟩
            rw [hrest] at hcount
            cases hcount
          constructor
          · intro h
            cases h
          · intro h
            exact (hnot h.1.2).elim
        | ok m =>
          have hm := ih.mp hrest
          constructor
          · intro h
            cases h
            exact ⟨⟨rfl, hm.1⟩, by rw [hm.2]⟩
          · intro h
            obtain rfl : m + 1 = n := by rw [← h.2, hm.2]
            rfl
      | _ => simp

theorem objects_of_countRecords
    (h : IngestionService.countRecords (env.reading json) index lines = .ok n) :
    Objects json lines ∧ n = (written lines).length := by
  obtain ⟨hobjects, hn⟩ := countRecords_ok_iff.mp h
  exact ⟨fun line hline => classify_object (hobjects line hline), hn.symm⟩

theorem parseLines_of_objects (h : Objects json lines) :
    OutboxWorker.parseLines (env.reading json) lines = .ok (written lines).length := by
  induction lines with
  | nil => rfl
  | cons line lines ih =>
    rw [OutboxWorker.parseLines]
    by_cases hb : blank line = true
    · rw [Objects, written_blank hb] at h
      rw [if_pos hb, written_blank hb]
      exact ih h
    · have hb' := eq_false_of_ne_true hb
      rw [Objects, written_record hb', List.forall_mem_cons] at h
      obtain ⟨value, hvalue⟩ := h.1
      have hload : (env.reading json).loads line = .object := congrArg PyJson.classify hvalue
      rw [if_neg hb, written_record hb', hload, ih h.2]
      rfl

/-- The rows the records of a segment give, from the index on. -/
inductive Rows (json : PyJson) (segment : ParquetSegment) :
    Nat → List Bytes → List ProjectedRow → Prop where
  | nil {index : Nat} : Rows json segment index [] []
  | blank {index : Nat} {line : Bytes} {lines : List Bytes} {rows : List ProjectedRow}
      (hb : RankLens.blank line = true) (h : Rows json segment index lines rows) :
      Rows json segment index (line :: lines) rows
  | record {index : Nat} {line : Bytes} {lines : List Bytes} {rows : List ProjectedRow}
      {value : Record} {canonical : PyStr} (hb : RankLens.blank line = false)
      (hload : json.loads line = .ok (.dict value))
      (hdump : PyValue.dumps json.room (.dict value) = .ok canonical)
      (h : Rows json segment (index + 1) lines rows) :
      Rows json segment index (line :: lines) (row segment index value canonical :: rows)

theorem rows_of_segmentRows (h : segmentRows json segment room index lines = .ok rows) :
    Rows json segment index lines rows := by
  induction lines generalizing room index rows with
  | nil =>
    cases h
    exact .nil
  | cons line lines ih =>
    rw [segmentRows] at h
    split at h
    · next hb => exact .blank hb (ih h)
    · next hb =>
      have hb := eq_false_of_ne_true hb
      split at h
      · cases h
      · next value hvalue =>
        have hload : json.loads line = .ok (.dict value) := by
          cases hl : json.loads line with
          | error e => cases e <;> (rw [hl] at hvalue; cases hvalue)
          | ok v =>
            rw [hl] at hvalue
            exact congrArg Except.ok (Except.ok.inj hvalue)
        split at h
        · cases h
        · cases h
        · next canonical room' hdump =>
          cases hrest : segmentRows json segment room' (index + 1) lines with
          | error e =>
            rw [hrest] at h
            cases h
          | ok rest =>
            rw [hrest] at h
            cases h
            exact .record hb hload hdump (ih hrest)
      · cases h

theorem segmentRows_returns (h : Objects json lines) (hroom : (written lines).length ≤ room)
    (hdumps : ∀ line ∈ written lines, ∀ x, json.loads line = .ok x →
      ∃ s, PyValue.dumps json.room x = .ok s) :
    ∃ rows, segmentRows json segment room index lines = .ok rows := by
  induction lines generalizing room index with
  | nil => exact ⟨[], rfl⟩
  | cons line lines ih =>
    rw [segmentRows]
    by_cases hb : blank line = true
    · rw [Objects, written_blank hb] at h
      rw [written_blank hb] at hroom hdumps
      rw [if_pos hb]
      exact ih h hroom hdumps
    · have hb' := eq_false_of_ne_true hb
      rw [Objects, written_record hb', List.forall_mem_cons] at h
      rw [written_record hb'] at hroom hdumps
      obtain ⟨⟨value, hvalue⟩, hrest⟩ := h
      obtain ⟨s, hs⟩ := hdumps line (List.mem_cons_self ..) _ hvalue
      obtain ⟨room, rfl⟩ : ∃ m, room = m + 1 :=
        ⟨room - 1, by rw [List.length_cons] at hroom; omega⟩
      obtain ⟨rows, hrows⟩ : ∃ rows, segmentRows json segment room (index + 1) lines = .ok rows :=
        ih hrest (Nat.le_of_succ_le_succ hroom) (fun l hl => hdumps l (List.mem_cons_of_mem _ hl))
      refine ⟨row segment index value s :: rows, ?_⟩
      rw [if_neg hb, hvalue]
      simp [ofLoad, hs, hrows, Except.map]

theorem Rows.length (h : Rows json segment index lines rows) :
    rows.length = (written lines).length := by
  induction h with
  | nil => rfl
  | blank hb _ ih => rw [written_blank hb, ih]
  | record hb _ _ _ ih => rw [written_record hb, List.length_cons, List.length_cons, ih]

theorem Rows.each_written (h : Rows json segment index lines rows)
    (hclean : ∀ r ∈ rows, clean r.recordJson = true) :
    ∀ line ∈ written lines, ∀ x, json.loads line = .ok x → PyValue.Written json.room x := by
  induction h with
  | nil => exact fun _ hl => (List.not_mem_nil hl).elim
  | blank hb _ ih =>
    rw [written_blank hb]
    exact ih hclean
  | record hb hload hdump _ ih =>
    rw [written_record hb, List.forall_mem_cons]
    rw [List.forall_mem_cons] at hclean
    refine ⟨fun x hx => ?_, ih hclean.2⟩
    obtain rfl := Except.ok.inj (hload.symm.trans hx)
    exact ⟨_, hdump, hclean.1⟩

theorem integer_admitted {minimum maximum : Int} {bits : Nat} {x : Option PyValue}
    (hmin : -(2 ^ (bits - 1)) ≤ minimum) (hmax : maximum < 2 ^ (bits - 1)) :
    (integer minimum maximum x).all
      (fun n => -(2 ^ (bits - 1)) ≤ n && n < 2 ^ (bits - 1)) = true := by
  unfold integer
  split
  · next m =>
    split
    · rfl
    · next hm =>
      rw [not_or, not_lt, not_lt] at hm
      rw [Option.all_some, Bool.and_eq_true, decide_eq_true_eq, decide_eq_true_eq]
      exact ⟨hmin.trans hm.1, lt_of_le_of_lt hm.2 hmax⟩
  · rfl

theorem paired_of_lookup {key : PyStr} {x : PyValue} (h : PyValue.pairedMembers value = true)
    (hx : value.lookup key = some x) : PyValue.paired x = true := by
  induction value with
  | nil => cases hx
  | cons m value ih =>
    obtain ⟨k, y⟩ := m
    rw [PyValue.pairedMembers, Bool.and_eq_true, Bool.and_eq_true] at h
    rw [List.lookup_cons] at hx
    split at hx
    · cases hx
      exact h.1.2
    · exact ih h.2 hx

theorem text_admitted {key : String} (h : PyValue.pairedMembers value = true) :
    (text (get value key)).all clean = true := by
  unfold text
  split
  · next s hs => exact paired_of_lookup h hs
  · rfl

theorem row_admitted (hindex : index < 2 ^ 63) (hpaired : PyValue.pairedMembers value = true)
    (hclean : clean canonical = true) :
    ∀ column ∈ schema, column.admits (row segment index value canonical) = true := by
  have h64 : ∀ x, (integer 0 (2 ^ 63 - 1) x).all
      (fun n => -(2 ^ (64 - 1)) ≤ n && n < 2 ^ (64 - 1)) = true :=
    fun x => integer_admitted (by decide) (by decide)
  have hpos : ∀ x, (integer 1 (2 ^ 63 - 1) x).all
      (fun n => -(2 ^ (64 - 1)) ≤ n && n < 2 ^ (64 - 1)) = true :=
    fun x => integer_admitted (by decide) (by decide)
  have htext : ∀ key, (text (get value key)).all clean = true := fun key => text_admitted hpaired
  have hrecord : (some (index : Int)).all
      (fun n => -(2 ^ (64 - 1)) ≤ n && n < 2 ^ (64 - 1)) = true := by
    rw [Option.all_some, Bool.and_eq_true, decide_eq_true_eq, decide_eq_true_eq]
    constructor <;> omega
  simp only [schema, List.forall_mem_cons]
  exact ⟨hrecord, integer_admitted (by decide) (by decide), h64 _, h64 _, htext _, htext _, h64 _,
    h64 _, h64 _, integer_admitted (by decide) (by decide), htext _, hpos _, h64 _, h64 _, h64 _,
    h64 _, h64 _, htext _, hclean, fun _ hc => (List.not_mem_nil hc).elim⟩

theorem Rows.admitted (h : Rows json segment index lines rows)
    (hindex : index + (written lines).length < 2 ^ 63)
    (hwritten : ∀ line ∈ written lines, ∀ x, json.loads line = .ok x →
      PyValue.Written json.room x) :
    ∀ r ∈ rows, ∀ column ∈ schema, column.admits r = true := by
  induction h with
  | nil => exact fun _ hr => (List.not_mem_nil hr).elim
  | blank hb _ ih =>
    rw [written_blank hb] at hindex hwritten
    exact ih hindex hwritten
  | record hb hload hdump _ ih =>
    rw [written_record hb] at hindex hwritten
    rw [List.length_cons] at hindex
    rw [List.forall_mem_cons] at hwritten
    refine List.forall_mem_cons.mpr ⟨?_, ih (by omega) hwritten.2⟩
    have hw := hwritten.1 _ hload
    obtain ⟨s, hs, hclean⟩ := hw
    obtain rfl := Except.ok.inj (hdump.symm.trans hs)
    exact row_admitted (by omega) ((PyValue.written_iff _ _).mp (hwritten.1 _ hload)).2 hclean

theorem arrays_ok {columns : List Column} : arrays rows columns = .ok () ↔
    ∀ column ∈ columns, ∀ r ∈ rows, column.admits r = true := by
  induction columns with
  | nil => simp [arrays]
  | cons column columns ih =>
    rw [arrays, List.forall_mem_cons, ← ih, ← List.all_eq_true]
    split
    · next h => simp [h]
    · next h => simp [h]

/-- What `_prepare_payload` has accepted. -/
def Accepted (env : Env) (settings : IngestionSettings) (json : PyJson) (s : ParquetSegment) :
    Prop :=
  ∃ tenantId segment p, IngestionService.preparePayload (env.reading json) settings tenantId segment =
    .ok p ∧ s.payload = p.content ∧ s.expectedRecords = segment.recordCount

/-- Every number of the record is finite, it nests no deeper than the encoder can follow,
and the surrogates of its strings are paired. -/
def Reportable (json : PyJson) (x : PyValue) : Prop :=
  PyValue.finite json.room x = true ∧ PyValue.paired x = true

theorem Accepted.objects (h : Accepted env settings json segment) :
    Objects json (splitlines [] segment.payload) ∧
      segment.expectedRecords = (written (splitlines [] segment.payload)).length ∧
      segment.expectedRecords ≤ 10000000 := by
  obtain ⟨tenantId, upload, p, hp, hpayload, hexpected⟩ := h
  obtain ⟨hobjects, hlength⟩ :=
    objects_of_countRecords (IngestionService.preparePayload_ok hp).records
  rw [hpayload, hexpected]
  exact ⟨hobjects, hlength, upload.valid.records.2⟩

theorem Accepted.parsed (h : Accepted env settings json segment) :
    OutboxWorker.parsePayload (env.reading json) segment.payload segment.expectedRecords =
      .ok segment.expectedRecords := by
  obtain ⟨hobjects, hlength, _⟩ := h.objects
  rw [OutboxWorker.parsePayload, parseLines_of_objects hobjects, ← hlength]
  exact if_neg (fun hne => hne rfl)

theorem reportable_records (h : Objects json (splitlines [] segment.payload)) :
    (∀ x ∈ records json segment.payload, Reportable json x) ↔
      ∀ line ∈ written (splitlines [] segment.payload), ∀ x, json.loads line = .ok x →
        PyValue.Written json.room x := by
  constructor
  · intro hall line hline x hx
    refine (PyValue.written_iff _ _).mpr (hall x ?_)
    exact List.mem_filterMap.mpr ⟨line, hline, by rw [hx]; rfl⟩
  · intro hall x hx
    obtain ⟨line, hline, hload⟩ := List.mem_filterMap.mp hx
    obtain ⟨value, hvalue⟩ := h line hline
    rw [hvalue] at hload
    obtain rfl := Option.some.inj hload
    exact (PyValue.written_iff _ _).mp (hall line hline _ hvalue)

theorem rows_of_segmentsRows {segments : List ParquetSegment}
    (h : segmentsRows json room segments = .ok rows) :
    rows.length = (segments.map ParquetSegment.expectedRecords).sum ∧
      ∀ s ∈ segments, ∃ own, Rows json s 0 (splitlines [] s.payload) own ∧ ∀ r ∈ own, r ∈ rows := by
  induction segments generalizing room rows with
  | nil =>
    cases h
    exact ⟨rfl, fun _ hs => (List.not_mem_nil hs).elim⟩
  | cons s segments ih =>
    rw [segmentsRows] at h
    split at h
    · cases h
    · next own hown =>
      split at h
      · cases h
      · next hcount =>
        cases hrest : segmentsRows json (room - own.length) segments with
        | error e =>
          rw [hrest] at h
          cases h
        | ok rest =>
          rw [hrest] at h
          cases h
          obtain ⟨hlength, hall⟩ := ih hrest
          refine ⟨?_, List.forall_mem_cons.mpr ⟨?_, fun s hs => ?_⟩⟩
          · rw [List.length_append, hlength, not_not.mp hcount, List.map_cons, List.sum_cons]
          · exact ⟨own, rows_of_segmentRows hown, fun r hr => List.mem_append_left _ hr⟩
          · obtain ⟨own', hrows, hmem⟩ := hall s hs
            exact ⟨own', hrows, fun r hr => List.mem_append_right _ (hmem r hr)⟩

theorem segmentsRows_returns {segments : List ParquetSegment}
    (h : ∀ s ∈ segments, Accepted env settings json s)
    (hroom : (segments.map ParquetSegment.expectedRecords).sum ≤ room)
    (hall : ∀ s ∈ segments, ∀ x ∈ records json s.payload, Reportable json x) :
    ∃ rows, segmentsRows json room segments = .ok rows ∧
      ∀ r ∈ rows, ∀ column ∈ schema, column.admits r = true := by
  induction segments generalizing room with
  | nil => exact ⟨[], rfl, fun _ hr => (List.not_mem_nil hr).elim⟩
  | cons s segments ih =>
    rw [List.forall_mem_cons] at h hall
    rw [List.map_cons, List.sum_cons] at hroom
    obtain ⟨hobjects, hlength, hbound⟩ := h.1.objects
    have hwritten := (reportable_records hobjects).mp hall.1
    obtain ⟨own, hown⟩ : ∃ own, segmentRows json s room 0 (splitlines [] s.payload) = .ok own :=
      segmentRows_returns hobjects (by omega)
        (fun line hline x hx => (hwritten line hline x hx).imp (fun _ hs => hs.1))
    have hrows := rows_of_segmentRows hown
    have hcount : own.length = s.expectedRecords := hrows.length.trans hlength.symm
    obtain ⟨rest, hrest, hadmitted⟩ : ∃ rest,
        segmentsRows json (room - own.length) segments = .ok rest ∧
          ∀ r ∈ rest, ∀ column ∈ schema, column.admits r = true := ih h.2 (by omega) hall.2
    refine ⟨own ++ rest, ?_, fun r hr => ?_⟩
    · rw [segmentsRows, hown]
      simp [hcount, hcount ▸ hrest, Except.map]
    · obtain hr | hr := List.mem_append.mp hr
      · exact hrows.admitted (by omega) hwritten r hr
      · exact hadmitted r hr

/-- Admitted segments are reportable exactly when each of their records is. -/
theorem admitted_reportable {segments : List ParquetSegment} {maxSegments maxRecords maxInputBytes : Nat}
    (h : ∀ s ∈ segments, Accepted env settings json s) (hne : segments ≠ [])
    (hsegments : segments.length ≤ maxSegments)
    (hrecords : (segments.map ParquetSegment.expectedRecords).sum ≤ maxRecords)
    (hbytes : (segments.map (fun s => s.payload.length)).sum ≤ maxInputBytes) :
    ((∀ s ∈ segments, OutboxWorker.parsePayload (env.reading json) s.payload s.expectedRecords =
        .ok s.expectedRecords) ∧
      ∃ rows, buildNormalizedParquet json segments maxSegments maxRecords maxInputBytes = .ok rows ∧
        rows.length = (segments.map ParquetSegment.expectedRecords).sum) ↔
    ∀ s ∈ segments, ∀ x ∈ records json s.payload, Reportable json x := by
  have hbuild : buildNormalizedParquet json segments maxSegments maxRecords maxInputBytes =
      match segmentsRows json maxRecords segments with
      | .error message => .error message
      | .ok rows => (arrays rows schema).map (fun _ => rows) := by
    rw [buildNormalizedParquet, if_neg hne, if_neg (Nat.not_lt.mpr hsegments),
      if_neg (Nat.not_lt.mpr hbytes)]
  rw [hbuild]
  constructor
  · rintro ⟨_, rows, hrows, _⟩
    split at hrows
    · cases hrows
    · next all hall =>
      cases harrays : arrays all schema with
      | error e =>
        rw [harrays] at hrows
        cases hrows
      | ok u =>
        have hadmitted := arrays_ok.mp harrays
        intro s hs
        obtain ⟨own, hown, hmem⟩ := (rows_of_segmentsRows hall).2 s hs
        refine (reportable_records (h s hs).objects.1).mpr (hown.each_written (fun r hr => ?_))
        exact hadmitted (.texts (fun r => some r.recordJson)) (by simp [schema]) r (hmem r hr)
  · intro hall
    obtain ⟨rows, hrows, hadmitted⟩ := segmentsRows_returns h hrecords hall
    refine ⟨fun s hs => (h s hs).parsed, rows, ?_, (rows_of_segmentsRows hrows).1⟩
    have harrays : arrays rows schema = .ok () :=
      arrays_ok.mpr (fun column hc r hr => hadmitted r hr column hc)
    rw [hrows]
    show (arrays rows schema).map (fun _ => rows) = .ok rows
    rw [harrays]
    rfl

end accepted

end Projection

-- A record with a number that is none, and one without.
namespace Sample

def nanPayload : Bytes := [123, 34, 97, 34, 58, 78, 97, 78, 125, 10]

def onePayload : Bytes := [123, 34, 97, 34, 58, 49, 125, 10]

/-- `json.loads` on the two lines. -/
def json : PyJson where
  loads line :=
    if line = nanPayload.dropLast then .ok (.dict [(PyStr.ofString "a", .nonfinite)])
    else if line = onePayload.dropLast then .ok (.dict [(PyStr.ofString "a", .int 1)])
    else .error (.caught "Expecting value")
  room := 900

def jsonEnv (digest : String) : Env := { env with sha256 := fun _ => digest }

def nanDigest : String := "c94e6ba0ad71368ac8cbaf44c652bced6f2c3e2f0f2b2d4fb56bf1e850363294"

def oneDigest : String := "e346432021b04179518d9614f3560ccd71354a4ee101ddcb893d6959a9d6301c"

def nanUpload : SegmentUpload := ⟨{ fields "a1" with
  expandedSizeBytes := 10
  payloadSha256 := nanDigest
  payloadBase64 := "eyJhIjpOYU59Cg==" }, by constructor <;> decide⟩

def oneUpload : SegmentUpload := ⟨{ fields "a1" with
  expandedSizeBytes := 8
  payloadSha256 := oneDigest
  payloadBase64 := "eyJhIjoxfQo=" }, by constructor <;> decide⟩

def nanSegment : ParquetSegment := ⟨2, nanDigest, 1, nanPayload⟩

def oneSegment : ParquetSegment := ⟨2, oneDigest, 1, onePayload⟩

end Sample

namespace Projection

theorem accepted_nan : Accepted (Sample.jsonEnv Sample.nanDigest) Sample.settings Sample.json
    Sample.nanSegment := by
  have h : (IngestionService.preparePayload ((Sample.jsonEnv Sample.nanDigest).reading Sample.json)
      Sample.settings "acme" Sample.nanUpload).toOption.map PreparedPayload.content =
        some Sample.nanPayload := by decide +kernel
  obtain ⟨p, hp, hcontent⟩ := Option.map_eq_some_iff.mp h
  refine ⟨"acme", Sample.nanUpload, p, ?_, hcontent.symm, rfl⟩
  cases hr : IngestionService.preparePayload ((Sample.jsonEnv Sample.nanDigest).reading Sample.json)
      Sample.settings "acme" Sample.nanUpload with
  | error e =>
    rw [hr] at hp
    cases hp
  | ok p' =>
    rw [hr] at hp
    exact congrArg Except.ok (Option.some.inj hp)

/-- A record that is admitted with a number that is none makes the projection raise. -/
theorem nan_not_reportable : ¬∀ segment : ParquetSegment,
    Accepted (Sample.jsonEnv Sample.nanDigest) Sample.settings Sample.json segment →
    segment.payload.length ≤ 64 * 1024 * 1024 → segment.expectedRecords ≤ 10000000 →
      ∃ rows, buildNormalizedParquet Sample.json [segment] 10000 10000000 (64 * 1024 * 1024) =
        .ok rows ∧ rows.length = segment.expectedRecords := by
  intro h
  obtain ⟨rows, hrows, _⟩ := h Sample.nanSegment accepted_nan (by decide) (by decide)
  have herror : (buildNormalizedParquet Sample.json [Sample.nanSegment] 10000 10000000
      (64 * 1024 * 1024)).toOption.isSome = false := by decide +kernel
  rw [hrows] at herror
  cases herror

/-- An admitted segment with one plain record. -/
theorem admitted_reportable_sample :
    ((∀ s ∈ [Sample.oneSegment], OutboxWorker.parsePayload
        ((Sample.jsonEnv Sample.oneDigest).reading Sample.json) s.payload s.expectedRecords =
        .ok s.expectedRecords) ∧
      ∃ rows, buildNormalizedParquet Sample.json [Sample.oneSegment] 10000 10000000
        (64 * 1024 * 1024) = .ok rows ∧ rows.length = 1) := by
  have h : (IngestionService.preparePayload ((Sample.jsonEnv Sample.oneDigest).reading Sample.json)
      Sample.settings "acme" Sample.oneUpload) =
        .ok ⟨Sample.onePayload, segmentKey (Sample.jsonEnv Sample.oneDigest) "acme" "c1"
          Sample.oneDigest⟩ := by decide +kernel
  have haccepted : ∀ s ∈ [Sample.oneSegment],
      Accepted (Sample.jsonEnv Sample.oneDigest) Sample.settings Sample.json s := by
    intro s hs
    obtain rfl := List.mem_singleton.mp hs
    exact ⟨"acme", Sample.oneUpload, _, h, rfl, rfl⟩
  refine (admitted_reportable haccepted (by simp) (by decide) (by decide) (by decide)).mpr ?_
  intro s hs x hx
  obtain rfl := List.mem_singleton.mp hs
  have hrecords : records Sample.json Sample.onePayload =
      [.dict [(PyStr.ofString "a", .int 1)]] := rfl
  obtain rfl := List.mem_singleton.mp (hrecords ▸ hx)
  exact ⟨by decide, by decide⟩

end Projection

end RankLens
