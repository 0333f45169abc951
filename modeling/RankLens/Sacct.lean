import RankLens.Observed
import RankLens.Timeline

namespace RankLens

inductive PyFloat where
  | finite (q : ℚ)
  | infinite (negative : Bool)
  | nan

/-- What `json.loads` makes of the output of `sacct`. -/
inductive SacctValue where
  | null
  | bool (b : Bool)
  | int (n : Int)
  | float (x : PyFloat)
  | str (s : PyStr)
  | list (xs : List SacctValue)
  | dict (members : List (PyStr × SacctValue))

/-- What the adapter uses of Python: the texts of floats and containers, `int` and `upper` of a
string, `float` of an integer, the instant of a number, the local time and the offset of a text, and
a hex digest. A function that may raise has none there. -/
structure SacctPython where
  repr : SacctValue → PyStr
  int : PyStr → Option Int
  upper : PyStr → PyStr
  float : Int → Option PyFloat
  fromtimestamp : PyFloat → Option Instant
  fromisoformat : PyStr → Option (Int × Option Int)
  minInstant : Instant
  maxInstant : Instant
  sha256 : PyStr → PyStr

/-- A `SchedulerAttempt` as it is parsed, with the texts of Python. -/
structure SacctAttempt where
  adapter : String
  adapterVersion : String
  clusterId : PyStr
  sourceIdentity : PyStr
  jobId : PyStr
  arrayJobId : Option PyStr
  arrayTaskId : Option PyStr
  stepId : Option PyStr
  restartCount : Int
  state : ExecutionState
  stateReason : Option PyStr
  submittedAt : Option Instant
  startedAt : Option Instant
  endedAt : Option Instant
  allocatedNodes : Option Int
  allocatedCpus : Option Int
  account : Option PyStr
  partition : Option PyStr
  userRef : Option PyStr
  observedAt : Instant
  raw : List (PyStr × SacctValue)

namespace Sacct

/-- The exceptions that leave `parse_sacct_json`. -/
inductive Raised where
  | adapter (message : String)
  | overflow
  | timestamp
  | unicodeEncode
deriving DecidableEq, Repr

abbrev Job := List (PyStr × SacctValue)

/-- `get` of a mapping; of a key written twice the last one counts. -/
def get (members : Job) (key : String) : Option SacctValue :=
  members.reverse.lookup (PyStr.ofString key)

def container : SacctValue → Bool
  | .list _ => true
  | .dict _ => true
  | _ => false

def scalar : SacctValue → SacctValue
  | .dict members =>
    match get members "set" with
    | some (.bool false) => .null
    | _ =>
      match ["number", "string", "value", "id"].findSome? (fun key =>
        (get members key).filter (fun v => !container v)) with
      | some v => v
      | none =>
        match get members "current" with
        | some (.list (x :: _)) => x
        | some (.str s) => .str s
        | _ => .null
  | v => v

variable (py : SacctPython)

/-- The characters `str.strip` removes. -/
def blank (c : Nat) : Bool :=
  (9 ≤ c && c ≤ 13) || (28 ≤ c && c ≤ 32) || c = 0x85 || c = 0xa0 || c = 0x1680 ||
    (0x2000 ≤ c && c ≤ 0x200a) || c = 0x2028 || c = 0x2029 || c = 0x202f || c = 0x205f ||
    c = 0x3000

def strip (s : PyStr) : PyStr := ((s.dropWhile blank).reverse.dropWhile blank).reverse

def decimal (n : Int) : PyStr :=
  PyStr.ofString (String.ofList ((if n < 0 then ['-'] else []) ++ Nat.toDigits 10 n.natAbs))

def str : SacctValue → PyStr
  | .null => PyStr.ofString "None"
  | .bool b => PyStr.ofString (if b then "True" else "False")
  | .int n => decimal n
  | .str s => s
  | v => py.repr v

def text (v : SacctValue) : Option PyStr :=
  match scalar v with
  | .null => none
  | x => if strip (str py x) = [] then none else some (strip (str py x))

/-- `get` that gives `None` for what is missing. -/
def valueAt (job : Job) (key : String) : SacctValue := (get job key).getD .null

def textAt (job : Job) (key : String) : Option PyStr := text py (valueAt job key)

def truncate (q : ℚ) : Int := if q < 0 then ⌈q⌉ else ⌊q⌋

def integer (v : SacctValue) : Except Raised (Option Int) :=
  match scalar v with
  | .int n => .ok (some n)
  | .float (.finite q) => .ok (some (truncate q))
  | .float (.infinite _) => .error .overflow
  | .str s => .ok (py.int s)
  | _ => .ok none

def integerAt (job : Job) (key : String) : Except Raised (Option Int) :=
  integer py (valueAt job key)

/-- `_integer(first) or _integer(second)`. -/
def eitherInteger (job : Job) (first second : String) : Except Raised (Option Int) := do
  match ← integerAt py job first with
  | some 0 => integerAt py job second
  | some n => pure (some n)
  | none => integerAt py job second

/-- `scalar in (None, 0, "0", "Unknown", "N/A")`. -/
def unset : SacctValue → Bool
  | .null => true
  | .bool b => !b
  | .int n => n = 0
  | .float (.finite q) => q = 0
  | .str s => s = PyStr.ofString "0" || s = PyStr.ofString "Unknown" || s = PyStr.ofString "N/A"
  | _ => false

def isoCandidate (s : PyStr) : PyStr :=
  (strip s).flatMap (fun c => if c = 90 then PyStr.ofString "+00:00" else [c])

def instant (v : SacctValue) : Except Raised (Option Instant) :=
  if unset (scalar v) then .ok none
  else
    match scalar v with
    | .int n =>
      match py.float n with
      | none => .error .overflow
      | some x =>
        match py.fromtimestamp x with
        | none => .error .timestamp
        | some t => .ok (some t)
    | .float x =>
      match py.fromtimestamp x with
      | none => .error .timestamp
      | some t => .ok (some t)
    | .str s =>
      match py.fromisoformat (isoCandidate s) with
      | none => .ok none
      | some (localTime, offset) =>
        if py.minInstant ≤ localTime - offset.getD 0 ∧
            localTime - offset.getD 0 ≤ py.maxInstant then
          .ok (some (localTime - offset.getD 0))
        else .error .overflow
    | _ => .ok none

def instantAt (job : Job) (key : String) : Except Raised (Option Instant) :=
  instant py (valueAt job key)

local instance pyStr_lawful : LawfulBEq PyStr := inferInstance

def stateOf (token : PyStr) : ExecutionState :=
  let within (names : List String) : Bool := token ∈ names.map PyStr.ofString
  if within ["PENDING", "CONFIGURING", "RESV_DEL_HOLD", "REQUEUE_HOLD", "REQUEUED"] then .pending
  else if within ["RUNNING", "SUSPENDED"] then .running
  else if within ["COMPLETING", "STAGE_OUT"] then .completing
  else if within ["COMPLETED"] then .succeeded
  else if within ["CANCELLED", "DEADLINE", "REVOKED"] then .cancelled
  else if within ["PREEMPTED", "REQUEUE_FED"] then .preempted
  else if within ["TIMEOUT"] then .timedOut
  else if within ["BOOT_FAIL", "FAILED", "NODE_FAIL", "OUT_OF_MEMORY", "SPECIAL_EXIT", "STOPPED",
    "LAUNCH_FAILED"] then .failed
  else .unknown

def state (v : SacctValue) : ExecutionState × Option PyStr :=
  (stateOf ((py.upper ((text py v).getD (PyStr.ofString "UNKNOWN"))).takeWhile (fun c => c ≠ 43)),
    match v with
    | .dict members => textAt py members "reason"
    | _ => none)

/-- The member `array`, when it is a mapping. -/
def arrayOf (job : Job) : Job :=
  match get job "array" with
  | some (.dict members) => members
  | _ => []

def arrayJobId (job : Job) : Option PyStr :=
  textAt py (arrayOf job) "job_id" <|> textAt py job "array_job_id"

def arrayTaskId (job : Job) : Option PyStr :=
  textAt py (arrayOf job) "task_id" <|> textAt py job "array_task_id"

def sluid (job : Job) : Option PyStr :=
  textAt py job "sluid" <|> textAt py job "SLUID"

def originalSluid (job : Job) : Option PyStr :=
  textAt py job "original_sluid" <|> textAt py job "OriginalSLUID"

/-- The fields a derived identity is the digest of, the restart count as it was read. -/
def identityFields (clusterId : PyStr) (job : Job) (restarts : Option Int) : List PyStr :=
  [clusterId, (textAt py job "job_id").getD (PyStr.ofString "unknown"), (arrayJobId py job).getD [],
    (arrayTaskId py job).getD [], (textAt py job "submit_time").getD [], decimal (restarts.getD 0)]

def sourceIdentity (clusterId : PyStr) (job : Job) : Except Raised PyStr :=
  match originalSluid py job <|> sluid py job, sluid py job <|> originalSluid py job with
  | some first, some second =>
    .ok (PyStr.ofString "slurm:" ++ clusterId ++ PyStr.ofString ":sluid:" ++ first ++
      PyStr.ofString ":" ++ second)
  | _, _ => do
    let restarts ← integerAt py job "restart_count"
    let joined := (identityFields py clusterId job restarts).intersperse [31]
    if PyStr.clean joined.flatten then
      pure (PyStr.ofString "slurm:" ++ clusterId ++ PyStr.ofString ":derived:" ++
        py.sha256 joined.flatten)
    else throw Raised.unicodeEncode

def parseJob (clusterId : PyStr) (observedAt : Instant) : SacctValue → Except Raised SacctAttempt
  | .dict job => do
    let jobId ← match textAt py job "job_id" with
      | none => throw (.adapter "sacct job is missing job_id")
      | some jobId => pure jobId
    let identity ← sourceIdentity py clusterId job
    let restarts ← integerAt py job "restart_count"
    let submittedAt ← instantAt py job "submit_time"
    let startedAt ← instantAt py job "start_time"
    let endedAt ← instantAt py job "end_time"
    let nodes ← eitherInteger py job "allocation_nodes" "nodes"
    let cpus ← eitherInteger py job "allocation_cpus" "cpus"
    pure {
      adapter := "slurm"
      adapterVersion := "slurm-sacct-json-v1"
      clusterId := clusterId
      sourceIdentity := identity
      jobId := jobId
      arrayJobId := arrayJobId py job
      arrayTaskId := arrayTaskId py job
      stepId := none
      restartCount := restarts.getD 0
      state := (state py (valueAt job "state")).1
      stateReason := (state py (valueAt job "state")).2
      submittedAt := submittedAt
      startedAt := startedAt
      endedAt := endedAt
      allocatedNodes := nodes
      allocatedCpus := cpus
      account := textAt py job "account"
      partition := textAt py job "partition"
      userRef := textAt py job "user"
      observedAt := observedAt
      raw := job }
  | _ => throw (.adapter "sacct jobs must be objects")

def parseSacctJson (payload : Job) (clusterId : PyStr) (observedAt : Instant) :
    Except Raised (List SacctAttempt) :=
  match get payload "jobs" with
  | some (.list jobs) => jobs.mapM (parseJob py clusterId observedAt)
  | _ => throw (.adapter "sacct JSON must contain a jobs list")

section batch

variable {py} {v first second : SacctValue} {job : Job} {clusterId : PyStr} {observedAt : Instant}
  {n : Int} {key : String}

/-- The value is an integer for `_integer`. -/
def Gives (py : SacctPython) (v : SacctValue) (n : Int) : Prop :=
  scalar v = .int n ∨ (∃ q, scalar v = .float (.finite q) ∧ truncate q = n) ∨
    ∃ s, scalar v = .str s ∧ py.int s = some n

def Infinite (v : SacctValue) : Prop := ∃ negative, scalar v = .float (.infinite negative)

def Fits (n : Int) : Prop := -2 ^ 31 ≤ n ∧ n ≤ 2 ^ 31 - 1

/-- A count that can be converted and stored. -/
def Countable (py : SacctPython) (v : SacctValue) : Prop :=
  ¬Infinite v ∧ ∀ n, Gives py v n → Fits n

/-- The first value, or the second where the first is no integer but zero. -/
def EitherCountable (py : SacctPython) (first second : SacctValue) : Prop :=
  ¬Infinite first ∧ ((∃ n, n ≠ 0 ∧ Gives py first n ∧ Fits n) ∨
    ((∀ n, Gives py first n → n = 0) ∧ Countable py second))

/-- The instant a time stands for, none where it is unset, no time at all or out of range. -/
def timestamp (py : SacctPython) (v : SacctValue) : Option Instant :=
  if unset (scalar v) then none
  else
    match scalar v with
    | .int n => (py.float n).bind py.fromtimestamp
    | .float x => py.fromtimestamp x
    | .str s => (py.fromisoformat (isoCandidate s)).bind fun (localTime, offset) =>
      if py.minInstant ≤ localTime - offset.getD 0 ∧ localTime - offset.getD 0 ≤ py.maxInstant then
        some (localTime - offset.getD 0)
      else none
    | _ => none

/-- A number, or a text of a time, that is unset or can be represented. -/
def Timely (py : SacctPython) (v : SacctValue) : Prop :=
  unset (scalar v) = true ∨
    match scalar v with
    | .int n => ∃ x t, py.float n = some x ∧ py.fromtimestamp x = some t
    | .float x => ∃ t, py.fromtimestamp x = some t
    | .str s => ∀ localTime offset, py.fromisoformat (isoCandidate s) = some (localTime, offset) →
      py.minInstant ≤ localTime - offset.getD 0 ∧ localTime - offset.getD 0 ≤ py.maxInstant
    | _ => True

/-- A job without an SLUID has an identity that UTF-8 encodes. -/
def Encodable (py : SacctPython) (clusterId : PyStr) (job : Job) : Prop :=
  sluid py job = none → originalSluid py job = none → clusterId.clean = true ∧
    ∀ s ∈ [textAt py job "job_id", arrayJobId py job, arrayTaskId py job,
      textAt py job "submit_time"], ∀ t ∈ s, PyStr.clean t = true

/-- What a job must be like to be parsed and stored. -/
structure Storable (py : SacctPython) (clusterId : PyStr) (job : Job) : Prop where
  restarts : Countable py (valueAt job "restart_count")
  submitted : Timely py (valueAt job "submit_time")
  started : Timely py (valueAt job "start_time")
  ended : Timely py (valueAt job "end_time")
  nodes : EitherCountable py (valueAt job "allocation_nodes") (valueAt job "nodes")
  cpus : EitherCountable py (valueAt job "allocation_cpus") (valueAt job "cpus")
  identity : Encodable py clusterId job

/-- An attempt of the job, with the times it can represent, whose integers fit. -/
structure Represents (py : SacctPython) (job : Job) (a : SacctAttempt) : Prop where
  raw : a.raw = job
  jobId : textAt py job "job_id" = some a.jobId
  submitted : a.submittedAt = timestamp py (valueAt job "submit_time")
  started : a.startedAt = timestamp py (valueAt job "start_time")
  ended : a.endedAt = timestamp py (valueAt job "end_time")
  restarts : Fits a.restartCount
  nodes : ∀ n ∈ a.allocatedNodes, Fits n
  cpus : ∀ n ∈ a.allocatedCpus, Fits n

/-- The batch has one attempt for each job, in their order. -/
def Parsed (py : SacctPython) (payload : Job) (clusterId : PyStr) (observedAt : Instant)
    (jobs : List Job) : Prop :=
  ∃ attempts, parseSacctJson py payload clusterId observedAt = .ok attempts ∧
    List.Forall₂ (Represents py) jobs attempts

theorem integer_cases (py : SacctPython) (v : SacctValue) :
    (Infinite v ∧ integer py v = .error .overflow) ∨
      (¬Infinite v ∧ ∃ r, integer py v = .ok r ∧ ∀ n, Gives py v n ↔ r = some n) := by
  unfold Infinite integer Gives
  cases scalar v with
  | float x =>
    cases x with
    | infinite negative => exact .inl ⟨⟨negative, rfl⟩, rfl⟩
    | finite q => exact .inr ⟨by simp, _, rfl, by simp⟩
    | nan => exact .inr ⟨by simp, _, rfl, by simp⟩
  | int n => exact .inr ⟨by simp, _, rfl, by simp⟩
  | str s => exact .inr ⟨by simp, _, rfl, by simp⟩
  | null => exact .inr ⟨by simp, _, rfl, by simp⟩
  | bool b => exact .inr ⟨by simp, _, rfl, by simp⟩
  | list xs => exact .inr ⟨by simp, _, rfl, by simp⟩
  | dict members => exact .inr ⟨by simp, _, rfl, by simp⟩

theorem countable_iff : Countable py v ↔ ∃ r, integer py v = .ok r ∧ ∀ n ∈ r, Fits n := by
  unfold Countable
  obtain ⟨hinf, herror⟩ | ⟨hfin, r, hok, hgives⟩ := integer_cases py v
  · rw [herror]
    exact iff_of_false (fun h => h.1 hinf) (fun ⟨_, h, _⟩ => nomatch h)
  · constructor
    · exact fun h => ⟨r, hok, fun n hn => h.2 n ((hgives n).mpr hn)⟩
    · rintro ⟨r', hr', hfits⟩
      obtain rfl := Except.ok.inj (hok.symm.trans hr')
      exact ⟨hfin, fun n hn => hfits n ((hgives n).mp hn)⟩

theorem eitherInteger_of_ok {r : Option Int} {a b : String} (h : integerAt py job a = .ok r) :
    eitherInteger py job a b =
      if r.getD 0 = 0 then integerAt py job b else .ok r := by
  unfold eitherInteger
  rw [h]
  obtain - | n := r
  · rfl
  · by_cases hn : n = 0
    · subst hn
      rfl
    · simp only [Option.getD_some, if_neg hn]
      change (match (some n : Option Int) with
        | some 0 => _ | some n => _ | none => _) = _
      split
      · next heq => exact absurd (Option.some.inj heq) hn
      · next heq => rw [heq]; rfl
      · next heq => cases heq

theorem eitherCountable_iff {a b : String} : EitherCountable py (valueAt job a) (valueAt job b) ↔
    ∃ r, eitherInteger py job a b = .ok r ∧ ∀ n ∈ r, Fits n := by
  unfold EitherCountable
  rw [countable_iff]
  obtain ⟨hinf, herror⟩ | ⟨hfin, r, hok, hgives⟩ := integer_cases py (valueAt job a)
  · have hraise : eitherInteger py job a b = .error .overflow := by
      unfold eitherInteger integerAt
      rw [herror]
      rfl
    rw [hraise]
    exact iff_of_false (fun h => h.1 hinf) (fun ⟨_, h, _⟩ => nomatch h)
  · rw [eitherInteger_of_ok hok]
    simp only [hgives, hfin, not_false_eq_true, true_and]
    by_cases hzero : r.getD 0 = 0
    · have hnone : ¬∃ n, n ≠ 0 ∧ r = some n ∧ Fits n := by
        rintro ⟨n, hn, rfl, -⟩
        exact hn hzero
      have hall : ∀ n, r = some n → n = 0 := by
        rintro n rfl
        exact hzero
      rw [if_pos hzero, or_iff_right hnone, and_iff_right hall]
      rfl
    · obtain - | n := r
      · exact absurd rfl hzero
      · have hn : n ≠ 0 := hzero
        rw [if_neg hzero]
        simp [hn]

theorem instant_ok {t : Option Instant} (h : instant py v = .ok t) : t = timestamp py v := by
  unfold instant at h
  unfold timestamp
  split_ifs at h ⊢ with hunset
  · exact (Except.ok.inj h).symm
  cases hs : scalar v <;> simp only [hs] at h ⊢ <;> grind

theorem timely_iff : Timely py v ↔ ∃ t, instant py v = .ok t := by
  unfold Timely instant
  by_cases hunset : unset (scalar v) = true
  · simp [hunset]
  rw [if_neg hunset, or_iff_right hunset]
  cases scalar v with
  | int n =>
    cases hx : py.float n with
    | none => simp [hx]
    | some x =>
      cases ht : py.fromtimestamp x with
      | none => simp [hx, ht]
      | some t => simp [hx, ht]
  | float x =>
    cases ht : py.fromtimestamp x with
    | none => simp [ht]
    | some t => simp [ht]
  | str s =>
    cases hs : py.fromisoformat (isoCandidate s) with
    | none => simp [hs]
    | some read =>
      obtain ⟨localTime, offset⟩ := read
      by_cases hrange : py.minInstant ≤ localTime - offset.getD 0 ∧
          localTime - offset.getD 0 ≤ py.maxInstant
      · simp only [hs, if_pos hrange]
        refine iff_of_true (fun l o h => ?_) ⟨_, rfl⟩
        cases h
        exact hrange
      · simp only [hs, if_neg hrange]
        exact iff_of_false (fun h => hrange (h localTime offset rfl)) (fun ⟨_, h⟩ => nomatch h)
  | null => simp
  | bool b => simp
  | list xs => simp
  | dict members => simp

theorem clean_identityFields {restarts : Option Int} :
    PyStr.clean ((identityFields py clusterId job restarts).intersperse [31]).flatten = true ↔
      clusterId.clean = true ∧ ∀ s ∈ [textAt py job "job_id", arrayJobId py job,
        arrayTaskId py job, textAt py job "submit_time"], ∀ t ∈ s, PyStr.clean t = true := by
  have hgetD : ∀ (s : Option PyStr) (other : PyStr), PyStr.clean other = true →
      (PyStr.clean (s.getD other) = true ↔ ∀ t ∈ s, PyStr.clean t = true) := by
    intro s other hother
    cases s with
    | none => simp [hother]
    | some t => simp
  have hdecimal : PyStr.clean (decimal (restarts.getD 0)) = true := PyStr.clean_ofString _
  have hseparator : ∀ s, PyStr.clean (31 :: s) = PyStr.clean s := fun _ => rfl
  have hunknown := hgetD (textAt py job "job_id") _ (PyStr.clean_ofString "unknown")
  simp [identityFields, List.intersperse, PyStr.clean_append, hdecimal, hseparator, hunknown,
    hgetD _ [] rfl]

theorem encodable_iff {restarts : Option Int}
    (h : integerAt py job "restart_count" = .ok restarts) :
    Encodable py clusterId job ↔ ∃ identity, sourceIdentity py clusterId job = .ok identity := by
  unfold Encodable sourceIdentity
  rw [h]
  cases horiginal : originalSluid py job with
  | some first =>
    cases hs : sluid py job <;> simp
  | none =>
    cases hs : sluid py job with
    | some second => simp
    | none =>
      simp only [true_implies]
      rw [← clean_identityFields]
      by_cases hclean : PyStr.clean
          ((identityFields py clusterId job restarts).intersperse [31]).flatten = true
      · refine iff_of_true hclean ⟨_, if_pos hclean⟩
      · refine iff_of_false hclean (fun ⟨identity, h⟩ => ?_)
        have hraise := (if_neg hclean).symm.trans h
        exact nomatch hraise

theorem fits_getD {r : Option Int} : Fits (r.getD 0) ↔ ∀ n ∈ r, Fits n := by
  cases r with
  | none => simp [Fits]
  | some n => simp

/-- A job that names itself is parsed to an attempt that represents it when it is storable. -/
theorem parseJob_iff (hid : (textAt py job "job_id").isSome) :
    (∃ a, parseJob py clusterId observedAt (.dict job) = .ok a ∧ Represents py job a) ↔
      Storable py clusterId job := by
  obtain ⟨jobId, hjobId⟩ := Option.isSome_iff_exists.mp hid
  constructor
  · rintro ⟨a, ha, hrep⟩
    simp only [parseJob, hjobId] at ha
    obtain ⟨_, -, ha⟩ := Analyzer.bind_ok_iff.mp ha
    obtain ⟨identity, hidentity, ha⟩ := Analyzer.bind_ok_iff.mp ha
    obtain ⟨restarts, hrestarts, ha⟩ := Analyzer.bind_ok_iff.mp ha
    obtain ⟨submitted, hsubmitted, ha⟩ := Analyzer.bind_ok_iff.mp ha
    obtain ⟨started, hstarted, ha⟩ := Analyzer.bind_ok_iff.mp ha
    obtain ⟨ended, hended, ha⟩ := Analyzer.bind_ok_iff.mp ha
    obtain ⟨nodes, hnodes, ha⟩ := Analyzer.bind_ok_iff.mp ha
    obtain ⟨cpus, hcpus, ha⟩ := Analyzer.bind_ok_iff.mp ha
    obtain rfl := Except.ok.inj ha
    exact ⟨countable_iff.mpr ⟨restarts, hrestarts, fits_getD.mp hrep.restarts⟩,
      timely_iff.mpr ⟨submitted, hsubmitted⟩, timely_iff.mpr ⟨started, hstarted⟩,
      timely_iff.mpr ⟨ended, hended⟩, eitherCountable_iff.mpr ⟨nodes, hnodes, hrep.nodes⟩,
      eitherCountable_iff.mpr ⟨cpus, hcpus, hrep.cpus⟩,
      (encodable_iff hrestarts).mpr ⟨identity, hidentity⟩⟩
  · intro h
    obtain ⟨restarts, hrestarts, fitting⟩ := countable_iff.mp h.restarts
    obtain ⟨submitted, hsubmitted⟩ := timely_iff.mp h.submitted
    obtain ⟨started, hstarted⟩ := timely_iff.mp h.started
    obtain ⟨ended, hended⟩ := timely_iff.mp h.ended
    obtain ⟨nodes, hnodes, fewNodes⟩ := eitherCountable_iff.mp h.nodes
    obtain ⟨cpus, hcpus, fewCpus⟩ := eitherCountable_iff.mp h.cpus
    obtain ⟨identity, hidentity⟩ := (encodable_iff hrestarts).mp h.identity
    have hparsed : ∃ a, parseJob py clusterId observedAt (.dict job) = .ok a ∧ a.raw = job ∧
        a.jobId = jobId ∧ a.submittedAt = submitted ∧ a.startedAt = started ∧ a.endedAt = ended ∧
        a.restartCount = restarts.getD 0 ∧ a.allocatedNodes = nodes ∧ a.allocatedCpus = cpus := by
      simp only [parseJob, integerAt, instantAt, hjobId, hidentity, hrestarts, hsubmitted, hstarted,
        hended, hnodes, hcpus]
      exact ⟨_, rfl, rfl, rfl, rfl, rfl, rfl, rfl, rfl, rfl⟩
    obtain ⟨a, ha, raw, rfl, rfl, rfl, rfl, restartCount, rfl, rfl⟩ := hparsed
    refine ⟨a, ha, raw, hjobId, instant_ok hsubmitted, instant_ok hstarted, instant_ok hended, ?_,
      fewNodes, fewCpus⟩
    rw [restartCount]
    exact fits_getD.mpr fitting

theorem mapM_forall₂_iff {α β γ ε : Type} {f : β → Except ε γ} {g : α → β} {R : α → γ → Prop}
    (xs : List α) : (∃ ys, (xs.map g).mapM f = .ok ys ∧ List.Forall₂ R xs ys) ↔
      ∀ x ∈ xs, ∃ y, f (g x) = .ok y ∧ R x y := by
  induction xs with
  | nil => exact iff_of_true ⟨[], rfl, .nil⟩ (by simp)
  | cons x xs ih =>
    rw [List.forall_mem_cons, ← ih, List.map_cons, List.mapM_cons]
    constructor
    · rintro ⟨ys, hys, hrel⟩
      obtain ⟨y, hy, hys⟩ := Analyzer.bind_ok_iff.mp hys
      obtain ⟨rest, hrest, hys⟩ := Analyzer.bind_ok_iff.mp hys
      obtain rfl := Except.ok.inj hys
      obtain ⟨hx, hxs⟩ := List.forall₂_cons.mp hrel
      exact ⟨⟨y, hy, hx⟩, rest, hrest, hxs⟩
    · rintro ⟨⟨y, hy, hx⟩, rest, hrest, hxs⟩
      refine ⟨y :: rest, ?_, .cons hx hxs⟩
      rw [hy, hrest]
      rfl

/-- The output of `sacct`, when each of its jobs names itself, is parsed to one attempt for each job
when all of them are storable, and only then. -/
theorem batch_parsed_iff {payload : Job} {jobs : List Job}
    (hjobs : get payload "jobs" = some (.list (jobs.map .dict)))
    (hid : ∀ job ∈ jobs, (textAt py job "job_id").isSome) :
    Parsed py payload clusterId observedAt jobs ↔ ∀ job ∈ jobs, Storable py clusterId job := by
  unfold Parsed parseSacctJson
  rw [hjobs]
  refine (mapM_forall₂_iff jobs).trans (forall₂_congr (fun job hjob => ?_))
  exact parseJob_iff (hid job hjob)

/-- Python as far as the jobs below need it: short integers, and times of any date. -/
def shortPython : SacctPython where
  repr := fun _ => []
  int := fun s => (String.ofList (s.map Char.ofNat)).toInt?
  upper := fun s => s.map (fun c => if 97 ≤ c && c ≤ 122 then c - 32 else c)
  float := fun n => some (.finite n)
  fromtimestamp := fun
    | .finite q => some (1000000 * ⌊q⌋)
    | _ => none
  fromisoformat := fun _ => none
  minInstant := -62135596800000000
  maxInstant := 253402300799999999
  sha256 := fun s => s

/-- A job of an SLUID that runs on two nodes. -/
def soundJob : Job :=
  [(PyStr.ofString "job_id", .int 7), (PyStr.ofString "sluid", .str (PyStr.ofString "s7")),
    (PyStr.ofString "start_time", .int 60), (PyStr.ofString "nodes", .int 2)]

/-- The same job, whose node count is beyond every number. -/
def oddJob : Job := (PyStr.ofString "nodes", .float (.infinite false)) :: soundJob.dropLast

def jobsOf (jobs : List Job) : Job := [(PyStr.ofString "jobs", .list (jobs.map .dict))]

/-- A job without an SLUID that has not started and has restarted twice. -/
def queuedJob : Job :=
  [(PyStr.ofString "job_id", .int 8), (PyStr.ofString "restart_count", .int 2),
    (PyStr.ofString "start_time", .int 0)]

theorem batch_parsed_iff_two :
    Parsed shortPython (jobsOf [soundJob, queuedJob]) (PyStr.ofString "c") 0
        [soundJob, queuedJob] ↔
      ∀ job ∈ [soundJob, queuedJob], Storable shortPython (PyStr.ofString "c") job :=
  batch_parsed_iff rfl (by
    intro job hjob
    obtain rfl | hjob := List.mem_cons.mp hjob
    · decide
    · rw [List.mem_singleton.mp hjob]
      decide)

/-- One job with an infinite count keeps the jobs beside it from being parsed. -/
theorem infinite_count_raises : ¬∀ (py : SacctPython) (payload : Job) (clusterId : PyStr)
    (observedAt : Instant) (jobs : List Job), get payload "jobs" = some (.list (jobs.map .dict)) →
      (∀ job ∈ jobs, (textAt py job "job_id").isSome) →
        Parsed py payload clusterId observedAt jobs := by
  intro h
  have hid : ∀ job ∈ [soundJob, oddJob], (textAt shortPython job "job_id").isSome := by
    intro job hjob
    obtain rfl | hjob := List.mem_cons.mp hjob
    · decide
    · rw [List.mem_singleton.mp hjob]
      decide
  obtain ⟨attempts, hraise, -⟩ :=
    h shortPython (jobsOf [soundJob, oddJob]) (PyStr.ofString "c") 0 _ rfl hid
  exact nomatch hraise

end batch

end Sacct

end RankLens
