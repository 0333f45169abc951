import RankLens.Storage

namespace RankLens

/-- The characters `^[A-Za-z0-9_.:-]+$` allows, and those `extra` adds. -/
def identifierChar (extra : List Char) (c : Char) : Bool :=
  c.isAlphanum || c ∈ ['_', '.', ':', '-'] || c ∈ extra

def identifier (limit : Nat) (extra : List Char) (s : String) : Bool :=
  1 ≤ s.length && s.length ≤ limit && s.toList.all (identifierChar extra)

def hexDigest (s : String) : Bool :=
  s.length = 64 && s.toList.all (fun c => c.isDigit || ('a' ≤ c && c ≤ 'f'))

structure SegmentFields where
  clusterId : String
  attemptId : String
  workflowExecutionId : Option String
  logicalCaseId : Option String
  schedulerSourceIdentity : Option String
  producerId : String
  transportEpoch : String
  streamId : String
  firstSequence : Nat
  lastSequence : Nat
  recordCount : Nat
  deletionGeneration : Nat
  expandedSizeBytes : Nat
  payloadSha256 : String
  payloadBase64 : String
deriving DecidableEq, Repr

/-- The constraints of the upload contract, `validate_range` among them. -/
structure SegmentFields.Valid (f : SegmentFields) : Prop where
  identifiers : [f.clusterId, f.attemptId, f.producerId, f.transportEpoch, f.streamId].all
    (identifier 128 []) = true
  bindings : [f.workflowExecutionId, f.logicalCaseId].all
    (fun b => b.all (identifier 128 [])) = true
  identity : f.schedulerSourceIdentity.all (identifier 256 ['=', ',']) = true
  sequences : f.firstSequence ≤ 2 ^ 63 - 1 ∧ f.lastSequence ≤ 2 ^ 63 - 1
  records : 1 ≤ f.recordCount ∧ f.recordCount ≤ 10000000
  generation : f.deletionGeneration ≤ 2 ^ 63 - 1
  size : 1 ≤ f.expandedSizeBytes ∧ f.expandedSizeBytes ≤ 8 * 1024 * 1024
  digest : hexDigest f.payloadSha256 = true
  payload : 4 ≤ f.payloadBase64.length ∧ f.payloadBase64.length ≤ 12 * 1024 * 1024
  ordered : f.firstSequence ≤ f.lastSequence
  counted : f.recordCount ≤ f.lastSequence - f.firstSequence + 1

structure SegmentUpload extends SegmentFields where
  valid : toSegmentFields.Valid

structure MachinePrincipal where
  tenantId : String
  clusters : List String
  credentialId : String
deriving DecidableEq, Repr

structure DurableReceipt where
  receiptId : Uuid
  replayed : Bool
  objectKey : ObjectKey
  payloadSha256 : String
  committedAt : Instant
deriving DecidableEq, Repr

structure PreparedPayload where
  content : Bytes
  objectKey : ObjectKey
deriving DecidableEq, Repr

structure IngestionSettings where
  maxExpandedSegmentBytes : Nat
  defaultRetentionSeconds : Nat
  valid : defaultRetentionSeconds = 0 ∨
    (3600 ≤ defaultRetentionSeconds ∧ defaultRetentionSeconds ≤ 315360000)

def base64Value (c : Char) : Option Nat :=
  if c.isUpper then some (c.toNat - 65)
  else if c.isLower then some (c.toNat - 71)
  else if c.isDigit then some (c.toNat + 4)
  else if c = '+' then some 62
  else if c = '/' then some 63
  else none

/-- `base64.b64decode` with `validate=True`, on the characters of the text. -/
def b64decode : List Char → Option Bytes
  | [] => some []
  | [a, b, '=', '='] => do
    let n := (← base64Value a) * 64 + (← base64Value b)
    pure [UInt8.ofNat (n / 16)]
  | [a, b, c, '='] => do
    let n := ((← base64Value a) * 64 + (← base64Value b)) * 64 + (← base64Value c)
    pure [UInt8.ofNat (n / 1024), UInt8.ofNat (n / 4)]
  | a :: b :: c :: d :: rest => do
    let n := (((← base64Value a) * 64 + (← base64Value b)) * 64 + (← base64Value c)) * 64 +
      (← base64Value d)
    let bytes ← b64decode rest
    pure (UInt8.ofNat (n / 65536) :: UInt8.ofNat (n / 256) :: UInt8.ofNat n :: bytes)
  | _ => none

/-- `bytes.splitlines`, with the current line reversed in `line`. -/
def splitlines (line : Bytes) : Bytes → List Bytes
  | [] => if line.isEmpty then [] else [line.reverse]
  | 13 :: 10 :: rest => line.reverse :: splitlines [] rest
  | b :: rest =>
    if b = 10 ∨ b = 13 then line.reverse :: splitlines [] rest else splitlines (b :: line) rest

/-- `not line.strip()`. -/
def blank (line : Bytes) : Bool :=
  line.all (fun b => b = 32 || (9 ≤ b && b ≤ 13))

def conflict (code message : String) (retriable : Bool) : Failure :=
  .admission code message 409 retriable

def SegmentFields.attempt (f : SegmentFields) (tenantId : String) : AttemptKey :=
  ⟨tenantId, f.clusterId, f.attemptId⟩

def SegmentFields.stream (f : SegmentFields) (tenantId : String) : StreamKey :=
  ⟨tenantId, f.clusterId, f.producerId, f.transportEpoch, f.streamId⟩

def segmentKey (env : Env) (tenantId clusterId digest : String) : ObjectKey :=
  .segment (env.bucket tenantId) (env.bucket clusterId) digest

namespace IngestionService

variable (env : Env) (settings : IngestionSettings)

def countRecords : Nat → List Bytes → Except Failure Nat
  | _, [] => .ok 0
  | n, line :: lines =>
    if blank line then countRecords (n + 1) lines
    else
      match env.loads line with
      | .undecodable _ =>
        .error (.admission "invalid_ndjson" s!"payload record {n} is not valid JSON" 400 false)
      | .other =>
        .error (.admission "invalid_ndjson_record" s!"payload record {n} must be an object" 400 false)
      | .escapes message => .error (.value message)
      | .object => do
        let records ← countRecords (n + 1) lines
        pure (records + 1)

def preparePayload (tenantId : String) (segment : SegmentUpload) :
    Except Failure PreparedPayload :=
  if segment.expandedSizeBytes > settings.maxExpandedSegmentBytes then
    .error (.admission "segment_too_large" "expanded segment exceeds site policy" 413 false)
  else
    match b64decode segment.payloadBase64.toList with
    | none => .error (.admission "invalid_payload_encoding" "payload_base64 is invalid" 400 false)
    | some payload =>
      if payload.length ≠ segment.expandedSizeBytes then
        .error (.admission "expanded_size_mismatch" "expanded_size_bytes does not match payload"
          400 false)
      else if env.sha256 payload ≠ segment.payloadSha256 then
        .error (.admission "payload_digest_mismatch" "payload_sha256 does not match payload"
          400 false)
      else
        match countRecords env 1 (splitlines [] payload) with
        | .error e => .error e
        | .ok records =>
          if records ≠ segment.recordCount then
            .error (.admission "record_count_mismatch"
              "record_count does not match nonempty NDJSON records" 400 false)
          else .ok ⟨payload, segmentKey env tenantId segment.clusterId (env.sha256 payload)⟩

def assertScope (principal : MachinePrincipal) (segment : SegmentUpload) : Tx Unit :=
  Txn.raiseIf (segment.clusterId ∉ principal.clusters)
    (.admission "cluster_forbidden" "machine principal is not authorized for this cluster" 403 false)

def currentGeneration (tenantId : String) (segment : SegmentUpload) : Tx Nat := do
  let state ← Tables.generations.get (segment.attempt tenantId)
  match state with
  | none => do
    Tables.generations.insert .integrity
      ⟨tenantId, segment.clusterId, segment.attemptId, 0, none⟩
    pure 0
  | some state => do
    Txn.raiseIf (state.deletedAt.isSome = true)
      (conflict "attempt_deleted" "attempt no longer accepts telemetry" false)
    pure state.generation

def receipt (manifest : SegmentManifest) (replayed : Bool) : DurableReceipt :=
  ⟨manifest.receiptId, replayed, manifest.objectKey, manifest.payloadSha256, manifest.committedAt⟩

def rangeFilter (tenantId : String) (segment : SegmentUpload) (m : SegmentManifest) : Bool :=
  m.stream = segment.stream tenantId

def exactFilter (tenantId : String) (segment : SegmentUpload) (m : SegmentManifest) : Bool :=
  rangeFilter tenantId segment m && m.firstSequence = segment.firstSequence &&
    m.lastSequence = segment.lastSequence

def overlapFilter (tenantId : String) (segment : SegmentUpload) (m : SegmentManifest) : Bool :=
  rangeFilter tenantId segment m && m.firstSequence ≤ segment.lastSequence &&
    segment.firstSequence ≤ m.lastSequence

/-- The policy a new attempt is retained under: not cancelled, effective, scoped
cases before the cluster's default, the latest version first. -/
def selectPolicy (tenantId : String) (segment : SegmentUpload) (committedAt : Instant)
    (c : Catalog) : Option RetentionPolicyRevision :=
  let applies := c.policies.select (fun p =>
    p.tenantId = tenantId && p.clusterId = segment.clusterId && p.effectiveAt ≤ committedAt &&
      (p.logicalCaseId = none || p.logicalCaseId = segment.logicalCaseId) &&
      (c.cancellations.get p.policy).isNone)
  let before (p q : RetentionPolicyRevision) : Bool :=
    (p.logicalCaseId.isSome && q.logicalCaseId.isNone) ||
      (p.logicalCaseId.isSome = q.logicalCaseId.isSome && q.version ≤ p.version)
  (applies.insertionSort (fun p q => before p q = true)).head?

/-- One supplied binding against the stored one. -/
def bindField (field : String) (stored supplied : Option String) : Tx Unit :=
  Txn.raiseIf (supplied.isSome = true ∧ stored.isSome = true ∧ supplied ≠ stored)
    (conflict "attempt_identity_conflict" s!"{field} conflicts with the durable attempt identity"
      false)

def expiry (start : Instant) (retentionSeconds : Nat) : Option Instant :=
  if retentionSeconds > 0 then some (start + seconds retentionSeconds) else none

def newRecord (tenantId : String) (segment : SegmentUpload) (committedAt : Instant)
    (policy : Option RetentionPolicyRevision) : AttemptRecord where
  tenantId := tenantId
  clusterId := segment.clusterId
  attemptId := segment.attemptId
  workflowExecutionId := segment.workflowExecutionId
  logicalCaseId := segment.logicalCaseId
  schedulerSourceIdentity := segment.schedulerSourceIdentity
  schedulerState := "unknown"
  schedulerObservedAt := none
  firstAdmittedAt := committedAt
  lastAdmittedAt := committedAt
  retentionExpiresAt := expiry committedAt
    ((policy.map RetentionPolicyRevision.retentionSeconds).getD settings.defaultRetentionSeconds)
  retentionPolicyVersion := policy.map RetentionPolicyRevision.version
  segmentCount := 1
  recordCount := segment.recordCount

/-- The columns a further admission changes, from the values loaded. -/
def admitAgain (segment : SegmentUpload) (committedAt : Instant) (loaded r : AttemptRecord) :
    AttemptRecord :=
  { r with
    workflowExecutionId := if loaded.workflowExecutionId.isNone && segment.workflowExecutionId.isSome
      then segment.workflowExecutionId else r.workflowExecutionId
    logicalCaseId := if loaded.logicalCaseId.isNone && segment.logicalCaseId.isSome
      then segment.logicalCaseId else r.logicalCaseId
    schedulerSourceIdentity :=
      if loaded.schedulerSourceIdentity.isNone && segment.schedulerSourceIdentity.isSome
      then segment.schedulerSourceIdentity else r.schedulerSourceIdentity
    lastAdmittedAt := committedAt
    segmentCount := loaded.segmentCount + 1
    recordCount := loaded.recordCount + segment.recordCount }

def recordAdmission (tenantId : String) (segment : SegmentUpload) (committedAt : Instant) :
    Tx Unit := do
  let record ← Tables.records.get (segment.attempt tenantId)
  match record with
  | none => do
    let policy ← Txn.read (selectPolicy tenantId segment committedAt)
    Tables.records.insert .integrity (newRecord settings tenantId segment committedAt policy)
  | some record => do
    bindField "workflow_execution_id" record.workflowExecutionId segment.workflowExecutionId
    bindField "logical_case_id" record.logicalCaseId segment.logicalCaseId
    bindField "scheduler_source_identity" record.schedulerSourceIdentity segment.schedulerSourceIdentity
    Tables.records.updateUnique .staleData .integrity record.attempt
      (admitAgain segment committedAt record)

/-- What the first transaction hands on: a receipt, or the reservation to use. -/
inductive Admitted where
  | replay (receipt : DurableReceipt)
  | reserved (prepared : PreparedPayload) (reservationId : Uuid)
deriving DecidableEq, Repr

def newReservation (principal : MachinePrincipal) (segment : SegmentUpload)
    (prepared : PreparedPayload) (generation : Nat) (id : Uuid) (now : Instant) :
    AdmissionReservation where
  reservationId := id
  tenantId := principal.tenantId
  clusterId := segment.clusterId
  attemptId := segment.attemptId
  credentialId := principal.credentialId
  producerId := segment.producerId
  transportEpoch := segment.transportEpoch
  streamId := segment.streamId
  firstSequence := segment.firstSequence
  lastSequence := segment.lastSequence
  payloadSha256 := segment.payloadSha256
  objectKey := prepared.objectKey
  deletionGeneration := generation
  state := .reserved
  createdAt := now

def lockAdmission (principal : MachinePrincipal) (segment : SegmentUpload)
    (prepared : PreparedPayload) : Tx Unit := do
  Txn.lock (.attempt (segment.attempt principal.tenantId))
  Txn.lock (.stream (segment.stream principal.tenantId))
  Txn.lock (.object prepared.objectKey)

def addReservation (principal : MachinePrincipal) (segment : SegmentUpload)
    (prepared : PreparedPayload) (generation : Nat) (fresh : Uuid) (now : Instant) :
    Tx Admitted := do
  let id ← uuid4 fresh
  Tables.reservations.insert .integrity
    (newReservation principal segment prepared generation id now)
  pure (.reserved prepared id)

def sameRange (tenantId : String) (segment : SegmentUpload) (r : AdmissionReservation) : Bool :=
  r.stream = segment.stream tenantId && r.firstSequence = segment.firstSequence &&
    r.lastSequence = segment.lastSequence

def catalogInconsistent : Failure :=
  conflict "catalog_inconsistent" "committed reservation is missing its manifest" true

/-- Reuse the live reservation of the range, or replace a terminal one. -/
def claimRange (principal : MachinePrincipal) (segment : SegmentUpload)
    (prepared : PreparedPayload) (generation : Nat) (fresh : Uuid) (now : Instant) :
    Tx Admitted := do
  let found ← Tables.reservations.select (sameRange principal.tenantId segment)
  match found.head? with
  | none => addReservation principal segment prepared generation fresh now
  | some reservation =>
    match reservation.state with
    | .committed => Txn.raise catalogInconsistent
    | .reserved => do
      Txn.raiseIf (reservation.payloadSha256 ≠ segment.payloadSha256)
        (conflict "reservation_digest_conflict" "active range has different content" false)
      pure (.reserved prepared reservation.reservationId)
    | _ => do
      -- a new identity fences the writers that still hold the old one
      let _ ← Tables.reservations.deleteWhere
        (fun r => r.reservationId = reservation.reservationId)
      addReservation principal segment prepared generation fresh now

def admitReserve (principal : MachinePrincipal) (segment : SegmentUpload) (fresh : Uuid)
    (now : Instant) : Tx Admitted := do
  assertScope principal segment
  let prepared ← orRaise (preparePayload env settings principal.tenantId segment)
  lockAdmission principal segment prepared
  let generation ← currentGeneration principal.tenantId segment
  Txn.raiseIf (generation ≠ segment.deletionGeneration)
    (conflict "stale_deletion_generation"
      "segment was captured under an obsolete deletion generation" false)
  let exact ← Tables.manifests.select (exactFilter principal.tenantId segment)
  match exact.head? with
  | some exact => do
    Txn.raiseIf (exact.payloadSha256 ≠ segment.payloadSha256)
      (conflict "range_digest_conflict" "sequence range already has different content" false)
    pure (.replay (receipt exact true))
  | none => do
    let overlap ← Tables.manifests.select (overlapFilter principal.tenantId segment)
    Txn.raiseIf (overlap.head?.isSome = true)
      (conflict "sequence_overlap" "segment overlaps an admitted sequence range" false)
    claimRange principal segment prepared generation fresh now

/-- An `admit` call between its two transactions. -/
structure Flight where
  principal : MachinePrincipal
  segment : SegmentUpload
  prepared : PreparedPayload
  reservationId : Uuid

def Flight.attempt (f : Flight) : AttemptKey := f.segment.attempt f.principal.tenantId

def admitPut (faults : Faults) (f : Flight) : Tx Unit := do
  let stored ← putVerified env faults f.prepared.objectKey f.prepared.content
    f.segment.payloadSha256
  match stored with
  | .error (.objectIntegrity message) =>
    Txn.raise (.admission "object_integrity_error" message 503 true)
  | stored => orRaise stored

def setState (state : ReservationState) (r : AdmissionReservation) : AdmissionReservation :=
  { r with state := state }

theorem setState_reservationId (state : ReservationState) (r : AdmissionReservation) :
    (setState state r).reservationId = r.reservationId := rfl

def newManifest (f : Flight) (reservation : AdmissionReservation) (generation : Nat)
    (receiptId : Uuid) (committedAt : Instant) : SegmentManifest where
  receiptId := receiptId
  tenantId := f.principal.tenantId
  clusterId := f.segment.clusterId
  attemptId := f.segment.attemptId
  credentialId := reservation.credentialId
  producerId := f.segment.producerId
  transportEpoch := f.segment.transportEpoch
  streamId := f.segment.streamId
  firstSequence := f.segment.firstSequence
  lastSequence := f.segment.lastSequence
  recordCount := f.segment.recordCount
  payloadSha256 := f.segment.payloadSha256
  objectKey := f.prepared.objectKey
  deletionGeneration := generation
  committedAt := committedAt

def newOutbox (f : Flight) (outboxId receiptId : Uuid) (committedAt : Instant) :
    OutboxRecord where
  outboxId := outboxId
  tenantId := f.principal.tenantId
  eventType := .segmentAdmitted
  aggregateId := .receipt receiptId
  payloadJson := .segmentAdmitted receiptId f.segment.attemptId
  state := .pending
  attempts := 0
  leaseOwner := none
  leaseGeneration := 0
  leaseExpiresAt := none
  lastError := none
  createdAt := committedAt

def addManifest (f : Flight) (reservation : AdmissionReservation) (generation : Nat)
    (freshReceipt freshOutbox : Uuid) (committedAt : Instant) : Tx DurableReceipt := do
  let receiptId ← uuid4 freshReceipt
  let manifest := newManifest f reservation generation receiptId committedAt
  Tables.manifests.insert .integrity manifest
  recordAdmission settings f.principal.tenantId f.segment committedAt
  let outboxId ← uuid4 freshOutbox
  Tables.outbox.insert .integrity (newOutbox f outboxId receiptId committedAt)
  Tables.reservations.update .staleData f.reservationId (setState .committed)
  pure (receipt manifest false)

def reservationExpired : Failure :=
  conflict "reservation_expired" "admission reservation is no longer valid" true

def admitCommit (faults : Faults) (f : Flight) (freshReceipt freshOutbox : Uuid)
    (committedAt : Instant) : Tx DurableReceipt := do
  lockAdmission f.principal f.segment f.prepared
  let generation ← currentGeneration f.principal.tenantId f.segment
  let reservation ← Tables.reservations.get f.reservationId
  match reservation with
  | none => Txn.raise reservationExpired
  | some reservation => do
    Txn.raiseIf (reservation.state ≠ .reserved) reservationExpired
    if generation ≠ reservation.deletionGeneration ∨
        generation ≠ f.segment.deletionGeneration then do
      Tables.reservations.update .staleData f.reservationId (setState .fenced)
      Txn.raise (conflict "deletion_fenced_admission"
        "deletion policy changed while the object was being stored" false)
    else do
      let found ← existsVerified env faults f.prepared.objectKey f.segment.payloadSha256
      let present ← orRaise found
      Txn.raiseIf (present = false)
        (.admission "object_missing" "verified object is unavailable" 503 true)
      let overlap ← Tables.manifests.select (overlapFilter f.principal.tenantId f.segment)
      match overlap.head? with
      | some overlap =>
        if overlap.firstSequence = f.segment.firstSequence ∧
            overlap.lastSequence = f.segment.lastSequence ∧
            overlap.payloadSha256 = f.segment.payloadSha256 then do
          Tables.reservations.update .staleData f.reservationId (setState .committed)
          pure (receipt overlap true)
        else do
          Tables.reservations.update .staleData f.reservationId (setState .conflicted)
          Txn.raise (conflict "sequence_overlap" "segment overlaps an admitted sequence range" false)
      | none => addManifest settings f reservation generation freshReceipt freshOutbox committedAt

section spec

variable {env settings} {c : Catalog} {w : ObjectStore} {A : ObjectStore → Prop}
  {E : Failure → Prop} {principal : MachinePrincipal} {segment : SegmentUpload}

theorem conflict_ne {code message : String} {retriable : Bool}
    (h : code ≠ "catalog_inconsistent") : conflict code message retriable ≠ catalogInconsistent := by
  simp [catalogInconsistent, conflict, h]

theorem countRecords_error {lines : List Bytes} {n : Nat} {e : Failure}
    (h : countRecords env n lines = .error e) : e ≠ catalogInconsistent := by
  induction lines generalizing n with
  | nil => cases h
  | cons line lines ih =>
    rw [countRecords] at h
    split at h
    · exact ih h
    · split at h
      · cases h
        simp [catalogInconsistent, conflict]
      · cases h
        simp [catalogInconsistent, conflict]
      · cases h
        simp [catalogInconsistent, conflict]
      · cases hc : countRecords env (n + 1) lines with
        | ok k =>
          rw [hc] at h
          cases h
        | error e' =>
          rw [hc] at h
          cases h
          exact ih hc

/-- A prepared payload is the decoded text of the upload, and agrees with all it
declares. -/
structure Prepared (env : Env) (tenantId : String) (segment : SegmentUpload)
    (p : PreparedPayload) : Prop where
  digest : env.sha256 p.content = segment.payloadSha256
  records : countRecords env 1 (splitlines [] p.content) = .ok segment.recordCount
  key : p.objectKey = segmentKey env tenantId segment.clusterId segment.payloadSha256

theorem preparePayload_error {tenantId : String} {e : Failure}
    (h : preparePayload env settings tenantId segment = .error e) : e ≠ catalogInconsistent := by
  unfold preparePayload at h
  split at h
  · cases h
    simp [catalogInconsistent, conflict]
  · split at h
    · cases h
      simp [catalogInconsistent, conflict]
    · split at h
      · cases h
        simp [catalogInconsistent, conflict]
      · split at h
        · cases h
          simp [catalogInconsistent, conflict]
        · split at h
          · next hc =>
            cases h
            exact countRecords_error hc
          · split at h <;> cases h
            simp [catalogInconsistent, conflict]

theorem preparePayload_ok {tenantId : String} {p : PreparedPayload}
    (h : preparePayload env settings tenantId segment = .ok p) :
    Prepared env tenantId segment p := by
  unfold preparePayload at h
  split at h
  · cases h
  · split at h
    · cases h
    · split at h
      · cases h
      · split at h
        · cases h
        · next hd =>
          split at h
          · cases h
          · next hc =>
            split at h
            · cases h
            · next hn =>
              cases h
              rw [not_not] at hd hn
              exact ⟨hd, by rw [hc, hn], by rw [hd]⟩

/-- What `_current_generation` finds or adds for an attempt that is not deleted. -/
inductive Opened (k : AttemptKey) (t : Table AttemptGeneration.attempt) :
    Nat → Table AttemptGeneration.attempt → Prop where
  | first (h : t.get k = none) :
      Opened k t 0 (t.insert ⟨k.tenantId, k.clusterId, k.attemptId, 0, none⟩)
  | live {r : AttemptGeneration} (h : t.get k = some r) (hd : r.deletedAt = none) :
      Opened k t r.generation t

/-- The generation of an attempt is found or is the first one. Only a deleted attempt has none. -/
theorem currentGeneration_opened {tenantId : String}
    (hE : ∀ r, c.generations.get (segment.attempt tenantId) = some r → r.deletedAt ≠ none →
      E (conflict "attempt_deleted" "attempt no longer accepts telemetry" false)) :
    (currentGeneration tenantId segment).wp A E
      (fun g c' w' => w' = w ∧ ∃ gens, Opened (segment.attempt tenantId) c.generations g gens ∧
        c' = { c with generations := gens }) c w := by
  simp only [currentGeneration, Txn.wp_bind, Ref.wp_get, Tables.generations_view]
  cases h : c.generations.get (segment.attempt tenantId) with
  | none =>
    simp only [Txn.wp_bind, Ref.wp_insert, Txn.wp_pure, Tables.generations_put]
    refine ⟨fun ht => ?_, fun _ => ⟨trivial, _, .first h, rfl⟩⟩
    have hfree : Tables.generations.taken ⟨tenantId, segment.clusterId, segment.attemptId, 0, none⟩
        c = false := by
      refine Ref.taken_eq_false.mpr ⟨h, fun y _ => ?_⟩
      simp [Ref.clashes]
    rw [hfree] at ht
    cases ht
  | some r =>
    simp only [Txn.wp_bind, Txn.wp_raiseIf, Txn.wp_pure]
    refine ⟨fun hd => hE r h ?_, fun hd => ⟨trivial, _, .live h ?_, rfl⟩⟩
    · exact Option.isSome_iff_ne_none.mp hd
    · simpa using hd

theorem currentGeneration_spec {tenantId : String} (hE : ∀ e, e ≠ catalogInconsistent → E e) :
    (currentGeneration tenantId segment).wp A E
      (fun g c' w' => w' = w ∧ ∃ gens, Opened (segment.attempt tenantId) c.generations g gens ∧
        c' = { c with generations := gens }) c w :=
  currentGeneration_opened (fun _ _ _ => hE _ (conflict_ne (by decide)))

inductive Reserved (env : Env) (principal : MachinePrincipal) (segment : SegmentUpload)
    (fresh : Uuid) (now : Instant) (c : Catalog) : Admitted → Catalog → Prop where
  | replay {gens : Table AttemptGeneration.attempt} {m : SegmentManifest} {p : PreparedPayload}
      (hp : Prepared env principal.tenantId segment p)
      (ho : Opened (segment.attempt principal.tenantId) c.generations segment.deletionGeneration gens)
      (hm : m ∈ c.manifests) (hx : exactFilter principal.tenantId segment m = true)
      (hd : m.payloadSha256 = segment.payloadSha256) :
      Reserved env principal segment fresh now c (.replay (receipt m true))
        { c with generations := gens }
  | reuse {gens : Table AttemptGeneration.attempt} {p : PreparedPayload} {r : AdmissionReservation}
      (hp : Prepared env principal.tenantId segment p)
      (ho : Opened (segment.attempt principal.tenantId) c.generations segment.deletionGeneration gens)
      (hfree : ∀ m ∈ c.manifests, overlapFilter principal.tenantId segment m = false)
      (hr : r ∈ c.reservations) (hrange : sameRange principal.tenantId segment r = true)
      (hs : r.state = .reserved) (hd : r.payloadSha256 = segment.payloadSha256) :
      Reserved env principal segment fresh now c (.reserved p r.reservationId)
        { c with generations := gens }
  | fresh {gens : Table AttemptGeneration.attempt} {p : PreparedPayload}
      {t : Table AdmissionReservation.reservationId}
      (hp : Prepared env principal.tenantId segment p)
      (ho : Opened (segment.attempt principal.tenantId) c.generations segment.deletionGeneration gens)
      (hfree : ∀ m ∈ c.manifests, overlapFilter principal.tenantId segment m = false)
      (hold : ∀ r ∈ c.reservations, sameRange principal.tenantId segment r = true →
        r.refers = false)
      (hi : fresh ∉ c.issued)
      (ht : ∀ r, r ∈ t ↔
        (r ∈ c.reservations ∧ sameRange principal.tenantId segment r = false) ∨
          r = newReservation principal segment p segment.deletionGeneration fresh now) :
      Reserved env principal segment fresh now c (.reserved p fresh)
        { c with generations := gens, reservations := t, issued := fresh :: c.issued }

theorem sameRange_iff {r : AdmissionReservation} {p : PreparedPayload} {g : Nat} {id : Uuid}
    {now : Instant} : Tables.reservations.clashes (newReservation principal segment p g id now) r =
      sameRange principal.tenantId segment r := by
  rw [Bool.eq_iff_iff]
  simp only [Ref.clashes, Tables.reservations_unique, newReservation, AdmissionReservation.stream,
    sameRange, SegmentFields.stream]
  simp
  grind

theorem addReservation_spec {p : PreparedPayload} {g : Nat} {fresh : Uuid} {now : Instant}
    (hE : ∀ e, e ≠ catalogInconsistent → E e) :
    (addReservation principal segment p g fresh now).wp A E
      (fun a c' w' => a = .reserved p fresh ∧ w' = w ∧ fresh ∉ c.issued ∧
        (∀ r ∈ c.reservations, sameRange principal.tenantId segment r = false) ∧
        ∃ t, (∀ r, r ∈ t ↔ r ∈ c.reservations ∨
            r = newReservation principal segment p g fresh now) ∧
          c' = { c with reservations := t, issued := fresh :: c.issued }) c w := by
  simp only [addReservation, Txn.wp_bind, wp_uuid4, Ref.wp_insert, Txn.wp_pure]
  refine ⟨fun _ => hE _ (by simp [catalogInconsistent, conflict]), fun hi =>
    ⟨fun _ => hE _ (by simp [catalogInconsistent, conflict]), fun hfree => ?_⟩⟩
  obtain ⟨hget, hclash⟩ := Ref.taken_eq_false.mp hfree
  refine ⟨trivial, trivial, hi, fun r hr => ?_, _, fun r => Table.mem_insert hget, rfl⟩
  rw [← hclash r hr, sameRange_iff]

theorem claimRange_spec {p : PreparedPayload} {fresh : Uuid} {now : Instant}
    {gens : Table AttemptGeneration.attempt}
    (hE : ∀ e, (e = catalogInconsistent → ∃ r ∈ c.reservations,
      sameRange principal.tenantId segment r = true ∧ r.state = .committed) → E e)
    (hp : Prepared env principal.tenantId segment p)
    (ho : Opened (segment.attempt principal.tenantId) c.generations segment.deletionGeneration gens)
    (hfree : ∀ m ∈ c.manifests, overlapFilter principal.tenantId segment m = false) :
    (claimRange principal segment p segment.deletionGeneration fresh now).wp A E
      (fun a c' w' => Reserved env principal segment fresh now c a c' ∧ w' = w)
      { c with generations := gens } w := by
  have hE' : ∀ e, e ≠ catalogInconsistent → E e := fun e he => hE e (fun h => absurd h he)
  simp only [claimRange, Txn.wp_bind, Ref.wp_select, Tables.reservations_view]
  cases hr : (c.reservations.select (sameRange principal.tenantId segment)).head? with
  | none =>
    refine Txn.wp_post (addReservation_spec hE') ?_
    rintro a c' w' ⟨rfl, rfl, hi, hnone, t, ht, rfl⟩
    refine ⟨.fresh hp ho hfree (fun r hr h => ?_) hi (fun r => ?_), rfl⟩
    · rw [hnone r hr] at h
      cases h
    · rw [ht r]
      exact or_congr_left ⟨fun h => ⟨h, hnone r h⟩, And.left⟩
  | some old =>
    obtain ⟨hm, hsame⟩ := Table.mem_select.mp (List.mem_of_head? hr)
    -- the three terminal states share the branch that replaces the row
    have hterm : old.refers = false → (do
        let _ ← Tables.reservations.deleteWhere (fun r => r.reservationId = old.reservationId)
        addReservation principal segment p segment.deletionGeneration fresh now).wp A E
          (fun a c' w' => Reserved env principal segment fresh now c a c' ∧ w' = w)
          { c with generations := gens } w := by
      intro href
      simp only [Txn.wp_bind, Ref.wp_deleteWhere, Tables.reservations_view, Tables.reservations_put]
      refine Txn.wp_post (addReservation_spec hE') ?_
      rintro a c' w' ⟨rfl, rfl, hi, hnone, t, ht, rfl⟩
      have hother : ∀ r ∈ c.reservations, sameRange principal.tenantId segment r = true →
          r = old := by
        intro r hr h
        by_contra hne
        have hid : r.reservationId ≠ old.reservationId := fun h' => hne (Table.eq_of_key hr hm h')
        rw [hnone r (Table.mem_deleteWhere.mpr ⟨hr, by simpa using hid⟩)] at h
        cases h
      refine ⟨.fresh hp ho hfree (fun r hr h => hother r hr h ▸ href) hi (fun r => ?_), rfl⟩
      rw [ht r, Table.mem_deleteWhere]
      refine or_congr_left ⟨fun h => ⟨h.1, hnone r (Table.mem_deleteWhere.mpr h)⟩, fun h => ⟨h.1, ?_⟩⟩
      have hne : r ≠ old := by
        rintro rfl
        rw [hsame] at h
        cases h.2
      simpa using fun h' => hne (Table.eq_of_key h.1 hm h')
    cases hs : old.state with
    | committed =>
      simp only [hs, Txn.wp_raise]
      exact hE _ (fun _ => ⟨old, hm, hsame, hs⟩)
    | reserved =>
      simp only [hs, Txn.wp_bind, Txn.wp_raiseIf, Txn.wp_pure, not_not]
      exact ⟨fun _ => hE' _ (conflict_ne (by decide)), fun hd =>
        ⟨.reuse hp ho hfree hm hsame hs hd, trivial⟩⟩
    | expired =>
      simp only [hs]
      exact hterm (by simp [AdmissionReservation.refers, hs])
    | fenced =>
      simp only [hs]
      exact hterm (by simp [AdmissionReservation.refers, hs])
    | conflicted =>
      simp only [hs]
      exact hterm (by simp [AdmissionReservation.refers, hs])

theorem none_of_head {T : Table SegmentManifest.receiptId} {p : SegmentManifest → Bool}
    (h : (T.select p).head? = none) : ∀ m ∈ T, p m = false := by
  intro m hm
  by_contra hp
  exact List.ne_nil_of_mem (Table.mem_select.mpr ⟨hm, by simpa using hp⟩) (List.head?_eq_none_iff.mp h)

theorem admitReserve_spec {fresh : Uuid} {now : Instant}
    (hE : ∀ e, (e = catalogInconsistent → (∀ m ∈ c.manifests,
        exactFilter principal.tenantId segment m = false) ∧ ∃ r ∈ c.reservations,
          sameRange principal.tenantId segment r = true ∧ r.state = .committed) → E e) :
    (admitReserve env settings principal segment fresh now).wp A E
      (fun a c' w' => Reserved env principal segment fresh now c a c' ∧ w' = w) c w := by
  have hE' : ∀ e, e ≠ catalogInconsistent → E e := fun e he => hE e (fun h => absurd h he)
  simp only [admitReserve, assertScope, lockAdmission, Txn.wp_bind, Txn.wp_raiseIf, wp_orRaise,
    Txn.wp_lock, Ref.wp_select]
  refine ⟨fun _ => hE' _ (by simp [catalogInconsistent, conflict]), fun _ =>
    ⟨fun e he => hE' e (preparePayload_error he), fun p hp => ?_⟩⟩
  refine Txn.wp_post (currentGeneration_spec hE') ?_
  rintro g _ _ ⟨rfl, gens, ho, rfl⟩
  refine ⟨fun _ => hE' _ (conflict_ne (by decide)), fun hg => ?_⟩
  obtain rfl : g = segment.deletionGeneration := not_not.mp hg
  simp only [Tables.manifests_view]
  cases hx : (c.manifests.select (exactFilter principal.tenantId segment)).head? with
  | some m =>
    obtain ⟨hm, hf⟩ := Table.mem_select.mp (List.mem_of_head? hx)
    simp only [Txn.wp_bind, Txn.wp_raiseIf, Txn.wp_pure, not_not]
    exact ⟨fun _ => hE' _ (conflict_ne (by decide)), fun hd =>
      ⟨.replay (preparePayload_ok hp) ho hm hf hd, trivial⟩⟩
  | none =>
    simp only [Txn.wp_bind, Ref.wp_select, Txn.wp_raiseIf, Tables.manifests_view]
    refine ⟨fun _ => hE' _ (conflict_ne (by decide)), fun hfree => ?_⟩
    refine claimRange_spec (fun e he => hE e (fun h => ⟨none_of_head hx, he h⟩))
      (preparePayload_ok hp) ho (none_of_head ?_)
    simpa using hfree

theorem admitPut_spec {faults : Faults} {f : Flight} :
    (admitPut env faults f).wp (Put env faults f.prepared.objectKey f.segment.payloadSha256 w)
      (fun _ => True) (fun _ c' w' => c' = c ∧
        Put env faults f.prepared.objectKey f.segment.payloadSha256 w w') c w := by
  simp only [admitPut, Txn.wp_bind, wp_putVerified]
  refine ⟨putVerified_put, ?_⟩
  split
  · trivial
  · simp only [wp_orRaise, implies_true, true_and]
    exact fun _ _ => putVerified_put

/-- The reservation an `admit` call commits, and the generation it does so in. -/
structure Commits (f : Flight) (c : Catalog) (r : AdmissionReservation)
    (gens : Table AttemptGeneration.attempt) : Prop where
  opened : Opened (f.segment.attempt f.principal.tenantId) c.generations
    f.segment.deletionGeneration gens
  get : c.reservations.get f.reservationId = some r
  state : r.state = .reserved
  generation : r.deletionGeneration = f.segment.deletionGeneration

def commitReservation (f : Flight) (c : Catalog) : Table AdmissionReservation.reservationId :=
  c.reservations.modify f.reservationId (setState .committed) (fun _ => rfl)

inductive Counted (tenantId : String) (segment : SegmentUpload) (committedAt : Instant)
    (t : Table AttemptRecord.attempt) : Table AttemptRecord.attempt → Prop where
  | first {settings : IngestionSettings} {policy : Option RetentionPolicyRevision}
      (h : t.get (segment.attempt tenantId) = none) : Counted tenantId segment committedAt t
        (t.insert (newRecord settings tenantId segment committedAt policy))
  | again {r : AttemptRecord} (h : t.get (segment.attempt tenantId) = some r) :
      Counted tenantId segment committedAt t
        (t.modify r.attempt (admitAgain segment committedAt r) (fun _ => rfl))

inductive Committed (env : Env) (f : Flight) (fresh : Uuid) (committedAt : Instant) (c : Catalog)
    (w : ObjectStore) : DurableReceipt → Catalog → Prop where
  | replay {gens : Table AttemptGeneration.attempt} {r : AdmissionReservation} {m : SegmentManifest}
      (hc : Commits f c r gens) (hm : m ∈ c.manifests)
      (hx : exactFilter f.principal.tenantId f.segment m = true)
      (hd : m.payloadSha256 = f.segment.payloadSha256) :
      Committed env f fresh committedAt c w (receipt m true)
        { c with generations := gens, reservations := commitReservation f c }
  | fresh {gens : Table AttemptGeneration.attempt} {r : AdmissionReservation}
      {records : Table AttemptRecord.attempt} {freshOutbox : Uuid} (hc : Commits f c r gens)
      (hobj : Holds env w f.prepared.objectKey f.segment.payloadSha256)
      (hfree : ∀ m ∈ c.manifests, overlapFilter f.principal.tenantId f.segment m = false)
      (hi : fresh ∉ c.issued) (hnew : c.manifests.get fresh = none)
      (houtbox : freshOutbox ∉ fresh :: c.issued) (hadded : c.outbox.get freshOutbox = none)
      (hrecords : Tables.records.NoClash c.records → Tables.records.NoClash records)
      (hcounted : Counted f.principal.tenantId f.segment committedAt c.records records) :
      Committed env f fresh committedAt c w
        (receipt (newManifest f r f.segment.deletionGeneration fresh committedAt) false)
        { c with
          generations := gens
          manifests := c.manifests.insert
            (newManifest f r f.segment.deletionGeneration fresh committedAt)
          reservations := commitReservation f c
          records := records
          outbox := c.outbox.insert (newOutbox f freshOutbox fresh committedAt)
          issued := freshOutbox :: fresh :: c.issued }

theorem recordAdmission_spec {tenantId : String} {committedAt : Instant} :
    (recordAdmission settings tenantId segment committedAt).wp A (fun _ => True)
      (fun _ c' w' => (∃ records, (Tables.records.NoClash c.records →
        Tables.records.NoClash records) ∧ Counted tenantId segment committedAt c.records records ∧
          c' = { c with records := records }) ∧ w' = w) c w := by
  simp only [recordAdmission, Txn.wp_bind, Ref.wp_get, Tables.records_view]
  split
  · next hnone =>
    simp only [Txn.wp_bind, Txn.wp_read, Ref.wp_insert, Tables.records_put]
    exact ⟨fun _ => trivial, fun hfree =>
      ⟨⟨_, fun ht => Ref.noClash_insert ht hfree, .first hnone, rfl⟩, trivial⟩⟩
  · next hsome =>
    simp only [bindField, Txn.wp_bind, Txn.wp_raiseIf, Ref.wp_updateUnique, Tables.records_put,
      implies_true, true_and]
    exact fun _ _ _ r hr hfree =>
      ⟨⟨_, fun ht => Ref.noClash_modify_other hr ht hfree, .again hsome, rfl⟩, trivial⟩

theorem addManifest_spec {f : Flight} {r : AdmissionReservation} {freshReceipt freshOutbox : Uuid}
    {committedAt : Instant} {gens : Table AttemptGeneration.attempt} (hc : Commits f c r gens)
    (hobj : Holds env w f.prepared.objectKey f.segment.payloadSha256)
    (hfree : ∀ m ∈ c.manifests, overlapFilter f.principal.tenantId f.segment m = false) :
    (addManifest settings f r f.segment.deletionGeneration freshReceipt freshOutbox
      committedAt).wp A (fun _ => True)
      (fun a c' w' => Committed env f freshReceipt committedAt c w a c' ∧ w' = w)
      { c with generations := gens } w := by
  simp only [addManifest, Txn.wp_bind, wp_uuid4, Ref.wp_insert, implies_true, true_and]
  intro hi hnew
  refine Txn.wp_post recordAdmission_spec ?_
  rintro _ _ _ ⟨⟨records, hrecords, hcounted, rfl⟩, rfl⟩
  simp only [Ref.wp_update, Txn.wp_pure, implies_true, true_and, Tables.manifests_view,
    Tables.manifests_put, Tables.outbox_view, Tables.outbox_put, Tables.reservations_view,
    Tables.reservations_put]
  intro houtbox hadded r' _
  exact ⟨.fresh hc hobj hfree hi (Ref.taken_eq_false.mp hnew).1 houtbox
    (Ref.taken_eq_false.mp hadded).1 hrecords hcounted, trivial⟩

theorem admitCommit_spec {faults : Faults} {f : Flight} {freshReceipt freshOutbox : Uuid}
    {committedAt : Instant} (hA : A w) :
    (admitCommit env settings faults f freshReceipt freshOutbox committedAt).wp A (fun _ => True)
      (fun a c' w' => Committed env f freshReceipt committedAt c w a c' ∧ w' = w) c w := by
  simp only [admitCommit, lockAdmission, Txn.wp_bind, Txn.wp_lock]
  refine Txn.wp_post (currentGeneration_spec (fun _ _ => trivial)) ?_
  rintro g _ _ ⟨rfl, gens, ho, rfl⟩
  simp only [Ref.wp_get, Tables.reservations_view]
  cases hr : c.reservations.get f.reservationId with
  | none => trivial
  | some r =>
    simp only [Txn.wp_bind, Txn.wp_raiseIf, implies_true, true_and, Txn.wp_ite, not_not]
    refine fun hs => ⟨fun _ => by simp, fun hg => ?_⟩
    obtain ⟨hgr, rfl⟩ : g = r.deletionGeneration ∧ g = f.segment.deletionGeneration := by
      simpa [not_or] using hg
    have hc : Commits f c r gens := ⟨ho, hr, hs, hgr.symm⟩
    simp only [wp_existsVerified, wp_orRaise, Ref.wp_select, implies_true, true_and,
      Tables.manifests_view]
    refine ⟨hA, fun present hp hpresent => ?_⟩
    rw [Bool.not_eq_false] at hpresent
    subst hpresent
    have hobj := LocalObjectStore.existsVerified_true hp
    cases hm : (c.manifests.select (overlapFilter f.principal.tenantId f.segment)).head? with
    | none => exact addManifest_spec hc hobj (none_of_head hm)
    | some m =>
      obtain ⟨hmem, hover⟩ := Table.mem_select.mp (List.mem_of_head? hm)
      simp only [Txn.wp_ite, Txn.wp_bind, Ref.wp_update, Txn.wp_pure, implies_true, true_and,
        Tables.reservations_view, Tables.reservations_put, Txn.wp_raise, and_true]
      rintro ⟨hfirst, hlast, hd⟩ r' -
      refine .replay hc hmem ?_ hd
      simp only [overlapFilter, Bool.and_eq_true] at hover
      simp [exactFilter, hover.1.1, hfirst, hlast]

end spec

end IngestionService

end RankLens
