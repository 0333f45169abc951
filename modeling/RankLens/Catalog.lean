import RankLens.Statement

namespace RankLens

/-- Microseconds since the epoch, in UTC. -/
abbrev Instant := Int

def seconds (n : Nat) : Int := (n : Int) * 1000000

/-- A uuid as its 128-bit value, which orders like its canonical string. -/
abbrev Uuid := Nat

abbrev Bytes := List UInt8

structure AttemptKey where
  tenantId : String
  clusterId : String
  attemptId : String
deriving DecidableEq, Repr

structure StreamKey where
  tenantId : String
  clusterId : String
  producerId : String
  transportEpoch : String
  streamId : String
deriving DecidableEq, Repr

inductive Suffix where
  | json
  | parquet
deriving DecidableEq, Repr

def Suffix.text : Suffix → String
  | .json => "json"
  | .parquet => "parquet"

/-- The two shapes of object path, by their variable components. -/
inductive ObjectKey where
  | segment (tenantBucket clusterBucket digest : String)
  | report (tenantBucket clusterBucket attemptBucket digest : String) (suffix : Suffix)
deriving DecidableEq, Repr

def ObjectKey.path : ObjectKey → String
  | .segment t c d => "v2/" ++ t ++ "/" ++ c ++ "/" ++ (d.take 2).toString ++ "/" ++ d ++ ".segment"
  | .report t c a d x => "reports/v1/" ++ t ++ "/" ++ c ++ "/" ++ a ++ "/" ++ d ++ "." ++ x.text

structure AttemptGeneration where
  tenantId : String
  clusterId : String
  attemptId : String
  generation : Nat
  deletedAt : Option Instant
deriving DecidableEq, Repr

def AttemptGeneration.attempt (r : AttemptGeneration) : AttemptKey :=
  ⟨r.tenantId, r.clusterId, r.attemptId⟩

inductive HoldState where
  | active
  | released
deriving DecidableEq, Repr

structure AttemptHold where
  holdId : Uuid
  tenantId : String
  clusterId : String
  attemptId : String
  reason : String
  placedByCredentialId : String
  releasedByCredentialId : Option String
  state : HoldState
  placedAt : Instant
  releasedAt : Option Instant
deriving DecidableEq, Repr

def AttemptHold.attempt (r : AttemptHold) : AttemptKey := ⟨r.tenantId, r.clusterId, r.attemptId⟩

inductive DeletionState where
  | pending
  | processing
  | held
  | failed
  | completed
deriving DecidableEq, Repr

structure AttemptDeletion where
  tenantId : String
  clusterId : String
  attemptId : String
  deletionGeneration : Nat
  state : DeletionState
  attempts : Nat
  leaseOwner : Option String
  leaseGeneration : Nat
  leaseExpiresAt : Option Instant
  deletedSegmentObjects : Nat
  retainedSharedObjects : Nat
  deletedReportObjects : Nat
  deletedCatalogRows : Nat
  lastError : Option String
  requestedAt : Instant
  completedAt : Option Instant
deriving DecidableEq, Repr

def AttemptDeletion.attempt (r : AttemptDeletion) : AttemptKey :=
  ⟨r.tenantId, r.clusterId, r.attemptId⟩

structure RestoreTombstoneImport where
  bundleSha256 : String
  sourceCreatedAt : Instant
  entryCount : Nat
  appliedCount : Nat
  staleCount : Nat
  importedBy : String
  importedAt : Instant
deriving DecidableEq, Repr

structure AttemptRecord where
  tenantId : String
  clusterId : String
  attemptId : String
  workflowExecutionId : Option String
  logicalCaseId : Option String
  schedulerSourceIdentity : Option String
  schedulerState : String
  schedulerObservedAt : Option Instant
  firstAdmittedAt : Instant
  lastAdmittedAt : Instant
  retentionExpiresAt : Option Instant
  retentionPolicyVersion : Option Nat
  segmentCount : Nat
  recordCount : Nat
deriving DecidableEq, Repr

def AttemptRecord.attempt (r : AttemptRecord) : AttemptKey := ⟨r.tenantId, r.clusterId, r.attemptId⟩

structure PolicyKey where
  tenantId : String
  clusterId : String
  version : Nat
deriving DecidableEq, Repr

structure RetentionPolicyRevision where
  tenantId : String
  clusterId : String
  version : Nat
  logicalCaseId : Option String
  retentionSeconds : Nat
  createdByCredentialId : String
  createdAt : Instant
  effectiveAt : Instant
deriving DecidableEq, Repr

def RetentionPolicyRevision.policy (r : RetentionPolicyRevision) : PolicyKey :=
  ⟨r.tenantId, r.clusterId, r.version⟩

structure RetentionPolicyCancellation where
  tenantId : String
  clusterId : String
  policyVersion : Nat
  reason : String
  cancelledByCredentialId : String
  cancelledAt : Instant
deriving DecidableEq, Repr

def RetentionPolicyCancellation.policy (r : RetentionPolicyCancellation) : PolicyKey :=
  ⟨r.tenantId, r.clusterId, r.policyVersion⟩

structure RetentionPolicyBackfill where
  backfillId : Uuid
  tenantId : String
  clusterId : String
  policyVersion : Nat
  sourcePolicyVersion : Option Nat
  reason : Option String
  candidateDigest : Option String
  eligibleAttempts : Nat
  dueAttempts : Nat
  updatedAttempts : Nat
  requestedByCredentialId : String
  requestedAt : Instant
deriving DecidableEq, Repr

structure RetentionPolicyBackfillItem where
  backfillId : Uuid
  attemptId : String
  tenantId : String
  clusterId : String
  previousPolicyVersion : Option Nat
  previousExpiresAt : Option Instant
  newPolicyVersion : Nat
  newExpiresAt : Option Instant
deriving DecidableEq, Repr

def RetentionPolicyBackfillItem.item (r : RetentionPolicyBackfillItem) : Uuid × String :=
  (r.backfillId, r.attemptId)

inductive ReservationState where
  | reserved
  | committed
  | expired
  | fenced
  | conflicted
deriving DecidableEq, Repr

structure AdmissionReservation where
  reservationId : Uuid
  tenantId : String
  clusterId : String
  attemptId : String
  credentialId : String
  producerId : String
  transportEpoch : String
  streamId : String
  firstSequence : Nat
  lastSequence : Nat
  payloadSha256 : String
  objectKey : ObjectKey
  deletionGeneration : Nat
  state : ReservationState
  createdAt : Instant
deriving DecidableEq, Repr

def AdmissionReservation.attempt (r : AdmissionReservation) : AttemptKey :=
  ⟨r.tenantId, r.clusterId, r.attemptId⟩

def AdmissionReservation.stream (r : AdmissionReservation) : StreamKey :=
  ⟨r.tenantId, r.clusterId, r.producerId, r.transportEpoch, r.streamId⟩

/-- A reservation in one of these states refers to its object. -/
def AdmissionReservation.refers (r : AdmissionReservation) : Bool :=
  r.state = .reserved ∨ r.state = .committed

/-- The word for the state "protected" is reserved in Lean. -/
inductive CandidateState where
  | pending
  | guarded
  | failed
  | deleted
  | missing
deriving DecidableEq, Repr

structure ObjectGcCandidate where
  candidateId : Uuid
  objectKey : ObjectKey
  payloadSha256 : String
  state : CandidateState
  notBefore : Instant
  attempts : Nat
  lastError : Option String
  createdAt : Instant
  completedAt : Option Instant
deriving DecidableEq, Repr

inductive IncidentCategory where
  | corrupt
  | missing
deriving DecidableEq, Repr

inductive IncidentState where
  | opened
  | resolved
deriving DecidableEq, Repr

structure IntegrityIncident where
  incidentId : Uuid
  candidateId : Uuid
  tenantId : String
  clusterId : String
  attemptId : Option String
  objectKey : ObjectKey
  payloadSha256 : String
  category : IncidentCategory
  state : IncidentState
  details : String
  occurrences : Nat
  firstDetectedAt : Instant
  lastDetectedAt : Instant
  resolvedAt : Option Instant
  resolvedByCredentialId : Option String
  resolution : Option String
deriving DecidableEq, Repr

structure IntegrityIncidentResolution where
  resolutionId : Uuid
  incidentId : Uuid
  tenantId : String
  clusterId : String
  resolvedByCredentialId : String
  reason : String
  resolvedAt : Instant
deriving DecidableEq, Repr

inductive IncidentEvent where
  | detected
  | resolved
deriving DecidableEq, Repr

/-- The fields of the notification's JSON document that its columns do not
already hold. -/
structure NotificationPayload where
  attemptId : Option String
  category : IncidentCategory
  state : IncidentState
  objectKey : ObjectKey
  payloadSha256 : String
  observedAt : Instant
deriving DecidableEq, Repr

inductive NotificationState where
  | pending
  | processing
  | delivered
  | failed
deriving DecidableEq, Repr

structure IntegrityNotification where
  notificationId : Uuid
  incidentId : Uuid
  tenantId : String
  clusterId : String
  occurrence : Nat
  eventType : IncidentEvent
  payloadJson : NotificationPayload
  state : NotificationState
  attempts : Nat
  nextAttemptAt : Instant
  leaseOwner : Option String
  leaseGeneration : Nat
  leaseExpiresAt : Option Instant
  lastError : Option String
  createdAt : Instant
  deliveredAt : Option Instant
deriving DecidableEq, Repr

structure SegmentManifest where
  receiptId : Uuid
  tenantId : String
  clusterId : String
  attemptId : String
  credentialId : String
  producerId : String
  transportEpoch : String
  streamId : String
  firstSequence : Nat
  lastSequence : Nat
  recordCount : Nat
  payloadSha256 : String
  objectKey : ObjectKey
  deletionGeneration : Nat
  committedAt : Instant
deriving DecidableEq, Repr

def SegmentManifest.attempt (r : SegmentManifest) : AttemptKey :=
  ⟨r.tenantId, r.clusterId, r.attemptId⟩

def SegmentManifest.stream (r : SegmentManifest) : StreamKey :=
  ⟨r.tenantId, r.clusterId, r.producerId, r.transportEpoch, r.streamId⟩

inductive EventType where
  | segmentAdmitted
  | reportRequested
deriving DecidableEq, Repr

/-- The aggregate of an outbox entry: a receipt or an attempt identifier. -/
inductive Aggregate where
  | receipt (id : Uuid)
  | attempt (id : String)
deriving DecidableEq, Repr

/-- The JSON documents the outbox carries. -/
inductive OutboxPayload where
  | segmentAdmitted (receiptId : Uuid) (attemptId : String)
  | reportRequested (clusterId attemptId : String) (deletionGeneration : Nat)
deriving DecidableEq, Repr

def OutboxPayload.clusterId? : OutboxPayload → Option String
  | .segmentAdmitted _ _ => none
  | .reportRequested c _ _ => some c

inductive OutboxState where
  | pending
  | processing
  | completed
  | failed
  | suppressed
deriving DecidableEq, Repr

structure OutboxRecord where
  outboxId : Uuid
  tenantId : String
  eventType : EventType
  aggregateId : Aggregate
  payloadJson : OutboxPayload
  state : OutboxState
  attempts : Nat
  leaseOwner : Option String
  leaseGeneration : Nat
  leaseExpiresAt : Option Instant
  lastError : Option String
  createdAt : Instant
deriving DecidableEq, Repr

structure NormalizedSegment where
  receiptId : Uuid
  tenantId : String
  attemptId : String
  recordCount : Nat
  payloadSha256 : String
  normalizerVersion : String
  normalizedAt : Instant
deriving DecidableEq, Repr

structure ReportRevision where
  revisionId : Uuid
  tenantId : String
  clusterId : String
  attemptId : String
  deletionGeneration : Nat
  revisionNumber : Nat
  inputFingerprint : String
  segmentCount : Nat
  recordCount : Nat
  reportObjectKey : ObjectKey
  reportSha256 : String
  parquetObjectKey : Option ObjectKey
  parquetSha256 : Option String
  parquetSchemaVersion : Option String
  parquetRowCount : Option Nat
  builderVersion : String
  createdAt : Instant
deriving DecidableEq, Repr

def ReportRevision.attempt (r : ReportRevision) : AttemptKey :=
  ⟨r.tenantId, r.clusterId, r.attemptId⟩

structure ReportHead where
  tenantId : String
  clusterId : String
  attemptId : String
  deletionGeneration : Nat
  revisionNumber : Nat
  revisionId : Uuid
  inputFingerprint : String
  updatedAt : Instant
deriving DecidableEq, Repr

def ReportHead.attempt (r : ReportHead) : AttemptKey := ⟨r.tenantId, r.clusterId, r.attemptId⟩

structure SchedulerObservation where
  observationId : Uuid
  tenantId : String
  clusterId : String
  adapter : String
  adapterVersion : String
  sourceIdentity : String
  jobId : String
  arrayJobId : Option String
  arrayTaskId : Option String
  stepId : Option String
  restartCount : Int
  state : String
  stateReason : Option String
  submittedAt : Option Instant
  startedAt : Option Instant
  endedAt : Option Instant
  allocatedNodes : Option Int
  allocatedCpus : Option Int
  account : Option String
  partition : Option String
  userRef : Option String
  observedAt : Instant
  rawJson : String
  firstSeenAt : Instant
deriving DecidableEq, Repr

/-- A row by its primary key, or a value under a unique constraint. -/
inductive RowId where
  | generation (k : AttemptKey)
  | hold (id : Uuid)
  | deletion (k : AttemptKey)
  | tombstoneImport (sha256 : String)
  | record (k : AttemptKey)
  | schedulerIdentity (tenantId clusterId identity : String)
  | policy (k : PolicyKey)
  | cancellation (k : PolicyKey)
  | backfill (id : Uuid)
  | backfillItem (k : Uuid × String)
  | reservation (id : Uuid)
  | reservationRange (k : StreamKey) (first last : Nat)
  | candidate (id : Uuid)
  | candidateKey (key : ObjectKey)
  | incident (id : Uuid)
  | incidentIdentity (candidate : Uuid) (tenantId clusterId : String) (category : IncidentCategory)
  | resolution (id : Uuid)
  | notification (id : Uuid)
  | notificationEvent (incident : Uuid) (occurrence : Nat) (event : IncidentEvent)
  | manifest (id : Uuid)
  | manifestRange (k : StreamKey) (first last : Nat)
  | outbox (id : Uuid)
  | normalized (id : Uuid)
  | revision (id : Uuid)
  | revisionNumber (k : AttemptKey) (generation number : Nat)
  | revisionInput (k : AttemptKey) (generation : Nat) (fingerprint : String)
  | head (k : AttemptKey)
  | observation (id : Uuid)
  | observationSeen (tenantId clusterId identity : String) (at_ : Instant)
deriving DecidableEq

/-- The advisory locks by the identity they are taken on, and the locks a
statement takes on rows. Distinct identities have distinct lock keys. -/
inductive Lock where
  | attempt (k : AttemptKey)
  | stream (k : StreamKey)
  | object (key : ObjectKey)
  | report (k : AttemptKey)
  | retentionPolicy (tenantId clusterId : String)
  | retentionPolicyBackfill (tenantId clusterId : String)
  | scheduler (tenantId clusterId identity : String)
  | row (id : RowId)
  | uuid (id : Uuid)
deriving DecidableEq

structure Catalog where
  generations : Table AttemptGeneration.attempt
  holds : Table AttemptHold.holdId
  deletions : Table AttemptDeletion.attempt
  imports : Table RestoreTombstoneImport.bundleSha256
  records : Table AttemptRecord.attempt
  policies : Table RetentionPolicyRevision.policy
  cancellations : Table RetentionPolicyCancellation.policy
  backfills : Table RetentionPolicyBackfill.backfillId
  backfillItems : Table RetentionPolicyBackfillItem.item
  reservations : Table AdmissionReservation.reservationId
  candidates : Table ObjectGcCandidate.candidateId
  incidents : Table IntegrityIncident.incidentId
  resolutions : Table IntegrityIncidentResolution.resolutionId
  notifications : Table IntegrityNotification.notificationId
  manifests : Table SegmentManifest.receiptId
  outbox : Table OutboxRecord.outboxId
  normalized : Table NormalizedSegment.receiptId
  revisions : Table ReportRevision.revisionId
  heads : Table ReportHead.attempt
  observations : Table SchedulerObservation.observationId
  /-- Every value `uuid4` has returned to a committed transaction. -/
  issued : List Uuid

def Catalog.empty : Catalog :=
  ⟨.empty, .empty, .empty, .empty, .empty, .empty, .empty, .empty, .empty, .empty, .empty, .empty,
    .empty, .empty, .empty, .empty, .empty, .empty, .empty, .empty, []⟩

namespace Tables

@[simps view put row unique] def generations : Ref Catalog Lock AttemptGeneration.attempt where
  view c := c.generations
  put t c := { c with generations := t }
  view_put _ _ := rfl
  row k := .row (.generation k)
  unique := []

@[simps view put row unique] def holds : Ref Catalog Lock AttemptHold.holdId where
  view c := c.holds
  put t c := { c with holds := t }
  view_put _ _ := rfl
  row k := .row (.hold k)
  unique := []

@[simps view put row unique] def deletions : Ref Catalog Lock AttemptDeletion.attempt where
  view c := c.deletions
  put t c := { c with deletions := t }
  view_put _ _ := rfl
  row k := .row (.deletion k)
  unique := []

@[simps view put row unique] def imports : Ref Catalog Lock RestoreTombstoneImport.bundleSha256 where
  view c := c.imports
  put t c := { c with imports := t }
  view_put _ _ := rfl
  row k := .row (.tombstoneImport k)
  unique := []

@[simps view put row unique] def records : Ref Catalog Lock AttemptRecord.attempt where
  view c := c.records
  put t c := { c with records := t }
  view_put _ _ := rfl
  row k := .row (.record k)
  unique := [fun r => r.schedulerSourceIdentity.map
    (fun i => .row (.schedulerIdentity r.tenantId r.clusterId i))]

@[simps view put row unique] def policies : Ref Catalog Lock RetentionPolicyRevision.policy where
  view c := c.policies
  put t c := { c with policies := t }
  view_put _ _ := rfl
  row k := .row (.policy k)
  unique := []

@[simps view put row unique] def cancellations : Ref Catalog Lock RetentionPolicyCancellation.policy where
  view c := c.cancellations
  put t c := { c with cancellations := t }
  view_put _ _ := rfl
  row k := .row (.cancellation k)
  unique := []

@[simps view put row unique] def backfills : Ref Catalog Lock RetentionPolicyBackfill.backfillId where
  view c := c.backfills
  put t c := { c with backfills := t }
  view_put _ _ := rfl
  row k := .row (.backfill k)
  unique := []

@[simps view put row unique] def backfillItems : Ref Catalog Lock RetentionPolicyBackfillItem.item where
  view c := c.backfillItems
  put t c := { c with backfillItems := t }
  view_put _ _ := rfl
  row k := .row (.backfillItem k)
  unique := []

@[simps view put row unique] def reservations : Ref Catalog Lock AdmissionReservation.reservationId where
  view c := c.reservations
  put t c := { c with reservations := t }
  view_put _ _ := rfl
  row k := .row (.reservation k)
  unique := [fun r => some (.row (.reservationRange r.stream r.firstSequence r.lastSequence))]

@[simps view put row unique] def candidates : Ref Catalog Lock ObjectGcCandidate.candidateId where
  view c := c.candidates
  put t c := { c with candidates := t }
  view_put _ _ := rfl
  row k := .row (.candidate k)
  unique := [fun r => some (.row (.candidateKey r.objectKey))]

@[simps view put row unique] def incidents : Ref Catalog Lock IntegrityIncident.incidentId where
  view c := c.incidents
  put t c := { c with incidents := t }
  view_put _ _ := rfl
  row k := .row (.incident k)
  unique := [fun r => some (.row (.incidentIdentity r.candidateId r.tenantId r.clusterId r.category))]

@[simps view put row unique] def resolutions :
    Ref Catalog Lock IntegrityIncidentResolution.resolutionId where
  view c := c.resolutions
  put t c := { c with resolutions := t }
  view_put _ _ := rfl
  row k := .row (.resolution k)
  unique := []

@[simps view put row unique] def notifications : Ref Catalog Lock IntegrityNotification.notificationId where
  view c := c.notifications
  put t c := { c with notifications := t }
  view_put _ _ := rfl
  row k := .row (.notification k)
  unique := [fun r => some (.row (.notificationEvent r.incidentId r.occurrence r.eventType))]

@[simps view put row unique] def manifests : Ref Catalog Lock SegmentManifest.receiptId where
  view c := c.manifests
  put t c := { c with manifests := t }
  view_put _ _ := rfl
  row k := .row (.manifest k)
  unique := [fun r => some (.row (.manifestRange r.stream r.firstSequence r.lastSequence))]

@[simps view put row unique] def outbox : Ref Catalog Lock OutboxRecord.outboxId where
  view c := c.outbox
  put t c := { c with outbox := t }
  view_put _ _ := rfl
  row k := .row (.outbox k)
  unique := []

@[simps view put row unique] def normalized : Ref Catalog Lock NormalizedSegment.receiptId where
  view c := c.normalized
  put t c := { c with normalized := t }
  view_put _ _ := rfl
  row k := .row (.normalized k)
  unique := []

@[simps view put row unique] def revisions : Ref Catalog Lock ReportRevision.revisionId where
  view c := c.revisions
  put t c := { c with revisions := t }
  view_put _ _ := rfl
  row k := .row (.revision k)
  unique := [
    fun r => some (.row (.revisionNumber r.attempt r.deletionGeneration r.revisionNumber)),
    fun r => some (.row (.revisionInput r.attempt r.deletionGeneration r.inputFingerprint))]

@[simps view put row unique] def heads : Ref Catalog Lock ReportHead.attempt where
  view c := c.heads
  put t c := { c with heads := t }
  view_put _ _ := rfl
  row k := .row (.head k)
  unique := []

@[simps view put row unique] def observations : Ref Catalog Lock SchedulerObservation.observationId where
  view c := c.observations
  put t c := { c with observations := t }
  view_put _ _ := rfl
  row k := .row (.observation k)
  unique := [fun r => some
    (.row (.observationSeen r.tenantId r.clusterId r.sourceIdentity r.observedAt))]

end Tables

end RankLens
