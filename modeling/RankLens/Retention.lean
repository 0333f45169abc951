import RankLens.Lifecycle

namespace RankLens

structure RetentionPolicyBackfillDecision where
  tenantId : String
  clusterId : String
  policyVersion : Nat
  logicalCaseId : Option String
  candidateDigest : String
  eligibleAttempts : Nat
  dueAttempts : Nat
  updatedAttempts : Nat
  sourcePolicyVersion : Option Nat
  reason : Option String
  backfillId : Option Uuid
  requestedByCredentialId : Option String
  requestedAt : Option Instant
deriving DecidableEq, Repr

structure BackfillPlan where
  policy : RetentionPolicyRevision
  attempts : List AttemptRecord
  dueAttempts : Nat
  candidateDigest : String
deriving DecidableEq, Repr

/-- The arguments of a backfill, as its preview and its application share them. -/
structure BackfillRequest where
  tenantId : String
  clusterId : String
  policyVersion : Nat
  maxAttempts : Int
  sourcePolicyVersion : Option Nat
  reason : Option String
deriving DecidableEq, Repr

namespace IngestionService

variable (env : Env)

def policiesOf (tenantId clusterId : String) (p : RetentionPolicyRevision) : Bool :=
  p.tenantId = tenantId && p.clusterId = clusterId

def createRetentionPolicyRevision (tenantId clusterId : String) (retentionSeconds : Nat)
    (credentialId : String) (effectiveAt : Option Instant) (logicalCaseId : Option String)
    (now : Instant) : Tx RetentionPolicyRevision := do
  Txn.raiseIf (retentionSeconds ≠ 0 ∧ ¬(3600 ≤ retentionSeconds ∧ retentionSeconds ≤ 315360000))
    (.value "retention_seconds must be 0 or within [3600, 315360000]")
  Txn.raiseIf (identifier 128 [] credentialId = false)
    (.value "retention policy credential ID is invalid")
  Txn.raiseIf (clusterId = "" ∨ 128 < clusterId.length) (.value "cluster ID is invalid")
  Txn.raiseIf (logicalCaseId.all (identifier 128 []) = false)
    (.value "logical case ID is invalid")
  Txn.raiseIf (now + seconds (366 * 86400) < effectiveAt.getD now)
    (.value "effective_at cannot be more than 366 days in the future")
  Txn.lock (.retentionPolicy tenantId clusterId)
  let revisions ← Tables.policies.select (policiesOf tenantId clusterId)
  let latest := (revisions.insertionSort (fun p q => q.version ≤ p.version)).head?
  let policy : RetentionPolicyRevision :=
    { tenantId := tenantId
      clusterId := clusterId
      version := (latest.map RetentionPolicyRevision.version).getD 0 + 1
      logicalCaseId := logicalCaseId
      retentionSeconds := retentionSeconds
      createdByCredentialId := credentialId
      createdAt := now
      effectiveAt := effectiveAt.getD now }
  Tables.policies.insert .integrity policy
  pure policy

/-- Both times are in UTC here, so only the comparison is left. -/
def retentionDeadlineIsDue (deadline now : Instant) : Bool := deadline ≤ now

def cancelRetentionPolicyRevision (k : PolicyKey) (reason credentialId : String) (now : Instant) :
    Tx RetentionPolicyCancellation := do
  Txn.raiseIf (reasonInvalid reason = true)
    (.value "cancellation reason must contain between 1 and 512 characters")
  Txn.raiseIf (identifier 128 [] credentialId = false)
    (.value "cancelling credential ID is invalid")
  Txn.lock (.retentionPolicy k.tenantId k.clusterId)
  let policy ← Tables.policies.get k
  match policy with
  | none => Txn.raise (.value "retention policy revision does not exist")
  | some policy => do
    let existing ← Tables.cancellations.get k
    match existing with
    | some existing => do
      Txn.raiseIf (existing.reason ≠ strip reason ∨ existing.cancelledByCredentialId ≠ credentialId)
        (.value "retention policy revision already has a different cancellation")
      pure existing
    | none => do
      Txn.raiseIf (retentionDeadlineIsDue policy.effectiveAt now = true)
        (.value "retention policy revision cannot be cancelled after it is effective")
      let cancellation : RetentionPolicyCancellation :=
        ⟨k.tenantId, k.clusterId, k.version, strip reason, credentialId, now⟩
      Tables.cancellations.insert .integrity cancellation
      pure cancellation

def retentionBackfillPolicy (k : PolicyKey) (now : Instant) : Tx RetentionPolicyRevision := do
  let policy ← Tables.policies.get k
  match policy with
  | none => Txn.raise (.value "retention policy revision does not exist")
  | some policy => do
    let cancellation ← Tables.cancellations.get k
    Txn.raiseIf (cancellation.isSome = true) (.value "retention policy revision is cancelled")
    Txn.raiseIf (retentionDeadlineIsDue policy.effectiveAt now = false)
      (.value "retention policy revision is not yet effective")
    pure policy

/-- The rows are those of the statement, their columns those first loaded in the
session. -/
def retentionBackfillCandidates (q : BackfillRequest) (logicalCaseId : Option String)
    (loaded : List AttemptRecord) : Tx (List AttemptRecord) := do
  let rows ← Txn.read (fun c : Catalog =>
    ((c.records.select (fun r =>
      r.tenantId = q.tenantId && r.clusterId = q.clusterId &&
        (c.deletions.get r.attempt).isNone &&
        r.retentionPolicyVersion = q.sourcePolicyVersion &&
        (logicalCaseId.isNone || r.logicalCaseId = logicalCaseId))).insertionSort
      (fun a b => a.attemptId ≤ b.attemptId)).take (q.maxAttempts + 1).toNat)
  Txn.raiseIf (q.maxAttempts < rows.length)
    (.value "eligible attempts exceed max_attempts; increase the explicit bound")
  pure (rows.map (fun r => (loaded.find? (fun l => l.attempt = r.attempt)).getD r))

def timestamp : Option Instant → Json
  | none => .null
  | some t => .str (env.isoformat t)

def retentionBackfillCandidateDigest (attempts : List AttemptRecord) : String :=
  env.sha256 (env.dumps (.list (attempts.map (fun a => .object [
    ("attempt_id", .str a.attemptId),
    ("first_admitted_at", timestamp env (some a.firstAdmittedAt)),
    ("retention_policy_version", (a.retentionPolicyVersion.map (fun v => .int v)).getD .null),
    ("retention_expires_at", timestamp env a.retentionExpiresAt)]))))

/-- The checks on the source of a migration, or on a legacy backfill. -/
def checkSource (q : BackfillRequest) (policy : RetentionPolicyRevision) : Tx Unit := do
  Txn.raiseIf (q.sourcePolicyVersion = some q.policyVersion)
    (.value "source and target policy revisions must differ")
  match q.sourcePolicyVersion with
  | some version => do
    Txn.raiseIf (q.reason.all reasonInvalid = true)
      (.value "versioned migration requires a reason between 1 and 512 characters")
    let source ← Tables.policies.get ⟨q.tenantId, q.clusterId, version⟩
    match source with
    | none => Txn.raise (.value "source retention policy revision does not exist")
    | some source =>
      Txn.raiseIf (source.logicalCaseId ≠ policy.logicalCaseId)
        (.value "source and target policy revisions must have the same scope")
  | none =>
    Txn.raiseIf (q.reason.isSome = true) (.value "legacy backfill cannot include a migration reason")

def retentionBackfillDecision (q : BackfillRequest) (now : Instant) (loaded : List AttemptRecord) :
    Tx BackfillPlan := do
  Txn.raiseIf (¬(1 ≤ q.maxAttempts ∧ q.maxAttempts ≤ 1000))
    (.value "max_attempts must be within [1, 1000]")
  let policy ← retentionBackfillPolicy ⟨q.tenantId, q.clusterId, q.policyVersion⟩ now
  checkSource q policy
  let attempts ← retentionBackfillCandidates q policy.logicalCaseId loaded
  let due := attempts.filter (fun a => 0 < policy.retentionSeconds &&
    retentionDeadlineIsDue (a.firstAdmittedAt + seconds policy.retentionSeconds) now)
  pure ⟨policy, attempts, due.length, retentionBackfillCandidateDigest env attempts⟩

def setRetention (policy : RetentionPolicyRevision) (loaded r : AttemptRecord) : AttemptRecord :=
  { r with
    retentionPolicyVersion := some policy.version
    retentionExpiresAt := expiry loaded.firstAdmittedAt policy.retentionSeconds }

def newItem (backfillId : Uuid) (policy : RetentionPolicyRevision) (a : AttemptRecord) :
    RetentionPolicyBackfillItem where
  backfillId := backfillId
  attemptId := a.attemptId
  tenantId := a.tenantId
  clusterId := a.clusterId
  previousPolicyVersion := a.retentionPolicyVersion
  previousExpiresAt := a.retentionExpiresAt
  newPolicyVersion := policy.version
  newExpiresAt := expiry a.firstAdmittedAt policy.retentionSeconds

def backfillAttempt (backfillId : Uuid) (policy : RetentionPolicyRevision) (a : AttemptRecord) :
    Tx Unit := do
  Tables.backfillItems.insert .integrity (newItem backfillId policy a)
  Tables.records.update .staleData a.attempt (setRetention policy a)

def newBackfill (q : BackfillRequest) (plan : BackfillPlan) (backfillId : Uuid)
    (credentialId : String) (now : Instant) : RetentionPolicyBackfill where
  backfillId := backfillId
  tenantId := q.tenantId
  clusterId := q.clusterId
  policyVersion := plan.policy.version
  sourcePolicyVersion := q.sourcePolicyVersion
  reason := q.reason.map strip
  candidateDigest := some plan.candidateDigest
  eligibleAttempts := plan.attempts.length
  dueAttempts := plan.dueAttempts
  updatedAttempts := plan.attempts.length
  requestedByCredentialId := credentialId
  requestedAt := now

def backfillDecision (q : BackfillRequest) (plan : BackfillPlan) (b : RetentionPolicyBackfill) :
    RetentionPolicyBackfillDecision where
  tenantId := b.tenantId
  clusterId := b.clusterId
  policyVersion := b.policyVersion
  logicalCaseId := plan.policy.logicalCaseId
  candidateDigest := plan.candidateDigest
  eligibleAttempts := b.eligibleAttempts
  dueAttempts := b.dueAttempts
  updatedAttempts := b.updatedAttempts
  sourcePolicyVersion := q.sourcePolicyVersion
  reason := q.reason.map strip
  backfillId := some b.backfillId
  requestedByCredentialId := some b.requestedByCredentialId
  requestedAt := some b.requestedAt

/-- The decision is taken a second time under the locks of the attempts. -/
def applyRetentionPolicyBackfill (q : BackfillRequest) (expectedEligible expectedDue : Int)
    (expectedDigest credentialId : String) (fresh : Uuid) (now : Instant) :
    Tx RetentionPolicyBackfillDecision := do
  Txn.raiseIf (identifier 128 [] credentialId = false)
    (.value "retention policy credential ID is invalid")
  Txn.raiseIf (expectedEligible < 0 ∨ expectedDue < 0)
    (.value "expected attempt counts cannot be negative")
  Txn.raiseIf (hexDigest expectedDigest = false)
    (.value "expected candidate digest must be a lowercase SHA-256")
  Txn.lock (.retentionPolicyBackfill q.tenantId q.clusterId)
  let first ← retentionBackfillDecision env q now []
  Txn.forEach first.attempts (fun a => Txn.lock (.attempt a.attempt))
  let plan ← retentionBackfillDecision env q now first.attempts
  Txn.raiseIf ((plan.attempts.length : Int) ≠ expectedEligible ∨
    (plan.dueAttempts : Int) ≠ expectedDue ∨ plan.candidateDigest ≠ expectedDigest)
    (.value "retention policy backfill preview is stale; preview again")
  let backfillId ← uuid4 fresh
  Txn.forEach plan.attempts (backfillAttempt backfillId plan.policy)
  let backfill := newBackfill q plan backfillId credentialId now
  Tables.backfills.insert .integrity backfill
  pure (backfillDecision q plan backfill)

end IngestionService

namespace RetentionSweeper

/-- A deadline that has passed by the sweeper's clock. -/
def due (now : Instant) (r : AttemptRecord) : Bool := r.retentionExpiresAt.any (fun t => t ≤ now)

def before (a b : AttemptRecord) : Bool :=
  a.retentionExpiresAt.getD 0 < b.retentionExpiresAt.getD 0 ||
    (a.retentionExpiresAt = b.retentionExpiresAt &&
      decide ([a.tenantId, a.clusterId, a.attemptId] ≤ [b.tenantId, b.clusterId, b.attemptId]))

/-- The scan of `run_once`. Each attempt is deleted later, on its own. -/
def scan (batchSize : Nat) (now : Instant) : Tx (List AttemptKey) :=
  Txn.read (fun c => (((c.records.select (fun r =>
    due now r && (c.deletions.get r.attempt).isNone)).insertionSort
      (fun a b => before a b = true)).take batchSize).map AttemptRecord.attempt)

end RetentionSweeper

end RankLens
