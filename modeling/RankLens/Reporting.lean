import RankLens.Normalization

namespace RankLens

structure ReportInput where
  receiptId : Uuid
  payloadSha256 : String
  objectKey : ObjectKey
  recordCount : Nat
  normalizerVersion : String
deriving DecidableEq, Repr

/-- A report request with the inputs its first session found. -/
structure ReportPlan where
  attempt : AttemptKey
  generation : Nat
  inputs : List ReportInput
deriving DecidableEq, Repr

/-- A plan with the artifacts built for it. -/
structure BuiltReport extends ReportPlan where
  fingerprint : String
  parquet : NormalizedParquet
  parquetDigest : String
  parquetKey : ObjectKey
  payload : Bytes
  reportDigest : String
  objectKey : ObjectKey
deriving DecidableEq, Repr

structure ReportRevisionWorker where
  maxSegments : Nat
  maxRecords : Nat
  maxInputBytes : Nat
  orphanGcGraceSeconds : Nat
  valid : 300 ≤ orphanGcGraceSeconds ∧ orphanGcGraceSeconds ≤ 604800

namespace ReportRevisionWorker

variable (self : ReportRevisionWorker) (env : Env) (faults : Faults)

def builderVersion : String := "attempt-manifest-v1"

def claim : String → Nat → Instant → List Uuid → Tx (Option WorkLease) :=
  Outbox.claim .reportRequested

def fail : WorkLease → String → Tx Unit := Outbox.fail

def request (record : OutboxRecord) : Except Failure (AttemptKey × Nat) :=
  match record.payloadJson with
  | .segmentAdmitted _ _ => .error (.value "report request payload is invalid")
  | .reportRequested clusterId attemptId generation =>
    if clusterId = "" then .error (.value "report request cluster_id is invalid")
    else if attemptId = "" then .error (.value "report request attempt_id is invalid")
    else .ok (⟨record.tenantId, clusterId, attemptId⟩, generation)

def inputBefore (a b : SegmentManifest) : Bool :=
  decide ([a.producerId, a.transportEpoch, a.streamId] < [b.producerId, b.transportEpoch, b.streamId]) ||
    ([a.producerId, a.transportEpoch, a.streamId] = [b.producerId, b.transportEpoch, b.streamId] &&
      (a.firstSequence < b.firstSequence ||
        (a.firstSequence = b.firstSequence && a.receiptId ≤ b.receiptId)))

/-- The normalized segments of one generation of an attempt, with their manifests. -/
def inputsOf (k : AttemptKey) (generation : Nat) (c : Catalog) : List ReportInput :=
  ((c.manifests.select (fun m => m.attempt = k && m.deletionGeneration = generation)).insertionSort
    (fun a b => inputBefore a b = true)).filterMap (fun m =>
      (c.normalized.get m.receiptId).map (fun n =>
        ⟨m.receiptId, m.payloadSha256, m.objectKey, n.recordCount, n.normalizerVersion⟩))

def inputs (k : AttemptKey) (generation : Nat) : Tx (List ReportInput) :=
  Txn.read (inputsOf k generation)

def segmentDocument (i : ReportInput) : Json :=
  .object [
    ("normalizer_version", .str i.normalizerVersion),
    ("payload_sha256", .str i.payloadSha256),
    ("receipt_id", .int i.receiptId),
    ("record_count", .int i.recordCount)]

def inputFingerprint (inputs : List ReportInput) : String :=
  env.sha256 (env.dumps (.list (inputs.map segmentDocument)))

/-- The document without its final newline. -/
def reportDocument (p : ReportPlan) (fingerprint parquetSha256 : String)
    (parquet : NormalizedParquet) : Json :=
  .object [
    ("attempt_id", .str p.attempt.attemptId),
    ("builder_version", .str builderVersion),
    ("cluster_id", .str p.attempt.clusterId),
    ("deletion_generation", .int p.generation),
    ("input_fingerprint", .str fingerprint),
    ("parquet", .object [
      ("row_count", .int parquet.rowCount),
      ("schema_version", .str parquet.schemaVersion),
      ("sha256", .str parquetSha256)]),
    ("record_count", .int (p.inputs.map ReportInput.recordCount).sum),
    ("schema_major", .int 1),
    ("segment_count", .int p.inputs.length),
    ("segments", .list (p.inputs.map segmentDocument)),
    ("tenant_id", .str p.attempt.tenantId),
    ("type", .str "ranklens-attempt-manifest")]

def reportPayload (p : ReportPlan) (fingerprint parquetSha256 : String)
    (parquet : NormalizedParquet) : Bytes :=
  env.dumps (reportDocument p fingerprint parquetSha256 parquet) ++ [10]

def objectKey (k : AttemptKey) (digest : String) (suffix : Suffix) : ObjectKey :=
  .report (env.bucket k.tenantId) (env.bucket k.clusterId) (env.bucket k.attemptId) digest suffix

/-- The first session of `execute`. -/
def read (l : WorkLease) : Tx (Option ReportPlan) := do
  let record ← Tables.outbox.get l.outboxId
  match record with
  | none => pure none
  | some record =>
    if Outbox.current l record = true then do
      let target ← orRaise (request record)
      let found ← inputs target.1 target.2
      Txn.raiseIf (found = []) (.value "report request has no normalized inputs")
      pure (some ⟨target.1, target.2, found⟩)
    else pure none

/-- Read the inputs, within the byte limit of the worker. -/
def readInputs : List ReportInput → Nat → Tx (List ParquetSegment)
  | [], _ => pure []
  | item :: items, total => do
    let found ← readVerified env faults item.objectKey item.payloadSha256
    let payload ← orRaise found
    Txn.raiseIf (self.maxInputBytes < total + payload.length)
      (.value "Parquet input byte limit exceeded")
    let segments ← readInputs items (total + payload.length)
    pure (⟨item.receiptId, item.payloadSha256, item.recordCount, payload⟩ :: segments)

def built (p : ReportPlan) (parquet : NormalizedParquet) : BuiltReport :=
  let fingerprint := inputFingerprint env p.inputs
  let parquetDigest := env.sha256 parquet.payload
  let payload := reportPayload env p fingerprint parquetDigest parquet
  { toReportPlan := p
    fingerprint := fingerprint
    parquet := parquet
    parquetDigest := parquetDigest
    parquetKey := objectKey env p.attempt parquetDigest .parquet
    payload := payload
    reportDigest := env.sha256 payload
    objectKey := objectKey env p.attempt (env.sha256 payload) .json }

/-- The part of `execute` between its first two sessions. -/
def build (p : ReportPlan) : Tx BuiltReport := do
  let segments ← readInputs self env faults p.inputs 0
  match env.buildNormalizedParquet p.attempt segments self.maxSegments self.maxRecords
    self.maxInputBytes with
  | .error message => Txn.raise (.value message)
  | .ok parquet => pure (built env p parquet)

def artifacts (b : BuiltReport) : List (ObjectKey × String) :=
  [(b.objectKey, b.reportDigest), (b.parquetKey, b.parquetDigest)]

def sortedArtifacts (b : BuiltReport) : List (ObjectKey × String) :=
  (artifacts b).insertionSort (fun x y => x.1.path ≤ y.1.path)

def reactivate (notBefore : Instant) (g : ObjectGcCandidate) : ObjectGcCandidate :=
  { g with
    state := .pending
    notBefore := notBefore
    attempts := 0
    lastError := none
    completedAt := none }

/-- The states a candidate is brought back from. -/
def spent (state : CandidateState) : Bool :=
  state = .deleted || state = .missing || state = .failed

def ensureArtifactCandidate (fresh : ObjectKey → Uuid) (now notBefore : Instant)
    (artifact : ObjectKey × String) : Tx Unit := do
  let found ← Tables.candidates.select (fun g => g.objectKey = artifact.1)
  match found.head? with
  | none => do
    let id ← uuid4 (fresh artifact.1)
    Tables.candidates.insert .integrity (newCandidate id artifact.1 artifact.2 notBefore now)
  | some candidate => do
    Txn.raiseIf (candidate.payloadSha256 ≠ artifact.2)
      (.value "artifact garbage-collection digest does not match")
    if spent candidate.state = true then
      Tables.candidates.update .staleData candidate.candidateId (reactivate notBefore)
    else pure ()

def lockAndEnsure (fresh : ObjectKey → Uuid) (now : Instant) (artifact : ObjectKey × String) :
    Tx Unit := do
  Txn.lock (.object artifact.1)
  ensureArtifactCandidate fresh now (now + seconds self.orphanGcGraceSeconds) artifact

def reserveArtifacts (b : BuiltReport) (fresh : ObjectKey → Uuid) (now : Instant) : Tx Unit :=
  Txn.forEach (sortedArtifacts b) (self.lockAndEnsure fresh now)

def protectArtifact (now : Instant) (artifact : ObjectKey × String) : Tx Unit := do
  let found ← Tables.candidates.select (fun g => g.objectKey = artifact.1)
  match found.head? with
  | none => Txn.raise (.value "artifact garbage-collection reservation is missing")
  | some candidate => do
    Txn.raiseIf (candidate.payloadSha256 ≠ artifact.2)
      (.value "artifact garbage-collection reservation is missing")
    Tables.candidates.update .staleData candidate.candidateId (ObjectGcWorker.finish .guarded now)
      (ObjectGcWorker.finish_candidateId .guarded now)

def protectArtifacts (b : BuiltReport) (now : Instant) : Tx Unit :=
  Txn.forEach (artifacts b) (protectArtifact now)

def newRevision (b : BuiltReport) (number : Nat) (id : Uuid) (now : Instant) : ReportRevision where
  revisionId := id
  tenantId := b.attempt.tenantId
  clusterId := b.attempt.clusterId
  attemptId := b.attempt.attemptId
  deletionGeneration := b.generation
  revisionNumber := number
  inputFingerprint := b.fingerprint
  segmentCount := b.inputs.length
  recordCount := (b.inputs.map ReportInput.recordCount).sum
  reportObjectKey := b.objectKey
  reportSha256 := b.reportDigest
  parquetObjectKey := some b.parquetKey
  parquetSha256 := some b.parquetDigest
  parquetSchemaVersion := some b.parquet.schemaVersion
  parquetRowCount := some b.parquet.rowCount
  builderVersion := builderVersion
  createdAt := now

/-- The revision has the inputs the report was built from. -/
def sameInput (b : BuiltReport) (r : ReportRevision) : Bool :=
  r.attempt = b.attempt && r.deletionGeneration = b.generation && r.inputFingerprint = b.fingerprint

def nextNumber (b : BuiltReport) : Option ReportHead → Nat
  | some head => if head.deletionGeneration = b.generation then head.revisionNumber + 1 else 1
  | none => 1

def ensureRevision (b : BuiltReport) (head : Option ReportHead) (fresh : Uuid) (now : Instant) :
    Tx ReportRevision := do
  let found ← Tables.revisions.select (sameInput b)
  match found.head? with
  | none => do
    let id ← uuid4 fresh
    let revision := newRevision b (nextNumber b head) id now
    Tables.revisions.insert .integrity revision
    pure revision
  | some existing => do
    Txn.raiseIf (existing.reportObjectKey ≠ b.objectKey ∨ existing.reportSha256 ≠ b.reportDigest ∨
      existing.parquetObjectKey ≠ some b.parquetKey ∨
      existing.parquetSha256 ≠ some b.parquetDigest)
      (.value "existing report revision artifacts differ")
    pure existing

def newHead (b : BuiltReport) (r : ReportRevision) (now : Instant) : ReportHead where
  tenantId := b.attempt.tenantId
  clusterId := b.attempt.clusterId
  attemptId := b.attempt.attemptId
  deletionGeneration := b.generation
  revisionNumber := r.revisionNumber
  revisionId := r.revisionId
  inputFingerprint := b.fingerprint
  updatedAt := now

def moveHead (b : BuiltReport) (r : ReportRevision) (now : Instant) (h : ReportHead) : ReportHead :=
  { h with
    deletionGeneration := b.generation
    revisionNumber := r.revisionNumber
    revisionId := r.revisionId
    inputFingerprint := b.fingerprint
    updatedAt := now }

/-- The head already shows the inputs the report was built from. -/
def headCurrent (b : BuiltReport) (h : ReportHead) : Bool :=
  h.deletionGeneration = b.generation && h.inputFingerprint = b.fingerprint

def advanceHead (b : BuiltReport) (head : Option ReportHead) (r : ReportRevision) (now : Instant) :
    Tx Unit :=
  match head with
  | none => Tables.heads.insert .integrity (newHead b r now)
  | some _ => Tables.heads.update .staleData b.attempt (moveHead b r now)

def complete (l : WorkLease) (b : BuiltReport) (now : Instant) : Tx Bool := do
  Tables.outbox.update .staleData l.outboxId (Outbox.close .completed none)
    Outbox.completed_outboxId
  protectArtifacts b now
  pure true

/-- The publication proper: candidates, objects, revision and head. -/
def publishReport (l : WorkLease) (b : BuiltReport) (fresh : ObjectKey → Uuid)
    (freshRevision : Uuid) (now : Instant) : Tx Bool := do
  Txn.forEach (sortedArtifacts b) (self.lockAndEnsure fresh now)
  let putParquet ← putVerified env faults b.parquetKey b.parquet.payload b.parquetDigest
  orRaise putParquet
  let putReport ← putVerified env faults b.objectKey b.payload b.reportDigest
  orRaise putReport
  let head ← Tables.heads.get b.attempt
  if head.any (headCurrent b) = true then
    complete l b now
  else do
    let revision ← ensureRevision b head freshRevision now
    advanceHead b head revision now
    complete l b now

/-- The last session of `execute`. -/
def publish (l : WorkLease) (b : BuiltReport) (fresh : ObjectKey → Uuid) (freshRevision : Uuid)
    (now : Instant) : Tx Bool := do
  let record ← Tables.outbox.get l.outboxId
  if record.any (Outbox.current l) = true then do
    Txn.lock (.attempt b.attempt)
    Txn.lock (.report b.attempt)
    let state ← Tables.generations.get b.attempt
    if Outbox.generationOpen b.generation state = true then do
      let current ← inputs b.attempt b.generation
      if inputFingerprint env current = b.fingerprint then
        publishReport self env faults l b fresh freshRevision now
      else do
        Tables.outbox.update .staleData l.outboxId
          (Outbox.close .pending (some "normalized inputs changed during report build"))
        pure false
    else do
      Tables.outbox.update .staleData l.outboxId
        (Outbox.close .suppressed (some OutboxWorker.superseded)) OutboxWorker.superseded_outboxId
      pure false
  else pure false

inductive Ensuring (artifact : ObjectKey × String) (t : Table ObjectGcCandidate.candidateId) :
    Table ObjectGcCandidate.candidateId → Prop where
  | added {g : ObjectGcCandidate} (hnone : ∀ x ∈ t, x.objectKey ≠ artifact.1)
      (hnew : t.get g.candidateId = none) (hk : g.objectKey = artifact.1)
      (hd : g.payloadSha256 = artifact.2) (hs : g.state = .pending) :
      Ensuring artifact t (t.insert g)
  | kept {g : ObjectGcCandidate} (hg : g ∈ t) (hk : g.objectKey = artifact.1)
      (hd : g.payloadSha256 = artifact.2) (hs : spent g.state = false) : Ensuring artifact t t
  | revived {g : ObjectGcCandidate} {t' : Table ObjectGcCandidate.candidateId}
      (hk : g.objectKey = artifact.1) (hd : g.payloadSha256 = artifact.2)
      (ht : Moved t g .pending t') : Ensuring artifact t t'

def Protecting (artifact : ObjectKey × String) (t t' : Table ObjectGcCandidate.candidateId) : Prop :=
  ∃ g, g.objectKey = artifact.1 ∧ g.payloadSha256 = artifact.2 ∧ Moved t g .guarded t'

/-- Only the candidates and the issued identifiers change, the former by a chain. -/
def Candidates (R : ObjectKey × String → Table ObjectGcCandidate.candidateId →
    Table ObjectGcCandidate.candidateId → Prop) (artifacts : List (ObjectKey × String))
    (c c' : Catalog) : Prop :=
  ∃ t issued, Txn.Chain R artifacts c.candidates t ∧ c.issued ⊆ issued ∧
    c' = { c with candidates := t, issued := issued }

section spec

variable {self env faults} {c : Catalog} {w : ObjectStore} {A : ObjectStore → Prop} {b : BuiltReport}
  {now : Instant}

theorem read_spec {l : WorkLease} : (read l).wp (fun _ => True) (fun _ => True)
    (fun a _ _ => ∀ p, a = some p → ∃ r, c.outbox.get l.outboxId = some r ∧
      request r = .ok (p.attempt, p.generation) ∧ p.inputs = inputsOf p.attempt p.generation c) c w := by
  simp only [read, Txn.wp_bind, Ref.wp_get, Tables.outbox_view]
  split
  · rintro p ⟨⟩
  · next r hget =>
    simp only [inputs, Txn.wp_ite, Txn.wp_bind, wp_orRaise, Txn.wp_read, Txn.wp_raiseIf, Txn.wp_pure,
      implies_true, true_and]
    refine ⟨fun _ target htarget _ p hp => ?_, by rintro _ p ⟨⟩⟩
    cases hp
    exact ⟨r, hget, htarget, rfl⟩

theorem wp_candidates {R : ObjectKey × String → Table ObjectGcCandidate.candidateId →
      Table ObjectGcCandidate.candidateId → Prop} {body : ObjectKey × String → Tx Unit}
    {artifacts : List (ObjectKey × String)}
    (h : ∀ a c, (body a).wp A (fun _ => True) (fun _ c' w' => (∃ t issued, R a c.candidates t ∧
      c.issued ⊆ issued ∧ c' = { c with candidates := t, issued := issued }) ∧ w' = w) c w) :
    (Txn.forEach artifacts body).wp A (fun _ => True)
      (fun _ c' w' => Candidates R artifacts c c' ∧ w' = w) c w := by
  induction artifacts generalizing c with
  | nil => exact ⟨⟨_, _, .nil, List.Subset.refl _, rfl⟩, rfl⟩
  | cons a artifacts ih =>
    rw [Txn.forEach, Txn.wp_bind]
    refine Txn.wp_post (h a c) ?_
    rintro _ _ w' ⟨⟨t, issued, hR, hi, rfl⟩, rfl⟩
    refine Txn.wp_post ih ?_
    rintro _ _ _ ⟨⟨t', issued', hs, hi', rfl⟩, rfl⟩
    exact ⟨⟨t', issued', .cons hR hs, List.Subset.trans hi hi', rfl⟩, rfl⟩

theorem ensureArtifactCandidate_spec {fresh : ObjectKey → Uuid} {notBefore : Instant}
    {a : ObjectKey × String} :
    (ensureArtifactCandidate fresh now notBefore a).wp A (fun _ => True)
      (fun _ c' w' => (∃ t issued, Ensuring a c.candidates t ∧ c.issued ⊆ issued ∧
        c' = { c with candidates := t, issued := issued }) ∧ w' = w) c w := by
  simp only [ensureArtifactCandidate, Txn.wp_bind, Ref.wp_select, Tables.candidates_view]
  split
  · next hg =>
    simp only [Txn.wp_bind, wp_uuid4, Ref.wp_insert, implies_true, true_and, and_true,
      Tables.candidates_put, Tables.candidates_view]
    refine fun _ hnew => ⟨_, _, .added (fun x hx hk => ?_) (Ref.taken_eq_false.mp hnew).1 rfl rfl rfl,
      List.subset_cons_self _ _, rfl⟩
    exact List.ne_nil_of_mem (Table.mem_select.mpr ⟨hx, by simpa using hk⟩)
      (List.head?_eq_none_iff.mp hg)
  · next g hg =>
    obtain ⟨hm, hk⟩ := Table.mem_select.mp (List.mem_of_head? hg)
    simp only [Txn.wp_bind, Txn.wp_raiseIf, Txn.wp_ite, Ref.wp_update, Txn.wp_pure, implies_true,
      true_and, and_true, Tables.candidates_put, Tables.candidates_view, not_not]
    refine fun hd => ⟨fun _ _ _ => ⟨_, _, .revived (by simpa using hk) hd
        (moved_modify hm rfl rfl rfl), List.Subset.refl _, rfl⟩,
      fun hs => ⟨_, _, .kept hm (by simpa using hk) hd (by simpa using hs), List.Subset.refl _, rfl⟩⟩

theorem reserveArtifacts_spec {fresh : ObjectKey → Uuid} :
    (self.reserveArtifacts b fresh now).wp A (fun _ => True)
      (fun _ c' w' => Candidates Ensuring (sortedArtifacts b) c c' ∧ w' = w) c w := by
  refine wp_candidates (fun a c => ?_)
  simp only [lockAndEnsure, Txn.wp_bind, Txn.wp_lock]
  exact ensureArtifactCandidate_spec

theorem protectArtifacts_spec :
    (protectArtifacts b now).wp A (fun _ => True)
      (fun _ c' w' => Candidates Protecting (artifacts b) c c' ∧ w' = w) c w := by
  refine wp_candidates (fun a c => ?_)
  simp only [protectArtifact, Txn.wp_bind, Ref.wp_select, Tables.candidates_view]
  split
  · trivial
  · next g hg =>
    obtain ⟨hm, hk⟩ := Table.mem_select.mp (List.mem_of_head? hg)
    simp only [Txn.wp_bind, Txn.wp_raiseIf, Ref.wp_update, implies_true, true_and, and_true,
      Tables.candidates_put, Tables.candidates_view, not_not]
    exact fun hd _ _ => ⟨_, _, ⟨g, by simpa using hk, hd, moved_modify hm rfl rfl rfl⟩,
      List.Subset.refl _, rfl⟩

/-- The revision a publication settles on, found or added. -/
inductive Revising (b : BuiltReport) (head : Option ReportHead)
    (t : Table ReportRevision.revisionId) :
    ReportRevision → Table ReportRevision.revisionId → Prop where
  | added {id : Uuid} {now : Instant} (hnone : ∀ r ∈ t, sameInput b r = false)
      (hnew : t.get id = none) :
      Revising b head t (newRevision b (nextNumber b head) id now)
        (t.insert (newRevision b (nextNumber b head) id now))
  | existing {r : ReportRevision} (hr : r ∈ t) (hs : sameInput b r = true) : Revising b head t r t

inductive Advancing (b : BuiltReport) (r : ReportRevision) (t : Table ReportHead.attempt) :
    Table ReportHead.attempt → Prop where
  | first {now : Instant} (hnew : t.get b.attempt = none) : Advancing b r t (t.insert (newHead b r now))
  | moved {h : ReportHead} {now : Instant} (hget : t.get b.attempt = some h) :
      Advancing b r t (t.modify b.attempt (moveHead b r now) (fun _ => rfl))

inductive Heading (b : BuiltReport) (c : Catalog) : Table ReportRevision.revisionId →
    Table ReportHead.attempt → Prop where
  | current {h : ReportHead} (hh : c.heads.get b.attempt = some h) (hc : headCurrent b h = true) :
      Heading b c c.revisions c.heads
  | advanced {r : ReportRevision} {revisions : Table ReportRevision.revisionId}
      {heads : Table ReportHead.attempt}
      (hold : (c.heads.get b.attempt).any (headCurrent b) = false) (hr : Revising b (c.heads.get b.attempt) c.revisions r revisions)
      (hh : Advancing b r c.heads heads) : Heading b c revisions heads

def Artifact (b : BuiltReport) (key : ObjectKey) (digest : String) : Prop := (key, digest) ∈ artifacts b

/-- An object of the report whose write reaches the disk. -/
def Landing (b : BuiltReport) (faults : Faults) (key : ObjectKey) (digest : String) : Prop :=
  Artifact b key digest ∧ faults.lands key = true

/-- What becomes of the request of a report that is not published. -/
inductive Parting (env : Env) (l : WorkLease) (b : BuiltReport) (c : Catalog) :
    Table OutboxRecord.outboxId → Prop where
  | stale (h : (c.outbox.get l.outboxId).any (Outbox.current l) = false) :
      Parting env l b c c.outbox
  | suppressed {r : OutboxRecord} (hget : c.outbox.get l.outboxId = some r)
      (hcur : Outbox.current l r = true)
      (hclosed : Outbox.generationOpen b.generation (c.generations.get b.attempt) = false) :
      Parting env l b c (c.outbox.modify l.outboxId
        (Outbox.close .suppressed (some OutboxWorker.superseded)) (fun _ => rfl))
  | changed {r : OutboxRecord} (hget : c.outbox.get l.outboxId = some r)
      (hcur : Outbox.current l r = true)
      (hopen : Outbox.generationOpen b.generation (c.generations.get b.attempt) = true)
      (hchanged : inputFingerprint env (inputsOf b.attempt b.generation c) ≠ b.fingerprint) :
      Parting env l b c (c.outbox.modify l.outboxId
        (Outbox.close .pending (some "normalized inputs changed during report build"))
        (fun _ => rfl))

inductive Publishing (env : Env) (l : WorkLease) (b : BuiltReport) (faults : Faults) (c : Catalog)
    (w : ObjectStore) : Catalog → ObjectStore → Prop where
  | aside {outbox : Table OutboxRecord.outboxId} (h : Parting env l b c outbox) :
      Publishing env l b faults c w { c with outbox := outbox } w
  | published {r : OutboxRecord} {reserved candidates : Table ObjectGcCandidate.candidateId}
      {revisions : Table ReportRevision.revisionId} {heads : Table ReportHead.attempt}
      {issued : List Uuid} {w' : ObjectStore}
      (hopen : Outbox.generationOpen b.generation (c.generations.get b.attempt) = true)
      (hcurrent : inputFingerprint env (inputsOf b.attempt b.generation c) = b.fingerprint)
      (hstore : Stores env (Landing b faults) w w') (hreport : Holds env w' b.objectKey b.reportDigest)
      (hparquet : Holds env w' b.parquetKey b.parquetDigest)
      (hreserved : Txn.Chain Ensuring (sortedArtifacts b) c.candidates reserved)
      (hprotected : Txn.Chain Protecting (artifacts b) reserved candidates)
      (hheads : Heading b c revisions heads) (hissued : c.issued ⊆ issued)
      (hget : c.outbox.get l.outboxId = some r) (hcur : Outbox.current l r = true) :
      Publishing env l b faults c w
        { c with
          outbox := c.outbox.modify l.outboxId (Outbox.close .completed none) (fun _ => rfl)
          candidates := candidates
          revisions := revisions
          heads := heads
          issued := issued } w'

theorem ensureRevision_spec {head : Option ReportHead} {fresh : Uuid} :
    (ensureRevision b head fresh now).wp A (fun _ => True)
      (fun r c' w' => (∃ revisions issued, Revising b head c.revisions r revisions ∧
        c.issued ⊆ issued ∧ c' = { c with revisions := revisions, issued := issued }) ∧ w' = w) c w := by
  simp only [ensureRevision, Txn.wp_bind, Ref.wp_select, Tables.revisions_view]
  split
  · next hr =>
    simp only [Txn.wp_bind, wp_uuid4, Ref.wp_insert, Txn.wp_pure, implies_true, true_and, and_true,
      Tables.revisions_put, Tables.revisions_view]
    refine fun _ hnew => ⟨_, _, .added (fun r hm => ?_) (Ref.taken_eq_false.mp hnew).1,
      List.subset_cons_self _ _, rfl⟩
    by_contra hs
    exact List.ne_nil_of_mem (Table.mem_select.mpr ⟨hm, by simpa using hs⟩)
      (List.head?_eq_none_iff.mp hr)
  · next r hr =>
    obtain ⟨hm, hs⟩ := Table.mem_select.mp (List.mem_of_head? hr)
    simp only [Txn.wp_bind, Txn.wp_raiseIf, Txn.wp_pure, implies_true, true_and, and_true]
    exact fun _ => ⟨_, _, .existing hm hs, List.Subset.refl _, rfl⟩

theorem advanceHead_spec {r : ReportRevision} {head : Option ReportHead}
    (hh : c.heads.get b.attempt = head) : (advanceHead b head r now).wp A (fun _ => True)
      (fun _ c' w' => (∃ heads, Advancing b r c.heads heads ∧ c' = { c with heads := heads }) ∧
        w' = w) c w := by
  cases head with
  | none =>
    simp only [advanceHead, Ref.wp_insert, implies_true, true_and, and_true, Tables.heads_put,
      Tables.heads_view]
    exact fun _ => ⟨_, .first hh, rfl⟩
  | some h =>
    simp only [advanceHead, Ref.wp_update, implies_true, true_and, and_true, Tables.heads_put,
      Tables.heads_view]
    exact fun _ _ => ⟨_, .moved hh, rfl⟩

theorem complete_spec {l : WorkLease} :
    (complete l b now).wp A (fun _ => True)
      (fun _ c' w' => (∃ candidates issued,
        Txn.Chain Protecting (artifacts b) c.candidates candidates ∧ c.issued ⊆ issued ∧
        c' = { c with
          outbox := c.outbox.modify l.outboxId (Outbox.close .completed none) (fun _ => rfl)
          candidates := candidates
          issued := issued }) ∧ w' = w) c w := by
  simp only [complete, Txn.wp_bind, Ref.wp_update, Txn.wp_pure, implies_true, true_and,
    Tables.outbox_put]
  intro _ _
  refine Txn.wp_post protectArtifacts_spec ?_
  rintro _ _ _ ⟨⟨t, issued, ht, hi, rfl⟩, rfl⟩
  exact ⟨⟨t, issued, ht, hi, rfl⟩, rfl⟩

theorem publishReport_spec {l : WorkLease} {r : OutboxRecord} {fresh : ObjectKey → Uuid}
    {freshRevision : Uuid} (hget : c.outbox.get l.outboxId = some r)
    (hcur : Outbox.current l r = true)
    (hopen : Outbox.generationOpen b.generation (c.generations.get b.attempt) = true)
    (hcurrent : inputFingerprint env (inputsOf b.attempt b.generation c) = b.fingerprint) :
    (publishReport self env faults l b fresh freshRevision now).wp (Stores env (Landing b faults) w)
      (fun _ => True) (fun _ c' w' => Publishing env l b faults c w c' w') c w := by
  simp only [publishReport, Txn.wp_bind]
  refine Txn.wp_post (@reserveArtifacts_spec self _ _ _ _ _ fresh) ?_
  rintro _ _ w ⟨⟨reserved, issued, hreserved, hi, rfl⟩, rfl⟩
  simp only [wp_putVerified, wp_orRaise, implies_true, true_and, Ref.wp_get, Tables.heads_view]
  have hp : Stores env (Landing b faults) w
      (LocalObjectStore.putVerified env faults b.parquetKey b.parquet.payload b.parquetDigest w).2 :=
    putVerified_put.stores (fun hl => ⟨List.mem_cons_of_mem _ List.mem_cons_self, hl⟩)
  refine ⟨hp, fun _ hparquet => ?_⟩
  have hr : Stores env (Landing b faults)
      (LocalObjectStore.putVerified env faults b.parquetKey b.parquet.payload b.parquetDigest w).2 _ :=
    (@putVerified_put env faults b.objectKey b.payload b.reportDigest _).stores
      (fun hl => ⟨List.mem_cons_self, hl⟩)
  refine ⟨hp.trans hr, fun _ hreport => ?_⟩
  have hholds := hr.holds (LocalObjectStore.putVerified_ok hparquet)
  rw [Txn.wp_ite]
  refine ⟨fun hc => ?_, fun hold => ?_⟩
  · refine Txn.wp_post complete_spec ?_
    rintro _ _ _ ⟨⟨candidates, issued', hprotected, hi', rfl⟩, rfl⟩
    obtain ⟨h, hh, hsame⟩ := (Option.any_eq_true _ _).mp hc
    exact .published hopen hcurrent (hp.trans hr) (LocalObjectStore.putVerified_ok hreport) hholds
      hreserved hprotected (.current hh hsame) (List.Subset.trans hi hi') hget hcur
  · simp only [Txn.wp_bind]
    refine Txn.wp_post ensureRevision_spec ?_
    rintro r _ _ ⟨⟨revisions, issued', hrev, hi', rfl⟩, rfl⟩
    refine Txn.wp_post (advanceHead_spec rfl) ?_
    rintro _ _ _ ⟨⟨heads, hheads, rfl⟩, rfl⟩
    refine Txn.wp_post complete_spec ?_
    rintro _ _ _ ⟨⟨candidates, issued'', hprotected, hi'', rfl⟩, rfl⟩
    exact .published hopen hcurrent (hp.trans hr) (LocalObjectStore.putVerified_ok hreport) hholds
      hreserved hprotected (.advanced (by simpa using hold) hrev hheads)
      (List.Subset.trans hi (List.Subset.trans hi' hi'')) hget hcur

theorem publish_spec {l : WorkLease} {fresh : ObjectKey → Uuid} {freshRevision : Uuid} :
    (publish self env faults l b fresh freshRevision now).wp (Stores env (Landing b faults) w)
      (fun _ => True) (fun _ c' w' => Publishing env l b faults c w c' w') c w := by
  simp only [publish, inputs, Txn.wp_bind, Txn.wp_ite, Txn.wp_lock, Ref.wp_get, Txn.wp_read,
    Ref.wp_update, Txn.wp_pure, implies_true, true_and, Tables.outbox_put, Tables.outbox_view,
    Tables.generations_view]
  refine ⟨fun hlease => ?_, fun hlease => .aside (.stale (by simpa using hlease))⟩
  obtain ⟨r, hget, hcur⟩ := (Option.any_eq_true _ _).mp hlease
  refine ⟨fun hopen => ⟨fun hcurrent => publishReport_spec hget hcur hopen hcurrent,
    fun hchanged _ _ => .aside (.changed hget hcur hopen hchanged)⟩, fun hclosed _ _ => ?_⟩
  exact .aside (.suppressed hget hcur (by simpa using hclosed))

end spec

end ReportRevisionWorker

end RankLens
