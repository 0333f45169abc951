import RankLens.Collection
import RankLens.Lifecycle

namespace RankLens

structure DeletionLease where
  tenantId : String
  clusterId : String
  attemptId : String
  deletionGeneration : Nat
  leaseGeneration : Nat
  owner : String
deriving DecidableEq, Repr

def DeletionLease.attempt (l : DeletionLease) : AttemptKey := ⟨l.tenantId, l.clusterId, l.attemptId⟩

/-- `d[key] = digest` on a dictionary kept in insertion order. -/
def assign (d : List (ObjectKey × String)) (e : ObjectKey × String) : List (ObjectKey × String) :=
  if e.1 ∈ d.map Prod.fst then d.map (fun x => if x.1 = e.1 then e else x) else d ++ [e]

def sortedItems (d : List (ObjectKey × String)) : List (ObjectKey × String) :=
  d.insertionSort (fun x y => x.1.path ≤ y.1.path)

namespace AttemptDeletionWorker

variable (env : Env) (faults : Faults)

def claimable (now : Instant) (d : AttemptDeletion) : Bool :=
  d.state = .pending || (d.state = .processing && d.leaseExpiresAt.any (fun t => t < now))

def before (a b : AttemptDeletion) : Bool := a.requestedAt ≤ b.requestedAt

def lease (loaded : AttemptDeletion) (owner : String) (expiresAt : Instant) (d : AttemptDeletion) :
    AttemptDeletion :=
  { d with
    state := .processing
    attempts := loaded.attempts + 1
    leaseOwner := some owner
    leaseGeneration := loaded.leaseGeneration + 1
    leaseExpiresAt := some expiresAt
    lastError := none }

def newLease (d : AttemptDeletion) (owner : String) : DeletionLease where
  tenantId := d.tenantId
  clusterId := d.clusterId
  attemptId := d.attemptId
  deletionGeneration := d.deletionGeneration
  leaseGeneration := d.leaseGeneration + 1
  owner := owner

def claim (owner : String) (leaseSeconds : Nat) (now : Instant) (skip : List AttemptKey) :
    Tx (Option DeletionLease) := do
  let rows ← Tables.deletions.selectForUpdate (claimable now) before 1 skip
  match rows.head? with
  | none => pure none
  | some request => do
    Tables.deletions.update .staleData request.attempt
      (lease request owner (now + seconds leaseSeconds))
    pure (some (newLease request owner))

/-- `_matches`. -/
def current (l : DeletionLease) (d : AttemptDeletion) : Bool :=
  d.state = .processing && d.leaseOwner = some l.owner && d.leaseGeneration = l.leaseGeneration &&
    d.deletionGeneration = l.deletionGeneration

def segmentObjects (manifests : List SegmentManifest) : List (ObjectKey × String) :=
  (manifests.map (fun m => (m.objectKey, m.payloadSha256))).foldl assign []

def revisionObjects (r : ReportRevision) : List (ObjectKey × String) :=
  (r.reportObjectKey, r.reportSha256) ::
    (match r.parquetObjectKey, r.parquetSha256 with
    | some key, some digest => if digest = "" then [] else [(key, digest)]
    | _, _ => [])

def reportObjects (revisions : List ReportRevision) : List (ObjectKey × String) :=
  (revisions.flatMap revisionObjects).foldl assign []

/-- The keys among `keys` that a manifest or live reservation of another attempt names. -/
def sharedObjects (k : AttemptKey) (keys : List ObjectKey) : Tx (List ObjectKey) := do
  let manifests ← Tables.manifests.select (fun m => m.objectKey ∈ keys)
  let reservations ← Tables.reservations.select (fun r => r.objectKey ∈ keys && r.refers)
  pure (((manifests.filter (fun m => m.attempt ≠ k)).map SegmentManifest.objectKey ++
    (reservations.filter (fun r => r.attempt ≠ k)).map AdmissionReservation.objectKey).dedup)

def lockObjects (objects : List (ObjectKey × String)) : Tx Unit :=
  Ref.lockAll ((sortedItems objects).map (fun x => .object x.1))

def deleteObject (x : ObjectKey × String) : Tx Unit := do
  let deleted ← deleteVerified env faults x.1 x.2
  let _ ← orRaise deleted
  pure ()

/-- The outbox and normalized rows that hang on receipts. -/
def deleteReceipts (receiptIds : List Uuid) : Tx Nat :=
  if receiptIds = [] then pure 0
  else do
    let outbox ← Tables.outbox.deleteWhere (fun r => r.eventType = .segmentAdmitted &&
      receiptIds.any (fun id => r.aggregateId = .receipt id))
    let normalized ← Tables.normalized.deleteWhere (fun n => n.receiptId ∈ receiptIds)
    pure (outbox + normalized)

def requestOf (k : AttemptKey) (r : OutboxRecord) : Bool :=
  r.tenantId = k.tenantId && r.eventType = .reportRequested && r.aggregateId = .attempt k.attemptId

def deleteRequest (r : OutboxRecord) : Tx Unit := do
  let _ ← Tables.outbox.deleteWhere (fun x => x.outboxId = r.outboxId)
  pure ()

/-- The report requests of the attempt, by the cluster in their payload. -/
def deleteRequests (k : AttemptKey) : Tx Nat := do
  let requests ← Tables.outbox.select (requestOf k)
  let records := requests.filter (fun r => r.payloadJson.clusterId? = some k.clusterId)
  Txn.forEach records deleteRequest
  pure records.length

def deleteObservations (k : AttemptKey) (record : Option AttemptRecord) : Tx Nat :=
  match record.bind AttemptRecord.schedulerSourceIdentity with
  | none => pure 0
  | some identity =>
    if identity = "" then pure 0
    else Tables.observations.deleteWhere (fun o => o.tenantId = k.tenantId &&
      o.clusterId = k.clusterId && o.sourceIdentity = identity)

def deleteCandidates (keys : List ObjectKey) : Tx Nat :=
  if keys = [] then pure 0
  else Tables.candidates.deleteWhere (fun g => g.objectKey ∈ keys)

/-- The catalog erasure, in the order of the statements. -/
def deleteRows (k : AttemptKey) (receiptIds : List Uuid) (record : Option AttemptRecord)
    (keys : List ObjectKey) : Tx Nat := do
  let receipts ← deleteReceipts receiptIds
  let requests ← deleteRequests k
  let revisions ← Tables.revisions.deleteWhere (fun r => r.attempt = k)
  let heads ← Tables.heads.deleteWhere (fun r => r.attempt = k)
  let manifests ← Tables.manifests.deleteWhere (fun r => r.attempt = k)
  let reservations ← Tables.reservations.deleteWhere (fun r => r.attempt = k)
  let observations ← deleteObservations k record
  let records ← Tables.records.deleteWhere (fun r => r.attempt = k)
  let candidates ← deleteCandidates keys
  pure (receipts + requests + revisions + heads + manifests + reservations + observations +
    records + candidates)

/-- What one erasure found: the segment objects, those among them it retains,
and the report objects. -/
structure Found where
  segments : List (ObjectKey × String)
  shared : List ObjectKey
  reports : List (ObjectKey × String)

def Found.deletable (f : Found) : List (ObjectKey × String) :=
  f.segments.filter (fun x => x.1 ∉ f.shared)

/-- `{**deletable_segments, **report_objects}`. -/
def Found.objects (f : Found) : List (ObjectKey × String) := f.reports.foldl assign f.deletable

def Found.keys (f : Found) : List ObjectKey :=
  f.deletable.map Prod.fst ++ f.reports.map Prod.fst

def completed (f : Found) (rows : Nat) (now : Instant) (d : AttemptDeletion) : AttemptDeletion :=
  { d with
    state := .completed
    leaseOwner := none
    leaseExpiresAt := none
    deletedSegmentObjects := f.deletable.length
    retainedSharedObjects := f.shared.length
    deletedReportObjects := f.reports.length
    deletedCatalogRows := rows
    lastError := none
    completedAt := some now }

/-- Lock and compare the objects before any is deleted. -/
def findObjects (k : AttemptKey) (manifests : List SegmentManifest)
    (revisions : List ReportRevision) : Tx Found := do
  let segments := segmentObjects manifests
  lockObjects segments
  let shared ← sharedObjects k (segments.map Prod.fst)
  let reports := reportObjects revisions
  lockObjects reports
  pure ⟨segments, shared, reports⟩

/-- The erasure of an attempt whose request, holds and generation allow it. -/
def erase (k : AttemptKey) (now : Instant) : Tx Unit := do
  let manifests ← Tables.manifests.select (fun m => m.attempt = k)
  let revisions ← Tables.revisions.select (fun r => r.attempt = k)
  let record ← Tables.records.get k
  let found ← findObjects k manifests revisions
  Txn.forEach (sortedItems found.objects) (deleteObject env faults)
  let rows ← deleteRows k (manifests.map SegmentManifest.receiptId) record found.keys
  Tables.deletions.update .staleData k (completed found rows now)

/-- Put a leased request behind the holds found on its attempt. -/
def holdBack (d : AttemptDeletion) : AttemptDeletion :=
  { d with
    state := .held
    leaseOwner := none
    leaseExpiresAt := none
    lastError := some IngestionService.blockedMessage }

def generationCurrent (l : DeletionLease) (state : Option AttemptGeneration) : Bool :=
  state.any (fun s => s.deletedAt.isSome && s.generation = l.deletionGeneration)

def execute (l : DeletionLease) (now : Instant) : Tx Bool := do
  let request ← Tables.deletions.get l.attempt
  if request.any (current l) = true then do
    Txn.lock (.attempt l.attempt)
    let request ← Tables.deletions.get l.attempt
    if request.any (current l) = true then do
      let activeHold ← Tables.holds.select (activeHold l.attempt)
      if activeHold = [] then do
        let generation ← Tables.generations.get l.attempt
        Txn.raiseIf (generationCurrent l generation = false)
          (.value "attempt deletion generation is no longer current")
        erase env faults l.attempt now
        pure true
      else do
        Tables.deletions.update .staleData l.attempt holdBack
        pure false
    else pure false
  else pure false

def failed (loaded : AttemptDeletion) (message : String) (d : AttemptDeletion) : AttemptDeletion :=
  { d with
    state := if 5 ≤ loaded.attempts then .failed else .pending
    leaseOwner := none
    leaseExpiresAt := none
    lastError := some (clip message) }

def fail (l : DeletionLease) (message : String) : Tx Unit := do
  let request ← Tables.deletions.get l.attempt
  match request with
  | none => pure ()
  | some request =>
    if current l request = true then
      Tables.deletions.update .staleData l.attempt (failed request message)
    else pure ()

/-- The request is leased for a generation the attempt is not fenced in. -/
def obsolete : Failure := .value "attempt deletion generation is no longer current"

/-- A key of a manifest of the attempt that no other attempt's manifest or live
reservation names, or of a report of the attempt. -/
inductive Erasable (k : AttemptKey) (c : Catalog) (key : ObjectKey) : Prop where
  | segment {m : SegmentManifest} (hm : m ∈ c.manifests) (hk : m.attempt = k) (hkey : m.objectKey = key)
      (hmanifests : ∀ x ∈ c.manifests, x.objectKey = key → x.attempt = k)
      (hreservations : ∀ x ∈ c.reservations, x.objectKey = key → x.refers = true → x.attempt = k)
  | report {r : ReportRevision} {digest : String} (hr : r ∈ c.revisions) (hk : r.attempt = k)
      (hkey : (key, digest) ∈ revisionObjects r)

/-- An outbox entry of a receipt of the attempt, or a report request for it. -/
inductive OutboxOf (k : AttemptKey) (c : Catalog) (x : OutboxRecord) : Prop where
  | receipt {m : SegmentManifest} (he : x.eventType = .segmentAdmitted) (hm : m ∈ c.manifests)
      (hk : m.attempt = k) (hx : x.aggregateId = .receipt m.receiptId)
  | request (hx : requestOf k x = true) (hc : x.payloadJson.clusterId? = some k.clusterId)

/-- An observation of the job the attempt's record is bound to. -/
def ObservationOf (k : AttemptKey) (c : Catalog) (o : SchedulerObservation) : Prop :=
  ∃ r, c.records.get k = some r ∧ r.schedulerSourceIdentity = some o.sourceIdentity ∧
    o.tenantId = k.tenantId ∧ o.clusterId = k.clusterId

/-- The rows an erasure removes, and nothing else. -/
structure RowsErased (k : AttemptKey) (c c' : Catalog) : Prop where
  outbox : ∀ x, x ∈ c'.outbox ↔ x ∈ c.outbox ∧ ¬OutboxOf k c x
  normalized : ∀ x, x ∈ c'.normalized ↔
    x ∈ c.normalized ∧ ∀ m ∈ c.manifests, m.attempt = k → x.receiptId ≠ m.receiptId
  revisions : ∀ x, x ∈ c'.revisions ↔ x ∈ c.revisions ∧ x.attempt ≠ k
  heads : ∀ x, x ∈ c'.heads ↔ x ∈ c.heads ∧ x.attempt ≠ k
  manifests : ∀ x, x ∈ c'.manifests ↔ x ∈ c.manifests ∧ x.attempt ≠ k
  reservations : ∀ x, x ∈ c'.reservations ↔ x ∈ c.reservations ∧ x.attempt ≠ k
  observations : ∀ x, x ∈ c'.observations → x ∈ c.observations
  kept : ∀ x ∈ c.observations, x ∈ c'.observations ∨ ObservationOf k c x
  unobserved : ∀ x ∈ c'.observations, ObservationOf k c x → x.sourceIdentity = ""
  records : ∀ x, x ∈ c'.records ↔ x ∈ c.records ∧ x.attempt ≠ k
  candidates : ∀ x, x ∈ c'.candidates ↔ x ∈ c.candidates ∧ ¬Erasable k c x.objectKey
  others : c' = { c with
    outbox := c'.outbox
    normalized := c'.normalized
    revisions := c'.revisions
    heads := c'.heads
    manifests := c'.manifests
    reservations := c'.reservations
    observations := c'.observations
    records := c'.records
    candidates := c'.candidates }

inductive Executing (l : DeletionLease) (now : Instant) (c : Catalog) (w : ObjectStore) :
    Bool → Catalog → ObjectStore → Prop where
  | stale : Executing l now c w false c w
  | heldBack {d : AttemptDeletion} (hget : c.deletions.get l.attempt = some d)
      (hcur : current l d = true) (hold : ∃ h ∈ c.holds, activeHold l.attempt h = true) :
      Executing l now c w false
        { c with deletions := c.deletions.modify l.attempt holdBack (fun _ => rfl) } w
  | erased {d : AttemptDeletion} {g : AttemptGeneration} {found : Found} {rows : Nat} {c' : Catalog}
      {w' : ObjectStore} (hget : c.deletions.get l.attempt = some d) (hcur : current l d = true)
      (hfree : ∀ h ∈ c.holds, activeHold l.attempt h = false)
      (hgen : c.generations.get l.attempt = some g) (hfenced : g.deletedAt.isSome = true)
      (hg : g.generation = l.deletionGeneration) (hrows : RowsErased l.attempt c c')
      (hw : Deletes (Erasable l.attempt c) w w')
      (hnone : ∀ key, Erasable l.attempt c key → w' key = none) :
      Executing l now c w true { c' with
        deletions := c.deletions.modify l.attempt (completed found rows now) (fun _ => rfl) } w'

section spec

variable {env faults} {c : Catalog} {w : ObjectStore} {A : ObjectStore → Prop} {k : AttemptKey}
  {now : Instant}

theorem mem_assign {d : List (ObjectKey × String)} {e : ObjectKey × String} {key : ObjectKey} :
    key ∈ (assign d e).map Prod.fst ↔ key ∈ d.map Prod.fst ∨ key = e.1 := by
  unfold assign
  split
  · next he =>
    have hm : (d.map (fun x => if x.1 = e.1 then e else x)).map Prod.fst = d.map Prod.fst := by
      rw [List.map_map]
      refine List.map_congr_left (fun x _ => ?_)
      by_cases hx : x.1 = e.1 <;> simp [hx]
    rw [hm]
    exact ⟨Or.inl, fun h => h.elim id (fun h => h ▸ he)⟩
  · simp

theorem mem_foldl_assign {xs d : List (ObjectKey × String)} {key : ObjectKey} :
    key ∈ (xs.foldl assign d).map Prod.fst ↔ key ∈ d.map Prod.fst ∨ key ∈ xs.map Prod.fst := by
  induction xs generalizing d with
  | nil => simp
  | cons x xs ih => rw [List.foldl_cons, ih, mem_assign, List.map_cons, List.mem_cons, or_assoc]

theorem mem_sortedItems {d : List (ObjectKey × String)} {x : ObjectKey × String} :
    x ∈ sortedItems d ↔ x ∈ d := List.mem_insertionSort _

theorem sharedObjects_spec {keys : List ObjectKey} {E : Failure → Prop} :
    (sharedObjects k keys).wp A E (fun shared c' w' => (∀ key ∈ keys, key ∉ shared ↔
      (∀ x ∈ c.manifests, x.objectKey = key → x.attempt = k) ∧
      (∀ x ∈ c.reservations, x.objectKey = key → x.refers = true → x.attempt = k)) ∧
      c' = c ∧ w' = w) c w := by
  simp only [sharedObjects, Txn.wp_bind, Ref.wp_select, Txn.wp_pure, and_true, Tables.manifests_view,
    Tables.reservations_view]
  intro key hkey
  simp only [List.mem_dedup, List.mem_append, List.mem_map, List.mem_filter, Table.mem_select,
    decide_eq_true_eq, Bool.and_eq_true]
  constructor
  · intro h
    refine ⟨fun x hx hk => ?_, fun x hx hk hr => ?_⟩
    · by_contra hne
      exact h (Or.inl ⟨x, ⟨⟨hx, hk ▸ hkey⟩, hne⟩, hk⟩)
    · by_contra hne
      exact h (Or.inr ⟨x, ⟨⟨hx, hk ▸ hkey, hr⟩, hne⟩, hk⟩)
  · rintro ⟨hm, hr⟩ (⟨x, ⟨⟨hx, _⟩, hne⟩, hk⟩ | ⟨x, ⟨⟨hx, _, href⟩, hne⟩, hk⟩)
    · exact hne (hm x hx hk)
    · exact hne (hr x hx hk href)

theorem findObjects_spec {E : Failure → Prop} :
    (findObjects k (c.manifests.select (fun m => m.attempt = k))
      (c.revisions.select (fun r => r.attempt = k))).wp A E
      (fun f c' w' => (∀ key, key ∈ f.keys ↔ Erasable k c key) ∧ c' = c ∧ w' = w) c w := by
  simp only [findObjects, lockObjects, Txn.wp_bind, Ref.wp_lockAll]
  refine Txn.wp_post sharedObjects_spec ?_
  rintro shared c w ⟨hshared, rfl, rfl⟩
  simp only [Txn.wp_pure, and_true]
  intro key
  have hseg : key ∈ (segmentObjects (c.manifests.select (fun m => m.attempt = k))).map Prod.fst ↔
      ∃ m ∈ c.manifests, m.attempt = k ∧ m.objectKey = key := by
    rw [segmentObjects, mem_foldl_assign]
    simp [and_assoc]
  have hdel : key ∈ (Found.deletable ⟨segmentObjects (c.manifests.select (fun m => m.attempt = k)),
      shared, reportObjects (c.revisions.select (fun r => r.attempt = k))⟩).map Prod.fst ↔
      (∃ m ∈ c.manifests, m.attempt = k ∧ m.objectKey = key) ∧ key ∉ shared := by
    rw [← hseg, Found.deletable]
    simp
  have hrep : key ∈ (reportObjects (c.revisions.select (fun r => r.attempt = k))).map Prod.fst ↔
      ∃ r ∈ c.revisions, r.attempt = k ∧ ∃ digest, (key, digest) ∈ revisionObjects r := by
    rw [reportObjects, mem_foldl_assign]
    simp [and_assoc]
    grind
  rw [Found.keys, List.mem_append, hdel, hrep]
  constructor
  · rintro (⟨⟨m, hm, hk, hkey⟩, hs⟩ | ⟨r, hr, hk, digest, hkey⟩)
    · have h := (hshared key (hseg.mpr ⟨m, hm, hk, hkey⟩)).mp hs
      exact .segment hm hk hkey h.1 h.2
    · exact .report hr hk hkey
  · rintro (⟨hm, hk, hkey, h₁, h₂⟩ | ⟨hr, hk, hkey⟩)
    · exact Or.inl ⟨⟨_, hm, hk, hkey⟩, (hshared key (hseg.mpr ⟨_, hm, hk, hkey⟩)).mpr ⟨h₁, h₂⟩⟩
    · exact Or.inr ⟨_, hr, hk, _, hkey⟩

theorem deleteVerified_error {key : ObjectKey} {digest : String} {e : Failure}
    (h : (LocalObjectStore.deleteVerified env faults key digest w).1 = .error e) :
    ∃ message, e = .objectIntegrity message := by
  unfold LocalObjectStore.deleteVerified at h
  split at h
  · cases h
  · split at h
    · cases h
      exact ⟨_, rfl⟩
    · split at h
      · cases h
        exact ⟨_, rfl⟩
      · split at h <;> cases h
        exact ⟨_, rfl⟩

theorem deleteObjects_spec {xs : List (ObjectKey × String)} {P : ObjectKey → Prop}
    {E : Failure → Prop} (hE : ∀ message, E (.objectIntegrity message)) (hP : ∀ x ∈ xs, P x.1) :
    (Txn.forEach xs (deleteObject env faults)).wp (Deletes P w) E
      (fun _ c' w' => c' = c ∧ Deletes P w w' ∧ ∀ x ∈ xs, w' x.1 = none) c w := by
  refine Txn.wp_forEach (fun (pre : List (ObjectKey × String)) c' w' => c' = c ∧ Deletes P w w' ∧ ∀ x ∈ pre, w' x.1 = none)
    ⟨rfl, .refl w, fun x hx => (nomatch hx)⟩ ?_
  rintro pre x post _ w' rfl ⟨rfl, hw, hpre⟩
  have hx : P x.1 := hP x (List.mem_append_right _ List.mem_cons_self)
  have hstep : Deletes P w' (LocalObjectStore.deleteVerified env faults x.1 x.2 w').2 := by
    intro key
    rcases @deleteVerified_deletes env faults x.1 x.2 w' key with h | ⟨rfl, h⟩
    · exact Or.inl h
    · exact Or.inr ⟨hx, h⟩
  simp only [deleteObject, Txn.wp_bind, wp_deleteVerified, wp_orRaise, Txn.wp_pure, true_and]
  refine ⟨hw.trans hstep, fun e he => ?_, fun deleted hd => ⟨hw.trans hstep, fun y hy => ?_⟩⟩
  · obtain ⟨message, rfl⟩ := deleteVerified_error he
    exact hE message
  rcases List.mem_append.mp hy with hy | hy
  · rcases hstep y.1 with h | ⟨_, h⟩
    · rw [h, hpre y hy]
    · exact h
  · rw [List.mem_singleton.mp hy]
    exact LocalObjectStore.deleteVerified_ok hd

theorem deleteReceipts_spec {ids : List Uuid} {E : Failure → Prop} :
    (deleteReceipts ids).wp A E (fun _ c' w' => (∃ outbox normalized,
      (∀ x, x ∈ outbox ↔ x ∈ c.outbox ∧
        ¬(x.eventType = .segmentAdmitted ∧ ∃ id ∈ ids, x.aggregateId = .receipt id)) ∧
      (∀ x, x ∈ normalized ↔ x ∈ c.normalized ∧ x.receiptId ∉ ids) ∧
      c' = { c with outbox := outbox, normalized := normalized }) ∧ w' = w) c w := by
  simp only [deleteReceipts, Txn.wp_ite, Txn.wp_bind, Ref.wp_deleteWhere, Txn.wp_pure, and_true]
  refine ⟨fun h => ⟨c.outbox, c.normalized, ?_, ?_, rfl⟩, fun _ => ⟨_, _, ?_, ?_, rfl⟩⟩
  · simp [h]
  · simp [h]
  · simp [Tables.outbox]
  · simp [Tables.outbox, Tables.normalized]

theorem deleteRequests_spec {E : Failure → Prop} :
    (deleteRequests k).wp A E (fun _ c' w' => (∃ outbox, (∀ x, x ∈ outbox ↔ x ∈ c.outbox ∧
      ¬(requestOf k x = true ∧ x.payloadJson.clusterId? = some k.clusterId)) ∧
      c' = { c with outbox := outbox }) ∧ w' = w) c w := by
  simp only [deleteRequests, Txn.wp_bind, Ref.wp_select, Txn.wp_pure, Tables.outbox_view]
  refine Txn.wp_post (Txn.wp_forEach (fun pre c' w' => (∃ outbox, (∀ x, x ∈ outbox ↔ x ∈ c.outbox ∧
    ∀ r ∈ pre, x.outboxId ≠ r.outboxId) ∧ c' = { c with outbox := outbox }) ∧ w' = w)
    ⟨⟨c.outbox, by simp, rfl⟩, rfl⟩ ?_) ?_
  · rintro pre x post _ _ _ ⟨⟨outbox, hout, rfl⟩, rfl⟩
    simp only [deleteRequest, Txn.wp_bind, Ref.wp_deleteWhere, Txn.wp_pure, and_true,
      Tables.outbox_view, Tables.outbox_put]
    refine ⟨_, fun y => ?_, rfl⟩
    rw [Table.mem_deleteWhere, hout y]
    simp only [List.mem_append, List.mem_singleton, or_imp, forall_and, forall_eq,
      decide_eq_false_iff_not, and_assoc, ne_eq]
  · rintro _ _ _ ⟨⟨outbox, hout, rfl⟩, rfl⟩
    refine ⟨⟨outbox, fun x => ?_, rfl⟩, rfl⟩
    rw [hout x]
    refine and_congr_right (fun hx => ?_)
    simp only [List.mem_filter, Table.mem_select, decide_eq_true_eq, and_imp, ne_eq, not_and]
    constructor
    · intro h hreq hcl
      exact h x hx hreq hcl rfl
    · intro h r hr hreq hcl hid
      obtain rfl := Table.eq_of_key hx hr hid
      exact h hreq hcl

theorem deleteObservations_spec {record : Option AttemptRecord} {E : Failure → Prop}
    (hrecord : c.records.get k = record) :
    (deleteObservations k record).wp A E (fun _ c' w' => (∃ observations,
      (∀ x ∈ observations, x ∈ c.observations) ∧
      (∀ x ∈ c.observations, x ∈ observations ∨ ObservationOf k c x) ∧
      (∀ x ∈ observations, ObservationOf k c x → x.sourceIdentity = "") ∧
      c' = { c with observations := observations }) ∧ w' = w) c w := by
  have hsame : (∀ x ∈ c.observations, ObservationOf k c x → x.sourceIdentity = "") →
      (∀ x ∈ c.observations, x ∈ c.observations) ∧
      (∀ x ∈ c.observations, x ∈ c.observations ∨ ObservationOf k c x) ∧
      (∀ x ∈ c.observations, ObservationOf k c x → x.sourceIdentity = "") ∧
      c = { c with observations := c.observations } :=
    fun h => ⟨fun _ h => h, fun _ h => Or.inl h, h, rfl⟩
  unfold deleteObservations
  split
  · next hnone =>
    refine ⟨⟨_, hsame (fun x _ ⟨r, hr, hid, _⟩ => ?_)⟩, rfl⟩
    rw [← hrecord, hr, Option.bind_some, hid] at hnone
    cases hnone
  · next identity hi =>
    obtain ⟨r, hr, hid⟩ := Option.bind_eq_some_iff.mp hi
    simp only [Txn.wp_ite, Txn.wp_pure, Ref.wp_deleteWhere, and_true, Tables.observations_view,
      Tables.observations_put]
    have hbound : ∀ x, ObservationOf k c x → x.sourceIdentity = identity := by
      intro x ⟨r', hr', hid', _⟩
      rw [hrecord, hr] at hr'
      cases hr'
      rw [hid] at hid'
      exact (Option.some.inj hid').symm
    refine ⟨fun hempty => ⟨_, hsame (fun x _ hx => (hbound x hx).trans hempty)⟩,
      fun _ => ⟨_, fun x hx => (Table.mem_deleteWhere.mp hx).1, fun x hx => ?_,
        fun x hx hof => ?_, rfl⟩⟩
    · rw [Table.mem_deleteWhere]
      by_cases hm : x.tenantId = k.tenantId ∧ x.clusterId = k.clusterId ∧ x.sourceIdentity = identity
      · exact Or.inr ⟨r, hrecord.trans hr, by rw [hid, hm.2.2], hm.1, hm.2.1⟩
      · exact Or.inl ⟨hx, by simpa [and_assoc] using hm⟩
    · obtain ⟨_, hp⟩ := Table.mem_deleteWhere.mp hx
      have hidentity := hbound x hof
      obtain ⟨_, _, _, ht, hc⟩ := hof
      simp [ht, hc, hidentity] at hp

theorem deleteCandidates_spec {keys : List ObjectKey} {E : Failure → Prop} :
    (deleteCandidates keys).wp A E (fun _ c' w' => (∃ candidates,
      (∀ x, x ∈ candidates ↔ x ∈ c.candidates ∧ x.objectKey ∉ keys) ∧
      c' = { c with candidates := candidates }) ∧ w' = w) c w := by
  simp only [deleteCandidates, Txn.wp_ite, Ref.wp_deleteWhere, Txn.wp_pure, and_true,
    Tables.candidates_view, Tables.candidates_put]
  refine ⟨fun h => ⟨c.candidates, by simp [h], rfl⟩, fun _ => ⟨_, fun x => ?_, rfl⟩⟩
  rw [Table.mem_deleteWhere, decide_eq_false_iff_not]

theorem deleteRows_spec {record : Option AttemptRecord} {keys : List ObjectKey}
    {E : Failure → Prop} (hrecord : c.records.get k = record)
    (hkeys : ∀ key, key ∈ keys ↔ Erasable k c key) :
    (deleteRows k ((c.manifests.select (fun m => m.attempt = k)).map SegmentManifest.receiptId)
      record keys).wp A E (fun _ c' w' => RowsErased k c c' ∧ w' = w) c w := by
  simp only [deleteRows, Txn.wp_bind]
  refine Txn.wp_post deleteReceipts_spec ?_
  rintro _ _ w ⟨⟨outbox, normalized, houtbox, hnormalized, rfl⟩, rfl⟩
  refine Txn.wp_post deleteRequests_spec ?_
  rintro _ _ w ⟨⟨outbox', houtbox', rfl⟩, rfl⟩
  simp only [Ref.wp_deleteWhere, Tables.revisions_view, Tables.revisions_put, Tables.heads_view,
    Tables.heads_put, Tables.manifests_view, Tables.manifests_put, Tables.reservations_view,
    Tables.reservations_put]
  refine Txn.wp_post (deleteObservations_spec hrecord) ?_
  rintro _ _ w ⟨⟨observations, hsub, hkept, hunobserved, rfl⟩, rfl⟩
  simp only [Tables.records_view, Tables.records_put]
  refine Txn.wp_post deleteCandidates_spec ?_
  rintro _ _ w ⟨⟨candidates, hcandidates, rfl⟩, rfl⟩
  simp only [Txn.wp_pure, and_true]
  have hother : ∀ {κ ρ : Type} {key : ρ → κ} (t : Table key) (f : ρ → AttemptKey) (x : ρ),
      x ∈ t.deleteWhere (fun r => f r = k) ↔ x ∈ t ∧ f x ≠ k := by
    intro κ ρ key t f x
    rw [Table.mem_deleteWhere, decide_eq_false_iff_not]
  refine ⟨fun x => ?_, fun x => ?_, hother _ _, hother _ _, hother _ _, hother _ _, hsub, hkept,
    hunobserved, hother _ _, fun x => ?_, rfl⟩
  · rw [houtbox' x, houtbox x, and_assoc]
    refine and_congr_right (fun _ => ?_)
    constructor
    · rintro ⟨hreceipt, hrequest⟩ (⟨he, hm, hk, ha⟩ | ⟨hr, hc⟩)
      · exact hreceipt ⟨he, _, List.mem_map.mpr ⟨_, Table.mem_select.mpr ⟨hm, by simpa using hk⟩, rfl⟩, ha⟩
      · exact hrequest ⟨hr, hc⟩
    · intro h
      refine ⟨?_, fun hreq => h (.request hreq.1 hreq.2)⟩
      rintro ⟨he, id, hid, ha⟩
      obtain ⟨m, hm, rfl⟩ := List.mem_map.mp hid
      obtain ⟨hm, hk⟩ := Table.mem_select.mp hm
      exact h (.receipt he hm (by simpa using hk) ha)
  · rw [hnormalized x]
    refine and_congr_right (fun _ => ?_)
    simp only [List.mem_map, Table.mem_select, decide_eq_true_eq, not_exists, not_and, and_imp]
    exact ⟨fun h m hm hk he => h m hm hk he.symm, fun h m hm hk he => h m hm hk he.symm⟩
  · rw [hcandidates x, hkeys]

structure Cleared (l : DeletionLease) (c : Catalog) : Prop where
  current : ∃ d, c.deletions.get l.attempt = some d ∧ current l d = true
  free : ∀ h ∈ c.holds, activeHold l.attempt h = false
  fenced : ∃ g, c.generations.get l.attempt = some g ∧ g.deletedAt.isSome = true ∧
    g.generation = l.deletionGeneration

theorem erase_spec {l : DeletionLease} {E : Failure → Prop}
    (hE : ∀ message, E (.objectIntegrity message)) (hstale : E .staleData) (hc : Cleared l c) :
    (erase env faults l.attempt now).wp (Deletes (Erasable l.attempt c) w) E
      (fun _ c' w' => Executing l now c w true c' w') c w := by
  simp only [erase, Txn.wp_bind, Ref.wp_select, Ref.wp_get, Tables.manifests_view,
    Tables.revisions_view, Tables.records_view]
  refine Txn.wp_post findObjects_spec ?_
  rintro found c w ⟨hkeys, rfl, rfl⟩
  have hobjects : ∀ key, key ∈ found.objects.map Prod.fst ↔ Erasable l.attempt c key := by
    intro key
    rw [← hkeys, Found.objects, mem_foldl_assign, Found.keys, List.mem_append]
  refine Txn.wp_post (deleteObjects_spec (P := Erasable l.attempt c) hE (fun x hx => ?_)) ?_
  · exact (hobjects x.1).mp (List.mem_map_of_mem (mem_sortedItems.mp hx))
  rintro _ c' w' ⟨rfl, hw, hnone⟩
  refine Txn.wp_post (deleteRows_spec rfl hkeys) ?_
  rintro rows c'' w'' ⟨hrows, rfl⟩
  simp only [Ref.wp_update, Tables.deletions_view, Tables.deletions_put]
  refine ⟨fun _ => hstale, ?_⟩
  obtain ⟨⟨d, hget, hcur⟩, hfree, g, hgen, hfenced, hg⟩ := hc
  have hdel : c''.deletions = c'.deletions := by rw [hrows.others]
  rw [hdel]
  refine fun _ _ => .erased hget hcur hfree hgen hfenced hg hrows hw (fun key hkey => ?_)
  obtain ⟨x, hx, rfl⟩ := List.mem_map.mp ((hobjects key).mpr hkey)
  exact hnone x (mem_sortedItems.mpr hx)

theorem none_of_select {p : AttemptHold → Bool} (h : c.holds.select p = []) :
    ∀ x ∈ c.holds, p x = false := by
  intro x hx
  by_contra hp
  exact List.ne_nil_of_mem (Table.mem_select.mpr ⟨hx, by simpa using hp⟩) h

theorem execute_spec {l : DeletionLease} {E : Failure → Prop}
    (hE : ∀ message, E (.objectIntegrity message)) (hstale : E .staleData)
    (hobsolete : (∃ d, c.deletions.get l.attempt = some d ∧ current l d = true) →
      generationCurrent l (c.generations.get l.attempt) = false → E obsolete) :
    (execute env faults l now).wp
      (Deletes (fun key => Cleared l c ∧ Erasable l.attempt c key) w) E
      (fun a c' w' => Executing l now c w a c' w') c w := by
  simp only [execute, Txn.wp_bind, Txn.wp_ite, Txn.wp_lock, Ref.wp_get, Ref.wp_select,
    Txn.wp_raiseIf, Ref.wp_update, Txn.wp_pure, Tables.deletions_view,
    Tables.holds_view, Tables.generations_view, Tables.deletions_put]
  refine ⟨fun hcur => ⟨fun _ => ⟨fun hfree => ⟨hobsolete ((Option.any_eq_true _ _).mp hcur),
    fun hgen => ?_⟩, fun hold => ⟨fun _ => hstale, fun d hget => ?_⟩⟩, fun _ => .stale⟩,
    fun _ => .stale⟩
  · obtain ⟨d, hget, hd⟩ := (Option.any_eq_true _ _).mp hcur
    obtain ⟨g, hg, hopen⟩ := (Option.any_eq_true _ _).mp (by simpa using hgen :
      generationCurrent l (c.generations.get l.attempt) = true)
    simp only [Bool.and_eq_true, decide_eq_true_eq] at hopen
    have hc : Cleared l c := ⟨⟨d, hget, hd⟩, none_of_select hfree, g, hg, hopen.1, hopen.2⟩
    refine Txn.wp_mono (fun w' hw key => ?_) (fun _ h => h) (fun _ _ _ h => h) (erase_spec hE hstale hc)
    exact (hw key).imp_right (fun h => ⟨⟨hc, h.1⟩, h.2⟩)
  · obtain ⟨d', hget', hd⟩ := (Option.any_eq_true _ _).mp hcur
    obtain ⟨h, hh⟩ := List.exists_mem_of_ne_nil _ hold
    obtain ⟨hm, ha⟩ := Table.mem_select.mp hh
    exact .heldBack hget' hd ⟨h, hm, ha⟩

inductive Claiming (owner : String) (expiresAt now : Instant) (c : Catalog) :
    Option DeletionLease → Catalog → Prop where
  | nothing : Claiming owner expiresAt now c none c
  | leased {d : AttemptDeletion} (hd : d ∈ c.deletions) (hs : claimable now d = true) :
      Claiming owner expiresAt now c (some (newLease d owner)) { c with
        deletions := c.deletions.modify d.attempt (lease d owner expiresAt) (fun _ => rfl) }

theorem claim_spec {owner : String} {leaseSeconds : Nat} {skip : List AttemptKey} :
    (claim owner leaseSeconds now skip).wp A (fun _ => True)
      (fun a c' w' => Claiming owner (now + seconds leaseSeconds) now c a c' ∧ w' = w) c w := by
  simp only [claim, Txn.wp_bind, Ref.wp_selectForUpdate]
  split
  · exact ⟨.nothing, rfl⟩
  · next d hd =>
    obtain ⟨hm, hs, _⟩ := Ref.mem_batch (List.mem_of_head? hd)
    simp only [Txn.wp_bind, Ref.wp_update, Txn.wp_pure, implies_true, true_and, and_true,
      Tables.deletions_view, Tables.deletions_put]
    exact fun _ _ => .leased hm hs

inductive Failing (l : DeletionLease) (message : String) (c : Catalog) : Catalog → Prop where
  | ignored : Failing l message c c
  | failed {d : AttemptDeletion} (hget : c.deletions.get l.attempt = some d)
      (hcur : current l d = true) : Failing l message c { c with
        deletions := c.deletions.modify l.attempt (failed d message) (fun _ => rfl) }

theorem fail_spec {l : DeletionLease} {message : String} :
    (fail l message).wp A (fun _ => True) (fun _ c' w' => Failing l message c c' ∧ w' = w) c w := by
  simp only [fail, Txn.wp_bind, Ref.wp_get, Tables.deletions_view]
  split
  · exact ⟨.ignored, rfl⟩
  · next d hd =>
    simp only [Txn.wp_ite, Ref.wp_update, Txn.wp_pure, implies_true, true_and, and_true,
      Tables.deletions_view, Tables.deletions_put]
    exact ⟨fun hcur _ _ => .failed hd hcur, fun _ => .ignored⟩

end spec

end AttemptDeletionWorker

end RankLens
