import RankLens.Admission

namespace RankLens

/-- `text[:512]`. -/
def clip (s : String) : String := (s.take 512).toString

def newCandidate (id : Uuid) (key : ObjectKey) (digest : String) (notBefore now : Instant) :
    ObjectGcCandidate where
  candidateId := id
  objectKey := key
  payloadSha256 := digest
  state := .pending
  notBefore := notBefore
  attempts := 0
  lastError := none
  createdAt := now
  completedAt := none

structure Moved (t : Table ObjectGcCandidate.candidateId) (g : ObjectGcCandidate)
    (state : CandidateState) (t' : Table ObjectGcCandidate.candidateId) : Prop where
  mem : g ∈ t
  rows : ∃ g', g'.candidateId = g.candidateId ∧ g'.objectKey = g.objectKey ∧
    g'.payloadSha256 = g.payloadSha256 ∧ g'.state = state ∧
    ∀ x, x ∈ t' ↔ (x ∈ t ∧ x ≠ g) ∨ x = g'

theorem moved_modify {t : Table ObjectGcCandidate.candidateId} {g : ObjectGcCandidate}
    {state : CandidateState} {f : ObjectGcCandidate → ObjectGcCandidate}
    {hf : ∀ r, (f r).candidateId = r.candidateId} (hg : g ∈ t)
    (hkey : (f g).objectKey = g.objectKey) (hdigest : (f g).payloadSha256 = g.payloadSha256)
    (hstate : (f g).state = state) : Moved t g state (t.modify g.candidateId f hf) :=
  ⟨hg, f g, hf g, hkey, hdigest, hstate, fun _ => Table.mem_modify_of_mem hg⟩

/-- The states from which a candidate's object is still collected. -/
def CandidateState.live : CandidateState → Bool
  | .pending => true
  | .guarded => true
  | .failed => true
  | .deleted => false
  | .missing => false

/-- Some candidate for the key is still to be collected. -/
def Tracked (t : Table ObjectGcCandidate.candidateId) (key : ObjectKey) : Prop :=
  ∃ g ∈ t, g.objectKey = key ∧ g.state.live = true

/-- No two candidates are for one key. -/
def OneEach (t : Table ObjectGcCandidate.candidateId) : Prop :=
  ∀ g ∈ t, ∀ g' ∈ t, g.objectKey = g'.objectKey → g = g'

section moved

variable {t t' : Table ObjectGcCandidate.candidateId} {g : ObjectGcCandidate}
  {state : CandidateState} {key : ObjectKey}

theorem Moved.tracked_of_ne (h : Moved t g state t') (hk : g.objectKey ≠ key) (ht : Tracked t key) :
    Tracked t' key := by
  obtain ⟨_, _, _, _, _, _, hrows⟩ := h
  obtain ⟨x, hx, hxk, hs⟩ := ht
  exact ⟨x, (hrows x).mpr (Or.inl ⟨hx, fun he => hk (he ▸ hxk)⟩), hxk, hs⟩

theorem Moved.tracked_self (h : Moved t g state t') (hs : state.live = true) :
    Tracked t' g.objectKey := by
  obtain ⟨_, g', _, hk, _, hst, hrows⟩ := h
  exact ⟨g', (hrows g').mpr (Or.inr rfl), hk, by rw [hst, hs]⟩

theorem Moved.tracked (h : Moved t g state t') (hs : state.live = true) (ht : Tracked t key) :
    Tracked t' key := by
  by_cases hk : g.objectKey = key
  · exact hk ▸ h.tracked_self hs
  · exact h.tracked_of_ne hk ht

theorem Moved.oneEach (h : Moved t g state t') (ht : OneEach t) : OneEach t' := by
  obtain ⟨hg, g', _, hk, _, _, hrows⟩ := h
  have hold : ∀ x ∈ t', ∃ y ∈ t, y.objectKey = x.objectKey ∧ (x = y ∧ x ≠ g ∨ x = g' ∧ y = g) := by
    intro x hx
    rcases (hrows x).mp hx with ⟨hx, hne⟩ | rfl
    · exact ⟨x, hx, rfl, Or.inl ⟨rfl, hne⟩⟩
    · exact ⟨g, hg, hk.symm, Or.inr ⟨rfl, rfl⟩⟩
  intro x hx x' hx' hkey
  obtain ⟨y, hy, hyk, hxy⟩ := hold x hx
  obtain ⟨y', hy', hyk', hxy'⟩ := hold x' hx'
  obtain rfl := ht y hy y' hy' (by rw [hyk, hyk', hkey])
  rcases hxy with ⟨rfl, hne⟩ | ⟨rfl, rfl⟩
  · rcases hxy' with ⟨rfl, _⟩ | ⟨_, rfl⟩
    · rfl
    · exact absurd rfl hne
  · rcases hxy' with ⟨rfl, hne⟩ | ⟨rfl, _⟩
    · exact absurd rfl hne
    · rfl

end moved

namespace Integrity

/-- The attempts that refer to an object. -/
def objectReferenceScopes (key : ObjectKey) : Tx (List AttemptKey) := do
  let manifests ← Tables.manifests.select (fun m => m.objectKey = key)
  let reservations ← Tables.reservations.select (fun r => r.objectKey = key && r.refers)
  let revisions ← Tables.revisions.select
    (fun r => r.reportObjectKey = key || r.parquetObjectKey = some key)
  pure (manifests.map SegmentManifest.attempt ++ reservations.map AdmissionReservation.attempt ++
    revisions.map ReportRevision.attempt).dedup

/-- Some manifest, live reservation or revision names the object. -/
inductive Referenced (c : Catalog) (key : ObjectKey) : Prop where
  | manifest {m : SegmentManifest} (h : m ∈ c.manifests) (hk : m.objectKey = key)
  | reservation {r : AdmissionReservation} (h : r ∈ c.reservations) (hk : r.objectKey = key)
      (hr : r.refers = true)
  | report {r : ReportRevision} (h : r ∈ c.revisions) (hk : r.reportObjectKey = key)
  | parquet {r : ReportRevision} (h : r ∈ c.revisions) (hk : r.parquetObjectKey = some key)

theorem referenced_candidates {c : Catalog} {t : Table ObjectGcCandidate.candidateId}
    {key : ObjectKey} : Referenced { c with candidates := t } key ↔ Referenced c key := by
  constructor
  · rintro (⟨h, hk⟩ | ⟨h, hk, hr⟩ | ⟨h, hk⟩ | ⟨h, hk⟩)
    exacts [.manifest h hk, .reservation h hk hr, .report h hk, .parquet h hk]
  · rintro (⟨h, hk⟩ | ⟨h, hk, hr⟩ | ⟨h, hk⟩ | ⟨h, hk⟩)
    exacts [.manifest h hk, .reservation h hk hr, .report h hk, .parquet h hk]

theorem objectReferenceScopes_spec {key : ObjectKey} {c : Catalog} {w : ObjectStore}
    {A : ObjectStore → Prop} {E : Failure → Prop} : (objectReferenceScopes key).wp A E
      (fun scopes c' w' => (scopes = [] ↔ ¬Referenced c key) ∧ c' = c ∧ w' = w) c w := by
  simp only [objectReferenceScopes, Txn.wp_bind, Ref.wp_select, Txn.wp_pure, and_true,
    Tables.manifests_view, Tables.reservations_view, Tables.revisions_view]
  rw [List.eq_nil_iff_forall_not_mem]
  simp only [List.mem_dedup, List.mem_append, List.mem_map, Table.mem_select, decide_eq_true_eq,
    Bool.and_eq_true, Bool.or_eq_true]
  constructor
  · rintro h (⟨hm, hk⟩ | ⟨hm, hk, hr⟩ | ⟨hm, hk⟩ | ⟨hm, hk⟩)
    · exact h _ (Or.inl (Or.inl ⟨_, ⟨hm, hk⟩, rfl⟩))
    · exact h _ (Or.inl (Or.inr ⟨_, ⟨hm, hk, hr⟩, rfl⟩))
    · exact h _ (Or.inr ⟨_, ⟨hm, Or.inl hk⟩, rfl⟩)
    · exact h _ (Or.inr ⟨_, ⟨hm, Or.inr hk⟩, rfl⟩)
  · rintro h k ((⟨m, ⟨hm, hk⟩, _⟩ | ⟨r, ⟨hm, hk, hr⟩, _⟩) | ⟨r, ⟨hm, hk | hk⟩, _⟩)
    · exact h (.manifest hm hk)
    · exact h (.reservation hm hk hr)
    · exact h (.report hm hk)
    · exact h (.parquet hm hk)

def newNotification (incident : IntegrityIncident) (event : IncidentEvent) (id : Uuid)
    (createdAt : Instant) : IntegrityNotification where
  notificationId := id
  incidentId := incident.incidentId
  tenantId := incident.tenantId
  clusterId := incident.clusterId
  occurrence := incident.occurrences
  eventType := event
  payloadJson := ⟨incident.attemptId, incident.category, incident.state, incident.objectKey,
    incident.payloadSha256, incident.lastDetectedAt⟩
  state := .pending
  attempts := 0
  nextAttemptAt := createdAt
  leaseOwner := none
  leaseGeneration := 0
  leaseExpiresAt := none
  lastError := none
  createdAt := createdAt
  deliveredAt := none

def enqueueNotification (incident : IntegrityIncident) (event : IncidentEvent) (fresh : Uuid)
    (createdAt : Instant) : Tx Unit := do
  let id ← uuid4 fresh
  Tables.notifications.insert .integrity (newNotification incident event id createdAt)

def newIncident (candidate : ObjectGcCandidate) (scope : String × String)
    (attemptId : Option String) (category : IncidentCategory) (details : String) (id : Uuid)
    (detectedAt : Instant) : IntegrityIncident where
  incidentId := id
  candidateId := candidate.candidateId
  tenantId := scope.1
  clusterId := scope.2
  attemptId := attemptId
  objectKey := candidate.objectKey
  payloadSha256 := candidate.payloadSha256
  category := category
  state := .opened
  details := clip details
  occurrences := 1
  firstDetectedAt := detectedAt
  lastDetectedAt := detectedAt
  resolvedAt := none
  resolvedByCredentialId := none
  resolution := none

def reopen (loaded : IntegrityIncident) (attemptId : Option String) (details : String)
    (detectedAt : Instant) (r : IntegrityIncident) : IntegrityIncident :=
  { r with
    state := .opened
    attemptId := attemptId
    details := clip details
    occurrences := loaded.occurrences + 1
    lastDetectedAt := detectedAt
    resolvedAt := none
    resolvedByCredentialId := none
    resolution := none }

def recordIncident (candidate : ObjectGcCandidate) (category : IncidentCategory) (details : String)
    (detectedAt : Instant) (scopes : List AttemptKey) (fresh : String × String → Uuid × Uuid)
    (scope : String × String) : Tx Unit := do
  let attempts := (scopes.filter (fun k => (k.tenantId, k.clusterId) = scope)).map
    AttemptKey.attemptId
  let attemptId := if attempts.length = 1 then attempts.head? else none
  let found ← Tables.incidents.select (fun i => i.candidateId = candidate.candidateId &&
    i.tenantId = scope.1 && i.clusterId = scope.2 && i.category = category)
  match found.head? with
  | none => do
    let id ← uuid4 (fresh scope).1
    let incident := newIncident candidate scope attemptId category details id detectedAt
    Tables.incidents.insert .integrity incident
    enqueueNotification incident .detected (fresh scope).2 detectedAt
  | some incident => do
    Tables.incidents.update .staleData incident.incidentId
      (reopen incident attemptId details detectedAt)
    enqueueNotification (reopen incident attemptId details detectedAt incident) .detected
      (fresh scope).2 detectedAt

def recordIntegrityIncidents (candidate : ObjectGcCandidate) (category : IncidentCategory)
    (details : String) (detectedAt : Instant) (fresh : String × String → Uuid × Uuid) :
    Tx Unit := do
  let scopes ← objectReferenceScopes candidate.objectKey
  Txn.forEach (scopes.map (fun k => (k.tenantId, k.clusterId))).dedup
    (recordIncident candidate category details detectedAt scopes fresh)

/-- Incidents and their notifications, and nothing else, are written. -/
inductive Annotated (c : Catalog) : Catalog → Prop where
  | mk {incidents : Table IntegrityIncident.incidentId}
      {notifications : Table IntegrityNotification.notificationId} {issued : List Uuid}
      (h : c.issued ⊆ issued) : Annotated c { c with
        incidents := incidents
        notifications := notifications
        issued := issued }

theorem Annotated.trans {c c' c'' : Catalog} (h : Annotated c c') (h' : Annotated c' c'') :
    Annotated c c'' := by
  obtain ⟨hi⟩ := h
  obtain ⟨hi'⟩ := h'
  exact .mk (List.Subset.trans hi hi')

section annotated

variable {candidate : ObjectGcCandidate} {category : IncidentCategory} {details : String}
  {detectedAt : Instant} {fresh : String × String → Uuid × Uuid} {c : Catalog} {w : ObjectStore}
  {A : ObjectStore → Prop}

theorem enqueueNotification_spec {incident : IntegrityIncident} {event : IncidentEvent}
    {id : Uuid} : (enqueueNotification incident event id detectedAt).wp A (fun _ => True)
      (fun _ c' w' => Annotated c c' ∧ w' = w) c w := by
  simp only [enqueueNotification, Txn.wp_bind, wp_uuid4, Ref.wp_insert, implies_true, true_and,
    and_true, Tables.notifications_put]
  exact fun _ _ => .mk (List.subset_cons_self _ _)

theorem recordIncident_spec {scopes : List AttemptKey} {scope : String × String} :
    (recordIncident candidate category details detectedAt scopes fresh scope).wp A
      (fun _ => True) (fun _ c' w' => Annotated c c' ∧ w' = w) c w := by
  simp only [recordIncident, Txn.wp_bind, Ref.wp_select]
  split
  · simp only [Txn.wp_bind, wp_uuid4, Ref.wp_insert, implies_true, true_and, Tables.incidents_put]
    refine fun _ _ => Txn.wp_post enqueueNotification_spec ?_
    rintro _ c' _ ⟨h, rfl⟩
    exact ⟨Annotated.trans (.mk (List.subset_cons_self _ _)) h, rfl⟩
  · simp only [Txn.wp_bind, Ref.wp_update, implies_true, true_and, Tables.incidents_put]
    refine fun _ _ => Txn.wp_post enqueueNotification_spec ?_
    rintro _ c' _ ⟨h, rfl⟩
    exact ⟨Annotated.trans (.mk (List.Subset.refl _)) h, rfl⟩

theorem recordIntegrityIncidents_spec :
    (recordIntegrityIncidents candidate category details detectedAt fresh).wp A (fun _ => True)
      (fun _ c' w' => Annotated c c' ∧ w' = w) c w := by
  simp only [recordIntegrityIncidents, Txn.wp_bind]
  refine Txn.wp_post objectReferenceScopes_spec ?_
  rintro scopes _ _ ⟨_, rfl, rfl⟩
  refine Txn.wp_forEach (fun _ c' w' => Annotated _ c' ∧ w' = _)
    ⟨.mk (List.Subset.refl _), rfl⟩ ?_
  rintro _ scope _ c' _ _ ⟨h, rfl⟩
  refine Txn.wp_post recordIncident_spec ?_
  rintro _ c'' _ ⟨h', rfl⟩
  exact ⟨h.trans h', rfl⟩

end annotated

end Integrity

structure ReservationSweeper where
  ttlSeconds : Nat
  batchSize : Nat
  gcGraceSeconds : Nat
  valid : (60 ≤ ttlSeconds ∧ ttlSeconds ≤ 86400) ∧ (1 ≤ batchSize ∧ batchSize ≤ 1000) ∧
    (300 ≤ gcGraceSeconds ∧ gcGraceSeconds ≤ 604800)

namespace ReservationSweeper

variable (self : ReservationSweeper)

def abandoned (cutoff : Instant) (r : AdmissionReservation) : Bool :=
  r.state = .reserved && r.createdAt < cutoff

def before (a b : AdmissionReservation) : Bool :=
  a.createdAt < b.createdAt || (a.createdAt = b.createdAt && a.reservationId ≤ b.reservationId)

/-- A key with any candidate, whatever its state, gets no new one. -/
def expire (fresh : Uuid → Uuid) (clock : Uuid → Instant) (r : AdmissionReservation) :
    Tx Unit := do
  Tables.reservations.update .staleData r.reservationId (IngestionService.setState .expired)
  let existing ← Tables.candidates.select (fun g => g.objectKey = r.objectKey)
  match existing.head? with
  | some _ => pure ()
  | none => do
    let id ← uuid4 (fresh r.reservationId)
    Tables.candidates.insert .integrity (newCandidate id r.objectKey r.payloadSha256
      (clock r.reservationId + seconds self.gcGraceSeconds) (clock r.reservationId))

/-- The reservations a run finds to expire. -/
def due (now : Instant) (skip : List Uuid) (c : Catalog) : List AdmissionReservation :=
  Tables.reservations.batch (abandoned (now - seconds self.ttlSeconds)) before self.batchSize skip c

def runOnce (now : Instant) (skip : List Uuid) (fresh : Uuid → Uuid) (clock : Uuid → Instant) :
    Tx Nat := do
  let reservations ← Tables.reservations.selectForUpdate
    (abandoned (now - seconds self.ttlSeconds)) before self.batchSize skip
  Txn.forEach reservations (self.expire fresh clock)
  pure reservations.length

def expired (r : AdmissionReservation) (c : Catalog) : Table AdmissionReservation.reservationId :=
  c.reservations.modify r.reservationId (IngestionService.setState .expired) (fun _ => rfl)

inductive Expiring (self : ReservationSweeper) (fresh : Uuid → Uuid) (clock : Uuid → Instant)
    (r : AdmissionReservation) (c : Catalog) : Catalog → Prop where
  | known {g : ObjectGcCandidate} (hg : g ∈ c.candidates) (hk : g.objectKey = r.objectKey) :
      Expiring self fresh clock r c { c with reservations := expired r c }
  | handed (hnone : ∀ g ∈ c.candidates, g.objectKey ≠ r.objectKey)
      (hi : fresh r.reservationId ∉ c.issued)
      (hnew : c.candidates.get (fresh r.reservationId) = none) :
      Expiring self fresh clock r c { c with
        reservations := expired r c
        candidates := c.candidates.insert (newCandidate (fresh r.reservationId) r.objectKey
          r.payloadSha256 (clock r.reservationId + seconds self.gcGraceSeconds)
          (clock r.reservationId))
        issued := fresh r.reservationId :: c.issued }

section spec

variable {self} {c : Catalog} {w : ObjectStore} {A : ObjectStore → Prop} {fresh : Uuid → Uuid}
  {clock : Uuid → Instant}

theorem expire_spec {r : AdmissionReservation} :
    (self.expire fresh clock r).wp A (fun _ => True)
      (fun _ c' w' => self.Expiring fresh clock r c c' ∧ w' = w) c w := by
  simp only [expire, Txn.wp_bind, Ref.wp_update, Ref.wp_select, implies_true, true_and,
    Tables.reservations_view, Tables.reservations_put, Tables.candidates_view]
  intro _ _
  split
  · next g hg =>
    obtain ⟨hm, hk⟩ := Table.mem_select.mp (List.mem_of_head? hg)
    exact ⟨.known hm (by simpa using hk), rfl⟩
  · next hg =>
    simp only [Txn.wp_bind, wp_uuid4, Ref.wp_insert, implies_true, true_and, Tables.candidates_view,
      Tables.candidates_put, and_true]
    refine fun hi hnew => .handed (fun g hm hk => ?_) hi (Ref.taken_eq_false.mp hnew).1
    exact List.ne_nil_of_mem (Table.mem_select.mpr ⟨hm, by simpa using hk⟩)
      (List.head?_eq_none_iff.mp hg)

theorem Expiring.others {r : AdmissionReservation} {c' : Catalog} (h : self.Expiring fresh clock r c c') :
    ∀ x ∈ c.reservations, x.reservationId ≠ r.reservationId → x ∈ c'.reservations := by
  intro x hx hne
  have hm : x ∈ expired r c := Table.mem_modify.mpr (Or.inl ⟨hx, hne⟩)
  cases h <;> exact hm

theorem mem_due {now : Instant} {skip : List Uuid} {r : AdmissionReservation}
    (h : r ∈ self.due now skip c) : r ∈ c.reservations ∧ r.state = .reserved := by
  obtain ⟨hm, hp, _⟩ := Ref.mem_batch h
  simp only [abandoned, Bool.and_eq_true, decide_eq_true_eq] at hp
  exact ⟨hm, hp.1⟩

/-- A sweep expires reservations one after the other. -/
def Sweeping (self : ReservationSweeper) (fresh : Uuid → Uuid) (clock : Uuid → Instant)
    (rows : List AdmissionReservation) (c c' : Catalog) : Prop :=
  (∀ r ∈ rows, r ∈ c.reservations ∧ r.state = .reserved) ∧
  Txn.Chain (fun r c c' => r ∈ c.reservations ∧ self.Expiring fresh clock r c c') rows c c'

theorem runOnce_spec {now : Instant} {skip : List Uuid} :
    (self.runOnce now skip fresh clock).wp A (fun _ => True)
      (fun n c' w' => w' = w ∧ n = (self.due now skip c).length ∧
        self.Sweeping fresh clock (self.due now skip c) c c') c w := by
  simp only [runOnce, Txn.wp_bind, Ref.wp_selectForUpdate, Txn.wp_pure]
  refine Txn.wp_post (Ref.wp_forEach_rows (T := Tables.reservations)
    (R := fun r c c' => self.Expiring fresh clock r c c') Ref.batch_nodup
    (fun r hr => (mem_due hr).1) (fun r c c' h => h.others) (fun r _ c _ => expire_spec)) ?_
  rintro _ c' w' ⟨hc, rfl⟩
  exact ⟨rfl, rfl, fun r hr => mem_due hr, hc⟩

end spec

end ReservationSweeper

def candidateBefore (a b : ObjectGcCandidate) : Bool :=
  a.notBefore < b.notBefore || (a.notBefore = b.notBefore && a.candidateId ≤ b.candidateId)

inductive GcOutcome where
  | guarded
  | failed
  | retry
  | deleted
  | missing
deriving DecidableEq, Repr

namespace ObjectGcWorker

variable (env : Env) (faults : Faults)

def eligible (now : Instant) (g : ObjectGcCandidate) : Bool :=
  g.state = .pending && g.notBefore ≤ now

def finish (state : CandidateState) (now : Instant) (g : ObjectGcCandidate) : ObjectGcCandidate :=
  { g with state := state, completedAt := some now, lastError := none }

theorem finish_candidateId (state : CandidateState) (now : Instant) (g : ObjectGcCandidate) :
    (finish state now g).candidateId = g.candidateId := rfl

/-- An integrity failure backs off, and gives up at the fifth attempt. -/
def retry (attempts : Nat) (error : String) (now : Instant) (g : ObjectGcCandidate) :
    ObjectGcCandidate :=
  { g with
    lastError := some (clip error)
    state := if 5 ≤ attempts then .failed else g.state
    completedAt := if 5 ≤ attempts then some now else g.completedAt
    notBefore := if 5 ≤ attempts then g.notBefore
      else now + seconds (min 3600 (30 * 2 ^ (attempts - 1))) }

def collect (now : Instant) (candidate : ObjectGcCandidate) : Tx GcOutcome := do
  let deleted ← deleteVerified env faults candidate.objectKey candidate.payloadSha256
  match deleted with
  | .error (.objectIntegrity e) => do
    Tables.candidates.update .staleData candidate.candidateId (retry (candidate.attempts + 1) e now)
    pure (if 5 ≤ candidate.attempts + 1 then .failed else .retry)
  | .error e => Txn.raise e
  | .ok true => do
    Tables.candidates.update .staleData candidate.candidateId (finish .deleted now)
    pure .deleted
  | .ok false => do
    Tables.candidates.update .staleData candidate.candidateId (finish .missing now)
    pure .missing

def runOnce (now : Instant) (skip : List Uuid) : Tx (Option GcOutcome) := do
  let rows ← Tables.candidates.selectForUpdate (eligible now) candidateBefore 1 skip
  match rows.head? with
  | none => pure none
  | some candidate => do
    Tables.candidates.update .staleData candidate.candidateId
      (fun g => { g with attempts := candidate.attempts + 1 })
    Txn.lock (.object candidate.objectKey)
    let scopes ← Integrity.objectReferenceScopes candidate.objectKey
    if scopes = [] then some <$> collect env faults now candidate
    else do
      Tables.candidates.update .staleData candidate.candidateId (finish .guarded now)
      pure (some .guarded)

/-- A pending candidate's object to which nothing refers. -/
def Collectable (c : Catalog) (key : ObjectKey) : Prop :=
  ¬Integrity.Referenced c key ∧ ∃ g ∈ c.candidates, g.objectKey = key ∧ g.state = .pending

inductive Collecting (c : Catalog) (w : ObjectStore) : Catalog → ObjectStore → Prop where
  | idle : Collecting c w c w
  | guarded {g : ObjectGcCandidate} {t : Table ObjectGcCandidate.candidateId}
      (href : Integrity.Referenced c g.objectKey) (ht : Moved c.candidates g .guarded t) :
      Collecting c w { c with candidates := t } w
  | failed {g : ObjectGcCandidate} {t : Table ObjectGcCandidate.candidateId}
      {state : CandidateState} {w' : ObjectStore} (href : ¬Integrity.Referenced c g.objectKey)
      (hs : state = .pending ∨ state = .failed) (ht : Moved c.candidates g state t)
      (hw : Deletes (Collectable c) w w') : Collecting c w { c with candidates := t } w'
  | collected {g : ObjectGcCandidate} {t : Table ObjectGcCandidate.candidateId}
      {state : CandidateState} {w' : ObjectStore} (href : ¬Integrity.Referenced c g.objectKey)
      (hs : state = .deleted ∨ state = .missing) (ht : Moved c.candidates g state t)
      (hw : Deletes (Collectable c) w w') (hnone : w' g.objectKey = none) :
      Collecting c w { c with candidates := t } w'

section spec

variable {env faults} {c : Catalog} {w : ObjectStore} {now : Instant}

/-- The candidates once an attempt has been counted on one of them. -/
def counted (g : ObjectGcCandidate) (c : Catalog) : Table ObjectGcCandidate.candidateId :=
  c.candidates.modify g.candidateId (fun x => { x with attempts := g.attempts + 1 }) (fun _ => rfl)

theorem moved_counted {g : ObjectGcCandidate} {f : ObjectGcCandidate → ObjectGcCandidate}
    {hf : ∀ r, (f r).candidateId = r.candidateId} {state : CandidateState} (hg : g ∈ c.candidates)
    (hkey : ∀ x, (f x).objectKey = x.objectKey) (hdigest : ∀ x, (f x).payloadSha256 = x.payloadSha256)
    (hstate : (f { g with attempts := g.attempts + 1 }).state = state) :
    Moved c.candidates g state ((counted g c).modify g.candidateId f hf) := by
  rw [counted, Table.modify_modify]
  exact moved_modify hg (hkey _) (hdigest _) hstate

theorem collect_spec {g : ObjectGcCandidate} (hg : g ∈ c.candidates) (hs : g.state = .pending)
    (href : ¬Integrity.Referenced c g.objectKey) :
    (collect env faults now g).wp (Deletes (Collectable c) w) (fun _ => True)
      (fun _ c' w' => Collecting c w c' w') { c with candidates := counted g c } w := by
  have hdel : Deletes (Collectable c) w
      (LocalObjectStore.deleteVerified env faults g.objectKey g.payloadSha256 w).2 := by
    intro x
    rcases @deleteVerified_deletes env faults g.objectKey g.payloadSha256 w x with h | ⟨rfl, h⟩
    · exact Or.inl h
    · exact Or.inr ⟨⟨href, g, hg, rfl, hs⟩, h⟩
  simp only [collect, Txn.wp_bind, wp_deleteVerified]
  refine ⟨hdel, ?_⟩
  split
  · simp only [Txn.wp_bind, Ref.wp_update, Txn.wp_pure, implies_true, true_and,
      Tables.candidates_put]
    refine fun _ _ => .failed href ?_ (moved_counted hg (fun _ => rfl) (fun _ => rfl) rfl) hdel
    by_cases h5 : 5 ≤ g.attempts + 1
    · exact Or.inr (if_pos h5)
    · exact Or.inl ((if_neg h5).trans hs)
  · trivial
  · next hd =>
    simp only [Txn.wp_bind, Ref.wp_update, Txn.wp_pure, implies_true, true_and,
      Tables.candidates_put]
    exact fun _ _ => .collected href (Or.inl rfl)
      (moved_counted hg (fun _ => rfl) (fun _ => rfl) rfl) hdel (LocalObjectStore.deleteVerified_ok hd)
  · next hd =>
    simp only [Txn.wp_bind, Ref.wp_update, Txn.wp_pure, implies_true, true_and,
      Tables.candidates_put]
    exact fun _ _ => .collected href (Or.inr rfl)
      (moved_counted hg (fun _ => rfl) (fun _ => rfl) rfl) hdel (LocalObjectStore.deleteVerified_ok hd)

theorem runOnce_spec {skip : List Uuid} :
    (runOnce env faults now skip).wp (Deletes (Collectable c) w) (fun _ => True)
      (fun _ c' w' => Collecting c w c' w') c w := by
  simp only [runOnce, Txn.wp_bind, Ref.wp_selectForUpdate]
  split
  · exact .idle
  · next g hg =>
    obtain ⟨hm, hp, _⟩ := Ref.mem_batch (List.mem_of_head? hg)
    simp only [eligible, Bool.and_eq_true, decide_eq_true_eq] at hp
    simp only [Txn.wp_bind, Ref.wp_update, Txn.wp_lock, implies_true, true_and,
      Tables.candidates_put]
    intro _ _
    refine Txn.wp_post Integrity.objectReferenceScopes_spec ?_
    rintro scopes _ _ ⟨hscopes, rfl, rfl⟩
    have href : scopes = [] ↔ ¬Integrity.Referenced c g.objectKey :=
      hscopes.trans (not_congr Integrity.referenced_candidates)
    simp only [Txn.wp_ite, Txn.wp_map, Txn.wp_bind, Ref.wp_update, Txn.wp_pure, implies_true,
      true_and, Tables.candidates_put]
    refine ⟨fun h => collect_spec hm hp.1 (href.mp h), fun h _ _ => ?_⟩
    refine .guarded (by_contra (fun hn => h (href.mpr hn))) ?_
    exact moved_counted hm (fun _ => rfl) (fun _ => rfl) rfl

end spec

end ObjectGcWorker

structure ObjectGcAuditWorker where
  gcGraceSeconds : Nat
  auditIntervalSeconds : Nat
  batchSize : Nat
  valid : (300 ≤ gcGraceSeconds ∧ gcGraceSeconds ≤ 604800) ∧
    (300 ≤ auditIntervalSeconds ∧ auditIntervalSeconds ≤ 604800) ∧
    (1 ≤ batchSize ∧ batchSize ≤ 10000)

namespace ObjectGcAuditWorker

variable (self : ObjectGcAuditWorker) (env : Env) (faults : Faults)

def eligible (now : Instant) (g : ObjectGcCandidate) : Bool :=
  (g.state = .guarded && g.notBefore ≤ now) ||
    (g.state = .failed && g.completedAt.any (fun t => t ≤ now - seconds self.auditIntervalSeconds))

def postpone (state : CandidateState) (error : Option String) (now : Instant)
    (g : ObjectGcCandidate) : ObjectGcCandidate :=
  { g with
    state := state
    lastError := error
    completedAt := some now
    notBefore := now + seconds self.auditIntervalSeconds }

def reclaim (now : Instant) (g : ObjectGcCandidate) : ObjectGcCandidate :=
  { g with
    state := .pending
    attempts := 0
    lastError := none
    completedAt := none
    notBefore := now + seconds self.gcGraceSeconds }

def reportLoss (now : Instant) (fresh : String × String → Uuid × Uuid) (referenced : Bool)
    (category : IncidentCategory) (error : String) (candidate : ObjectGcCandidate) : Tx Unit :=
  if referenced = true then
    Integrity.recordIntegrityIncidents candidate category error now fresh
  else pure ()

/-- The failure branches, for a candidate that is referenced or not. -/
def quarantine (now : Instant) (fresh : String × String → Uuid × Uuid) (referenced : Bool)
    (category : IncidentCategory) (error : String) (candidate : ObjectGcCandidate) : Tx Unit := do
  reportLoss now fresh referenced category error candidate
  Tables.candidates.update .staleData candidate.candidateId
    (self.postpone .failed (some error) now)

def audit (now : Instant) (fresh : Uuid → String × String → Uuid × Uuid)
    (candidate : ObjectGcCandidate) : Tx Unit := do
  Txn.lock (.object candidate.objectKey)
  let scopes ← Integrity.objectReferenceScopes candidate.objectKey
  let found ← existsVerified env faults candidate.objectKey candidate.payloadSha256
  match found with
  | .error (.objectIntegrity e) =>
    self.quarantine now (fresh candidate.candidateId) (scopes ≠ []) .corrupt
      (clip ("audit integrity failure: " ++ e)) candidate
  | .error e => Txn.raise e
  | .ok true =>
    if scopes = [] then
      Tables.candidates.update .staleData candidate.candidateId (self.reclaim now)
    else
      Tables.candidates.update .staleData candidate.candidateId (self.postpone .guarded none now)
  | .ok false =>
    if scopes = [] then
      Tables.candidates.update .staleData candidate.candidateId (ObjectGcWorker.finish .missing now)
    else
      self.quarantine now (fresh candidate.candidateId) true .missing
        "audit found a referenced object missing" candidate

/-- The value lists the states the candidates are left in. -/
def runOnce (now : Instant) (skip : List Uuid) (fresh : Uuid → String × String → Uuid × Uuid) :
    Tx (List CandidateState) := do
  let candidates ← Tables.candidates.selectForUpdate (self.eligible now) candidateBefore
    self.batchSize skip
  Txn.forEach candidates (self.audit env faults now fresh)
  Txn.read (fun c => candidates.filterMap (fun g =>
    (c.candidates.get g.candidateId).map ObjectGcCandidate.state))

inductive Auditing (w : ObjectStore) (g : ObjectGcCandidate) (c : Catalog) : Catalog → Prop where
  | kept {state : CandidateState} {t : Table ObjectGcCandidate.candidateId} {c' : Catalog}
      (hs : state = .failed ∨ state = .guarded ∨ state = .pending)
      (hn : Integrity.Annotated c c') (ht : Moved c.candidates g state t) :
      Auditing w g c { c' with candidates := t }
  | missing {t : Table ObjectGcCandidate.candidateId} (hw : w g.objectKey = none)
      (href : ¬Integrity.Referenced c g.objectKey) (ht : Moved c.candidates g .missing t) :
      Auditing w g c { c with candidates := t }

section spec

variable {self env faults} {c : Catalog} {w : ObjectStore} {A : ObjectStore → Prop} {now : Instant}

theorem quarantine_spec {fresh : String × String → Uuid × Uuid} {referenced : Bool}
    {category : IncidentCategory} {error : String} {g : ObjectGcCandidate}
    (hg : g ∈ c.candidates) :
    (self.quarantine now fresh referenced category error g).wp A (fun _ => True)
      (fun _ c' w' => Auditing w g c c' ∧ w' = w) c w := by
  have hreport : (reportLoss now fresh referenced category error g).wp A (fun _ => True)
      (fun _ c' w' => Integrity.Annotated c c' ∧ w' = w) c w := by
    simp only [reportLoss, Txn.wp_ite, Txn.wp_pure, and_true]
    exact ⟨fun _ => Integrity.recordIntegrityIncidents_spec, fun _ => .mk (List.Subset.refl _)⟩
  simp only [quarantine, Txn.wp_bind]
  refine Txn.wp_post hreport ?_
  rintro _ _ _ ⟨hn, rfl⟩
  simp only [Ref.wp_update, implies_true, true_and, and_true, Tables.candidates_put,
    Tables.candidates_view]
  intro _ _
  have ht : Moved c.candidates g .failed
      (c.candidates.modify g.candidateId (self.postpone .failed (some error) now) (fun _ => rfl)) :=
    moved_modify hg rfl rfl rfl
  obtain ⟨hi⟩ := hn
  exact .kept (Or.inl rfl) (.mk hi) ht

theorem audit_spec {fresh : Uuid → String × String → Uuid × Uuid} {g : ObjectGcCandidate}
    (hA : A w) (hg : g ∈ c.candidates) :
    (self.audit env faults now fresh g).wp A (fun _ => True)
      (fun _ c' w' => Auditing w g c c' ∧ w' = w) c w := by
  simp only [audit, Txn.wp_bind, Txn.wp_lock]
  refine Txn.wp_post Integrity.objectReferenceScopes_spec ?_
  rintro scopes _ _ ⟨hscopes, rfl, rfl⟩
  rw [wp_existsVerified]
  refine ⟨hA, ?_⟩
  split
  · exact quarantine_spec hg
  · trivial
  · simp only [Txn.wp_ite, Ref.wp_update, implies_true, true_and, and_true, Tables.candidates_put]
    exact ⟨fun _ _ _ => .kept (Or.inr (Or.inr rfl)) (.mk (List.Subset.refl _))
        (moved_modify hg rfl rfl rfl),
      fun _ _ _ => .kept (Or.inr (Or.inl rfl)) (.mk (List.Subset.refl _))
        (moved_modify hg rfl rfl rfl)⟩
  · next hfound =>
    simp only [Txn.wp_ite, Ref.wp_update, implies_true, true_and, Tables.candidates_put]
    exact ⟨fun h _ _ => ⟨.missing (LocalObjectStore.existsVerified_false hfound) (hscopes.mp h)
        (moved_modify hg rfl rfl rfl), trivial⟩, fun _ => quarantine_spec hg⟩

theorem Auditing.others {g : ObjectGcCandidate} {c' : Catalog} (h : Auditing w g c c') :
    ∀ x ∈ c.candidates, x.candidateId ≠ g.candidateId → x ∈ c'.candidates := by
  intro x hx hne
  have hxg : x ≠ g := fun he => hne (he ▸ rfl)
  cases h with
  | kept _ _ ht =>
    obtain ⟨_, _, _, _, _, _, hrows⟩ := ht
    exact (hrows x).mpr (Or.inl ⟨hx, hxg⟩)
  | missing _ _ ht =>
    obtain ⟨_, _, _, _, _, _, hrows⟩ := ht
    exact (hrows x).mpr (Or.inl ⟨hx, hxg⟩)

theorem runOnce_spec {skip : List Uuid} {fresh : Uuid → String × String → Uuid × Uuid} (hA : A w) :
    (self.runOnce env faults now skip fresh).wp A (fun _ => True)
      (fun _ c' w' => w' = w ∧ ∃ rows, Txn.Chain (fun g c c' => g ∈ c.candidates ∧
        Auditing w g c c') rows c c') c w := by
  simp only [runOnce, Txn.wp_bind, Ref.wp_selectForUpdate]
  refine Txn.wp_post (Ref.wp_forEach_rows (T := Tables.candidates)
    (R := fun g c c' => Auditing w g c c') Ref.batch_nodup
    (fun g hg => (Ref.mem_batch hg).1) (fun g c c' h => h.others)
    (fun g _ c hg => audit_spec hA hg)) ?_
  rintro _ c' w' ⟨hc, rfl⟩
  exact ⟨rfl, _, hc⟩

end spec

end ObjectGcAuditWorker

end RankLens
