import RankLens.Collection

namespace RankLens

structure WorkLease where
  outboxId : Uuid
  generation : Nat
  owner : String
deriving DecidableEq, Repr

-- The lease handling the two outbox workers share.
namespace Outbox

def leasable (event : EventType) (now : Instant) (r : OutboxRecord) : Bool :=
  r.eventType = event && (r.state = .pending ||
    (r.state = .processing && r.leaseExpiresAt.any (fun t => t < now)))

def before (a b : OutboxRecord) : Bool :=
  a.createdAt < b.createdAt || (a.createdAt = b.createdAt && a.outboxId ≤ b.outboxId)

def lease (loaded : OutboxRecord) (owner : String) (expiresAt : Instant) (r : OutboxRecord) :
    OutboxRecord :=
  { r with
    state := .processing
    leaseOwner := some owner
    leaseGeneration := loaded.leaseGeneration + 1
    leaseExpiresAt := some expiresAt
    attempts := loaded.attempts + 1
    lastError := none }

def claim (event : EventType) (owner : String) (leaseSeconds : Nat) (now : Instant)
    (skip : List Uuid) : Tx (Option WorkLease) := do
  let rows ← Tables.outbox.selectForUpdate (leasable event now) before 1 skip
  match rows.head? with
  | none => pure none
  | some record => do
    Tables.outbox.update .staleData record.outboxId (lease record owner (now + seconds leaseSeconds))
    pure (some ⟨record.outboxId, record.leaseGeneration + 1, owner⟩)

/-- The lease is the one the record was last claimed under. -/
def current (l : WorkLease) (r : OutboxRecord) : Bool :=
  r.state = .processing && r.leaseOwner = some l.owner && r.leaseGeneration = l.generation

/-- Leave a lease in a given state. -/
def close (state : OutboxState) (lastError : Option String) (r : OutboxRecord) : OutboxRecord :=
  { r with state := state, leaseOwner := none, leaseExpiresAt := none, lastError := lastError }

theorem completed_outboxId (r : OutboxRecord) :
    (close .completed none r).outboxId = r.outboxId := rfl

def fail (l : WorkLease) (message : String) : Tx Unit := do
  let outbox ← Tables.outbox.get l.outboxId
  match outbox with
  | none => pure ()
  | some outbox =>
    if outbox.leaseOwner = some l.owner ∧ outbox.leaseGeneration = l.generation then
      Tables.outbox.update .staleData l.outboxId
        (close (if 5 ≤ outbox.attempts then .failed else .pending) (some (clip message)))
    else pure ()

/-- The generation a piece of work was done for is still open. -/
def generationOpen (generation : Nat) (state : Option AttemptGeneration) : Bool :=
  state.any (fun s => s.deletedAt.isNone && s.generation = generation)

end Outbox

/-- What `OutboxWorker.execute` publishes, as its first session found it. -/
structure Publication where
  receiptId : Uuid
  tenantId : String
  clusterId : String
  attemptId : String
  recordCount : Nat
  payloadSha256 : String
  deletionGeneration : Nat
deriving DecidableEq, Repr

def Publication.attempt (p : Publication) : AttemptKey := ⟨p.tenantId, p.clusterId, p.attemptId⟩

/-- The statements the publishing session flushes when it commits. -/
inductive Flush where
  | segment
  | request
  | record
deriving DecidableEq, Repr

/-- An order the session can flush them in. -/
structure FlushOrder where
  steps : List Flush
  perm : steps.Perm [.segment, .request, .record]

theorem FlushOrder.nodup (order : FlushOrder) : order.steps.Nodup :=
  order.perm.nodup_iff.mpr (by decide)

theorem FlushOrder.mem (order : FlushOrder) (f : Flush) : f ∈ order.steps :=
  order.perm.mem_iff.mpr (by cases f <;> decide)

namespace OutboxWorker

variable (env : Env) (faults : Faults)

def normalizerVersion : String := "ndjson-v1"

def claim : String → Nat → Instant → List Uuid → Tx (Option WorkLease) :=
  Outbox.claim .segmentAdmitted

def fail : WorkLease → String → Tx Unit := Outbox.fail

def parseLines : List Bytes → Except Failure Nat
  | [] => .ok 0
  | line :: lines =>
    if blank line then parseLines lines
    else
      match env.loads line with
      | .undecodable message => .error (.value message)
      | .other => .error (.value "normalized NDJSON record must be an object")
      | .escapes message => .error (.value message)
      | .object => do
        let records ← parseLines lines
        pure (records + 1)

def parsePayload (payload : Bytes) (expectedRecords : Nat) : Except Failure Nat :=
  match parseLines env (splitlines [] payload) with
  | .error e => .error e
  | .ok count =>
    if count ≠ expectedRecords then
      .error (.value "normalized record count differs from admitted manifest")
    else .ok count

def publication (m : SegmentManifest) (recordCount : Nat) : Publication where
  receiptId := m.receiptId
  tenantId := m.tenantId
  clusterId := m.clusterId
  attemptId := m.attemptId
  recordCount := recordCount
  payloadSha256 := m.payloadSha256
  deletionGeneration := m.deletionGeneration

def aggregateManifest : Aggregate → Tx (Option SegmentManifest)
  | .receipt id => Tables.manifests.get id
  | .attempt _ => pure none

/-- The first session of `execute`. -/
def read (l : WorkLease) : Tx (Option Publication) := do
  let outbox ← Tables.outbox.get l.outboxId
  match outbox with
  | none => pure none
  | some outbox => do
    let manifest ← aggregateManifest outbox.aggregateId
    match manifest with
    | none => Txn.raise (.value "outbox references a missing manifest")
    | some manifest => do
      let found ← readVerified env faults manifest.objectKey manifest.payloadSha256
      let payload ← orRaise found
      let recordCount ← orRaise (parsePayload env payload manifest.recordCount)
      pure (some (publication manifest recordCount))

def newNormalized (p : Publication) (now : Instant) : NormalizedSegment where
  receiptId := p.receiptId
  tenantId := p.tenantId
  attemptId := p.attemptId
  recordCount := p.recordCount
  payloadSha256 := p.payloadSha256
  normalizerVersion := normalizerVersion
  normalizedAt := now

def newRequest (p : Publication) (id : Uuid) (now : Instant) : OutboxRecord where
  outboxId := id
  tenantId := p.tenantId
  eventType := .reportRequested
  aggregateId := .attempt p.attemptId
  payloadJson := .reportRequested p.clusterId p.attemptId p.deletionGeneration
  state := .pending
  attempts := 0
  leaseOwner := none
  leaseGeneration := 0
  leaseExpiresAt := none
  lastError := none
  createdAt := now

def flush (l : WorkLease) (p : Publication) (id : Uuid) (now : Instant) : Flush → Tx Unit
  | .segment => Tables.normalized.insert .integrity (newNormalized p now)
  | .request => Tables.outbox.insert .integrity (newRequest p id now)
  | .record => Tables.outbox.update .staleData l.outboxId (Outbox.close .completed none)

def superseded : String := "attempt deletion generation changed"

theorem superseded_outboxId (r : OutboxRecord) :
    (Outbox.close .suppressed (some superseded) r).outboxId = r.outboxId := rfl

/-- The second session of `execute`, which takes no advisory lock. -/
def publish (l : WorkLease) (p : Publication) (fresh : Uuid) (order : FlushOrder)
    (now : Instant) : Tx Bool := do
  let outbox ← Tables.outbox.get l.outboxId
  if outbox.any (Outbox.current l) = true then do
    let state ← Tables.generations.get p.attempt
    if Outbox.generationOpen p.deletionGeneration state = true then do
      let existing ← Tables.normalized.get p.receiptId
      match existing with
      | none => do
        let id ← uuid4 fresh
        Txn.forEach order.steps (flush l p id now)
        pure true
      | some existing => do
        Txn.raiseIf (existing.payloadSha256 ≠ p.payloadSha256)
          (.value "normalized receipt digest conflict")
        Tables.outbox.update .staleData l.outboxId (Outbox.close .completed none)
        pure true
    else do
      Tables.outbox.update .staleData l.outboxId (Outbox.close .suppressed (some superseded))
      pure false
  else pure false

end OutboxWorker

namespace Outbox

inductive Leasing (event : EventType) (owner : String) (expiresAt now : Instant)
    (t : Table OutboxRecord.outboxId) : Option WorkLease → Table OutboxRecord.outboxId → Prop where
  | none : Leasing event owner expiresAt now t none t
  | leased {r : OutboxRecord} (hr : r ∈ t) (hl : leasable event now r = true) :
      Leasing event owner expiresAt now t (some ⟨r.outboxId, r.leaseGeneration + 1, owner⟩)
        (t.modify r.outboxId (lease r owner expiresAt) (fun _ => rfl))

inductive Failing (l : WorkLease) (message : String) (t : Table OutboxRecord.outboxId) :
    Table OutboxRecord.outboxId → Prop where
  | stale (h : ∀ r, t.get l.outboxId = some r →
      ¬(r.leaseOwner = some l.owner ∧ r.leaseGeneration = l.generation)) : Failing l message t t
  | failed {r : OutboxRecord} (hget : t.get l.outboxId = some r)
      (howner : r.leaseOwner = some l.owner) (hg : r.leaseGeneration = l.generation) :
      Failing l message t (t.modify l.outboxId
        (close (if 5 ≤ r.attempts then .failed else .pending) (some (clip message)))
        (fun _ => rfl))

section spec

variable {c : Catalog} {w : ObjectStore} {A : ObjectStore → Prop}

theorem claim_spec {event : EventType} {owner : String} {leaseSeconds : Nat} {now : Instant}
    {skip : List Uuid} :
    (claim event owner leaseSeconds now skip).wp A (fun _ => True) (fun l c' w' => (∃ t,
      Leasing event owner (now + seconds leaseSeconds) now c.outbox l t ∧
        c' = { c with outbox := t }) ∧ w' = w) c w := by
  simp only [claim, Txn.wp_bind, Ref.wp_selectForUpdate]
  split
  · exact ⟨⟨_, .none, rfl⟩, rfl⟩
  · next r hr =>
    obtain ⟨hm, hl, _⟩ := Ref.mem_batch (List.mem_of_head? hr)
    simp only [Txn.wp_bind, Ref.wp_update, Txn.wp_pure, implies_true, true_and, and_true,
      Tables.outbox_put, Tables.outbox_view]
    exact fun _ _ => ⟨_, .leased hm hl, rfl⟩

theorem fail_spec {l : WorkLease} {message : String} :
    (fail l message).wp A (fun _ => True) (fun _ c' w' => (∃ t,
      Failing l message c.outbox t ∧ c' = { c with outbox := t }) ∧ w' = w) c w := by
  simp only [fail, Txn.wp_bind, Ref.wp_get, Tables.outbox_view]
  split
  · next hget =>
    refine ⟨⟨_, .stale (fun r hr => ?_), rfl⟩, rfl⟩
    rw [hget] at hr
    cases hr
  · next r hget =>
    simp only [Txn.wp_ite, Ref.wp_update, Txn.wp_pure, implies_true, true_and, and_true,
      Tables.outbox_put, Tables.outbox_view]
    refine ⟨fun h _ _ => ⟨_, .failed hget h.1 h.2, rfl⟩, fun h => ⟨_, .stale (fun x hx => ?_), rfl⟩⟩
    rw [hget] at hx
    cases hx
    exact h

end spec

end Outbox

namespace OutboxWorker

/-- The outbox with some of the statements of a publication flushed. -/
def Flushed (l : WorkLease) (p : Publication) (id : Uuid) (now : Instant) (r : OutboxRecord)
    (done : List Flush) (t t' : Table OutboxRecord.outboxId) : Prop :=
  (.request ∈ done → id ≠ l.outboxId) ∧ ∀ x, x ∈ t' ↔ (x ∈ t ∧ (.record ∈ done → x ≠ r)) ∨
    (.record ∈ done ∧ x = Outbox.close .completed none r) ∨
      (.request ∈ done ∧ x = newRequest p id now)

inductive Normalizing (l : WorkLease) (p : Publication) (fresh : Uuid) (now : Instant)
    (c : Catalog) : Bool → Catalog → Prop where
  | stale (h : (c.outbox.get l.outboxId).any (Outbox.current l) = false) :
      Normalizing l p fresh now c false c
  | suppressed {r : OutboxRecord} (hget : c.outbox.get l.outboxId = some r)
      (hcur : Outbox.current l r = true)
      (hclosed : Outbox.generationOpen p.deletionGeneration (c.generations.get p.attempt) = false) :
      Normalizing l p fresh now c false { c with
        outbox := c.outbox.modify l.outboxId (Outbox.close .suppressed (some superseded))
          (fun _ => rfl) }
  | known {r : OutboxRecord} {n : NormalizedSegment} (hget : c.outbox.get l.outboxId = some r)
      (hcur : Outbox.current l r = true)
      (hopen : Outbox.generationOpen p.deletionGeneration (c.generations.get p.attempt) = true)
      (hn : c.normalized.get p.receiptId = some n) (hd : n.payloadSha256 = p.payloadSha256) :
      Normalizing l p fresh now c true { c with
        outbox := c.outbox.modify l.outboxId (Outbox.close .completed none) (fun _ => rfl) }
  | normalized {r : OutboxRecord} {outbox : Table OutboxRecord.outboxId}
      (hget : c.outbox.get l.outboxId = some r) (hcur : Outbox.current l r = true)
      (hopen : Outbox.generationOpen p.deletionGeneration (c.generations.get p.attempt) = true)
      (hnone : c.normalized.get p.receiptId = none) (hi : fresh ∉ c.issued)
      (hrows : ∀ x, x ∈ outbox ↔ (x ∈ c.outbox ∧ x ≠ r) ∨ x = Outbox.close .completed none r ∨
        x = newRequest p fresh now) :
      Normalizing l p fresh now c true { c with
        outbox := outbox
        normalized := c.normalized.insert (newNormalized p now)
        issued := fresh :: c.issued }

section spec

variable {c : Catalog} {w : ObjectStore} {A : ObjectStore → Prop} {l : WorkLease}
  {p : Publication} {fresh : Uuid} {now : Instant}

theorem parsePayload_ok {env : Env} {payload : Bytes} {expected count : Nat}
    (h : parsePayload env payload expected = .ok count) : count = expected := by
  unfold parsePayload at h
  split at h
  · cases h
  · split at h
    · cases h
    · next hcount =>
      cases h
      exact not_not.mp hcount

theorem read_spec {env : Env} {faults : Faults} : (read env faults l).wp (fun _ => True) (fun _ => True)
    (fun a _ _ => ∀ p, a = some p → ∃ r x, c.outbox.get l.outboxId = some r ∧ x ∈ c.manifests ∧
      r.aggregateId = .receipt x.receiptId ∧ p = publication x x.recordCount) c w := by
  simp only [read, Txn.wp_bind, Ref.wp_get, Tables.outbox_view]
  split
  · exact fun p hp => nomatch hp
  · next r hget =>
    rw [Txn.wp_bind]
    cases hagg : r.aggregateId with
    | attempt id => trivial
    | receipt id =>
      simp only [aggregateManifest, Ref.wp_get, Tables.manifests_view]
      split
      · trivial
      · next x hx =>
        simp only [Txn.wp_bind, wp_readVerified, wp_orRaise, Txn.wp_pure, implies_true, true_and,
          Option.some.injEq]
        rintro payload _ count hcount p rfl
        obtain rfl := parsePayload_ok hcount
        obtain rfl : x.receiptId = id := Table.key_of_get hx
        exact ⟨r, x, hget, Table.mem_of_get hx, hagg, rfl⟩

theorem flush_spec {r : OutboxRecord} {done : List Flush} {f : Flush}
    {t : Table OutboxRecord.outboxId} (hget : c.outbox.get l.outboxId = some r) (hf : f ∉ done)
    (ht : Flushed l p fresh now r done c.outbox t) :
    (flush l p fresh now f).wp A (fun _ => True) (fun _ c' w' => (∃ t',
      Flushed l p fresh now r (done ++ [f]) c.outbox t' ∧ c' = { c with
        outbox := t'
        normalized := if .segment ∈ done ++ [f] then c.normalized.insert (newNormalized p now)
          else c.normalized
        issued := fresh :: c.issued }) ∧ w' = w)
      { c with
        outbox := t
        normalized := if .segment ∈ done then c.normalized.insert (newNormalized p now)
          else c.normalized
        issued := fresh :: c.issued } w := by
  have hr := Table.mem_of_get hget
  have hk := Table.key_of_get hget
  obtain ⟨hid, ht⟩ := ht
  cases f with
  | segment =>
    simp only [flush, Ref.wp_insert, Tables.normalized_put, Tables.normalized_view, implies_true,
      true_and, and_true]
    refine fun _ => ⟨t, ⟨fun h => hid (by simpa using h), fun x => ?_⟩, ?_⟩
    · rw [ht x]
      simp
    · simp [hf]
  | request =>
    simp only [flush, Ref.wp_insert, Tables.outbox_put, Tables.outbox_view, implies_true,
      true_and, and_true]
    intro hfree
    have hnew : t.get (newRequest p fresh now).outboxId = none := (Ref.taken_eq_false.mp hfree).1
    have hmem : ∃ x ∈ t, x.outboxId = l.outboxId := by
      by_cases hrec : Flush.record ∈ done
      · exact ⟨_, (ht _).mpr (Or.inr (Or.inl ⟨hrec, rfl⟩)), hk⟩
      · exact ⟨r, (ht r).mpr (Or.inl ⟨hr, fun h => absurd h hrec⟩), hk⟩
    refine ⟨t.insert (newRequest p fresh now), ⟨fun _ hl => ?_, fun x => ?_⟩, ?_⟩
    · obtain ⟨x, hx, hxk⟩ := hmem
      exact Table.get_eq_none.mp hnew x hx (hxk.trans hl.symm)
    · rw [Table.mem_insert hnew, ht x]
      simp [hf, or_assoc]
    · simp
  | record =>
    simp only [flush, Ref.wp_update, Tables.outbox_put, Tables.outbox_view, implies_true,
      true_and, and_true]
    have hmem : r ∈ t := (ht r).mpr (Or.inl ⟨hr, fun h => absurd h hf⟩)
    refine fun x hx => ⟨t.modify l.outboxId (Outbox.close .completed none) (fun _ => rfl),
      ⟨fun h => hid (by simpa using h), fun y => ?_⟩, ?_⟩
    · have hne : Flush.request ∈ done → newRequest p fresh now ≠ r :=
        fun h he => hid h (hk ▸ congrArg OutboxRecord.outboxId he)
      have hmod : y ∈ t.modify l.outboxId (Outbox.close .completed none) (fun _ => rfl) ↔
          (y ∈ t ∧ y ≠ r) ∨ y = Outbox.close .completed none r := by
        rw [← hk]
        exact Table.mem_modify_of_mem hmem
      rw [hmod, ht y]
      simp only [List.mem_append, List.mem_singleton, hf, false_or, or_true, true_and,
        forall_const, reduceCtorEq, or_false, false_and, IsEmpty.forall_iff, and_true]
      constructor
      · rintro (⟨hy | ⟨hreq, rfl⟩, hyr⟩ | hy)
        · exact Or.inl ⟨hy, hyr⟩
        · exact Or.inr (Or.inr ⟨hreq, rfl⟩)
        · exact Or.inr (Or.inl hy)
      · rintro (⟨hy, hyr⟩ | hy | ⟨hreq, rfl⟩)
        · exact Or.inl ⟨Or.inl hy, hyr⟩
        · exact Or.inr hy
        · exact Or.inl ⟨Or.inr ⟨hreq, rfl⟩, hne hreq⟩
    · simp

theorem publish_spec {order : FlushOrder} :
    (publish l p fresh order now).wp A (fun _ => True)
      (fun b c' w' => Normalizing l p fresh now c b c' ∧ w' = w) c w := by
  simp only [publish, Txn.wp_bind, Txn.wp_ite, Ref.wp_get, Ref.wp_update, Txn.wp_pure, implies_true,
    true_and, and_true, Tables.outbox_put, Tables.outbox_view, Tables.generations_view,
    Tables.normalized_view]
  refine ⟨fun hlease => ?_, fun hlease => .stale (by simpa using hlease)⟩
  obtain ⟨r, hget, hcur⟩ := (Option.any_eq_true _ _).mp hlease
  refine ⟨fun hopen => ?_, fun hclosed _ _ => .suppressed hget hcur (by simpa using hclosed)⟩
  split
  · next hnone =>
    simp only [Txn.wp_bind, wp_uuid4, implies_true, true_and, Txn.wp_pure]
    intro hi
    refine Txn.wp_post (Txn.wp_forEach (fun (done : List Flush) c' w' => (∃ t,
      Flushed l p fresh now r done c.outbox t ∧ c' = { c with
        outbox := t
        normalized := if .segment ∈ done then c.normalized.insert (newNormalized p now)
          else c.normalized
        issued := fresh :: c.issued }) ∧ w' = w) ?_ ?_) ?_
    · exact ⟨⟨c.outbox, ⟨fun h => absurd h List.not_mem_nil, fun x => by simp⟩, by simp⟩, rfl⟩
    · rintro done f rest c' w' hsteps ⟨⟨t, ht, rfl⟩, rfl⟩
      refine flush_spec hget (fun hf => ?_) ht
      have hnodup := order.nodup
      rw [hsteps] at hnodup
      exact (List.nodup_append.mp hnodup).2.2 f hf f List.mem_cons_self rfl
    · rintro _ _ _ ⟨⟨t, ⟨_, ht⟩, rfl⟩, rfl⟩
      rw [if_pos (order.mem _)]
      refine ⟨.normalized hget hcur hopen hnone hi (fun x => ?_), rfl⟩
      rw [ht x]
      simp [order.mem]
  · next n hn =>
    simp only [Txn.wp_bind, Txn.wp_raiseIf, Ref.wp_update, Txn.wp_pure, implies_true, true_and,
      and_true, not_not, Tables.outbox_put]
    exact fun hd _ _ => .known hget hcur hopen hn hd

end spec

end OutboxWorker

end RankLens
