import RankLens.Evidence

namespace RankLens

open Interleaving (Ending)
open IngestionService (Flight newRecord selectPolicy admitAgain setRetention newItem)

/-- The attempt records, the retention policies with what was done under them, and the
scheduler observations are the same. -/
@[mk_iff] structure SameLedger (c c' : Catalog) : Prop where
  records : c'.records = c.records
  policies : c'.policies = c.policies
  cancellations : c'.cancellations = c.cancellations
  backfillItems : c'.backfillItems = c.backfillItems
  observations : c'.observations = c.observations

theorem SameLedger.refl (c : Catalog) : SameLedger c c := ⟨rfl, rfl, rfl, rfl, rfl⟩

theorem SameLedger.trans {c c' c'' : Catalog} (h : SameLedger c c') (h' : SameLedger c' c'') :
    SameLedger c c'' where
  records := h'.records.trans h.records
  policies := h'.policies.trans h.policies
  cancellations := h'.cancellations.trans h.cancellations
  backfillItems := h'.backfillItems.trans h.backfillItems
  observations := h'.observations.trans h.observations

namespace IngestionService

variable {env : Env} {settings : IngestionSettings} {c c' : Catalog} {w : ObjectStore}
  {A : ObjectStore → Prop}

/-- What the admission of a segment does to the records. -/
inductive Recorded (settings : IngestionSettings) (tenantId : String) (segment : SegmentUpload)
    (committedAt : Instant) (c : Catalog) : Table AttemptRecord.attempt → Prop where
  | first (h : c.records.get (segment.attempt tenantId) = none) :
      Recorded settings tenantId segment committedAt c (c.records.insert
        (newRecord settings tenantId segment committedAt
          (selectPolicy tenantId segment committedAt c)))
  | again {r : AttemptRecord} (h : c.records.get (segment.attempt tenantId) = some r) :
      Recorded settings tenantId segment committedAt c
        (c.records.modify r.attempt (admitAgain segment committedAt r) (fun _ => rfl))

theorem recordAdmission_ledger {tenantId : String} {segment : SegmentUpload}
    {committedAt : Instant} :
    (recordAdmission settings tenantId segment committedAt).wp A (fun _ => True)
      (fun _ c' _ => ∃ records, Recorded settings tenantId segment committedAt c records ∧
        c' = { c with records := records }) c w := by
  simp only [recordAdmission, Txn.wp_bind, Ref.wp_get, Tables.records_view]
  split
  · next hnone =>
    simp only [Txn.wp_bind, Txn.wp_read, Ref.wp_insert, Tables.records_put]
    exact ⟨fun _ => trivial, fun _ => ⟨_, .first hnone, rfl⟩⟩
  · next hsome =>
    simp only [bindField, Txn.wp_bind, Txn.wp_raiseIf, Ref.wp_updateUnique, Tables.records_put,
      implies_true, true_and]
    exact fun _ _ _ _ _ _ => ⟨_, .again hsome, rfl⟩

/-- The admission of a segment changes the records only, or nothing of the ledger. -/
def Admits (settings : IngestionSettings) (f : Flight) (committedAt : Instant) (c c' : Catalog) :
    Prop :=
  SameLedger c c' ∨ Recorded settings f.principal.tenantId f.segment committedAt c c'.records ∧
    c'.policies = c.policies ∧ c'.cancellations = c.cancellations ∧
    c'.backfillItems = c.backfillItems ∧ c'.observations = c.observations

theorem Recorded.congr {tenantId : String} {segment : SegmentUpload} {committedAt : Instant}
    {records : Table AttemptRecord.attempt}
    (h : Recorded settings tenantId segment committedAt c' records) (hc : SameLedger c c') :
    Recorded settings tenantId segment committedAt c records := by
  obtain ⟨hr, hp, hx, _, _⟩ := hc
  have hpolicy : selectPolicy tenantId segment committedAt c' =
      selectPolicy tenantId segment committedAt c := by
    simp only [selectPolicy, hp, hx]
  cases h with
  | first hnone =>
    rw [hpolicy, hr]
    exact .first (hr ▸ hnone)
  | again hsome =>
    rw [hr]
    exact .again (hr ▸ hsome)

theorem addManifest_ledger {f : Flight} {r : AdmissionReservation} {g : Nat}
    {freshReceipt freshOutbox : Uuid} {committedAt : Instant} (hc : SameLedger c c') :
    (addManifest settings f r g freshReceipt freshOutbox committedAt).wp A (fun _ => True)
      (fun _ c'' _ => Admits settings f committedAt c c'') c' w := by
  simp only [addManifest, Txn.wp_bind, wp_uuid4, Ref.wp_insert, implies_true, true_and]
  intro _ _
  refine Txn.wp_post recordAdmission_ledger ?_
  rintro _ _ _ ⟨records, hrecords, rfl⟩
  simp only [Ref.wp_update, Txn.wp_pure, implies_true, true_and]
  intro _ _ _ _
  refine Or.inr ⟨?_, hc.policies, hc.cancellations, hc.backfillItems, hc.observations⟩
  exact hrecords.congr (hc.trans ⟨rfl, rfl, rfl, rfl, rfl⟩)

theorem Recorded.get_self {tenantId : String} {segment : SegmentUpload} {committedAt : Instant}
    {records : Table AttemptRecord.attempt}
    (h : Recorded settings tenantId segment committedAt c records) :
    (c.records.get (segment.attempt tenantId) = none ∧
      records.get (segment.attempt tenantId) = some (newRecord settings tenantId segment committedAt
        (selectPolicy tenantId segment committedAt c))) ∨
    ∃ r, c.records.get (segment.attempt tenantId) = some r ∧
      records.get (segment.attempt tenantId) = some (admitAgain segment committedAt r r) := by
  cases h with
  | first h => exact Or.inl ⟨h, (Table.get_insert h).trans (if_pos rfl)⟩
  | @again r h =>
    have hk := Table.key_of_get h
    refine Or.inr ⟨r, h, ?_⟩
    rw [hk]
    exact Table.get_modify_self h

theorem Recorded.get_other {tenantId : String} {segment : SegmentUpload} {committedAt : Instant}
    {records : Table AttemptRecord.attempt} {k : AttemptKey}
    (h : Recorded settings tenantId segment committedAt c records)
    (hk : segment.attempt tenantId ≠ k) : records.get k = c.records.get k := by
  cases h with
  | first h => exact (Table.get_insert h).trans (if_neg hk)
  | again h =>
    refine (Table.get_modify ..).trans (if_neg ?_)
    rw [Table.key_of_get h]
    exact fun he => hk he.symm

theorem admitCommit_ledger {faults : Faults} {f : Flight} {freshReceipt freshOutbox : Uuid}
    {committedAt : Instant} :
    (admitCommit env settings faults f freshReceipt freshOutbox committedAt).wp (fun _ => True)
      (fun _ => True) (fun _ c' _ => Admits settings f committedAt c c') c w := by
  simp only [admitCommit, lockAdmission, Txn.wp_bind, Txn.wp_lock]
  refine Txn.wp_post (currentGeneration_spec (fun _ _ => trivial)) ?_
  rintro g _ _ ⟨_, gens, _, rfl⟩
  simp only [Ref.wp_get, Tables.reservations_view]
  split
  · trivial
  · simp only [Txn.wp_bind, Txn.wp_raiseIf, implies_true, true_and, Txn.wp_ite]
    refine fun _ => ⟨fun _ => by simp, fun _ => ?_⟩
    simp only [wp_existsVerified, wp_orRaise, Ref.wp_select, implies_true, true_and]
    intro _ _ _
    split
    · simp only [Txn.wp_ite, Txn.wp_bind, Ref.wp_update, Txn.wp_pure, implies_true, true_and,
        Txn.wp_raise, and_true]
      exact fun _ _ _ => Or.inl ⟨rfl, rfl, rfl, rfl, rfl⟩
    · exact addManifest_ledger ⟨rfl, rfl, rfl, rfl, rfl⟩

def Created (p : RetentionPolicyRevision) (c c' : Catalog) : Prop :=
  c.policies.get p.policy = none ∧ c' = { c with policies := c.policies.insert p }

theorem createRetentionPolicyRevision_ledger {tenantId clusterId : String} {retentionSeconds : Nat}
    {credentialId : String} {effectiveAt : Option Instant} {logicalCaseId : Option String}
    {now : Instant} :
    (createRetentionPolicyRevision tenantId clusterId retentionSeconds credentialId effectiveAt
      logicalCaseId now).wp A (fun _ => True) (fun p c' _ => Created p c c') c w := by
  simp only [createRetentionPolicyRevision, Txn.wp_bind, Txn.wp_raiseIf, Txn.wp_lock, Ref.wp_select,
    Ref.wp_insert, Txn.wp_pure, implies_true, true_and]
  exact fun _ _ _ _ _ hfree => ⟨(Ref.taken_eq_false.mp hfree).1, rfl⟩

/-- A cancellation is added to a revision that is not effective yet, or found. -/
inductive Cancelling (k : PolicyKey) (now : Instant) (c : Catalog) : Catalog → Prop where
  | found : Cancelling k now c c
  | added {p : RetentionPolicyRevision} {x : RetentionPolicyCancellation}
      (hp : c.policies.get k = some p) (hnow : now < p.effectiveAt)
      (hnone : c.cancellations.get k = none) (hx : x.policy = k) :
      Cancelling k now c { c with cancellations := c.cancellations.insert x }

theorem cancelRetentionPolicyRevision_ledger {k : PolicyKey} {reason credentialId : String}
    {now : Instant} :
    (cancelRetentionPolicyRevision k reason credentialId now).wp A (fun _ => True)
      (fun _ c' _ => Cancelling k now c c') c w := by
  simp only [cancelRetentionPolicyRevision, Txn.wp_bind, Txn.wp_raiseIf, Txn.wp_lock, Ref.wp_get,
    implies_true, true_and]
  intro _ _
  split
  · trivial
  · next p hp =>
    simp only [Txn.wp_bind, Ref.wp_get]
    split
    · simp only [Txn.wp_bind, Txn.wp_raiseIf, Txn.wp_pure, implies_true, true_and]
      exact fun _ => .found
    · next hnone =>
      simp only [Txn.wp_bind, Txn.wp_raiseIf, Ref.wp_insert, Txn.wp_pure, implies_true, true_and]
      intro hdue _
      refine .added hp ?_ hnone rfl
      simpa [retentionDeadlineIsDue] using hdue

/-- What a decision is taken from: an effective revision, and records of its scope. -/
structure Decided (q : BackfillRequest) (now : Instant) (c : Catalog) (plan : BackfillPlan) : Prop where
  policy : c.policies.get ⟨q.tenantId, q.clusterId, q.policyVersion⟩ = some plan.policy
  live : c.cancellations.get ⟨q.tenantId, q.clusterId, q.policyVersion⟩ = none
  effective : plan.policy.effectiveAt ≤ now
  nodup : (plan.attempts.map AttemptRecord.attempt).Nodup
  records : ∀ r ∈ plan.attempts, r ∈ c.records
  scope : ∀ r ∈ plan.attempts, r.tenantId = q.tenantId ∧ r.clusterId = q.clusterId ∧
    r.retentionPolicyVersion = q.sourcePolicyVersion ∧
    (plan.policy.logicalCaseId = none ∨ r.logicalCaseId = plan.policy.logicalCaseId)

theorem checkSource_wp {q : BackfillRequest} {p : RetentionPolicyRevision} {w : ObjectStore} :
    (checkSource q p).wp A (fun _ => True) (fun _ c' _ => c' = c) c w := by
  simp only [checkSource, Txn.wp_bind, Txn.wp_raiseIf, implies_true, true_and]
  intro _
  split
  · simp only [Txn.wp_bind, Txn.wp_raiseIf, Ref.wp_get, implies_true, true_and]
    intro _
    split <;> simp
  · simp

theorem loaded_eq {loaded rows : List AttemptRecord} (hl : ∀ l ∈ loaded, l ∈ c.records)
    (hr : ∀ r ∈ rows, r ∈ c.records) :
    rows.map (fun r => (loaded.find? (fun l => l.attempt = r.attempt)).getD r) = rows := by
  refine (List.map_congr_left (fun r hmem => ?_)).trans (List.map_id rows)
  cases h : loaded.find? (fun l => l.attempt = r.attempt) with
  | none => rfl
  | some l =>
    have hk : l.attempt = r.attempt := by simpa using List.find?_some h
    exact Table.eq_of_key (hl l (List.mem_of_find?_eq_some h)) (hr r hmem) hk

theorem retentionBackfillDecision_wp {q : BackfillRequest} {now : Instant}
    {loaded : List AttemptRecord} (hl : ∀ l ∈ loaded, l ∈ c.records) :
    (retentionBackfillDecision env q now loaded).wp A (fun _ => True)
      (fun plan c' _ => c' = c ∧ Decided q now c plan) c w := by
  simp only [retentionBackfillDecision, retentionBackfillPolicy, Txn.wp_bind, Txn.wp_raiseIf,
    Ref.wp_get, implies_true, true_and]
  intro _
  split
  · trivial
  · next p hp =>
    simp only [Txn.wp_bind, Txn.wp_raiseIf, Ref.wp_get, Txn.wp_pure, implies_true, true_and]
    intro hlive hdue
    refine Txn.wp_post checkSource_wp ?_
    intro _ c' _ hc
    subst c'
    simp only [retentionBackfillCandidates, Txn.wp_bind, Txn.wp_read, Txn.wp_raiseIf, Txn.wp_pure,
      implies_true, true_and]
    intro _
    have hrows : ∀ r ∈ ((c.records.select (fun r =>
        r.tenantId = q.tenantId && r.clusterId = q.clusterId &&
          (c.deletions.get r.attempt).isNone && r.retentionPolicyVersion = q.sourcePolicyVersion &&
          (p.logicalCaseId.isNone || r.logicalCaseId = p.logicalCaseId))).insertionSort
        (fun a b => a.attemptId ≤ b.attemptId)).take (q.maxAttempts + 1).toNat,
        r ∈ c.records ∧ r.tenantId = q.tenantId ∧ r.clusterId = q.clusterId ∧
          r.retentionPolicyVersion = q.sourcePolicyVersion ∧
          (p.logicalCaseId = none ∨ r.logicalCaseId = p.logicalCaseId) := by
      intro r hr
      have hmem := (List.perm_insertionSort _ _).mem_iff.mp (List.mem_of_mem_take hr)
      obtain ⟨hmem, hc⟩ := Table.mem_select.mp hmem
      simp only [Bool.and_eq_true, Bool.or_eq_true, decide_eq_true_eq, Option.isNone_iff_eq_none]
        at hc
      obtain ⟨⟨⟨⟨ht, hcl⟩, _⟩, hv⟩, hscope⟩ := hc
      exact ⟨hmem, ht, hcl, hv, hscope⟩
    rw [loaded_eq hl (fun r hr => (hrows r hr).1)]
    refine ⟨hp, by simpa using hlive, ?_, ?_, fun r hr => (hrows r hr).1,
      fun r hr => (hrows r hr).2⟩
    · simpa [retentionDeadlineIsDue] using hdue
    · refine List.Nodup.sublist ((List.take_sublist _ _).map _) ?_
      refine ((List.perm_insertionSort _ _).map _).nodup_iff.mpr ?_
      exact c.records.nodup.sublist (List.filter_sublist.map _)

def Backfilled (id : Uuid) (p : RetentionPolicyRevision) (r : AttemptRecord) (c c' : Catalog) :
    Prop :=
  c.backfillItems.get (id, r.attemptId) = none ∧ c' = { c with
    backfillItems := c.backfillItems.insert (newItem id p r)
    records := c.records.modify r.attempt (setRetention p r) (fun _ => rfl) }

/-- A backfill takes the attempts of one decision, one after the other. -/
inductive Migrating (q : BackfillRequest) (now : Instant) (c c' : Catalog) : Prop where
  | mk {plan : BackfillPlan} {id : Uuid} {c₁ c₂ : Catalog} (hd : Decided q now c plan)
      (h₁ : SameLedger c c₁)
      (h : Txn.Chain (fun r c c' => r ∈ c.records ∧ Backfilled id plan.policy r c c')
        plan.attempts c₁ c₂)
      (h₂ : SameLedger c₂ c')

theorem applyRetentionPolicyBackfill_ledger {q : BackfillRequest}
    {expectedEligible expectedDue : Int} {expectedDigest credentialId : String} {fresh : Uuid}
    {now : Instant} :
    (applyRetentionPolicyBackfill env q expectedEligible expectedDue expectedDigest credentialId
      fresh now).wp (fun _ => True) (fun _ => True) (fun _ c' _ => Migrating q now c c') c w := by
  simp only [applyRetentionPolicyBackfill, Txn.wp_bind, Txn.wp_raiseIf, Txn.wp_lock, implies_true,
    true_and]
  intro _ _ _
  refine Txn.wp_post (retentionBackfillDecision_wp (fun l hl => nomatch hl)) ?_
  intro first c' w hfirst
  obtain ⟨hc, hfirst⟩ := hfirst
  subst c'
  refine Txn.wp_post (Txn.wp_forEach (fun _ c' _ => c' = c) rfl ?_) ?_
  · rintro _ _ _ _ _ _ rfl
    rfl
  intro _ c' w hc
  subst c'
  refine Txn.wp_post (retentionBackfillDecision_wp hfirst.records) ?_
  intro plan c' w hplan
  obtain ⟨hc, hplan⟩ := hplan
  subst c'
  simp only [wp_uuid4, implies_true, true_and]
  intro _ _
  refine Txn.wp_post (Ref.wp_forEach_rows (T := Tables.records)
    (R := fun r c c' => Backfilled fresh plan.policy r c c') hplan.nodup hplan.records ?_ ?_) ?_
  · rintro r s s' ⟨_, rfl⟩ x hx hk
    have hmem : x ∈ s.records.modify r.attempt (setRetention plan.policy r) (fun _ => rfl) :=
      Table.mem_modify.mpr (Or.inl ⟨hx, hk⟩)
    exact hmem
  · intro r hr s hmem
    simp only [backfillAttempt, Txn.wp_bind, Ref.wp_insert, Ref.wp_update, implies_true, true_and,
      and_true]
    exact fun hfree _ _ => ⟨(Ref.taken_eq_false.mp hfree).1, rfl⟩
  · rintro _ c' w' ⟨hchain, _⟩
    simp only [Ref.wp_insert, Txn.wp_pure, implies_true, true_and]
    refine fun _ => ⟨hplan, ?_, hchain, ?_⟩
    · exact ⟨rfl, rfl, rfl, rfl, rfl⟩
    · exact ⟨rfl, rfl, rfl, rfl, rfl⟩

end IngestionService

namespace Deployment

open AttemptDeletionWorker (RowsErased)

variable {env : Env} {settings : IngestionSettings} {m : Memory} {c c' : Catalog}
  {w w' : ObjectStore} {s s' : State} {call : Call} {a : Reply} {t : Tx Reply}

section quiet

theorem outboxClaim_ledger {event : EventType} {owner : String} {leaseSeconds : Nat} {now : Instant}
    {skip : List Uuid} :
    (Outbox.claim event owner leaseSeconds now skip).changes SameLedger (fun _ => True) := by
  simp only [Outbox.claim, Txn.changes_bind, Ref.changes_selectForUpdate]
  intro c c'
  split <;> simp [sameLedger_iff]

theorem outboxFail_ledger {l : WorkLease} {message : String} :
    (Outbox.fail l message).changes SameLedger (fun _ => True) := by
  simp only [Outbox.fail, Txn.changes_bind, Ref.changes_get]
  intro c
  split <;> simp [sameLedger_iff]

theorem flush_ledger {l : WorkLease} {p : Publication} {id : Uuid} {now : Instant} {f : Flush} :
    (OutboxWorker.flush l p id now f).changes SameLedger (fun _ => True) := by
  cases f <;> simp [OutboxWorker.flush, sameLedger_iff]

theorem outboxPublish_ledger {l : WorkLease} {p : Publication} {fresh : Uuid} {order : FlushOrder}
    {now : Instant} :
    (OutboxWorker.publish l p fresh order now).changes SameLedger (fun _ => True) := by
  simp only [OutboxWorker.publish, Txn.changes_bind, Ref.changes_get, Txn.changes_ite]
  refine fun c => ⟨fun _ c' => ⟨fun _ c'' => ?_, fun _ => ?_⟩, fun _ => ?_⟩
  · split
    · simp only [Txn.changes_bind, changes_uuid4]
      refine fun _ _ => ⟨by simp [sameLedger_iff], ?_⟩
      exact Txn.changes_forEach (fun f _ => flush_ledger) trivial
    · simp [sameLedger_iff]
  · simp [sameLedger_iff]
  · simp

/-- The calls that change the policies, or what is retained under them. -/
def retains : Call → Bool
  | .createRetentionPolicyRevision .. => true
  | .cancelRetentionPolicyRevision .. => true
  | .applyRetentionPolicyBackfill .. => true
  | _ => false

theorem quiet_ledger (hq : quiet call = true) (hr : retains call = false)
    (ht : program env settings m call = some t) : t.changes SameLedger (fun _ => True) := by
  cases call with
  | admitCrash ticket =>
    obtain rfl := Option.some.inj ht
    simp
  | retentionScan sweep batchSize now =>
    simp only [program] at ht
    split at ht <;> cases ht
    simp [RetentionSweeper.scan]
  | outboxClaim =>
    obtain rfl := Option.some.inj ht
    rw [Txn.changes_map]
    exact outboxClaim_ledger
  | outboxRead ticket lease faults =>
    simp only [program] at ht
    split at ht <;> cases ht
    rw [Txn.changes_map]
    exact outboxRead_changes env
  | outboxPublish ticket fresh order now =>
    obtain ⟨x, _, rfl⟩ := Option.map_eq_some_iff.mp ht
    rw [Txn.changes_map]
    exact outboxPublish_ledger
  | outboxFail =>
    obtain rfl := Option.some.inj ht
    rw [Txn.changes_map]
    exact outboxFail_ledger
  | reportClaim =>
    obtain rfl := Option.some.inj ht
    rw [Txn.changes_map]
    exact outboxClaim_ledger
  | reportRead ticket lease =>
    simp only [program] at ht
    split at ht <;> cases ht
    rw [Txn.changes_map]
    exact reportRead_changes
  | reportFail =>
    obtain rfl := Option.some.inj ht
    rw [Txn.changes_map]
    exact outboxFail_ledger
  | createRetentionPolicyRevision => cases hr
  | cancelRetentionPolicyRevision => cases hr
  | applyRetentionPolicyBackfill => cases hr
  | _ => cases hq

end quiet

inductive LedgerEffect (settings : IngestionSettings) (m : Memory) (c : Catalog) :
    Call → Reply → Catalog → Prop where
  | same {call : Call} {a : Reply} {c' : Catalog} (h : SameLedger c c') :
      LedgerEffect settings m c call a c'
  | admitted {ticket : Nat} {faults : Faults} {freshReceipt freshOutbox : Uuid}
      {committedAt : Instant} {f : Flight} {r : DurableReceipt} {c' : Catalog}
      (hf : flightAt m ticket true = some f)
      (h : IngestionService.Admits settings f committedAt c c') :
      LedgerEffect settings m c (.admitCommit ticket faults freshReceipt freshOutbox committedAt)
        (.receipt r) c'
  | created {tenantId clusterId : String} {retentionSeconds : Nat} {credentialId : String}
      {effectiveAt : Option Instant} {logicalCaseId : Option String} {now : Instant}
      {p : RetentionPolicyRevision} {c' : Catalog} (h : IngestionService.Created p c c') :
      LedgerEffect settings m c (.createRetentionPolicyRevision tenantId clusterId retentionSeconds
        credentialId effectiveAt logicalCaseId now) (.policy p) c'
  | cancelled {k : PolicyKey} {reason credentialId : String} {now : Instant}
      {x : RetentionPolicyCancellation} {c' : Catalog}
      (h : IngestionService.Cancelling k now c c') :
      LedgerEffect settings m c (.cancelRetentionPolicyRevision k reason credentialId now)
        (.cancellation x) c'
  | migrated {q : BackfillRequest} {expectedEligible expectedDue : Int}
      {expectedDigest credentialId : String} {fresh : Uuid} {now : Instant}
      {d : RetentionPolicyBackfillDecision} {c' : Catalog}
      (h : IngestionService.Migrating q now c c') :
      LedgerEffect settings m c (.applyRetentionPolicyBackfill q expectedEligible expectedDue
        expectedDigest credentialId fresh now) (.backfill d) c'
  | erased {l : DeletionLease} {faults : Faults} {now : Instant} {c' : Catalog}
      {t : Table AttemptDeletion.attempt} (h : RowsErased l.attempt c c') :
      LedgerEffect settings m c (.deletionExecute l faults now) (.erased true)
        { c' with deletions := t }

theorem effect_ledger (h : Effect env m c w call a c' w') (hq : quiet call = false)
    (hc : ∀ ticket faults freshReceipt freshOutbox committedAt,
      call ≠ .admitCommit ticket faults freshReceipt freshOutbox committedAt)
    (hb : ∀ ticket self faults, call ≠ .reportBuild ticket self faults) :
    LedgerEffect settings m c call a c' := by
  cases h with
  | quiet hq' =>
    rw [hq'] at hq
    cases hq
  | admitReserve _ h => cases h <;> exact .same ⟨rfl, rfl, rfl, rfl, rfl⟩
  | admitPut => exact .same (.refl _)
  | admitCommit => exact absurd rfl (hc _ _ _ _ _)
  | deleteAttempt h => cases h <;> exact .same ⟨rfl, rfl, rfl, rfl, rfl⟩
  | retentionDelete h => cases h <;> exact .same ⟨rfl, rfl, rfl, rfl, rfl⟩
  | placeAttemptHold h => cases h <;> exact .same ⟨rfl, rfl, rfl, rfl, rfl⟩
  | releaseAttemptHold h => cases h <;> exact .same ⟨rfl, rfl, rfl, rfl, rfl⟩
  | reservationSweep h =>
    rw [h.others_same.1]
    exact .same ⟨rfl, rfl, rfl, rfl, rfl⟩
  | objectGc h => cases h <;> exact .same ⟨rfl, rfl, rfl, rfl, rfl⟩
  | objectGcAudit h =>
    rw [(ObjectGcAuditWorker.audits_others_same h).1]
    exact .same ⟨rfl, rfl, rfl, rfl, rfl⟩
  | reportBuild => exact absurd rfl (hb _ _ _)
  | reportReserve _ h =>
    obtain ⟨t, issued, _, _, rfl⟩ := h
    exact .same ⟨rfl, rfl, rfl, rfl, rfl⟩
  | reportPublish _ h => cases h <;> exact .same ⟨rfl, rfl, rfl, rfl, rfl⟩
  | deletionClaim h => cases h <;> exact .same ⟨rfl, rfl, rfl, rfl, rfl⟩
  | deletionExecute h =>
    cases h with
    | stale => exact .same (.refl _)
    | heldBack => exact .same ⟨rfl, rfl, rfl, rfl, rfl⟩
    | erased _ _ _ _ _ _ hrows => exact .erased hrows
  | deletionFail h => cases h <;> exact .same ⟨rfl, rfl, rfl, rfl, rfl⟩
  | applyCompletedTombstones h =>
    rw [importing_others_same h]
    exact .same ⟨rfl, rfl, rfl, rfl, rfl⟩

theorem step_ledger (h : Step env settings s call (.committed a) s') :
    LedgerEffect settings s.memory s.catalog call a s'.catalog := by
  have hwp : ∀ {Q : Reply → Catalog → Prop}, (∀ t, program env settings s.memory call = some t →
      t.wp (fun _ => True) (fun _ => True) (fun a c' _ => Q a c') s.catalog s.objects) →
      Q a s'.catalog := by
    intro Q hQ
    exact committed_of_wp (Q := fun a c' _ => Q a c') h hQ
  have hsame : ∀ {t : Tx Reply}, t.changes SameLedger (fun _ => True) →
      t.wp (fun _ => True) (fun _ => True)
        (fun a c' _ => LedgerEffect settings s.memory s.catalog call a c') s.catalog s.objects := by
    intro t ht
    refine Txn.wp_post (Txn.wp_of_changes ht (fun _ _ _ h h' => h.trans h') (.refl _) trivial
      (fun _ => trivial)) ?_
    rintro a c' w' ⟨h, _⟩
    exact .same h
  by_cases hq : quiet call = true
  · by_cases hr : retains call = true
    · refine hwp (fun t ht => ?_)
      cases call with
      | createRetentionPolicyRevision =>
        obtain rfl := Option.some.inj ht
        rw [Txn.wp_map]
        exact Txn.wp_post IngestionService.createRetentionPolicyRevision_ledger
          (fun _ _ _ h => .created h)
      | cancelRetentionPolicyRevision =>
        obtain rfl := Option.some.inj ht
        rw [Txn.wp_map]
        exact Txn.wp_post IngestionService.cancelRetentionPolicyRevision_ledger
          (fun _ _ _ h => .cancelled h)
      | applyRetentionPolicyBackfill =>
        obtain rfl := Option.some.inj ht
        rw [Txn.wp_map]
        exact Txn.wp_post IngestionService.applyRetentionPolicyBackfill_ledger
          (fun _ _ _ h => .migrated h)
      | _ => cases hr
    · exact hwp (fun t ht => hsame (quiet_ledger hq (eq_false_of_ne_true hr) ht))
  · obtain ⟨_, _, ⟨_, he, heff⟩ | ⟨hne, _⟩⟩ := step_cases h
    · cases he
      by_cases hc : ∃ ticket faults freshReceipt freshOutbox committedAt,
          call = .admitCommit ticket faults freshReceipt freshOutbox committedAt
      · obtain ⟨ticket, faults, freshReceipt, freshOutbox, committedAt, rfl⟩ := hc
        refine hwp (fun t ht => ?_)
        obtain ⟨f, hf, rfl⟩ := Option.map_eq_some_iff.mp ht
        rw [Txn.wp_map]
        exact Txn.wp_post IngestionService.admitCommit_ledger (fun _ _ _ h => .admitted hf h)
      · by_cases hb : ∃ ticket self faults, call = .reportBuild ticket self faults
        · obtain ⟨ticket, self, faults, rfl⟩ := hb
          refine hwp (fun t ht => ?_)
          simp only [program] at ht
          split at ht
          · cases ht
            refine hsame ?_
            rw [Txn.changes_map]
            exact Txn.changes_mono (fun _ _ h => h) (fun _ _ => trivial) (reportBuild_changes env)
          · cases ht
        · exact effect_ledger heff (eq_false_of_ne_true hq)
            (fun a b c d e h => hc ⟨a, b, c, d, e, h⟩) (fun a b c h => hb ⟨a, b, c, h⟩)
    · exact absurd rfl (hne a)

end Deployment

end RankLens
