import RankLens.Deployment

namespace RankLens

open Interleaving (Ending)

/-- The tables admission, deletion, collection and publication decide by are the
same, and the attempt records still hold different scheduler identities. -/
@[mk_iff] structure SameCore (c c' : Catalog) : Prop where
  generations : c'.generations = c.generations
  holds : c'.holds = c.holds
  deletions : c'.deletions = c.deletions
  manifests : c'.manifests = c.manifests
  reservations : c'.reservations = c.reservations
  candidates : c'.candidates = c.candidates
  revisions : c'.revisions = c.revisions
  heads : c'.heads = c.heads
  records : Tables.records.NoClash c.records → Tables.records.NoClash c'.records
  issued : c.issued ⊆ c'.issued

theorem SameCore.refl (c : Catalog) : SameCore c c :=
  ⟨rfl, rfl, rfl, rfl, rfl, rfl, rfl, rfl, id, List.Subset.refl _⟩

theorem SameCore.trans {c c' c'' : Catalog} (h : SameCore c c') (h' : SameCore c' c'') :
    SameCore c c'' where
  generations := h'.generations.trans h.generations
  holds := h'.holds.trans h.holds
  deletions := h'.deletions.trans h.deletions
  manifests := h'.manifests.trans h.manifests
  reservations := h'.reservations.trans h.reservations
  candidates := h'.candidates.trans h.candidates
  revisions := h'.revisions.trans h.revisions
  heads := h'.heads.trans h.heads
  records := fun hc => h'.records (h.records hc)
  issued := List.Subset.trans h.issued h'.issued

namespace Deployment

variable (env : Env) (settings : IngestionSettings)

def quiet : Call → Bool
  | .admitCrash .. => true
  | .createRetentionPolicyRevision .. => true
  | .cancelRetentionPolicyRevision .. => true
  | .applyRetentionPolicyBackfill .. => true
  | .retentionScan .. => true
  | .outboxClaim .. => true
  | .outboxRead .. => true
  | .outboxPublish .. => true
  | .outboxFail .. => true
  | .reportClaim .. => true
  | .reportRead .. => true
  | .reportFail .. => true
  | _ => false

section quiet

variable {R : Catalog → Catalog → Prop}

theorem createRetentionPolicyRevision_core {tenantId clusterId : String} {retentionSeconds : Nat}
    {credentialId : String} {effectiveAt : Option Instant} {logicalCaseId : Option String}
    {now : Instant} :
    (IngestionService.createRetentionPolicyRevision tenantId clusterId retentionSeconds
      credentialId effectiveAt logicalCaseId now).changes SameCore (fun _ => True) := by
  simp [IngestionService.createRetentionPolicyRevision, sameCore_iff]

theorem cancelRetentionPolicyRevision_core {k : PolicyKey} {reason credentialId : String}
    {now : Instant} : (IngestionService.cancelRetentionPolicyRevision k reason credentialId
      now).changes SameCore (fun _ => True) := by
  simp only [IngestionService.cancelRetentionPolicyRevision, Txn.changes_bind, Txn.changes_raiseIf,
    Txn.changes_lock, Ref.changes_get]
  intro _ _ c
  split
  · simp
  · simp only [Txn.changes_bind, Ref.changes_get]
    intro c'
    split <;> simp [sameCore_iff]

theorem outboxClaim_core {event : EventType} {owner : String} {leaseSeconds : Nat} {now : Instant}
    {skip : List Uuid} :
    (Outbox.claim event owner leaseSeconds now skip).changes SameCore (fun _ => True) := by
  simp only [Outbox.claim, Txn.changes_bind, Ref.changes_selectForUpdate]
  intro c c'
  split <;> simp [sameCore_iff]

theorem outboxFail_core {l : WorkLease} {message : String} :
    (Outbox.fail l message).changes SameCore (fun _ => True) := by
  simp only [Outbox.fail, Txn.changes_bind, Ref.changes_get]
  intro c
  split <;> simp [sameCore_iff]

theorem outboxRead_changes {faults : Faults} {l : WorkLease} :
    (OutboxWorker.read env faults l).changes R (fun _ => True) := by
  simp only [OutboxWorker.read, Txn.changes_bind, Ref.changes_get]
  intro c
  split
  · simp
  · next outbox _ =>
    cases outbox.aggregateId with
    | receipt id =>
      simp only [OutboxWorker.aggregateManifest, Txn.changes_bind, Ref.changes_get]
      intro c'
      split <;> simp
    | attempt id => simp [OutboxWorker.aggregateManifest]

theorem flush_core {l : WorkLease} {p : Publication} {id : Uuid} {now : Instant} {f : Flush} :
    (OutboxWorker.flush l p id now f).changes SameCore (fun _ => True) := by
  cases f <;> simp [OutboxWorker.flush, sameCore_iff]

theorem outboxPublish_core {l : WorkLease} {p : Publication} {fresh : Uuid} {order : FlushOrder}
    {now : Instant} :
    (OutboxWorker.publish l p fresh order now).changes SameCore (fun _ => True) := by
  simp only [OutboxWorker.publish, Txn.changes_bind, Ref.changes_get, Txn.changes_ite]
  refine fun c => ⟨fun _ c' => ⟨fun _ c'' => ?_, fun _ => ?_⟩, fun _ => ?_⟩
  · split
    · simp only [Txn.changes_bind, changes_uuid4]
      refine fun _ _ => ⟨by simp [sameCore_iff], ?_⟩
      exact Txn.changes_forEach (fun f _ => flush_core) trivial
    · simp [sameCore_iff]
  · simp [sameCore_iff]
  · simp

theorem reportRead_changes {l : WorkLease} :
    (ReportRevisionWorker.read l).changes R (fun _ => True) := by
  simp only [ReportRevisionWorker.read, Txn.changes_bind, Ref.changes_get]
  intro c
  split <;> simp [ReportRevisionWorker.inputs]

theorem readInputs_changes {self : ReportRevisionWorker} {faults : Faults} {items : List ReportInput}
    {total : Nat} : (self.readInputs env faults items total).changes R (fun _ => True) := by
  induction items generalizing total with
  | nil => simp [ReportRevisionWorker.readInputs]
  | cons item items ih =>
    simp only [ReportRevisionWorker.readInputs, Txn.changes_bind, changes_readVerified,
      changes_orRaise, Txn.changes_raiseIf, Txn.changes_pure]
    exact fun _ _ _ _ => ih

theorem reportBuild_changes {self : ReportRevisionWorker} {faults : Faults} {p : ReportPlan} :
    (self.build env faults p).changes R
      (fun b => ∃ parquet, b = ReportRevisionWorker.built env p parquet) := by
  simp only [ReportRevisionWorker.build, Txn.changes_bind]
  refine Txn.changes_mono (fun _ _ h => h) (fun segments _ => ?_) (readInputs_changes env)
  split
  · simp
  · exact ⟨_, rfl⟩

theorem retentionBackfillDecision_changes {q : BackfillRequest} {now : Instant}
    {loaded : List AttemptRecord} {Q : BackfillPlan → Prop} (hQ : ∀ plan, Q plan) :
    (IngestionService.retentionBackfillDecision env q now loaded).changes R Q := by
  simp only [IngestionService.retentionBackfillDecision, IngestionService.retentionBackfillPolicy,
    IngestionService.checkSource, IngestionService.retentionBackfillCandidates, Txn.changes_bind,
    Txn.changes_raiseIf, Ref.changes_get]
  intro _ c
  split
  · simp
  · simp only [Txn.changes_bind, Ref.changes_get, Txn.changes_raiseIf, Txn.changes_pure]
    intro c' _ _ _
    split
    · simp only [Txn.changes_bind, Ref.changes_get, Txn.changes_raiseIf]
      intro _ c''
      split <;> simp [hQ]
    · simp [hQ]

theorem backfillAttempt_core {id : Uuid} {policy : RetentionPolicyRevision} {a : AttemptRecord} :
    (IngestionService.backfillAttempt id policy a).changes SameCore (fun _ => True) := by
  have hrecords : ∀ c : Catalog, Tables.records.NoClash c.records → Tables.records.NoClash
      (c.records.modify a.attempt (IngestionService.setRetention policy a) (fun _ => rfl)) := by
    intro c hc
    refine Ref.noClash_modify_same (fun u hu r => ?_) hc
    obtain rfl := List.mem_singleton.mp hu
    rfl
  simp only [IngestionService.backfillAttempt, Txn.changes_bind, Ref.changes_insert,
    Ref.changes_update, sameCore_iff, Tables.backfillItems_put, Tables.records_put,
    List.Subset.refl, and_true, true_and]
  exact fun _ _ => ⟨fun _ hc => hc, fun _ _ => hrecords⟩

theorem applyRetentionPolicyBackfill_core {q : BackfillRequest} {expectedEligible expectedDue : Int}
    {expectedDigest credentialId : String} {fresh : Uuid} {now : Instant} :
    (IngestionService.applyRetentionPolicyBackfill env q expectedEligible expectedDue
      expectedDigest credentialId fresh now).changes SameCore (fun _ => True) := by
  simp only [IngestionService.applyRetentionPolicyBackfill, Txn.changes_bind, Txn.changes_raiseIf,
    Txn.changes_lock]
  intro _ _ _
  refine retentionBackfillDecision_changes env (fun first => ?_)
  refine Txn.changes_forEach (by simp) ?_
  refine retentionBackfillDecision_changes env (fun plan => ?_)
  simp only [changes_uuid4]
  refine fun _ _ _ => ⟨by simp [sameCore_iff], ?_⟩
  refine Txn.changes_forEach (fun a _ => backfillAttempt_core) ?_
  simp [sameCore_iff]

theorem quiet_core {m : Memory} {call : Call} {t : Tx Reply} (hq : quiet call = true)
    (ht : program env settings m call = some t) : t.changes SameCore (fun _ => True) := by
  cases call with
  | admitCrash ticket =>
    obtain rfl := Option.some.inj ht
    simp
  | createRetentionPolicyRevision =>
    obtain rfl := Option.some.inj ht
    rw [Txn.changes_map]
    exact createRetentionPolicyRevision_core
  | cancelRetentionPolicyRevision =>
    obtain rfl := Option.some.inj ht
    rw [Txn.changes_map]
    exact cancelRetentionPolicyRevision_core
  | applyRetentionPolicyBackfill =>
    obtain rfl := Option.some.inj ht
    rw [Txn.changes_map]
    exact applyRetentionPolicyBackfill_core env
  | retentionScan sweep batchSize now =>
    simp only [program] at ht
    split at ht <;> cases ht
    simp [RetentionSweeper.scan]
  | outboxClaim =>
    obtain rfl := Option.some.inj ht
    rw [Txn.changes_map]
    exact outboxClaim_core
  | outboxRead ticket lease faults =>
    simp only [program] at ht
    split at ht <;> cases ht
    rw [Txn.changes_map]
    exact outboxRead_changes env
  | outboxPublish ticket fresh order now =>
    obtain ⟨x, _, rfl⟩ := Option.map_eq_some_iff.mp ht
    rw [Txn.changes_map]
    exact outboxPublish_core
  | outboxFail =>
    obtain rfl := Option.some.inj ht
    rw [Txn.changes_map]
    exact outboxFail_core
  | reportClaim =>
    obtain rfl := Option.some.inj ht
    rw [Txn.changes_map]
    exact outboxClaim_core
  | reportRead ticket lease =>
    simp only [program] at ht
    split at ht <;> cases ht
    rw [Txn.changes_map]
    exact reportRead_changes
  | reportFail =>
    obtain rfl := Option.some.inj ht
    rw [Txn.changes_map]
    exact outboxFail_core
  | _ => cases hq

end quiet

end Deployment

end RankLens
