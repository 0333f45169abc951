import RankLens.Effects

namespace RankLens

open Interleaving (Ending)
open IngestionService (Flight)

def AttemptRecord.tally (r : AttemptRecord) :
    (Option String × Option String × Option String) × Nat × Nat :=
  ((r.workflowExecutionId, r.logicalCaseId, r.schedulerSourceIdentity), r.segmentCount, r.recordCount)

def SameTally (t t' : Table AttemptRecord.attempt) : Prop :=
  ∀ k, (t'.get k).map AttemptRecord.tally = (t.get k).map AttemptRecord.tally

theorem SameTally.refl (t : Table AttemptRecord.attempt) : SameTally t t := fun _ => rfl

theorem SameTally.trans {t t' t'' : Table AttemptRecord.attempt} (h : SameTally t t')
    (h' : SameTally t' t'') : SameTally t t'' := fun k => (h' k).trans (h k)

theorem sameTally_modify {t : Table AttemptRecord.attempt} {k : AttemptKey}
    {f : AttemptRecord → AttemptRecord} {hf : ∀ r, (f r).attempt = r.attempt}
    (h : ∀ r, (f r).tally = r.tally) : SameTally t (t.modify k f hf) := by
  intro j
  rw [Table.get_modify]
  split
  · rw [Option.map_map]
    exact congrArg (fun g => Option.map g (t.get j)) (funext h)
  · rfl

/-- The segments, the outbox and the reports are the same, and the records bind and
count the same. -/
@[mk_iff] structure SameEvidence (c c' : Catalog) : Prop where
  manifests : c'.manifests = c.manifests
  outbox : c'.outbox = c.outbox
  normalized : c'.normalized = c.normalized
  revisions : c'.revisions = c.revisions
  heads : c'.heads = c.heads
  records : SameTally c.records c'.records

theorem SameEvidence.refl (c : Catalog) : SameEvidence c c := ⟨rfl, rfl, rfl, rfl, rfl, .refl _⟩

theorem SameEvidence.trans {c c' c'' : Catalog} (h : SameEvidence c c') (h' : SameEvidence c' c'') :
    SameEvidence c c'' where
  manifests := h'.manifests.trans h.manifests
  outbox := h'.outbox.trans h.outbox
  normalized := h'.normalized.trans h.normalized
  revisions := h'.revisions.trans h.revisions
  heads := h'.heads.trans h.heads
  records := h.records.trans h'.records

namespace Deployment

variable {env : Env} {settings : IngestionSettings} {m : Memory} {c c' : Catalog}
  {w w' : ObjectStore} {s s' : State} {call : Call} {a : Reply} {t : Tx Reply}

section quiet

theorem createRetentionPolicyRevision_evidence {tenantId clusterId : String}
    {retentionSeconds : Nat} {credentialId : String} {effectiveAt : Option Instant}
    {logicalCaseId : Option String} {now : Instant} :
    (IngestionService.createRetentionPolicyRevision tenantId clusterId retentionSeconds
      credentialId effectiveAt logicalCaseId now).changes SameEvidence (fun _ => True) := by
  simp [IngestionService.createRetentionPolicyRevision, sameEvidence_iff, SameTally.refl]

theorem cancelRetentionPolicyRevision_evidence {k : PolicyKey} {reason credentialId : String}
    {now : Instant} : (IngestionService.cancelRetentionPolicyRevision k reason credentialId
      now).changes SameEvidence (fun _ => True) := by
  simp only [IngestionService.cancelRetentionPolicyRevision, Txn.changes_bind, Txn.changes_raiseIf,
    Txn.changes_lock, Ref.changes_get]
  intro _ _ c
  split
  · simp
  · simp only [Txn.changes_bind, Ref.changes_get]
    intro c'
    split <;> simp [sameEvidence_iff, SameTally.refl]

theorem backfillAttempt_evidence {id : Uuid} {policy : RetentionPolicyRevision}
    {r : AttemptRecord} : (IngestionService.backfillAttempt id policy r).changes SameEvidence
      (fun _ => True) := by
  simp only [IngestionService.backfillAttempt, Txn.changes_bind, Ref.changes_insert,
    Ref.changes_update, sameEvidence_iff, Tables.backfillItems_put, Tables.records_put,
    and_true, true_and]
  exact fun _ _ => ⟨fun _ => .refl _, fun _ _ _ => sameTally_modify (fun _ => rfl)⟩

theorem applyRetentionPolicyBackfill_evidence {q : BackfillRequest}
    {expectedEligible expectedDue : Int} {expectedDigest credentialId : String} {fresh : Uuid}
    {now : Instant} : (IngestionService.applyRetentionPolicyBackfill env q expectedEligible
      expectedDue expectedDigest credentialId fresh now).changes SameEvidence (fun _ => True) := by
  simp only [IngestionService.applyRetentionPolicyBackfill, Txn.changes_bind, Txn.changes_raiseIf,
    Txn.changes_lock]
  intro _ _ _
  refine retentionBackfillDecision_changes env (fun first => ?_)
  refine Txn.changes_forEach (by simp) ?_
  refine retentionBackfillDecision_changes env (fun plan => ?_)
  simp only [changes_uuid4]
  refine fun _ _ _ => ⟨by simp [sameEvidence_iff, SameTally.refl], ?_⟩
  refine Txn.changes_forEach (fun a _ => backfillAttempt_evidence) ?_
  simp [sameEvidence_iff, SameTally.refl]

def silent : Call → Bool
  | .admitCrash .. => true
  | .createRetentionPolicyRevision .. => true
  | .cancelRetentionPolicyRevision .. => true
  | .applyRetentionPolicyBackfill .. => true
  | .retentionScan .. => true
  | .outboxRead .. => true
  | .reportRead .. => true
  | .reportBuild .. => true
  | _ => false

theorem silent_evidence (hq : silent call = true) (ht : program env settings m call = some t) :
    t.changes SameEvidence (fun _ => True) := by
  cases call with
  | admitCrash ticket =>
    obtain rfl := Option.some.inj ht
    simp
  | createRetentionPolicyRevision =>
    obtain rfl := Option.some.inj ht
    rw [Txn.changes_map]
    exact createRetentionPolicyRevision_evidence
  | cancelRetentionPolicyRevision =>
    obtain rfl := Option.some.inj ht
    rw [Txn.changes_map]
    exact cancelRetentionPolicyRevision_evidence
  | applyRetentionPolicyBackfill =>
    obtain rfl := Option.some.inj ht
    rw [Txn.changes_map]
    exact applyRetentionPolicyBackfill_evidence
  | retentionScan sweep batchSize now =>
    simp only [program] at ht
    split at ht <;> cases ht
    simp [RetentionSweeper.scan]
  | outboxRead ticket lease faults =>
    simp only [program] at ht
    split at ht <;> cases ht
    rw [Txn.changes_map]
    exact outboxRead_changes env
  | reportRead ticket lease =>
    simp only [program] at ht
    split at ht <;> cases ht
    rw [Txn.changes_map]
    exact reportRead_changes
  | reportBuild ticket self faults =>
    simp only [program] at ht
    split at ht
    · cases ht
      rw [Txn.changes_map]
      exact Txn.changes_mono (fun _ _ h => h) (fun _ _ => trivial) (reportBuild_changes env)
    · cases ht
  | _ => cases hq

end quiet

open AttemptDeletionWorker (Cleared RowsErased)

/-- What a commit does to the segments, the outbox, the reports and the records. -/
inductive EvidenceEffect (env : Env) (m : Memory) (c : Catalog) (w : ObjectStore) :
    Call → Reply → Catalog → ObjectStore → Prop where
  | same {call : Call} {a : Reply} {c' : Catalog} {w' : ObjectStore} (h : SameEvidence c c') :
      EvidenceEffect env m c w call a c' w'
  | admitted {ticket : Nat} {faults : Faults} {freshReceipt freshOutbox id : Uuid}
      {committedAt : Instant} {f : Flight} {r : AdmissionReservation}
      {gens : Table AttemptGeneration.attempt} {c' : Catalog}
      (hf : flightAt m ticket true = some f) (hc : IngestionService.Commits f c r gens)
      (hfresh : freshReceipt ∉ c.issued) (hi : id ∉ freshReceipt :: c.issued)
      (hnew : c.outbox.get id = none) (hget : c.manifests.get freshReceipt = none)
      (hm : c'.manifests = c.manifests.insert
        (IngestionService.newManifest f r f.segment.deletionGeneration freshReceipt committedAt))
      (ho : c'.outbox = c.outbox.insert (IngestionService.newOutbox f id freshReceipt committedAt))
      (hn : c'.normalized = c.normalized)
      (hr : IngestionService.Counted f.principal.tenantId f.segment committedAt c.records c'.records)
      (hissued : c'.issued = id :: freshReceipt :: c.issued) (hg : c'.generations = gens)
      (hrevisions : c'.revisions = c.revisions) (hheads : c'.heads = c.heads) :
      EvidenceEffect env m c w (.admitCommit ticket faults freshReceipt freshOutbox committedAt)
        (.receipt (IngestionService.receipt (IngestionService.newManifest f r
          f.segment.deletionGeneration freshReceipt committedAt) false)) c' w
  | leased {call : Call} {event : EventType} {owner : String} {expiresAt now : Instant}
      {l : Option WorkLease} {t : Table OutboxRecord.outboxId}
      (h : Outbox.Leasing event owner expiresAt now c.outbox l t) :
      EvidenceEffect env m c w call (.workLease l) { c with outbox := t } w
  | failed {call : Call} {l : WorkLease} {message : String} {t : Table OutboxRecord.outboxId}
      (hcall : call = .outboxFail l message ∨ call = .reportFail l message)
      (h : Outbox.Failing l message c.outbox t) :
      EvidenceEffect env m c w call .unit { c with outbox := t } w
  | normalized {ticket : Nat} {fresh : Uuid} {order : FlushOrder} {now : Instant} {l : WorkLease}
      {p : Publication} {b : Bool} {c' : Catalog} (hp : lookup m.publications ticket = some (l, p))
      (h : OutboxWorker.Normalizing l p fresh now c b c') :
      EvidenceEffect env m c w (.outboxPublish ticket fresh order now) (.published b) c' w
  | reported {ticket : Nat} {self : ReportRevisionWorker} {faults : Faults}
      {fresh : ObjectKey → Uuid} {freshRevision : Uuid} {now : Instant} {l : WorkLease}
      {b : BuiltReport} {done : Bool} {c' : Catalog} {w' : ObjectStore}
      (hb : reportAt m ticket = some (l, .reserved b))
      (h : ReportRevisionWorker.Publishing env l b faults c w c' w') :
      EvidenceEffect env m c w (.reportPublish ticket self faults fresh freshRevision now)
        (.published done) c' w'
  | erased {l : DeletionLease} {faults : Faults} {now : Instant} {c' : Catalog} {w' : ObjectStore}
      {t : Table AttemptDeletion.attempt} (hc : Cleared l c) (h : RowsErased l.attempt c c') :
      EvidenceEffect env m c w (.deletionExecute l faults now) (.erased true)
        { c' with deletions := t } w'

theorem effect_evidence (h : Effect env m c w call a c' w') (hq : quiet call = false)
    (hb : silent call = false) : EvidenceEffect env m c w call a c' w' := by
  cases h with
  | quiet hq' =>
    rw [hq'] at hq
    cases hq
  | admitReserve _ h => cases h <;> exact .same ⟨rfl, rfl, rfl, rfl, rfl, .refl _⟩
  | admitPut => exact .same ⟨rfl, rfl, rfl, rfl, rfl, .refl _⟩
  | admitCommit hf h =>
    cases h with
    | replay => exact .same ⟨rfl, rfl, rfl, rfl, rfl, .refl _⟩
    | fresh hc _ _ hfresh hget hi hnew _ hr =>
      exact .admitted hf hc hfresh hi hnew hget rfl rfl rfl hr rfl rfl rfl rfl
  | deleteAttempt h => cases h <;> exact .same ⟨rfl, rfl, rfl, rfl, rfl, .refl _⟩
  | retentionDelete h => cases h <;> exact .same ⟨rfl, rfl, rfl, rfl, rfl, .refl _⟩
  | placeAttemptHold h => cases h <;> exact .same ⟨rfl, rfl, rfl, rfl, rfl, .refl _⟩
  | releaseAttemptHold h => cases h <;> exact .same ⟨rfl, rfl, rfl, rfl, rfl, .refl _⟩
  | reservationSweep h =>
    rw [h.others_same.1]
    exact .same ⟨rfl, rfl, rfl, rfl, rfl, .refl _⟩
  | objectGc h => cases h <;> exact .same ⟨rfl, rfl, rfl, rfl, rfl, .refl _⟩
  | objectGcAudit h =>
    rw [(ObjectGcAuditWorker.audits_others_same h).1]
    exact .same ⟨rfl, rfl, rfl, rfl, rfl, .refl _⟩
  | reportBuild => cases hb
  | reportReserve _ h =>
    obtain ⟨t, issued, _, _, rfl⟩ := h
    exact .same ⟨rfl, rfl, rfl, rfl, rfl, .refl _⟩
  | reportPublish hreport h => exact .reported hreport h
  | deletionClaim h => cases h <;> exact .same ⟨rfl, rfl, rfl, rfl, rfl, .refl _⟩
  | deletionExecute h =>
    cases h with
    | stale => exact .same (.refl _)
    | heldBack => exact .same ⟨rfl, rfl, rfl, rfl, rfl, .refl _⟩
    | erased hget hcur hfree hgen hfenced hg hrows =>
      exact .erased ⟨⟨_, hget, hcur⟩, hfree, _, hgen, hfenced, hg⟩ hrows
  | deletionFail h => cases h <;> exact .same ⟨rfl, rfl, rfl, rfl, rfl, .refl _⟩
  | applyCompletedTombstones h =>
    rw [importing_others_same h]
    exact .same ⟨rfl, rfl, rfl, rfl, rfl, .refl _⟩

theorem outbox_evidence (hq : quiet call = true) (hs : silent call = false)
    (ht : program env settings m call = some t) :
    t.wp (fun _ => True) (fun _ => True) (fun a c' w' => EvidenceEffect env m c w call a c' w') c w := by
  cases call with
  | outboxClaim owner leaseSeconds now skip =>
    obtain rfl := Option.some.inj ht
    rw [Txn.wp_map]
    refine Txn.wp_post Outbox.claim_spec ?_
    rintro l _ _ ⟨⟨t, h, rfl⟩, rfl⟩
    exact .leased h
  | outboxPublish ticket fresh order now =>
    obtain ⟨⟨l, p⟩, hp, rfl⟩ := Option.map_eq_some_iff.mp ht
    rw [Txn.wp_map]
    refine Txn.wp_post OutboxWorker.publish_spec ?_
    rintro b c' _ ⟨h, rfl⟩
    exact .normalized hp h
  | outboxFail l message =>
    obtain rfl := Option.some.inj ht
    rw [Txn.wp_map]
    refine Txn.wp_post Outbox.fail_spec ?_
    rintro _ _ _ ⟨⟨t, h, rfl⟩, rfl⟩
    exact .failed (Or.inl rfl) h
  | reportClaim owner leaseSeconds now skip =>
    obtain rfl := Option.some.inj ht
    rw [Txn.wp_map]
    refine Txn.wp_post Outbox.claim_spec ?_
    rintro l _ _ ⟨⟨t, h, rfl⟩, rfl⟩
    exact .leased h
  | reportFail l message =>
    obtain rfl := Option.some.inj ht
    rw [Txn.wp_map]
    refine Txn.wp_post Outbox.fail_spec ?_
    rintro _ _ _ ⟨⟨t, h, rfl⟩, rfl⟩
    exact .failed (Or.inr rfl) h
  | admitCrash => cases hs
  | createRetentionPolicyRevision => cases hs
  | cancelRetentionPolicyRevision => cases hs
  | applyRetentionPolicyBackfill => cases hs
  | retentionScan => cases hs
  | outboxRead => cases hs
  | reportRead => cases hs
  | _ => cases hq

theorem step_evidence (h : Step env settings s call (.committed a) s') :
    EvidenceEffect env s.memory s.catalog s.objects call a s'.catalog s'.objects := by
  by_cases hs : silent call = true
  · refine committed_of_wp h (fun t ht => ?_)
    refine Txn.wp_post (Txn.wp_of_changes (silent_evidence hs ht) (fun _ _ _ h h' => h.trans h')
      (.refl _) trivial (fun _ => trivial)) ?_
    rintro a c' w' ⟨h, _⟩
    exact .same h
  · have hs' : silent call = false := by simpa using hs
    by_cases hq : quiet call = true
    · exact committed_of_wp h (fun t ht => outbox_evidence hq hs' ht)
    · obtain ⟨_, _, ⟨_, he, heff⟩ | ⟨hne, _⟩⟩ := step_cases h
      · cases he
        exact effect_evidence heff (by simpa using hq) hs'
      · exact absurd rfl (hne a)

end Deployment

end RankLens
