import RankLens.Footprint

namespace RankLens

open Interleaving (Ending)
open IngestionService (Flight)

namespace Deployment

variable {env : Env} {settings : IngestionSettings} {m : Memory} {c c' : Catalog}
  {w w' : ObjectStore} {s s' : State} {call : Call} {a : Reply} {t : Tx Reply}

/-- What a call can do to the object store, however it ends. -/
def Touches (env : Env) (m : Memory) (c : Catalog) (w : ObjectStore) (call : Call)
    (w' : ObjectStore) : Prop :=
  match call with
  | .admitPut ticket faults => ∃ f, flightAt m ticket false = some f ∧
      Put env faults f.prepared.objectKey f.segment.payloadSha256 w w'
  | .reportPublish ticket _ faults .. => ∃ lease b,
      reportAt m ticket = some (lease, .reserved b) ∧
        Stores env (ReportRevisionWorker.Landing b faults) w w'
  | .objectGc .. => Deletes (ObjectGcWorker.Collectable c) w w'
  | .deletionExecute l .. => Deletes (fun key => AttemptDeletionWorker.Cleared l c ∧
      AttemptDeletionWorker.Erasable l.attempt c key) w w'
  | _ => w' = w

/-- When a call can end with the inconsistency error of `admit`. -/
def Raises (c : Catalog) (call : Call) (e : Failure) : Prop :=
  ∀ ticket principal segment fresh now, call = .admitReserve ticket principal segment fresh now →
    e = IngestionService.catalogInconsistent →
    (∀ m ∈ c.manifests, IngestionService.exactFilter principal.tenantId segment m = false) ∧
      ∃ r ∈ c.reservations, IngestionService.sameRange principal.tenantId segment r = true ∧
        r.state = .committed

inductive Effect (env : Env) (m : Memory) (c : Catalog) (w : ObjectStore) :
    Call → Reply → Catalog → ObjectStore → Prop where
  | quiet {call : Call} {a : Reply} {c' : Catalog} (hq : quiet call = true) (h : SameCore c c') :
      Effect env m c w call a c' w
  | admitReserve {ticket : Nat} {principal : MachinePrincipal} {segment : SegmentUpload}
      {fresh : Uuid} {now : Instant} {a : IngestionService.Admitted} {c' : Catalog}
      (hfree : lookup m.flights ticket = none)
      (h : IngestionService.Reserved env principal segment fresh now c a c') :
      Effect env m c w (.admitReserve ticket principal segment fresh now) (.admitted a) c' w
  | admitPut {ticket : Nat} {faults : Faults} {f : Flight} {w' : ObjectStore}
      (hf : flightAt m ticket false = some f)
      (h : Put env faults f.prepared.objectKey f.segment.payloadSha256 w w') :
      Effect env m c w (.admitPut ticket faults) .unit c w'
  | admitCommit {ticket : Nat} {faults : Faults} {freshReceipt freshOutbox : Uuid}
      {committedAt : Instant} {f : Flight} {r : DurableReceipt} {c' : Catalog}
      (hf : flightAt m ticket true = some f)
      (h : IngestionService.Committed env f freshReceipt committedAt c w r c') :
      Effect env m c w (.admitCommit ticket faults freshReceipt freshOutbox committedAt)
        (.receipt r) c' w
  | deleteAttempt {k : AttemptKey} {now : Instant} {d : Deleted} {c' : Catalog}
      (h : IngestionService.Deleting k now c d c') :
      Effect env m c w (.deleteAttempt k now) (.deleted d) c' w
  | retentionDelete {sweep : Nat} {k : AttemptKey} {now : Instant} {d : Deleted} {c' : Catalog}
      (h : IngestionService.Deleting k now c d c') :
      Effect env m c w (.retentionDelete sweep k now) (.deleted d) c' w
  | placeAttemptHold {k : AttemptKey} {holdId : Uuid} {reason credentialId : String}
      {now : Instant} {c' : Catalog}
      (h : IngestionService.Placing k holdId reason credentialId now c c') :
      Effect env m c w (.placeAttemptHold k holdId reason credentialId now) .unit c' w
  | releaseAttemptHold {holdId : Uuid} {credentialId : String}
      {expected : Option (String × Option String × Option String)} {releasedAt now : Instant}
      {b : Bool} {c' : Catalog}
      (h : IngestionService.Releasing holdId credentialId releasedAt now c b c') :
      Effect env m c w (.releaseAttemptHold holdId credentialId expected releasedAt now)
        (.released b) c' w
  | reservationSweep {self : ReservationSweeper} {now : Instant} {skip : List Uuid}
      {fresh : Uuid → Uuid} {clock : Uuid → Instant} {c' : Catalog}
      (h : self.Sweeping fresh clock (self.due now skip c) c c') :
      Effect env m c w (.reservationSweep self now skip fresh clock)
        (.swept (self.due now skip c).length) c' w
  | objectGc {faults : Faults} {now : Instant} {skip : List Uuid} {o : Option GcOutcome}
      {c' : Catalog} {w' : ObjectStore} (h : ObjectGcWorker.Collecting c w c' w') :
      Effect env m c w (.objectGc faults now skip) (.collected o) c' w'
  | objectGcAudit {self : ObjectGcAuditWorker} {faults : Faults} {now : Instant}
      {skip : List Uuid} {fresh : Uuid → String × String → Uuid × Uuid}
      {states : List CandidateState} {rows : List ObjectGcCandidate} {c' : Catalog}
      (h : Txn.Chain (fun g c c' => g ∈ c.candidates ∧ ObjectGcAuditWorker.Auditing w g c c')
        rows c c') :
      Effect env m c w (.objectGcAudit self faults now skip fresh) (.audited states) c' w
  | reportBuild {ticket : Nat} {self : ReportRevisionWorker} {faults : Faults} {plan : ReportPlan}
      {parquet : NormalizedParquet} {c' : Catalog} (h : SameCore c c') :
      Effect env m c w (.reportBuild ticket self faults)
        (.built (ReportRevisionWorker.built env plan parquet)) c' w
  | reportReserve {ticket : Nat} {self : ReportRevisionWorker} {fresh : ObjectKey → Uuid}
      {now : Instant} {lease : WorkLease} {b : BuiltReport} {c' : Catalog}
      (hb : reportAt m ticket = some (lease, .built b))
      (h : ReportRevisionWorker.Candidates ReportRevisionWorker.Ensuring
        (ReportRevisionWorker.sortedArtifacts b) c c') :
      Effect env m c w (.reportReserve ticket self fresh now) (.built b) c' w
  | reportPublish {ticket : Nat} {self : ReportRevisionWorker} {faults : Faults}
      {fresh : ObjectKey → Uuid} {freshRevision : Uuid} {now : Instant} {lease : WorkLease}
      {b : BuiltReport} {done : Bool} {c' : Catalog} {w' : ObjectStore}
      (hb : reportAt m ticket = some (lease, .reserved b))
      (h : ReportRevisionWorker.Publishing env lease b faults c w c' w') :
      Effect env m c w (.reportPublish ticket self faults fresh freshRevision now)
        (.published done) c' w'
  | deletionClaim {owner : String} {leaseSeconds : Nat} {now : Instant} {skip : List AttemptKey}
      {l : Option DeletionLease} {c' : Catalog}
      (h : AttemptDeletionWorker.Claiming owner (now + seconds leaseSeconds) now c l c') :
      Effect env m c w (.deletionClaim owner leaseSeconds now skip) (.deletionLease l) c' w
  | deletionExecute {l : DeletionLease} {faults : Faults} {now : Instant} {done : Bool}
      {c' : Catalog} {w' : ObjectStore} (h : AttemptDeletionWorker.Executing l now c w done c' w') :
      Effect env m c w (.deletionExecute l faults now) (.erased done) c' w'
  | deletionFail {l : DeletionLease} {message : String} {c' : Catalog}
      (h : AttemptDeletionWorker.Failing l message c c') :
      Effect env m c w (.deletionFail l message) .unit c' w
  | applyCompletedTombstones {b : TombstoneBundle} {actor : String} {now : Instant}
      {r : TombstoneImportResult} {c' : Catalog} (h : Recovery.Importing actor b c c') :
      Effect env m c w (.applyCompletedTombstones b actor now) (.imported r) c' w

theorem touches_refl (ht : program env settings m call = some t) : Touches env m c w call w := by
  cases call with
  | admitPut ticket faults =>
    obtain ⟨f, hf, _⟩ := Option.map_eq_some_iff.mp ht
    exact ⟨f, hf, .same⟩
  | reportPublish ticket self faults fresh freshRevision now =>
    simp only [program] at ht
    split at ht
    · next lease b hb => exact ⟨lease, b, hb, .refl w⟩
    · cases ht
  | objectGc faults now skip => exact .refl w
  | deletionExecute l faults now => exact .refl w
  | _ => rfl

theorem program_spec (ht : program env settings m call = some t) :
    t.wp (Touches env m c w call) (Raises c call) (fun a c' w' => Effect env m c w call a c' w') c w := by
  have hE : (∀ ticket principal segment fresh now,
      call ≠ .admitReserve ticket principal segment fresh now) → ∀ e, Raises c call e :=
    fun hne e ticket principal segment fresh now h => absurd h (hne ticket principal segment fresh now)
  by_cases hq : quiet call = true
  · refine Txn.wp_mono (fun _ h => h) (fun e _ => hE ?_ e) (fun a c' w' h => ?_)
      (Txn.wp_of_changes (quiet_core env settings hq ht) (fun _ _ _ h h' => h.trans h') (.refl c)
        (touches_refl ht) (fun _ => trivial))
    · rintro _ _ _ _ _ rfl
      cases hq
    · obtain ⟨hc, rfl, _⟩ := h
      exact .quiet hq hc
  cases call with
  | admitReserve ticket principal segment fresh now =>
    simp only [program] at ht
    split at ht
    · cases ht
    · next hfree =>
      obtain rfl := Option.some.inj ht
      rw [Txn.wp_map]
      refine Txn.wp_post (IngestionService.admitReserve_spec (fun e h => ?_)) ?_
      · rintro _ _ _ _ _ h' he
        cases h'
        exact h he
      · rintro a c' w' ⟨h, rfl⟩
        exact .admitReserve hfree h
  | admitPut ticket faults =>
    obtain ⟨f, hf, rfl⟩ := Option.map_eq_some_iff.mp ht
    rw [Txn.wp_map]
    refine Txn.wp_mono (fun w' h => ⟨f, hf, h⟩) (fun e _ => hE (by simp) e) ?_
      IngestionService.admitPut_spec
    rintro _ c' w' ⟨rfl, h⟩
    exact .admitPut hf h
  | admitCommit ticket faults freshReceipt freshOutbox committedAt =>
    obtain ⟨f, hf, rfl⟩ := Option.map_eq_some_iff.mp ht
    rw [Txn.wp_map]
    refine Txn.wp_mono (fun _ h => h) (fun e _ => hE (by simp) e) ?_
      (IngestionService.admitCommit_spec (A := fun w' => w' = w) rfl)
    rintro r c' w' ⟨h, rfl⟩
    exact .admitCommit hf h
  | deleteAttempt k now =>
    obtain rfl := Option.some.inj ht
    rw [Txn.wp_map]
    refine Txn.wp_mono (fun _ h => h) (fun e _ => hE (by simp) e) ?_ (IngestionService.deleteAttempt_spec (A := fun w' => w' = w))
    rintro a c' w' ⟨h, rfl⟩
    exact .deleteAttempt h
  | retentionDelete sweep k now =>
    simp only [program] at ht
    split at ht
    · split at ht
      · cases ht
        rw [Txn.wp_map]
        refine Txn.wp_mono (fun _ h => h) (fun e _ => hE (by simp) e) ?_
          (IngestionService.deleteAttempt_spec (A := fun w' => w' = w))
        rintro a c' w' ⟨h, rfl⟩
        exact .retentionDelete h
      · cases ht
    · cases ht
  | placeAttemptHold k holdId reason credentialId now =>
    obtain rfl := Option.some.inj ht
    rw [Txn.wp_map]
    refine Txn.wp_mono (fun _ h => h) (fun e _ => hE (by simp) e) ?_ (IngestionService.placeAttemptHold_spec (A := fun w' => w' = w))
    rintro a c' w' ⟨h, rfl⟩
    exact .placeAttemptHold h
  | releaseAttemptHold holdId credentialId expected releasedAt now =>
    obtain rfl := Option.some.inj ht
    rw [Txn.wp_map]
    refine Txn.wp_mono (fun _ h => h) (fun e _ => hE (by simp) e) ?_ (IngestionService.releaseAttemptHold_spec (A := fun w' => w' = w))
    rintro a c' w' ⟨h, rfl⟩
    exact .releaseAttemptHold h
  | reservationSweep self now skip fresh clock =>
    obtain rfl := Option.some.inj ht
    rw [Txn.wp_map]
    refine Txn.wp_mono (fun _ h => h) (fun e _ => hE (by simp) e) ?_ (ReservationSweeper.runOnce_spec (A := fun w' => w' = w))
    rintro n c' w' ⟨rfl, rfl, h⟩
    exact .reservationSweep h
  | objectGc faults now skip =>
    obtain rfl := Option.some.inj ht
    rw [Txn.wp_map]
    refine Txn.wp_mono (fun _ h => h) (fun e _ => hE (by simp) e) ?_ (ObjectGcWorker.runOnce_spec)
    rintro a c' w' h
    exact .objectGc h
  | objectGcAudit self faults now skip fresh =>
    obtain rfl := Option.some.inj ht
    rw [Txn.wp_map]
    refine Txn.wp_mono (fun _ h => h) (fun e _ => hE (by simp) e) ?_ (ObjectGcAuditWorker.runOnce_spec (A := fun w' => w' = w) rfl)
    rintro a c' w' ⟨rfl, rows, h⟩
    exact .objectGcAudit h
  | reportBuild ticket self faults =>
    simp only [program] at ht
    split at ht
    · cases ht
      rw [Txn.wp_map]
      refine Txn.wp_post (Txn.wp_of_changes (reportBuild_changes (R := SameCore) env)
        (fun _ _ _ h h' => h.trans h') (.refl c) rfl (fun e => hE (by simp) e)) ?_
      rintro b c' w' ⟨hc, rfl, parquet, rfl⟩
      exact .reportBuild hc
    · cases ht
  | reportReserve ticket self fresh now =>
    simp only [program] at ht
    split at ht
    · next lease b hb =>
      obtain rfl := Option.some.inj ht
      rw [Txn.wp_map]
      refine Txn.wp_mono (fun _ h => h) (fun e _ => hE (by simp) e) ?_
        (ReportRevisionWorker.reserveArtifacts_spec (A := fun w' => w' = w))
      rintro a c' w' ⟨h, rfl⟩
      exact .reportReserve hb h
    · cases ht
  | reportPublish ticket self faults fresh freshRevision now =>
    simp only [program] at ht
    split at ht
    · next lease b hb =>
      obtain rfl := Option.some.inj ht
      rw [Txn.wp_map]
      refine Txn.wp_mono (fun w' h => ⟨lease, b, hb, h⟩) (fun e _ => hE (by simp) e) ?_
        ReportRevisionWorker.publish_spec
      rintro a c' w' h
      exact .reportPublish hb h
    · cases ht
  | deletionClaim owner leaseSeconds now skip =>
    obtain rfl := Option.some.inj ht
    rw [Txn.wp_map]
    refine Txn.wp_mono (fun _ h => h) (fun e _ => hE (by simp) e) ?_ (AttemptDeletionWorker.claim_spec (A := fun w' => w' = w))
    rintro a c' w' ⟨h, rfl⟩
    exact .deletionClaim h
  | deletionExecute l faults now =>
    obtain rfl := Option.some.inj ht
    rw [Txn.wp_map]
    refine Txn.wp_mono (fun _ h => h) (fun e _ => hE (by simp) e) ?_ 
      (AttemptDeletionWorker.execute_spec (E := fun _ => True) (fun _ => trivial) trivial
        (fun _ _ => trivial))
    rintro a c' w' h
    exact .deletionExecute h
  | deletionFail l message =>
    obtain rfl := Option.some.inj ht
    rw [Txn.wp_map]
    refine Txn.wp_mono (fun _ h => h) (fun e _ => hE (by simp) e) ?_ (AttemptDeletionWorker.fail_spec (A := fun w' => w' = w))
    rintro a c' w' ⟨h, rfl⟩
    exact .deletionFail h
  | applyCompletedTombstones bundle actor now =>
    obtain rfl := Option.some.inj ht
    rw [Txn.wp_map]
    refine Txn.wp_mono (fun _ h => h) (fun e _ => hE (by simp) e) ?_ (Recovery.applyCompletedTombstones_spec (A := fun w' => w' = w))
    rintro a c' w' ⟨h, rfl⟩
    exact .applyCompletedTombstones h
  | _ => exact absurd rfl hq

theorem committed_of_wp {Q : Reply → Catalog → ObjectStore → Prop}
    (h : Step env settings s call (.committed a) s')
    (hQ : ∀ t, program env settings s.memory call = some t →
      t.wp (fun _ => True) (fun _ => True) Q s.catalog s.objects) : Q a s'.catalog s'.objects := by
  cases h with
  | run h =>
    unfold State.run at h
    cases ht : program env settings s.memory call with
    | none =>
      rw [ht] at h
      cases h
    | some t =>
      rw [ht] at h
      simp only [Txn.atomically] at h
      cases hr : t.run s.catalog s.objects with
      | mk r w' =>
        rw [hr] at h
        cases r with
        | ok r =>
          obtain ⟨a', c'⟩ := r
          cases h
          exact Txn.run_of_wp (hQ t ht) hr
        | error f => cases h

/-- A step either commits the effect of its call or leaves the catalog alone;
the object store changes in the ways of the call in both cases. -/
theorem step_cases {e : Ending Failure Reply} (h : Step env settings s call e s') :
    s'.memory = finish call e s.memory ∧ Touches env s.memory s.catalog s.objects call s'.objects ∧
    ((∃ a, e = .committed a ∧
        Effect env s.memory s.catalog s.objects call a s'.catalog s'.objects) ∨
      ((∀ a, e ≠ .committed a) ∧ s'.catalog = s.catalog ∧
        ∀ f, e = .raised f → Raises s.catalog call f)) := by
  cases h with
  | run h =>
    unfold State.run at h
    cases ht : program env settings s.memory call with
    | none =>
      rw [ht] at h
      cases h
    | some t =>
      have hspec := program_spec (c := s.catalog) (w := s.objects) ht
      have htouch := Txn.run_external_of_wp (touches_refl ht) hspec
      rw [ht] at h
      simp only [Txn.atomically] at h
      cases hr : t.run s.catalog s.objects with
      | mk r w' =>
        rw [hr] at h htouch
        cases r with
        | ok r =>
          obtain ⟨a, c'⟩ := r
          cases h
          exact ⟨rfl, htouch, Or.inl ⟨a, rfl, Txn.run_of_wp hspec hr⟩⟩
        | error f =>
          cases h
          refine ⟨rfl, htouch, Or.inr ⟨fun a ha => (nomatch ha), rfl, fun f' hf => ?_⟩⟩
          cases hf
          exact Txn.run_error_of_wp hspec hr
  | @die n s' h =>
    unfold State.die at h
    cases ht : program env settings s.memory call with
    | none =>
      rw [ht] at h
      cases h
    | some t =>
      rw [ht] at h
      cases h
      exact ⟨rfl, Txn.crash_of_wp n (touches_refl ht) (program_spec ht),
        Or.inr ⟨fun a ha => (nomatch ha), rfl, fun f hf => (nomatch hf)⟩⟩

end Deployment

end RankLens
