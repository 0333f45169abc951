import RankLens.Footprint
import RankLens.Ownership
import RankLens.Writes

namespace RankLens

open Interleaving (Rely Session Config Workload Reach)
open IngestionService (Flight)

namespace Interleaving

variable {σ ω L ε τ α μ : Type} {W : Workload σ ω L ε τ α μ}

/-- Steps that start no session, and end none. -/
def Quiet (W : Workload σ ω L ε τ α μ) : Config σ ω L ε τ α μ → Config σ ω L ε τ α μ → Prop :=
  Relation.ReflTransGen (fun c c' => Step W c none c' ∧
    c'.sessions.map Session.call = c.sessions.map Session.call)

theorem reach_of_quiet {c c' : Config σ ω L ε τ α μ} (h : Quiet W c c') : Reach W c c' := by
  induction h with
  | refl => exact .init
  | tail _ hs ih => exact ih.step hs.1

theorem quiet_done {call : τ} {m : μ} {db s' : σ} {w' : ω} {a : α}
    {post : List (Session σ ω L ε τ α)} (hpost : ∀ x ∈ post, x.held = ∅) (t : Txn σ ω L ε α) {w : ω}
    {H : Set L} {p : σ → σ} (h : t.run (p db) w = (.ok (a, s'), w')) : ∃ H' p',
      Quiet W ⟨db, w, m, ⟨call, t, H, p⟩ :: post⟩ ⟨db, w', m, ⟨call, .done a, H', p'⟩ :: post⟩ ∧
        p' db = s' := by
  induction t generalizing w H p with
  | done b =>
    cases h
    exact ⟨H, p, .refl, rfl⟩
  | fail e => cases h
  | acquire l t ih =>
    obtain ⟨H', p', hr, hp⟩ := ih (H := insert l H) h
    have hfree : ∀ x ∈ [] ++ post, l ∉ x.held := fun x hx => by
      rw [hpost x hx]
      exact Set.notMem_empty l
    have hs := @Step.acquire _ _ _ _ _ _ _ W db w m [] post call l t H p hfree
    exact ⟨H', p', .head ⟨hs, rfl⟩ hr, hp⟩
  | query k ih =>
    obtain ⟨H', p', hr, hp⟩ := ih (p db) (H := H) h
    have hs := @Step.query _ _ _ _ _ _ _ W db w m [] post call k H p
    exact ⟨H', p', .head ⟨hs, rfl⟩ hr, hp⟩
  | change f t ih =>
    obtain ⟨H', p', hr, hp⟩ := ih (H := H) (p := f ∘ p) h
    have hs := @Step.change _ _ _ _ _ _ _ W db w m [] post call f t H p
    exact ⟨H', p', .head ⟨hs, rfl⟩ hr, hp⟩
  | effect f k ih =>
    obtain ⟨H', p', hr, hp⟩ := ih w (H := H) h
    have hs := @Step.effect _ _ _ _ _ _ _ W db w m [] post call f k H p
    exact ⟨H', p', .head ⟨hs, rfl⟩ hr, hp⟩

end Interleaving

/-- The manifests, the revisions and the heads get rows of the given attempts only, and the
generations are the same. -/
@[mk_iff] structure Grows (P : AttemptKey → Prop) (c c' : Catalog) : Prop where
  generations : c'.generations = c.generations
  manifests : ∀ x ∈ c'.manifests, x ∈ c.manifests ∨ P x.attempt
  revisions : ∀ x ∈ c'.revisions, x ∈ c.revisions ∨ P x.attempt
  heads : ∀ x ∈ c'.heads, (∃ y ∈ c.heads, y.attempt = x.attempt) ∨ P x.attempt

namespace Grows

variable {P : AttemptKey → Prop} {c c' : Catalog}

theorem of_same (hg : c'.generations = c.generations) (hm : c'.manifests = c.manifests)
    (hr : c'.revisions = c.revisions) (hh : c'.heads = c.heads) : Grows P c c' where
  generations := hg
  manifests _ hx := Or.inl (hm ▸ hx)
  revisions _ hx := Or.inl (hr ▸ hx)
  heads x hx := Or.inl ⟨x, hh ▸ hx, rfl⟩

theorem of_core (h : SameCore c c') : Grows P c c' :=
  of_same h.generations h.manifests h.revisions h.heads

end Grows

/-- Only reservations are written, and values of `uuid4` taken. -/
def Reserves (c c' : Catalog) : Prop :=
  ∃ reservations issued, c' = { c with reservations := reservations, issued := issued }

/-- Besides, an attempt may have got its first generation. -/
def Admits (c c' : Catalog) : Prop :=
  ∃ generations reservations issued, c' = { c with
    generations := generations
    reservations := reservations
    issued := issued }

theorem Reserves.grows {P : AttemptKey → Prop} {c c' : Catalog} (h : Reserves c c') :
    Grows P c c' := by
  obtain ⟨_, _, rfl⟩ := h
  exact .of_same rfl rfl rfl rfl

theorem Reserves.admits {c c' : Catalog} (h : Reserves c c') : Admits c c' := by
  obtain ⟨reservations, issued, rfl⟩ := h
  exact ⟨c.generations, reservations, issued, rfl⟩

namespace Deployment

variable {env : Env} {settings : IngestionSettings} {P : AttemptKey → Prop}

section programs

variable {fresh : Uuid} {now : Instant} {principal : MachinePrincipal} {segment : SegmentUpload}

theorem addReservation_reserves {p : PreparedPayload} {g : Nat} :
    (IngestionService.addReservation principal segment p g fresh now).writes Reserves
      (fun _ => True) := by
  simp only [IngestionService.addReservation, Txn.writes_bind]
  refine writes_uuid4 (fun _ => ⟨_, _, rfl⟩) ?_
  exact Ref.writes_insert (fun _ => ⟨_, _, rfl⟩) trivial

theorem claimRange_reserves {p : PreparedPayload} {g : Nat} :
    (IngestionService.claimRange principal segment p g fresh now).writes Reserves
      (fun _ => True) := by
  simp only [IngestionService.claimRange, Txn.writes_bind, Ref.writes_select]
  intro c
  split
  · exact addReservation_reserves
  · next old _ =>
    have hreplace : (do
        let _ ← Tables.reservations.deleteWhere (fun r => r.reservationId = old.reservationId)
        IngestionService.addReservation principal segment p g fresh now).writes Reserves
          (fun _ => True) := by
      rw [Txn.writes_bind]
      exact Ref.writes_deleteWhere (fun _ _ => ⟨_, _, rfl⟩) (fun _ => addReservation_reserves)
    split
    · trivial
    · simp
    · exact hreplace

theorem currentGeneration_admits {tenantId : String} :
    (IngestionService.currentGeneration tenantId segment).writes Admits (fun _ => True) := by
  simp only [IngestionService.currentGeneration, Txn.writes_bind, Ref.writes_get]
  intro c
  split
  · simp only [Txn.writes_bind]
    exact Ref.writes_insert (fun _ => ⟨_, _, _, rfl⟩) trivial
  · simp

theorem admitReserve_admits :
    (IngestionService.admitReserve env settings principal segment fresh now).writes Admits
      (fun _ => True) := by
  simp only [IngestionService.admitReserve, IngestionService.assertScope,
    IngestionService.lockAdmission, Txn.writes_bind, Txn.writes_raiseIf, Txn.writes_lock,
    writes_orRaise]
  intro _ prepared _
  refine Txn.writes_mono (fun _ _ h => h) (fun _ _ => ?_) currentGeneration_admits
  simp only [Ref.writes_select]
  intro _ c
  split
  · simp
  · simp only [Txn.writes_bind, Txn.writes_raiseIf, Ref.writes_select]
    exact fun _ _ => Txn.writes_mono (fun _ _ => Reserves.admits) (fun _ h => h) claimRange_reserves

theorem admitPut_writes {R : Catalog → Catalog → Prop} {faults : Faults} {f : Flight} :
    (IngestionService.admitPut env faults f).writes R (fun _ => True) := by
  simp only [IngestionService.admitPut, putVerified, Txn.writes_bind, Txn.writes_perform]
  intro w
  split <;> simp

theorem recordAdmission_grows {tenantId : String} :
    (IngestionService.recordAdmission settings tenantId segment now).writes (Grows P)
      (fun _ => True) := by
  simp only [IngestionService.recordAdmission, IngestionService.bindField, Txn.writes_bind,
    Ref.writes_get]
  intro c
  split
  · simp only [Txn.writes_bind, Txn.writes_read]
    exact fun _ => Ref.writes_insert (fun _ => .of_same rfl rfl rfl rfl) trivial
  · simp only [Txn.writes_bind, Txn.writes_raiseIf]
    exact fun _ _ _ => Ref.writes_updateUnique (fun _ => .of_same rfl rfl rfl rfl) trivial

theorem addManifest_grows {f : Flight} {r : AdmissionReservation} {g : Nat}
    {freshReceipt freshOutbox : Uuid} :
    (IngestionService.addManifest settings f r g freshReceipt freshOutbox now).writes
      (Grows (fun k => k = f.attempt)) (fun _ => True) := by
  simp only [IngestionService.addManifest, Txn.writes_bind]
  refine writes_uuid4 (fun _ => .of_same rfl rfl rfl rfl) (Ref.writes_insert (fun c => ?_) ?_)
  · refine ⟨rfl, fun x hx => ?_, fun x hx => Or.inl hx, fun x hx => Or.inl ⟨x, hx, rfl⟩⟩
    obtain hx | rfl := Table.mem_of_mem_insert hx
    · exact Or.inl hx
    · exact Or.inr rfl
  refine Txn.writes_mono (fun _ _ h => h) (fun _ _ => ?_) recordAdmission_grows
  refine writes_uuid4 (fun _ => .of_same rfl rfl rfl rfl) ?_
  refine Ref.writes_insert (fun _ => .of_same rfl rfl rfl rfl) ?_
  exact Ref.writes_update (fun _ => .of_same rfl rfl rfl rfl) trivial

theorem placeAttemptHold_grows {k : AttemptKey} {holdId : Uuid} {reason credentialId : String} :
    (IngestionService.placeAttemptHold k holdId reason credentialId now).writes (Grows P)
      (fun _ => True) := by
  simp only [IngestionService.placeAttemptHold, Txn.writes_bind, Txn.writes_raiseIf,
    Txn.writes_lock, Ref.writes_get]
  intro _ _ _ _ _ c _ c'
  split
  · simp
  · simp only [Txn.writes_bind]
    refine Ref.writes_insert (fun _ => .of_same rfl rfl rfl rfl) ?_
    split
    · simp
    · exact Ref.writes_update (fun _ => .of_same rfl rfl rfl rfl) trivial

theorem expire_grows {self : ReservationSweeper} {fresh : Uuid → Uuid} {clock : Uuid → Instant}
    {r : AdmissionReservation} : (self.expire fresh clock r).writes (Grows P) (fun _ => True) := by
  simp only [ReservationSweeper.expire, Txn.writes_bind]
  refine Ref.writes_update (fun _ => .of_same rfl rfl rfl rfl) ?_
  rw [Ref.writes_select]
  intro c
  split
  · simp
  · simp only [Txn.writes_bind]
    refine writes_uuid4 (fun _ => .of_same rfl rfl rfl rfl) ?_
    exact Ref.writes_insert (fun _ => .of_same rfl rfl rfl rfl) trivial

theorem reservationSweep_grows {self : ReservationSweeper} {skip : List Uuid} {fresh : Uuid → Uuid}
    {clock : Uuid → Instant} :
    (self.runOnce now skip fresh clock).writes (Grows P) (fun _ => True) := by
  simp only [ReservationSweeper.runOnce, Txn.writes_bind]
  refine Ref.writes_selectForUpdate (fun rows => ?_)
  exact Txn.writes_forEach (fun r _ => expire_grows) trivial

theorem objectReferenceScopes_writes {R : Catalog → Catalog → Prop} {key : ObjectKey}
    {Q : List AttemptKey → Prop} (hQ : ∀ scopes, Q scopes) :
    (Integrity.objectReferenceScopes key).writes R Q := by
  simp only [Integrity.objectReferenceScopes, Txn.writes_bind, Ref.writes_select, Txn.writes_pure]
  exact fun _ _ _ => hQ _

theorem candidate_grows {id : Uuid} {f : ObjectGcCandidate → ObjectGcCandidate}
    {hf : ∀ r, (f r).candidateId = r.candidateId} {Q : Unit → Prop} (hQ : Q ()) :
    (Tables.candidates.update .staleData id f hf : Tx Unit).writes (Grows P) Q :=
  Ref.writes_update (fun _ => .of_same rfl rfl rfl rfl) hQ

theorem collect_grows {faults : Faults} {g : ObjectGcCandidate} :
    (ObjectGcWorker.collect env faults now g).writes (Grows P) (fun _ => True) := by
  simp only [ObjectGcWorker.collect, deleteVerified, Txn.writes_bind, Txn.writes_perform]
  intro w
  split
  · rw [Txn.writes_bind]
    exact candidate_grows trivial
  · trivial
  · rw [Txn.writes_bind]
    exact candidate_grows trivial
  · rw [Txn.writes_bind]
    exact candidate_grows trivial

theorem objectGc_grows {faults : Faults} {skip : List Uuid} :
    (ObjectGcWorker.runOnce env faults now skip).writes (Grows P) (fun _ => True) := by
  simp only [ObjectGcWorker.runOnce, Txn.writes_bind]
  refine Ref.writes_selectForUpdate (fun rows => ?_)
  split
  · simp
  · simp only [Txn.writes_bind]
    refine candidate_grows (objectReferenceScopes_writes (fun scopes => ?_))
    rw [Txn.writes_ite]
    refine ⟨fun _ => ?_, fun _ => ?_⟩
    · rw [Txn.writes_map]
      exact collect_grows
    · rw [Txn.writes_bind]
      exact candidate_grows trivial

theorem enqueueNotification_grows {incident : IntegrityIncident} {event : IncidentEvent} :
    (Integrity.enqueueNotification incident event fresh now).writes (Grows P) (fun _ => True) := by
  simp only [Integrity.enqueueNotification, Txn.writes_bind]
  refine writes_uuid4 (fun _ => .of_same rfl rfl rfl rfl) ?_
  exact Ref.writes_insert (fun _ => .of_same rfl rfl rfl rfl) trivial

theorem reportLoss_grows {fresh : String × String → Uuid × Uuid} {referenced : Bool}
    {category : IncidentCategory} {error : String} {g : ObjectGcCandidate} :
    (ObjectGcAuditWorker.reportLoss now fresh referenced category error g).writes (Grows P)
      (fun _ => True) := by
  simp only [ObjectGcAuditWorker.reportLoss, Txn.writes_ite, Txn.writes_pure, implies_true,
    and_true]
  intro _
  simp only [Integrity.recordIntegrityIncidents, Txn.writes_bind]
  refine objectReferenceScopes_writes (fun scopes => ?_)
  refine Txn.writes_forEach (fun scope _ => ?_) trivial
  simp only [Integrity.recordIncident, Txn.writes_bind, Ref.writes_select]
  intro c
  split
  · simp only [Txn.writes_bind]
    refine writes_uuid4 (fun _ => .of_same rfl rfl rfl rfl) ?_
    exact Ref.writes_insert (fun _ => .of_same rfl rfl rfl rfl) enqueueNotification_grows
  · simp only [Txn.writes_bind]
    exact Ref.writes_update (fun _ => .of_same rfl rfl rfl rfl) enqueueNotification_grows

theorem quarantine_grows {self : ObjectGcAuditWorker} {fresh : String × String → Uuid × Uuid}
    {referenced : Bool} {category : IncidentCategory} {error : String} {g : ObjectGcCandidate} :
    (self.quarantine now fresh referenced category error g).writes (Grows P) (fun _ => True) := by
  simp only [ObjectGcAuditWorker.quarantine, Txn.writes_bind]
  refine Txn.writes_mono (fun _ _ h => h) (fun _ _ => ?_) reportLoss_grows
  exact Ref.writes_update (fun _ => .of_same rfl rfl rfl rfl) trivial

theorem audit_grows {self : ObjectGcAuditWorker} {faults : Faults}
    {fresh : Uuid → String × String → Uuid × Uuid} {g : ObjectGcCandidate} :
    (self.audit env faults now fresh g).writes (Grows P) (fun _ => True) := by
  simp only [ObjectGcAuditWorker.audit, existsVerified, Txn.writes_bind, Txn.writes_lock]
  refine objectReferenceScopes_writes (fun scopes => ?_)
  rw [Txn.writes_perform]
  intro w
  split
  · exact quarantine_grows
  · trivial
  · rw [Txn.writes_ite]
    exact ⟨fun _ => candidate_grows trivial, fun _ => candidate_grows trivial⟩
  · rw [Txn.writes_ite]
    exact ⟨fun _ => candidate_grows trivial, fun _ => quarantine_grows⟩

theorem objectGcAudit_grows {self : ObjectGcAuditWorker} {faults : Faults} {skip : List Uuid}
    {fresh : Uuid → String × String → Uuid × Uuid} :
    (self.runOnce env faults now skip fresh).writes (Grows P) (fun _ => True) := by
  simp only [ObjectGcAuditWorker.runOnce, Txn.writes_bind]
  refine Ref.writes_selectForUpdate (fun rows => ?_)
  refine Txn.writes_forEach (fun g _ => audit_grows) ?_
  simp

theorem deletionClaim_grows {owner : String} {leaseSeconds : Nat} {skip : List AttemptKey} :
    (AttemptDeletionWorker.claim owner leaseSeconds now skip).writes (Grows P)
      (fun _ => True) := by
  simp only [AttemptDeletionWorker.claim, Txn.writes_bind]
  refine Ref.writes_selectForUpdate (fun rows => ?_)
  split
  · simp
  · rw [Txn.writes_bind]
    exact Ref.writes_update (fun _ => .of_same rfl rfl rfl rfl) trivial

theorem deletionFail_grows {l : DeletionLease} {message : String} :
    (AttemptDeletionWorker.fail l message).writes (Grows P) (fun _ => True) := by
  simp only [AttemptDeletionWorker.fail, Txn.writes_bind, Ref.writes_get]
  intro c
  split
  · simp
  · rw [Txn.writes_ite]
    exact ⟨fun _ => Ref.writes_update (fun _ => .of_same rfl rfl rfl rfl) trivial, fun _ => trivial⟩

theorem deleteRows_grows {k : AttemptKey} {receiptIds : List Uuid} {record : Option AttemptRecord}
    {keys : List ObjectKey} {Q : Nat → Prop} (hQ : ∀ n, Q n) :
    (AttemptDeletionWorker.deleteRows k receiptIds record keys).writes (Grows P) Q := by
  have hreceipts : ∀ {Q : Nat → Prop}, (∀ n, Q n) →
      (AttemptDeletionWorker.deleteReceipts receiptIds).writes (Grows P) Q := by
    intro Q hQ
    simp only [AttemptDeletionWorker.deleteReceipts, Txn.writes_ite, Txn.writes_bind]
    refine ⟨fun _ => hQ _, fun _ => ?_⟩
    refine Ref.writes_deleteWhere (fun _ _ => .of_same rfl rfl rfl rfl) (fun _ => ?_)
    exact Ref.writes_deleteWhere (fun _ _ => .of_same rfl rfl rfl rfl) (fun _ => hQ _)
  have hrequests : ∀ {Q : Nat → Prop}, (∀ n, Q n) →
      (AttemptDeletionWorker.deleteRequests k).writes (Grows P) Q := by
    intro Q hQ
    simp only [AttemptDeletionWorker.deleteRequests, Txn.writes_bind, Ref.writes_select]
    refine fun _ => Txn.writes_forEach (fun r _ => ?_) (hQ _)
    simp only [AttemptDeletionWorker.deleteRequest, Txn.writes_bind]
    exact Ref.writes_deleteWhere (fun _ _ => .of_same rfl rfl rfl rfl) (fun _ => trivial)
  have hobservations : ∀ {Q : Nat → Prop}, (∀ n, Q n) →
      (AttemptDeletionWorker.deleteObservations k record).writes (Grows P) Q := by
    intro Q hQ
    unfold AttemptDeletionWorker.deleteObservations
    split
    · exact hQ _
    · rw [Txn.writes_ite]
      exact ⟨fun _ => hQ _, fun _ =>
        Ref.writes_deleteWhere (fun _ _ => .of_same rfl rfl rfl rfl) hQ⟩
  have hcandidates : ∀ {Q : Nat → Prop}, (∀ n, Q n) →
      (AttemptDeletionWorker.deleteCandidates keys).writes (Grows P) Q := by
    intro Q hQ
    simp only [AttemptDeletionWorker.deleteCandidates, Txn.writes_ite]
    exact ⟨fun _ => hQ _, fun _ =>
      Ref.writes_deleteWhere (fun _ _ => .of_same rfl rfl rfl rfl) hQ⟩
  simp only [AttemptDeletionWorker.deleteRows, Txn.writes_bind]
  refine hreceipts (fun _ => hrequests (fun _ => ?_))
  refine Ref.writes_deleteWhere (fun c q => ⟨rfl, fun x hx => Or.inl hx,
    fun x hx => Or.inl (Table.mem_deleteWhere.mp hx).1, fun x hx => Or.inl ⟨x, hx, rfl⟩⟩)
    (fun _ => ?_)
  refine Ref.writes_deleteWhere (fun c q => ⟨rfl, fun x hx => Or.inl hx, fun x hx => Or.inl hx,
    fun x hx => Or.inl ⟨x, (Table.mem_deleteWhere.mp hx).1, rfl⟩⟩) (fun _ => ?_)
  refine Ref.writes_deleteWhere (fun c q => ⟨rfl, fun x hx =>
    Or.inl (Table.mem_deleteWhere.mp hx).1, fun x hx => Or.inl hx, fun x hx => Or.inl ⟨x, hx, rfl⟩⟩)
    (fun _ => ?_)
  refine Ref.writes_deleteWhere (fun _ _ => .of_same rfl rfl rfl rfl) (fun _ => ?_)
  refine hobservations (fun _ => ?_)
  refine Ref.writes_deleteWhere (fun _ _ => .of_same rfl rfl rfl rfl) (fun _ => ?_)
  exact hcandidates (fun _ => hQ _)

theorem erase_grows {faults : Faults} {k : AttemptKey} :
    (AttemptDeletionWorker.erase env faults k now).writes (Grows P) (fun _ => True) := by
  simp only [AttemptDeletionWorker.erase, AttemptDeletionWorker.findObjects,
    AttemptDeletionWorker.lockObjects, AttemptDeletionWorker.sharedObjects, Txn.writes_bind,
    Ref.writes_select, Ref.writes_get, Ref.writes_lockAll, Txn.writes_pure]
  refine fun _ _ _ _ _ => Txn.writes_forEach (fun x _ => ?_) ?_
  · simp [AttemptDeletionWorker.deleteObject, deleteVerified]
  · exact deleteRows_grows (fun _ => Ref.writes_update (fun _ => .of_same rfl rfl rfl rfl) trivial)

theorem deletionExecute_grows {faults : Faults} {l : DeletionLease} :
    (AttemptDeletionWorker.execute env faults l now).writes (Grows P) (fun _ => True) := by
  simp only [AttemptDeletionWorker.execute, Txn.writes_bind, Ref.writes_get, Txn.writes_ite,
    Txn.writes_lock, Ref.writes_select, Txn.writes_raiseIf, Txn.writes_pure, implies_true, and_true]
  refine fun _ _ _ _ _ => ⟨fun _ _ _ => ?_, fun _ => ?_⟩
  · exact Txn.writes_mono (fun _ _ h => h) (fun _ _ => trivial) erase_grows
  · exact Ref.writes_update (fun _ => .of_same rfl rfl rfl rfl) trivial

theorem lockAndEnsure_grows {self : ReportRevisionWorker} {fresh : ObjectKey → Uuid}
    {x : ObjectKey × String} :
    (self.lockAndEnsure fresh now x).writes (Grows P) (fun _ => True) := by
  simp only [ReportRevisionWorker.lockAndEnsure, ReportRevisionWorker.ensureArtifactCandidate,
    Txn.writes_bind, Txn.writes_lock, Ref.writes_select]
  intro c
  split
  · simp only [Txn.writes_bind]
    refine writes_uuid4 (fun _ => .of_same rfl rfl rfl rfl) ?_
    exact Ref.writes_insert (fun _ => .of_same rfl rfl rfl rfl) trivial
  · simp only [Txn.writes_bind, Txn.writes_raiseIf, Txn.writes_ite]
    exact fun _ =>
      ⟨fun _ => Ref.writes_update (fun _ => .of_same rfl rfl rfl rfl) trivial, fun _ => trivial⟩

theorem complete_grows {l : WorkLease} {b : BuiltReport} :
    (ReportRevisionWorker.complete l b now).writes (Grows P) (fun _ => True) := by
  simp only [ReportRevisionWorker.complete, ReportRevisionWorker.protectArtifacts, Txn.writes_bind]
  refine Ref.writes_update (fun _ => .of_same rfl rfl rfl rfl) ?_
  refine Txn.writes_forEach (fun x _ => ?_) trivial
  simp only [ReportRevisionWorker.protectArtifact, Txn.writes_bind, Ref.writes_select]
  intro c
  split
  · trivial
  · simp only [Txn.writes_bind, Txn.writes_raiseIf]
    exact fun _ => Ref.writes_update (fun _ => .of_same rfl rfl rfl rfl) trivial

theorem ensureRevision_grows {b : BuiltReport} {head : Option ReportHead} :
    (ReportRevisionWorker.ensureRevision b head fresh now).writes
      (Grows (fun k => k = b.attempt)) (fun _ => True) := by
  simp only [ReportRevisionWorker.ensureRevision, Txn.writes_bind, Ref.writes_select]
  intro c
  split
  · simp only [Txn.writes_bind]
    refine writes_uuid4 (fun _ => .of_same rfl rfl rfl rfl) ?_
    refine Ref.writes_insert (fun c => ?_) trivial
    refine ⟨rfl, fun x hx => Or.inl hx, fun x hx => ?_, fun x hx => Or.inl ⟨x, hx, rfl⟩⟩
    obtain hx | rfl := Table.mem_of_mem_insert hx
    · exact Or.inl hx
    · exact Or.inr rfl
  · simp

theorem advanceHead_grows {b : BuiltReport} {head : Option ReportHead} {r : ReportRevision} :
    (ReportRevisionWorker.advanceHead b head r now).writes (Grows (fun k => k = b.attempt))
      (fun _ => True) := by
  unfold ReportRevisionWorker.advanceHead
  split
  · refine Ref.writes_insert (fun c => ?_) trivial
    refine ⟨rfl, fun x hx => Or.inl hx, fun x hx => Or.inl hx, fun x hx => ?_⟩
    obtain hx | rfl := Table.mem_of_mem_insert hx
    · exact Or.inl ⟨x, hx, rfl⟩
    · exact Or.inr rfl
  · refine Ref.writes_update (fun c => ?_) trivial
    refine ⟨rfl, fun x hx => Or.inl hx, fun x hx => Or.inl hx, fun x hx => ?_⟩
    have hx : x ∈ c.heads.modify b.attempt (ReportRevisionWorker.moveHead b r now)
      (fun _ => rfl) := hx
    obtain ⟨hx, _⟩ | ⟨y, hy, _, rfl⟩ := Table.mem_modify.mp hx
    · exact Or.inl ⟨x, hx, rfl⟩
    · exact Or.inl ⟨y, hy, rfl⟩

theorem publishReport_grows {self : ReportRevisionWorker} {faults : Faults} {l : WorkLease}
    {b : BuiltReport} {fresh : ObjectKey → Uuid} {freshRevision : Uuid} :
    (self.publishReport env faults l b fresh freshRevision now).writes
      (Grows (fun k => k = b.attempt)) (fun _ => True) := by
  simp only [ReportRevisionWorker.publishReport, putVerified, Txn.writes_bind]
  refine Txn.writes_forEach (fun x _ => lockAndEnsure_grows) ?_
  simp only [Txn.writes_perform, writes_orRaise, Ref.writes_get, Txn.writes_ite, Txn.writes_bind]
  refine fun _ _ _ _ _ _ c => ⟨fun _ => complete_grows, fun _ => ?_⟩
  refine Txn.writes_mono (fun _ _ h => h) (fun r _ => ?_) ensureRevision_grows
  exact Txn.writes_mono (fun _ _ h => h) (fun _ _ => complete_grows) advanceHead_grows

end programs

/-- The attempts the end of a call leaves fenced. -/
def fences : Call → Reply → List AttemptKey
  | .deleteAttempt k _, .deleted (.generation _) => [k]
  | .retentionDelete _ k _, .deleted (.generation _) => [k]
  | .applyCompletedTombstones b _ _, .imported r =>
    if r.replayed then [] else b.entries.map TombstoneEntry.attempt
  | _, _ => []

/-- How a commit may change what is known of one attempt. -/
structure Ages (o n : Option AttemptGeneration) : Prop where
  monotone : ∀ g, o = some g → ∃ g', n = some g' ∧ g.generation ≤ g'.generation ∧
    (g.deletedAt ≠ none → g'.deletedAt ≠ none)
  origin : ∀ g', n = some g' → g'.deletedAt = none → o = some g' ∨ g'.generation = 0

theorem Ages.refl (o : Option AttemptGeneration) : Ages o o :=
  ⟨fun g hg => ⟨g, hg, Nat.le_refl _, id⟩, fun _ hg _ => Or.inl hg⟩

/-- What a commit under the locks does to the generations and to the rows of the attempts. -/
structure Respects (H : Set Lock) (c c' : Catalog) : Prop where
  own : ∀ k, Lock.attempt k ∉ H → c'.generations.get k = c.generations.get k
  ages : ∀ k, Ages (c.generations.get k) (c'.generations.get k)
  manifests : ∀ x ∈ c'.manifests, x ∈ c.manifests ∨ ¬Fenced x.attempt c'
  revisions : ∀ x ∈ c'.revisions, x ∈ c.revisions ∨ ¬Fenced x.attempt c'
  heads : ∀ x ∈ c'.heads, (∃ y ∈ c.heads, y.attempt = x.attempt) ∨ ¬Fenced x.attempt c'

/-- What every commit guarantees to the other transactions. -/
def Guarantee (call : Call) (a : Reply) (H : Set Lock) (c c' : Catalog) : Prop :=
  Respects H c c' ∧ ∀ k ∈ fences call a, Fenced k c'

theorem fenced_iff {k : AttemptKey} {c : Catalog} :
    Fenced k c ↔ ∃ g, c.generations.get k = some g ∧ g.deletedAt ≠ none := by
  constructor
  · rintro ⟨g, hg, rfl, hd⟩
    exact ⟨g, Table.get_of_mem hg, hd⟩
  · rintro ⟨g, hg, hd⟩
    exact ⟨g, Table.mem_of_get hg, Table.key_of_get hg, hd⟩

theorem generation_stays {k : AttemptKey} {H : Set Lock} {c c' : Catalog}
    (hk : Lock.attempt k ∈ H) (h : Rely Guarantee H c c') :
    c'.generations.get k = c.generations.get k := by
  refine Rely.preserves (P := fun s => s.generations.get k = c.generations.get k) ?_ h rfl
  intro call a H' s s' hd hG hs
  rw [hG.1.own k (fun hk' => Set.disjoint_left.mp hd hk' hk), hs]

/-- What a transaction has done so far: rows only for the attempts in `P`, which are not
fenced, the attempts in `S` fenced, and those in `U` untouched. -/
structure Working (P S U : AttemptKey → Prop) (H : Set Lock) (c : Catalog)
    (p : Catalog → Catalog) : Prop where
  own : ∀ c', Rely Guarantee H c c' → ∀ k, Lock.attempt k ∉ H →
    (p c').generations.get k = c'.generations.get k
  ages : ∀ c', Rely Guarantee H c c' → ∀ k, Ages (c'.generations.get k) ((p c').generations.get k)
  manifests : ∀ c', ∀ x ∈ (p c').manifests, x ∈ c'.manifests ∨ P x.attempt
  revisions : ∀ c', ∀ x ∈ (p c').revisions, x ∈ c'.revisions ∨ P x.attempt
  heads : ∀ c', ∀ x ∈ (p c').heads, (∃ y ∈ c'.heads, y.attempt = x.attempt) ∨ P x.attempt
  live : ∀ k, P k → ∀ c', Rely Guarantee H c c' → ¬Fenced k (p c')
  shut : ∀ k, S k → ∀ c', Rely Guarantee H c c' → Fenced k (p c')
  rest : ∀ k, U k → ∀ c', (p c').generations.get k = c'.generations.get k

section working

variable {S U : AttemptKey → Prop} {H : Set Lock} {c c' : Catalog} {p : Catalog → Catalog}
  {k : AttemptKey}

theorem working_start : Working P S U ∅ c id ↔ (∀ k, P k → ∀ c', Rely Guarantee ∅ c c' →
    ¬Fenced k c') ∧ ∀ k, S k → ∀ c', Rely Guarantee ∅ c c' → Fenced k c' :=
  ⟨fun h => ⟨h.live, h.shut⟩, fun h => ⟨fun _ _ _ _ => rfl, fun _ _ _ => .refl _,
    fun _ _ hx => Or.inl hx, fun _ _ hx => Or.inl hx, fun _ x hx => Or.inl ⟨x, hx, rfl⟩, h.1, h.2,
    fun _ _ _ => rfl⟩⟩

theorem Working.stable (h : Working P S U H c p) (hc : Rely Guarantee H c c') :
    Working P S U H c' p where
  own := fun c'' hc' => h.own c'' (hc.trans hc')
  ages := fun c'' hc' => h.ages c'' (hc.trans hc')
  manifests := h.manifests
  revisions := h.revisions
  heads := h.heads
  live := fun k hk c'' hc' => h.live k hk c'' (hc.trans hc')
  shut := fun k hk c'' hc' => h.shut k hk c'' (hc.trans hc')
  rest := h.rest

theorem Working.lock (h : Working P S U H c p) {H' : Set Lock} (hH : H ⊆ H') :
    Working P S U H' c p where
  own := fun c' hc k hk => h.own c' (hc.anti hH) k (fun hk' => hk (hH hk'))
  ages := fun c' hc => h.ages c' (hc.anti hH)
  manifests := h.manifests
  revisions := h.revisions
  heads := h.heads
  live := fun k hk c' hc => h.live k hk c' (hc.anti hH)
  shut := fun k hk c' hc => h.shut k hk c' (hc.anti hH)
  rest := h.rest

theorem fenced_same (h : c'.generations = c.generations) : Fenced k c' ↔ Fenced k c := by
  unfold Fenced
  rw [h]

theorem Working.grow (h : Working P S U H c p) {f : Catalog → Catalog}
    (hf : ∀ c, Grows P c (f c)) : Working P S U H c (f ∘ p) where
  own := fun c' hc k hk => by
    show (f (p c')).generations.get k = _
    rw [(hf (p c')).generations, h.own c' hc k hk]
  ages := fun c' hc k => by
    show Ages _ ((f (p c')).generations.get k)
    rw [(hf (p c')).generations]
    exact h.ages c' hc k
  manifests := fun c' x hx => ((hf (p c')).manifests x hx).elim (h.manifests c' x) Or.inr
  revisions := fun c' x hx => ((hf (p c')).revisions x hx).elim (h.revisions c' x) Or.inr
  heads := fun c' x hx => by
    obtain ⟨y, hy, hk⟩ | hP := (hf (p c')).heads x hx
    · rw [← hk]
      exact h.heads c' y hy
    · exact Or.inr hP
  live := fun k hk c' hc => by
    rw [Function.comp, fenced_same (hf (p c')).generations]
    exact h.live k hk c' hc
  shut := fun k hk c' hc => by
    rw [Function.comp, fenced_same (hf (p c')).generations]
    exact h.shut k hk c' hc
  rest := fun k hk c' => by
    show (f (p c')).generations.get k = _
    rw [(hf (p c')).generations, h.rest k hk c']

theorem Working.body_locked {α : Type} {t : Tx α} (ht : t.writes (Grows P) (fun _ => True))
    (h : Working P S U H c p) : t.rwp (Rely Guarantee)
      (fun _ H' c p => Working P S U H' c p ∧ H ⊆ H') H c p := by
  refine Txn.rwp_mono (Txn.rwp_of_writes (J := fun H' c p => Working P S U H' c p ∧ H ⊆ H')
    ?_ ?_ ?_ ht ⟨h, subset_rfl⟩) (fun _ _ _ _ hJ => hJ.1)
  · exact fun H s s' p hs hJ => ⟨hJ.1.stable hs, hJ.2⟩
  · exact fun l H s p hJ => ⟨hJ.1.lock (Set.subset_insert l H),
      hJ.2.trans (Set.subset_insert l H)⟩
  · exact fun H s p f hf hJ => ⟨hJ.1.grow hf, hJ.2⟩

theorem Working.body {α : Type} {t : Tx α} (ht : t.writes (Grows P) (fun _ => True))
    (h : Working P S U H c p) :
    t.rwp (Rely Guarantee) (fun _ H c p => Working P S U H c p) H c p :=
  Txn.rwp_mono (h.body_locked ht) (fun _ _ _ _ hJ => hJ.1)

theorem Working.commits (h : Working P S U H c p) {call : Call} {a : Reply}
    (hS : ∀ k ∈ fences call a, S k) : Interleaving.Commits Guarantee call a H c p := by
  intro c' hc
  refine ⟨⟨h.own c' hc, h.ages c' hc, fun x hx => ?_, fun x hx => ?_, fun x hx => ?_⟩,
    fun k hk => h.shut k (hS k hk) c' hc⟩
  · exact (h.manifests c' x hx).imp_right (fun hP => h.live _ hP c' hc)
  · exact (h.revisions c' x hx).imp_right (fun hP => h.live _ hP c' hc)
  · exact (h.heads c' x hx).imp_right (fun hP => h.live _ hP c' hc)

theorem Working.generation (h : Working (fun _ => False) S U H c p)
    (hk : Lock.attempt k ∈ H) {f : Table AttemptGeneration.attempt → Table AttemptGeneration.attempt}
    (hother : ∀ t k', k' ≠ k → (f t).get k' = t.get k')
    (hages : ∀ c', Rely Guarantee H c c' →
      Ages (c'.generations.get k) ((f (p c').generations).get k)) :
    Working (fun _ => False) (fun x => S x ∧ x ≠ k) (fun x => U x ∧ x ≠ k) H c
      (fun c => { p c with generations := f (p c).generations }) where
  own := fun c' hc k' hk' => by
    have hne : k' ≠ k := fun he => hk' (he ▸ hk)
    rw [← h.own c' hc k' hk']
    exact hother _ k' hne
  ages := fun c' hc k' => by
    by_cases hne : k' = k
    · subst hne
      exact hages c' hc
    · show Ages _ ((f (p c').generations).get k')
      rw [hother _ k' hne]
      exact h.ages c' hc k'
  manifests := h.manifests
  revisions := h.revisions
  heads := h.heads
  live := fun _ hk' => hk'.elim
  shut := fun k' hk' c' hc => by
    obtain ⟨g, hg, hd⟩ := fenced_iff.mp (h.shut k' hk'.1 c' hc)
    exact fenced_iff.mpr ⟨g, (hother _ k' hk'.2).trans hg, hd⟩
  rest := fun k' hk' c' => (hother _ k' hk'.2).trans (h.rest k' hk'.1 c')

theorem Working.learn {S' U' : AttemptKey → Prop} (h : Working (fun _ => False) S U H c p)
    (hlive : ∀ k, P k → ∀ c', Rely Guarantee H c c' → ¬Fenced k (p c'))
    (hshut : ∀ k, S' k → ∀ c', Rely Guarantee H c c' → Fenced k (p c'))
    (hrest : ∀ k, U' k → U k) : Working P S' U' H c p where
  own := h.own
  ages := h.ages
  manifests := fun c' x hx => (h.manifests c' x hx).imp_right False.elim
  revisions := fun c' x hx => (h.revisions c' x hx).imp_right False.elim
  heads := fun c' x hx => (h.heads c' x hx).imp_right False.elim
  live := hlive
  shut := hshut
  rest := fun k hk => h.rest k (hrest k hk)

theorem get_insert_other {r : AttemptGeneration} (t : Table AttemptGeneration.attempt)
    {k' : AttemptKey} (h : k' ≠ r.attempt) : (t.insert r).get k' = t.get k' := by
  refine Table.get_congr (fun y hy => ⟨fun hm => ?_, Table.mem_insert_of_mem⟩)
  obtain hm | rfl := Table.mem_of_mem_insert hm
  · exact hm
  · exact absurd hy.symm h

theorem Working.reads {α : Type} (h : Working (fun _ => False) S U H c p)
    (hk : Lock.attempt k ∈ H) (hU : U k) {g : Option AttemptGeneration → Tx α}
    {Q : α → Set Lock → Catalog → (Catalog → Catalog) → Prop}
    (hg : ∀ c₁ o, Working (fun _ => False) S U H c₁ p → c₁.generations.get k = o →
      (∀ c', Rely Guarantee H c₁ c' → (p c').generations.get k = o ∧ c'.generations.get k = o) →
      (g o).rwp (Rely Guarantee) Q H c₁ p) :
    (Tables.generations.get k >>= g).rwp (Rely Guarantee) Q H c p := by
  rw [Txn.rwp_bind, Ref.rwp_get]
  intro c₁ hc₁
  rw [Tables.generations_view, h.rest k hU c₁]
  refine hg c₁ _ (h.stable hc₁) rfl (fun c' hc' => ?_)
  have hstay := generation_stays hk hc'
  exact ⟨(h.rest k hU c').trans hstay, hstay⟩

theorem Working.insertGeneration (h : Working (fun _ => False) S U H c p)
    {r : AttemptGeneration} (hr : r.attempt = k) (hk : Lock.attempt k ∈ H)
    (hnone : ∀ c', Rely Guarantee H c c' →
      (p c').generations.get k = none ∧ c'.generations.get k = none)
    (hzero : r.deletedAt = none → r.generation = 0)
    {Q : Unit → Set Lock → Catalog → (Catalog → Catalog) → Prop}
    (hQ : ∀ H' c₁ p', H ⊆ H' →
      Working (fun _ => False) (fun x => S x ∧ x ≠ k) (fun x => U x ∧ x ≠ k) H' c₁ p' →
      (∀ c', Rely Guarantee H' c₁ c' → (p' c').generations.get k = some r) → Q () H' c₁ p') :
    (Tables.generations.insert .integrity r : Tx Unit).rwp (Rely Guarantee) Q H c p := by
  subst hr
  refine Ref.rwp_insert (fun H' c₁ hH _ hc₁ _ => ?_)
  have hget : ∀ c', Rely Guarantee H' c₁ c' →
      ((p c').generations.insert r).get r.attempt = some r := by
    intro c' hc'
    have hinsert : ((p c').generations.insert r).get r.attempt =
        if r.attempt = r.attempt then some r else (p c').generations.get r.attempt :=
      Table.get_insert (hnone c' (hc₁.trans (hc'.anti hH))).1
    rw [hinsert, if_pos rfl]
  refine hQ H' c₁ _ hH (((h.stable hc₁).lock hH).generation (hH hk)
    (fun t k' hne => get_insert_other t hne) (fun c' hc' => ?_)) hget
  rw [hget c' hc', (hnone c' (hc₁.trans (hc'.anti hH))).2]
  refine ⟨fun g hg => (Option.some_ne_none g hg.symm).elim, fun g hg hd => Or.inr ?_⟩
  cases hg
  exact hzero hd

theorem Working.updateGeneration (h : Working (fun _ => False) S U H c p)
    {g : AttemptGeneration} {f : AttemptGeneration → AttemptGeneration}
    {hf : ∀ r, (f r).attempt = r.attempt} (hk : Lock.attempt k ∈ H)
    (hsome : ∀ c', Rely Guarantee H c c' →
      (p c').generations.get k = some g ∧ c'.generations.get k = some g)
    (hle : g.generation ≤ (f g).generation) (hd : (f g).deletedAt ≠ none)
    {Q : Unit → Set Lock → Catalog → (Catalog → Catalog) → Prop}
    (hQ : ∀ H' c₁ p', H ⊆ H' →
      Working (fun _ => False) (fun x => S x ∧ x ≠ k) (fun x => U x ∧ x ≠ k) H' c₁ p' →
      (∀ c', Rely Guarantee H' c₁ c' → (p' c').generations.get k = some (f g)) → Q () H' c₁ p') :
    (Tables.generations.update .staleData k f hf : Tx Unit).rwp (Rely Guarantee) Q H c p := by
  refine Ref.rwp_update (fun c₁ r hc₁ _ => ?_)
  have hH := Set.subset_insert (Tables.generations.row k) H
  have hget : ∀ c', Rely Guarantee (insert (Tables.generations.row k) H) c₁ c' →
      ((p c').generations.modify k f hf).get k = some (f g) := fun c' hc' =>
    Table.get_modify_self (hsome c' (hc₁.trans (hc'.anti hH))).1
  refine hQ _ c₁ _ hH (((h.stable hc₁).lock hH).generation (hH hk)
    (fun t k' hne => Table.get_modify_of_ne hne) (fun c' hc' => ?_)) hget
  rw [hget c' hc', (hsome c' (hc₁.trans (hc'.anti hH))).2]
  refine ⟨fun g' hg' => ?_, fun g' hg' hd' => ?_⟩
  · cases hg'
    exact ⟨f g, rfl, hle, fun _ => hd⟩
  · cases hg'
    exact absurd hd' hd

theorem not_fenced_of_get {g : AttemptGeneration} (h : c.generations.get k = some g)
    (hd : g.deletedAt = none) : ¬Fenced k c := by
  rw [fenced_iff]
  rintro ⟨g', hg', hd'⟩
  rw [h] at hg'
  cases hg'
  exact hd' hd

theorem currentGeneration_opens {tenantId : String} {segment : SegmentUpload}
    (h : Working (fun _ => False) S U H c p) (hk : Lock.attempt (segment.attempt tenantId) ∈ H)
    (hU : U (segment.attempt tenantId)) :
    (IngestionService.currentGeneration tenantId segment).rwp (Rely Guarantee)
      (fun _ H c p => Working (fun x => x = segment.attempt tenantId) (fun _ => False)
        (fun _ => False) H c p) H c p := by
  unfold IngestionService.currentGeneration
  refine h.reads hk hU (fun c₁ o h₁ ho hget => ?_)
  cases o with
  | none =>
    simp only [Txn.rwp_bind, Txn.rwp_pure]
    refine h₁.insertGeneration (k := segment.attempt tenantId) ?_ hk hget ?_
      (fun H' c₂ p' hH h₂ hget' => ?_)
    · rfl
    · exact fun _ => rfl
    refine h₂.learn ?_ (fun _ hx => hx.elim) (fun _ hx => hx.elim)
    rintro _ rfl c' hc'
    exact not_fenced_of_get (hget' c' hc') rfl
  | some g =>
    simp only [Txn.rwp_bind, Txn.rwp_raiseIf, Txn.rwp_pure]
    intro hd
    refine h₁.learn ?_ (fun _ hx => hx.elim) (fun _ hx => hx.elim)
    rintro _ rfl c' hc'
    exact not_fenced_of_get (hget c' hc').1 (by simpa using hd)

theorem fence_shuts {o : Option AttemptGeneration} {now : Instant}
    (h : Working (fun _ => False) S U H c p) (hk : Lock.attempt k ∈ H)
    (hget : ∀ c', Rely Guarantee H c c' →
      (p c').generations.get k = o ∧ c'.generations.get k = o) :
    (IngestionService.fence k o now).rwp (Rely Guarantee) (fun _ H c p =>
      Working (fun _ => False) (fun x => x = k) (fun _ => False) H c p) H c p := by
  unfold IngestionService.fence
  have hshut : ∀ {H' : Set Lock} {c₁ : Catalog} {p' : Catalog → Catalog} {S' U' : AttemptKey → Prop}
      {g : AttemptGeneration}, g.deletedAt ≠ none → Working (fun _ => False) S' U' H' c₁ p' →
      (∀ c', Rely Guarantee H' c₁ c' → (p' c').generations.get k = some g) →
      Working (fun _ => False) (fun x => x = k) (fun _ => False) H' c₁ p' := by
    intro H' c₁ p' S' U' g hd h' hget'
    refine h'.learn (fun _ hx => hx.elim) ?_ (fun _ hx => hx.elim)
    rintro _ rfl c' hc'
    exact fenced_iff.mpr ⟨g, hget' c' hc', hd⟩
  split
  · simp only [Txn.rwp_bind, Txn.rwp_pure]
    refine h.insertGeneration (k := k) ?_ hk hget ?_ (fun H' c₁ p' _ h' hget' => ?_)
    · rfl
    · exact fun hd => by cases hd
    · exact hshut (Option.some_ne_none now) h' hget'
  · split
    · simp only [Txn.rwp_bind, Txn.rwp_pure]
      refine h.updateGeneration hk hget ?_ ?_ (fun H' c₁ p' _ h' hget' => ?_)
      · exact Nat.le_succ _
      · exact Option.some_ne_none now
      · exact hshut (Option.some_ne_none now) h' hget'
    · next g d hd =>
      rw [Txn.rwp_pure]
      exact hshut (hd ▸ Option.some_ne_none d) h (fun c' hc' => (hget c' hc').1)

theorem requestTombstone_grows {e : TombstoneEntry} :
    (Recovery.requestDeletion e).writes (Grows P) (fun _ => True) := by
  simp only [Recovery.requestDeletion, Txn.writes_bind, Ref.writes_get]
  intro c
  split
  · exact Ref.writes_insert (fun _ => .of_same rfl rfl rfl rfl) trivial
  · exact Ref.writes_update (fun _ => .of_same rfl rfl rfl rfl) trivial

theorem releaseHolds_grows {actor : String} {e : TombstoneEntry} :
    (Recovery.releaseHolds actor e).writes (Grows P) (fun _ => True) := by
  simp only [Recovery.releaseHolds, Txn.writes_bind, Ref.writes_select]
  refine fun c => Txn.writes_forEach (fun x _ => ?_) trivial
  exact Ref.writes_update (fun _ => .of_same rfl rfl rfl rfl) trivial

theorem applyEntry_shuts {actor : String} {e : TombstoneEntry}
    (h : Working (fun _ => False) S U H c p) (hU : U e.attempt) :
    (Recovery.applyEntry actor e).rwp (Rely Guarantee) (fun _ H c p => Working (fun _ => False)
      (fun x => S x ∨ x = e.attempt) (fun x => U x ∧ x ≠ e.attempt) H c p) H c p := by
  have hdone : ∀ {H' : Set Lock} {c₁ : Catalog} {p' : Catalog → Catalog},
      Working (fun _ => False) (fun x => S x ∧ x ≠ e.attempt) (fun x => U x ∧ x ≠ e.attempt)
        H' c₁ p' →
      (∀ c', Rely Guarantee H' c₁ c' → Fenced e.attempt (p' c')) →
      Working (fun _ => False) (fun x => S x ∨ x = e.attempt) (fun x => U x ∧ x ≠ e.attempt)
        H' c₁ p' := by
    intro H' c₁ p' h' hfenced
    refine h'.learn (fun _ hx => hx.elim) (fun x hx c' hc' => ?_) (fun _ hx => hx)
    by_cases he : x = e.attempt
    · rw [he]
      exact hfenced c' hc'
    · exact h'.shut x ⟨hx.resolve_right he, he⟩ c' hc'
  have hrest : ∀ {H' : Set Lock} {c₁ : Catalog} {p' : Catalog → Catalog} {S' U' : AttemptKey → Prop},
      Working (fun _ => False) S' U' H' c₁ p' → (do
        Recovery.requestDeletion e
        Recovery.releaseHolds actor e
        pure true : Tx Bool).rwp (Rely Guarantee)
          (fun _ H c p => Working (fun _ => False) S' U' H c p) H' c₁ p' := by
    intro H' c₁ p' S' U' h'
    simp only [Txn.rwp_bind, Txn.rwp_pure]
    exact Txn.rwp_mono (h'.body requestTombstone_grows)
      (fun _ _ _ _ h'' => h''.body releaseHolds_grows)
  unfold Recovery.applyEntry
  rw [Txn.rwp_bind, Txn.rwp_lock]
  intro c₁ hc₁
  have hk : Lock.attempt e.attempt ∈ insert (Lock.attempt e.attempt) H := Set.mem_insert _ _
  refine ((h.stable hc₁).lock (Set.subset_insert _ H)).reads hk hU (fun c₂ o h₂ ho hget => ?_)
  cases o with
  | none =>
    rw [Txn.rwp_bind]
    refine h₂.insertGeneration (k := e.attempt) ?_ hk hget ?_ (fun H' c₃ p' _ h₃ hget' => ?_)
    · rfl
    · exact fun hd => by cases hd
    · exact hrest (hdone h₃ (fun c' hc' =>
        fenced_iff.mpr ⟨_, hget' c' hc', Option.some_ne_none e.completedAt⟩))
  | some g =>
    rw [Txn.rwp_ite]
    refine ⟨fun _ => ?_, fun hg => ?_⟩
    · simp only [Txn.rwp_bind, Txn.rwp_raiseIf, Txn.rwp_pure]
      intro hd
      refine h₂.learn (fun _ hx => hx.elim) (fun x hx c' hc' => ?_) (fun _ hx => hx.1)
      obtain hx | rfl := hx
      · exact h₂.shut x hx c' hc'
      · exact fenced_iff.mpr ⟨g, (hget c' hc').1, hd⟩
    · rw [Txn.rwp_bind]
      refine h₂.updateGeneration hk hget ?_ ?_ (fun H' c₃ p' _ h₃ hget' => ?_)
      · exact Nat.le_of_not_lt hg
      · exact Option.some_ne_none e.completedAt
      · exact hrest (hdone h₃ (fun c' hc' =>
          fenced_iff.mpr ⟨_, hget' c' hc', Option.some_ne_none e.completedAt⟩))

theorem applyEntries_shuts {actor : String} {es : List TombstoneEntry}
    (hnodup : (es.map TombstoneEntry.attempt).Nodup) {S U : AttemptKey → Prop} {H : Set Lock}
    {c : Catalog} {p : Catalog → Catalog} (h : Working (fun _ => False) S U H c p)
    (hU : ∀ e ∈ es, U e.attempt) :
    (Recovery.applyEntries actor es).rwp (Rely Guarantee) (fun _ H c p => Working (fun _ => False)
      (fun x => S x ∨ x ∈ es.map TombstoneEntry.attempt) (fun _ => False) H c p) H c p := by
  induction es generalizing S U H c p with
  | nil =>
    exact h.learn (fun _ hx => hx.elim) (fun x hx c' hc' =>
      h.shut x (hx.resolve_right List.not_mem_nil) c' hc') (fun _ hx => hx.elim)
  | cons e es ih =>
    rw [List.map_cons, List.nodup_cons] at hnodup
    rw [Recovery.applyEntries, Txn.rwp_bind]
    refine Txn.rwp_mono (applyEntry_shuts h (hU e List.mem_cons_self)) (fun _ H₁ c₁ p₁ h₁ => ?_)
    simp only [Txn.rwp_bind, Txn.rwp_pure]
    refine Txn.rwp_mono (ih hnodup.2 h₁ (fun x hx => ⟨hU x (List.mem_cons_of_mem e hx), ?_⟩))
      (fun _ H₂ c₂ p₂ h₂ => ?_)
    · exact fun he => hnodup.1 (he ▸ List.mem_map_of_mem hx)
    · refine h₂.learn (fun _ hx => hx.elim) (fun x hx c' hc' => h₂.shut x ?_ c' hc')
        (fun _ hx => hx)
      rw [List.map_cons, List.mem_cons] at hx
      exact or_assoc.mpr hx

theorem requestDeletion_grows {g : Nat} {requestedAt : Instant} :
    (IngestionService.requestDeletion k g requestedAt).writes (Grows P) (fun _ => True) :=
  requestDeletion_writes (fun _ _ _ => .of_same rfl rfl rfl rfl)
    (fun _ _ _ => .of_same rfl rfl rfl rfl)

theorem blockDeletion_grows {g : Nat} {now : Instant} :
    (IngestionService.blockDeletion k g now).writes (Grows P) (fun _ => True) :=
  blockDeletion_writes (fun _ _ _ => .of_same rfl rfl rfl rfl)
    (fun _ _ _ => .of_same rfl rfl rfl rfl)

theorem deleteAttempt_shuts {now : Instant} {call : Call}
    (hcall : ∀ d, ∀ x ∈ fences call (.deleted d), x = k ∧ ∃ n, d = .generation n) :
    (.deleted <$> IngestionService.deleteAttempt k now : Tx Reply).rwp (Rely Guarantee)
      (Interleaving.Commits Guarantee call) ∅ c id := by
  have hstart : Working (fun _ => False) (fun _ => False) (fun _ => True) ∅ c id :=
    working_start.mpr ⟨fun _ hx => hx.elim, fun _ hx => hx.elim⟩
  rw [Txn.rwp_map]
  unfold IngestionService.deleteAttempt
  rw [Txn.rwp_bind, Txn.rwp_lock]
  intro c₁ hc₁
  have hk : Lock.attempt k ∈ insert (Lock.attempt k) (∅ : Set Lock) := Set.mem_insert _ _
  refine ((hstart.stable hc₁).lock (Set.subset_insert _ _)).reads hk trivial
    (fun c₂ o h₂ ho hget => ?_)
  simp only [IngestionService.activeHoldIds, Txn.rwp_bind, Txn.rwp_pure, Txn.rwp_ite]
  refine fun c₃ hc₃ => ⟨fun _ => ?_, fun _ => ?_⟩
  · refine Txn.rwp_mono (fence_shuts (h₂.stable hc₃) hk (fun c' hc' => hget c' (hc₃.trans hc')))
      (fun g H' c₄ p' h₄ => ?_)
    refine Txn.rwp_mono (h₄.body requestDeletion_grows) (fun _ H'' c₅ p'' h₅ => ?_)
    exact h₅.commits (fun x hx => (hcall _ x hx).1)
  · have hheld : ∀ {S' U' : AttemptKey → Prop} {H' : Set Lock} {c₄ : Catalog}
        {p' : Catalog → Catalog} {g : Nat} {ids : List Uuid},
        Working (fun _ => False) S' U' H' c₄ p' →
        (IngestionService.blockDeletion k g now).rwp (Rely Guarantee) (fun _ =>
          Interleaving.Commits Guarantee call (.deleted (.held ids))) H' c₄ p' := by
      intro S' U' H' c₄ p' g ids h'
      refine Txn.rwp_mono (h'.body blockDeletion_grows) (fun _ H'' c₅ p'' h₅ => ?_)
      refine h₅.commits (fun x hx => ?_)
      obtain ⟨_, n, hn⟩ := hcall _ x hx
      cases hn
    unfold IngestionService.addUnfenced
    split
    · refine (h₂.stable hc₃).insertGeneration (k := k) ?_ hk
        (fun c' hc' => hget c' (hc₃.trans hc')) ?_ (fun H' c₄ p' _ h₄ _ => hheld h₄)
      · rfl
      · exact fun _ => rfl
    · rw [Txn.rwp_pure]
      exact hheld (h₂.stable hc₃)

theorem releaseAttemptHold_commits {holdId : Uuid} {credentialId : String}
    {expected : Option (String × Option String × Option String)} {releasedAt now : Instant}
    {call : Call} (hcall : ∀ b, fences call (.released b) = []) :
    (.released <$> IngestionService.releaseAttemptHold holdId credentialId expected releasedAt
      now : Tx Reply).rwp (Rely Guarantee) (Interleaving.Commits Guarantee call) ∅ c id := by
  have hstart : Working (fun _ => False) (fun _ => False) (fun _ => True) ∅ c id :=
    working_start.mpr ⟨fun _ hx => hx.elim, fun _ hx => hx.elim⟩
  have hcommits : ∀ {S' U' : AttemptKey → Prop} {H' : Set Lock} {c₁ : Catalog}
      {p' : Catalog → Catalog} {b : Bool}, Working (fun _ => False) S' U' H' c₁ p' →
      Interleaving.Commits Guarantee call (.released b) H' c₁ p' := by
    intro S' U' H' c₁ p' b h'
    refine h'.commits (fun x hx => ?_)
    rw [hcall] at hx
    cases hx
  rw [Txn.rwp_map]
  simp only [IngestionService.releaseAttemptHold, Txn.rwp_bind, Txn.rwp_raiseIf, Ref.rwp_get]
  intro _ c₁ hc₁
  split
  · trivial
  · next hold _ =>
    simp only [Txn.rwp_bind, Txn.rwp_raiseIf, Txn.rwp_lock, Txn.rwp_ite, Txn.rwp_pure]
    intro _ c₂ hc₂
    have hk : Lock.attempt hold.attempt ∈ insert (Lock.attempt hold.attempt) (∅ : Set Lock) :=
      Set.mem_insert _ _
    have h₂ := ((hstart.stable hc₁).stable hc₂).lock (Set.subset_insert (Lock.attempt hold.attempt) ∅)
    refine ⟨fun _ => hcommits h₂, fun _ => ?_⟩
    have hupdate : (Tables.holds.update .staleData holdId
        (IngestionService.release credentialId releasedAt) (fun _ => rfl) : Tx Unit).writes
          (Grows (fun _ => False)) (fun _ => True) :=
      Ref.writes_update (fun _ => .of_same rfl rfl rfl rfl) trivial
    refine Txn.rwp_mono (h₂.body_locked hupdate) (fun _ H₃ c₃ p₃ h₃ => ?_)
    simp only [IngestionService.activeHoldIds, Txn.rwp_read]
    refine fun c₄ hc₄ => ⟨fun _ => ?_, fun _ => hcommits (h₃.1.stable hc₄)⟩
    simp only [IngestionService.resumeDeletion, Txn.rwp_bind, Ref.rwp_get, Txn.rwp_ite,
      Txn.rwp_pure]
    intro c₅ hc₅
    have h₅ := (h₃.1.stable hc₄).stable hc₅
    refine ⟨fun _ => ?_, fun _ => hcommits h₅⟩
    have hk₃ := h₃.2 hk
    intro c₆ hc₆
    have h₆ := h₅.stable hc₆
    have hget : ∀ c', Rely Guarantee H₃ c₆ c' →
        (p₃ c').generations.get hold.attempt = (p₃ c₆).generations.get hold.attempt ∧
          c'.generations.get hold.attempt = (p₃ c₆).generations.get hold.attempt := by
      intro c' hc'
      have hstay := generation_stays hk₃ hc'
      rw [h₆.rest _ trivial c', h₆.rest _ trivial c₆, hstay]
      exact ⟨rfl, rfl⟩
    refine Txn.rwp_mono (fence_shuts h₆ hk₃ hget) (fun g H₇ c₇ p₇ h₇ => ?_)
    refine Txn.rwp_mono (h₇.body ?_) (fun _ H₈ c₈ p₈ h₈ => hcommits h₈)
    exact Ref.writes_update (fun _ => .of_same rfl rfl rfl rfl) trivial

theorem commits_of_grows {t : Tx Reply} {call : Call}
    (ht : t.writes (Grows (fun _ => False)) (fun a => fences call a = [])) :
    t.rwp (Rely Guarantee) (Interleaving.Commits Guarantee call) ∅ c id := by
  have hstart : Working (fun _ => False) (fun _ => False) (fun _ => True) ∅ c id :=
    working_start.mpr ⟨fun _ hx => hx.elim, fun _ hx => hx.elim⟩
  refine Txn.rwp_mono (Txn.rwp_of_writes
    (J := Working (fun _ => False) (fun _ => False) (fun _ => True)) ?_ ?_ ?_ ht hstart)
    (fun a H' c' p' ⟨hJ, ha⟩ => hJ.commits (fun x hx => ?_))
  · exact fun H s s' p hs hJ => hJ.stable hs
  · exact fun l H s p hJ => hJ.lock (Set.subset_insert l H)
  · exact fun H s p f hf hJ => hJ.grow hf
  · rw [ha] at hx
    cases hx

theorem lockAdmission_opens {α : Type} {principal : MachinePrincipal} {segment : SegmentUpload}
    {prepared : PreparedPayload} {g : Nat → Tx α}
    {Q : α → Set Lock → Catalog → (Catalog → Catalog) → Prop}
    (hg : ∀ n H' c' p', Working (fun x => x = segment.attempt principal.tenantId)
      (fun _ => False) (fun _ => False) H' c' p' → (g n).rwp (Rely Guarantee) Q H' c' p') :
    (do
      IngestionService.lockAdmission principal segment prepared
      let n ← IngestionService.currentGeneration principal.tenantId segment
      g n : Tx α).rwp (Rely Guarantee) Q ∅ c id := by
  have hstart : Working (fun _ => False) (fun _ => False) (fun _ => True) ∅ c id :=
    working_start.mpr ⟨fun _ hx => hx.elim, fun _ hx => hx.elim⟩
  simp only [IngestionService.lockAdmission, Txn.rwp_bind, Txn.rwp_lock]
  intro c₁ hc₁ c₂ hc₂ c₃ hc₃
  have h₁ := (hstart.stable hc₁).lock
    (Set.subset_insert (Lock.attempt (segment.attempt principal.tenantId)) _)
  have h₂ := (h₁.stable hc₂).lock
    (Set.subset_insert (Lock.stream (segment.stream principal.tenantId)) _)
  have h₃ := (h₂.stable hc₃).lock (Set.subset_insert (Lock.object prepared.objectKey) _)
  refine Txn.rwp_mono (currentGeneration_opens h₃ ?_ trivial) (fun n H' c' p' h' => hg n H' c' p' h')
  exact Set.mem_insert_of_mem _ (Set.mem_insert_of_mem _ (Set.mem_insert _ _))

theorem fences_quiet {call : Call} (hq : quiet call = true) (a : Reply) : fences call a = [] := by
  cases call with
  | applyCompletedTombstones b actor now => cases hq
  | deleteAttempt k now => cases hq
  | retentionDelete sweep k now => cases hq
  | _ => rfl

theorem admitReserve_commits {ticket : Nat} {principal : MachinePrincipal} {segment : SegmentUpload}
    {fresh : Uuid} {now : Instant} :
    (.admitted <$> IngestionService.admitReserve env settings principal segment fresh now :
      Tx Reply).rwp (Rely Guarantee)
        (Interleaving.Commits Guarantee (.admitReserve ticket principal segment fresh now)) ∅ c id := by
  rw [Txn.rwp_map]
  unfold IngestionService.admitReserve IngestionService.assertScope
  rw [Txn.rwp_bind, Txn.rwp_raiseIf]
  intro _
  cases hp : IngestionService.preparePayload env settings principal.tenantId segment with
  | error e => trivial
  | ok prepared =>
    rw [orRaise, Txn.rwp_bind, Txn.rwp_pure]
    refine lockAdmission_opens (fun n H' c' p' h' => ?_)
    refine Txn.rwp_mono (h'.body ?_) (fun a H c p h => h.commits (fun x hx => nomatch hx))
    simp only [Txn.writes_bind, Txn.writes_raiseIf, Ref.writes_select]
    intro _ c₁
    split
    · simp
    · simp only [Txn.writes_bind, Txn.writes_raiseIf, Ref.writes_select]
      exact fun _ _ => Txn.writes_mono (fun _ _ => Reserves.grows) (fun _ h => h)
        claimRange_reserves

theorem admitCommit_commits {ticket : Nat} {faults : Faults} {f : Flight}
    {freshReceipt freshOutbox : Uuid} {committedAt : Instant} :
    (.receipt <$> IngestionService.admitCommit env settings faults f freshReceipt freshOutbox
      committedAt : Tx Reply).rwp (Rely Guarantee) (Interleaving.Commits Guarantee
        (.admitCommit ticket faults freshReceipt freshOutbox committedAt)) ∅ c id := by
  rw [Txn.rwp_map]
  unfold IngestionService.admitCommit
  refine lockAdmission_opens (fun n H' c' p' h' => ?_)
  refine Txn.rwp_mono (h'.body ?_) (fun a H c p h => h.commits (fun x hx => nomatch hx))
  have hstate : ∀ {state : ReservationState} {Q : Unit → Prop}, Q () →
      (Tables.reservations.update .staleData f.reservationId (IngestionService.setState state)
        (fun _ => rfl) : Tx Unit).writes
          (Grows (fun x => x = f.segment.attempt f.principal.tenantId)) Q :=
    fun hQ => Ref.writes_update (fun _ => .of_same rfl rfl rfl rfl) hQ
  simp only [Ref.writes_get, Txn.writes_bind]
  intro c₁
  split
  · trivial
  · simp only [Txn.writes_bind, Txn.writes_raiseIf, Txn.writes_ite]
    refine fun _ => ⟨fun _ => hstate trivial, fun _ => ?_⟩
    simp only [existsVerified, Txn.writes_perform, writes_orRaise, Ref.writes_select]
    intro w present _ _ c₂
    split
    · rw [Txn.writes_ite]
      simp only [Txn.writes_bind]
      exact ⟨fun _ => hstate trivial, fun _ => hstate trivial⟩
    · exact addManifest_grows

theorem reportPublish_commits {self : ReportRevisionWorker} {faults : Faults} {l : WorkLease}
    {b : BuiltReport} {fresh : ObjectKey → Uuid} {freshRevision : Uuid} {now : Instant} {ticket : Nat} :
    (.published <$> self.publish env faults l b fresh freshRevision now : Tx Reply).rwp
      (Rely Guarantee) (Interleaving.Commits Guarantee
        (.reportPublish ticket self faults fresh freshRevision now)) ∅ c id := by
  have hstart : Working (fun _ => False) (fun _ => False) (fun _ => True) ∅ c id :=
    working_start.mpr ⟨fun _ hx => hx.elim, fun _ hx => hx.elim⟩
  have hcommits : ∀ {P' S' U' : AttemptKey → Prop} {H' : Set Lock} {c₁ : Catalog}
      {p' : Catalog → Catalog} {a : Bool}, Working P' S' U' H' c₁ p' →
      Interleaving.Commits Guarantee (.reportPublish ticket self faults fresh freshRevision now)
        (.published a) H' c₁ p' := fun h' => h'.commits (fun x hx => nomatch hx)
  have hclose : ∀ {state : OutboxState} {lastError : Option String},
      (do
        Tables.outbox.update .staleData l.outboxId (Outbox.close state lastError) (fun _ => rfl)
        pure false : Tx Bool).writes (Grows (fun _ => False)) (fun _ => True) := by
    intro state lastError
    rw [Txn.writes_bind]
    exact Ref.writes_update (fun _ => .of_same rfl rfl rfl rfl) trivial
  rw [Txn.rwp_map]
  unfold ReportRevisionWorker.publish
  rw [Txn.rwp_bind, Ref.rwp_get]
  intro c₁ hc₁
  rw [Txn.rwp_ite]
  refine ⟨fun _ => ?_, fun _ => hcommits (hstart.stable hc₁)⟩
  simp only [Txn.rwp_bind, Txn.rwp_lock, Ref.rwp_get]
  intro c₂ hc₂ c₃ hc₃ c₄ hc₄
  have h₂ := ((hstart.stable hc₁).stable hc₂).lock
    (Set.subset_insert (Lock.attempt b.attempt) ∅)
  have h₃ := (h₂.stable hc₃).lock (Set.subset_insert (Lock.report b.attempt) _)
  have h₄ := h₃.stable hc₄
  have hk : Lock.attempt b.attempt ∈ insert (Lock.report b.attempt)
      (insert (Lock.attempt b.attempt) (∅ : Set Lock)) :=
    Set.mem_insert_of_mem _ (Set.mem_insert _ _)
  rw [Txn.rwp_ite]
  refine ⟨fun hopen => ?_, fun _ => Txn.rwp_mono (h₄.body hclose) (fun _ _ _ _ h => hcommits h)⟩
  obtain ⟨g, hg, hd⟩ : ∃ g, c₄.generations.get b.attempt = some g ∧ g.deletedAt = none := by
    cases hg : c₄.generations.get b.attempt with
    | none => simp [Outbox.generationOpen, hg] at hopen
    | some g =>
      refine ⟨g, rfl, ?_⟩
      simp [Outbox.generationOpen, hg] at hopen
      exact hopen.1
  have hlive : Working (fun x => x = b.attempt) (fun _ => False) (fun _ => False)
      (insert (Lock.report b.attempt) (insert (Lock.attempt b.attempt) ∅)) c₄ id := by
    refine h₄.learn ?_ (fun _ hx => hx.elim) (fun _ hx => hx.elim)
    rintro _ rfl c' hc'
    exact not_fenced_of_get ((generation_stays hk hc').trans hg) hd
  refine Txn.rwp_mono (hlive.body ?_) (fun _ _ _ _ h => hcommits h)
  simp only [ReportRevisionWorker.inputs, Txn.writes_bind, Txn.writes_read, Txn.writes_ite]
  refine fun _ => ⟨fun _ => publishReport_grows, fun _ => ?_⟩
  exact Ref.writes_update (fun _ => .of_same rfl rfl rfl rfl) trivial

theorem applyCompletedTombstones_commits {b : TombstoneBundle} {actor : String} {now : Instant} :
    (.imported <$> Recovery.applyCompletedTombstones b actor now : Tx Reply).rwp (Rely Guarantee)
      (Interleaving.Commits Guarantee (.applyCompletedTombstones b actor now)) ∅ c id := by
  have hstart : Working (fun _ => False) (fun _ => False) (fun _ => True) ∅ c id :=
    working_start.mpr ⟨fun _ hx => hx.elim, fun _ hx => hx.elim⟩
  rw [Txn.rwp_map]
  simp only [Recovery.applyCompletedTombstones, Txn.rwp_bind, Txn.rwp_raiseIf, Ref.rwp_get]
  intro _ c₁ hc₁
  split
  · rw [Txn.rwp_pure]
    exact (hstart.stable hc₁).commits (fun x hx => absurd hx List.not_mem_nil)
  · simp only [Txn.rwp_bind, Txn.rwp_pure]
    refine Txn.rwp_mono (applyEntries_shuts b.unique (hstart.stable hc₁) (fun _ _ => trivial))
      (fun counts H₂ c₂ p₂ h₂ => ?_)
    refine Txn.rwp_mono (h₂.body ?_) (fun _ H₃ c₃ p₃ h₃ => h₃.commits (fun x hx => Or.inr hx))
    exact Ref.writes_insert (fun _ => .of_same rfl rfl rfl rfl) trivial

theorem meets_guarantee :
    Interleaving.Meets (workload env settings) (fun _ => True) Guarantee := by
  intro m call t c ht _
  have hgrows : ∀ {α : Type} {t : Tx α} {g : α → Reply}, (∀ a, fences call (g a) = []) →
      t.writes (Grows (fun _ => False)) (fun _ => True) →
      (g <$> t).rwp (Rely Guarantee) (Interleaving.Commits Guarantee call) ∅ c id := by
    intro α t g hf ht
    refine commits_of_grows ?_
    rw [Txn.writes_map]
    exact Txn.writes_mono (fun _ _ h => h) (fun a _ => hf a) ht
  by_cases hq : quiet call = true
  · refine commits_of_grows (Txn.writes_mono (fun _ _ h => Grows.of_core h)
      (fun a _ => fences_quiet hq a) (Txn.writes_of_changes (quiet_core env settings hq ht)))
  change program env settings m call = some t at ht
  cases call with
  | admitReserve ticket principal segment fresh now =>
    simp only [program] at ht
    split at ht
    · cases ht
    · obtain rfl := Option.some.inj ht
      exact admitReserve_commits
  | admitPut ticket faults =>
    obtain ⟨f, _, rfl⟩ := Option.map_eq_some_iff.mp ht
    refine hgrows (fun _ => rfl) ?_
    simp only [IngestionService.admitPut, putVerified, Txn.writes_bind, Txn.writes_perform]
    intro w
    split
    · trivial
    · simp
  | admitCommit ticket faults freshReceipt freshOutbox committedAt =>
    obtain ⟨f, _, rfl⟩ := Option.map_eq_some_iff.mp ht
    exact admitCommit_commits
  | deleteAttempt k now =>
    obtain rfl := Option.some.inj ht
    refine deleteAttempt_shuts (fun d x hx => ?_)
    cases d with
    | generation n => exact ⟨List.mem_singleton.mp hx, n, rfl⟩
    | held ids => cases hx
  | retentionDelete sweep k now =>
    simp only [program] at ht
    split at ht
    · split at ht
      · obtain rfl := Option.some.inj ht
        refine deleteAttempt_shuts (fun d x hx => ?_)
        cases d with
        | generation n => exact ⟨List.mem_singleton.mp hx, n, rfl⟩
        | held ids => cases hx
      · cases ht
    · cases ht
  | placeAttemptHold k holdId reason credentialId now =>
    obtain rfl := Option.some.inj ht
    exact hgrows (fun _ => rfl) placeAttemptHold_grows
  | releaseAttemptHold holdId credentialId expected releasedAt now =>
    obtain rfl := Option.some.inj ht
    exact releaseAttemptHold_commits (fun _ => rfl)
  | reservationSweep self now skip fresh clock =>
    obtain rfl := Option.some.inj ht
    exact hgrows (fun _ => rfl) reservationSweep_grows
  | objectGc faults now skip =>
    obtain rfl := Option.some.inj ht
    exact hgrows (fun _ => rfl) objectGc_grows
  | objectGcAudit self faults now skip fresh =>
    obtain rfl := Option.some.inj ht
    exact hgrows (fun _ => rfl) objectGcAudit_grows
  | reportBuild ticket self faults =>
    simp only [program] at ht
    split at ht
    · obtain rfl := Option.some.inj ht
      exact hgrows (fun _ => rfl) (Txn.writes_mono (fun _ _ h => h) (fun _ _ => trivial)
        (Txn.writes_of_changes (reportBuild_changes env)))
    · cases ht
  | reportReserve ticket self fresh now =>
    simp only [program] at ht
    split at ht
    · obtain rfl := Option.some.inj ht
      exact hgrows (fun _ => rfl) (Txn.writes_forEach (fun x _ => lockAndEnsure_grows) trivial)
    · cases ht
  | reportPublish ticket self faults fresh freshRevision now =>
    simp only [program] at ht
    split at ht
    · obtain rfl := Option.some.inj ht
      exact reportPublish_commits
    · cases ht
  | deletionClaim owner leaseSeconds now skip =>
    obtain rfl := Option.some.inj ht
    exact hgrows (fun _ => rfl) deletionClaim_grows
  | deletionExecute lease faults now =>
    obtain rfl := Option.some.inj ht
    exact hgrows (fun _ => rfl) deletionExecute_grows
  | deletionFail lease message =>
    obtain rfl := Option.some.inj ht
    exact hgrows (fun _ => rfl) deletionFail_grows
  | applyCompletedTombstones b actor now =>
    obtain rfl := Option.some.inj ht
    exact applyCompletedTombstones_commits
  | _ => exact absurd rfl hq

end working

/-- The services with no transaction under way. -/
def pool (s : State) : Config Catalog ObjectStore Lock Failure Call Reply Memory :=
  ⟨s.catalog, s.objects, s.memory, []⟩

/-- The commits after which attempts are fenced for good. -/
structure Permanent (env : Env) (settings : IngestionSettings)
    (c : Config Catalog ObjectStore Lock Failure Call Reply Memory) : Prop where
  zero : ∀ k g, c.db.generations.get k = some g → g.deletedAt = none → g.generation = 0
  grows : ∀ c', Reach (workload env settings) c c' → ∀ k g, c.db.generations.get k = some g →
    ∃ g', c'.db.generations.get k = some g' ∧ g.generation ≤ g'.generation ∧
      (g.deletedAt ≠ none → g'.deletedAt ≠ none)
  fenced : ∀ call a c', Interleaving.Step (workload env settings) c (some (call, a)) c' →
    ∀ k ∈ fences call a, ∀ c₁ label c₂, Reach (workload env settings) c' c₁ →
      Interleaving.Step (workload env settings) c₁ label c₂ →
      (∀ x ∈ c₂.db.manifests, x.attempt = k → x ∈ c₁.db.manifests) ∧
      (∀ x ∈ c₂.db.revisions, x.attempt = k → x ∈ c₁.db.revisions) ∧
      ∀ x ∈ c₂.db.heads, x.attempt = k → ∃ y ∈ c₁.db.heads, y.attempt = k

section pools

variable {c₀ c c' : Config Catalog ObjectStore Lock Failure Call Reply Memory}
  {label : Option (Call × Reply)}

/-- What the services keep true of a pool that started with no transaction. -/
abbrev Guaranteed (c : Config Catalog ObjectStore Lock Failure Call Reply Memory) : Prop :=
  Interleaving.Disciplined (fun _ => True) Guarantee c

theorem guaranteed_reach (hc : Guaranteed c) (h : Reach (workload env settings) c c') :
    Guaranteed c' :=
  Interleaving.disciplined_reach (fun _ _ _ _ _ _ _ => trivial) meets_guarantee hc h

theorem step_respects (hc : Guaranteed c)
    (h : Interleaving.Step (workload env settings) c label c') : ∃ H, Respects H c.db c'.db := by
  cases label with
  | none =>
    rw [Interleaving.step_db h]
    exact ⟨∅, fun _ _ => rfl, fun _ => .refl _, fun _ hx => Or.inl hx, fun _ hx => Or.inl hx,
      fun x hx => Or.inl ⟨x, hx, rfl⟩⟩
  | some l =>
    obtain ⟨call, a⟩ := l
    obtain ⟨H, hG, _⟩ := Interleaving.commit_guarantee hc h
    exact ⟨H, hG.1⟩

theorem reach_grows (hc : Guaranteed c) (h : Reach (workload env settings) c c') {k : AttemptKey}
    {g : AttemptGeneration} (hg : c.db.generations.get k = some g) :
    ∃ g', c'.db.generations.get k = some g' ∧ g.generation ≤ g'.generation ∧
      (g.deletedAt ≠ none → g'.deletedAt ≠ none) := by
  induction h with
  | init => exact ⟨g, hg, Nat.le_refl _, id⟩
  | step hr hs ih =>
    obtain ⟨g₁, hg₁, hle₁, hd₁⟩ := ih
    obtain ⟨H, hH⟩ := step_respects (guaranteed_reach hc hr) hs
    obtain ⟨g₂, hg₂, hle₂, hd₂⟩ := (hH.ages k).monotone g₁ hg₁
    exact ⟨g₂, hg₂, hle₁.trans hle₂, fun hd => hd₂ (hd₁ hd)⟩

theorem reach_fenced (hc : Guaranteed c) (h : Reach (workload env settings) c c')
    {k : AttemptKey} (hk : Fenced k c.db) : Fenced k c'.db := by
  obtain ⟨g, hg, hd⟩ := fenced_iff.mp hk
  obtain ⟨g', hg', _, hd'⟩ := reach_grows hc h hg
  exact fenced_iff.mpr ⟨g', hg', hd' hd⟩

theorem reach_zero (hc : Guaranteed c) (h : Reach (workload env settings) c c')
    (hzero : ∀ k g, c.db.generations.get k = some g → g.deletedAt = none → g.generation = 0)
    {k : AttemptKey} {g : AttemptGeneration} (hg : c'.db.generations.get k = some g)
    (hd : g.deletedAt = none) : g.generation = 0 := by
  induction h generalizing g with
  | init => exact hzero k g hg hd
  | step hr hs ih =>
    obtain ⟨H, hH⟩ := step_respects (guaranteed_reach hc hr) hs
    obtain hold | hz := (hH.ages k).origin g hg hd
    · exact ih hold hd
    · exact hz

/-- A fence is permanent: no step after it adds a row of the attempt. -/
theorem fence_permanent (h : Reach (workload env settings) (pool .initial) c) :
    Permanent env settings c := by
  have hstart : Guaranteed (pool .initial) := ⟨trivial, List.Pairwise.nil, fun _ hx => nomatch hx⟩
  have hc := guaranteed_reach hstart h
  refine ⟨fun k g hg hd => ?_, fun c' hr k g hg => reach_grows hc hr hg, ?_⟩
  · refine reach_zero hstart h (fun k g hg => ?_) hg hd
    cases hg
  · intro call a c' hs k hk c₁ label c₂ hr hstep
    obtain ⟨H, hG, _⟩ := Interleaving.commit_guarantee hc hs
    have hc' := guaranteed_reach hc (.step .init hs)
    have hfenced := reach_fenced hc' (hr.step hstep) (hG.2 k hk)
    obtain ⟨H', hH'⟩ := step_respects (guaranteed_reach hc' hr) hstep
    refine ⟨fun x hx hxk => ?_, fun x hx hxk => ?_, fun x hx hxk => ?_⟩
    · exact (hH'.manifests x hx).resolve_right (fun hn => hn (hxk ▸ hfenced))
    · exact (hH'.revisions x hx).resolve_right (fun hn => hn (hxk ▸ hfenced))
    · obtain ⟨y, hy, hyk⟩ := (hH'.heads x hx).resolve_right (fun hn => hn (hxk ▸ hfenced))
      exact ⟨y, hy, hyk.trans hxk⟩

/-- A call that is answered commits when nobody runs beside it, in any workload that has it. -/
theorem quiet_of_run {W : Workload Catalog ObjectStore Lock Failure Call Reply Memory}
    {s s' : State} {call : Call} {a : Reply} {t : Tx Reply} (hfinish : W.finish = finish)
    (ht : program env settings s.memory call = some t)
    (h : answer env settings s call = some (a, s')) :
    ∃ c, Interleaving.Quiet W ⟨s.catalog, s.objects, s.memory, [⟨call, t, ∅, id⟩]⟩ c ∧
      c.db = s.catalog ∧ c.memory = s.memory ∧
      Interleaving.Step W c (some (call, a)) (pool s') := by
  unfold answer State.run at h
  rw [ht] at h
  simp only [Txn.atomically] at h
  cases hr : t.run s.catalog s.objects with
  | mk r w' =>
    rw [hr] at h
    cases r with
    | error f => cases h
    | ok r =>
      obtain ⟨b, c'⟩ := r
      cases h
      have hdone : ∃ H' p', Interleaving.Quiet W
          ⟨s.catalog, s.objects, s.memory, [⟨call, t, ∅, id⟩]⟩
          ⟨s.catalog, w', s.memory, [⟨call, .done a, H', p'⟩]⟩ ∧ p' s.catalog = c' :=
        Interleaving.quiet_done (fun x hx => absurd hx List.not_mem_nil) t hr
      obtain ⟨H', p', hquiet, rfl⟩ := hdone
      refine ⟨_, hquiet, rfl, rfl, ?_⟩
      rw [pool, ← hfinish]
      exact @Interleaving.Step.commit _ _ _ _ _ _ _ W _ w' s.memory [] [] call a H' p'

theorem program_of_answer {s s' : State} {call : Call} {a : Reply}
    (h : answer env settings s call = some (a, s')) :
    ∃ t, program env settings s.memory call = some t := by
  unfold answer State.run at h
  cases ht : program env settings s.memory call with
  | none =>
    rw [ht] at h
    cases h
  | some t => exact ⟨t, rfl⟩

/-- A call that runs alone is a run of the pool. -/
theorem pool_of_answer {s s' : State} {call : Call} {a : Reply}
    (h : answer env settings s call = some (a, s')) :
    ∃ c, c.db = s.catalog ∧ Reach (workload env settings) (pool s) c ∧
      Interleaving.Step (workload env settings) c (some (call, a)) (pool s') := by
  obtain ⟨t, ht⟩ := program_of_answer h
  obtain ⟨c, hquiet, hdb, -, hstep⟩ := @quiet_of_run _ _ (workload env settings) _ _ _ _ _ rfl ht h
  exact ⟨c, hdb, Reach.trans (.step .init (.start ht)) (Interleaving.reach_of_quiet hquiet),
    hstep⟩

theorem pool_of_answers {s s' : State} {calls : List Call}
    (h : calls.foldlM (fun s call => (answer env settings s call).map Prod.snd) s = some s') :
    Reach (workload env settings) (pool s) (pool s') := by
  induction calls generalizing s with
  | nil =>
    obtain rfl := Option.some.inj h
    exact .init
  | cons call calls ih =>
    rw [List.foldlM_cons] at h
    obtain ⟨s₁, hs, h⟩ := Option.bind_eq_some_iff.mp h
    obtain ⟨⟨a, s₂⟩, ha, rfl⟩ := Option.map_eq_some_iff.mp hs
    obtain ⟨c, -, hc, hstep⟩ := pool_of_answer ha
    exact Reach.trans (hc.step hstep) (ih h)

/-- The deletion of an attempt that has been admitted. -/
theorem fence_permanent_sample : ∃ c c',
    Reach (workload Sample.env Sample.settings) (pool .initial) c ∧
    (c.db.manifests.get 2).map SegmentManifest.attempt = some Sample.attempt₁ ∧
    Interleaving.Step (workload Sample.env Sample.settings) c
      (some (.deleteAttempt Sample.attempt₁ 5, .deleted (.generation 1))) c' ∧
    Permanent Sample.env Sample.settings c ∧ Permanent Sample.env Sample.settings c' := by
  have h : (Sample.admission.foldlM (fun s call =>
      (answer Sample.env Sample.settings s call).map Prod.snd) State.initial).bind (fun s =>
        (answer Sample.env Sample.settings s (.deleteAttempt Sample.attempt₁ 5)).map (fun r =>
          (r.1, (s.catalog.manifests.get 2).map SegmentManifest.attempt))) =
      some (.deleted (.generation 1), some Sample.attempt₁) := by decide +kernel
  obtain ⟨s, hs, h⟩ := Option.bind_eq_some_iff.mp h
  obtain ⟨⟨a, s'⟩, ha, h⟩ := Option.map_eq_some_iff.mp h
  obtain ⟨rfl, hmanifest⟩ := Prod.mk.inj h
  obtain ⟨c, hdb, hc, hstep⟩ := pool_of_answer ha
  have hreach := Reach.trans (pool_of_answers hs) hc
  refine ⟨c, pool s', hreach, ?_, hstep, fence_permanent hreach,
    fence_permanent (hreach.step hstep)⟩
  rw [hdb]
  exact hmanifest

end pools

end Deployment

end RankLens
