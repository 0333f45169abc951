import RankLens.Fences
import RankLens.Policies

namespace RankLens

open Interleaving (Rely Workload Config Session Reach Ending)
open IngestionService (Flight addManifest newRecord selectPolicy setRetention)

/-- The database, and the clock all services read. -/
structure Timed where
  catalog : Catalog
  clock : Instant

def Timed.map (f : Catalog → Catalog) (s : Timed) : Timed := { s with catalog := f s.catalog }

def readClock : Txn Timed ObjectStore Lock Failure Instant := Txn.read Timed.clock

/-- A transaction that does not look at the clock. -/
def Txn.timed {ω L ε α : Type} : Txn Catalog ω L ε α → Txn Timed ω L ε α
  | .done a => .done a
  | .fail e => .fail e
  | .acquire l t => .acquire l t.timed
  | .query k => .query (fun s => (k s.catalog).timed)
  | .change f t => .change (Timed.map f) t.timed
  | .effect f k => .effect f (fun w => (k w).timed)

namespace Txn

variable {σ ω L ε α β γ : Type}

theorem bind_assoc (t : Txn σ ω L ε α) (f : α → Txn σ ω L ε β) (g : β → Txn σ ω L ε γ) :
    (t >>= f) >>= g = t >>= fun a => f a >>= g := by
  show bind (bind t f) g = bind t (fun a => bind (f a) g)
  induction t with
  | done a => rfl
  | fail e => rfl
  | acquire l t ih => exact congrArg (Txn.acquire l) ih
  | query k ih => exact congrArg Txn.query (funext ih)
  | change f t ih => exact congrArg (Txn.change f) ih
  | effect f k ih => exact congrArg (Txn.effect f) (funext ih)

end Txn

namespace IngestionService

/-- `admitCommit` up to its reading of the clock: the receipt of a replay, or the reservation
and the generation of the new manifest. -/
def openRange (env : Env) (faults : Faults) (f : Flight) :
    Tx (DurableReceipt ⊕ AdmissionReservation × Nat) := do
  lockAdmission f.principal f.segment f.prepared
  let generation ← currentGeneration f.principal.tenantId f.segment
  let reservation ← Tables.reservations.get f.reservationId
  match reservation with
  | none => Txn.raise reservationExpired
  | some reservation => do
    Txn.raiseIf (reservation.state ≠ .reserved) reservationExpired
    if generation ≠ reservation.deletionGeneration ∨
        generation ≠ f.segment.deletionGeneration then do
      Tables.reservations.update .staleData f.reservationId (setState .fenced)
        (setState_reservationId .fenced)
      Txn.raise (conflict "deletion_fenced_admission"
        "deletion policy changed while the object was being stored" false)
    else do
      let found ← existsVerified env faults f.prepared.objectKey f.segment.payloadSha256
      let present ← orRaise found
      Txn.raiseIf (present = false)
        (.admission "object_missing" "verified object is unavailable" 503 true)
      let overlap ← Tables.manifests.select (overlapFilter f.principal.tenantId f.segment)
      match overlap.head? with
      | some overlap =>
        if overlap.firstSequence = f.segment.firstSequence ∧
            overlap.lastSequence = f.segment.lastSequence ∧
            overlap.payloadSha256 = f.segment.payloadSha256 then do
          Tables.reservations.update .staleData f.reservationId (setState .committed)
            (setState_reservationId .committed)
          pure (.inl (receipt overlap true))
        else do
          Tables.reservations.update .staleData f.reservationId (setState .conflicted)
            (setState_reservationId .conflicted)
          Txn.raise (conflict "sequence_overlap" "segment overlaps an admitted sequence range" false)
      | none => pure (.inr (reservation, generation))

theorem admitCommit_eq {env : Env} {settings : IngestionSettings} {faults : Faults} {f : Flight}
    {freshReceipt freshOutbox : Uuid} {committedAt : Instant} :
    admitCommit env settings faults f freshReceipt freshOutbox committedAt =
      openRange env faults f >>= fun
        | .inl receipt => pure receipt
        | .inr (reservation, generation) =>
          addManifest settings f reservation generation freshReceipt freshOutbox committedAt := by
  simp only [admitCommit, openRange, Txn.bind_assoc]
  refine congrArg _ (funext fun _ => congrArg _ (funext fun generation => congrArg _ (funext
    fun reservation => ?_)))
  cases reservation with
  | none => rfl
  | some reservation =>
    simp only [Txn.bind_assoc]
    refine congrArg _ (funext fun _ => ?_)
    by_cases hg : generation ≠ reservation.deletionGeneration ∨
        generation ≠ f.segment.deletionGeneration
    · rw [if_pos hg, if_pos hg, Txn.bind_assoc]
      rfl
    · rw [if_neg hg, if_neg hg]
      simp only [Txn.bind_assoc]
      refine congrArg _ (funext fun _ => congrArg _ (funext fun _ => congrArg _ (funext fun _ =>
        congrArg _ (funext fun overlap => ?_))))
      cases overlap.head? with
      | none => rfl
      | some m =>
        simp only []
        split
        · rw [Txn.bind_assoc]
          rfl
        · rw [Txn.bind_assoc]
          rfl

end IngestionService

namespace Deployment

/-- The calls around the retention policies, and the passing of time. -/
inductive Moment where
  | tick (elapsed : Nat)
  | call (call : Call)

/-- The transaction of a call. The services on policies read the clock before their
transaction, and an admission in the middle of its second one. -/
def timedProgram (env : Env) (settings : IngestionSettings) (m : Memory) :
    Moment → Option (Txn Timed ObjectStore Lock Failure Reply)
  | .tick elapsed =>
    some ((fun _ => .unit) <$> Txn.write (fun s => { s with clock := s.clock + elapsed }))
  | .call (.admitReserve ticket principal segment fresh now) =>
    (program env settings m (.admitReserve ticket principal segment fresh now)).map Txn.timed
  | .call (.admitPut ticket faults) =>
    (program env settings m (.admitPut ticket faults)).map Txn.timed
  | .call (.admitCrash ticket) => (program env settings m (.admitCrash ticket)).map Txn.timed
  | .call (.admitCommit ticket faults freshReceipt freshOutbox _) =>
    (flightAt m ticket true).map (fun f => .receipt <$> do
      let opened ← (IngestionService.openRange env faults f).timed
      match opened with
      | .inl receipt => pure receipt
      | .inr (reservation, generation) => do
        let committedAt ← readClock
        (addManifest settings f reservation generation freshReceipt freshOutbox committedAt).timed)
  | .call (.createRetentionPolicyRevision tenantId clusterId retentionSeconds credentialId
      effectiveAt logicalCaseId _) =>
    some (.policy <$> do
      let now ← readClock
      (IngestionService.createRetentionPolicyRevision tenantId clusterId retentionSeconds
        credentialId effectiveAt logicalCaseId now).timed)
  | .call (.cancelRetentionPolicyRevision k reason credentialId _) =>
    some (.cancellation <$> do
      let now ← readClock
      (IngestionService.cancelRetentionPolicyRevision k reason credentialId now).timed)
  | .call (.applyRetentionPolicyBackfill q expectedEligible expectedDue expectedDigest credentialId
      fresh _) =>
    some (.backfill <$> do
      let now ← readClock
      (IngestionService.applyRetentionPolicyBackfill env q expectedEligible expectedDue
        expectedDigest credentialId fresh now).timed)
  | .call _ => none

def timedFinish : Moment → Ending Failure Reply → Memory → Memory
  | .tick _, _, m => m
  | .call call, e, m => finish call e m

def timedWorkload (env : Env) (settings : IngestionSettings) :
    Workload Timed ObjectStore Lock Failure Moment Reply Memory :=
  ⟨timedProgram env settings, timedFinish⟩

abbrev TimedConfig := Config Timed ObjectStore Lock Failure Moment Reply Memory

/-- No transaction is under way, and the catalog is empty. -/
def opening (clock : Instant) : TimedConfig := ⟨⟨.empty, clock⟩, fun _ => none, .empty, []⟩

/-- The call cancels the revision, if it commits. -/
def Cancels : Moment → PolicyKey → Prop
  | .call (.cancelRetentionPolicyRevision k' _ _ _), k => k' = k
  | _, _ => False

/-- A cancellation that commits does so before its revision is effective. -/
def Prompt (label : Option (Moment × Reply)) (s : Timed) : Prop :=
  ∀ x ∈ label, ∀ k, Cancels x.1 k → s.catalog.cancellations.get k = none →
    ∀ p, s.catalog.policies.get k = some p → s.clock < p.effectiveAt

/-- The runs whose cancellations all commit in time. -/
inductive PromptRun (env : Env) (settings : IngestionSettings) (c₀ : TimedConfig) :
    TimedConfig → Prop where
  | start : PromptRun env settings c₀ c₀
  | step {c c' : TimedConfig} {label : Option (Moment × Reply)} (hr : PromptRun env settings c₀ c)
      (hs : Interleaving.Step (timedWorkload env settings) c label c') (hp : Prompt label c.db) :
      PromptRun env settings c₀ c'

/-- The revision an attempt is retained under. -/
def assigned (r : AttemptRecord) : Option PolicyKey :=
  r.retentionPolicyVersion.map (fun v => ⟨r.tenantId, r.clusterId, v⟩)

/-- The revision is effective at the time, and not cancelled. -/
def InForce (now : Instant) (c : Catalog) (k : PolicyKey) : Prop :=
  c.cancellations.get k = none ∧ ∃ p, c.policies.get k = some p ∧ p.effectiveAt ≤ now

/-- What commits do to the policies while the clock does not go below `now`: they cancel only
what is effective later. -/
structure Undisturbed (now : Instant) (c c' : Catalog) : Prop where
  policies : ∀ k p, c.policies.get k = some p → c'.policies.get k = some p
  cancelled : ∀ k, c'.cancellations.get k ≠ none → c.cancellations.get k ≠ none ∨
    ∃ p, c'.policies.get k = some p ∧ now < p.effectiveAt

section rely

variable {now : Instant} {c c' c'' : Catalog} {k : PolicyKey} {H : Set Lock} {s s' s'' : Timed}

theorem Undisturbed.refl (c : Catalog) : Undisturbed now c c :=
  ⟨fun _ _ h => h, fun _ h => Or.inl h⟩

theorem Undisturbed.trans (h : Undisturbed now c c') (h' : Undisturbed now c' c'') :
    Undisturbed now c c'' := by
  refine ⟨fun k p hp => h'.policies k p (h.policies k p hp), fun k hk => ?_⟩
  obtain hk | hlate := h'.cancelled k hk
  · obtain hk | ⟨p, hp, hlate⟩ := h.cancelled k hk
    · exact Or.inl hk
    · exact Or.inr ⟨p, h'.policies k p hp, hlate⟩
  · exact Or.inr hlate

theorem InForce.stable (h : InForce now c k) (hc : Undisturbed now c c') : InForce now c' k := by
  obtain ⟨hfree, p, hp, heff⟩ := h
  refine ⟨?_, p, hc.policies k p hp, heff⟩
  by_contra hk
  obtain hold | ⟨p', hp', hlate⟩ := hc.cancelled k hk
  · exact hold hfree
  · rw [hc.policies k p hp] at hp'
    obtain rfl := Option.some.inj hp'
    exact absurd heff (not_le.mpr hlate)

/-- The bound on the commits of the others, for the rules on transactions of the catalog. -/
def Later (now : Instant) (_ : Unit) (_ : Unit) (_ : Set Lock) (c c' : Catalog) : Prop :=
  Undisturbed now c c'

theorem undisturbed_of_rely (h : Rely (Later now) H c c') : Undisturbed now c c' := by
  induction h with
  | refl => exact .refl c
  | tail _ hstep ih =>
    obtain ⟨_, _, _, _, hstep⟩ := hstep
    exact ih.trans hstep

/-- What commits do to the timed state in a prompt run. -/
structure Elapses (s s' : Timed) : Prop where
  clock : s.clock ≤ s'.clock
  undisturbed : Undisturbed s.clock s.catalog s'.catalog

theorem Undisturbed.anti {now' : Instant} (h : Undisturbed now c c') (hle : now' ≤ now) :
    Undisturbed now' c c' := by
  refine ⟨h.policies, fun k hk => ?_⟩
  obtain hk | ⟨p, hp, hlate⟩ := h.cancelled k hk
  · exact Or.inl hk
  · exact Or.inr ⟨p, hp, lt_of_le_of_lt hle hlate⟩

theorem Elapses.refl (s : Timed) : Elapses s s := ⟨le_refl _, .refl _⟩

theorem Elapses.trans (h : Elapses s s') (h' : Elapses s' s'') : Elapses s s'' :=
  ⟨h.clock.trans h'.clock, h.undisturbed.trans (h'.undisturbed.anti h.clock)⟩

theorem Elapses.rely (h : Elapses s s') (hnow : now ≤ s.clock) :
    Rely (Later now) H s.catalog s'.catalog :=
  Relation.ReflTransGen.single
    ⟨(), (), ∅, Set.empty_disjoint H, h.undisturbed.anti hnow⟩

theorem rwp_timed {α : Type} {t : Tx α} {Q : α → Set Lock → Catalog → (Catalog → Catalog) → Prop}
    {q : Catalog → Catalog} (hnow : now ≤ s.clock) (h : t.rwp (Rely (Later now)) Q H s.catalog q) :
    t.timed.rwp (fun _ => Elapses) (fun a H s p => ∃ q, p = Timed.map q ∧ now ≤ s.clock ∧
      Q a H s.catalog q) H s (Timed.map q) := by
  induction t generalizing H s q with
  | done a => exact ⟨q, rfl, hnow, h⟩
  | fail e => trivial
  | acquire l t ih => exact fun s' hs => ih (hnow.trans hs.clock) (h _ (hs.rely hnow))
  | query k ih => exact fun s' hs => ih _ (hnow.trans hs.clock) (h _ (hs.rely hnow))
  | change f t ih => exact ih hnow (q := f ∘ q) h
  | effect f k ih => exact fun w => ih w hnow (h w)

end rely

/-- The policies are the same, and the assignments that are new are in `A`. -/
structure Gives (A : PolicyKey → Prop) (c c' : Catalog) : Prop where
  policies : c'.policies = c.policies
  cancellations : c'.cancellations = c.cancellations
  records : ∀ r' ∈ c'.records, ∀ k, assigned r' = some k →
    (∃ r ∈ c.records, assigned r = some k) ∨ A k

/-- The pending writes assign only what is in force at the time. -/
def Assigning (now : Instant) (c : Catalog) (q : Catalog → Catalog) : Prop :=
  ∃ A, (∀ k, A k → InForce now c k) ∧ ∀ x, Gives A x (q x)

section assigning

variable {now : Instant} {c c' c'' : Catalog} {k : PolicyKey} {H : Set Lock}
  {A B : PolicyKey → Prop} {q : Catalog → Catalog}

theorem Gives.of_same (hp : c'.policies = c.policies) (hc : c'.cancellations = c.cancellations)
    (hr : c'.records = c.records) : Gives A c c' :=
  ⟨hp, hc, fun r hm _ hk => Or.inl ⟨r, hr ▸ hm, hk⟩⟩

theorem Gives.trans (h : Gives A c c') (h' : Gives B c' c'') :
    Gives (fun k' => A k' ∨ B k') c c'' := by
  refine ⟨h'.policies.trans h.policies, h'.cancellations.trans h.cancellations, ?_⟩
  intro r'' hr'' k hk
  obtain ⟨r', hr', hk'⟩ | hB := h'.records r'' hr'' k hk
  · obtain hold | hA := h.records r' hr' k hk'
    · exact Or.inl hold
    · exact Or.inr (Or.inl hA)
  · exact Or.inr (Or.inr hB)

theorem Gives.insert {r : AttemptRecord} (hA : ∀ k, assigned r = some k → A k) :
    Gives A c { c with records := c.records.insert r } := by
  refine ⟨rfl, rfl, fun r' hr' k hk => ?_⟩
  obtain hr' | rfl := Table.mem_of_mem_insert hr'
  · exact Or.inl ⟨r', hr', hk⟩
  · exact Or.inr (hA k hk)

theorem Gives.modify {a : AttemptKey} {f : AttemptRecord → AttemptRecord}
    {hf : ∀ r, (f r).attempt = r.attempt}
    (hA : ∀ r, r.attempt = a → ∀ k, assigned (f r) = some k → assigned r = some k ∨ A k) :
    Gives A c { c with records := c.records.modify a f hf } := by
  refine ⟨rfl, rfl, fun r' hr' k hk => ?_⟩
  have hmem : r' ∈ c.records.modify a f hf := hr'
  obtain ⟨hr', _⟩ | ⟨r, hr, ha, rfl⟩ := Table.mem_modify.mp hmem
  · exact Or.inl ⟨r', hr', hk⟩
  · obtain hold | hA := hA r ha k hk
    · exact Or.inl ⟨r, hr, hold⟩
    · exact Or.inr hA

theorem assigning_start : Assigning now c id :=
  ⟨fun _ => False, fun _ hk => absurd hk id, fun _ => .of_same rfl rfl rfl⟩

theorem Assigning.stable (h : Assigning now c q) (hc : Undisturbed now c c') :
    Assigning now c' q := by
  obtain ⟨A, hA, hq⟩ := h
  exact ⟨A, fun k hk => (hA k hk).stable hc, hq⟩

theorem Assigning.writes {α : Type} {Q : α → Prop} {t : Tx α} (h : Assigning now c q)
    (hA : ∀ k, A k → InForce now c k) (ht : t.writes (Gives A) Q) :
    t.rwp (Rely (Later now)) (fun a _ c q => (Assigning now c q ∧ ∀ k, A k → InForce now c k) ∧ Q a)
      H c q := by
  refine Txn.rwp_of_writes
    (J := fun _ c q => Assigning now c q ∧ ∀ k, A k → InForce now c k) ?_ ?_ ?_ ht ⟨h, hA⟩
  · intro H c c' q hc ⟨h, hA⟩
    have hu := undisturbed_of_rely hc
    exact ⟨h.stable hu, fun k hk => (hA k hk).stable hu⟩
  · exact fun _ _ _ _ h => h
  · intro H c q f hf ⟨⟨B, hB, hq⟩, hA⟩
    refine ⟨⟨fun k => B k ∨ A k, fun k hk => hk.elim (hB k) (hA k), fun x => ?_⟩, hA⟩
    exact (hq x).trans (hf (q x))

/-- The policies and the records are the same. -/
structure Keeps (c c' : Catalog) : Prop where
  policies : c'.policies = c.policies
  cancellations : c'.cancellations = c.cancellations
  records : c'.records = c.records

theorem Admits.keeps (h : Admits c c') : Keeps c c' := by
  obtain ⟨_, _, _, rfl⟩ := h
  exact ⟨rfl, rfl, rfl⟩

theorem Keeps.gives (h : Keeps c c') : Gives A c c' :=
  .of_same h.policies h.cancellations h.records

theorem Assigning.keeps {α : Type} {Q : α → Prop} {t : Tx α} (h : Assigning now c q)
    (ht : t.writes Keeps Q) :
    t.rwp (Rely (Later now)) (fun a _ c q => Assigning now c q ∧ Q a) H c q :=
  Txn.rwp_mono (h.writes (A := fun _ => False) (fun _ hk => hk.elim)
    (Txn.writes_mono (fun _ _ hc => hc.gives) (fun _ hq => hq) ht))
    (fun _ _ _ _ hq => ⟨hq.1.1, hq.2⟩)

theorem Assigning.keepsForce {α : Type} {Q : α → Prop} {t : Tx α} (h : Assigning now c q)
    (hk : InForce now c k) (ht : t.writes Keeps Q) :
    t.rwp (Rely (Later now)) (fun a _ c q => Assigning now c q ∧ InForce now c k ∧ Q a) H c q := by
  have hgives : t.writes (Gives (fun k' => k' = k)) Q :=
    Txn.writes_mono (fun _ _ hc => hc.gives) (fun _ hq => hq) ht
  have hin : ∀ k', k' = k → InForce now c k' := fun k' hk' => hk' ▸ hk
  refine Txn.rwp_mono (h.writes hin hgives) ?_
  exact fun _ _ _ _ hq => ⟨hq.1.1, hq.1.2 k rfl, hq.2⟩

end assigning

section programs

variable {env : Env} {settings : IngestionSettings} {now : Instant} {c : Catalog} {H : Set Lock}
  {q : Catalog → Catalog} {principal : MachinePrincipal} {segment : SegmentUpload} {fresh : Uuid}

theorem admitReserve_keeps {createdAt : Instant} :
    (IngestionService.admitReserve env settings principal segment fresh createdAt).writes Keeps
      (fun _ => True) :=
  Txn.writes_mono (fun _ _ => Admits.keeps) (fun _ h => h) admitReserve_admits

theorem openRange_admits {faults : Faults} {f : Flight} :
    (IngestionService.openRange env faults f).writes Admits (fun _ => True) := by
  simp only [IngestionService.openRange, IngestionService.lockAdmission, Txn.writes_bind,
    Txn.writes_lock]
  refine Txn.writes_mono (fun _ _ h => h) (fun g _ => ?_) currentGeneration_admits
  simp only [Ref.writes_get]
  intro c
  split
  · trivial
  · simp only [Txn.writes_bind, Txn.writes_raiseIf, Txn.writes_ite]
    refine fun _ => ⟨fun _ => ?_, fun _ => ?_⟩
    · exact Ref.writes_update (fun _ => ⟨_, _, _, rfl⟩) trivial
    · simp only [existsVerified, Txn.writes_perform, writes_orRaise, Ref.writes_select]
      intro _ _ _ _ c
      split
      · simp only [Txn.writes_ite, Txn.writes_bind]
        refine ⟨fun _ => ?_, fun _ => ?_⟩
        · exact Ref.writes_update (fun _ => ⟨_, _, _, rfl⟩) trivial
        · exact Ref.writes_update (fun _ => ⟨_, _, _, rfl⟩) trivial
      · trivial

theorem openRange_keeps {faults : Faults} {f : Flight} :
    (IngestionService.openRange env faults f).writes Keeps (fun _ => True) :=
  Txn.writes_mono (fun _ _ => Admits.keeps) (fun _ h => h) openRange_admits

theorem inForce_of_selectPolicy {tenantId : String} {p : RetentionPolicyRevision}
    (h : selectPolicy tenantId segment now c = some p) :
    InForce now c p.policy ∧ p.tenantId = tenantId ∧ p.clusterId = segment.clusterId := by
  obtain ⟨heffective, _⟩ :=
    IngestionService.mem_applicable.mp (IngestionService.selectPolicy_eq_some h).1
  obtain ⟨hm, ht, hcl, heff, hlive⟩ := by simpa using Api.mem_effective.mp heffective
  exact ⟨⟨hlive, p, Table.get_of_mem hm, heff⟩, ht, hcl⟩

theorem recordAdmission_assigning {tenantId : String} (h : Assigning now c q) :
    (IngestionService.recordAdmission settings tenantId segment now).rwp (Rely (Later now))
      (fun _ _ c q => Assigning now c q) H c q := by
  rw [IngestionService.recordAdmission, Txn.rwp_bind, Ref.rwp_get]
  intro c₁ h₁
  have hq₁ := h.stable (undisturbed_of_rely h₁)
  split
  · rw [Txn.rwp_bind, Txn.rwp_read]
    intro c₂ h₂
    have hq₂ := hq₁.stable (undisturbed_of_rely h₂)
    have hsame : (q c₂).policies = c₂.policies ∧ (q c₂).cancellations = c₂.cancellations := by
      obtain ⟨A, _, hA⟩ := hq₂
      exact ⟨(hA c₂).policies, (hA c₂).cancellations⟩
    refine Txn.rwp_mono (hq₂.writes (Q := fun _ => True)
      (A := fun k => ∃ p, selectPolicy tenantId segment now (q c₂) = some p ∧ p.policy = k) ?_ ?_)
      (fun _ _ _ _ hr => hr.1.1)
    · rintro k ⟨p, hp, rfl⟩
      obtain ⟨⟨hlive, p', hp', heff⟩, _⟩ := inForce_of_selectPolicy hp
      exact ⟨hsame.2 ▸ hlive, p', hsame.1 ▸ hp', heff⟩
    · refine Ref.writes_insert (fun c => Gives.insert (fun k hk => ?_)) trivial
      cases hp : selectPolicy tenantId segment now (q c₂) with
      | none =>
        rw [hp] at hk
        cases hk
      | some p =>
        rw [hp] at hk
        obtain ⟨_, ht, hcl⟩ := inForce_of_selectPolicy hp
        refine ⟨p, rfl, ?_⟩
        obtain rfl := Option.some.inj hk
        rw [RetentionPolicyRevision.policy, ht, hcl]
        rfl
  · next record _ =>
    refine Txn.rwp_mono (hq₁.writes (Q := fun _ => True) (A := fun _ => False)
      (fun _ hk => hk.elim) ?_) (fun _ _ _ _ hr => hr.1.1)
    simp only [IngestionService.bindField, Txn.writes_bind, Txn.writes_raiseIf]
    refine fun _ _ _ => Ref.writes_updateUnique (fun c => Gives.modify ?_) trivial
    exact fun r _ k hk => Or.inl hk

theorem addManifest_assigning {f : Flight} {r : AdmissionReservation} {g : Nat}
    {freshReceipt freshOutbox : Uuid} (h : Assigning now c q) :
    (addManifest settings f r g freshReceipt freshOutbox now).rwp (Rely (Later now))
      (fun _ _ c q => Assigning now c q) H c q := by
  rw [addManifest, Txn.rwp_bind]
  refine Txn.rwp_mono (h.keeps (Q := fun _ => True)
    (writes_uuid4 (fun _ => ⟨rfl, rfl, rfl⟩) trivial)) ?_
  rintro receiptId H₁ c₁ q₁ ⟨h₁, -⟩
  rw [Txn.rwp_bind]
  refine Txn.rwp_mono (h₁.keeps (Q := fun _ => True)
    (Ref.writes_insert (fun _ => ⟨rfl, rfl, rfl⟩) trivial)) ?_
  rintro _ H₂ c₂ q₂ ⟨h₂, -⟩
  rw [Txn.rwp_bind]
  refine Txn.rwp_mono (recordAdmission_assigning h₂) ?_
  intro _ H₃ c₃ q₃ h₃
  refine Txn.rwp_mono (h₃.keeps (Q := fun _ => True) ?_) (fun _ _ _ _ hr => hr.1)
  simp only [Txn.writes_bind]
  refine writes_uuid4 (fun _ => ⟨rfl, rfl, rfl⟩) ?_
  refine Ref.writes_insert (fun _ => ⟨rfl, rfl, rfl⟩) ?_
  exact Ref.writes_update (fun _ => ⟨rfl, rfl, rfl⟩) trivial

/-- A plan of a backfill: the revision is in force, and the attempts are of its cluster. -/
structure Migratable (now : Instant) (req : BackfillRequest) (plan : BackfillPlan) (c : Catalog) : Prop where
  force : InForce now c plan.policy.policy
  policy : plan.policy.policy = ⟨req.tenantId, req.clusterId, req.policyVersion⟩
  attempts : ∀ a ∈ plan.attempts, a.tenantId = req.tenantId ∧ a.clusterId = req.clusterId

theorem checkSource_keeps {req : BackfillRequest} {p : RetentionPolicyRevision} :
    (IngestionService.checkSource req p).writes Keeps (fun _ => True) := by
  simp only [IngestionService.checkSource, Txn.writes_bind, Txn.writes_raiseIf]
  intro _
  split
  · simp only [Txn.writes_bind, Txn.writes_raiseIf, Ref.writes_get]
    intro _ c
    split <;> simp
  · simp

theorem retentionBackfillPolicy_inForce {k : PolicyKey} (h : Assigning now c q) :
    (IngestionService.retentionBackfillPolicy k now).rwp (Rely (Later now))
      (fun p _ c q => Assigning now c q ∧ InForce now c k ∧ p.policy = k) H c q := by
  rw [IngestionService.retentionBackfillPolicy, Txn.rwp_bind, Ref.rwp_get]
  intro c₁ h₁
  have hq₁ := h.stable (undisturbed_of_rely h₁)
  split
  · trivial
  · next p hp =>
    simp only [Txn.rwp_bind, Ref.rwp_get, Txn.rwp_raiseIf, Txn.rwp_pure]
    intro c₂ h₂ hlive hdue
    have hq₂ := hq₁.stable (undisturbed_of_rely h₂)
    have hp₁ : c₁.policies.get k = some p := by
      obtain ⟨A, _, hA⟩ := hq₁
      exact (hA c₁).policies ▸ hp
    have hlive₂ : c₂.cancellations.get k = none := by
      obtain ⟨A, _, hA⟩ := hq₂
      have hnone : (q c₂).cancellations.get k = none := by simpa using hlive
      exact (hA c₂).cancellations ▸ hnone
    have hp₂ := (undisturbed_of_rely h₂).policies k p hp₁
    refine ⟨hq₂, ⟨hlive₂, p, hp₂, ?_⟩, Table.key_of_get hp₁⟩
    simpa [IngestionService.retentionDeadlineIsDue] using hdue

theorem retentionBackfillDecision_migratable {req : BackfillRequest} {loaded : List AttemptRecord}
    (h : Assigning now c q) :
    (IngestionService.retentionBackfillDecision env req now loaded).rwp (Rely (Later now))
      (fun plan _ c q => Assigning now c q ∧ Migratable now req plan c) H c q := by
  rw [IngestionService.retentionBackfillDecision, Txn.rwp_bind, Txn.rwp_raiseIf]
  intro _
  rw [Txn.rwp_bind]
  refine Txn.rwp_mono (retentionBackfillPolicy_inForce h) ?_
  rintro p H₁ c₁ q₁ ⟨h₁, hforce, hkey⟩
  rw [Txn.rwp_bind]
  refine Txn.rwp_mono (h₁.keepsForce hforce checkSource_keeps) ?_
  rintro _ H₂ c₂ q₂ ⟨h₂, hforce, -⟩
  simp only [IngestionService.retentionBackfillCandidates, Txn.rwp_bind, Txn.rwp_read,
    Txn.rwp_raiseIf, Txn.rwp_pure]
  intro c₃ h₃ _
  have hu := undisturbed_of_rely h₃
  refine ⟨h₂.stable hu, hkey ▸ hforce.stable hu, hkey, fun a ha => ?_⟩
  obtain ⟨r, hr, rfl⟩ := List.mem_map.mp ha
  have hmem := (List.perm_insertionSort _ _).mem_iff.mp (List.mem_of_mem_take hr)
  have hscope := (Table.mem_select.mp hmem).2
  simp only [Bool.and_eq_true, decide_eq_true_eq] at hscope
  obtain ⟨⟨⟨⟨ht, hcl⟩, _⟩, _⟩, _⟩ := hscope
  cases hfind : loaded.find? (fun l => l.attempt = r.attempt) with
  | none => exact ⟨ht, hcl⟩
  | some l =>
    have hk : l.attempt = r.attempt := by simpa using List.find?_some hfind
    have hkey := AttemptKey.mk.inj hk
    exact ⟨hkey.1.trans ht, hkey.2.1.trans hcl⟩

theorem backfillAttempt_gives {id : Uuid} {p : RetentionPolicyRevision} {a : AttemptRecord}
    (ht : a.tenantId = p.tenantId) (hc : a.clusterId = p.clusterId) :
    (IngestionService.backfillAttempt id p a).writes (Gives (fun k => k = p.policy))
      (fun _ => True) := by
  simp only [IngestionService.backfillAttempt, Txn.writes_bind]
  refine Ref.writes_insert (fun _ => .of_same rfl rfl rfl) ?_
  refine Ref.writes_update (fun c => Gives.modify (fun r hr k hk => Or.inr ?_)) trivial
  have hkey := AttemptKey.mk.inj hr
  obtain rfl := Option.some.inj hk
  rw [RetentionPolicyRevision.policy, ← ht, ← hc, ← hkey.1, ← hkey.2.1]
  rfl

theorem applyRetentionPolicyBackfill_assigning {req : BackfillRequest}
    {expectedEligible expectedDue : Int} {expectedDigest credentialId : String}
    (h : Assigning now c q) :
    (IngestionService.applyRetentionPolicyBackfill env req expectedEligible expectedDue
      expectedDigest credentialId fresh now).rwp (Rely (Later now))
      (fun _ _ c q => Assigning now c q) H c q := by
  simp only [IngestionService.applyRetentionPolicyBackfill, Txn.rwp_bind, Txn.rwp_raiseIf,
    Txn.rwp_lock]
  intro _ _ _ c₁ h₁
  refine Txn.rwp_mono (retentionBackfillDecision_migratable (h.stable (undisturbed_of_rely h₁))) ?_
  intro first H₂ c₂ q₂ ⟨h₂, _⟩
  refine Txn.rwp_mono (h₂.keeps (Q := fun _ => True)
    (Txn.writes_forEach (fun _ _ => trivial) trivial)) ?_
  intro _ H₃ c₃ q₃ ⟨h₃, _⟩
  refine Txn.rwp_mono (retentionBackfillDecision_migratable h₃) ?_
  intro plan H₄ c₄ q₄ ⟨h₄, hplan⟩ _
  refine Txn.rwp_mono (h₄.keepsForce (Q := fun _ => True) hplan.force
    (writes_uuid4 (fun _ => ⟨rfl, rfl, rfl⟩) trivial)) ?_
  intro id H₅ c₅ q₅ ⟨h₅, hforce, _⟩
  have hcluster : plan.policy.tenantId = req.tenantId ∧ plan.policy.clusterId = req.clusterId := by
    have hkey := PolicyKey.mk.inj hplan.policy
    exact ⟨hkey.1, hkey.2.1⟩
  refine Txn.rwp_mono (h₅.writes (Q := fun _ => True) (A := fun k => k = plan.policy.policy) ?_ ?_) ?_
  · exact fun k hk => hk ▸ hforce
  · refine Txn.writes_forEach (fun a ha => ?_) trivial
    obtain ⟨ht, hcl⟩ := hplan.attempts a ha
    exact backfillAttempt_gives (ht.trans hcluster.1.symm) (hcl.trans hcluster.2.symm)
  · intro _ H₆ c₆ q₆ ⟨⟨h₆, _⟩, _⟩
    refine Txn.rwp_mono (h₆.keeps (Q := fun _ => True)
      (Ref.writes_insert (fun _ => ⟨rfl, rfl, rfl⟩) trivial)) ?_
    exact fun _ _ _ _ hr => hr.1

/-- Nothing but a revision is added to the policies and the assignments. -/
structure Founding (c c' : Catalog) : Prop where
  records : c'.records = c.records
  cancellations : c'.cancellations = c.cancellations
  policies : ∀ k p, c.policies.get k = some p → c'.policies.get k = some p

theorem createRetentionPolicyRevision_founds {tenantId clusterId : String} {retentionSeconds : Nat}
    {credentialId : String} {effectiveAt : Option Instant} {logicalCaseId : Option String} :
    (IngestionService.createRetentionPolicyRevision tenantId clusterId retentionSeconds credentialId
      effectiveAt logicalCaseId now).writes Founding (fun _ => True) := by
  simp only [IngestionService.createRetentionPolicyRevision, Txn.writes_bind, Txn.writes_raiseIf,
    Txn.writes_lock, Ref.writes_select]
  intro _ _ _ _ _ c
  refine Ref.writes_insert (fun x => ⟨rfl, rfl, fun k p hp => ?_⟩) trivial
  exact Table.get_eq_some.mpr ⟨Table.mem_insert_of_mem (Table.mem_of_get hp), Table.key_of_get hp⟩

theorem Founding.trans {c c' c'' : Catalog} (h : Founding c c') (h' : Founding c' c'') :
    Founding c c'' where
  records := h'.records.trans h.records
  cancellations := h'.cancellations.trans h.cancellations
  policies k p hp := h'.policies k p (h.policies k p hp)

theorem rwp_founds {α : Type} {t : Tx α} (ht : t.writes Founding (fun _ => True)) :
    t.rwp (Rely (Later now)) (fun _ _ _ q => ∀ x, Founding x (q x)) H c id := by
  have hstart : ∀ x : Catalog, Founding x (id x) := fun x => ⟨rfl, rfl, fun _ _ hp => hp⟩
  refine Txn.rwp_mono (Txn.rwp_of_writes (J := fun _ _ q => ∀ x, Founding x (q x)) ?_ ?_ ?_ ht
    hstart) (fun _ _ _ _ hq => hq.1)
  · exact fun _ _ _ _ _ hq => hq
  · exact fun _ _ _ _ hq => hq
  · exact fun _ _ q f hf hq x => (hq x).trans (hf (q x))

/-- Nothing but a cancellation of the revision is added. -/
structure Striking (k : PolicyKey) (c c' : Catalog) : Prop where
  records : c'.records = c.records
  policies : c'.policies = c.policies
  cancelled : ∀ k', c'.cancellations.get k' ≠ none → c.cancellations.get k' ≠ none ∨ k' = k

/-- The pending writes cancel the revision, which exists. -/
def Strikes (k : PolicyKey) (c : Catalog) (q : Catalog → Catalog) : Prop :=
  (∃ p, c.policies.get k = some p) ∧ ∀ x, Striking k x (q x)

theorem cancelRetentionPolicyRevision_strikes {k : PolicyKey} {reason credentialId : String} :
    (IngestionService.cancelRetentionPolicyRevision k reason credentialId now).rwp (Rely (Later now))
      (fun _ _ c q => Strikes k c q) H c id := by
  simp only [IngestionService.cancelRetentionPolicyRevision, Txn.rwp_bind, Txn.rwp_raiseIf,
    Txn.rwp_lock, Ref.rwp_get]
  intro _ _ c₁ _ c₂ _
  split
  · trivial
  · next p hp =>
    have hp₂ : c₂.policies.get k = some p := hp
    simp only [Txn.rwp_bind, Ref.rwp_get]
    intro c₃ h₃
    have hp₃ := (undisturbed_of_rely h₃).policies k p hp₂
    split
    · simp only [Txn.rwp_bind, Txn.rwp_raiseIf, Txn.rwp_pure]
      exact fun _ => ⟨⟨p, hp₃⟩, fun x => ⟨rfl, rfl, fun _ hk => Or.inl hk⟩⟩
    · simp only [Txn.rwp_bind, Txn.rwp_raiseIf]
      intro _
      refine Ref.rwp_insert (fun H' c₄ _ _ h₄ _ => ?_)
      refine ⟨⟨p, (undisturbed_of_rely h₄).policies k p hp₃⟩, fun x => ⟨rfl, rfl, fun k' hk => ?_⟩⟩
      obtain ⟨y, hy⟩ := Option.ne_none_iff_exists'.mp hk
      obtain ⟨hy, hkey⟩ := Table.get_eq_some.mp hy
      obtain hy | rfl := Table.mem_of_mem_insert hy
      · exact Or.inl (fun hnone => Table.get_eq_none.mp hnone y hy hkey)
      · exact Or.inr hkey.symm

end programs

/-- What the commit of a call does to the timed state. -/
structure Advance (call : Moment) (s s' : Timed) : Prop where
  clock : s.clock ≤ s'.clock
  policies : ∀ k p, s.catalog.policies.get k = some p → s'.catalog.policies.get k = some p
  cancelled : ∀ k, s'.catalog.cancellations.get k ≠ none → s.catalog.cancellations.get k ≠ none ∨
    Cancels call k ∧ ∃ p, s.catalog.policies.get k = some p
  records : ∀ r' ∈ s'.catalog.records, ∀ k, assigned r' = some k →
    (∃ r ∈ s.catalog.records, assigned r = some k) ∨ InForce s.clock s'.catalog k

/-- Whatever the others commit in time, the commit of the session is an advance. -/
def Due (call : Moment) (s : Timed) (p : Timed → Timed) : Prop :=
  ∀ s', Elapses s s' → Advance call s' (p s')

def Guarded (x : Session Timed ObjectStore Lock Failure Moment Reply) (s : Timed) : Prop :=
  x.rest.rwp (fun _ => Elapses) (fun _ _ s p => Due x.call s p) x.held s x.pending

section guarded

variable {env : Env} {settings : IngestionSettings} {now : Instant} {s s' : Timed} {call : Moment}
  {q : Catalog → Catalog} {k : PolicyKey} {H : Set Lock}

theorem due_of_assigning (h : Assigning now s.catalog q) (hnow : now ≤ s.clock) :
    Due call s (Timed.map q) := by
  intro s' hs
  obtain ⟨A, hA, hq⟩ := h.stable (hs.undisturbed.anti hnow)
  have hgives := hq s'.catalog
  refine ⟨le_refl _, fun k p hp => ?_, fun k hk => ?_, fun r' hr' k hk => ?_⟩
  · exact hgives.policies.symm ▸ hp
  · exact Or.inl (fun hnone => hk (hgives.cancellations.symm ▸ hnone))
  · obtain hold | hk := hgives.records r' hr' k hk
    · exact Or.inl hold
    · obtain ⟨hlive, p, hp, heff⟩ := hA k hk
      refine Or.inr ⟨hgives.cancellations.symm ▸ hlive, p, hgives.policies.symm ▸ hp, ?_⟩
      exact heff.trans (hnow.trans hs.clock)

theorem due_of_founding (h : ∀ x, Founding x (q x)) : Due call s (Timed.map q) := by
  intro s' _
  have hf := h s'.catalog
  refine ⟨le_refl _, hf.policies, fun k hk => ?_, fun r' hr' k hk => ?_⟩
  · exact Or.inl (fun hnone => hk (hf.cancellations.symm ▸ hnone))
  · exact Or.inl ⟨r', hf.records ▸ hr', hk⟩

theorem due_of_strikes (h : Strikes k s.catalog q) (hcall : Cancels call k) :
    Due call s (Timed.map q) := by
  intro s' hs
  obtain ⟨⟨p, hp⟩, hq⟩ := h
  have hk := hq s'.catalog
  refine ⟨le_refl _, fun k' p' hp' => hk.policies.symm ▸ hp', fun k' hk' => ?_,
    fun r' hr' k' hk' => Or.inl ⟨r', hk.records ▸ hr', hk'⟩⟩
  obtain hold | rfl := hk.cancelled k' hk'
  · exact Or.inl hold
  · exact Or.inr ⟨hcall, p, hs.undisturbed.policies k' p hp⟩

theorem due_of_tick {elapsed : Nat} :
    Due (.tick elapsed) s (fun s => { s with clock := s.clock + elapsed }) := by
  intro s' _
  refine ⟨?_, fun _ _ hp => hp, fun _ hk => Or.inl hk, fun r hr k hk => Or.inl ⟨r, hr, hk⟩⟩
  exact Int.le_add_of_nonneg_right (Int.natCast_nonneg elapsed)

theorem rwp_keeps {α : Type} {t : Tx α} (ht : t.writes Keeps (fun _ => True))
    (h : Assigning now s.catalog q) (hnow : now ≤ s.clock) :
    t.timed.rwp (fun _ => Elapses) (fun _ _ s p => ∃ q, p = Timed.map q ∧ now ≤ s.clock ∧
      Assigning now s.catalog q) H s (Timed.map q) := by
  refine Txn.rwp_mono (rwp_timed hnow (h.keeps ht)) ?_
  exact fun _ _ s p ⟨q, hp, hle, hq, _⟩ => ⟨q, hp, hle, hq⟩

theorem guarded_keeps {t : Tx Reply} (ht : t.writes Keeps (fun _ => True)) :
    Guarded ⟨call, t.timed, ∅, id⟩ s := by
  have hstart : Assigning s.clock s.catalog id := assigning_start
  refine Txn.rwp_mono (rwp_keeps ht hstart (le_refl _)) ?_
  rintro _ _ s' _ ⟨q, rfl, hle, hq⟩
  exact due_of_assigning hq hle

theorem guarded_reading {α : Type} {t : Instant → Tx α} {f : α → Reply}
    {R : Instant → Catalog → (Catalog → Catalog) → Prop}
    (ht : ∀ now c, (t now).rwp (Rely (Later now)) (fun _ _ c q => R now c q) ∅ c id)
    (hdue : ∀ now s q, now ≤ s.clock → R now s.catalog q → Due call s (Timed.map q)) :
    Guarded ⟨call, f <$> (do let now ← readClock; (t now).timed), ∅, id⟩ s := by
  simp only [Guarded, Txn.rwp_map, Txn.rwp_bind, readClock, Txn.rwp_read]
  intro s' _
  refine Txn.rwp_mono (rwp_timed (le_refl _) (ht s'.clock s'.catalog)) ?_
  rintro _ _ s'' _ ⟨q, rfl, hle, hq⟩
  exact hdue s'.clock s'' q hle hq

theorem admitCommit_guarded {faults : Faults} {f : Flight} {freshReceipt freshOutbox : Uuid} :
    Guarded ⟨call, .receipt <$> (do
      let opened ← (IngestionService.openRange env faults f).timed
      match opened with
      | .inl receipt => pure receipt
      | .inr (reservation, generation) => do
        let committedAt ← readClock
        (addManifest settings f reservation generation freshReceipt freshOutbox committedAt).timed),
      ∅, id⟩ s := by
  simp only [Guarded, Txn.rwp_map, Txn.rwp_bind]
  have hstart : Assigning s.clock s.catalog id := assigning_start
  refine Txn.rwp_mono (rwp_keeps openRange_keeps hstart (le_refl _)) ?_
  rintro opened H s₁ _ ⟨q, rfl, hle, hq⟩
  cases opened with
  | inl receipt => exact due_of_assigning hq hle
  | inr x =>
    simp only [Txn.rwp_bind, readClock, Txn.rwp_read]
    intro s₂ h₂
    have hq₂ : Assigning s₂.clock s₂.catalog q := by
      obtain ⟨A, hA, hgives⟩ := hq.stable (h₂.undisturbed.anti hle)
      refine ⟨A, fun k hk => ?_, hgives⟩
      obtain ⟨hlive, p, hp, heff⟩ := hA k hk
      exact ⟨hlive, p, hp, heff.trans (hle.trans h₂.clock)⟩
    refine Txn.rwp_mono (rwp_timed (le_refl _) (addManifest_assigning hq₂)) ?_
    rintro _ _ s₃ _ ⟨q', rfl, hle', hq'⟩
    exact due_of_assigning hq' hle'

theorem timedProgram_guarded {m : Memory} {t : Txn Timed ObjectStore Lock Failure Reply}
    (h : timedProgram env settings m call = some t) : Guarded ⟨call, t, ∅, id⟩ s := by
  cases call with
  | tick elapsed =>
    obtain rfl := Option.some.inj h
    exact due_of_tick
  | call call =>
    cases call with
    | admitReserve ticket principal segment fresh now =>
      obtain ⟨t, ht, rfl⟩ := Option.map_eq_some_iff.mp h
      refine guarded_keeps ?_
      simp only [program] at ht
      split at ht
      · cases ht
      · obtain rfl := Option.some.inj ht
        exact Txn.writes_map.mpr admitReserve_keeps
    | admitPut ticket faults =>
      obtain ⟨t, ht, rfl⟩ := Option.map_eq_some_iff.mp h
      obtain ⟨f, _, rfl⟩ := Option.map_eq_some_iff.mp ht
      exact guarded_keeps (Txn.writes_map.mpr admitPut_writes)
    | admitCrash ticket =>
      obtain rfl := Option.some.inj h
      exact @guarded_keeps s _ (pure .unit) trivial
    | admitCommit ticket faults freshReceipt freshOutbox committedAt =>
      obtain ⟨f, _, rfl⟩ := Option.map_eq_some_iff.mp h
      exact admitCommit_guarded
    | createRetentionPolicyRevision tenantId clusterId seconds credentialId effectiveAt case now =>
      obtain rfl := Option.some.inj h
      exact guarded_reading (R := fun _ _ q => ∀ x, Founding x (q x))
        (fun _ _ => rwp_founds createRetentionPolicyRevision_founds)
        (fun _ _ _ _ hq => due_of_founding hq)
    | cancelRetentionPolicyRevision k reason credentialId now =>
      obtain rfl := Option.some.inj h
      exact guarded_reading (R := fun _ c q => Strikes k c q)
        (fun _ _ => cancelRetentionPolicyRevision_strikes)
        (fun _ _ _ _ hq => due_of_strikes hq rfl)
    | applyRetentionPolicyBackfill req eligible due digest credentialId fresh now =>
      obtain rfl := Option.some.inj h
      exact guarded_reading (R := Assigning)
        (fun _ _ => applyRetentionPolicyBackfill_assigning assigning_start)
        (fun _ _ _ hle hq => due_of_assigning hq hle)
    | _ => cases h

theorem Guarded.stable {x : Session Timed ObjectStore Lock Failure Moment Reply}
    (h : Guarded x s) (hs : Elapses s s') : Guarded x s' := by
  refine Txn.rwp_stable ?_ ?_ hs h
  · intro H s₁ s₂ s₃ h₁ h₂
    exact h₁.trans h₂
  · intro a H s₁ s₂ p h₁ hp s₃ h₃
    exact hp s₃ (h₁.trans h₃)

theorem Advance.elapses {a : Reply} (h : Advance call s s') (hp : Prompt (some (call, a)) s) :
    Elapses s s' := by
  refine ⟨h.clock, h.policies, fun k hk => ?_⟩
  by_cases hlive : s.catalog.cancellations.get k = none
  · obtain hold | ⟨hcall, p, hget⟩ := h.cancelled k hk
    · exact absurd hlive hold
    · exact Or.inr ⟨p, h.policies k p hget, hp _ rfl k hcall hlive p hget⟩
  · exact Or.inl hlive

end guarded

/-- Every assigned revision is in force, and every transaction under way will keep it so. -/
structure Governed (c : TimedConfig) : Prop where
  records : ∀ r ∈ c.db.catalog.records, ∀ k, assigned r = some k → InForce c.db.clock c.db.catalog k
  sessions : ∀ x ∈ c.sessions, Guarded x c.db

section runs

variable {env : Env} {settings : IngestionSettings} {c c' : TimedConfig}
  {label : Option (Moment × Reply)}

theorem governed_opening {clock : Instant} : Governed (opening clock) :=
  ⟨fun _ hr => absurd hr (Table.not_mem_empty _), fun _ hx => absurd hx List.not_mem_nil⟩

theorem Governed.replace {db : Timed} {w w' : ObjectStore} {m m' : Memory}
    {pre post : List (Session Timed ObjectStore Lock Failure Moment Reply)}
    {x y : Session Timed ObjectStore Lock Failure Moment Reply}
    (h : Governed ⟨db, w, m, pre ++ x :: post⟩) (hy : Guarded x db → Guarded y db) :
    Governed ⟨db, w', m', pre ++ y :: post⟩ := by
  refine ⟨h.records, fun z hz => ?_⟩
  obtain hz | hz := List.mem_append.mp hz
  · exact h.sessions z (List.mem_append_left _ hz)
  · obtain rfl | hz := List.mem_cons.mp hz
    · exact hy (h.sessions x (List.mem_append_right _ List.mem_cons_self))
    · exact h.sessions z (List.mem_append_right _ (List.mem_cons_of_mem _ hz))

theorem Governed.remove {db : Timed} {w w' : ObjectStore} {m m' : Memory}
    {pre post : List (Session Timed ObjectStore Lock Failure Moment Reply)}
    {x : Session Timed ObjectStore Lock Failure Moment Reply}
    (h : Governed ⟨db, w, m, pre ++ x :: post⟩) : Governed ⟨db, w', m', pre ++ post⟩ := by
  refine ⟨h.records, fun z hz => ?_⟩
  obtain hz | hz := List.mem_append.mp hz
  · exact h.sessions z (List.mem_append_left _ hz)
  · exact h.sessions z (List.mem_append_right _ (List.mem_cons_of_mem _ hz))

theorem Governed.commit {db : Timed} {w w' : ObjectStore} {m m' : Memory}
    {pre post : List (Session Timed ObjectStore Lock Failure Moment Reply)} {call : Moment}
    {a : Reply} {H : Set Lock} {p : Timed → Timed}
    (h : Governed ⟨db, w, m, pre ++ ⟨call, .done a, H, p⟩ :: post⟩)
    (hp : Prompt (some (call, a)) db) : Governed ⟨p db, w', m', pre ++ post⟩ := by
  have hdue : Due call db p :=
    h.sessions ⟨call, .done a, H, p⟩ (List.mem_append_right _ List.mem_cons_self)
  have hadvance := hdue db (.refl db)
  have hs : Elapses db (p db) := hadvance.elapses hp
  refine ⟨fun r' hr' k hk => ?_, fun z hz => ?_⟩
  · obtain ⟨r, hr, hk'⟩ | ⟨hlive, x, hx, heff⟩ := hadvance.records r' hr' k hk
    · obtain ⟨hlive, x, hx, heff⟩ := (h.records r hr k hk').stable hs.undisturbed
      exact ⟨hlive, x, hx, heff.trans hs.clock⟩
    · exact ⟨hlive, x, hx, heff.trans hs.clock⟩
  · have hz' : Governed ⟨db, w', m', pre ++ post⟩ := h.remove
    exact (hz'.sessions z hz).stable hs

theorem Governed.step (h : Governed c) (hs : Interleaving.Step (timedWorkload env settings) c label c')
    (hp : Prompt label c.db) : Governed c' := by
  cases hs with
  | start ht =>
    refine ⟨h.records, fun x hx => ?_⟩
    obtain rfl | hx := List.mem_cons.mp hx
    · exact timedProgram_guarded ht
    · exact h.sessions x hx
  | acquire hfree => exact h.replace (fun hx => hx _ (.refl _))
  | query => exact h.replace (fun hx => hx _ (.refl _))
  | change => exact h.replace (fun hx => hx)
  | effect => exact h.replace (fun hx => hx _)
  | commit => exact h.commit hp
  | rollback => exact h.remove
  | die => exact h.remove

theorem PromptRun.governed {clock : Instant} (h : PromptRun env settings (opening clock) c) :
    Governed c := by
  induction h with
  | start => exact governed_opening
  | step _ hs hp ih => exact ih.step hs hp

/-- When every cancellation commits before its revision is effective, no attempt is ever
retained under a cancelled revision. -/
theorem cancelled_unassigned {clock : Instant} (h : PromptRun env settings (opening clock) c) :
    ∀ r ∈ c.db.catalog.records, ∀ v, r.retentionPolicyVersion = some v →
      c.db.catalog.cancellations.get ⟨r.tenantId, r.clusterId, v⟩ = none := by
  intro r hr v hv
  have hk : assigned r = some ⟨r.tenantId, r.clusterId, v⟩ := by rw [assigned, hv]; rfl
  exact (h.governed.records r hr _ hk).1

end runs

/-- The timed state between two calls: the database, the objects and what callers remember. -/
abbrev Rest := Timed × ObjectStore × Memory

/-- A call run to its commit with nothing in between. -/
def alone (env : Env) (settings : IngestionSettings) (call : Moment) (s : Rest) :
    Option (Reply × Rest) :=
  match timedProgram env settings s.2.2 call with
  | none => none
  | some t =>
    match t.run s.1 s.2.1 with
    | (.ok (a, db), w) => some (a, db, w, timedFinish call (.committed a) s.2.2)
    | _ => none

/-- Calls one after the other, each of which passes the check. -/
def aloneAll (env : Env) (settings : IngestionSettings) (check : Moment → Timed → Bool) :
    List Moment → Rest → Option Rest
  | [], s => some s
  | call :: calls, s =>
    if check call s.1 then
      match alone env settings call s with
      | some (_, s') => aloneAll env settings check calls s'
      | none => none
    else none

/-- A call is no cancellation, or one in time. -/
def promptly : Moment → Timed → Bool
  | .call (.cancelRetentionPolicyRevision k _ _ _), s =>
    (s.catalog.cancellations.get k).isSome ||
      (s.catalog.policies.get k).all (fun p => s.clock < p.effectiveAt)
  | _, _ => true

section alone

variable {env : Env} {settings : IngestionSettings} {check : Moment → Timed → Bool} {s s' : Rest}
  {post : List (Session Timed ObjectStore Lock Failure Moment Reply)} {c₀ : TimedConfig}

def Rest.config (s : Rest) (post : List (Session Timed ObjectStore Lock Failure Moment Reply)) :
    TimedConfig := ⟨s.1, s.2.1, s.2.2, post⟩

theorem quiet_of_alone {call : Moment} {a : Reply} (hpost : ∀ x ∈ post, x.held = ∅)
    (h : alone env settings call s = some (a, s')) : ∃ c₁ c₂,
      Interleaving.Step (timedWorkload env settings) (s.config post) none c₁ ∧
      Interleaving.Quiet (timedWorkload env settings) c₁ c₂ ∧ c₂.db = s.1 ∧
      Interleaving.Step (timedWorkload env settings) c₂ (some (call, a)) (s'.config post) := by
  obtain ⟨db, w, m⟩ := s
  unfold alone at h
  cases ht : timedProgram env settings m call with
  | none =>
    rw [ht] at h
    cases h
  | some t =>
    rw [ht] at h
    simp only [] at h
    cases hr : t.run db w with
    | mk r w' =>
      rw [hr] at h
      cases r with
      | error f => cases h
      | ok r =>
        obtain ⟨b, db'⟩ := r
        cases h
        have hdone : ∃ H' p', Interleaving.Quiet (timedWorkload env settings)
            ⟨db, w, m, ⟨call, t, ∅, id⟩ :: post⟩ ⟨db, w', m, ⟨call, .done a, H', p'⟩ :: post⟩ ∧
              p' db = db' := Interleaving.quiet_done hpost t hr
        obtain ⟨H', p', hquiet, rfl⟩ := hdone
        refine ⟨_, _, .start ht, hquiet, rfl, ?_⟩
        exact @Interleaving.Step.commit _ _ _ _ _ _ _ (timedWorkload env settings) db w' m [] post
          call a H' p'

theorem reach_of_aloneAll {calls : List Moment} (hpost : ∀ x ∈ post, x.held = ∅)
    (h : aloneAll env settings check calls s = some s') :
    Reach (timedWorkload env settings) (s.config post) (s'.config post) := by
  induction calls generalizing s with
  | nil =>
    obtain rfl := Option.some.inj h
    exact .init
  | cons call calls ih =>
    rw [aloneAll] at h
    split at h
    · split at h
      · next a s₁ hs =>
        obtain ⟨_, c, hstart, hquiet, _, hcommit⟩ := quiet_of_alone hpost hs
        have hstarted := Reach.trans (.step .init hstart) (Interleaving.reach_of_quiet hquiet)
        exact Reach.trans (hstarted.step hcommit) (ih h)
      · cases h
    · cases h

theorem promptRun_of_quiet {c c' : TimedConfig} (h₀ : PromptRun env settings c₀ c)
    (h : Interleaving.Quiet (timedWorkload env settings) c c') : PromptRun env settings c₀ c' := by
  induction h with
  | refl => exact h₀
  | tail _ hs ih => exact ih.step hs.1 (fun _ hx => absurd hx (Option.not_mem_none _))

theorem prompt_of_promptly {call : Moment} {a : Reply} {s : Timed} (h : promptly call s = true) :
    Prompt (some (call, a)) s := by
  intro x hx k hk hlive p hp
  obtain rfl := Option.some.inj hx
  cases call with
  | tick elapsed => exact hk.elim
  | call call =>
    cases call with
    | cancelRetentionPolicyRevision k' reason credentialId now =>
      obtain rfl : k' = k := hk
      simpa [promptly, hlive, hp] using h
    | _ => exact hk.elim

theorem promptRun_of_aloneAll {calls : List Moment} (h₀ : PromptRun env settings c₀ (s.config []))
    (h : aloneAll env settings promptly calls s = some s') :
    PromptRun env settings c₀ (s'.config []) := by
  induction calls generalizing s with
  | nil =>
    obtain rfl := Option.some.inj h
    exact h₀
  | cons call calls ih =>
    rw [aloneAll] at h
    split at h
    · next hcheck =>
      split at h
      · next a s₁ hs =>
        obtain ⟨_, c, hstart, hquiet, hdb, hcommit⟩ :=
          quiet_of_alone (fun x hx => absurd hx List.not_mem_nil) hs
        have hstarted := h₀.step hstart (fun _ hx => absurd hx (Option.not_mem_none _))
        refine ih ((promptRun_of_quiet hstarted hquiet).step hcommit ?_) h
        exact hdb ▸ prompt_of_promptly hcheck
      · cases h
    · cases h

end alone

end Deployment

-- A revision that is to be effective at the time 10, and its cancellation.
namespace Sample

open Deployment (Moment)

def enactment : Moment :=
  .call (.createRetentionPolicyRevision "acme" "c1" 3600 "admin" (some 10) none 5)

def repeal : Moment := .call (.cancelRetentionPolicyRevision ⟨"acme", "c1", 1⟩ "mistake" "admin" 5)

def repealing (now : Instant) : Txn Timed ObjectStore Lock Failure Reply :=
  .cancellation <$> (IngestionService.cancelRetentionPolicyRevision ⟨"acme", "c1", 1⟩ "mistake"
    "admin" now).timed

def takesEffect : List Moment := .tick 7 :: admission.map .call

end Sample

namespace Deployment

/-- The cancellation commits before the revision is effective, and the attempt that is admitted
later is retained under none. -/
theorem cancelled_unassigned_sample : ∃ c : TimedConfig,
    PromptRun Sample.env Sample.settings (opening 5) c ∧
    c.db.catalog.cancellations.get ⟨"acme", "c1", 1⟩ ≠ none ∧ c.db.catalog.records.rows ≠ [] ∧
    ∀ r ∈ c.db.catalog.records, ∀ v, r.retentionPolicyVersion = some v →
      c.db.catalog.cancellations.get ⟨r.tenantId, r.clusterId, v⟩ = none := by
  have h : (aloneAll Sample.env Sample.settings promptly
      (Sample.enactment :: Sample.repeal :: Sample.takesEffect)
      (⟨.empty, 5⟩, fun _ => none, .empty)).map (fun s =>
        ((s.1.catalog.cancellations.get ⟨"acme", "c1", 1⟩).isSome,
          s.1.catalog.records.rows.isEmpty)) = some (true, false) := by decide +kernel
  obtain ⟨s, hs, h⟩ := Option.map_eq_some_iff.mp h
  obtain ⟨hcancelled, hrecords⟩ := Prod.mk.inj h
  have hrun : PromptRun Sample.env Sample.settings (opening 5) (s.config []) :=
    promptRun_of_aloneAll .start hs
  refine ⟨s.config [], hrun, fun hnone => ?_, fun hempty => ?_, cancelled_unassigned hrun⟩
  · have hget : s.1.catalog.cancellations.get ⟨"acme", "c1", 1⟩ = none := hnone
    rw [hget] at hcancelled
    cases hcancelled
  · have hrows : s.1.catalog.records.rows = [] := hempty
    rw [hrows] at hrecords
    cases hrecords

/-- The cancellation reads the clock in time, and commits after an attempt has been admitted
under the revision. -/
theorem late_cancellation : ∃ c, Reach (timedWorkload Sample.env Sample.settings) (opening 5) c ∧
    ∃ r ∈ c.db.catalog.records, r.retentionPolicyVersion = some 1 ∧
      c.db.catalog.cancellations.get ⟨r.tenantId, r.clusterId, 1⟩ ≠ none := by
  have h : (aloneAll Sample.env Sample.settings (fun _ _ => true) [Sample.enactment]
      (⟨.empty, 5⟩, fun _ => none, .empty)).bind (fun s₁ =>
        (aloneAll Sample.env Sample.settings (fun _ _ => true) Sample.takesEffect s₁).bind (fun s₂ =>
          match (Sample.repealing s₁.1.clock).run s₂.1 s₂.2.1 with
          | (.ok (_, db), _) => some (db.catalog.records.rows.any (fun r =>
              r.retentionPolicyVersion = some 1 &&
                (db.catalog.cancellations.get ⟨r.tenantId, r.clusterId, 1⟩).isSome))
          | _ => none)) = some true := by decide +kernel
  obtain ⟨s₁, hs₁, h⟩ := Option.bind_eq_some_iff.mp h
  obtain ⟨s₂, hs₂, h⟩ := Option.bind_eq_some_iff.mp h
  cases hr : (Sample.repealing s₁.1.clock).run s₂.1 s₂.2.1 with
  | mk r w =>
    rw [hr] at h
    cases r with
    | error f => cases h
    | ok r =>
      obtain ⟨a, db⟩ := r
      have hfound := Option.some.inj h
      have hcreated : Reach (timedWorkload Sample.env Sample.settings) (opening 5)
          (s₁.config []) := reach_of_aloneAll (fun _ hx => absurd hx List.not_mem_nil) hs₁
      -- the session that waits has read the clock and holds no lock
      have hread : Reach (timedWorkload Sample.env Sample.settings) (s₁.config [])
          (s₁.config [⟨Sample.repeal, Sample.repealing s₁.1.clock, ∅, id⟩]) := by
        have hstart := @Interleaving.Step.start _ _ _ _ _ _ _
          (timedWorkload Sample.env Sample.settings) (s₁.config []) Sample.repeal _ rfl
        have hquery := @Interleaving.Step.query _ _ _ _ _ _ _
          (timedWorkload Sample.env Sample.settings) s₁.1 s₁.2.1 s₁.2.2 [] [] Sample.repeal
          (fun s => Sample.repealing s.clock) ∅ id
        exact (Reach.init.step hstart).step hquery
      have hwaits : Reach (timedWorkload Sample.env Sample.settings)
          (s₁.config [⟨Sample.repeal, Sample.repealing s₁.1.clock, ∅, id⟩])
          (s₂.config [⟨Sample.repeal, Sample.repealing s₁.1.clock, ∅, id⟩]) := by
        refine reach_of_aloneAll (fun x hx => ?_) hs₂
        obtain rfl := List.mem_singleton.mp hx
        rfl
      have hdone : ∃ H' p', Interleaving.Quiet (timedWorkload Sample.env Sample.settings)
          (s₂.config [⟨Sample.repeal, Sample.repealing s₁.1.clock, ∅, id⟩])
          ⟨s₂.1, w, s₂.2.2, [⟨Sample.repeal, .done a, H', p'⟩]⟩ ∧ p' s₂.1 = db :=
        Interleaving.quiet_done (fun _ hx => absurd hx List.not_mem_nil) _ hr
      obtain ⟨H', p', hquiet, rfl⟩ := hdone
      have hcommit := @Interleaving.Step.commit _ _ _ _ _ _ _
        (timedWorkload Sample.env Sample.settings) s₂.1 w s₂.2.2 [] [] Sample.repeal a H' p'
      refine ⟨_, (((hcreated.trans hread).trans hwaits).trans
        (Interleaving.reach_of_quiet hquiet)).step hcommit, ?_⟩
      obtain ⟨r, hr, hx⟩ := List.any_eq_true.mp hfound
      simp only [Bool.and_eq_true, decide_eq_true_eq] at hx
      refine ⟨r, hr, hx.1, fun hnone => ?_⟩
      rw [hnone] at hx
      cases hx.2

end Deployment

end RankLens
