import RankLens.Monitoring

namespace RankLens

open Interleaving (Ending)
open IngestionService (Backfilled Admits Opened newRecord admitAgain setRetention)
open SchedulerReconciler (Polled)

/-- The attempt is known and its evidence is not fenced. -/
def Live (k : AttemptKey) (c : Catalog) : Prop :=
  ∃ g, c.generations.get k = some g ∧ g.deletedAt = none

theorem live_of_opened {k : AttemptKey} {c : Catalog} {t : Table AttemptGeneration.attempt} {n : Nat}
    (h : Opened k t n c.generations) : Live k c := by
  unfold Live
  generalize c.generations = t' at h ⊢
  cases h with
  | first hnone => exact ⟨_, (Table.get_insert hnone).trans (if_pos rfl), rfl⟩
  | live hget hd => exact ⟨_, hget, hd⟩

/-- Where the binding of a record comes from: a record of the same attempt, or an
admission that finds the attempt live. -/
def Origin (c c' : Catalog) (r' : AttemptRecord) : Prop :=
  (∃ r ∈ c.records, r.attempt = r'.attempt ∧
      r.schedulerSourceIdentity = r'.schedulerSourceIdentity) ∨
    Live r'.attempt c' ∧
      ∃ segment : SegmentUpload, r'.schedulerSourceIdentity = segment.schedulerSourceIdentity

variable {c c' : Catalog}

theorem origin_same (h : c'.records = c.records) : ∀ r' ∈ c'.records, Origin c c' r' :=
  fun r' hr => Or.inl ⟨r', h ▸ hr, rfl, rfl⟩

theorem origin_admitted {settings : IngestionSettings} {f : IngestionService.Flight} {now : Instant}
    (h : Admits settings f now c c') (hlive : Live (f.segment.attempt f.principal.tenantId) c') :
    ∀ r' ∈ c'.records, Origin c c' r' := by
  obtain hsame | ⟨hrec, _⟩ := h
  · exact origin_same hsame.records
  · intro r' hr'
    have hget := Table.get_of_mem hr'
    by_cases hk : f.segment.attempt f.principal.tenantId = r'.attempt
    · rw [← hk] at hget
      obtain ⟨_, hnew⟩ | ⟨r, hr, hagain⟩ := hrec.get_self
      · obtain rfl := Option.some.inj (hnew.symm.trans hget)
        exact Or.inr ⟨hk ▸ hlive, f.segment, rfl⟩
      · obtain rfl := Option.some.inj (hagain.symm.trans hget)
        by_cases hb : r.schedulerSourceIdentity.isNone && f.segment.schedulerSourceIdentity.isSome
        · exact Or.inr ⟨hk ▸ hlive, f.segment, if_pos hb⟩
        · exact Or.inl ⟨r, Table.mem_of_get hr, rfl, (if_neg hb).symm⟩
    · rw [hrec.get_other hk] at hget
      exact Or.inl ⟨r', Table.mem_of_get hget, rfl, rfl⟩

theorem origin_migrated {q : BackfillRequest} {now : Instant}
    (h : IngestionService.Migrating q now c c') : ∀ r' ∈ c'.records, Origin c c' r' := by
  have hrows : ∀ r' ∈ c'.records, ∃ r ∈ c.records, r.attempt = r'.attempt ∧
      r.schedulerSourceIdentity = r'.schedulerSourceIdentity := by
    refine h.preserves (P := fun c' => ∀ r' ∈ c'.records, ∃ r ∈ c.records, r.attempt = r'.attempt ∧
      r.schedulerSourceIdentity = r'.schedulerSourceIdentity) ?_ ?_ (fun r hr => ⟨r, hr, rfl, rfl⟩)
    · exact fun _ _ hsame ih r hr => ih r (hsame.records ▸ hr)
    · intro id p r c₁ c₂ _ hb _ _ _ _ ih x hx
      obtain ⟨_, rfl⟩ := hb
      have hmod : x ∈ c₁.records.modify r.attempt (setRetention p r) (fun _ => rfl) := hx
      obtain ⟨hx, _⟩ | ⟨y, hy, _, rfl⟩ := Table.mem_modify.mp hmod
      · exact ih x hx
      · exact ih y hy
  exact fun r' hr' => Or.inl (hrows r' hr')

namespace Deployment

variable {env : Env} {settings : IngestionSettings} {s s' : State} {call : Call}
  {e : Ending Failure Reply}

theorem origin_step (h : Step env settings s call e s') :
    ∀ r' ∈ s'.catalog.records, Origin s.catalog s'.catalog r' := by
  obtain ⟨_, _, ⟨a, rfl, heff⟩ | ⟨_, hc, _⟩⟩ := step_cases h
  · have hledger := step_ledger h
    generalize s'.catalog = c', s'.objects = w' at hledger heff ⊢
    cases hledger with
    | same hsame => exact origin_same hsame.records
    | admitted hf ha =>
      refine origin_admitted ha ?_
      cases heff with
      | quiet hq => cases hq
      | admitCommit hf' h =>
        obtain rfl := Option.some.inj (hf.symm.trans hf')
        cases h with
        | replay hc => exact live_of_opened hc.opened
        | fresh hc => exact live_of_opened hc.opened
    | created hnew =>
      obtain ⟨_, rfl⟩ := hnew
      exact origin_same rfl
    | cancelled hx => cases hx <;> exact origin_same rfl
    | migrated hm => exact origin_migrated hm
    | erased hrows => exact fun r' hr' => Or.inl ⟨r', ((hrows.records r').mp hr').1, rfl, rfl⟩
  · exact origin_same (congrArg Catalog.records hc)

theorem observations_step (h : Step env settings s call e s') :
    ∀ o ∈ s'.catalog.observations, o ∈ s.catalog.observations := by
  obtain ⟨_, _, ⟨a, rfl, _⟩ | ⟨_, hc, _⟩⟩ := step_cases h
  · have heff := step_ledger h
    generalize s'.catalog = c' at heff ⊢
    cases heff with
    | same hsame => exact fun o ho => hsame.observations ▸ ho
    | admitted _ ha =>
      obtain hsame | ⟨_, _, _, _, ho⟩ := ha
      · exact fun o h => hsame.observations ▸ h
      · exact fun o h => ho ▸ h
    | created hnew =>
      obtain ⟨_, rfl⟩ := hnew
      exact fun _ ho => ho
    | cancelled hx => cases hx <;> exact fun _ ho => ho
    | migrated hm =>
      refine hm.preserves (P := fun c' => ∀ o ∈ c'.observations, o ∈ s.catalog.observations)
        (fun _ _ hc ih o ho => ih o (hc.observations ▸ ho)) ?_ (fun _ ho => ho)
      intro _ _ _ _ _ _ hb _ _ _ _ ih o ho
      obtain ⟨_, rfl⟩ := hb
      exact ih o ho
    | erased hrows => exact fun o ho => hrows.observations o ho
  · exact fun o ho => hc ▸ ho

theorem rowsErased_of_step {l : DeletionLease} {faults : Faults} {now : Instant}
    (h : Step env settings s (.deletionExecute l faults now) (.committed (.erased true)) s') :
    ∃ c' t, AttemptDeletionWorker.RowsErased l.attempt s.catalog c' ∧
      s'.catalog = { c' with deletions := t } := by
  obtain ⟨_, _, ⟨a, ha, heff⟩ | ⟨hne, _⟩⟩ := step_cases h
  · cases ha
    generalize s'.catalog = c', s'.objects = w' at heff ⊢
    cases heff with
    | quiet hq => cases hq
    | deletionExecute h =>
      cases h with
      | erased _ _ _ _ _ _ hrows => exact ⟨_, _, hrows, rfl⟩
  · exact absurd rfl (hne _)

end Deployment

namespace Monitoring

open Deployment (State)

variable {env : Env} {settings : IngestionSettings} {s s₀ s₁ s' : State} {x : Action}
  {tenantId clusterId identity : String}

theorem origin_step (h : Step env settings s x s')
    (hc : Tables.records.NoClash s.catalog.records) :
    ∀ r' ∈ s'.catalog.records, Origin s.catalog s'.catalog r' := by
  cases x with
  | serve call =>
    cases h with
    | served h => exact Deployment.origin_step h
  | poll tenantId attempts now =>
    obtain hp | he := step_poll h
    · intro r' hr'
      have hget := Table.get_of_mem hr'
      cases hold : s.catalog.records.get r'.attempt with
      | none =>
        rw [hp.record hc, hold] at hget
        cases hget
      | some r =>
        obtain rfl := Option.some.inj ((polled_record hp hc hold).symm.trans hget)
        refine Or.inl ⟨r, Table.mem_of_get hold, Table.key_of_get hold, ?_⟩
        cases SchedulerReconciler.winner r.schedulerObservedAt
          ((attempts.map Prod.fst).filter (fun a => SchedulerReconciler.boundTo tenantId a r)) with
        | none => rfl
        | some a => rfl
    · exact origin_same (congrArg Catalog.records he)

theorem identity_of_run {P : State → Action → Prop} (h : RunWhere env settings P .initial s) :
    ∀ r ∈ s.catalog.records, r.schedulerSourceIdentity ≠ some "" := by
  induction h with
  | start => exact fun r hr => absurd hr (Table.not_mem_empty r)
  | step hr hs _ ih =>
    intro r' hr'
    obtain ⟨r, hmem, _, hi⟩ | ⟨_, segment, hi⟩ :=
      origin_step hs (noClash_of_run hr noClash_initial) r' hr'
    · exact hi ▸ ih r hmem
    · intro hempty
      have hvalid := segment.valid.identity
      rw [← hi, hempty] at hvalid
      exact absurd hvalid (by decide)

/-- The scheduler evidence of an identity is stored. -/
def Observed (tenantId clusterId identity : String) (c : Catalog) : Prop :=
  ∃ o ∈ c.observations, o.tenantId = tenantId ∧ o.clusterId = clusterId ∧
    o.sourceIdentity = identity

/-- An attempt of the cluster is bound to the identity. -/
def Bound (tenantId clusterId identity : String) (c : Catalog) : Prop :=
  ∃ r ∈ c.records, r.tenantId = tenantId ∧ r.clusterId = clusterId ∧
    r.schedulerSourceIdentity = some identity

/-- A live attempt of the cluster is bound to the identity. -/
def BoundLive (tenantId clusterId identity : String) (c : Catalog) : Prop :=
  ∃ r ∈ c.records, r.tenantId = tenantId ∧ r.clusterId = clusterId ∧
    r.schedulerSourceIdentity = some identity ∧ Live r.attempt c

def Unreported (tenantId clusterId identity : String) : Action → Prop
  | .serve _ => True
  | .poll tenant attempts _ => ¬(tenant = tenantId ∧ ∃ a ∈ attempts.map Prod.fst,
      a.clusterId = clusterId ∧ a.sourceIdentity = identity)

theorem observed_of_polled {attempts : List SchedulerAttempt} {now : Instant} {c c' : Catalog}
    {tenant : String} (h : Polled tenant now attempts c c')
    (hobs : Observed tenantId clusterId identity c') : Observed tenantId clusterId identity c ∨
      tenant = tenantId ∧ ∃ a ∈ attempts, a.clusterId = clusterId ∧ a.sourceIdentity = identity := by
  induction h with
  | nil => exact Or.inl hobs
  | @cons a xs c c₁ c' h _ ih =>
    obtain ⟨o, ho, ht, hc, hi⟩ | ⟨ht, b, hb, hbound⟩ := ih hobs
    · obtain hold | hs := h.of_stored ho
      · exact Or.inl ⟨o, hold, ht, hc, hi⟩
      · obtain ⟨hat, hac, hai, _⟩ := SchedulerReconciler.seen_iff.mp hs
        exact Or.inr ⟨hat.symm.trans ht, a, List.mem_cons_self .., hac.symm.trans hc,
          hai.symm.trans hi⟩
    · exact Or.inr ⟨ht, b, List.mem_cons_of_mem _ hb, hbound⟩

/-- Nothing is stored of the identity, and no attempt is bound to it. -/
def Forgotten (tenantId clusterId identity : String) (c : Catalog) : Prop :=
  ¬Observed tenantId clusterId identity c ∧ ¬Bound tenantId clusterId identity c

theorem forgotten_step (h : Step env settings s x s')
    (hp : Unreported tenantId clusterId identity x)
    (hc : Tables.records.NoClash s.catalog.records)
    (hf : Forgotten tenantId clusterId identity s.catalog) :
    Forgotten tenantId clusterId identity s'.catalog ∨
      BoundLive tenantId clusterId identity s'.catalog := by
  obtain ⟨hobs, hbound⟩ := hf
  have hobs' : ¬Observed tenantId clusterId identity s'.catalog := by
    intro ho
    cases x with
    | serve call =>
      cases h with
      | served h =>
        obtain ⟨o, hmem, hrest⟩ := ho
        exact hobs ⟨o, Deployment.observations_step h o hmem, hrest⟩
    | poll tenant attempts now =>
      obtain hpoll | he := step_poll h
      · obtain hold | hreported := observed_of_polled hpoll ho
        · exact hobs hold
        · exact hp hreported
      · exact hobs (he ▸ ho)
  by_cases hb : Bound tenantId clusterId identity s'.catalog
  · obtain ⟨r', hr', ht, hcl, hi⟩ := hb
    obtain ⟨r, hr, hk, hri⟩ | ⟨hlive, _⟩ := origin_step h hc r' hr'
    · simp only [AttemptRecord.attempt, AttemptKey.mk.injEq] at hk
      exact absurd ⟨r, hr, hk.1.trans ht, hk.2.1.trans hcl, hri.trans hi⟩ hbound
    · exact Or.inr ⟨r', hr', ht, hcl, hi, hlive⟩
  · exact Or.inl ⟨hobs', hb⟩

theorem forgotten_of_run (h : RunWhere env settings (fun s x =>
      Unreported tenantId clusterId identity x ∧ ¬BoundLive tenantId clusterId identity s.catalog)
      s₁ s)
    (hc : Tables.records.NoClash s₁.catalog.records)
    (hf : Forgotten tenantId clusterId identity s₁.catalog) :
    Forgotten tenantId clusterId identity s.catalog ∨
      BoundLive tenantId clusterId identity s.catalog := by
  induction h with
  | start => exact Or.inl hf
  | step hr hs hp ih =>
    obtain hforgotten | hb := ih
    · exact forgotten_step hs hp.1 (noClash_of_run hr hc) hforgotten
    · exact absurd hb hp.2

theorem forgotten_of_erased {l : DeletionLease} {faults : Faults} {now : Instant}
    {r : AttemptRecord}
    (h : Deployment.Step env settings s (.deletionExecute l faults now)
      (.committed (.erased true)) s₁)
    (hc : Tables.records.NoClash s.catalog.records) (hne : identity ≠ "")
    (hr : s.catalog.records.get l.attempt = some r)
    (hi : r.schedulerSourceIdentity = some identity) :
    Forgotten l.tenantId l.clusterId identity s₁.catalog := by
  obtain ⟨c', t, hrows, he⟩ := Deployment.rowsErased_of_step h
  have hk := Table.key_of_get hr
  constructor
  · rintro ⟨o, ho, hot, hoc, hoi⟩
    rw [he] at ho
    have hempty := hrows.unobserved o ho ⟨r, hr, hoi ▸ hi, hot, hoc⟩
    exact hne (hoi.symm.trans hempty)
  · rintro ⟨r', hr', ht, hcl, hi'⟩
    rw [he] at hr'
    obtain ⟨hold, hne'⟩ := (hrows.records r').mp hr'
    have hmem := Table.mem_of_get hr
    simp only [AttemptRecord.attempt, DeletionLease.attempt, AttemptKey.mk.injEq] at hk
    have hsame : r' = r := by
      refine hc r' hold r hmem ?_
      simp [Ref.clashes, Tables.records_unique, ht, hcl, hi', hk.1, hk.2.1, hi]
    exact hne' (hsame ▸ Table.key_of_get hr)

/-- Erased scheduler evidence stays erased, until a live attempt is bound to the
identity again. -/
theorem erased_evidence_stays_erased {l : DeletionLease} {faults : Faults} {now : Instant}
    {r : AttemptRecord} (h : RunWhere env settings (fun _ _ => True) .initial s)
    (he : Deployment.Step env settings s (.deletionExecute l faults now)
      (.committed (.erased true)) s₁)
    (hr : s.catalog.records.get l.attempt = some r)
    (hi : r.schedulerSourceIdentity = some identity)
    (hrun : RunWhere env settings (fun s x => Unreported l.tenantId l.clusterId identity x ∧
      ¬BoundLive l.tenantId l.clusterId identity s.catalog) s₁ s')
    (hb : ¬BoundLive l.tenantId l.clusterId identity s'.catalog) :
    ¬Observed l.tenantId l.clusterId identity s'.catalog := by
  have hc := noClash_of_run h noClash_initial
  have hne : identity ≠ "" := by
    intro hempty
    exact identity_of_run h r (Table.mem_of_get hr) (hempty ▸ hi)
  have hforgotten := forgotten_of_erased he hc hne hr hi
  obtain hf | hlive := forgotten_of_run hrun (Deployment.noClash_step he hc) hforgotten
  · exact hf.1
  · exact absurd hlive hb

end Monitoring

-- The erasure of an attempt whose job the scheduler still reports.
namespace Sample

def boundRun : List Action :=
  boundAdmission ++ [.poll "acme" [(job .succeeded 10, 5)] 11,
    .serve (.deleteAttempt attempt₁ 12), .serve (.deletionClaim "worker" 60 13 [])]

def erasingLease : DeletionLease := ⟨"acme", "c1", "a1", 1, 1, "worker"⟩

end Sample

namespace Monitoring

open Deployment (State)

def everything (_ : State) (_ : Action) : Bool := true

theorem not_boundLive_of_rows {c : Catalog} {tenantId clusterId identity : String}
    (h : c.records.rows.isEmpty = true) : ¬BoundLive tenantId clusterId identity c := by
  rintro ⟨r, hr, _⟩
  have hmem : r ∈ c.records.rows := hr
  rw [List.isEmpty_iff.mp h] at hmem
  cases hmem

/-- A poll after the erasure stores the accounting record of the job again. -/
theorem poll_restores_evidence : ¬∀ (s s₁ s' : State) (l : DeletionLease) (faults : Faults)
    (now : Instant) (r : AttemptRecord) (identity : String),
    RunWhere Sample.env Sample.settings (fun _ _ => True) .initial s →
    Deployment.Step Sample.env Sample.settings s (.deletionExecute l faults now)
      (.committed (.erased true)) s₁ →
    s.catalog.records.get l.attempt = some r → r.schedulerSourceIdentity = some identity →
    RunWhere Sample.env Sample.settings
      (fun s _ => ¬BoundLive l.tenantId l.clusterId identity s.catalog) s₁ s' →
    ¬BoundLive l.tenantId l.clusterId identity s'.catalog →
      ¬Observed l.tenantId l.clusterId identity s'.catalog := by
  intro h
  have hrun : (performAll Sample.env Sample.settings everything Sample.boundRun .initial).bind
      (fun s => (Deployment.answer Sample.env Sample.settings s
        (.deletionExecute Sample.erasingLease Faults.none 14)).bind (fun x =>
          (State.perform Sample.env Sample.settings x.2
            (.poll "acme" [(Sample.job .succeeded 20, 6)] 21)).map (fun s' =>
              ((s.catalog.records.get Sample.attempt₁).map AttemptRecord.schedulerSourceIdentity,
                x.1, x.2.catalog.records.rows.isEmpty, s'.catalog.records.rows.isEmpty,
                s'.catalog.observations.rows.any (fun o => o.tenantId = "acme" &&
                  o.clusterId = "c1" && o.sourceIdentity = "slurm:c1:101"))))) =
        some (some (some "slurm:c1:101"), .erased true, true, true, true) := by
    decide +kernel
  obtain ⟨s, hs, hrun⟩ := Option.bind_eq_some_iff.mp hrun
  obtain ⟨⟨a, s₁⟩, hs₁, hrun⟩ := Option.bind_eq_some_iff.mp hrun
  obtain ⟨s', hs', hrun⟩ := Option.map_eq_some_iff.mp hrun
  simp only [Prod.mk.injEq] at hrun
  obtain ⟨hrec, rfl, hempty, hempty', hobs⟩ := hrun
  obtain ⟨r, hr, hi⟩ := Option.map_eq_some_iff.mp hrec
  refine h s s₁ s' Sample.erasingLease Faults.none 14 r "slurm:c1:101"
    (runWhere_of_performAll (fun _ _ _ => trivial) .start hs) (Deployment.step_of_answer _ _ hs₁)
    hr hi (.step .start (step_of_perform hs') (not_boundLive_of_rows hempty))
    (not_boundLive_of_rows hempty') ?_
  obtain ⟨o, ho, hkey⟩ := List.any_eq_true.mp hobs
  simp only [Bool.and_eq_true, decide_eq_true_eq, and_assoc] at hkey
  exact ⟨o, ho, hkey⟩

/-- A poll after the erasure that reports nothing. -/
theorem erased_evidence_stays_erased_sample : ∃ s s₁ s',
    performAll Sample.env Sample.settings everything Sample.boundRun .initial = some s ∧
    s.catalog.observations.rows.length = 1 ∧
    Deployment.answer Sample.env Sample.settings s
      (.deletionExecute Sample.erasingLease Faults.none 14) = some (.erased true, s₁) ∧
    State.perform Sample.env Sample.settings s₁ (.poll "acme" [] 21) = some s' ∧
    ¬Observed "acme" "c1" "slurm:c1:101" s'.catalog := by
  have hrun : (performAll Sample.env Sample.settings everything Sample.boundRun .initial).bind
      (fun s => (Deployment.answer Sample.env Sample.settings s
        (.deletionExecute Sample.erasingLease Faults.none 14)).bind (fun x =>
          (State.perform Sample.env Sample.settings x.2 (.poll "acme" [] 21)).map (fun s' =>
            ((s.catalog.records.get Sample.attempt₁).map AttemptRecord.schedulerSourceIdentity,
              s.catalog.observations.rows.length, x.1,
              x.2.catalog.records.rows.isEmpty, s'.catalog.records.rows.isEmpty)))) =
        some (some (some "slurm:c1:101"), 1, .erased true, true, true) := by
    decide +kernel
  obtain ⟨s, hs, hrun⟩ := Option.bind_eq_some_iff.mp hrun
  obtain ⟨⟨a, s₁⟩, hs₁, hrun⟩ := Option.bind_eq_some_iff.mp hrun
  obtain ⟨s', hs', hrun⟩ := Option.map_eq_some_iff.mp hrun
  simp only [Prod.mk.injEq] at hrun
  obtain ⟨hrec, hone, rfl, hempty, hempty'⟩ := hrun
  obtain ⟨r, hr, hi⟩ := Option.map_eq_some_iff.mp hrec
  refine ⟨s, s₁, s', hs, hone, hs₁, hs', erased_evidence_stays_erased
    (l := Sample.erasingLease)
    (runWhere_of_performAll (fun _ _ _ => trivial) .start hs)
    (Deployment.step_of_answer _ _ hs₁) hr hi (.step .start (step_of_perform hs') ⟨?_, ?_⟩) ?_⟩
  · rintro ⟨_, _, ha, _⟩
    cases ha
  · exact not_boundLive_of_rows hempty
  · exact not_boundLive_of_rows hempty'

end Monitoring

end RankLens
