import RankLens.Polling

namespace RankLens

open Interleaving (Ending)
open IngestionService (Backfilled Recorded Admits newRecord admitAgain setRetention)
open SchedulerReconciler (pollOnce Polled Consistent boundTo seen winner firstSeen)

/-- A transaction of the services, or a poll of the scheduler. -/
inductive Action where
  | serve (call : Call)
  | poll (tenantId : String) (attempts : List (SchedulerAttempt × Uuid)) (now : Instant)

/-- The records bind and keep their scheduler states, new ones have none, and the
observations are the same. -/
structure Carried (c c' : Catalog) : Prop where
  observations : c'.observations = c.observations
  kept : ∀ k r, c.records.get k = some r → ∃ r', c'.records.get k = some r' ∧
    r'.schedulerState = r.schedulerState ∧ r'.schedulerObservedAt = r.schedulerObservedAt ∧
    ∀ i, r.schedulerSourceIdentity = some i → r'.schedulerSourceIdentity = some i
  fresh : ∀ k r', c.records.get k = none → c'.records.get k = some r' →
    r'.schedulerObservedAt = none

namespace Carried

variable {c c' c'' : Catalog}

theorem same (ho : c'.observations = c.observations) (hr : c'.records = c.records) :
    Carried c c' where
  observations := ho
  kept k r h := ⟨r, hr ▸ h, rfl, rfl, fun _ h => h⟩
  fresh k r' hnone h := by
    rw [hr, hnone] at h
    cases h

theorem refl (c : Catalog) : Carried c c := same rfl rfl

theorem trans (h : Carried c c') (h' : Carried c' c'') : Carried c c'' where
  observations := h'.observations.trans h.observations
  kept k r hr := by
    obtain ⟨r', hr', hs, ht, hi⟩ := h.kept k r hr
    obtain ⟨r'', hr'', hs', ht', hi'⟩ := h'.kept k r' hr'
    exact ⟨r'', hr'', hs'.trans hs, ht'.trans ht, fun i h => hi' i (hi i h)⟩
  fresh k r'' hnone hr'' := by
    cases hr' : c'.records.get k with
    | none => exact h'.fresh k r'' hr' hr''
    | some r' =>
      obtain ⟨x, hx, _, ht, _⟩ := h'.kept k r' hr'
      obtain rfl := Option.some.inj (hx.symm.trans hr'')
      exact ht.trans (h.fresh k r' hnone hr')

theorem admitted {settings : IngestionSettings} {f : IngestionService.Flight} {now : Instant}
    (h : Admits settings f now c c') : Carried c c' := by
  obtain hsame | ⟨hrec, _, _, _, ho⟩ := h
  · exact same hsame.observations hsame.records
  · refine ⟨ho, fun k r hr => ?_, fun k r' hnone hr' => ?_⟩
    · by_cases hk : f.segment.attempt f.principal.tenantId = k
      · subst hk
        obtain ⟨hnone, _⟩ | ⟨r₀, hr₀, hget⟩ := hrec.get_self
        · rw [hr] at hnone
          cases hnone
        · obtain rfl := Option.some.inj (hr₀.symm.trans hr)
          refine ⟨_, hget, rfl, rfl, fun i hi => ?_⟩
          simp [admitAgain, hi]
      · exact ⟨r, (hrec.get_other hk).trans hr, rfl, rfl, fun _ h => h⟩
    · by_cases hk : f.segment.attempt f.principal.tenantId = k
      · subst hk
        obtain ⟨_, hget⟩ | ⟨r₀, hr₀, _⟩ := hrec.get_self
        · obtain rfl := Option.some.inj (hget.symm.trans hr')
          rfl
        · rw [hr₀] at hnone
          cases hnone
      · rw [hrec.get_other hk, hnone] at hr'
        cases hr'

theorem backfilled {id : Uuid} {p : RetentionPolicyRevision} {r : AttemptRecord}
    (h : Backfilled id p r c c') : Carried c c' := by
  obtain ⟨_, rfl⟩ := h
  have hget : ∀ k, (c.records.modify r.attempt (setRetention p r) (fun _ => rfl)).get k =
      if k = r.attempt then (c.records.get k).map (setRetention p r) else c.records.get k :=
    fun k => Table.get_modify ..
  refine ⟨rfl, fun k x hx => ?_, fun k x hnone hx => ?_⟩
  · by_cases hk : k = r.attempt
    · refine ⟨setRetention p r x, ?_, rfl, rfl, fun _ h => h⟩
      rw [hget, if_pos hk, hx]
      rfl
    · refine ⟨x, ?_, rfl, rfl, fun _ h => h⟩
      rw [hget, if_neg hk, hx]
  · rw [hget, hnone] at hx
    split at hx <;> cases hx

end Carried

namespace Deployment

variable {env : Env} {settings : IngestionSettings} {s s' : State} {call : Call}
  {e : Ending Failure Reply}

theorem carried_step (h : Step env settings s call e s') (hp : spares s call e) :
    Carried s.catalog s'.catalog := by
  obtain ⟨_, _, ⟨a, rfl, _⟩ | ⟨_, hc, _⟩⟩ := step_cases h
  · have heff := step_ledger h
    generalize s'.catalog = c' at heff ⊢
    cases heff with
    | same hsame => exact .same hsame.observations hsame.records
    | admitted _ ha => exact .admitted ha
    | created hnew =>
      obtain ⟨_, rfl⟩ := hnew
      exact .same rfl rfl
    | cancelled hx => cases hx <;> exact .same rfl rfl
    | migrated hm =>
      exact hm.preserves (P := Carried s.catalog)
        (fun _ _ hc h => h.trans (.same hc.observations hc.records))
        (fun _ _ _ _ _ _ hb _ _ _ _ h => h.trans (.backfilled hb)) (.refl _)
    | erased => exact absurd rfl (hp _ _ _)
  · exact .same (congrArg Catalog.observations hc) (congrArg Catalog.records hc)

theorem noClash_step (h : Step env settings s call e s')
    (hc : Tables.records.NoClash s.catalog.records) :
    Tables.records.NoClash s'.catalog.records := by
  obtain ⟨_, _, ⟨_, _, heff⟩ | ⟨_, he, _⟩⟩ := step_cases h
  · exact effect_records heff hc
  · exact he ▸ hc

end Deployment

namespace Monitoring

open Deployment (State)

variable (env : Env) (settings : IngestionSettings)

/-- One step of the services and the poller. A poll that raises or dies leaves the
catalog as it was. -/
inductive Step (s : State) : Action → State → Prop where
  | served {call : Call} {e : Ending Failure Reply} {s' : State}
      (h : Deployment.Step env settings s call e s') : Step s (.serve call) s'
  | polled {tenantId : String} {attempts : List (SchedulerAttempt × Uuid)} {now : Instant}
      {r : Except Failure SchedulerReconcileResult} {c : Catalog} {w : ObjectStore}
      (h : (pollOnce tenantId attempts now).atomically s.catalog s.objects = (r, c, w)) :
      Step s (.poll tenantId attempts now) { s with catalog := c, objects := w }
  | died {tenantId : String} {attempts : List (SchedulerAttempt × Uuid)} {now : Instant} {n : Nat} :
      Step s (.poll tenantId attempts now)
        { s with objects := (pollOnce tenantId attempts now).crash n s.catalog s.objects }

/-- The runs whose steps all meet a condition. -/
inductive RunWhere (P : State → Action → Prop) (s₀ : State) : State → Prop where
  | start : RunWhere P s₀ s₀
  | step {s s' : State} {x : Action} (hr : RunWhere P s₀ s) (hs : Step env settings s x s')
      (hp : P s x) : RunWhere P s₀ s'

def State.perform (s : State) : Action → Option State
  | .serve call => (s.run env settings call).map Prod.snd
  | .poll tenantId attempts now =>
    let (_, c, w) := (pollOnce tenantId attempts now).atomically s.catalog s.objects
    some { s with catalog := c, objects := w }

def performAll (p : State → Action → Bool) : List Action → State → Option State
  | [], s => some s
  | x :: xs, s => if p s x then (State.perform env settings s x).bind (performAll p xs) else none

variable {env settings} {s s₀ s' : State} {x : Action}

theorem step_of_perform (h : State.perform env settings s x = some s') :
    Step env settings s x s' := by
  cases x with
  | serve call =>
    obtain ⟨⟨e, t⟩, ht, rfl⟩ := Option.map_eq_some_iff.mp h
    exact .served (.run ht)
  | poll tenantId attempts now =>
    obtain rfl := Option.some.inj h
    exact .polled rfl

theorem runWhere_of_performAll {p : State → Action → Bool} {P : State → Action → Prop}
    (hp : ∀ s x, p s x = true → P s x) {xs : List Action} (h₀ : RunWhere env settings P s₀ s)
    (h : performAll env settings p xs s = some s') : RunWhere env settings P s₀ s' := by
  induction xs generalizing s with
  | nil =>
    cases h
    exact h₀
  | cons x xs ih =>
    rw [performAll] at h
    split at h
    · next hx =>
      obtain ⟨t, ht, h⟩ := Option.bind_eq_some_iff.mp h
      exact ih (h₀.step (step_of_perform ht) (hp s x hx)) h
    · cases h

/-- A poll does what its attempts do one after the other, or nothing. -/
theorem step_poll {tenantId : String} {attempts : List (SchedulerAttempt × Uuid)} {now : Instant}
    (h : Step env settings s (.poll tenantId attempts now) s') :
    Polled tenantId now (attempts.map Prod.fst) s.catalog s'.catalog ∨ s'.catalog = s.catalog := by
  cases h with
  | @polled _ _ _ _ c w h =>
    have hspec : (pollOnce tenantId attempts now).wp (fun _ => True) (fun _ => True)
        (fun _ c' _ => Polled tenantId now (attempts.map Prod.fst) s.catalog c') s.catalog
        s.objects := by
      simp only [pollOnce, Txn.wp_bind]
      exact Txn.wp_post SchedulerReconciler.reconcileAll_spec 
        (fun _ _ _ h => SchedulerReconciler.polled_of_chain h)
    unfold Txn.atomically at h
    split at h
    · next hrun =>
      cases h
      have hend := Txn.run_of_wp hspec hrun
      exact Or.inl hend
    · cases h
      exact Or.inr rfl
  | died => exact Or.inr rfl

section evidence

/-- The state a record has was observed of its identity when it says so. -/
def Backed (c : Catalog) (r : AttemptRecord) : Prop :=
  ∀ t, r.schedulerObservedAt = some t → ∃ i, r.schedulerSourceIdentity = some i ∧
    ∃ o ∈ c.observations, o.tenantId = r.tenantId ∧ o.clusterId = r.clusterId ∧
      o.sourceIdentity = i ∧ o.observedAt = t ∧ o.state = r.schedulerState

/-- The records do not go back, and the stored observations stay. -/
structure Grows (c c' : Catalog) : Prop where
  kept : ∀ o ∈ c.observations, o ∈ c'.observations
  later : ∀ k r, c.records.get k = some r → ∃ r', c'.records.get k = some r' ∧
    ∀ t, r.schedulerObservedAt = some t → ∃ t', r'.schedulerObservedAt = some t' ∧ t ≤ t'

theorem Grows.refl (c : Catalog) : Grows c c :=
  ⟨fun _ ho => ho, fun _ r hr => ⟨r, hr, fun t ht => ⟨t, ht, le_refl t⟩⟩⟩

theorem Grows.trans {c c' c'' : Catalog} (h : Grows c c') (h' : Grows c' c'') : Grows c c'' where
  kept o ho := h'.kept o (h.kept o ho)
  later k r hr := by
    obtain ⟨r', hr', ht⟩ := h.later k r hr
    obtain ⟨r'', hr'', ht'⟩ := h'.later k r' hr'
    refine ⟨r'', hr'', fun t hrt => ?_⟩
    obtain ⟨t', hrt', hle⟩ := ht t hrt
    obtain ⟨t'', hrt'', hle'⟩ := ht' t' hrt'
    exact ⟨t'', hrt'', hle.trans hle'⟩

variable {c c' : Catalog}

theorem grows_of_carried (h : Carried c c') : Grows c c' where
  kept o ho := h.observations ▸ ho
  later k r hr := by
    obtain ⟨r', hr', _, ht, _⟩ := h.kept k r hr
    exact ⟨r', hr', fun t hrt => ⟨t, ht.trans hrt, le_refl t⟩⟩

theorem backed_of_carried (h : Carried c c') (hb : ∀ r ∈ c.records, Backed c r) :
    ∀ r ∈ c'.records, Backed c' r := by
  intro r' hr' t ht
  have hget := Table.get_of_mem hr'
  cases hold : c.records.get r'.attempt with
  | none =>
    rw [h.fresh _ _ hold hget] at ht
    cases ht
  | some r =>
    obtain ⟨x, hx, hs, ho, hi⟩ := h.kept _ r hold
    obtain rfl := Option.some.inj (hx.symm.trans hget)
    obtain ⟨i, hri, o, hmem, hot, hoc, hoi, hoa, hos⟩ :=
      hb r (Table.mem_of_get hold) t (ho.symm.trans ht)
    have hk := Table.key_of_get hold
    simp only [AttemptRecord.attempt, AttemptKey.mk.injEq] at hk
    exact ⟨i, hi i hri, o, h.observations ▸ hmem, hot.trans hk.1, hoc.trans hk.2.1, hoi, hoa,
      hos.trans hs.symm⟩

variable {tenantId : String} {now : Instant} {attempts : List SchedulerAttempt}

theorem polled_record (h : Polled tenantId now attempts c c')
    (hc : Tables.records.NoClash c.records) {k : AttemptKey} {r : AttemptRecord}
    (hr : c.records.get k = some r) : c'.records.get k = some (((winner r.schedulerObservedAt
      (attempts.filter (fun a => boundTo tenantId a r))).map
        (fun a => SchedulerReconciler.setState a r)).getD r) := by
  rw [h.record hc, hr, Option.map_some, Polled.foldl_follow]

theorem grows_of_polled (h : Polled tenantId now attempts c c')
    (hc : Tables.records.NoClash c.records) : Grows c c' where
  kept o ho := h.kept ho
  later k r hr := by
    refine ⟨_, polled_record h hc hr, fun t ht => ?_⟩
    cases hw : winner r.schedulerObservedAt (attempts.filter (fun a => boundTo tenantId a r)) with
    | none => exact ⟨t, ht, le_refl t⟩
    | some a =>
      have hnew := Polled.winner_newer hw
      rw [ht] at hnew
      exact ⟨a.observedAt, rfl, of_decide_eq_true hnew⟩

theorem backed_of_polled (h : Polled tenantId now attempts c c')
    (hc : Tables.records.NoClash c.records) (hcons : Consistent tenantId attempts c)
    (hb : ∀ r ∈ c.records, Backed c r) : ∀ r ∈ c'.records, Backed c' r := by
  intro r' hr'
  have hget := Table.get_of_mem hr'
  cases hold : c.records.get r'.attempt with
  | none =>
    rw [h.record hc, hold] at hget
    cases hget
  | some r =>
    have hmem := Table.mem_of_get hold
    obtain rfl := Option.some.inj ((polled_record h hc hold).symm.trans hget)
    cases hw : winner r.schedulerObservedAt (attempts.filter (fun a => boundTo tenantId a r)) with
    | none =>
      intro t ht
      obtain ⟨i, hi, o, ho, hrest⟩ := hb r hmem t ht
      exact ⟨i, hi, o, h.kept ho, hrest⟩
    | some a =>
      intro t ht
      obtain rfl : a.observedAt = t := Option.some.inj ht
      obtain ⟨ha, hbound⟩ := List.mem_filter.mp (Polled.winner_mem hw)
      obtain ⟨hrt, hrc, hri⟩ := SchedulerReconciler.boundTo_iff.mp hbound
      obtain ⟨o, ho, hs, hstate⟩ := h.stored ha
      obtain ⟨hot, hoc, hoi, hoa⟩ := SchedulerReconciler.seen_iff.mp hs
      have hsame := hstate.symm.trans (hcons r hmem a hw)
      exact ⟨a.sourceIdentity, hri, o, ho, hot.trans hrt.symm, hoc.trans hrc.symm, hoi, hoa,
        Option.some.inj hsame⟩

end evidence

def Spares (_ : State) : Action → Prop
  | .serve call => Deployment.erases call = false
  | .poll .. => True

/-- No attempt is erased, and what a poll reports of a bound attempt is what is stored. -/
def Sound (s : State) : Action → Prop
  | .serve call => Deployment.erases call = false
  | .poll tenantId attempts _ => Consistent tenantId (attempts.map Prod.fst) s.catalog

theorem noClash_step (h : Step env settings s x s')
    (hc : Tables.records.NoClash s.catalog.records) :
    Tables.records.NoClash s'.catalog.records := by
  cases x with
  | serve call =>
    cases h with
    | served h => exact Deployment.noClash_step h hc
  | poll tenantId attempts now =>
    obtain hp | he := step_poll h
    · exact hp.noClash hc
    · exact he ▸ hc

theorem grows_step (h : Step env settings s x s') (hp : Spares s x)
    (hc : Tables.records.NoClash s.catalog.records) : Grows s.catalog s'.catalog := by
  cases x with
  | serve call =>
    cases h with
    | served h => exact grows_of_carried (Deployment.carried_step h (Deployment.spares_of_erases hp))
  | poll tenantId attempts now =>
    obtain hp | he := step_poll h
    · exact grows_of_polled hp hc
    · exact he ▸ .refl _

theorem backed_step (h : Step env settings s x s') (hp : Sound s x)
    (hc : Tables.records.NoClash s.catalog.records)
    (hb : ∀ r ∈ s.catalog.records, Backed s.catalog r) :
    ∀ r ∈ s'.catalog.records, Backed s'.catalog r := by
  cases x with
  | serve call =>
    cases h with
    | served h =>
      exact backed_of_carried (Deployment.carried_step h (Deployment.spares_of_erases hp)) hb
  | poll tenantId attempts now =>
    obtain hpoll | he := step_poll h
    · exact backed_of_polled hpoll hc hp hb
    · exact he ▸ hb

theorem noClash_of_run {P : State → Action → Prop} (h : RunWhere env settings P s₀ s)
    (hc : Tables.records.NoClash s₀.catalog.records) :
    Tables.records.NoClash s.catalog.records := by
  induction h with
  | start => exact hc
  | step _ hs _ ih => exact noClash_step hs ih

theorem noClash_initial : Tables.records.NoClash State.initial.catalog.records := by
  intro r hr
  exact absurd hr (Table.not_mem_empty r)

theorem grows_of_run (h : RunWhere env settings Spares s₀ s)
    (hc : Tables.records.NoClash s₀.catalog.records) : Grows s₀.catalog s.catalog := by
  induction h with
  | start => exact .refl _
  | step hr hs hp ih => exact ih.trans (grows_step hs hp (noClash_of_run hr hc))

/-- Scheduler states are backed by observations, which stay, and no record goes back. -/
structure EvidenceKept (env : Env) (settings : IngestionSettings) (s : State) : Prop where
  backed : ∀ r ∈ s.catalog.records, Backed s.catalog r
  grows : ∀ s', RunWhere env settings Spares s s' → Grows s.catalog s'.catalog

/-- Scheduler state is always backed by stored evidence. -/
theorem scheduler_state_backed (h : RunWhere env settings Sound .initial s) :
    EvidenceKept env settings s := by
  refine ⟨?_, fun s' h' => grows_of_run h' (noClash_of_run h noClash_initial)⟩
  induction h with
  | start => exact fun r hr => absurd hr (Table.not_mem_empty r)
  | step hr hs hp ih => exact backed_step hs hp (noClash_of_run hr noClash_initial) ih

end Monitoring

-- A job that was running and done when it was asked for.
namespace Sample

def boundFields (attemptId : String) : SegmentFields :=
  { fields attemptId with schedulerSourceIdentity := some "slurm:c1:101" }

def bound₁ : SegmentUpload := ⟨boundFields "a1", by constructor <;> decide⟩

def boundAdmission : List Action :=
  [.serve (.admitReserve 0 principal bound₁ 1 0), .serve (.admitPut 0 Faults.none),
    .serve (.admitCommit 0 Faults.none 2 3 4)]

def job (state : ExecutionState) (observedAt : Instant) : SchedulerAttempt where
  adapter := "slurm-sacct"
  adapterVersion := "1"
  clusterId := "c1"
  sourceIdentity := "slurm:c1:101"
  jobId := "101"
  arrayJobId := none
  arrayTaskId := none
  stepId := none
  restartCount := 0
  state := state
  stateReason := none
  submittedAt := none
  startedAt := none
  endedAt := none
  allocatedNodes := none
  allocatedCpus := none
  account := none
  partition := none
  userRef := some "alice"
  observedAt := observedAt
  raw := "{}"

end Sample

namespace Monitoring

open Deployment (State)

def spares : State → Action → Bool
  | _, .serve call => !Deployment.erases call
  | _, .poll .. => true

theorem spares_sound {s : State} {x : Action} (h : spares s x = true) : Spares s x := by
  cases x with
  | serve call => simpa [spares, Spares] using h
  | poll => trivial

/-- The states of the records, and the states that are stored. -/
def states (s : State) : List (String × Option Instant) × List (String × Instant) :=
  (s.catalog.records.rows.map (fun r => (r.schedulerState, r.schedulerObservedAt)),
    s.catalog.observations.rows.map (fun o => (o.state, o.observedAt)))

/-- A batch reports a job as running and as done at one instant: the record follows the
last report, and the first one is stored. -/
theorem tie_not_backed : ¬∀ s, RunWhere Sample.env Sample.settings Spares .initial s →
    ∀ r ∈ s.catalog.records, Backed s.catalog r := by
  intro h
  have hrun : (performAll Sample.env Sample.settings spares (Sample.boundAdmission ++
      [.poll "acme" [(Sample.job .running 10, 5), (Sample.job .succeeded 10, 6)] 11])
      .initial).map states = some ([("succeeded", some 10)], [("running", 10)]) := by
    decide +kernel
  obtain ⟨s, hs, hstates⟩ := Option.map_eq_some_iff.mp hrun
  obtain ⟨hrecords, hobs⟩ := Prod.mk.inj hstates
  obtain ⟨r, hr, hrs⟩ := List.mem_map.mp (hrecords ▸ List.mem_singleton_self _)
  obtain ⟨hstate, ht⟩ := Prod.mk.inj hrs
  obtain ⟨_, _, o, ho, _, _, _, _, hos⟩ :=
    h s (runWhere_of_performAll (fun _ _ => spares_sound) .start hs) r hr 10 ht
  have hmem : (o.state, o.observedAt) ∈ [("running", (10 : Instant))] :=
    hobs ▸ List.mem_map.mpr ⟨o, ho, rfl⟩
  have hrunning : o.state = "running" := congrArg Prod.fst (List.mem_singleton.mp hmem)
  rw [hos, hstate] at hrunning
  exact absurd hrunning (by decide)

def consistent (tenantId : String) (attempts : List SchedulerAttempt) (c : Catalog) : Bool :=
  c.records.rows.all (fun r =>
    (winner r.schedulerObservedAt (attempts.filter (fun a => boundTo tenantId a r))).all
      (fun a => firstSeen tenantId attempts c a = some a.state.value))

def sound (s : State) : Action → Bool
  | .serve call => !Deployment.erases call
  | .poll tenantId attempts _ => consistent tenantId (attempts.map Prod.fst) s.catalog

theorem sound_check {s : State} {x : Action} (h : sound s x = true) : Sound s x := by
  cases x with
  | serve call => simpa [sound, Sound] using h
  | poll tenantId attempts now =>
    intro r hr a ha
    have hall := List.all_eq_true.mp h r hr
    rw [ha] at hall
    exact of_decide_eq_true hall

/-- A job that is seen running, and then done. -/
theorem scheduler_state_backed_sample : ∃ s,
    performAll Sample.env Sample.settings sound (Sample.boundAdmission ++
      [.poll "acme" [(Sample.job .running 10, 5)] 11,
        .poll "acme" [(Sample.job .running 10, 6), (Sample.job .succeeded 20, 7)] 21])
      .initial = some s ∧
    states s = ([("succeeded", some 20)], [("running", 10), ("succeeded", 20)]) ∧
    EvidenceKept Sample.env Sample.settings s := by
  have hrun : (performAll Sample.env Sample.settings sound (Sample.boundAdmission ++
      [.poll "acme" [(Sample.job .running 10, 5)] 11,
        .poll "acme" [(Sample.job .running 10, 6), (Sample.job .succeeded 20, 7)] 21])
      .initial).map states =
        some ([("succeeded", some 20)], [("running", 10), ("succeeded", 20)]) := by
    decide +kernel
  obtain ⟨s, hs, hstates⟩ := Option.map_eq_some_iff.mp hrun
  exact ⟨s, hs, hstates, scheduler_state_backed
    (runWhere_of_performAll (fun _ _ => sound_check) .start hs)⟩

end Monitoring

end RankLens
