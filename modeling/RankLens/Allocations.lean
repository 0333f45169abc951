import RankLens.Downloads
import RankLens.Monitoring
import RankLens.Timeline
import RankLens.Window

namespace RankLens

open Window (Newest descending)

namespace Api

open Scheduler (deriveAllocationTimeline)

def schedulerAttemptNotFound : HttpError := ⟨404, "scheduler_attempt_not_found"⟩

/-- A `ValueError` that no handler of the route catches. -/
def unhandled : HttpError := ⟨500, "internal_server_error"⟩

def identityObservations (tenantId clusterId sourceIdentity : String) (c : Catalog) :
    List SchedulerObservation :=
  c.observations.select (fun o =>
    o.tenantId = tenantId && o.clusterId = clusterId && o.sourceIdentity = sourceIdentity)

def timelineView (limited : Bool) (timeline : AllocationTimeline) : AllocationTimeline :=
  { timeline with
    coverageReasons := (timeline.coverageReasons ++
      if limited then ["observation_window_limited"] else []).insertionSort (fun a b => a ≤ b) }

def schedulerAllocation (principal : MachinePrincipal) (clusterId sourceIdentity : String)
    (c : Catalog) : Except HttpError AllocationTimeline :=
  if clusterId ∉ principal.clusters then .error clusterNotFound
  else
    let rows := (descending SchedulerObservation.observedAt
      (identityObservations principal.tenantId clusterId sourceIdentity c)).take 501
    if rows = [] then .error schedulerAttemptNotFound
    else
      match deriveAllocationTimeline (rows.take 500).reverse with
      | .error _ => .error unhandled
      | .ok timeline => .ok (timelineView (decide (500 < rows.length)) timeline)

end Api

namespace Scheduler

variable {rows : List SchedulerObservation} {identity : String}

/-- Observations of one identity in the order of time have a timeline, which ends with the last
of them. -/
theorem derive_chronological
    (chronological : rows.Pairwise (fun a b => a.observedAt ≤ b.observedAt)) (nonempty : rows ≠ [])
    (single : ∀ o ∈ rows, o.sourceIdentity = identity) :
    ∃ timeline latest, deriveAllocationTimeline rows = .ok timeline ∧ rows.getLast? = some latest ∧
      timeline.sourceIdentity = identity ∧ timeline.jobId = latest.jobId ∧
      timeline.latestState = latest.state ∧ timeline.latestObservedAt = latest.observedAt := by
  have same : ordered rows = rows := chronological.insertionSort_eq
  obtain ⟨first, hfirst⟩ : ∃ first, rows.head? = some first :=
    ⟨_, List.head?_eq_some_head nonempty⟩
  obtain ⟨latest, hlatest⟩ : ∃ latest, rows.getLast? = some latest :=
    ⟨_, List.getLast?_eq_some_getLast nonempty⟩
  have identical : rows.any (fun row => row.sourceIdentity ≠ first.sourceIdentity) = false := by
    rw [List.any_eq_false]
    intro row hrow
    rw [single row hrow, single first (List.mem_of_head? hfirst)]
    simp
  unfold deriveAllocationTimeline
  dsimp only
  rw [same, hfirst, hlatest]
  dsimp only
  rw [identical]
  exact ⟨_, latest, rfl, rfl, single first (List.mem_of_head? hfirst), rfl, rfl, rfl⟩

end Scheduler

namespace Monitoring

open Api Scheduler
open Deployment (State)
open SchedulerReconciler (Reconciled Polled observationFromAttempt seen_iff)

variable {env : Env} {settings : IngestionSettings} {s s' : State} {x : Action} {c c' : Catalog}
  {principal : MachinePrincipal} {clusterId sourceIdentity : String}

/-- One observation of an identity at one time. -/
def Distinct (c : Catalog) : Prop :=
  ∀ o ∈ c.observations, ∀ o' ∈ c.observations, o.tenantId = o'.tenantId →
    o.clusterId = o'.clusterId → o.sourceIdentity = o'.sourceIdentity →
      o.observedAt = o'.observedAt → o = o'

theorem distinct_reconciled {tenantId : String} {now : Instant} {a : SchedulerAttempt}
    (h : Reconciled tenantId now a c c') (hd : Distinct c) : Distinct c' := by
  obtain ⟨-, he⟩ | ⟨unseen, id, hid, he⟩ := h.observations
  · intro o ho o' ho'
    rw [he] at ho ho'
    exact hd o ho o' ho'
  · have fresh : ∀ o ∈ c.observations, o.tenantId = tenantId → o.clusterId = a.clusterId →
        o.sourceIdentity = a.sourceIdentity → o.observedAt = a.observedAt → False := by
      intro o ho ht hc hs hat
      have hseen := seen_iff.mpr ⟨ht, hc, hs, hat⟩
      rw [unseen o ho] at hseen
      cases hseen
    intro o ho o' ho' ht hc hs hat
    rw [he] at ho ho'
    obtain ho | rfl := (Table.mem_insert hid).mp ho
    · obtain ho' | rfl := (Table.mem_insert hid).mp ho'
      · exact hd o ho o' ho' ht hc hs hat
      · exact (fresh o ho ht hc hs hat).elim
    · obtain ho' | rfl := (Table.mem_insert hid).mp ho'
      · exact (fresh o' ho' ht.symm hc.symm hs.symm hat.symm).elim
      · rfl

theorem distinct_step (h : Step env settings s x s') (hp : Spares s x)
    (hd : Distinct s.catalog) : Distinct s'.catalog := by
  cases x with
  | serve call =>
    cases h with
    | served h =>
      have carried := Deployment.carried_step h (Deployment.spares_of_erases hp)
      intro o ho o' ho'
      rw [carried.observations] at ho ho'
      exact hd o ho o' ho'
  | poll tenantId attempts now =>
    obtain hpolled | he := step_poll h
    · exact hpolled.preserves (fun _ _ _ _ h hd => distinct_reconciled h hd) hd
    · exact he ▸ hd

theorem distinct_of_run (h : RunWhere env settings Spares .initial s) : Distinct s.catalog := by
  induction h with
  | start => exact fun o ho => absurd ho (Table.not_mem_empty o)
  | step _ hs hp ih => exact distinct_step hs hp ih

theorem mem_identityObservations {tenantId : String} {o : SchedulerObservation} :
    o ∈ identityObservations tenantId clusterId sourceIdentity c ↔ o ∈ c.observations ∧
      o.tenantId = tenantId ∧ o.clusterId = clusterId ∧ o.sourceIdentity = sourceIdentity := by
  simp [identityObservations, and_assoc]

theorem schedulerAllocation_eq (scope : clusterId ∈ principal.clusters)
    {rows : List SchedulerObservation}
    (hrows : rows = identityObservations principal.tenantId clusterId sourceIdentity c)
    (nonempty : rows ≠ []) : ∃ window timeline latest,
      Newest SchedulerObservation.observedAt 500 rows window ∧ window.getLast? = some latest ∧
      deriveAllocationTimeline window = .ok timeline ∧
      timeline.latestState = latest.state ∧ timeline.latestObservedAt = latest.observedAt ∧
      schedulerAllocation principal clusterId sourceIdentity c =
        .ok (timelineView (decide (500 < rows.length)) timeline) := by
  have newest := Window.newest_descending SchedulerObservation.observedAt 500 rows
  have length := (Window.descending_perm SchedulerObservation.observedAt rows).length_eq
  have positive : 0 < rows.length := List.length_pos_of_ne_nil nonempty
  obtain ⟨o, ho⟩ := List.exists_mem_of_ne_nil rows nonempty
  have single : ∀ o ∈ ((descending SchedulerObservation.observedAt rows).take 500).reverse,
      o.sourceIdentity = sourceIdentity := by
    intro o ho
    have member := newest.subset o ho
    rw [hrows] at member
    exact (mem_identityObservations.mp member).2.2.2
  obtain ⟨timeline, latest, hderive, hlast, -, -, hstate, hat⟩ :=
    derive_chronological newest.chronological (newest.ne_nil (by decide) ho) single
  refine ⟨_, timeline, latest, newest, hlast, hderive, hstate, hat, ?_⟩
  have some501 : (descending SchedulerObservation.observedAt rows).take 501 ≠ [] := by
    apply List.ne_nil_of_length_pos
    rw [List.length_take]
    omega
  have cut : ((descending SchedulerObservation.observedAt rows).take 501).take 500 =
      (descending SchedulerObservation.observedAt rows).take 500 := by
    rw [List.take_take]
    rfl
  have limited : (500 < ((descending SchedulerObservation.observedAt rows).take 501).length) ↔
      500 < rows.length := by
    rw [List.length_take]
    omega
  unfold schedulerAllocation
  rw [if_neg (not_not_intro scope), ← hrows]
  dsimp only
  rw [if_neg some501, cut, hderive]
  simp only [limited]

/-- What the route answers: the timeline of the newest observations of the identity, which are one
window in whatever order the database returns them, and a note when there are more. -/
structure Answered (principal : MachinePrincipal) (clusterId sourceIdentity : String)
    (c : Catalog) : Prop where
  scope : schedulerAllocation principal clusterId sourceIdentity c = .error clusterNotFound ↔
    clusterId ∉ principal.clusters
  unknown : schedulerAllocation principal clusterId sourceIdentity c =
      .error schedulerAttemptNotFound ↔ clusterId ∈ principal.clusters ∧
    ∀ o ∈ c.observations, ¬(o.tenantId = principal.tenantId ∧ o.clusterId = clusterId ∧
      o.sourceIdentity = sourceIdentity)
  observed : clusterId ∈ principal.clusters → ∀ window, window ≠ [] →
    Newest SchedulerObservation.observedAt 500
      (identityObservations principal.tenantId clusterId sourceIdentity c) window →
    ∃ timeline, deriveAllocationTimeline window = .ok timeline ∧
      schedulerAllocation principal clusterId sourceIdentity c = .ok (timelineView
        (decide (500 < (identityObservations principal.tenantId clusterId sourceIdentity c).length))
        timeline)
  handled : schedulerAllocation principal clusterId sourceIdentity c ≠ .error unhandled

theorem schedulerAllocation_refused (scope : clusterId ∉ principal.clusters) :
    schedulerAllocation principal clusterId sourceIdentity c = .error clusterNotFound :=
  if_pos scope

theorem schedulerAllocation_unknown (scope : clusterId ∈ principal.clusters)
    (empty : identityObservations principal.tenantId clusterId sourceIdentity c = []) :
    schedulerAllocation principal clusterId sourceIdentity c = .error schedulerAttemptNotFound := by
  unfold schedulerAllocation
  rw [if_neg (not_not_intro scope), empty]
  rfl

theorem identityObservations_eq_nil {tenantId : String} :
    identityObservations tenantId clusterId sourceIdentity c = [] ↔ ∀ o ∈ c.observations,
      ¬(o.tenantId = tenantId ∧ o.clusterId = clusterId ∧ o.sourceIdentity = sourceIdentity) := by
  constructor
  · intro empty o ho hscope
    have member := mem_identityObservations.mpr ⟨ho, hscope⟩
    rw [empty] at member
    exact absurd member List.not_mem_nil
  · intro unseen
    apply List.eq_nil_iff_forall_not_mem.mpr
    intro o ho
    obtain ⟨member, hscope⟩ := mem_identityObservations.mp ho
    exact unseen o member hscope

/-- In every run without erasures the allocation of an attempt is told from its newest
observations alone. -/
theorem allocation_answered (h : RunWhere env settings Spares .initial s) :
    Answered principal clusterId sourceIdentity s.catalog := by
  have other : clusterNotFound ≠ schedulerAttemptNotFound := by decide
  by_cases scope : clusterId ∈ principal.clusters
  · by_cases empty : identityObservations principal.tenantId clusterId sourceIdentity s.catalog = []
    · have unknown := schedulerAllocation_unknown scope empty
      refine ⟨?_, ?_, fun _ window hw newest => ?_, ?_⟩
      · rw [unknown]
        exact ⟨fun he => absurd (Except.error.inj he).symm other, fun hn => absurd scope hn⟩
      · exact ⟨fun _ => ⟨scope, identityObservations_eq_nil.mp empty⟩, fun _ => unknown⟩
      · obtain ⟨o, ho⟩ := List.exists_mem_of_ne_nil window hw
        have member := newest.subset o ho
        rw [empty] at member
        exact absurd member List.not_mem_nil
      · rw [unknown]
        decide
    · obtain ⟨window, timeline, latest, newest, -, hderive, -, -, hanswer⟩ :=
        schedulerAllocation_eq scope rfl empty
      refine ⟨?_, ?_, fun _ window' _ newest' => ?_, ?_⟩
      · rw [hanswer]
        exact ⟨fun he => (by cases he), fun hn => absurd scope hn⟩
      · rw [hanswer]
        exact ⟨fun he => (by cases he),
          fun he => absurd (identityObservations_eq_nil.mpr he.2) empty⟩
      · have same : window' = window := by
          refine newest'.unique newest (fun o ho o' ho' hat => ?_)
          obtain ⟨member, ht, hc, hs⟩ := mem_identityObservations.mp ho
          obtain ⟨member', ht', hc', hs'⟩ := mem_identityObservations.mp ho'
          exact distinct_of_run h o member o' member' (ht.trans ht'.symm) (hc.trans hc'.symm)
            (hs.trans hs'.symm) hat
        exact ⟨timeline, same ▸ hderive, hanswer⟩
      · rw [hanswer]
        rintro ⟨⟩
  · have refused := @schedulerAllocation_refused s.catalog principal clusterId sourceIdentity scope
    refine ⟨?_, ?_, fun hs => absurd hs scope, ?_⟩
    · exact ⟨fun _ => scope, fun _ => refused⟩
    · rw [refused]
      exact ⟨fun he => absurd (Except.error.inj he) other, fun he => absurd he.1 scope⟩
    · rw [refused]
      decide

/-- The state of a record never overtakes the allocation that is told of it, which agrees with the
record where both are of one time, and never goes back. -/
structure Current (env : Env) (settings : IngestionSettings) (principal : MachinePrincipal)
    (r : AttemptRecord) (t : Instant) (s : State) : Prop where
  answered : ∃ i view, r.schedulerSourceIdentity = some i ∧
    schedulerAllocation principal r.clusterId i s.catalog = .ok view ∧ t ≤ view.latestObservedAt ∧
    (view.latestObservedAt = t → view.latestState = r.schedulerState) ∧
    ∀ s', RunWhere env settings Spares s s' → ∃ view',
      schedulerAllocation principal r.clusterId i s'.catalog = .ok view' ∧
        view.latestObservedAt ≤ view'.latestObservedAt

theorem spares_of_sound (h : RunWhere env settings Sound .initial s) :
    RunWhere env settings Spares .initial s := by
  induction h with
  | start => exact .start
  | @step t t' x _ hs hp ih =>
    refine ih.step hs ?_
    cases x with
    | serve call => exact hp
    | poll tenantId attempts now => trivial

theorem backed_of_run (h : RunWhere env settings Sound .initial s) :
    ∀ r ∈ s.catalog.records, Backed s.catalog r := by
  induction h with
  | start => exact fun r hr => absurd hr (Table.not_mem_empty r)
  | step hr hs hp ih => exact backed_step hs hp (noClash_of_run hr noClash_initial) ih

theorem view_of_observation (scope : clusterId ∈ principal.clusters) {o : SchedulerObservation}
    (ho : o ∈ identityObservations principal.tenantId clusterId sourceIdentity c) :
    ∃ view, ∃ latest ∈ c.observations, schedulerAllocation principal clusterId sourceIdentity c =
      .ok view ∧ view.latestState = latest.state ∧ view.latestObservedAt = latest.observedAt ∧
      o.observedAt ≤ latest.observedAt ∧ latest.tenantId = principal.tenantId ∧
      latest.clusterId = clusterId ∧ latest.sourceIdentity = sourceIdentity := by
  obtain ⟨window, timeline, latest, newest, hlast, -, hstate, hat, hanswer⟩ :=
    schedulerAllocation_eq scope rfl (List.ne_nil_of_mem ho)
  obtain ⟨member, hscope⟩ := mem_identityObservations.mp
    (newest.subset latest (List.mem_of_getLast? hlast))
  exact ⟨_, latest, member, hanswer, hstate, hat, newest.getLast hlast o ho, hscope⟩

/-- In every run without erasures whose polls report what is stored, the allocation an attempt is
told to have is never behind its scheduler state. -/
theorem allocation_current (h : RunWhere env settings Sound .initial s) {r : AttemptRecord}
    (hr : r ∈ s.catalog.records) {t : Instant} (seen : r.schedulerObservedAt = some t)
    (tenant : principal.tenantId = r.tenantId) (scope : r.clusterId ∈ principal.clusters) :
    Current env settings principal r t s := by
  obtain ⟨i, source, o, ho, ht, hc, hs, hat, hstate⟩ := backed_of_run h r hr t seen
  have distinct := distinct_of_run (spares_of_sound h)
  have member := mem_identityObservations.mpr ⟨ho, ht.trans tenant.symm, hc, hs⟩
  obtain ⟨view, latest, hlatest, hview, vstate, vat, hle, lt, lc, ls⟩ :=
    view_of_observation scope member
  refine ⟨i, view, source, hview, ?_, ?_, ?_⟩
  · rw [vat, ← hat]
    exact hle
  · intro same
    have one : latest = o := by
      refine distinct latest hlatest o ho (lt.trans (tenant.trans ht.symm)) (lc.trans hc.symm)
        (ls.trans hs.symm) ?_
      rw [← vat, same, hat]
    rw [vstate, one, hstate]
  · intro s' h'
    have grows := grows_of_run h' (noClash_of_run h noClash_initial)
    have kept := mem_identityObservations.mpr ⟨grows.kept latest hlatest, lt, lc, ls⟩
    obtain ⟨view', latest', -, hview', -, vat', hle', -⟩ := view_of_observation scope kept
    refine ⟨view', hview', ?_⟩
    rw [vat, vat']
    exact hle'

/-- A job that is seen running and then done, while its record is bound. -/
theorem polled_twice : ∃ s r, RunWhere Sample.env Sample.settings Sound .initial s ∧
    r ∈ s.catalog.records ∧ r.schedulerObservedAt = some 20 ∧ r.tenantId = "acme" ∧
    r.clusterId = "c1" ∧ ∃ view,
      schedulerAllocation Sample.principal "c1" "slurm:c1:101" s.catalog = .ok view ∧
        view.latestState = "succeeded" := by
  have hrun : (performAll Sample.env Sample.settings sound (Sample.boundAdmission ++
      [.poll "acme" [(Sample.job .running 10, 5)] 11,
        .poll "acme" [(Sample.job .running 10, 6), (Sample.job .succeeded 20, 7)] 21])
      .initial).map (fun s => (s.catalog.records.rows.map (fun r =>
        (r.schedulerObservedAt, r.tenantId, r.clusterId)),
        (schedulerAllocation Sample.principal "c1" "slurm:c1:101" s.catalog).toOption.map
          AllocationTimeline.latestState)) =
        some ([(some 20, "acme", "c1")], some "succeeded") := by
    decide +kernel
  obtain ⟨s, hs, hfacts⟩ := Option.map_eq_some_iff.mp hrun
  obtain ⟨hrecords, hview⟩ := Prod.mk.inj hfacts
  obtain ⟨r, hr, hfields⟩ := List.mem_map.mp (hrecords ▸ List.mem_singleton_self _)
  obtain ⟨seen, hscope⟩ := Prod.mk.inj hfields
  obtain ⟨view, hanswer, hstate⟩ := Option.map_eq_some_iff.mp hview
  refine ⟨s, r, runWhere_of_performAll (fun _ _ => sound_check) .start hs, hr, seen,
    (Prod.mk.inj hscope).1, (Prod.mk.inj hscope).2, view, ?_, hstate⟩
  cases h : schedulerAllocation Sample.principal "c1" "slurm:c1:101" s.catalog with
  | error e =>
    rw [h] at hanswer
    cases hanswer
  | ok view' =>
    rw [h] at hanswer
    rw [Option.some.inj hanswer]

theorem allocation_answered_sample : ∃ (s : State) (view : AllocationTimeline),
    schedulerAllocation Sample.principal "c1" "slurm:c1:101" s.catalog = .ok view ∧
      view.latestState = "succeeded" ∧
      Answered Sample.principal "c1" "slurm:c1:101" s.catalog := by
  obtain ⟨s, r, hs, -, -, -, -, view, hview, hstate⟩ := polled_twice
  exact ⟨s, view, hview, hstate, allocation_answered (spares_of_sound hs)⟩

theorem allocation_current_sample : ∃ s r, r ∈ s.catalog.records ∧
    Current Sample.env Sample.settings Sample.principal r 20 s := by
  obtain ⟨s, r, hs, hr, seen, tenant, cluster, -⟩ := polled_twice
  refine ⟨s, r, hr, allocation_current hs hr seen ?_ ?_⟩
  · rw [tenant]
    rfl
  · rw [cluster]
    decide

end Monitoring

end RankLens
