import RankLens.Policies

namespace RankLens

open IngestionService (policiesOf)

/-- The body of a request for a new revision, and who makes it. -/
structure RetentionPolicyUpdate where
  retentionSeconds : Nat
  effectiveAt : Option Instant
  logicalCaseId : Option String
  credentialId : String
deriving DecidableEq, Repr

namespace Api

variable {tenantId clusterId : String} {now : Instant} {c : Catalog}
  {p q : RetentionPolicyRevision}

/-- The revision `create_retention_policy` reads to answer with. -/
def latestRevision (tenantId clusterId : String) (c : Catalog) : Option RetentionPolicyRevision :=
  ((c.policies.select (policiesOf tenantId clusterId)).insertionSort
    (fun p q => q.version ≤ p.version)).head?

/-- The answer of `create_retention_policy` after its transaction, none when there is no policy. -/
def createdView (tenantId clusterId : String) (now : Instant) (c : Catalog) :
    Option RetentionPolicyView :=
  (latestRevision tenantId clusterId c).map (fun policy => retentionPolicyView policy
    (activeRetentionPolicyVersions tenantId clusterId now c policy.logicalCaseId) now none)

theorem policiesOf_iff : policiesOf tenantId clusterId p = true ↔
    p.tenantId = tenantId ∧ p.clusterId = clusterId := by
  simp [policiesOf]

theorem latestRevision_eq_some (h : latestRevision tenantId clusterId c = some p) :
    p ∈ c.policies ∧ policiesOf tenantId clusterId p = true ∧
      ∀ q ∈ c.policies, policiesOf tenantId clusterId q = true → q.version ≤ p.version := by
  have sorted := List.pairwise_insertionSort
    (fun p q : RetentionPolicyRevision => q.version ≤ p.version)
    (c.policies.select (policiesOf tenantId clusterId))
  have mem : ∀ q, q ∈ (c.policies.select (policiesOf tenantId clusterId)).insertionSort
      (fun p q => q.version ≤ p.version) ↔
      q ∈ c.policies ∧ policiesOf tenantId clusterId q = true :=
    fun q => (List.mem_insertionSort _).trans Table.mem_select
  unfold latestRevision at h
  obtain ⟨rest, hrest⟩ := List.head?_eq_some_iff.mp h
  rw [hrest] at sorted mem
  obtain ⟨hp, hcluster⟩ := (mem p).mp List.mem_cons_self
  refine ⟨hp, hcluster, fun q hq hqc => ?_⟩
  obtain rfl | hq := List.mem_cons.mp ((mem q).mpr ⟨hq, hqc⟩)
  · exact le_rfl
  · exact List.rel_of_pairwise_cons sorted hq

theorem latestRevision_eq_none (h : latestRevision tenantId clusterId c = none)
    (hq : q ∈ c.policies) : policiesOf tenantId clusterId q = false := by
  by_contra hc
  have mem : q ∈ (c.policies.select (policiesOf tenantId clusterId)).insertionSort
      (fun p q => q.version ≤ p.version) :=
    (List.mem_insertionSort _).mpr (Table.mem_select.mpr ⟨hq, by simpa using hc⟩)
  rw [latestRevision, List.head?_eq_none_iff] at h
  rw [h] at mem
  cases mem

/-- A new revision has the data of its request and a version above all others of its cluster. -/
structure Created (tenantId clusterId : String) (u : RetentionPolicyUpdate) (now : Instant)
    (p : RetentionPolicyRevision) (c c' : Catalog) : Prop where
  cluster : policiesOf tenantId clusterId p = true
  scope : p.logicalCaseId = u.logicalCaseId
  retention : p.retentionSeconds = u.retentionSeconds
  credential : p.createdByCredentialId = u.credentialId
  effective : p.effectiveAt = u.effectiveAt.getD now
  newest : ∀ q ∈ c.policies, policiesOf tenantId clusterId q = true → q.version < p.version
  policies : ∀ q, q ∈ c'.policies ↔ q = p ∨ q ∈ c.policies

theorem createRetentionPolicyRevision_created {u : RetentionPolicyUpdate} {w : ObjectStore} :
    (IngestionService.createRetentionPolicyRevision tenantId clusterId u.retentionSeconds
      u.credentialId u.effectiveAt u.logicalCaseId now).wp (fun _ => True) (fun _ => True)
      (fun p c' _ => Created tenantId clusterId u now p c c') c w := by
  simp only [IngestionService.createRetentionPolicyRevision, Txn.wp_bind, Txn.wp_raiseIf,
    Txn.wp_lock, Ref.wp_select, Ref.wp_insert, Txn.wp_pure]
  refine ⟨fun _ => trivial, fun _ => ⟨fun _ => trivial, fun _ => ⟨fun _ => trivial, fun _ =>
    ⟨fun _ => trivial, fun _ => ⟨fun _ => trivial, fun _ => ⟨fun _ => trivial, fun _ => ?_⟩⟩⟩⟩⟩⟩
  have newest : ∀ q ∈ c.policies, policiesOf tenantId clusterId q = true →
      q.version < ((latestRevision tenantId clusterId c).map RetentionPolicyRevision.version).getD 0
        + 1 := by
    intro q hq hcluster
    cases hl : latestRevision tenantId clusterId c with
    | none => exact absurd hcluster (by simp [latestRevision_eq_none hl hq])
    | some p => exact Nat.lt_succ_of_le ((latestRevision_eq_some hl).2.2 q hq hcluster)
  refine ⟨policiesOf_iff.mpr ⟨rfl, rfl⟩, rfl, rfl, rfl, rfl, newest, fun q => ?_⟩
  refine (Table.mem_insert (Table.get_eq_none.mpr (fun x hx hkey => ?_))).trans or_comm
  have key := PolicyKey.mk.inj hkey
  exact absurd key.2.2 (newest x hx (policiesOf_iff.mpr ⟨key.1, key.2.1⟩)).ne

end Api

namespace PolicyUpdates

open Api

/-- A request whose revision is committed. -/
structure Waiting where
  request : RetentionPolicyUpdate
  requestedAt : Instant
  created : RetentionPolicyRevision

/-- A response, none for a 503. -/
structure Answer where
  request : Waiting
  view : Option RetentionPolicyView

structure State where
  catalog : Catalog
  waiting : List Waiting
  answers : List Answer

inductive Action where
  | create (u : RetentionPolicyUpdate) (now : Instant)
  | answer (r : Waiting) (now : Instant)

/-- The transaction of a request, or its read after that. -/
inductive Step (tenantId clusterId : String) : State → Action → State → Prop where
  | create {s : State} {u : RetentionPolicyUpdate} {now : Instant} {w w' : ObjectStore}
      {p : RetentionPolicyRevision} {c : Catalog}
      (h : (IngestionService.createRetentionPolicyRevision tenantId clusterId u.retentionSeconds
        u.credentialId u.effectiveAt u.logicalCaseId now).run s.catalog w = (.ok (p, c), w')) :
      Step tenantId clusterId s (.create u now) { s with
        catalog := c
        waiting := ⟨u, now, p⟩ :: s.waiting }
  | answer {s : State} {before after : List Waiting} {r : Waiting} {now : Instant}
      (h : s.waiting = before ++ r :: after) :
      Step tenantId clusterId s (.answer r now) { s with
        waiting := before ++ after
        answers := ⟨r, createdView tenantId clusterId now s.catalog⟩ :: s.answers }

/-- No request has created a newer revision of the cluster since. -/
def Undisturbed (tenantId clusterId : String) (s : State) : Action → Prop
  | .create _ _ => True
  | .answer r _ => ∀ p ∈ s.catalog.policies, policiesOf tenantId clusterId p = true →
    p.version ≤ r.created.version

inductive Runs (tenantId clusterId : String) (condition : State → Action → Prop) : State → Prop where
  | start (c : Catalog) : Runs tenantId clusterId condition ⟨c, [], []⟩
  | step {s s' : State} {a : Action} (h : Runs tenantId clusterId condition s)
      (hs : Step tenantId clusterId s a s') (hc : condition s a) :
      Runs tenantId clusterId condition s'

/-- A view shows the revision its request created. -/
structure Own (a : Answer) (v : RetentionPolicyView) : Prop where
  version : v.version = a.request.created.version
  tenant : v.tenantId = a.request.created.tenantId
  cluster : v.clusterId = a.request.created.clusterId
  scope : v.logicalCaseId = a.request.request.logicalCaseId
  retention : v.retentionSeconds = a.request.request.retentionSeconds
  effective : v.effectiveAt = a.request.request.effectiveAt.getD a.request.requestedAt
  credential : v.createdByCredentialId = a.request.request.credentialId

/-- Each request is answered with its own revision, and no two of them with one version. -/
structure Answered (s : State) : Prop where
  own : ∀ a ∈ s.answers, ∃ v, a.view = some v ∧ Own a v
  distinct : (s.answers.map (fun a => a.view.map RetentionPolicyView.version)).Nodup

section runs

variable {tenantId clusterId : String} {s s' : State} {a : Action} {r : Waiting}

/-- What is known of a request from its transaction on. -/
structure Known (tenantId clusterId : String) (c : Catalog) (r : Waiting) : Prop where
  mem : r.created ∈ c.policies
  cluster : policiesOf tenantId clusterId r.created = true
  scope : r.created.logicalCaseId = r.request.logicalCaseId
  retention : r.created.retentionSeconds = r.request.retentionSeconds
  credential : r.created.createdByCredentialId = r.request.credentialId
  effective : r.created.effectiveAt = r.request.effectiveAt.getD r.requestedAt

/-- The requests so far, those that were answered last. -/
def State.requests (s : State) : List Waiting := s.waiting ++ s.answers.map Answer.request

structure Serial (tenantId clusterId : String) (s : State) : Prop where
  known : ∀ r ∈ s.requests, Known tenantId clusterId s.catalog r
  versions : (s.requests.map (fun r => r.created.version)).Nodup

theorem Serial.step (h : Serial tenantId clusterId s) (hs : Step tenantId clusterId s a s') :
    Serial tenantId clusterId s' := by
  cases hs with
  | @create u now w w' p c hrun =>
    have made := Txn.run_of_wp createRetentionPolicyRevision_created hrun
    have kept : ∀ r ∈ s.requests, Known tenantId clusterId c r := by
      intro r hr
      obtain ⟨hmem, hk⟩ := h.known r hr
      exact ⟨(made.policies _).mpr (.inr hmem), by assumption, by assumption, by assumption,
        by assumption, by assumption⟩
    refine ⟨List.forall_mem_cons.mpr ⟨?_, kept⟩, List.nodup_cons.mpr ⟨fun hp => ?_, h.versions⟩⟩
    · exact ⟨(made.policies p).mpr (.inl rfl), made.cluster, made.scope, made.retention,
        made.credential, made.effective⟩
    · obtain ⟨r, hr, he⟩ := List.mem_map.mp hp
      have older := made.newest _ (h.known r hr).mem (h.known r hr).cluster
      exact absurd he older.ne
  | @answer before after r now hwaiting =>
    have moved : List.Perm ((before ++ after) ++ r :: s.answers.map Answer.request) s.requests := by
      unfold State.requests
      rw [hwaiting]
      refine List.perm_middle.trans ?_
      rw [List.append_assoc, List.append_assoc]
      exact List.perm_middle.symm
    refine ⟨fun x hx => h.known x (moved.mem_iff.mp hx), ?_⟩
    exact ((moved.map _).nodup_iff).mpr h.versions

theorem Runs.serial {condition : State → Action → Prop} (h : Runs tenantId clusterId condition s) :
    Serial tenantId clusterId s := by
  induction h with
  | start c => exact ⟨nofun, List.nodup_nil⟩
  | step _ hs _ ih => exact ih.step hs

theorem Known.view {c : Catalog} {now : Instant} (h : Known tenantId clusterId c r)
    (hlatest : ∀ p ∈ c.policies, policiesOf tenantId clusterId p = true →
      p.version ≤ r.created.version) :
    ∃ v, createdView tenantId clusterId now c = some v ∧ Own ⟨r, some v⟩ v := by
  cases hl : latestRevision tenantId clusterId c with
  | none => exact absurd h.cluster (by simp [latestRevision_eq_none hl h.mem])
  | some p =>
    obtain ⟨hp, hcluster, hmax⟩ := latestRevision_eq_some hl
    have same : p = r.created := by
      have version := le_antisymm (hlatest p hp hcluster) (hmax _ h.mem h.cluster)
      obtain ⟨ht, hc⟩ := policiesOf_iff.mp hcluster
      obtain ⟨ht', hc'⟩ := policiesOf_iff.mp h.cluster
      exact Table.eq_of_key hp h.mem (by
        simp [RetentionPolicyRevision.policy, ht, hc, ht', hc', version])
    refine ⟨_, congrArg (Option.map _) (hl.trans (congrArg some same)), ?_⟩
    exact ⟨rfl, rfl, rfl, h.scope, h.retention, h.effective, h.credential⟩

theorem answers_own (h : Runs tenantId clusterId (Undisturbed tenantId clusterId) s) :
    ∀ a ∈ s.answers, ∃ v, a.view = some v ∧ Own a v := by
  induction h with
  | start c => exact fun a ha => absurd ha List.not_mem_nil
  | @step s s' a h hs hc ih =>
    cases hs with
    | create _ => exact ih
    | @answer before after r now hwaiting =>
      refine List.forall_mem_cons.mpr ⟨?_, ih⟩
      have mem : r ∈ s.requests := by
        refine List.mem_append_left _ ?_
        rw [hwaiting]
        exact List.mem_append_right _ List.mem_cons_self
      obtain ⟨v, hv, hown⟩ := (h.serial.known r mem).view hc
      exact ⟨v, hv, hown.version, hown.tenant, hown.cluster, hown.scope, hown.retention,
        hown.effective, hown.credential⟩

/-- In the runs where no newer revision is created before the read, every request is answered with
its own. -/
theorem update_answered (h : Runs tenantId clusterId (Undisturbed tenantId clusterId) s) :
    Answered s := by
  have own := answers_own h
  refine ⟨own, ?_⟩
  have versions : (s.answers.map (fun a => some a.request.created.version)).Nodup := by
    have all := h.serial.versions
    rw [State.requests, List.map_append, List.map_map] at all
    have answered := (List.nodup_append.mp all).2.1
    have shown := answered.map (Option.some_injective Nat)
    rwa [List.map_map] at shown
  refine (List.map_congr_left (fun a ha => ?_)) ▸ versions
  obtain ⟨v, hv, hown⟩ := own a ha
  rw [hv, Option.map_some, hown.version]

end runs

section overtaken

def keepAnHour : RetentionPolicyUpdate := ⟨3600, none, none, "a"⟩

def keepTwoHours : RetentionPolicyUpdate := ⟨7200, none, none, "b"⟩

/-- Two requests, the second one made once the first is answered. -/
theorem update_answered_twice : ∃ s : State, s.answers.length = 2 ∧ Answered s := by
  have start : Runs "t" "c" (Undisturbed "t" "c") ⟨.empty, [], []⟩ := .start _
  have created := start.step (@Step.create _ _ _ keepAnHour 0 (fun _ => none) _ _ _ rfl) trivial
  have answered := created.step (@Step.answer _ _ _ [] [] _ 1 rfl) (fun p hp _ => by
    obtain rfl := List.mem_singleton.mp hp
    exact le_rfl)
  have createdNext := answered.step
    (@Step.create _ _ _ keepTwoHours 2 (fun _ => none) _ _ _ rfl) trivial
  have answeredNext := createdNext.step (@Step.answer _ _ _ [] [] _ 3 rfl) (fun p hp _ => by
    obtain rfl | hp := List.mem_cons.mp hp
    · exact Nat.le_succ 1
    · obtain rfl := List.mem_singleton.mp hp
      exact Nat.le_refl 2)
  exact ⟨_, rfl, update_answered answeredNext⟩

/-- A request is answered with the revision another one has created before its read. -/
theorem update_overtaken :
    ¬ ∀ s : State, Runs "t" "c" (fun _ _ => True) s → Answered s := by
  intro h
  have start : Runs "t" "c" (fun _ _ => True) ⟨.empty, [], []⟩ := .start _
  have first := start.step (@Step.create _ _ _ keepAnHour 0 (fun _ => none) _ _ _ rfl) trivial
  have second := first.step (@Step.create _ _ _ keepTwoHours 0 (fun _ => none) _ _ _ rfl) trivial
  have answered := second.step (@Step.answer _ _ _ [_] [] _ 1 rfl) trivial
  obtain ⟨v, hv, hown⟩ := (h _ answered).own _ List.mem_cons_self
  have shown := congrArg (Option.map RetentionPolicyView.version) hv
  rw [Option.map_some, hown.version] at shown
  exact absurd shown (by decide +kernel)

end overtaken

end PolicyUpdates

end RankLens
