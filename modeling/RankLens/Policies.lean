import RankLens.Ledger

namespace RankLens

inductive ActivationStatus where
  | scheduled
  | active
  | superseded
  | cancelled
deriving DecidableEq, Repr

structure RetentionPolicyView where
  tenantId : String
  clusterId : String
  version : Nat
  logicalCaseId : Option String
  retentionSeconds : Nat
  automaticExpiryEnabled : Bool
  createdByCredentialId : String
  createdAt : Instant
  effectiveAt : Instant
  activationStatus : ActivationStatus
  cancellationReason : Option String
  cancelledByCredentialId : Option String
  cancelledAt : Option Instant
deriving DecidableEq, Repr

namespace Api

def retentionPolicyView (policy : RetentionPolicyRevision) (activeVersion : Option Nat)
    (now : Instant) (cancellation : Option RetentionPolicyCancellation) : RetentionPolicyView where
  tenantId := policy.tenantId
  clusterId := policy.clusterId
  version := policy.version
  logicalCaseId := policy.logicalCaseId
  retentionSeconds := policy.retentionSeconds
  automaticExpiryEnabled := 0 < policy.retentionSeconds
  createdByCredentialId := policy.createdByCredentialId
  createdAt := policy.createdAt
  effectiveAt := policy.effectiveAt
  activationStatus :=
    if cancellation.isSome then .cancelled
    else if now < policy.effectiveAt then .scheduled
    else if some policy.version = activeVersion then .active
    else .superseded
  cancellationReason := cancellation.map RetentionPolicyCancellation.reason
  cancelledByCredentialId := cancellation.map RetentionPolicyCancellation.cancelledByCredentialId
  cancelledAt := cancellation.map RetentionPolicyCancellation.cancelledAt

/-- The rows of the group of one scope: effective, and not cancelled. -/
def effective (tenantId clusterId : String) (now : Instant) (c : Catalog) (scope : Option String) :
    List RetentionPolicyRevision :=
  c.policies.select (fun p => p.tenantId = tenantId && p.clusterId = clusterId &&
    p.effectiveAt ≤ now && (c.cancellations.get p.policy).isNone && p.logicalCaseId = scope)

def activeRetentionPolicyVersions (tenantId clusterId : String) (now : Instant) (c : Catalog)
    (scope : Option String) : Option Nat :=
  ((effective tenantId clusterId now c scope).map RetentionPolicyRevision.version).max?

def shown (now : Instant) (c : Catalog) (p : RetentionPolicyRevision) : RetentionPolicyView :=
  retentionPolicyView p
    (activeRetentionPolicyVersions p.tenantId p.clusterId now c p.logicalCaseId) now
    (c.cancellations.get p.policy)

/-- The revision of a scope that is reported active. -/
def reportedActive (tenantId clusterId : String) (now : Instant) (c : Catalog)
    (scope : Option String) : Option RetentionPolicyRevision :=
  (c.policies.select (fun p => p.tenantId = tenantId && p.clusterId = clusterId &&
    p.logicalCaseId = scope && (shown now c p).activationStatus = .active)).head?

variable {tenantId clusterId : String} {now : Instant} {c : Catalog} {scope : Option String}
  {p q : RetentionPolicyRevision}

theorem mem_effective : p ∈ effective tenantId clusterId now c scope ↔ p ∈ c.policies ∧
    p.tenantId = tenantId ∧ p.clusterId = clusterId ∧ p.effectiveAt ≤ now ∧
    c.cancellations.get p.policy = none ∧ p.logicalCaseId = scope := by
  simp [effective, and_assoc]

/-- An active revision is the latest effective one of its scope. -/
theorem active_iff (hp : p ∈ c.policies) : (shown now c p).activationStatus = .active ↔
    p ∈ effective p.tenantId p.clusterId now c p.logicalCaseId ∧
      ∀ q ∈ effective p.tenantId p.clusterId now c p.logicalCaseId, q.version ≤ p.version := by
  have hmax : activeRetentionPolicyVersions p.tenantId p.clusterId now c p.logicalCaseId =
      some p.version ↔ (∃ q ∈ effective p.tenantId p.clusterId now c p.logicalCaseId,
        q.version = p.version) ∧
      ∀ q ∈ effective p.tenantId p.clusterId now c p.logicalCaseId, q.version ≤ p.version := by
    rw [activeRetentionPolicyVersions, List.max?_eq_some_iff]
    simp
  have hsame : (∃ q ∈ effective p.tenantId p.clusterId now c p.logicalCaseId,
      q.version = p.version) ↔ p ∈ effective p.tenantId p.clusterId now c p.logicalCaseId := by
    constructor
    · intro ⟨q, hq, hv⟩
      obtain ⟨hm, ht, hcl, _⟩ := mem_effective.mp hq
      have hk : q.policy = p.policy := by simp [RetentionPolicyRevision.policy, ht, hcl, hv]
      exact Table.eq_of_key hm hp hk ▸ hq
    · exact fun h => ⟨p, h, rfl⟩
  rw [hsame] at hmax
  unfold shown retentionPolicyView
  dsimp only
  split
  · next hx =>
    refine iff_of_false (by simp) (fun h => ?_)
    obtain ⟨_, _, _, _, hn, _⟩ := mem_effective.mp h.1
    rw [hn] at hx
    cases hx
  · split
    · next hlt =>
      refine iff_of_false (by simp) (fun h => ?_)
      obtain ⟨_, _, _, he, _⟩ := mem_effective.mp h.1
      exact absurd hlt (not_lt.mpr he)
    · rw [← hmax]
      split
      · next hv => exact iff_of_true rfl hv.symm
      · next hv => exact iff_of_false (by simp) (fun h => hv h.symm)

theorem reportedActive_eq_some (h : reportedActive tenantId clusterId now c scope = some p) :
    p ∈ effective tenantId clusterId now c scope ∧
      ∀ q ∈ effective tenantId clusterId now c scope, q.version ≤ p.version := by
  obtain ⟨hm, hc⟩ := Table.mem_select.mp (List.mem_of_head? h)
  simp only [Bool.and_eq_true, decide_eq_true_eq] at hc
  obtain ⟨⟨⟨rfl, rfl⟩, rfl⟩, ha⟩ := hc
  exact (active_iff hm).mp ha

theorem reportedActive_eq_none (h : reportedActive tenantId clusterId now c scope = none) :
    effective tenantId clusterId now c scope = [] := by
  by_contra hne
  obtain ⟨n, hn⟩ := Option.ne_none_iff_exists'.mp (fun hnone : ((effective tenantId clusterId now c
    scope).map RetentionPolicyRevision.version).max? = none =>
      hne (List.map_eq_nil_iff.mp (List.max?_eq_none_iff.mp hnone)))
  obtain ⟨hmem, hle⟩ := List.max?_eq_some_iff.mp hn
  obtain ⟨p, hp, rfl⟩ := List.mem_map.mp hmem
  obtain ⟨hm, rfl, rfl, _, _, rfl⟩ := mem_effective.mp hp
  have hactive : (shown now c p).activationStatus = .active :=
    (active_iff hm).mpr ⟨hp, fun q hq => hle _ (List.mem_map_of_mem hq)⟩
  refine List.ne_nil_of_mem (a := p) ?_ (List.head?_eq_none_iff.mp h)
  exact Table.mem_select.mpr ⟨hm, by simp [hactive]⟩

theorem active_unique (hp : p ∈ c.policies) (hq : q ∈ c.policies) (ht : p.tenantId = q.tenantId)
    (hc : p.clusterId = q.clusterId) (hs : p.logicalCaseId = q.logicalCaseId)
    (hpa : (shown now c p).activationStatus = .active)
    (hqa : (shown now c q).activationStatus = .active) : p = q := by
  obtain ⟨hpm, hple⟩ := (active_iff hp).mp hpa
  obtain ⟨hqm, hqle⟩ := (active_iff hq).mp hqa
  rw [ht, hc, hs] at hpm hple
  have hv : p.version = q.version := Nat.le_antisymm (hqle p hpm) (hple q hqm)
  exact Table.eq_of_key hp hq (by simp [RetentionPolicyRevision.policy, ht, hc, hv])

/-- The revision the API reports active for a case, or else for the whole cluster. -/
def governing (tenantId clusterId : String) (logicalCaseId : Option String) (now : Instant)
    (c : Catalog) : Option RetentionPolicyRevision :=
  (logicalCaseId.bind (fun i => reportedActive tenantId clusterId now c (some i))).or
    (reportedActive tenantId clusterId now c none)

end Api

namespace IngestionService

variable {tenantId : String} {segment : SegmentUpload} {now : Instant} {c : Catalog}
  {p q : RetentionPolicyRevision}

/-- The revisions the admission of a segment chooses from. -/
def applicable (tenantId : String) (segment : SegmentUpload) (now : Instant) (c : Catalog) :
    List RetentionPolicyRevision :=
  c.policies.select (fun p =>
    p.tenantId = tenantId && p.clusterId = segment.clusterId && p.effectiveAt ≤ now &&
      (p.logicalCaseId = none || p.logicalCaseId = segment.logicalCaseId) &&
      (c.cancellations.get p.policy).isNone)

theorem mem_applicable : p ∈ applicable tenantId segment now c ↔
    p ∈ Api.effective tenantId segment.clusterId now c p.logicalCaseId ∧
      (p.logicalCaseId = none ∨ p.logicalCaseId = segment.logicalCaseId) := by
  simp only [applicable, Table.mem_select, Bool.and_eq_true, Bool.or_eq_true, decide_eq_true_eq,
    Option.isNone_iff_eq_none, Api.mem_effective, and_true]
  constructor
  · rintro ⟨hm, ⟨⟨⟨ht, hc⟩, he⟩, hs⟩, hx⟩
    exact ⟨⟨hm, ht, hc, he, hx⟩, hs⟩
  · rintro ⟨⟨hm, ht, hc, he, hx⟩, hs⟩
    exact ⟨hm, ⟨⟨⟨ht, hc⟩, he⟩, hs⟩, hx⟩

/-- The order of the statement: scoped revisions first, then the latest. -/
def precedes (p q : RetentionPolicyRevision) : Bool :=
  p.logicalCaseId.isSome && q.logicalCaseId.isNone ||
    p.logicalCaseId.isSome = q.logicalCaseId.isSome && q.version ≤ p.version

theorem precedes_iff : precedes p q = true ↔
    (p.logicalCaseId.isSome = true ∧ q.logicalCaseId.isNone = true) ∨
      p.logicalCaseId.isSome = q.logicalCaseId.isSome ∧ q.version ≤ p.version := by
  simp [precedes]

instance : Std.Total (fun p q : RetentionPolicyRevision => precedes p q = true) where
  total p q := by
    rw [precedes_iff, precedes_iff]
    cases p.logicalCaseId <;> cases q.logicalCaseId <;> simp <;> omega

instance : IsTrans RetentionPolicyRevision (fun p q => precedes p q = true) where
  trans p q r h h' := by
    rw [precedes_iff] at h h' ⊢
    revert h h'
    cases p.logicalCaseId <;> cases q.logicalCaseId <;> cases r.logicalCaseId <;> simp <;> omega

theorem selectPolicy_eq : selectPolicy tenantId segment now c =
    ((applicable tenantId segment now c).insertionSort (fun p q => precedes p q = true)).head? :=
  rfl

theorem selectPolicy_eq_some (h : selectPolicy tenantId segment now c = some p) :
    p ∈ applicable tenantId segment now c ∧
      ∀ q ∈ applicable tenantId segment now c, precedes p q = true := by
  rw [selectPolicy_eq] at h
  generalize applicable tenantId segment now c = xs at h ⊢
  have hperm := List.perm_insertionSort (fun p q => precedes p q = true) xs
  have hsorted := List.pairwise_insertionSort (fun p q => precedes p q = true) xs
  refine ⟨hperm.mem_iff.mp (List.mem_of_head? h), fun q hq => ?_⟩
  have hmem := hperm.mem_iff.mpr hq
  obtain ⟨ys, hys⟩ := List.head?_eq_some_iff.mp h
  rw [hys] at hsorted hmem
  obtain rfl | hmem := List.mem_cons.mp hmem
  · exact precedes_iff.mpr (Or.inr ⟨rfl, Nat.le_refl _⟩)
  · exact (List.pairwise_cons.mp hsorted).1 q hmem

theorem selectPolicy_eq_none (h : selectPolicy tenantId segment now c = none) :
    applicable tenantId segment now c = [] := by
  rw [selectPolicy_eq] at h
  exact ((List.head?_eq_none_iff.mp h) ▸ List.perm_insertionSort _ _).nil_eq.symm

theorem eq_of_precedes (hp : p ∈ applicable tenantId segment now c)
    (hq : q ∈ applicable tenantId segment now c) (h : precedes p q = true)
    (h' : precedes q p = true) : p = q := by
  obtain ⟨hpm, hpt, hpc, _⟩ := Api.mem_effective.mp (mem_applicable.mp hp).1
  obtain ⟨hqm, hqt, hqc, _⟩ := Api.mem_effective.mp (mem_applicable.mp hq).1
  have hv : p.version = q.version := by
    rw [precedes_iff] at h h'
    revert h h'
    cases p.logicalCaseId <;> cases q.logicalCaseId <;> simp <;> omega
  exact Table.eq_of_key hpm hqm (by simp [RetentionPolicyRevision.policy, hpt, hqt, hpc, hqc, hv])

theorem precedes_of_case {i : String} (hi : segment.logicalCaseId = some i)
    (hp : p ∈ Api.effective tenantId segment.clusterId now c (some i))
    (hle : ∀ q ∈ Api.effective tenantId segment.clusterId now c (some i), q.version ≤ p.version) :
    p ∈ applicable tenantId segment now c ∧
      ∀ q ∈ applicable tenantId segment now c, precedes p q = true := by
  obtain ⟨_, _, _, _, _, hs⟩ := Api.mem_effective.mp hp
  refine ⟨mem_applicable.mpr ⟨hs ▸ hp, Or.inr (hs.trans hi.symm)⟩, fun q hq => ?_⟩
  obtain ⟨hqe, hqs⟩ := mem_applicable.mp hq
  rw [precedes_iff, hs]
  cases hqc : q.logicalCaseId with
  | none => exact Or.inl ⟨rfl, rfl⟩
  | some j =>
    rw [hqc] at hqe hqs
    have hj : j = i := by
      obtain h | h := hqs
      · cases h
      · exact Option.some.inj (h.trans hi)
    exact Or.inr ⟨rfl, hle q (hj ▸ hqe)⟩

theorem precedes_of_cluster
    (hnone : ∀ i, segment.logicalCaseId = some i →
      Api.effective tenantId segment.clusterId now c (some i) = [])
    (hp : p ∈ Api.effective tenantId segment.clusterId now c none)
    (hle : ∀ q ∈ Api.effective tenantId segment.clusterId now c none, q.version ≤ p.version) :
    p ∈ applicable tenantId segment now c ∧
      ∀ q ∈ applicable tenantId segment now c, precedes p q = true := by
  obtain ⟨_, _, _, _, _, hs⟩ := Api.mem_effective.mp hp
  refine ⟨mem_applicable.mpr ⟨hs ▸ hp, Or.inl hs⟩, fun q hq => ?_⟩
  obtain ⟨hqe, hqs⟩ := mem_applicable.mp hq
  rw [precedes_iff, hs]
  cases hqc : q.logicalCaseId with
  | none =>
    rw [hqc] at hqe
    exact Or.inr ⟨rfl, hle q hqe⟩
  | some j =>
    rw [hqc] at hqe hqs
    obtain h | h := hqs
    · cases h
    · exact absurd hqe (hnone j h.symm ▸ List.not_mem_nil)

theorem selectPolicy_of_precedes (h : p ∈ applicable tenantId segment now c ∧
    ∀ q ∈ applicable tenantId segment now c, precedes p q = true) :
    selectPolicy tenantId segment now c = some p := by
  cases hs : selectPolicy tenantId segment now c with
  | none => exact absurd h.1 (selectPolicy_eq_none hs ▸ List.not_mem_nil)
  | some q =>
    obtain ⟨hq, hle⟩ := selectPolicy_eq_some hs
    rw [eq_of_precedes hq h.1 (hle p h.1) (h.2 q hq)]

/-- The admission chooses the revision the API reports. -/
theorem selectPolicy_eq_governing : selectPolicy tenantId segment now c =
    Api.governing tenantId segment.clusterId segment.logicalCaseId now c := by
  unfold Api.governing
  cases hcase : segment.logicalCaseId.bind (fun i =>
      Api.reportedActive tenantId segment.clusterId now c (some i)) with
  | some p =>
    obtain ⟨i, hi, hp⟩ := Option.bind_eq_some_iff.mp hcase
    obtain ⟨hmem, hle⟩ := Api.reportedActive_eq_some hp
    exact selectPolicy_of_precedes (precedes_of_case hi hmem hle)
  | none =>
    have hnone : ∀ i, segment.logicalCaseId = some i →
        Api.effective tenantId segment.clusterId now c (some i) = [] := by
      intro i hi
      rw [hi, Option.bind_some] at hcase
      exact Api.reportedActive_eq_none hcase
    rw [Option.none_or]
    cases hp : Api.reportedActive tenantId segment.clusterId now c none with
    | some p =>
      obtain ⟨hmem, hle⟩ := Api.reportedActive_eq_some hp
      exact selectPolicy_of_precedes (precedes_of_cluster hnone hmem hle)
    | none =>
      cases hs : selectPolicy tenantId segment now c with
      | none => rfl
      | some q =>
        obtain ⟨hqe, hqs⟩ := mem_applicable.mp (selectPolicy_eq_some hs).1
        cases hqc : q.logicalCaseId with
        | none =>
          rw [hqc, Api.reportedActive_eq_none hp] at hqe
          cases hqe
        | some j =>
          rw [hqc] at hqe hqs
          obtain h | h := hqs
          · cases h
          · exact absurd hqe (hnone j h.symm ▸ List.not_mem_nil)

end IngestionService

namespace Deployment

variable {env : Env} {settings : IngestionSettings} {s s' : State}

/-- An admission that is not a replay leaves a record of its attempt, and the first one is assigned
the revision the API reports active. -/
structure PoliciesAgree (env : Env) (settings : IngestionSettings) (s : State) : Prop where
  unique : ∀ now, ∀ p ∈ s.catalog.policies, ∀ q ∈ s.catalog.policies, p.tenantId = q.tenantId →
    p.clusterId = q.clusterId → p.logicalCaseId = q.logicalCaseId →
    (Api.shown now s.catalog p).activationStatus = .active →
    (Api.shown now s.catalog q).activationStatus = .active → p = q
  recorded : ∀ ticket faults freshReceipt freshOutbox now receipt s' f,
    flightAt s.memory ticket true = some f →
    Step env settings s (.admitCommit ticket faults freshReceipt freshOutbox now)
      (.committed (.receipt receipt)) s' →
    receipt.replayed = false → ∃ r, s'.catalog.records.get f.attempt = some r
  assigned : ∀ ticket faults freshReceipt freshOutbox now a s' f r,
    flightAt s.memory ticket true = some f →
    Step env settings s (.admitCommit ticket faults freshReceipt freshOutbox now)
      (.committed a) s' →
    s.catalog.records.get f.attempt = none → s'.catalog.records.get f.attempt = some r →
    let policy := Api.governing f.principal.tenantId f.segment.clusterId f.segment.logicalCaseId
      now s.catalog
    r.firstAdmittedAt = now ∧
      r.retentionPolicyVersion = policy.map RetentionPolicyRevision.version ∧
      r.retentionExpiresAt = IngestionService.expiry now
        ((policy.map RetentionPolicyRevision.retentionSeconds).getD settings.defaultRetentionSeconds)

theorem recorded_first {f : IngestionService.Flight} {now : Instant} {c c' : Catalog}
    {r : AttemptRecord} (h : IngestionService.Admits settings f now c c')
    (hnone : c.records.get f.attempt = none) (hr : c'.records.get f.attempt = some r) :
    r = IngestionService.newRecord settings f.principal.tenantId f.segment now
      (IngestionService.selectPolicy f.principal.tenantId f.segment now c) := by
  obtain hsame | ⟨hrec, _⟩ := h
  · rw [hsame.records, hnone] at hr
    cases hr
  · obtain ⟨_, hget⟩ | ⟨r', hget, _⟩ := hrec.get_self
    · exact Option.some.inj (hr.symm.trans hget)
    · have hsome : c.records.get f.attempt = some r' := hget
      rw [hnone] at hsome
      cases hsome

theorem counted_get {tenantId : String} {segment : SegmentUpload} {committedAt : Instant}
    {t t' : Table AttemptRecord.attempt}
    (h : IngestionService.Counted tenantId segment committedAt t t') :
    ∃ r, t'.get (segment.attempt tenantId) = some r := by
  cases h with
  | @first settings policy h =>
    refine ⟨IngestionService.newRecord settings tenantId segment committedAt policy, ?_⟩
    exact (Table.get_insert h).trans (if_pos rfl)
  | @again r h =>
    have hkey : r.attempt = segment.attempt tenantId := Table.key_of_get h
    rw [← hkey] at h ⊢
    exact ⟨_, Table.get_modify_self h⟩

/-- Admission and API agree on the active policy, in every state. -/
theorem policies_agree (s : State) : PoliciesAgree env settings s where
  unique now p hp q hq ht hc hs hpa hqa := Api.active_unique hp hq ht hc hs hpa hqa
  recorded := by
    intro ticket faults freshReceipt freshOutbox now receipt s' f hf hstep hnew
    obtain ⟨_, _, ⟨a, ha, heff⟩ | ⟨hne, _⟩⟩ := step_cases hstep
    · cases ha
      generalize s'.catalog = c', s'.objects = w' at heff
      cases heff with
      | quiet hq => cases hq
      | admitCommit hf' h =>
        obtain rfl := Option.some.inj (hf.symm.trans hf')
        cases h with
        | replay => cases hnew
        | fresh _ _ _ _ _ _ _ _ hcounted => exact counted_get hcounted
    · exact absurd rfl (hne _)
  assigned := by
    intro ticket faults freshReceipt freshOutbox now a s' f r hf hstep hnone hr
    have heff := step_ledger hstep
    cases heff with
    | same h =>
      rw [h.records, hnone] at hr
      cases hr
    | admitted hf' h =>
      rw [hf] at hf'
      cases hf'
      rw [recorded_first h hnone hr, IngestionService.selectPolicy_eq_governing]
      exact ⟨rfl, rfl, rfl⟩

end Deployment

namespace Sample

/-- Two revisions for the cluster, one for a case, and an admission on its way. -/
def governed : List Call :=
  [.createRetentionPolicyRevision "acme" "c1" 3600 "admin" none none 1,
    .createRetentionPolicyRevision "acme" "c1" 7200 "admin" (some 4) none 2,
    .createRetentionPolicyRevision "acme" "c1" 10800 "admin" none (some "case") 3,
    .admitReserve 0 principal upload₁ 1 5, .admitPut 0 Faults.none]

end Sample

namespace Deployment

/-- The later revision of the cluster is the one that is assigned. -/
theorem policies_agree_sample : ∃ s s' r,
    runCalls Sample.env Sample.settings Sample.governed .initial = some s ∧
    runCalls Sample.env Sample.settings [.admitCommit 0 Faults.none 2 3 6] s = some s' ∧
    s.catalog.records.get Sample.attempt₁ = none ∧
    s'.catalog.records.get Sample.attempt₁ = some r ∧ r.retentionPolicyVersion = some 2 ∧
    PoliciesAgree Sample.env Sample.settings s := by
  have h : ((runCalls Sample.env Sample.settings Sample.governed .initial).bind (fun s =>
      (runCalls Sample.env Sample.settings [.admitCommit 0 Faults.none 2 3 6] s).map (fun s' =>
        ((s.catalog.records.get Sample.attempt₁).isNone,
          (s'.catalog.records.get Sample.attempt₁).map
            AttemptRecord.retentionPolicyVersion)))) = some (true, some (some 2)) := by
    decide +kernel
  obtain ⟨s, hs, h⟩ := Option.bind_eq_some_iff.mp h
  obtain ⟨s', hs', h⟩ := Option.map_eq_some_iff.mp h
  obtain ⟨hnone, h⟩ := Prod.mk.inj h
  obtain ⟨r, hr, hversion⟩ := Option.map_eq_some_iff.mp h
  exact ⟨s, s', r, hs, hs', Option.isNone_iff_eq_none.mp hnone, hr, hversion, policies_agree s⟩

end Deployment

end RankLens
