import RankLens.Policies
import RankLens.Counters

namespace RankLens

open IngestionService (Backfilled Migrating Recorded Admits newRecord newItem setRetention admitAgain
  selectPolicy expiry)

def RetentionPolicyBackfillItem.attempt (x : RetentionPolicyBackfillItem) : AttemptKey :=
  ⟨x.tenantId, x.clusterId, x.attemptId⟩

def AttemptRecord.assignment (r : AttemptRecord) : Option Nat × Option Instant :=
  (r.retentionPolicyVersion, r.retentionExpiresAt)

/-- Each item starts from what the one before it assigned. -/
def Chained (start : Option Nat × Option Instant) :
    List RetentionPolicyBackfillItem → Option Nat × Option Instant → Prop
  | [], last => start = last
  | x :: xs, last => (x.previousPolicyVersion, x.previousExpiresAt) = start ∧
      Chained (some x.newPolicyVersion, x.newExpiresAt) xs last

theorem Chained.append {start last : Option Nat × Option Instant}
    {xs : List RetentionPolicyBackfillItem} {x : RetentionPolicyBackfillItem}
    (h : Chained start xs last) (hx : (x.previousPolicyVersion, x.previousExpiresAt) = last) :
    Chained start (xs ++ [x]) (some x.newPolicyVersion, x.newExpiresAt) := by
  induction xs generalizing start with
  | nil =>
    obtain rfl : start = last := h
    exact ⟨hx, rfl⟩
  | cons y ys ih => exact ⟨h.1, ih h.2⟩

/-- The items of an attempt, in the order they were applied. -/
def itemsOf (k : AttemptKey) (c : Catalog) : List RetentionPolicyBackfillItem :=
  c.backfillItems.select (fun x => x.attempt = k)

def policyOf (c : Catalog) (r : AttemptRecord) : Option RetentionPolicyRevision :=
  r.retentionPolicyVersion.bind (fun v => c.policies.get ⟨r.tenantId, r.clusterId, v⟩)

/-- The seconds of the assigned revision, or of the configured default. -/
def retentionSeconds (settings : IngestionSettings) (c : Catalog) (r : AttemptRecord) : Nat :=
  ((policyOf c r).map RetentionPolicyRevision.retentionSeconds).getD settings.defaultRetentionSeconds

/-- The deadline follows from a revision of the attempt's cluster and scope. -/
structure Explained (settings : IngestionSettings) (c : Catalog) (r : AttemptRecord) : Prop where
  deadline : r.retentionExpiresAt = if retentionSeconds settings c r > 0
    then some (r.firstAdmittedAt + seconds (retentionSeconds settings c r)) else none
  assigned : ∀ v, r.retentionPolicyVersion = some v →
    ∃ p, c.policies.get ⟨r.tenantId, r.clusterId, v⟩ = some p ∧
      (p.logicalCaseId = none ∨ p.logicalCaseId = r.logicalCaseId)

/-- What is known of the attempt, when its first admission assigned `start`. -/
def Assigned (settings : IngestionSettings) (start : Option Nat × Option Instant) (k : AttemptKey)
    (c : Catalog) : Prop :=
  ∀ r, c.records.get k = some r →
    Explained settings c r ∧ Chained start (itemsOf k c) r.assignment

variable {settings : IngestionSettings} {start : Option Nat × Option Instant} {k : AttemptKey}
  {c c' : Catalog} {r r' : AttemptRecord} {p : RetentionPolicyRevision}

theorem Table.select_insert_eq {κ ρ : Type} [DecidableEq κ] {key : ρ → κ} {t : Table key} {x : ρ}
    {q : ρ → Bool} (h : t.get (key x) = none) :
    (t.insert x).select q = t.select q ++ if q x then [x] else [] := by
  have hn : key x ∉ t.rows.map key := by
    intro hm
    obtain ⟨y, hy, hk⟩ := List.mem_map.mp hm
    exact Table.get_eq_none.mp h y hy hk
  show (t.insert x).rows.filter q = _
  rw [Table.insert, dif_neg hn, List.filter_append]
  by_cases hq : q x = true <;> simp [hq, Table.select]

theorem policyOf_eq (hv : r.retentionPolicyVersion = some p.version) (ht : p.tenantId = r.tenantId)
    (hc : p.clusterId = r.clusterId) (hp : p ∈ c.policies) : policyOf c r = some p := by
  rw [policyOf, hv, Option.bind_some, ← ht, ← hc]
  exact Table.get_of_mem hp

theorem explained_of_policy (hv : r.retentionPolicyVersion = some p.version)
    (ht : p.tenantId = r.tenantId) (hc : p.clusterId = r.clusterId) (hp : p ∈ c.policies)
    (he : r.retentionExpiresAt = expiry r.firstAdmittedAt p.retentionSeconds)
    (hs : p.logicalCaseId = none ∨ p.logicalCaseId = r.logicalCaseId) : Explained settings c r where
  deadline := by
    rw [retentionSeconds, policyOf_eq hv ht hc hp]
    exact he
  assigned v hv' := by
    rw [hv] at hv'
    cases hv'
    refine ⟨p, ?_, hs⟩
    rw [← ht, ← hc]
    exact Table.get_of_mem hp

theorem explained_of_default (hv : r.retentionPolicyVersion = none)
    (he : r.retentionExpiresAt = expiry r.firstAdmittedAt settings.defaultRetentionSeconds) :
    Explained settings c r where
  deadline := by
    rw [retentionSeconds, policyOf, hv]
    exact he
  assigned v hv' := by
    rw [hv] at hv'
    cases hv'

theorem Explained.mono (h : Explained settings c r)
    (hp : ∀ k p, c.policies.get k = some p → c'.policies.get k = some p) : Explained settings c' r := by
  have hpolicy : policyOf c' r = policyOf c r := by
    cases hv : r.retentionPolicyVersion with
    | none => simp [policyOf, hv]
    | some v =>
      obtain ⟨p, hget, _⟩ := h.assigned v hv
      simp [policyOf, hv, hget, hp _ _ hget]
  refine ⟨?_, fun v hv => ?_⟩
  · rw [h.deadline, retentionSeconds, retentionSeconds, hpolicy]
  · obtain ⟨p, hget, hs⟩ := h.assigned v hv
    exact ⟨p, hp _ _ hget, hs⟩

theorem Assigned.mono (h : Assigned settings start k c) (hr : c'.records.get k = c.records.get k)
    (hi : c'.backfillItems = c.backfillItems)
    (hp : ∀ k p, c.policies.get k = some p → c'.policies.get k = some p) :
    Assigned settings start k c' := by
  intro r hget
  obtain ⟨he, hch⟩ := h r (hr ▸ hget)
  refine ⟨he.mono hp, ?_⟩
  rw [itemsOf, hi]
  exact hch

theorem Assigned.same (h : Assigned settings start k c) (hc : SameLedger c c') :
    Assigned settings start k c' :=
  h.mono (by rw [hc.records]) hc.backfillItems (fun _ _ hp => hc.policies ▸ hp)

/-- One attempt of a backfill extends the chain of this attempt only. -/
theorem Assigned.backfilled {id : Uuid} (h : Assigned settings start k c)
    (hmem : r ∈ c.records) (hb : Backfilled id p r c c') (hp : p ∈ c.policies)
    (ht : p.tenantId = r.tenantId) (hc : p.clusterId = r.clusterId)
    (hs : p.logicalCaseId = none ∨ r.logicalCaseId = p.logicalCaseId) :
    Assigned settings start k c' := by
  obtain ⟨hfresh, rfl⟩ := hb
  have hget := Table.get_of_mem hmem
  have hitems : itemsOf k { c with
      backfillItems := c.backfillItems.insert (newItem id p r)
      records := c.records.modify r.attempt (setRetention p r) (fun _ => rfl) } =
      itemsOf k c ++ if r.attempt = k then [newItem id p r] else [] := by
    refine (Table.select_insert_eq hfresh).trans ?_
    simp only [decide_eq_true_eq]
    rfl
  intro r' hget'
  by_cases hk : r.attempt = k
  · subst hk
    have hr' : r' = setRetention p r r := by
      have hmod : (c.records.modify r.attempt (setRetention p r) (fun _ => rfl)).get r.attempt =
          some (setRetention p r r) := Table.get_modify_self hget
      exact Option.some.inj (hget'.symm.trans hmod)
    subst hr'
    obtain ⟨_, hch⟩ := h r hget
    refine ⟨explained_of_policy rfl ht hc hp rfl (hs.imp_right Eq.symm), ?_⟩
    rw [hitems, if_pos rfl]
    exact hch.append rfl
  · have hold : c.records.get k = some r' := by
      have hmod : (c.records.modify r.attempt (setRetention p r) (fun _ => rfl)).get k =
          c.records.get k := Table.get_modify_of_ne (fun he => hk he.symm)
      exact hmod.symm.trans hget'
    obtain ⟨he, hch⟩ := h r' hold
    refine ⟨he.mono (fun _ _ hp => hp), ?_⟩
    rw [hitems, if_neg hk, List.append_nil]
    exact hch

/-- An attempt without a record has no items. -/
def Unassigned (k : AttemptKey) (c : Catalog) : Prop :=
  c.records.get k = none → itemsOf k c = []

theorem Unassigned.backfilled {id : Uuid} (h : Unassigned k c) (hmem : r ∈ c.records)
    (hb : Backfilled id p r c c') : Unassigned k c' := by
  obtain ⟨hfresh, rfl⟩ := hb
  intro hnone
  have hk : r.attempt ≠ k := by
    rintro rfl
    have hmod : (c.records.modify r.attempt (setRetention p r) (fun _ => rfl)).get r.attempt =
        some (setRetention p r r) := Table.get_modify_self (Table.get_of_mem hmem)
    rw [hmod] at hnone
    cases hnone
  have hold : c.records.get k = none := by
    have hmod : (c.records.modify r.attempt (setRetention p r) (fun _ => rfl)).get k =
        c.records.get k := Table.get_modify_of_ne (fun he => hk he.symm)
    exact hmod.symm.trans hnone
  refine (Table.select_insert_eq hfresh).trans ?_
  have hitem : (newItem id p r).attempt ≠ k := hk
  rw [show c.backfillItems.select (fun x => x.attempt = k) = [] from h hold]
  simp [hitem]

theorem Unassigned.same (h : Unassigned k c) (hc : SameLedger c c') : Unassigned k c' := by
  intro hnone
  rw [itemsOf, hc.backfillItems]
  exact h (hc.records ▸ hnone)

section migrating

variable {q : BackfillRequest} {now : Instant}

theorem IngestionService.Migrating.preserves {P : Catalog → Prop} (h : Migrating q now c c')
    (hsame : ∀ c c', SameLedger c c' → P c → P c')
    (hstep : ∀ id p r c c', r ∈ c.records → Backfilled id p r c c' → p ∈ c.policies →
      p.tenantId = r.tenantId → p.clusterId = r.clusterId →
      (p.logicalCaseId = none ∨ r.logicalCaseId = p.logicalCaseId) → P c → P c') (hc : P c) :
    P c' := by
  obtain @⟨plan, id, c₁, c₂, hd, h₁, hchain, h₂⟩ := h
  have hkey := Table.key_of_get hd.policy
  simp only [RetentionPolicyRevision.policy, PolicyKey.mk.injEq] at hkey
  have hstart : plan.policy ∈ c₁.policies ∧ P c₁ :=
    ⟨h₁.policies ▸ Table.mem_of_get hd.policy, hsame _ _ h₁ hc⟩
  have hend := hchain.preserves (P := fun c => plan.policy ∈ c.policies ∧ P c) (fun r hr c c' hb hP =>
    by
      obtain ⟨hmem, hb⟩ := hb
      obtain ⟨ht, hcl, _, hscope⟩ := hd.scope r hr
      refine ⟨?_, hstep id plan.policy r c c' hmem hb hP.1 (hkey.1.trans ht.symm)
        (hkey.2.1.trans hcl.symm) hscope hP.2⟩
      obtain ⟨_, rfl⟩ := hb
      exact hP.1) hstart
  exact hsame _ _ h₂ hend.2

theorem IngestionService.Migrating.get_none (h : Migrating q now c c') (hn : c.records.get k = none) :
    c'.records.get k = none := by
  refine h.preserves (P := fun c => c.records.get k = none) (fun c c' hc hn => hc.records ▸ hn) ?_ hn
  rintro id p r c _ hmem ⟨_, rfl⟩ _ _ _ _ hn
  have hk : k ≠ r.attempt := by
    rintro rfl
    rw [Table.get_of_mem hmem] at hn
    cases hn
  exact (Table.get_modify_of_ne hk).trans hn

end migrating

section admitting

variable {f : IngestionService.Flight} {now : Instant}

theorem explained_newRecord : Explained settings c (newRecord settings f.principal.tenantId
    f.segment now (selectPolicy f.principal.tenantId f.segment now c)) := by
  cases hp : selectPolicy f.principal.tenantId f.segment now c with
  | none => exact explained_of_default rfl rfl
  | some p =>
    obtain ⟨hmem, _⟩ := IngestionService.selectPolicy_eq_some hp
    obtain ⟨heff, hs⟩ := IngestionService.mem_applicable.mp hmem
    obtain ⟨hm, ht, hcl, _⟩ := Api.mem_effective.mp heff
    exact explained_of_policy rfl ht hcl hm rfl hs

/-- A case that is bound later keeps a revision of the whole cluster. -/
theorem Explained.again (h : Explained settings c r) :
    Explained settings c (admitAgain f.segment now r r) where
  deadline := h.deadline
  assigned v hv := by
    obtain ⟨p, hp, hs⟩ := h.assigned v hv
    refine ⟨p, hp, ?_⟩
    obtain hs | hs := hs
    · exact Or.inl hs
    · cases hcase : r.logicalCaseId with
      | none => exact Or.inl (hs.trans hcase)
      | some i => simp [admitAgain, hcase, hs]

theorem Assigned.admitted (h : Assigned settings start k c) (ha : Admits settings f now c c')
    (hsome : c.records.get k ≠ none) : Assigned settings start k c' := by
  obtain hsame | ⟨hrec, hp, _, hi, _⟩ := ha
  · exact h.same hsame
  · by_cases hk : f.segment.attempt f.principal.tenantId = k
    · subst hk
      obtain ⟨hnone, _⟩ | ⟨r, hget, hget'⟩ := hrec.get_self
      · exact absurd hnone hsome
      · intro r' hr'
        obtain rfl := Option.some.inj (hr'.symm.trans hget')
        obtain ⟨he, hch⟩ := h r hget
        refine ⟨he.again.mono (fun _ _ h => hp ▸ h), ?_⟩
        rw [itemsOf, hi]
        exact hch
    · exact h.mono (hrec.get_other hk) hi (fun _ _ h => hp ▸ h)

theorem assigned_first (ha : Admits settings f now c c') (hu : Unassigned k c)
    (hnone : c.records.get k = none) (hr : c'.records.get k = some r) :
    Assigned settings r.assignment k c' := by
  obtain hsame | ⟨hrec, hp, _, hi, _⟩ := ha
  · rw [hsame.records, hnone] at hr
    cases hr
  · have hk : f.segment.attempt f.principal.tenantId = k := by
      by_contra hk
      rw [hrec.get_other hk, hnone] at hr
      cases hr
    subst hk
    intro r' hr'
    obtain rfl := Option.some.inj (hr'.symm.trans hr)
    obtain ⟨_, hget⟩ | ⟨r₀, hget, _⟩ := hrec.get_self
    · obtain rfl := Option.some.inj (hr'.symm.trans hget)
      refine ⟨explained_newRecord.mono (fun _ _ h => hp ▸ h), ?_⟩
      rw [itemsOf, hi]
      have hitems : c.backfillItems.select
          (fun x => x.attempt = f.segment.attempt f.principal.tenantId) = [] := hu hnone
      rw [hitems]
      rfl
    · rw [hnone] at hget
      cases hget

theorem Unassigned.admitted (h : Unassigned k c) (ha : Admits settings f now c c') :
    Unassigned k c' := by
  obtain hsame | ⟨hrec, _, _, hi, _⟩ := ha
  · exact h.same hsame
  · intro hnone
    rw [itemsOf, hi]
    by_cases hk : f.segment.attempt f.principal.tenantId = k
    · subst hk
      obtain ⟨_, hget⟩ | ⟨_, _, hget⟩ := hrec.get_self
      · rw [hnone] at hget
        cases hget
      · rw [hnone] at hget
        cases hget
    · exact h (hrec.get_other hk ▸ hnone)

end admitting

namespace Deployment

open Interleaving (Ending)

variable {env : Env} {s s' : State} {call : Call} {e : Ending Failure Reply}

def spares (_ : State) (call : Call) (_ : Ending Failure Reply) : Prop :=
  ∀ l faults now, call ≠ .deletionExecute l faults now

def erases : Call → Bool
  | .deletionExecute .. => true
  | _ => false

theorem spares_of_erases (h : erases call = false) : spares s call e := by
  rintro l faults now rfl
  cases h

theorem assigned_step (hs : Step env settings s call e s') (hp : spares s call e)
    (hsome : s.catalog.records.get k ≠ none) (h : Assigned settings start k s.catalog) :
    Assigned settings start k s'.catalog := by
  obtain ⟨_, _, ⟨a, rfl, _⟩ | ⟨_, hc, _⟩⟩ := step_cases hs
  · have heff := step_ledger hs
    generalize s'.catalog = c' at heff ⊢
    cases heff with
    | same hsame => exact h.same hsame
    | admitted _ ha => exact h.admitted ha hsome
    | created hnew =>
      obtain ⟨hnone, rfl⟩ := hnew
      refine h.mono rfl rfl (fun k p hp => ?_)
      obtain ⟨hm, hk⟩ := Table.get_eq_some.mp hp
      exact Table.get_eq_some.mpr ⟨Table.mem_insert_of_mem hm, hk⟩
    | cancelled hx => cases hx <;> exact h.mono rfl rfl (fun _ _ hp => hp)
    | migrated hm =>
      exact hm.preserves (fun _ _ hc h => Assigned.same h hc)
        (fun id p r c c' hmem hb hp ht hcl hsc h =>
          Assigned.backfilled h hmem hb hp ht hcl hsc) h
    | erased => exact absurd rfl (hp _ _ _)
  · exact hc ▸ h

theorem unassigned_step (hs : Step env settings s call e s') (hp : spares s call e)
    (h : Unassigned k s.catalog) : Unassigned k s'.catalog := by
  obtain ⟨_, _, ⟨a, rfl, _⟩ | ⟨_, hc, _⟩⟩ := step_cases hs
  · have heff := step_ledger hs
    generalize s'.catalog = c' at heff ⊢
    cases heff with
    | same hsame => exact h.same hsame
    | admitted _ ha => exact h.admitted ha
    | created hnew =>
      obtain ⟨_, rfl⟩ := hnew
      exact h
    | cancelled hx => cases hx <;> exact h
    | migrated hm =>
      exact hm.preserves (fun _ _ hc h => Unassigned.same h hc)
        (fun id p r c c' hmem hb _ _ _ _ h => Unassigned.backfilled h hmem hb) h
    | erased => exact absurd rfl (hp _ _ _)
  · exact hc ▸ h

theorem admits_of_get (hs : Step env settings s call e s') (hp : spares s call e)
    (hnone : s.catalog.records.get k = none) (hr : s'.catalog.records.get k = some r) :
    ∃ ticket faults freshReceipt freshOutbox now f,
      call = .admitCommit ticket faults freshReceipt freshOutbox now ∧
        Admits settings f now s.catalog s'.catalog := by
  obtain ⟨_, _, ⟨a, rfl, _⟩ | ⟨_, hc, _⟩⟩ := step_cases hs
  · have heff := step_ledger hs
    generalize s'.catalog = c' at heff hr ⊢
    cases heff with
    | same hsame =>
      rw [hsame.records, hnone] at hr
      cases hr
    | admitted _ ha => exact ⟨_, _, _, _, _, _, rfl, ha⟩
    | created hnew =>
      obtain ⟨_, rfl⟩ := hnew
      rw [hnone] at hr
      cases hr
    | cancelled hx => cases hx <;> (rw [hnone] at hr; cases hr)
    | migrated hm =>
      rw [hm.get_none hnone] at hr
      cases hr
    | erased => exact absurd rfl (hp _ _ _)
  · rw [hc, hnone] at hr
    cases hr

/-- The first admission of an attempt in a run to `s`. -/
inductive FirstAdmitted (env : Env) (settings : IngestionSettings) (s : State) (k : AttemptKey)
    (r₀ : AttemptRecord) : Prop where
  | mk {s₁ s₂ : State} {ticket : Nat} {faults : Faults} {freshReceipt freshOutbox : Uuid}
      {now : Instant} {e : Ending Failure Reply} (h₁ : RunWhere env settings spares .initial s₁)
      (hs : Step env settings s₁ (.admitCommit ticket faults freshReceipt freshOutbox now) e s₂)
      (h₂ : RunWhere env settings spares s₂ s) (hnone : s₁.catalog.records.get k = none)
      (hr : s₂.catalog.records.get k = some r₀)

/-- The assignment of every attempt is explained, and reached from its first admission by
the chain of its backfill items. -/
structure AssignmentsExplained (env : Env) (settings : IngestionSettings) (s : State) : Prop where
  explained : ∀ r ∈ s.catalog.records, Explained settings s.catalog r
  chained : ∀ k r, s.catalog.records.get k = some r → ∃ r₀, FirstAdmitted env settings s k r₀ ∧
    Chained r₀.assignment (itemsOf k s.catalog) r.assignment

theorem assigned_of_run (h : RunWhere env settings spares .initial s) :
    Unassigned k s.catalog ∧ (s.catalog.records.get k ≠ none →
      ∃ r₀, FirstAdmitted env settings s k r₀ ∧ Assigned settings r₀.assignment k s.catalog) := by
  induction h with
  | start => exact ⟨fun _ => rfl, fun hn => absurd rfl hn⟩
  | @step s s' call e hr hs hp ih =>
    obtain ⟨hu, ha⟩ := ih
    refine ⟨unassigned_step hs hp hu, fun hsome => ?_⟩
    by_cases hnone : s.catalog.records.get k = none
    · obtain ⟨r, hget⟩ := Option.ne_none_iff_exists'.mp hsome
      obtain ⟨_, _, _, _, _, f, rfl, hadm⟩ := admits_of_get hs hp hnone hget
      exact ⟨r, ⟨hr, hs, .start, hnone, hget⟩, assigned_first hadm hu hnone hget⟩
    · obtain ⟨r₀, ⟨h₁, hs₁, h₂, hn, hr₀⟩, hassigned⟩ := ha hnone
      exact ⟨r₀, ⟨h₁, hs₁, h₂.step hs hp, hn, hr₀⟩, assigned_step hs hp hnone hassigned⟩

/-- Retention assignments stay explainable. -/
theorem assignments_explained (h : RunWhere env settings spares .initial s) :
    AssignmentsExplained env settings s := by
  have hkey : ∀ k r, s.catalog.records.get k = some r → ∃ r₀, FirstAdmitted env settings s k r₀ ∧
      Explained settings s.catalog r ∧ Chained r₀.assignment (itemsOf k s.catalog) r.assignment := by
    intro k r hr
    obtain ⟨r₀, hfirst, hassigned⟩ := (assigned_of_run h).2
      (fun hn : s.catalog.records.get k = none => by rw [hn] at hr; cases hr)
    exact ⟨r₀, hfirst, hassigned r hr⟩
  refine ⟨fun r hr => ?_, fun k r hr => ?_⟩
  · obtain ⟨_, _, he, _⟩ := hkey r.attempt r (Table.get_of_mem hr)
    exact he
  · obtain ⟨r₀, hfirst, _, hch⟩ := hkey k r hr
    exact ⟨r₀, hfirst, hch⟩

/-- An attempt that is admitted under the default and migrated to the first revision. -/
theorem assignments_explained_sample : ∃ s,
    runCalls { Sample.env with dumps := fun _ => Sample.payload } Sample.settings
      (Sample.admission ++ [.createRetentionPolicyRevision "acme" "c1" 3600 "admin" none none 5,
        .applyRetentionPolicyBackfill ⟨"acme", "c1", 1, 10, none, none⟩ 1 0 Sample.digest "admin"
          9 6]) .initial = some s ∧
    (s.catalog.records.get Sample.attempt₁).map AttemptRecord.assignment =
      some (some 1, some 3600000004) ∧
    AssignmentsExplained { Sample.env with dumps := fun _ => Sample.payload } Sample.settings s := by
  have h : (runCalls { Sample.env with dumps := fun _ => Sample.payload } Sample.settings
      (Sample.admission ++ [.createRetentionPolicyRevision "acme" "c1" 3600 "admin" none none 5,
        .applyRetentionPolicyBackfill ⟨"acme", "c1", 1, 10, none, none⟩ 1 0 Sample.digest "admin"
          9 6]) .initial).map (fun s =>
      (s.catalog.records.get Sample.attempt₁).map AttemptRecord.assignment) =
        some (some (some 1, some 3600000004)) := by decide +kernel
  obtain ⟨s, hs, ha⟩ := Option.map_eq_some_iff.mp h
  refine ⟨s, hs, ha, assignments_explained ?_⟩
  have hrun : runChecked { Sample.env with dumps := fun _ => Sample.payload } Sample.settings
      (fun _ call => !erases call) (Sample.admission ++
        [.createRetentionPolicyRevision "acme" "c1" 3600 "admin" none none 5,
        .applyRetentionPolicyBackfill ⟨"acme", "c1", 1, 10, none, none⟩ 1 0 Sample.digest "admin"
          9 6]) .initial = some s := hs
  exact runWhere_of_runChecked _ _ (fun _ call _ hc => spares_of_erases (by simpa using hc)) .start hrun

end Deployment

end RankLens
