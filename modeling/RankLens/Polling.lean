import RankLens.Assignments
import RankLens.Timeline

namespace RankLens

open Interleaving (Ending)

/-- One accounting record. `raw` is the text `_compact_raw` stores of it. -/
structure SchedulerAttempt where
  adapter : String
  adapterVersion : String
  clusterId : String
  sourceIdentity : String
  jobId : String
  arrayJobId : Option String
  arrayTaskId : Option String
  stepId : Option String
  restartCount : Int
  state : ExecutionState
  stateReason : Option String
  submittedAt : Option Instant
  startedAt : Option Instant
  endedAt : Option Instant
  allocatedNodes : Option Int
  allocatedCpus : Option Int
  account : Option String
  partition : Option String
  userRef : Option String
  observedAt : Instant
  raw : String
deriving DecidableEq, Repr

structure SchedulerReconcileResult where
  fetched : Nat
  inserted : Nat
  duplicates : Nat
deriving DecidableEq, Repr

namespace SchedulerReconciler

def observationFromAttempt (tenantId : String) (attempt : SchedulerAttempt) (now : Instant)
    (observationId : Uuid) : SchedulerObservation where
  observationId := observationId
  tenantId := tenantId
  clusterId := attempt.clusterId
  adapter := attempt.adapter
  adapterVersion := attempt.adapterVersion
  sourceIdentity := attempt.sourceIdentity
  jobId := attempt.jobId
  arrayJobId := attempt.arrayJobId
  arrayTaskId := attempt.arrayTaskId
  stepId := attempt.stepId
  restartCount := attempt.restartCount
  state := attempt.state.value
  stateReason := attempt.stateReason
  submittedAt := attempt.submittedAt
  startedAt := attempt.startedAt
  endedAt := attempt.endedAt
  allocatedNodes := attempt.allocatedNodes
  allocatedCpus := attempt.allocatedCpus
  account := attempt.account
  partition := attempt.partition
  userRef := attempt.userRef
  observedAt := attempt.observedAt
  rawJson := attempt.raw
  firstSeenAt := now

/-- The observation is of the same identity at the same instant. -/
def seen (tenantId : String) (a : SchedulerAttempt) (o : SchedulerObservation) : Bool :=
  o.tenantId = tenantId && o.clusterId = a.clusterId && o.sourceIdentity = a.sourceIdentity &&
    o.observedAt = a.observedAt

def boundTo (tenantId : String) (a : SchedulerAttempt) (r : AttemptRecord) : Bool :=
  r.tenantId = tenantId && r.clusterId = a.clusterId &&
    r.schedulerSourceIdentity = some a.sourceIdentity

/-- The attempt was not observed before, or not later. -/
def newer (t : Option Instant) (a : SchedulerAttempt) : Bool := t.all (fun t => t ≤ a.observedAt)

def setState (a : SchedulerAttempt) (r : AttemptRecord) : AttemptRecord :=
  { r with
    schedulerState := a.state.value
    schedulerObservedAt := some a.observedAt }

/-- Whether the observation is added. The accounting record comes with the identifier
`uuid4` chooses for it. -/
def addObservation (tenantId : String) (now : Instant) (a : SchedulerAttempt) (fresh : Uuid) :
    Tx Bool := do
  let existing ← Tables.observations.select (seen tenantId a)
  match existing.head? with
  | some _ => pure false
  | none => do
    let id ← uuid4 fresh
    Tables.observations.insert .integrity (observationFromAttempt tenantId a now id)
    pure true

def updateRecord (tenantId : String) (a : SchedulerAttempt) : Tx Unit := do
  let records ← Tables.records.select (boundTo tenantId a)
  match records.head? with
  | none => pure ()
  | some record =>
    if newer record.schedulerObservedAt a = true then
      Tables.records.update .staleData record.attempt (setState a)
    else pure ()

def reconcile (tenantId : String) (now : Instant) (a : SchedulerAttempt) (fresh : Uuid) :
    Tx Bool := do
  Txn.lock (.scheduler tenantId a.clusterId a.sourceIdentity)
  let added ← addObservation tenantId now a fresh
  updateRecord tenantId a
  pure added

/-- The counts of added and duplicate observations. -/
def reconcileAll (tenantId : String) (now : Instant) :
    List (SchedulerAttempt × Uuid) → Tx (Nat × Nat)
  | [] => pure (0, 0)
  | (a, fresh) :: rest => do
    let added ← reconcile tenantId now a fresh
    let (inserted, duplicates) ← reconcileAll tenantId now rest
    pure (if added = true then (inserted + 1, duplicates) else (inserted, duplicates + 1))

/-- The transaction of a poll, once the adapter has returned the attempts. -/
def pollOnce (tenantId : String) (attempts : List (SchedulerAttempt × Uuid)) (now : Instant) :
    Tx SchedulerReconcileResult := do
  let (inserted, duplicates) ← reconcileAll tenantId now attempts
  pure ⟨attempts.length, inserted, duplicates⟩

/-- What one accounting record does to the catalog. -/
structure Reconciled (tenantId : String) (now : Instant) (a : SchedulerAttempt) (c c' : Catalog) :
    Prop where
  observations : (∃ o ∈ c.observations, seen tenantId a o = true) ∧
      c'.observations = c.observations ∨
    (∀ o ∈ c.observations, seen tenantId a o = false) ∧ ∃ id, c.observations.get id = none ∧
      c'.observations = c.observations.insert (observationFromAttempt tenantId a now id)
  records : c'.records = c.records ∧ (∀ r ∈ (c.records.select (boundTo tenantId a)).head?,
      newer r.schedulerObservedAt a = false) ∨
    ∃ r ∈ c.records, boundTo tenantId a r = true ∧ newer r.schedulerObservedAt a = true ∧
      c'.records = c.records.modify r.attempt (setState a) (fun _ => rfl)
  generations : c'.generations = c.generations

variable {tenantId : String} {now : Instant} {a : SchedulerAttempt} {fresh : Uuid} {c : Catalog}
  {w : ObjectStore} {A : ObjectStore → Prop} {attempts : List (SchedulerAttempt × Uuid)}

theorem addObservation_spec : (addObservation tenantId now a fresh).wp A (fun _ => True)
    (fun _ c' _ => (c' = c ∧ ∃ o ∈ c.observations, seen tenantId a o = true) ∨
      (∀ o ∈ c.observations, seen tenantId a o = false) ∧ ∃ id, c.observations.get id = none ∧
        c' = { c with
          observations := c.observations.insert (observationFromAttempt tenantId a now id)
          issued := id :: c.issued }) c w := by
  simp only [addObservation, Txn.wp_bind, Ref.wp_select, Tables.observations_view]
  split
  · next o ho =>
    obtain ⟨hm, hs⟩ := Table.mem_select.mp (List.mem_of_head? ho)
    exact Or.inl ⟨rfl, o, hm, hs⟩
  · next hnone =>
    simp only [Txn.wp_bind, wp_uuid4, Ref.wp_insert, Txn.wp_pure, implies_true, true_and]
    intro _ hfree
    refine Or.inr ⟨fun o ho => ?_, fresh, (Ref.taken_eq_false.mp hfree).1, rfl⟩
    by_contra hs
    refine List.ne_nil_of_mem (a := o) ?_ (List.head?_eq_none_iff.mp hnone)
    exact Table.mem_select.mpr ⟨ho, eq_true_of_ne_false hs⟩

theorem updateRecord_spec : (updateRecord tenantId a).wp A (fun _ => True)
    (fun _ c' _ => (c' = c ∧ ∀ r ∈ (c.records.select (boundTo tenantId a)).head?,
        newer r.schedulerObservedAt a = false) ∨
      ∃ r ∈ c.records, boundTo tenantId a r = true ∧ newer r.schedulerObservedAt a = true ∧
        c' = { c with records := c.records.modify r.attempt (setState a) (fun _ => rfl) }) c w := by
  simp only [updateRecord, Txn.wp_bind, Ref.wp_select, Tables.records_view]
  split
  · next hnone =>
    rw [hnone]
    exact Or.inl ⟨rfl, fun r hr => nomatch hr⟩
  · next r hr =>
    obtain ⟨hm, hb⟩ := Table.mem_select.mp (List.mem_of_head? hr)
    simp only [Txn.wp_ite, Ref.wp_update, Txn.wp_pure, implies_true, true_and]
    refine ⟨fun hn _ _ => Or.inr ⟨r, hm, hb, hn, rfl⟩, fun hn => Or.inl (fun r' hr' => ?_)⟩
    obtain rfl := Option.some.inj (hr.symm.trans hr')
    exact eq_false_of_ne_true hn

theorem reconcile_spec : (reconcile tenantId now a fresh).wp A (fun _ => True)
    (fun _ c' _ => Reconciled tenantId now a c c') c w := by
  simp only [reconcile, Txn.wp_bind, Txn.wp_lock]
  refine Txn.wp_post addObservation_spec ?_
  intro _ c₁ w₁ h₁
  refine Txn.wp_post updateRecord_spec ?_
  intro _ c₂ _ h₂
  rw [Txn.wp_pure]
  have hobs : c₂.observations = c₁.observations ∧ c₂.generations = c₁.generations := by
    obtain ⟨rfl, _⟩ | ⟨_, _, _, _, rfl⟩ := h₂ <;> exact ⟨rfl, rfl⟩
  have hrec : c₁.records = c.records ∧ c₁.generations = c.generations := by
    obtain ⟨rfl, _⟩ | ⟨_, _, _, rfl⟩ := h₁ <;> exact ⟨rfl, rfl⟩
  refine ⟨?_, ?_, hobs.2.trans hrec.2⟩
  · rw [hobs.1]
    obtain ⟨rfl, hs⟩ | ⟨hs, id, hid, rfl⟩ := h₁
    · exact Or.inl ⟨hs, rfl⟩
    · exact Or.inr ⟨hs, id, hid, rfl⟩
  · rw [← hrec.1]
    obtain ⟨rfl, hold⟩ | ⟨r, hm, hb, hn, rfl⟩ := h₂
    · exact Or.inl ⟨rfl, hold⟩
    · exact Or.inr ⟨r, hm, hb, hn, rfl⟩

theorem reconcileAll_spec : (reconcileAll tenantId now attempts).wp A (fun _ => True)
    (fun _ c' _ => Txn.Chain (fun x c c' => Reconciled tenantId now x.1 c c') attempts c c') c w := by
  induction attempts generalizing c w with
  | nil => exact .nil
  | cons x rest ih =>
    simp only [reconcileAll, Txn.wp_bind]
    refine Txn.wp_post reconcile_spec ?_
    intro _ c' w' h
    refine Txn.wp_post ih ?_
    intro n c'' _ hrest
    rw [Txn.wp_pure]
    exact .cons h hrest

theorem boundTo_iff {r : AttemptRecord} : boundTo tenantId a r = true ↔ r.tenantId = tenantId ∧
    r.clusterId = a.clusterId ∧ r.schedulerSourceIdentity = some a.sourceIdentity := by
  simp [boundTo, and_assoc]

theorem seen_iff {o : SchedulerObservation} : seen tenantId a o = true ↔ o.tenantId = tenantId ∧
    o.clusterId = a.clusterId ∧ o.sourceIdentity = a.sourceIdentity ∧
    o.observedAt = a.observedAt := by
  simp [seen, and_assoc]

theorem boundTo_unique {r r' : AttemptRecord} (hc : Tables.records.NoClash c.records)
    (hr : r ∈ c.records) (hr' : r' ∈ c.records) (hb : boundTo tenantId a r = true)
    (hb' : boundTo tenantId a r' = true) : r = r' := by
  obtain ⟨ht, hcl, hi⟩ := boundTo_iff.mp hb
  obtain ⟨ht', hcl', hi'⟩ := boundTo_iff.mp hb'
  refine hc r hr r' hr' ?_
  simp [Ref.clashes, Tables.records_unique, ht, ht', hcl, hcl', hi, hi']

/-- The record after one accounting record. -/
def follow (tenantId : String) (r : AttemptRecord) (a : SchedulerAttempt) : AttemptRecord :=
  if boundTo tenantId a r && newer r.schedulerObservedAt a then setState a r else r

namespace Reconciled

variable {c' : Catalog}

theorem kept (h : Reconciled tenantId now a c c') {o : SchedulerObservation}
    (ho : o ∈ c.observations) : o ∈ c'.observations := by
  obtain ⟨_, he⟩ | ⟨_, _, _, he⟩ := h.observations
  · exact he ▸ ho
  · exact he ▸ Table.mem_insert_of_mem ho

theorem stored (h : Reconciled tenantId now a c c') : ∃ o ∈ c'.observations,
    seen tenantId a o = true ∧ (o ∈ c.observations ∨ o.state = a.state.value) := by
  obtain ⟨⟨o, ho, hs⟩, he⟩ | ⟨_, id, hid, he⟩ := h.observations
  · exact ⟨o, he ▸ ho, hs, Or.inl ho⟩
  · refine ⟨observationFromAttempt tenantId a now id, ?_, ?_, Or.inr rfl⟩
    · exact he ▸ (Table.mem_insert hid).mpr (Or.inr rfl)
    · exact seen_iff.mpr ⟨rfl, rfl, rfl, rfl⟩

theorem of_stored (h : Reconciled tenantId now a c c') {o : SchedulerObservation}
    (ho : o ∈ c'.observations) : o ∈ c.observations ∨ seen tenantId a o = true := by
  obtain ⟨_, he⟩ | ⟨hs, id, hid, he⟩ := h.observations
  · exact Or.inl (he ▸ ho)
  · rw [he] at ho
    obtain ho | rfl := (Table.mem_insert hid).mp ho
    · exact Or.inl ho
    · exact Or.inr (seen_iff.mpr ⟨rfl, rfl, rfl, rfl⟩)

theorem record (h : Reconciled tenantId now a c c') (hc : Tables.records.NoClash c.records)
    (k : AttemptKey) : c'.records.get k = (c.records.get k).map (fun r => follow tenantId r a) := by
  obtain ⟨he, hold⟩ | ⟨r, hm, hb, hn, he⟩ := h.records
  · rw [he]
    cases hr : c.records.get k with
    | none => rfl
    | some r =>
      have hsame : follow tenantId r a = r := by
        refine if_neg (fun hf => ?_)
        obtain ⟨hb, hn⟩ := (Bool.and_eq_true _ _).mp hf
        have hmem : r ∈ c.records.select (boundTo tenantId a) :=
          Table.mem_select.mpr ⟨Table.mem_of_get hr, hb⟩
        obtain ⟨r', hr'⟩ := Option.ne_none_iff_exists'.mp
          (fun hnone : (c.records.select (boundTo tenantId a)).head? = none =>
            List.ne_nil_of_mem hmem (List.head?_eq_none_iff.mp hnone))
        obtain ⟨hm', hb'⟩ := Table.mem_select.mp (List.mem_of_head? hr')
        obtain rfl := boundTo_unique hc (Table.mem_of_get hr) hm' hb hb'
        rw [hold r hr'] at hn
        cases hn
      rw [Option.map_some, hsame]
  · rw [he]
    by_cases hk : r.attempt = k
    · subst hk
      have hget := Table.get_of_mem hm
      rw [hget, Table.get_modify_self hget, Option.map_some, follow, hb, hn]
      rfl
    · rw [Table.get_modify_of_ne (fun he => hk he.symm)]
      cases hr : c.records.get k with
      | none => rfl
      | some r' =>
        have hsame : follow tenantId r' a = r' := by
          refine if_neg (fun hf => ?_)
          obtain ⟨hb', _⟩ := (Bool.and_eq_true _ _).mp hf
          obtain rfl := boundTo_unique hc hm (Table.mem_of_get hr) hb hb'
          exact hk (Table.key_of_get hr)
        rw [Option.map_some, hsame]

theorem noClash (h : Reconciled tenantId now a c c') (hc : Tables.records.NoClash c.records) :
    Tables.records.NoClash c'.records := by
  obtain ⟨he, _⟩ | ⟨r, _, _, _, he⟩ := h.records
  · exact he ▸ hc
  · rw [he]
    refine Ref.noClash_modify_same (fun u hu r => ?_) hc
    obtain rfl := List.mem_singleton.mp hu
    rfl

end Reconciled

abbrev Polled (tenantId : String) (now : Instant) (attempts : List SchedulerAttempt)
    (c c' : Catalog) : Prop :=
  Txn.Chain (fun a c c' => Reconciled tenantId now a c c') attempts c c'

/-- The latest attempt of those that are not older than `t`, the last one of them. -/
def winner (t : Option Instant) : List SchedulerAttempt → Option SchedulerAttempt
  | [] => none
  | a :: rest =>
    if newer t a = true then some ((winner (some a.observedAt) rest).getD a) else winner t rest

/-- The state stored for an attempt: that of the observation there is, or else of the
first attempt of the batch with its identity and instant. -/
def firstSeen (tenantId : String) (attempts : List SchedulerAttempt) (c : Catalog)
    (a : SchedulerAttempt) : Option String :=
  match (c.observations.select (seen tenantId a)).head? with
  | some o => some o.state
  | none => (attempts.find? (fun b => b.clusterId = a.clusterId &&
      b.sourceIdentity = a.sourceIdentity && b.observedAt = a.observedAt)).map (fun b => b.state.value)

/-- The attempt a record follows in the end is the one whose state is stored. -/
def Consistent (tenantId : String) (attempts : List SchedulerAttempt) (c : Catalog) : Prop :=
  ∀ r ∈ c.records, ∀ a,
    winner r.schedulerObservedAt (attempts.filter (fun a => boundTo tenantId a r)) = some a →
      firstSeen tenantId attempts c a = some a.state.value

theorem polled_of_chain {c' : Catalog}
    (h : Txn.Chain (fun x c c' => Reconciled tenantId now x.1 c c') attempts c c') :
    Polled tenantId now (attempts.map Prod.fst) c c' := by
  induction h with
  | nil => exact .nil
  | cons h _ ih => exact .cons h ih

namespace Polled

variable {xs : List SchedulerAttempt} {c' : Catalog}

theorem kept (h : Polled tenantId now xs c c') {o : SchedulerObservation}
    (ho : o ∈ c.observations) : o ∈ c'.observations :=
  h.preserves (P := fun c => o ∈ c.observations) (fun _ _ _ _ h ho => h.kept ho) ho

theorem noClash (h : Polled tenantId now xs c c') (hc : Tables.records.NoClash c.records) :
    Tables.records.NoClash c'.records :=
  h.preserves (P := fun c => Tables.records.NoClash c.records) (fun _ _ _ _ h hc => h.noClash hc) hc

theorem record (h : Polled tenantId now xs c c') (hc : Tables.records.NoClash c.records)
    (k : AttemptKey) : c'.records.get k = (c.records.get k).map (fun r =>
      xs.foldl (follow tenantId) r) := by
  induction h with
  | nil => simp
  | cons h _ ih => rw [ih (h.noClash hc), h.record hc, Option.map_map]; rfl

theorem foldl_follow {r : AttemptRecord} : xs.foldl (follow tenantId) r =
    ((winner r.schedulerObservedAt (xs.filter (fun a => boundTo tenantId a r))).map
      (fun a => setState a r)).getD r := by
  induction xs generalizing r with
  | nil => rfl
  | cons a xs ih =>
    have hbound : ∀ b, boundTo tenantId b (follow tenantId r a) = boundTo tenantId b r := by
      intro b
      unfold follow
      split <;> rfl
    rw [List.foldl_cons, ih]
    simp only [hbound]
    by_cases hb : boundTo tenantId a r = true
    · have hpos : (a :: xs).filter (fun b => boundTo tenantId b r) =
          a :: xs.filter (fun b => boundTo tenantId b r) := by simp [hb]
      rw [hpos, winner]
      by_cases hn : newer r.schedulerObservedAt a = true
      · have hfollow : follow tenantId r a = setState a r := by simp [follow, hb, hn]
        have ht : (setState a r).schedulerObservedAt = some a.observedAt := rfl
        rw [hfollow, if_pos hn, ht]
        cases winner (some a.observedAt) (xs.filter (fun b => boundTo tenantId b r)) with
        | none => rfl
        | some b => rfl
      · have hfollow : follow tenantId r a = r := by simp [follow, hn]
        rw [hfollow, if_neg hn]
    · have hfollow : follow tenantId r a = r := by simp [follow, hb]
      have hneg : (a :: xs).filter (fun b => boundTo tenantId b r) =
          xs.filter (fun b => boundTo tenantId b r) := by simp [hb]
      rw [hfollow, hneg]

theorem firstSeen_of_select {o : SchedulerObservation}
    (h : (c.observations.select (seen tenantId a)).head? = some o) :
    firstSeen tenantId xs c a = some o.state := by
  rw [firstSeen, h]

theorem firstSeen_of_none (h : ∀ o ∈ c.observations, seen tenantId a o = false) :
    firstSeen tenantId xs c a = (xs.find? (fun b => b.clusterId = a.clusterId &&
      b.sourceIdentity = a.sourceIdentity && b.observedAt = a.observedAt)).map
        (fun b => b.state.value) := by
  have hempty : c.observations.select (seen tenantId a) = [] := by
    refine List.eq_nil_iff_forall_not_mem.mpr (fun o ho => ?_)
    obtain ⟨hm, hs⟩ := Table.mem_select.mp ho
    rw [h o hm] at hs
    cases hs
  rw [firstSeen, hempty]
  rfl

theorem stored (h : Polled tenantId now xs c c') (ha : a ∈ xs) : ∃ o ∈ c'.observations,
    seen tenantId a o = true ∧ firstSeen tenantId xs c a = some o.state := by
  induction h with
  | nil => cases ha
  | @cons b xs c c₁ c' h hrest ih =>
    cases hhead : (c.observations.select (seen tenantId a)).head? with
    | some o =>
      obtain ⟨hm, hs⟩ := Table.mem_select.mp (List.mem_of_head? hhead)
      have hkept : Polled tenantId now (b :: xs) c c' := .cons h hrest
      exact ⟨o, hkept.kept hm, hs, firstSeen_of_select hhead⟩
    | none =>
      have hnew : ∀ o ∈ c.observations, seen tenantId a o = false := by
        intro o ho
        by_contra hs
        exact List.ne_nil_of_mem (Table.mem_select.mpr ⟨ho, eq_true_of_ne_false hs⟩)
          (List.head?_eq_none_iff.mp hhead)
      rw [firstSeen_of_none hnew, List.find?_cons]
      by_cases hb : (b.clusterId = a.clusterId && b.sourceIdentity = a.sourceIdentity &&
          b.observedAt = a.observedAt) = true
      · rw [hb]
        have hkey := hb
        simp only [Bool.and_eq_true, decide_eq_true_eq] at hkey
        obtain ⟨⟨hcl, hi⟩, ht⟩ := hkey
        have hseen : ∀ o, seen tenantId b o = seen tenantId a o := by
          intro o
          simp [seen, hcl, hi, ht]
        obtain ⟨o, ho, hs, hold | hstate⟩ := h.stored
        · rw [hseen, hnew o hold] at hs
          cases hs
        · refine ⟨o, Polled.kept hrest ho, hseen o ▸ hs, ?_⟩
          rw [hstate]
          rfl
      · have hmem : a ∈ xs := by
          obtain rfl | hmem := List.mem_cons.mp ha
          · simp at hb
          · exact hmem
        have hnew₁ : ∀ o ∈ c₁.observations, seen tenantId a o = false := by
          intro o ho
          obtain hold | hs := h.of_stored ho
          · exact hnew o hold
          · by_contra hs'
            obtain ⟨_, hcl, hi, ht⟩ := seen_iff.mp hs
            obtain ⟨_, hcl', hi', ht'⟩ := seen_iff.mp (eq_true_of_ne_false hs')
            refine hb ?_
            simp [← hcl, ← hi, ← ht, hcl', hi', ht']
        rw [eq_false_of_ne_true hb]
        obtain ⟨o, ho, hs, hstate⟩ := ih hmem
        rw [firstSeen_of_none hnew₁] at hstate
        exact ⟨o, ho, hs, hstate⟩

theorem winner_mem {t : Option Instant} (h : winner t xs = some a) : a ∈ xs := by
  induction xs generalizing t with
  | nil => cases h
  | cons b xs ih =>
    rw [winner] at h
    split at h
    · cases hw : winner (some b.observedAt) xs with
      | none =>
        rw [hw] at h
        cases h
        exact List.mem_cons_self ..
      | some d =>
        rw [hw] at h
        cases h
        exact List.mem_cons_of_mem _ (ih hw)
    · exact List.mem_cons_of_mem _ (ih h)

theorem winner_newer {t : Option Instant} (h : winner t xs = some a) : newer t a = true := by
  induction xs generalizing t with
  | nil => cases h
  | cons b xs ih =>
    rw [winner] at h
    split at h
    · next hn =>
      cases hw : winner (some b.observedAt) xs with
      | none =>
        rw [hw] at h
        cases h
        exact hn
      | some d =>
        rw [hw] at h
        cases h
        have hle := ih hw
        cases t with
        | none => rfl
        | some t =>
          simp only [newer, Option.all_some, decide_eq_true_eq] at hn hle ⊢
          exact hn.trans hle
    · exact ih h

end Polled

end SchedulerReconciler

end RankLens
