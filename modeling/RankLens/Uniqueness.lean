import RankLens.Entries
import RankLens.Leases

namespace RankLens

open Interleaving (Ending)
open IngestionService (Flight sameRange overlapFilter)

/-- An exception of the catalog, neither of `admit` itself nor of the decoder or the object store it
calls. -/
def Failure.ofCatalog : Failure → Bool
  | .integrity => true
  | .staleData => true
  | .lookup _ => true
  | _ => false

namespace IngestionService

variable {env : Env} {settings : IngestionSettings} {c : Catalog} {w : ObjectStore}
  {A : ObjectStore → Prop} {principal : MachinePrincipal} {segment : SegmentUpload} {f : Flight}
  {tenantId : String}

/-- The rows a transaction of `admit` can rely on. -/
structure Keyed (c : Catalog) : Prop where
  receipts : ∀ x ∈ c.manifests, x.receiptId ∈ c.issued
  reservations : ∀ x ∈ c.reservations, x.reservationId ∈ c.issued
  outbox : ∀ x ∈ c.outbox, x.outboxId ∈ c.issued
  ranges : Tables.reservations.NoClash c.reservations
  records : Tables.records.NoClash c.records

/-- Another attempt of the cluster has the scheduler identity of the segment. -/
def IdentityHeld (tenantId : String) (segment : SegmentUpload) (c : Catalog) : Prop :=
  ∃ r ∈ c.records, r.attempt ≠ segment.attempt tenantId ∧ r.tenantId = tenantId ∧
    r.clusterId = segment.clusterId ∧ r.schedulerSourceIdentity.isSome ∧
      r.schedulerSourceIdentity = segment.schedulerSourceIdentity

theorem countRecords_outside {lines : List Bytes} {n : Nat} {e : Failure}
    (h : countRecords env n lines = .error e) : e.ofCatalog = false := by
  induction lines generalizing n with
  | nil => cases h
  | cons line lines ih =>
    rw [countRecords] at h
    split at h
    · exact ih h
    · split at h
      · cases h
        rfl
      · cases h
        rfl
      · cases h
        rfl
      · cases hc : countRecords env (n + 1) lines with
        | ok k =>
          rw [hc] at h
          cases h
        | error e' =>
          rw [hc] at h
          cases h
          exact ih hc

theorem preparePayload_outside {e : Failure}
    (h : preparePayload env settings tenantId segment = .error e) : e.ofCatalog = false := by
  unfold preparePayload at h
  split at h
  · cases h
    rfl
  · split at h
    · cases h
      rfl
    · split at h
      · cases h
        rfl
      · split at h
        · cases h
          rfl
        · split at h
          · next hc =>
            cases h
            exact countRecords_outside hc
          · split at h <;> cases h
            rfl

theorem existsVerified_outside {faults : Faults} {key : ObjectKey} {sha256 : String} {e : Failure}
    (h : LocalObjectStore.existsVerified env faults key sha256 w = .error e) :
    e.ofCatalog = false := by
  unfold LocalObjectStore.existsVerified at h
  split at h
  · cases h
  · split at h
    · cases h
      rfl
    · split at h <;> cases h
      rfl

theorem putVerified_outside {faults : Faults} {key : ObjectKey} {payload : Bytes} {sha256 : String}
    {e : Failure} (h : (LocalObjectStore.putVerified env faults key payload sha256 w).1 = .error e) :
    e.ofCatalog = false := by
  unfold LocalObjectStore.putVerified at h
  split at h
  · cases h
    rfl
  · split at h
    · next hexists =>
      cases h
      exact existsVerified_outside hexists
    · cases h
    · split at h
      · cases h
        rfl
      · cases h
        rfl
      · cases h

theorem currentGeneration_untripped : (currentGeneration tenantId segment).wp A
    (fun x => x.ofCatalog = false)
    (fun _ c' w' => w' = w ∧ ∃ gens, c' = { c with generations := gens }) c w :=
  Txn.wp_post (currentGeneration_opened (fun _ _ _ => rfl))
    (fun _ _ _ ⟨hw, gens, _, hc⟩ => ⟨hw, gens, hc⟩)

theorem addReservation_untripped {p : PreparedPayload} {g : Nat} {fresh : Uuid} {now : Instant}
    (hids : ∀ r ∈ c.reservations, r.reservationId ∈ c.issued)
    (hfree : ∀ r ∈ c.reservations, sameRange principal.tenantId segment r = false) :
    (addReservation principal segment p g fresh now).wp A (fun x => x.ofCatalog = false)
      (fun _ _ _ => True) c w := by
  simp only [addReservation, Txn.wp_bind, wp_uuid4, Ref.wp_insert, Txn.wp_pure, implies_true,
    and_true]
  refine ⟨fun _ => rfl, fun hi ht => ?_⟩
  have hnew : Tables.reservations.taken (newReservation principal segment p g fresh now)
      { c with issued := fresh :: c.issued } = false := by
    refine Ref.taken_eq_false.mpr ⟨Table.get_eq_none.mpr (fun x hx hk => ?_), fun x hx => ?_⟩
    · have hid : x.reservationId = fresh := hk
      exact hi (hid ▸ hids x hx)
    · rw [sameRange_iff]
      exact hfree x hx
  rw [hnew] at ht
  cases ht

theorem clashes_of_sameRange {r r' : AdmissionReservation}
    (h : sameRange tenantId segment r = true) (h' : sameRange tenantId segment r' = true) :
    Tables.reservations.clashes r r' = true := by
  simp only [sameRange, Bool.and_eq_true, decide_eq_true_eq] at h h'
  simp [Ref.clashes, h, h']

theorem claimRange_untripped {p : PreparedPayload} {g : Nat} {fresh : Uuid} {now : Instant}
    (hc : Keyed c) : (claimRange principal segment p g fresh now).wp A
      (fun x => x.ofCatalog = false) (fun _ _ _ => True) c w := by
  simp only [claimRange, Txn.wp_bind, Ref.wp_select, Tables.reservations_view]
  cases hr : (c.reservations.select (sameRange principal.tenantId segment)).head? with
  | none =>
    refine addReservation_untripped hc.reservations (fun r hm => ?_)
    by_contra hsame
    exact List.ne_nil_of_mem (Table.mem_select.mpr ⟨hm, by simpa using hsame⟩)
      (List.head?_eq_none_iff.mp hr)
  | some old =>
    obtain ⟨hm, hsame⟩ := Table.mem_select.mp (List.mem_of_head? hr)
    have hterm : (do
        let _ ← Tables.reservations.deleteWhere (fun r => r.reservationId = old.reservationId)
        addReservation principal segment p g fresh now).wp A (fun x => x.ofCatalog = false)
          (fun _ _ _ => True) c w := by
      simp only [Txn.wp_bind, Ref.wp_deleteWhere, Tables.reservations_view, Tables.reservations_put]
      refine addReservation_untripped
        (fun r hr => hc.reservations r (Table.mem_deleteWhere.mp hr).1) (fun r hr => ?_)
      obtain ⟨hr, hid⟩ := Table.mem_deleteWhere.mp hr
      by_contra hrange
      have hold := hc.ranges r hr old hm (clashes_of_sameRange (by simpa using hrange) hsame)
      simp [hold] at hid
    cases hs : old.state with
    | committed =>
      simp only [hs, Txn.wp_raise]
      rfl
    | reserved =>
      simp only [hs, Txn.wp_bind, Txn.wp_raiseIf, Txn.wp_pure, implies_true, and_true]
      exact fun _ => rfl
    | expired => simpa only [hs] using hterm
    | fenced => simpa only [hs] using hterm
    | conflicted => simpa only [hs] using hterm

theorem admitReserve_untripped {fresh : Uuid} {now : Instant} (hc : Keyed c) :
    (admitReserve env settings principal segment fresh now).wp A (fun x => x.ofCatalog = false)
      (fun _ _ _ => True) c w := by
  simp only [admitReserve, assertScope, lockAdmission, Txn.wp_bind, Txn.wp_raiseIf, wp_orRaise,
    Txn.wp_lock, Ref.wp_select]
  refine ⟨fun _ => rfl, fun _ => ⟨fun e he => preparePayload_outside he, fun p hp => ?_⟩⟩
  refine Txn.wp_post currentGeneration_untripped ?_
  rintro g _ _ ⟨rfl, gens, rfl⟩
  refine ⟨fun _ => rfl, fun hg => ?_⟩
  simp only [Tables.manifests_view]
  cases hx : (c.manifests.select (exactFilter principal.tenantId segment)).head? with
  | some m =>
    simp only [Txn.wp_bind, Txn.wp_raiseIf, Txn.wp_pure, implies_true, and_true]
    exact fun _ => rfl
  | none =>
    simp only [Txn.wp_bind, Ref.wp_select, Txn.wp_raiseIf, Tables.manifests_view]
    exact ⟨fun _ => rfl, fun _ =>
      claimRange_untripped ⟨hc.receipts, hc.reservations, hc.outbox, hc.ranges, hc.records⟩⟩

theorem admitPut_untripped {faults : Faults} (hA : ∀ w, A w) : (admitPut env faults f).wp A
    (fun x => x.ofCatalog = false) (fun _ _ _ => True) c w := by
  simp only [admitPut, Txn.wp_bind, wp_putVerified]
  refine ⟨hA _, ?_⟩
  split
  · rfl
  · simp only [wp_orRaise, implies_true, and_true]
    exact fun e he => putVerified_outside he

theorem records_clashes {r x : AttemptRecord} : Tables.records.clashes r x = true ↔
    r.schedulerSourceIdentity.isSome ∧ x.tenantId = r.tenantId ∧ x.clusterId = r.clusterId ∧
      x.schedulerSourceIdentity = r.schedulerSourceIdentity := by
  simp only [Ref.clashes, Tables.records_unique, List.any_cons, List.any_nil, Bool.or_false,
    Bool.and_eq_true, Option.isSome_map, decide_eq_true_eq]
  refine and_congr_right (fun hsome => ?_)
  obtain ⟨i, hi⟩ := Option.isSome_iff_exists.mp hsome
  rw [hi]
  cases x.schedulerSourceIdentity with
  | none => simp
  | some j => simp [eq_comm]

theorem newRecord_free {committedAt : Instant} {policy : Option RetentionPolicyRevision}
    (hnone : c.records.get (segment.attempt tenantId) = none)
    (hheld : ¬IdentityHeld tenantId segment c) :
    Tables.records.taken (newRecord settings tenantId segment committedAt policy) c = false := by
  refine Ref.taken_eq_false.mpr ⟨hnone, fun x hx => ?_⟩
  by_contra hclash
  obtain ⟨hsome, htenant, hcluster, hidentity⟩ := records_clashes.mp (by simpa using hclash)
  refine hheld ⟨x, hx, Table.get_eq_none.mp hnone x hx, htenant, hcluster, ?_, hidentity⟩
  rw [hidentity]
  exact hsome

theorem admitAgain_free {committedAt : Instant} {r : AttemptRecord}
    (hget : c.records.get (segment.attempt tenantId) = some r)
    (hrecords : Tables.records.NoClash c.records) (hheld : ¬IdentityHeld tenantId segment c) :
    Tables.records.takenByOther r.attempt (admitAgain segment committedAt r r) c = false := by
  refine Ref.takenByOther_eq_false.mpr (fun x hx hne => ?_)
  by_contra hclash
  have hkey : r.attempt = segment.attempt tenantId := Table.key_of_get hget
  obtain ⟨hsome, htenant, hcluster, hidentity⟩ := records_clashes.mp (by simpa using hclash)
  rw [hkey] at hne
  have htenant' : x.tenantId = tenantId := htenant.trans (congrArg AttemptKey.tenantId hkey)
  have hcluster' : x.clusterId = segment.clusterId :=
    hcluster.trans (congrArg AttemptKey.clusterId hkey)
  cases hold : r.schedulerSourceIdentity with
  | some i =>
    -- the identity stays, and no other row had it before
    have hsame : (admitAgain segment committedAt r r).schedulerSourceIdentity = some i := by
      simp [admitAgain, hold]
    rw [hsame] at hidentity
    have heq := hrecords r (Table.mem_of_get hget) x hx
      (records_clashes.mpr ⟨by simp [hold], htenant, hcluster, hidentity.trans hold.symm⟩)
    exact hne (heq ▸ hkey)
  | none =>
    have hsame : (admitAgain segment committedAt r r).schedulerSourceIdentity =
        segment.schedulerSourceIdentity := by
      cases hi : segment.schedulerSourceIdentity <;> simp [admitAgain, hold, hi]
    rw [hsame] at hidentity hsome
    exact hheld ⟨x, hx, hne, htenant', hcluster', hidentity ▸ hsome, hidentity⟩

theorem recordAdmission_untripped {committedAt : Instant}
    (hrecords : Tables.records.NoClash c.records) (hheld : ¬IdentityHeld tenantId segment c) :
    (recordAdmission settings tenantId segment committedAt).wp A (fun x => x.ofCatalog = false)
      (fun _ c' w' => w' = w ∧ ∃ records, c' = { c with records := records }) c w := by
  simp only [recordAdmission, Txn.wp_bind, Ref.wp_get, Tables.records_view]
  split
  · next hnone =>
    simp only [Txn.wp_bind, Txn.wp_read, Ref.wp_insert, Tables.records_put, newRecord_free hnone hheld]
    exact ⟨by rintro ⟨⟩, fun _ => ⟨trivial, _, rfl⟩⟩
  · next r hsome =>
    simp only [bindField, Txn.wp_bind, Txn.wp_raiseIf, Ref.wp_updateUnique, Tables.records_view,
      Tables.records_put]
    refine ⟨fun _ => rfl, fun _ => ⟨fun _ => rfl, fun _ => ⟨fun _ => rfl, fun _ => ⟨?_, ?_⟩⟩⟩⟩
    · intro hnone
      rw [Table.key_of_get hsome, hsome] at hnone
      cases hnone
    · intro r' hr'
      rw [Table.key_of_get hsome, hsome] at hr'
      obtain rfl := Option.some.inj hr'
      rw [admitAgain_free hsome hrecords hheld]
      exact ⟨by rintro ⟨⟩, fun _ => ⟨trivial, _, rfl⟩⟩

theorem addManifest_untripped {r : AdmissionReservation} {g : Nat}
    {freshReceipt freshOutbox : Uuid} {committedAt : Instant} (hc : Keyed c)
    (hr : c.reservations.get f.reservationId = some r)
    (hover : ∀ m ∈ c.manifests, overlapFilter f.principal.tenantId f.segment m = false)
    (hheld : ¬IdentityHeld f.principal.tenantId f.segment c) :
    (addManifest settings f r g freshReceipt freshOutbox committedAt).wp A
      (fun x => x.ofCatalog = false) (fun _ _ _ => True) c w := by
  simp only [addManifest, Txn.wp_bind, wp_uuid4, Ref.wp_insert]
  refine ⟨fun _ => rfl, fun hi => ?_⟩
  have hnew : Tables.manifests.taken (newManifest f r g freshReceipt committedAt)
      { c with issued := freshReceipt :: c.issued } = false := by
    refine Ref.taken_eq_false.mpr ⟨Table.get_eq_none.mpr (fun x hx hk => ?_), fun x hx => ?_⟩
    · have hid : x.receiptId = freshReceipt := hk
      exact hi (hid ▸ hc.receipts x hx)
    · have hrange := hover x hx
      by_contra hclash
      have hclash := (Bool.not_eq_false _).mp hclash
      simp only [Ref.clashes, Tables.manifests_unique, List.any_cons, List.any_nil, Bool.or_false,
        Option.isSome_some, Bool.true_and, decide_eq_true_eq, Option.some.injEq, Lock.row.injEq,
        RowId.manifestRange.injEq] at hclash
      obtain ⟨hstream, hfirst, hlast⟩ := hclash
      have hordered := f.segment.valid.ordered
      have hoverlaps : overlapFilter f.principal.tenantId f.segment x = true := by
        simp only [overlapFilter, rangeFilter, Bool.and_eq_true, decide_eq_true_eq]
        exact ⟨⟨hstream.symm, hfirst ▸ hordered⟩, hlast ▸ hordered⟩
      rw [hoverlaps] at hrange
      cases hrange
  rw [hnew]
  refine ⟨by rintro ⟨⟩, fun _ => ?_⟩
  refine Txn.wp_post (recordAdmission_untripped hc.records hheld) ?_
  rintro _ _ _ ⟨rfl, records, rfl⟩
  simp only [Ref.wp_update, Txn.wp_pure, Tables.manifests_view, Tables.manifests_put,
    Tables.outbox_view, Tables.outbox_put, Tables.reservations_view, implies_true, and_true]
  refine ⟨fun _ => rfl, fun ho => ⟨fun htaken => ?_, fun _ hnone => ?_⟩⟩
  · refine absurd htaken (Bool.eq_false_iff.mp ?_)
    refine Ref.taken_eq_false.mpr ⟨Table.get_eq_none.mpr (fun x hx hk => ?_), fun x hx => ?_⟩
    · have hid : x.outboxId = freshOutbox := hk
      exact ho (List.mem_cons_of_mem _ (hid ▸ hc.outbox x hx))
    · simp [Ref.clashes]
  · rw [hr] at hnone
    cases hnone

theorem admitCommit_untripped {faults : Faults} {freshReceipt freshOutbox : Uuid}
    {committedAt : Instant} (hc : Keyed c) (hA : ∀ w, A w)
    (hheld : ¬IdentityHeld f.principal.tenantId f.segment c) :
    (admitCommit env settings faults f freshReceipt freshOutbox committedAt).wp A
      (fun x => x.ofCatalog = false) (fun _ _ _ => True) c w := by
  simp only [admitCommit, lockAdmission, Txn.wp_bind, Txn.wp_lock]
  refine Txn.wp_post currentGeneration_untripped ?_
  rintro g _ _ ⟨rfl, gens, rfl⟩
  simp only [Ref.wp_get, Tables.reservations_view]
  cases hr : c.reservations.get f.reservationId with
  | none => rfl
  | some r =>
    simp only [Txn.wp_bind, Txn.wp_raiseIf, Txn.wp_ite, Ref.wp_update, Txn.wp_raise,
      Tables.reservations_view]
    refine ⟨fun _ => rfl, fun hs => ⟨fun _ => ⟨fun hnone => ?_, fun _ _ => rfl⟩, fun hg => ?_⟩⟩
    · rw [hr] at hnone
      cases hnone
    · simp only [wp_existsVerified, wp_orRaise, Ref.wp_select, Tables.manifests_view]
      refine ⟨hA _, fun e he => existsVerified_outside he, fun present _ => ⟨fun _ => rfl, fun _ => ?_⟩⟩
      cases hm : (c.manifests.select (overlapFilter f.principal.tenantId f.segment)).head? with
      | none =>
        exact addManifest_untripped
          ⟨hc.receipts, hc.reservations, hc.outbox, hc.ranges, hc.records⟩ hr (none_of_head hm) hheld
      | some m =>
        simp only [Txn.wp_ite, Txn.wp_bind, Ref.wp_update, Txn.wp_pure, implies_true, and_true,
          Tables.reservations_view, Txn.wp_raise, hr]
        refine ⟨by rintro _ ⟨⟩, fun _ => ⟨by rintro ⟨⟩, fun _ _ => rfl⟩⟩

end IngestionService

namespace Deployment

variable {env : Env} {settings : IngestionSettings} {m : Memory} {c c' : Catalog}
  {w w' : ObjectStore} {s s' : State} {call : Call} {a : Reply} {x : Failure}

theorem effect_ranges (he : AdmissionEffect env m c w call a c')
    (hc : Tables.reservations.NoClash c.reservations) :
    Tables.reservations.NoClash c'.reservations := by
  cases he with
  | same _ hr => exact hr ▸ hc
  | @reserved _ principal segment fresh now p _ _ _ _ _ _ hr =>
    intro x hx y hy h
    obtain ⟨hx, hxr⟩ | hx := (hr x).mp hx <;> obtain ⟨hy, hyr⟩ | hy := (hr y).mp hy
    · exact hc x hx y hy h
    · rw [hy, Ref.clashes_comm, IngestionService.sameRange_iff, hxr] at h
      cases h
    · rw [hx, IngestionService.sameRange_iff, hyr] at h
      cases h
    · rw [hx, hy]
  | replayed _ _ _ _ _ _ hr =>
    rw [hr]
    exact Ref.noClash_modify_same (fun u hu r => by
      obtain rfl := List.mem_singleton.mp hu
      rfl) hc
  | admitted _ _ _ _ _ _ hr =>
    rw [hr]
    exact Ref.noClash_modify_same (fun u hu r => by
      obtain rfl := List.mem_singleton.mp hu
      rfl) hc
  | swept hrows _ hr =>
    intro x hx y hy h
    obtain ⟨hx, hxr⟩ | ⟨r, hrow, rfl⟩ := (hr x).mp hx <;>
      obtain ⟨hy, hyr⟩ | ⟨r', hrow', rfl⟩ := (hr y).mp hy
    · exact hc x hx y hy h
    · exact absurd (hc x hx r' (hrows r' hrow').1 h ▸ hrow') hxr
    · exact absurd (hc r (hrows r hrow).1 y hy h ▸ hrow) hyr
    · rw [hc r (hrows r hrow).1 r' (hrows r' hrow').1 h]
  | erased _ _ hr =>
    exact fun x hx y hy h => hc x ((hr x).mp hx).1 y ((hr y).mp hy).1 h

theorem keyed_of_reachable (h : Reachable env settings s) : IngestionService.Keyed s.catalog := by
  have sound := sound_of_reachable h
  refine ⟨sound.catalog.receipts, sound.catalog.reservations,
    (inPost_of_reachable h).catalog.issued, ?_, sound.records⟩
  induction h with
  | start => exact fun x hx => absurd hx (Table.not_mem_empty x)
  | step hr hs _ ih =>
    have hranges := ih (sound_of_reachable hr)
    obtain ⟨_, _, ⟨a, rfl, heff⟩ | ⟨_, hc, _⟩⟩ := step_cases hs
    · exact effect_ranges (effect_admission heff) hranges
    · exact hc ▸ hranges

def ofAdmit : Call → Bool
  | .admitReserve .. => true
  | .admitPut .. => true
  | .admitCommit .. => true
  | _ => false

/-- No other attempt of the cluster has the scheduler identity of the segment to be recorded. -/
def Unheld (s : State) : Call → Prop
  | .admitCommit ticket _ _ _ _ => ∀ f, flightAt s.memory ticket true = some f →
    ¬IngestionService.IdentityHeld f.principal.tenantId f.segment s.catalog
  | _ => True

/-- A transaction of `admit` ends with no exception of the catalog when no other attempt of its
cluster has the scheduler identity of its segment, and leaves the catalog as it was when it
raises. -/
theorem admission_untripped (hs : Reachable env settings s) (hcall : ofAdmit call = true)
    (hheld : Unheld s call) (h : Step env settings s call (.raised x) s') :
    x.ofCatalog = false ∧ s'.catalog = s.catalog := by
  have hkeyed := keyed_of_reachable hs
  have hcatalog : s'.catalog = s.catalog := by
    obtain ⟨_, _, ⟨a, hraise, _⟩ | ⟨_, hc, _⟩⟩ := step_cases h
    · cases hraise
    · exact hc
  refine ⟨raised_of_wp (E := fun x => x.ofCatalog = false) h (fun t ht => ?_), hcatalog⟩
  cases call with
  | admitReserve ticket principal segment fresh now =>
    simp only [program] at ht
    split at ht
    · cases ht
    · cases ht
      rw [Txn.wp_map]
      exact IngestionService.admitReserve_untripped hkeyed
  | admitPut ticket faults =>
    obtain ⟨f, -, rfl⟩ := Option.map_eq_some_iff.mp ht
    rw [Txn.wp_map]
    exact IngestionService.admitPut_untripped (fun _ => trivial)
  | admitCommit ticket faults freshReceipt freshOutbox committedAt =>
    obtain ⟨f, hf, rfl⟩ := Option.map_eq_some_iff.mp ht
    rw [Txn.wp_map]
    exact IngestionService.admitCommit_untripped hkeyed (fun _ => trivial) (hheld f hf)
  | _ => cases hcall

/-- A segment of an attempt that one scheduler job ran. -/
def bound (attemptId : String) (sequence : Nat) : SegmentFields :=
  { Sample.fields attemptId with
    schedulerSourceIdentity := some "slurm:c1:sluid:s1:s1"
    firstSequence := sequence
    lastSequence := sequence }

def bound₁ : SegmentUpload := ⟨bound "a1" 0, by constructor <;> decide⟩

def bound₂ : SegmentUpload := ⟨bound "a2" 1, by constructor <;> decide⟩

/-- The next segment of the first attempt, which names another job. -/
def rebound : SegmentUpload :=
  ⟨{ bound "a1" 1 with schedulerSourceIdentity := some "slurm:c1:sluid:s2:s2" },
    by constructor <;> decide⟩

theorem admission_untripped_rebound : ∃ s s' code message,
    Step Sample.env Sample.settings s (.admitCommit 1 Faults.none 6 7 8)
      (.raised (.admission code message 409 false)) s' ∧
    (Failure.admission code message 409 false).ofCatalog = false ∧ s'.catalog = s.catalog := by
  have hrun : (runCalls Sample.env Sample.settings
      [.admitReserve 0 Sample.principal bound₁ 1 0, .admitPut 0 Faults.none,
        .admitCommit 0 Faults.none 2 3 4, .admitReserve 1 Sample.principal rebound 5 5,
        .admitPut 1 Faults.none] .initial).bind (fun s =>
      (refusal Sample.env Sample.settings s (.admitCommit 1 Faults.none 6 7 8)).map (fun x =>
        (x.1, s.catalog.records.rows.map AttemptRecord.attempt,
          (flightAt s.memory 1 true).map Flight.attempt))) =
        some (.admission "attempt_identity_conflict"
          "scheduler_source_identity conflicts with the durable attempt identity" 409 false,
          [Sample.attempt₁], some Sample.attempt₁) := by
    decide +kernel
  obtain ⟨s, hs, hrefused⟩ := Option.bind_eq_some_iff.mp hrun
  obtain ⟨⟨x, s'⟩, hx, hfields⟩ := Option.map_eq_some_iff.mp hrefused
  simp only [Prod.mk.injEq] at hfields
  obtain ⟨rfl, hrecords, hflight⟩ := hfields
  have hheld : Unheld s (.admitCommit 1 Faults.none 6 7 8) := by
    rintro f hf ⟨r, hr, hne, -⟩
    have hown := List.mem_map_of_mem (f := AttemptRecord.attempt) hr
    rw [hrecords, List.mem_singleton] at hown
    rw [hf] at hflight
    exact hne (hown.trans (Option.some.inj hflight).symm)
  have hstep := step_of_refusal _ _ hx
  exact ⟨s, s', _, _, hstep,
    admission_untripped (run_of_runCalls _ _ .start hs) rfl hheld hstep⟩

/-- The second attempt of one scheduler identity trips the constraint of the attempt records. -/
theorem admission_tripped : ¬∀ (env : Env) (settings : IngestionSettings) (s s' : State)
    (call : Call) (x : Failure), Reachable env settings s → ofAdmit call = true →
      Step env settings s call (.raised x) s' → x.ofCatalog = false := by
  intro h
  have hrun : (runCalls Sample.env Sample.settings
      [.admitReserve 0 Sample.principal bound₁ 1 0, .admitPut 0 Faults.none,
        .admitCommit 0 Faults.none 2 3 4, .admitReserve 1 Sample.principal bound₂ 5 5,
        .admitPut 1 Faults.none] .initial).bind (fun s =>
      (refusal Sample.env Sample.settings s (.admitCommit 1 Faults.none 6 7 8)).map Prod.fst) =
        some .integrity := by
    decide +kernel
  obtain ⟨s, hs, hrefused⟩ := Option.bind_eq_some_iff.mp hrun
  obtain ⟨⟨x, s'⟩, hx, rfl⟩ := Option.map_eq_some_iff.mp hrefused
  exact absurd (h _ _ s s' _ _ (run_of_runCalls _ _ .start hs) rfl (step_of_refusal _ _ hx))
    (by decide)

end Deployment

end RankLens
