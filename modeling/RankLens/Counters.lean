import RankLens.Evidence
import RankLens.Ownership

namespace RankLens

open Interleaving (Ending)
open IngestionService (Counted)
open AttemptDeletionWorker (RowsErased)

namespace Deployment

variable {env : Env} {settings : IngestionSettings} {m : Memory} {s s' : State} {call : Call}
  {a : Reply} {e : Ending Failure Reply} {c c' : Catalog} {w w' : ObjectStore} {k : AttemptKey}

def manifestsOf (k : AttemptKey) (c : Catalog) : List SegmentManifest :=
  c.manifests.select (fun x => x.attempt = k)

/-- The record of the attempt counts its manifests. -/
structure Tallied (k : AttemptKey) (c : Catalog) : Prop where
  recorded : (∃ r, c.records.get k = some r) ↔ ∃ x ∈ c.manifests, x.attempt = k
  segments : ∀ r, c.records.get k = some r → r.segmentCount = (manifestsOf k c).length
  records : ∀ r, c.records.get k = some r →
    r.recordCount = ((manifestsOf k c).map SegmentManifest.recordCount).sum

theorem Tallied.same (h : Tallied k c) (hm : ∀ x, x.attempt = k → (x ∈ c'.manifests ↔ x ∈ c.manifests))
    (hr : (c'.records.get k).map AttemptRecord.tally = (c.records.get k).map AttemptRecord.tally) :
    Tallied k c' := by
  have hperm : (manifestsOf k c').Perm (manifestsOf k c) :=
    Table.select_perm (fun x hx => hm x (by simpa using hx))
  have hget : ∀ r, c'.records.get k = some r → ∃ r₀, c.records.get k = some r₀ ∧ r.tally = r₀.tally := by
    intro r hr'
    rw [hr', Option.map_some] at hr
    obtain ⟨r₀, hr₀, ht⟩ := Option.map_eq_some_iff.mp hr.symm
    exact ⟨r₀, hr₀, ht.symm⟩
  refine ⟨?_, fun r hr' => ?_, fun r hr' => ?_⟩
  · rw [← Option.isSome_iff_exists, ← Option.isSome_map (f := AttemptRecord.tally), hr,
      Option.isSome_map, Option.isSome_iff_exists, h.recorded]
    constructor
    · intro ⟨x, hx, hk⟩
      exact ⟨x, (hm x hk).mpr hx, hk⟩
    · intro ⟨x, hx, hk⟩
      exact ⟨x, (hm x hk).mp hx, hk⟩
  · obtain ⟨r₀, hr₀, ht⟩ := hget r hr'
    rw [hperm.length_eq, ← h.segments r₀ hr₀]
    exact congrArg (fun x => x.2.1) ht
  · obtain ⟨r₀, hr₀, ht⟩ := hget r hr'
    rw [(hperm.map _).sum_nat, ← h.records r₀ hr₀]
    exact congrArg (fun x => x.2.2) ht

theorem Tallied.counted {x : SegmentManifest} {tenantId : String} {segment : SegmentUpload}
    {committedAt : Instant} (h : Tallied (segment.attempt tenantId) c)
    (hx : x.attempt = segment.attempt tenantId) (hn : x.recordCount = segment.recordCount)
    (hget : c.manifests.get x.receiptId = none) (hm : c'.manifests = c.manifests.insert x)
    (hr : Counted tenantId segment committedAt c.records c'.records) :
    Tallied (segment.attempt tenantId) c' := by
  have hperm : (manifestsOf (segment.attempt tenantId) c').Perm
      (x :: manifestsOf (segment.attempt tenantId) c) := by
    rw [manifestsOf, hm]
    exact Table.select_insert hget (by simpa using hx)
  have hmem : ∃ y ∈ c'.manifests, y.attempt = segment.attempt tenantId :=
    ⟨x, hm ▸ (Table.mem_insert hget).mpr (Or.inr rfl), hx⟩
  have hcounts : ∃ r, c'.records.get (segment.attempt tenantId) = some r ∧
      r.segmentCount = (manifestsOf (segment.attempt tenantId) c).length + 1 ∧
      r.recordCount = ((manifestsOf (segment.attempt tenantId) c).map
        SegmentManifest.recordCount).sum + segment.recordCount := by
    generalize c'.records = t at hr
    cases hr with
    | @first settings policy hnone =>
      refine ⟨_, (Table.get_insert hnone).trans (if_pos rfl), ?_⟩
      have hempty : manifestsOf (segment.attempt tenantId) c = [] := by
        refine List.eq_nil_iff_forall_not_mem.mpr (fun y hy => ?_)
        obtain ⟨hy, hk⟩ := Table.mem_select.mp hy
        obtain ⟨r, hr⟩ := h.recorded.mpr ⟨y, hy, by simpa using hk⟩
        rw [hnone] at hr
        cases hr
      rw [hempty]
      exact ⟨rfl, (Nat.zero_add _).symm⟩
    | @again r hsome =>
      rw [Table.key_of_get hsome]
      refine ⟨_, Table.get_modify_self hsome, ?_, ?_⟩
      · rw [← h.segments r hsome]
        rfl
      · rw [← h.records r hsome]
        rfl
  obtain ⟨r, hget', hsegments, hrecords⟩ := hcounts
  refine ⟨⟨fun _ => hmem, fun _ => ⟨r, hget'⟩⟩, fun r' hr' => ?_, fun r' hr' => ?_⟩
  · rw [hget'] at hr'
    cases hr'
    rw [hperm.length_eq, hsegments, List.length_cons]
  · rw [hget'] at hr'
    cases hr'
    rw [(hperm.map _).sum_nat, hrecords, List.map_cons, List.sum_cons, hn]
    omega

theorem tallied_empty : Tallied k .empty where
  recorded := by
    constructor
    · intro ⟨r, hr⟩
      cases hr
    · intro ⟨x, hx, _⟩
      exact absurd hx (Table.not_mem_empty x)
  segments _ h := nomatch h
  records _ h := nomatch h

theorem records_kept {k' : AttemptKey} (h : RowsErased k' c c') (hk : k' ≠ k) :
    c'.records.get k = c.records.get k := by
  refine Table.get_congr (fun r hr => ?_)
  rw [h.records]
  exact ⟨And.left, fun hmem => ⟨hmem, fun he => hk (he.symm.trans hr)⟩⟩

theorem Tallied.erased {l : DeletionLease} (h : Tallied k c) (hrows : RowsErased l.attempt c c') :
    Tallied k c' := by
  by_cases hk : l.attempt = k
  · subst hk
    have hnone : ∀ r, c'.records.get l.attempt ≠ some r := fun r hr =>
      ((hrows.records r).mp (Table.mem_of_get hr)).2 (Table.key_of_get hr)
    refine ⟨⟨fun ⟨r, hr⟩ => absurd hr (hnone r), fun ⟨x, hx, hk⟩ => ?_⟩,
      fun r hr => absurd hr (hnone r), fun r hr => absurd hr (hnone r)⟩
    exact absurd hk ((hrows.manifests x).mp hx).2
  · refine h.same (fun x hx => ?_) (congrArg _ (records_kept hrows hk))
    rw [hrows.manifests]
    exact ⟨And.left, fun hmem => ⟨hmem, fun he => hk (he.symm.trans hx)⟩⟩

theorem counted_other {tenantId : String} {segment : SegmentUpload} {committedAt : Instant}
    {t t' : Table AttemptRecord.attempt} (h : Counted tenantId segment committedAt t t')
    (hk : segment.attempt tenantId ≠ k) : t'.get k = t.get k := by
  cases h with
  | first hnone =>
    exact (Table.get_insert hnone).trans (if_neg hk)
  | again hsome =>
    refine (Table.get_modify ..).trans (if_neg ?_)
    rw [Table.key_of_get hsome]
    exact fun he => hk he.symm

theorem tallied_effect (he : EvidenceEffect env m c w call a c' w') (h : Tallied k c) :
    Tallied k c' := by
  cases he with
  | same he => exact h.same (fun x _ => by rw [he.manifests]) (he.records k)
  | @admitted _ _ _ _ _ _ f _ _ _ _ _ _ _ _ hget hm _ _ hr =>
    by_cases hk : f.segment.attempt f.principal.tenantId = k
    · subst hk
      exact h.counted rfl rfl hget hm hr
    · refine h.same (fun x hx => ?_) (congrArg _ (counted_other hr hk))
      rw [hm, Table.mem_insert hget, or_iff_left]
      rintro rfl
      exact hk hx
  | leased => exact h.same (fun _ _ => Iff.rfl) rfl
  | failed => exact h.same (fun _ _ => Iff.rfl) rfl
  | normalized _ hn => cases hn <;> exact h.same (fun _ _ => Iff.rfl) rfl
  | reported _ hp => cases hp <;> exact h.same (fun _ _ => Iff.rfl) rfl
  | erased _ hrows =>
    exact (h.erased hrows).same (fun _ _ => Iff.rfl) rfl

theorem tallied_step (hs : Step env settings s call e s') (h : Tallied k s.catalog) :
    Tallied k s'.catalog := by
  obtain ⟨_, _, ⟨a, rfl, _⟩ | ⟨_, hc, _⟩⟩ := step_cases hs
  · exact tallied_effect (step_evidence hs) h
  · exact hc ▸ h

theorem tallied_of_reachable (h : Reachable env settings s) : Tallied k s.catalog := by
  induction h with
  | start => exact tallied_empty
  | step _ hs _ ih => exact tallied_step hs ih

def admits : Call → Bool
  | .admitReserve .. => true
  | .admitPut .. => true
  | .admitCommit .. => true
  | .admitCrash .. => true
  | _ => false

theorem sameTally_of_step (hs : Step env settings s call e s') (ha : admits call = true)
    (hr : ∀ r, e = .committed (.receipt r) → r.replayed = true) :
    SameTally s.catalog.records s'.catalog.records := by
  obtain ⟨_, _, ⟨a, rfl, _⟩ | ⟨_, hc, _⟩⟩ := step_cases hs
  · have heff := step_evidence hs
    generalize s'.catalog = c', s'.objects = w' at heff
    cases heff with
    | same he => exact he.records
    | admitted => cases hr _ rfl
    | leased => exact .refl _
    | failed => exact .refl _
    | normalized => cases ha
    | reported => cases ha
    | erased => cases ha
  · rw [hc]
    exact .refl _

/-- What the first bindings fix, the second repeat. -/
structure Binds (b b' : Option String × Option String × Option String) : Prop where
  workflow : ∀ v, b.1 = some v → b'.1 = some v
  case : ∀ v, b.2.1 = some v → b'.2.1 = some v
  identity : ∀ v, b.2.2 = some v → b'.2.2 = some v

theorem Binds.refl (b : Option String × Option String × Option String) : Binds b b :=
  ⟨fun _ h => h, fun _ h => h, fun _ h => h⟩

/-- The record of the attempt repeats the bindings, or is gone for good. -/
def Bound (k : AttemptKey) (b : Option String × Option String × Option String) (c : Catalog) :
    Prop :=
  (∃ r, c.records.get k = some r ∧ Binds b r.tally.1) ∨ (c.records.get k = none ∧ Fenced k c)

theorem binds_admitAgain {b : Option String × Option String × Option String} {r : AttemptRecord}
    {segment : SegmentUpload} {committedAt : Instant} (h : Binds b r.tally.1) :
    Binds b (IngestionService.admitAgain segment committedAt r r).tally.1 := by
  obtain ⟨hw, hc, hi⟩ := h
  dsimp only [AttemptRecord.tally] at hw hc hi
  refine ⟨fun v hv => ?_, fun v hv => ?_, fun v hv => ?_⟩
  · simp [AttemptRecord.tally, IngestionService.admitAgain, hw v hv]
  · simp [AttemptRecord.tally, IngestionService.admitAgain, hc v hv]
  · simp [AttemptRecord.tally, IngestionService.admitAgain, hi v hv]

theorem Bound.same {b : Option String × Option String × Option String} (h : Bound k b c)
    (hr : (c'.records.get k).map AttemptRecord.tally = (c.records.get k).map AttemptRecord.tally)
    (hf : Fenced k c → Fenced k c') : Bound k b c' := by
  obtain ⟨r, hget, hb⟩ | ⟨hnone, hfenced⟩ := h
  · rw [hget, Option.map_some] at hr
    obtain ⟨r', hr', ht⟩ := Option.map_eq_some_iff.mp hr
    exact Or.inl ⟨r', hr', ht ▸ hb⟩
  · rw [hnone, Option.map_none] at hr
    exact Or.inr ⟨Option.map_eq_none_iff.mp hr, hf hfenced⟩

theorem counted_binds {b : Option String × Option String × Option String} {tenantId : String}
    {segment : SegmentUpload} {committedAt : Instant} {t t' : Table AttemptRecord.attempt}
    {r : AttemptRecord} (h : Counted tenantId segment committedAt t t')
    (hget : t.get (segment.attempt tenantId) = some r) (hb : Binds b r.tally.1) :
    ∃ r', t'.get (segment.attempt tenantId) = some r' ∧ Binds b r'.tally.1 := by
  cases h with
  | first hnone =>
    rw [hnone] at hget
    cases hget
  | again hsome =>
    rw [hget] at hsome
    cases hsome
    rw [Table.key_of_get hget]
    exact ⟨_, Table.get_modify_self hget, binds_admitAgain hb⟩

theorem not_fenced_of_commits {f : IngestionService.Flight} {r : AdmissionReservation}
    {gens : Table AttemptGeneration.attempt} (h : IngestionService.Commits f c r gens) :
    ¬Fenced (f.segment.attempt f.principal.tenantId) c := by
  intro hf
  obtain ⟨g, hg, hk, hd⟩ := hf
  have hget := hk ▸ Table.get_of_mem hg
  have ho := h.opened
  generalize f.segment.deletionGeneration = n at ho
  cases ho with
  | first hnone =>
    rw [hnone] at hget
    cases hget
  | live hlive hlived => exact not_fenced_of_live hlive hlived ⟨g, hg, hk, hd⟩

theorem bound_effect {b : Option String × Option String × Option String}
    (he : EvidenceEffect env m c w call a c' w') (hf : ∀ k, Fenced k c → Fenced k c')
    (h : Bound k b c) : Bound k b c' := by
  cases he with
  | same he => exact h.same (he.records k) (hf k)
  | @admitted _ _ _ _ _ committedAt f _ _ _ _ hc _ _ _ _ _ _ _ hr =>
    by_cases hk : f.segment.attempt f.principal.tenantId = k
    · subst hk
      obtain ⟨r, hget, hb⟩ | ⟨_, hfenced⟩ := h
      · exact Or.inl (counted_binds hr hget hb)
      · exact absurd hfenced (not_fenced_of_commits hc)
    · exact h.same (congrArg _ (counted_other hr hk)) (hf k)
  | leased => exact h.same rfl (hf k)
  | failed => exact h.same rfl (hf k)
  | normalized _ hn => cases hn <;> exact h.same rfl (hf k)
  | reported _ hp => cases hp <;> exact h.same rfl (hf k)
  | @erased l _ _ _ _ _ hc hrows =>
    by_cases hk : l.attempt = k
    · subst hk
      refine Or.inr ⟨Option.eq_none_iff_forall_ne_some.mpr (fun r hr => ?_),
        hf _ (fenced_of_cleared hc)⟩
      exact ((hrows.records r).mp (Table.mem_of_get hr)).2 (Table.key_of_get hr)
    · have hkept := records_kept hrows hk
      exact h.same (congrArg _ hkept) (hf k)

theorem bound_step {b : Option String × Option String × Option String}
    (hs : Step env settings s call e s') (h : Bound k b s.catalog) : Bound k b s'.catalog := by
  obtain ⟨_, _, ⟨a, rfl, heff⟩ | ⟨_, hc, _⟩⟩ := step_cases hs
  · exact bound_effect (step_evidence hs)
      (fun _ hf => fenced_mono (lifecycle_aging (effect_lifecycle heff)) hf) h
  · exact hc ▸ h

theorem bound_of_run {b : Option String × Option String × Option String}
    (hr : Run env settings s s') (h : Bound k b s.catalog) : Bound k b s'.catalog := by
  induction hr with
  | start => exact h
  | step _ hs _ ih => exact bound_step hs ih

/-- The records agree with the manifests, and bindings are kept. -/
structure CountersAgree (env : Env) (settings : IngestionSettings) (s : State) : Prop where
  tallied : ∀ k, Tallied k s.catalog
  unchanged : ∀ call e s', Step env settings s call e s' → admits call = true →
    (∀ r, e = .committed (.receipt r) → r.replayed = true) →
      SameTally s.catalog.records s'.catalog.records
  bindings : ∀ k r s' r', s.catalog.records.get k = some r → Run env settings s s' →
    s'.catalog.records.get k = some r' → Binds r.tally.1 r'.tally.1

/-- The counters of an attempt agree with its manifests in every reachable state. -/
theorem counters_agree (h : Reachable env settings s) : CountersAgree env settings s := by
  refine ⟨fun k => tallied_of_reachable h, fun call e s' hs ha hr => sameTally_of_step hs ha hr, ?_⟩
  intro k r s' r' hget hrun hget'
  obtain ⟨r'', hr'', hb⟩ | ⟨hnone, _⟩ := bound_of_run hrun (Or.inl ⟨r, hget, Binds.refl _⟩)
  · rw [hget'] at hr''
    cases hr''
    exact hb
  · rw [hget'] at hnone
    cases hnone

theorem counters_agree_sample : ∃ s,
    runCalls Sample.env Sample.settings Sample.admission .initial = some s ∧
    (s.catalog.records.get Sample.attempt₁).map AttemptRecord.tally =
      some ((none, none, none), 1, 1) ∧ CountersAgree Sample.env Sample.settings s := by
  have h : (runCalls Sample.env Sample.settings Sample.admission .initial).map (fun s =>
      (s.catalog.records.get Sample.attempt₁).map AttemptRecord.tally) =
        some (some ((none, none, none), 1, 1)) := by decide +kernel
  obtain ⟨s, hs, ht⟩ := Option.map_eq_some_iff.mp h
  exact ⟨s, hs, ht, counters_agree (run_of_runCalls _ _ .start hs)⟩

end Deployment

end RankLens
