import RankLens.Soundness

namespace RankLens

open Interleaving (Ending)
open IngestionService (catalogInconsistent sameRange)
open AttemptDeletionWorker (Cleared)

namespace Deployment

variable {env : Env} {settings : IngestionSettings} {m : Memory} {c c' : Catalog}
  {w : ObjectStore} {s s' : State} {call : Call} {a : Reply} {e : Ending Failure Reply}

def Covers (x : SegmentManifest) (r : AdmissionReservation) : Prop :=
  x.stream = r.stream ∧ x.firstSequence = r.firstSequence ∧ x.lastSequence = r.lastSequence

instance {x : SegmentManifest} {r : AdmissionReservation} : Decidable (Covers x r) :=
  inferInstanceAs (Decidable (_ ∧ _))

/-- Every committed reservation has its manifest. -/
def Backed (c : Catalog) : Prop :=
  ∀ r ∈ c.reservations, r.state = .committed → ∃ x ∈ c.manifests, Covers x r

instance {c : Catalog} : Decidable (Backed c) :=
  inferInstanceAs (Decidable (∀ r ∈ c.reservations.rows, r.state = .committed →
    ∃ x ∈ c.manifests.rows, Covers x r))

/-- No committed reservation of another attempt is over a range the attempt has a
manifest for. -/
def OwnRanges (k : AttemptKey) (c : Catalog) : Prop :=
  ∀ r ∈ c.reservations, r.state = .committed → r.attempt ≠ k →
    ∀ x ∈ c.manifests, x.attempt = k → ¬Covers x r

instance {k : AttemptKey} {c : Catalog} : Decidable (OwnRanges k c) :=
  inferInstanceAs (Decidable (∀ r ∈ c.reservations.rows, r.state = .committed → r.attempt ≠ k →
    ∀ x ∈ c.manifests.rows, x.attempt = k → ¬Covers x r))

/-- The steps that erase no manifest another attempt's reservation rests on. -/
def ErasesOwn (s : State) (call : Call) (_ : Ending Failure Reply) : Prop :=
  ∀ l faults now, call = .deletionExecute l faults now → Cleared l s.catalog →
    OwnRanges l.attempt s.catalog

theorem covers_of_sameRange {tenantId : String} {segment : SegmentUpload} {x : SegmentManifest}
    {r : AdmissionReservation} (hr : sameRange tenantId segment r = true)
    (hs : x.stream = segment.stream tenantId) (hf : x.firstSequence = segment.firstSequence)
    (hl : x.lastSequence = segment.lastSequence) : Covers x r := by
  simp only [sameRange, Bool.and_eq_true, decide_eq_true_eq] at hr
  exact ⟨hs.trans hr.1.1.symm, hf.trans hr.1.2.symm, hl.trans hr.2.symm⟩

theorem mem_commitReservation {f : IngestionService.Flight} {r : AdmissionReservation}
    (hr : r ∈ IngestionService.commitReservation f c) : r ∈ c.reservations ∨
      ∃ r' ∈ c.reservations, r'.reservationId = f.reservationId ∧
        r = IngestionService.setState .committed r' := by
  rcases Table.mem_modify.mp hr with ⟨hr, _⟩ | ⟨r', hr', hid, rfl⟩
  · exact Or.inl hr
  · exact Or.inr ⟨r', hr', hid, rfl⟩

theorem backed_step (h : AdmissionEffect env m c w call a c')
    (hflights : ∀ x ∈ m.flights, Airborne env c x.2.1)
    (hown : ∀ l faults now, call = .deletionExecute l faults now → Cleared l c →
      OwnRanges l.attempt c) (hb : Backed c) : Backed c' := by
  intro r hr hs
  cases h with
  | same hm hres => exact hm ▸ hb r (hres ▸ hr) hs
  | reserved _ _ _ _ hm hres _ =>
    rcases (hres r).mp hr with ⟨hr, _⟩ | rfl
    · exact hm ▸ hb r hr hs
    · cases hs
  | replayed hf _ hx hexact _ hm hres _ =>
    rcases mem_commitReservation (hres ▸ hr) with hr | ⟨r', hr', hid, rfl⟩
    · exact hm ▸ hb r hr hs
    · have hrange := ((hflights _ (mem_of_flightAt hf)).agrees r' hr' hid).1
      simp only [IngestionService.exactFilter, IngestionService.rangeFilter, Bool.and_eq_true,
        decide_eq_true_eq] at hexact
      exact ⟨_, hm ▸ hx, covers_of_sameRange hrange hexact.1.1 hexact.1.2 hexact.2⟩
  | admitted hf _ _ _ _ hm hres _ =>
    rcases mem_commitReservation (hres ▸ hr) with hr | ⟨r', hr', hid, rfl⟩
    · obtain ⟨x, hx, hc⟩ := hb r hr hs
      exact ⟨x, (hm x).mpr (Or.inl hx), hc⟩
    · have hrange := ((hflights _ (mem_of_flightAt hf)).agrees r' hr' hid).1
      exact ⟨_, (hm _).mpr (Or.inr rfl), covers_of_sameRange hrange rfl rfl rfl⟩
  | swept _ hm hres _ =>
    rcases (hres r).mp hr with ⟨hr, _⟩ | ⟨r', _, rfl⟩
    · exact hm ▸ hb r hr hs
    · cases hs
  | erased hc hm hres _ =>
    obtain ⟨hr, hk⟩ := (hres r).mp hr
    obtain ⟨x, hx, hcov⟩ := hb r hr hs
    exact ⟨x, (hm x).mpr ⟨hx, fun he => hown _ _ _ rfl hc r hr hs hk x hx he hcov⟩, hcov⟩

theorem backed_of_run (h : RunWhere env settings ErasesOwn .initial s) : Backed s.catalog := by
  induction h with
  | start => exact fun r hr => absurd hr (Table.not_mem_empty r)
  | step hr hs hp ih =>
    have hsound := sound_of_reachable (run_of_runWhere env settings hr)
    obtain ⟨_, _, ⟨a, rfl, heff⟩ | ⟨_, hc, _⟩⟩ := step_cases hs
    · exact backed_step (effect_admission heff) hsound.flights hp ih
    · exact hc ▸ ih

theorem consistent_of_backed {ticket : Nat} {principal : MachinePrincipal} {segment : SegmentUpload}
    {fresh : Uuid} {now : Instant} (hb : Backed s.catalog)
    (h : Step env settings s (.admitReserve ticket principal segment fresh now) e s') :
    e ≠ .raised catalogInconsistent := by
  rintro rfl
  obtain ⟨_, _, ⟨_, ha, _⟩ | ⟨_, _, hraise⟩⟩ := step_cases h
  · cases ha
  · obtain ⟨hnone, r, hr, hrange, hs⟩ := hraise _ rfl _ _ _ _ _ rfl rfl
    obtain ⟨x, hx, hstream, hfirst, hlast⟩ := hb r hr hs
    simp only [sameRange, Bool.and_eq_true, decide_eq_true_eq] at hrange
    have hexact := hnone x hx
    simp [IngestionService.exactFilter, IngestionService.rangeFilter, hstream, hfirst, hlast,
      hrange.1.1, hrange.1.2, hrange.2] at hexact

/-- Committed reservations stay backed as long as no erasure takes the manifest
under the reservation of another attempt. -/
theorem reservations_backed (h : RunWhere env settings ErasesOwn .initial s) :
    Backed s.catalog ∧ ∀ ticket principal segment fresh now e s',
      Step env settings s (.admitReserve ticket principal segment fresh now) e s' →
      e ≠ .raised catalogInconsistent :=
  ⟨backed_of_run h, fun _ _ _ _ _ _ _ hs => consistent_of_backed (backed_of_run h) hs⟩

def erasesOwn (s : State) : Call → Bool
  | .deletionExecute l _ _ => decide (OwnRanges l.attempt s.catalog)
  | _ => true

theorem erasesOwn_sound (h : erasesOwn s call = true) : ErasesOwn s call e := by
  rintro l faults now rfl _
  exact of_decide_eq_true h

theorem reservations_backed_sample : ∃ s,
    runChecked Sample.env Sample.settings erasesOwn (Sample.admission ++ Sample.erasure Sample.attempt₁)
      .initial = some s ∧ s.catalog.manifests.rows = [] ∧ Backed s.catalog := by
  have h : (runChecked Sample.env Sample.settings erasesOwn
      (Sample.admission ++ Sample.erasure Sample.attempt₁) .initial).map
      (fun s => s.catalog.manifests.rows) = some [] := by decide +kernel
  obtain ⟨s, hs, hrows⟩ := Option.map_eq_some_iff.mp h
  exact ⟨s, hs, hrows, (reservations_backed (runWhere_of_runChecked _ _
    (fun _ _ _ => erasesOwn_sound) .start hs)).1⟩

/-- Two attempts upload one range, the second commits the reservation of the first
and is erased: the reservation stays committed and the range is refused. -/
theorem reservation_left_unbacked : ∃ s, Reachable Sample.env Sample.settings s ∧
    ¬Backed s.catalog ∧ ∃ s', Step Sample.env Sample.settings s
      (.admitReserve 2 Sample.principal Sample.upload₁ 9 9) (.raised catalogInconsistent) s' := by
  have h : (runCalls Sample.env Sample.settings
      ([.admitReserve 0 Sample.principal Sample.upload₁ 1 0,
        .admitReserve 1 Sample.principal Sample.upload₂ 2 0, .admitPut 1 Faults.none,
        .admitCommit 1 Faults.none 3 4 4] ++ Sample.erasure Sample.attempt₂) .initial).bind (fun s =>
      (refusal Sample.env Sample.settings s (.admitReserve 2 Sample.principal Sample.upload₁ 9 9)).map
        (fun r => (r.1, decide (Backed s.catalog)))) = some (catalogInconsistent, false) := by
    decide +kernel
  obtain ⟨s, hs, h⟩ := Option.bind_eq_some_iff.mp h
  obtain ⟨⟨f, s'⟩, hf, h⟩ := Option.map_eq_some_iff.mp h
  simp only [Prod.mk.injEq, decide_eq_false_iff_not] at h
  obtain ⟨rfl, hb⟩ := h
  exact ⟨s, run_of_runCalls _ _ .start hs, hb, s', step_of_refusal _ _ hf⟩

end Deployment

end RankLens
