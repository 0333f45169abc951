import RankLens.Orphans

namespace RankLens

open Interleaving (Ending)
open Integrity (Referenced)

namespace Deployment

variable {env : Env} {settings : IngestionSettings} {s s' : State} {call : Call} {a : Reply}
  {e : Ending Failure Reply} {c c' : Catalog} {k : AttemptKey} {key : ObjectKey}
  {self : ReservationSweeper} {fresh : Uuid → Uuid} {clock : Uuid → Instant}
  {rows : List AdmissionReservation}

section decidable

instance : Decidable (Tracked c.candidates key) :=
  inferInstanceAs (Decidable (∃ g ∈ c.candidates.rows, g.objectKey = key ∧ g.state.live = true))

instance : Decidable (Referenced c key) :=
  decidable_of_iff ((∃ m ∈ c.manifests.rows, m.objectKey = key) ∨
    (∃ r ∈ c.reservations.rows, r.objectKey = key ∧ r.refers = true) ∨
    (∃ r ∈ c.revisions.rows, r.reportObjectKey = key) ∨
    ∃ r ∈ c.revisions.rows, r.parquetObjectKey = some key) <| by
  constructor
  · intro h
    obtain ⟨m, hm, hk⟩ | ⟨r, hr, hk, href⟩ | ⟨r, hr, hk⟩ | ⟨r, hr, hk⟩ := h
    exacts [.manifest hm hk, .reservation hr hk href, .report hr hk, .parquet hr hk]
  · intro h
    cases h with
    | manifest hm hk => exact Or.inl ⟨_, hm, hk⟩
    | reservation hr hk href => exact Or.inr (Or.inl ⟨_, hr, hk, href⟩)
    | report hr hk => exact Or.inr (Or.inr (Or.inl ⟨_, hr, hk⟩))
    | parquet hr hk => exact Or.inr (Or.inr (Or.inr ⟨_, hr, hk⟩))

instance : Decidable (Covered c key) := inferInstanceAs (Decidable (_ ∨ _))

end decidable

/-- No candidate for the objects of the reservations has been spent. -/
def Unspent (rows : List AdmissionReservation) (c : Catalog) : Prop :=
  ∀ r ∈ rows, ∀ g ∈ c.candidates, g.objectKey = r.objectKey → g.state.live = true

def ExpiredBy (c c' : Catalog) (r : AdmissionReservation) : Prop :=
  r ∈ c.reservations ∧ r.state = .reserved ∧ IngestionService.setState .expired r ∈ c'.reservations

theorem expiredBy_iff (h : self.Sweeping fresh clock rows c c') {r : AdmissionReservation} :
    ExpiredBy c c' r ↔ r ∈ rows := by
  constructor
  · intro ⟨hr, hs, he⟩
    rcases (h.reservations _).mp he with ⟨hx, _⟩ | ⟨r', hr', hx⟩
    · have hsame : IngestionService.setState .expired r = r := Table.eq_of_key hx hr rfl
      rw [← hsame] at hs
      cases hs
    · have hid : (IngestionService.setState .expired r).reservationId =
          (IngestionService.setState .expired r').reservationId := by rw [hx]
      exact Table.eq_of_key hr (h.1 r' hr').1 hid ▸ hr'
  · intro hr
    obtain ⟨hm, hs⟩ := h.1 r hr
    exact ⟨hm, hs, (h.reservations _).mpr (Or.inr ⟨r, hr, rfl⟩)⟩

theorem sweeping_tracked_iff (h : self.Sweeping fresh clock rows c c')
    (hone : OneEach c.candidates) :
    (∀ r, ExpiredBy c c' r → Tracked c'.candidates r.objectKey) ↔ Unspent rows c := by
  obtain ⟨hkeep, hall, hnew⟩ := h.candidates
  constructor
  · intro ht r hr g hg hk
    obtain ⟨g', hg', hk', hlive⟩ := ht r ((expiredBy_iff h).mpr hr)
    obtain rfl := sweeping_oneEach h hone g (hkeep g hg) g' hg' (hk.trans hk'.symm)
    exact hlive
  · intro hlive r hr
    rw [expiredBy_iff h] at hr
    obtain ⟨g, hg, hk⟩ := hall r hr
    refine ⟨g, hg, hk, ?_⟩
    rcases hnew g hg with hold | ⟨hs, _⟩
    · exact hlive r hr g hold hk
    · rw [hs]
      rfl

/-- The steps of the uploads and of the workers that collect what they leave, where no
sweep meets a spent candidate and no put lands on an object that is not covered. -/
def Collects (s : State) (call : Call) (_ : Ending Failure Reply) : Prop :=
  match call with
  | .admitReserve .. => True
  | .admitPut ticket faults => ∀ f, flightAt s.memory ticket false = some f →
      faults.lands f.prepared.objectKey = true → Covered s.catalog f.prepared.objectKey
  | .admitCommit .. => True
  | .admitCrash .. => True
  | .reservationSweep self now skip _ _ => Unspent (self.due now skip s.catalog) s.catalog
  | .objectGc .. => True
  | .objectGcAudit .. => True
  | _ => False

theorem cleanAt_of_collects (h : Collects s call e) : CleanAt key s call e := by
  cases call with
  | admitPut ticket faults => exact fun f hf hk hl => hk ▸ h f hf (hk.symm ▸ hl)
  | reservationSweep self now skip fresh clock =>
    cases e with
    | committed a => exact fun r hr hk _ => Or.inl (fun g hg hgk => h r hr g hg (hgk.trans hk.symm))
    | raised f => trivial
    | died => trivial
  | admitReserve => trivial
  | admitCommit => trivial
  | admitCrash => trivial
  | objectGc => trivial
  | objectGcAudit => trivial
  | _ => exact h.elim

/-- A sweep hands the objects of the reservations it expires to the collection exactly when
no candidate for them was spent, and as long as this is so, and no put comes
after its reservation has expired, every stored object is referenced or tracked. -/
theorem expired_handed_over (h : Reachable env settings s) :
    (∀ self now skip fresh clock a s',
      Step env settings s (.reservationSweep self now skip fresh clock) (.committed a) s' →
      ((∀ r, ExpiredBy s.catalog s'.catalog r → Tracked s'.catalog.candidates r.objectKey) ↔
        Unspent (self.due now skip s.catalog) s.catalog)) ∧
    (RunWhere env settings Collects .initial s → ∀ key, Kept key s) := by
  refine ⟨fun self now skip fresh clock a s' hs => ?_, fun hr key => ?_⟩
  · obtain ⟨_, _, ⟨a, _, heff⟩ | ⟨hne, _⟩⟩ := step_cases hs
    · generalize s'.catalog = c', s'.objects = w' at heff
      cases heff with
      | quiet hq => cases hq
      | reservationSweep h' => exact sweeping_tracked_iff h' (oneEach_of_reachable h)
    · exact absurd rfl (hne a)
  · exact kept_of_run (fun _ _ _ h => cleanAt_of_collects h) (fun _ _ _ _ _ h => h.elim) hr

instance {rows : List AdmissionReservation} : Decidable (Unspent rows c) :=
  inferInstanceAs (Decidable (∀ r ∈ rows, ∀ g ∈ c.candidates.rows, g.objectKey = r.objectKey →
    g.state.live = true))

def collects (s : State) : Call → Bool
  | .admitReserve .. => true
  | .admitPut ticket _ =>
    (flightAt s.memory ticket false).all (fun f => decide (Covered s.catalog f.prepared.objectKey))
  | .admitCommit .. => true
  | .admitCrash .. => true
  | .reservationSweep self now skip _ _ => decide (Unspent (self.due now skip s.catalog) s.catalog)
  | .objectGc .. => true
  | .objectGcAudit .. => true
  | _ => false

theorem collects_sound (h : collects s call = true) : Collects s call e := by
  cases call with
  | admitPut ticket faults =>
    intro f hf _
    rw [collects, hf] at h
    exact of_decide_eq_true h
  | reservationSweep self now skip fresh clock =>
    have hu : Unspent (self.due now skip s.catalog) s.catalog := of_decide_eq_true h
    exact hu
  | admitReserve => trivial
  | admitCommit => trivial
  | admitCrash => trivial
  | objectGc => trivial
  | objectGcAudit => trivial
  | _ => cases h

end Deployment

namespace Sample

def sweeper : ReservationSweeper := ⟨60, 10, 300, by decide⟩

def segment : ObjectKey := segmentKey env "acme" "c1" digest

/-- An upload whose process dies after the put. -/
def abandoned (ticket : Nat) (id : Uuid) (now : Instant) : List Call :=
  [.admitReserve ticket principal upload₁ id now, .admitPut ticket Faults.none, .admitCrash ticket]

def sweep (candidate : Uuid) (now : Instant) : Call :=
  .reservationSweep sweeper now [] (fun _ => candidate) (fun _ => now)

end Sample

namespace Deployment

theorem expired_handed_over_sample : ∃ s,
    runChecked Sample.env Sample.settings collects
      (Sample.abandoned 0 1 0 ++ [Sample.sweep 2 100000000000]) .initial = some s ∧
    s.objects Sample.segment ≠ none ∧ Covered s.catalog Sample.segment := by
  have h : (runChecked Sample.env Sample.settings collects
      (Sample.abandoned 0 1 0 ++ [Sample.sweep 2 100000000000]) .initial).map
      (fun s => s.objects Sample.segment) = some (some Sample.payload) := by decide +kernel
  obtain ⟨s, hs, hobj⟩ := Option.map_eq_some_iff.mp h
  have hrun : RunWhere Sample.env Sample.settings Collects .initial s :=
    runWhere_of_runChecked _ _ (fun _ _ _ => collects_sound) .start hs
  have hstored : s.objects Sample.segment ≠ none := by simp [hobj]
  exact ⟨s, hs, hstored, (expired_handed_over (run_of_runWhere _ _ hrun)).2 hrun _ hstored⟩

/-- The same bytes are uploaded and abandoned twice. The second sweep finds the candidate of the
first, which has been collected, and leaves the object to nobody. -/
theorem expired_not_handed_over : ∃ s, Reachable Sample.env Sample.settings s ∧
    ∃ a s', Step Sample.env Sample.settings s (Sample.sweep 4 400000000000) (.committed a) s' ∧
      (∃ r, ExpiredBy s.catalog s'.catalog r ∧ ¬Tracked s'.catalog.candidates r.objectKey) ∧
      s'.objects Sample.segment ≠ none ∧ ¬Covered s'.catalog Sample.segment := by
  have h : (runCalls Sample.env Sample.settings
      (Sample.abandoned 0 1 0 ++ [Sample.sweep 2 100000000000, .objectGc Faults.none 200000000000 []] ++
        Sample.abandoned 1 3 300000000000) .initial).bind (fun s =>
      (answer Sample.env Sample.settings s (Sample.sweep 4 400000000000)).map (fun r =>
        (decide (∃ x ∈ s.catalog.reservations.rows, x.state = .reserved ∧
            IngestionService.setState .expired x ∈ r.2.catalog.reservations.rows ∧
            ¬Tracked r.2.catalog.candidates x.objectKey),
          r.2.objects Sample.segment, decide (Covered r.2.catalog Sample.segment)))) =
      some (true, some Sample.payload, false) := by decide +kernel
  obtain ⟨s, hs, h⟩ := Option.bind_eq_some_iff.mp h
  obtain ⟨⟨a, s'⟩, ha, h⟩ := Option.map_eq_some_iff.mp h
  simp only [Prod.mk.injEq, decide_eq_true_eq, decide_eq_false_iff_not] at h
  obtain ⟨⟨x, hx, hstate, hexp, htracked⟩, hobj, hcov⟩ := h
  exact ⟨s, run_of_runCalls _ _ .start hs, a, s', step_of_answer _ _ ha,
    ⟨x, ⟨hx, hstate, hexp⟩, htracked⟩, by simp [hobj], hcov⟩

/-- The deletion of the attempt is completed. -/
def Completed (k : AttemptKey) (c : Catalog) : Prop :=
  ∃ d, c.deletions.get k = some d ∧ d.state = .completed

/-- No admission and no publication of the attempt is about to put. -/
def Landed (k : AttemptKey) (m : Memory) : Prop :=
  (∀ x ∈ m.flights, x.2.2 = false → x.2.1.attempt ≠ k) ∧
    ∀ x ∈ m.reports, ∀ b, x.2.2 = .reserved b → b.attempt ≠ k

/-- Once the attempt is erased, an object put for it under the key is gone, referenced
or still to be collected. -/
def OrphanFree (k : AttemptKey) (key : ObjectKey) (s : State) : Prop :=
  Completed k s.catalog → Landed k s.memory → (k, key) ∈ s.memory.puts →
    s.objects key = none ∨ Referenced s.catalog key ∨ Tracked s.catalog.candidates key

/-- Erasure leaves no orphan under a key for which every step of the run was clean. -/
theorem erasure_leaves_no_orphan (hsha : ∀ p, env.sha256 p ≠ "")
    (h : RunWhere env settings (CleanAt key) .initial s) (k : AttemptKey) : OrphanFree k key s := by
  have hk : Kept key s := kept_of_run (fun _ _ _ h => h) (fun _ _ _ _ _ _ => hsha) h
  intro _ _ _
  by_cases hn : s.objects key = none
  · exact Or.inl hn
  · exact Or.inr (hk hn)

def cleanAt (key : ObjectKey) (s : State) : Call → Bool
  | .reportPublish .. => false
  | .deletionExecute l _ _ => decide (∀ r ∈ s.catalog.reservations.rows, r.attempt = l.attempt →
      r.objectKey = key → r.refers = true → Tracked s.catalog.candidates key ∨
        ∃ x ∈ s.catalog.manifests.rows, x.attempt = l.attempt ∧ x.objectKey = key)
  | .admitPut ticket faults => collects s (.admitPut ticket faults)
  | .reservationSweep self now skip fresh clock =>
    collects s (.reservationSweep self now skip fresh clock)
  | _ => true

theorem cleanAt_sound (h : cleanAt key s call = true) : CleanAt key s call e := by
  cases call with
  | reportPublish => cases h
  | deletionExecute l faults now =>
    cases e with
    | committed a =>
      intro _ r hr hk hkey href _
      exact (of_decide_eq_true h r hr hk hkey href).imp_right Or.inr
    | raised f => trivial
    | died => trivial
  | admitPut ticket faults => exact cleanAt_of_collects (collects_sound h)
  | reservationSweep self now skip fresh clock => exact cleanAt_of_collects (collects_sound h)
  | _ => trivial

theorem erasure_leaves_no_orphan_sample : ∃ s,
    runChecked Sample.env Sample.settings (cleanAt Sample.segment)
      (Sample.abandoned 0 1 0 ++ [Sample.sweep 2 100000000000] ++ Sample.erasure Sample.attempt₁)
      .initial = some s ∧ s.objects Sample.segment = some Sample.payload ∧
    OrphanFree Sample.attempt₁ Sample.segment s := by
  have h : (runChecked Sample.env Sample.settings (cleanAt Sample.segment)
      (Sample.abandoned 0 1 0 ++ [Sample.sweep 2 100000000000] ++ Sample.erasure Sample.attempt₁)
      .initial).map (fun s => s.objects Sample.segment) = some (some Sample.payload) := by
    decide +kernel
  obtain ⟨s, hs, hobj⟩ := Option.map_eq_some_iff.mp h
  exact ⟨s, hs, hobj, erasure_leaves_no_orphan Sample.sha256_ne_empty
    (runWhere_of_runChecked _ _ (fun _ _ _ => cleanAt_sound) .start hs) _⟩

/-- An upload is put and abandoned, and its attempt is erased: the reservation goes, the object
stays, and no candidate is left for it. -/
theorem erasure_leaves_orphan : ∃ s, Reachable Sample.env Sample.settings s ∧
    ¬OrphanFree Sample.attempt₁ Sample.segment s := by
  have h : (runCalls Sample.env Sample.settings
      (Sample.abandoned 0 1 0 ++ Sample.erasure Sample.attempt₁) .initial).map (fun s =>
        ((s.catalog.deletions.get Sample.attempt₁).map AttemptDeletion.state,
          s.memory.flights.length + s.memory.reports.length,
          s.objects Sample.segment, decide ((Sample.attempt₁, Sample.segment) ∈ s.memory.puts ∧
            ¬Covered s.catalog Sample.segment))) =
      some (some .completed, 0, some Sample.payload, true) := by decide +kernel
  obtain ⟨s, hs, h⟩ := Option.map_eq_some_iff.mp h
  simp only [Prod.mk.injEq, decide_eq_true_eq, Nat.add_eq_zero_iff, List.length_eq_zero_iff] at h
  obtain ⟨hdone, ⟨hflights, hreports⟩, hobj, hput, hcov⟩ := h
  obtain ⟨d, hget, hstate⟩ := Option.map_eq_some_iff.mp hdone
  refine ⟨s, run_of_runCalls _ _ .start hs, fun hfree => ?_⟩
  have hland : Landed Sample.attempt₁ s.memory := by
    constructor
    · simp [hflights]
    · simp [hreports]
  rcases hfree ⟨d, hget, hstate⟩ hland hput with hn | hc
  · rw [hobj] at hn
    cases hn
  · exact hcov hc

end Deployment

end RankLens
