import RankLens.Effects

namespace RankLens

open Interleaving (Ending)
open IngestionService (Flight Prepared sameRange)

namespace Deployment

variable {env : Env} {settings : IngestionSettings} {m : Memory} {c c' : Catalog}
  {w w' : ObjectStore} {s s' : State} {call : Call} {a : Reply} {e : Ending Failure Reply}

theorem mem_of_lookup {α : Type} {xs : List (Nat × α)} {ticket : Nat} {x : α}
    (h : lookup xs ticket = some x) : (ticket, x) ∈ xs := by
  obtain ⟨y, hy, rfl⟩ := Option.map_eq_some_iff.mp h
  have hk : y.1 = ticket := by simpa using List.find?_some hy
  exact hk ▸ List.mem_of_find?_eq_some hy

theorem mem_of_flightAt {ticket : Nat} {stored : Bool} {f : Flight}
    (h : flightAt m ticket stored = some f) : (ticket, f, stored) ∈ m.flights := by
  obtain ⟨x, hx, hf⟩ := Option.bind_eq_some_iff.mp h
  have hm := mem_of_lookup hx
  obtain ⟨f', stored'⟩ := x
  split at hf
  · next hs =>
    cases hf
    exact hs ▸ hm
  · cases hf

theorem mem_forget {α : Type} {xs : List (Nat × α)} {ticket : Nat} {x : Nat × α}
    (h : x ∈ forget xs ticket) : x ∈ xs := (List.mem_filter.mp h).1

theorem mem_remember {α : Type} {xs : List (Nat × α)} {ticket : Nat} {x : α} {y : Nat × α}
    (h : y ∈ remember xs ticket x) : y = (ticket, x) ∨ y ∈ xs :=
  (List.mem_cons.mp h).imp_right mem_forget

theorem finish_flights {x : Nat × Flight × Bool} (h : x ∈ (finish call e m).flights) :
    (∃ stored, (x.1, x.2.1, stored) ∈ m.flights) ∨
    ∃ ticket principal segment fresh now prepared id,
      call = .admitReserve ticket principal segment fresh now ∧
      e = .committed (.admitted (.reserved prepared id)) ∧
      x = (ticket, ⟨principal, segment, prepared, id⟩, false) := by
  unfold finish at h
  split at h
  · rcases mem_remember h with rfl | h
    · exact Or.inr ⟨_, _, _, _, _, _, _, rfl, rfl, rfl⟩
    · exact Or.inl ⟨_, h⟩
  · exact Or.inl ⟨_, h⟩
  · split at h
    · next hf =>
      rcases mem_remember h with rfl | h
      · exact Or.inl ⟨_, mem_of_flightAt hf⟩
      · exact Or.inl ⟨_, h⟩
    · exact Or.inl ⟨_, h⟩
  · split at h
    · exact Or.inl ⟨_, mem_forget h⟩
    · exact Or.inl ⟨_, h⟩
  · split at h
    · exact Or.inl ⟨_, mem_forget h⟩
    · exact Or.inl ⟨_, h⟩
  · exact Or.inl ⟨_, mem_forget h⟩
  · exact Or.inl ⟨_, mem_forget h⟩
  all_goals first
    | exact Or.inl ⟨_, h⟩
    | split at h <;> exact Or.inl ⟨_, h⟩

/-- Some running report has got as far as its artifacts. -/
def Filed (m : Memory) (b : BuiltReport) : Prop :=
  ∃ ticket lease, (ticket, lease, ReportStage.built b) ∈ m.reports ∨
    (ticket, lease, ReportStage.reserved b) ∈ m.reports

theorem finish_reports {b : BuiltReport} (h : Filed (finish call e m) b) : Filed m b ∨
    (∃ ticket self faults, call = .reportBuild ticket self faults ∧ e = .committed (.built b)) ∨
    ∃ ticket self fresh now, call = .reportReserve ticket self fresh now ∧
      e = .committed (.built b) := by
  obtain ⟨ticket, lease, h⟩ := h
  have hold : (ticket, lease, ReportStage.built b) ∈ m.reports ∨
      (ticket, lease, ReportStage.reserved b) ∈ m.reports → Filed m b := fun h => ⟨ticket, lease, h⟩
  have hdrop : ∀ t, (ticket, lease, ReportStage.built b) ∈ forget m.reports t ∨
      (ticket, lease, ReportStage.reserved b) ∈ forget m.reports t → Filed m b :=
    fun t h => hold (h.imp mem_forget mem_forget)
  unfold finish at h
  split at h
  case h_13 =>
    left
    refine hold (h.imp (fun h => ?_) (fun h => ?_))
    · exact (mem_remember h).resolve_left (fun h => nomatch h)
    · exact (mem_remember h).resolve_left (fun h => nomatch h)
  case h_14 =>
    split at h
    · rcases h with h | h
      · rcases mem_remember h with h | h
        · cases h
          exact Or.inr (Or.inl ⟨_, _, _, rfl, rfl⟩)
        · exact Or.inl (hold (Or.inl h))
      · exact Or.inl (hold (Or.inr ((mem_remember h).resolve_left (fun h => nomatch h))))
    · exact Or.inl (hold h)
  case h_16 =>
    split at h
    · rcases h with h | h
      · exact Or.inl (hold (Or.inl ((mem_remember h).resolve_left (fun h => nomatch h))))
      · rcases mem_remember h with h | h
        · cases h
          exact Or.inr (Or.inr ⟨_, _, _, _, rfl, rfl⟩)
        · exact Or.inl (hold (Or.inr h))
    · exact Or.inl (hold h)
  all_goals left
  all_goals first
    | exact hold h
    | exact hdrop _ h
    | (split at h <;> first | exact hold h | exact hdrop _ h)

/-- A flight and the reservation it was given agree. -/
structure Airborne (env : Env) (c : Catalog) (f : Flight) : Prop where
  prepared : Prepared env f.principal.tenantId f.segment f.prepared
  issued : f.reservationId ∈ c.issued
  agrees : ∀ r ∈ c.reservations, r.reservationId = f.reservationId →
    sameRange f.principal.tenantId f.segment r = true ∧ r.payloadSha256 = f.segment.payloadSha256

/-- What the admissions keep true of the catalog. -/
structure Admissible (env : Env) (c : Catalog) : Prop where
  receipts : ∀ x ∈ c.manifests, x.receiptId ∈ c.issued
  reservations : ∀ x ∈ c.reservations, x.reservationId ∈ c.issued
  segments : ∀ x ∈ c.manifests, x.objectKey = segmentKey env x.tenantId x.clusterId x.payloadSha256
  reserved : ∀ x ∈ c.reservations,
    x.objectKey = segmentKey env x.tenantId x.clusterId x.payloadSha256
  payloads : ∀ x ∈ c.manifests, ∃ payload, env.sha256 payload = x.payloadSha256 ∧
    IngestionService.countRecords env 1 (splitlines [] payload) = .ok x.recordCount
  ranges : ∀ x ∈ c.manifests, ∀ y ∈ c.manifests, x.stream = y.stream →
    x.firstSequence ≤ y.lastSequence → y.firstSequence ≤ x.lastSequence → x = y

/-- A report as `build` leaves it. -/
def Built (env : Env) (b : BuiltReport) : Prop :=
  ∃ plan parquet, b = ReportRevisionWorker.built env plan parquet

/-- The keys of a revision are those of its attempt and its digests. -/
structure Sourced (env : Env) (r : ReportRevision) : Prop where
  report : r.reportObjectKey = ReportRevisionWorker.objectKey env r.attempt r.reportSha256 .json
  parquet : ∃ payload, r.parquetSha256 = some (env.sha256 payload) ∧ r.parquetObjectKey =
    some (ReportRevisionWorker.objectKey env r.attempt (env.sha256 payload) .parquet)

/-- The catalog, and the flights and the reports over it. A live attempt is in
generation zero, as are all manifests. -/
structure Sound (env : Env) (s : State) : Prop where
  catalog : Admissible env s.catalog
  flights : ∀ x ∈ s.memory.flights, Airborne env s.catalog x.2.1
  live : ∀ g ∈ s.catalog.generations, g.deletedAt = none → g.generation = 0
  generations : ∀ x ∈ s.catalog.manifests, x.deletionGeneration = 0
  reports : ∀ b, Filed s.memory b → Built env b
  revisions : ∀ r ∈ s.catalog.revisions, Sourced env r
  records : Tables.records.NoClash s.catalog.records

theorem opened_zero {t t' : Table AttemptGeneration.attempt} {k : AttemptKey} {n : Nat}
    (h : IngestionService.Opened k t n t')
    (ht : ∀ g ∈ t, g.deletedAt = none → g.generation = 0) : n = 0 := by
  cases h with
  | first => rfl
  | live hget hd => exact ht _ (Table.mem_of_get hget) hd

theorem issued_mono (h : AdmissionEffect env m c w call a c') : c.issued ⊆ c'.issued := by
  cases h with
  | same _ _ hi => exact hi
  | reserved _ _ _ _ _ _ hi => exact hi ▸ List.subset_cons_self _ _
  | replayed _ _ _ _ _ _ _ hi => exact hi ▸ List.Subset.refl _
  | admitted _ _ _ _ _ _ _ hi => exact List.Subset.trans (List.subset_cons_self _ _) hi
  | swept _ _ _ hi => exact hi
  | erased _ _ _ hi => exact hi ▸ List.Subset.refl _

theorem reservation_origin (h : AdmissionEffect env m c w call a c') {x : AdmissionReservation}
    (hx : x ∈ c'.reservations) :
    (∃ r ∈ c.reservations, ∃ state, x = IngestionService.setState state r ∧
      (x.state = .reserved → r = x)) ∨
    ∃ ticket principal segment fresh now p,
      call = .admitReserve ticket principal segment fresh now ∧ a = .admitted (.reserved p fresh) ∧
      Prepared env principal.tenantId segment p ∧ fresh ∉ c.issued ∧ fresh ∈ c'.issued ∧
      x = IngestionService.newReservation principal segment p segment.deletionGeneration fresh now := by
  have hold : x ∈ c.reservations → ∃ r ∈ c.reservations, ∃ state,
      x = IngestionService.setState state r ∧ (x.state = .reserved → r = x) :=
    fun h => ⟨x, h, x.state, rfl, fun _ => rfl⟩
  have hcommit : ∀ f : Flight, x ∈ IngestionService.commitReservation f c → ∃ r ∈ c.reservations,
      ∃ state, x = IngestionService.setState state r ∧ (x.state = .reserved → r = x) := by
    intro f hx
    rcases Table.mem_modify.mp hx with ⟨hx, _⟩ | ⟨r, hr, _, rfl⟩
    · exact hold hx
    · exact ⟨r, hr, .committed, rfl, fun h => nomatch h⟩
  cases h with
  | same _ hr _ _ => exact Or.inl (hold (hr ▸ hx))
  | reserved hp _ _ hfresh _ hr hi =>
    rcases (hr x).mp hx with ⟨hx, _⟩ | rfl
    · exact Or.inl (hold hx)
    · exact Or.inr ⟨_, _, _, _, _, _, rfl, rfl, hp, hfresh, hi ▸ List.mem_cons_self, rfl⟩
  | replayed _ _ _ _ _ _ hr _ => exact Or.inl (hcommit _ (hr ▸ hx))
  | admitted _ _ _ _ _ _ hr _ => exact Or.inl (hcommit _ (hr ▸ hx))
  | swept hrows _ hr _ =>
    rcases (hr x).mp hx with ⟨hx, _⟩ | ⟨r, hr, rfl⟩
    · exact Or.inl (hold hx)
    · exact Or.inl ⟨r, (hrows r hr).1, .expired, rfl, fun h => nomatch h⟩
  | erased _ _ hr _ => exact Or.inl (hold ((hr x).mp hx).1)

theorem manifest_origin (h : AdmissionEffect env m c w call a c') {x : SegmentManifest}
    (hx : x ∈ c'.manifests) : x ∈ c.manifests ∨
    ∃ ticket faults freshReceipt freshOutbox committedAt f r gens,
      call = .admitCommit ticket faults freshReceipt freshOutbox committedAt ∧
      flightAt m ticket true = some f ∧ IngestionService.Commits f c r gens ∧
      Holds env w f.prepared.objectKey f.segment.payloadSha256 ∧
      (∀ y ∈ c.manifests, IngestionService.overlapFilter f.principal.tenantId f.segment y = false) ∧
      freshReceipt ∉ c.issued ∧ freshReceipt ∈ c'.issued ∧
      x = IngestionService.newManifest f r f.segment.deletionGeneration freshReceipt committedAt := by
  cases h with
  | same hm _ _ _ => exact Or.inl (hm ▸ hx)
  | reserved _ _ _ _ hm _ _ => exact Or.inl (hm ▸ hx)
  | replayed _ _ _ _ _ hm _ _ => exact Or.inl (hm ▸ hx)
  | admitted hf hc hobj hover hfresh hm _ hi =>
    rcases (hm x).mp hx with hx | rfl
    · exact Or.inl hx
    · exact Or.inr ⟨_, _, _, _, _, _, _, _, rfl, hf, hc, hobj, hover, hfresh,
        hi List.mem_cons_self, rfl⟩
  | swept _ hm _ _ => exact Or.inl (hm ▸ hx)
  | erased _ hm _ _ => exact Or.inl ((hm x).mp hx).1

theorem overlaps_of_stream {f : Flight} {r : AdmissionReservation} {g : Nat} {id : Uuid}
    {t : Instant} {y : SegmentManifest}
    (hs : y.stream = (IngestionService.newManifest f r g id t).stream)
    (h₁ : y.firstSequence ≤ f.segment.lastSequence) (h₂ : f.segment.firstSequence ≤ y.lastSequence) :
    IngestionService.overlapFilter f.principal.tenantId f.segment y = true := by
  have hstream : (IngestionService.newManifest f r g id t).stream =
      f.segment.stream f.principal.tenantId := rfl
  simp [IngestionService.overlapFilter, IngestionService.rangeFilter, hs, hstream, h₁, h₂]

theorem admissible_step (h : AdmissionEffect env m c w call a c')
    (hflights : ∀ x ∈ m.flights, Airborne env c x.2.1) (hc : Admissible env c) :
    Admissible env c' where
  receipts x hx := by
    rcases manifest_origin h hx with hx | ⟨_, _, _, _, _, _, _, _, _, _, _, _, _, _, hi, rfl⟩
    · exact issued_mono h (hc.receipts x hx)
    · exact hi
  reservations x hx := by
    rcases reservation_origin h hx with ⟨r, hr, _, rfl, _⟩ | ⟨_, _, _, _, _, _, _, _, _, _, hi, rfl⟩
    · exact issued_mono h (hc.reservations r hr)
    · exact hi
  segments x hx := by
    rcases manifest_origin h hx with hx | ⟨_, _, _, _, _, f, _, _, _, hf, _, _, _, _, _, rfl⟩
    · exact hc.segments x hx
    · exact (hflights _ (mem_of_flightAt hf)).prepared.key
  reserved x hx := by
    rcases reservation_origin h hx with ⟨r, hr, _, rfl, _⟩ | ⟨_, _, _, _, _, _, _, _, hp, _, _, rfl⟩
    · exact hc.reserved r hr
    · exact hp.key
  payloads x hx := by
    rcases manifest_origin h hx with hx | ⟨_, _, _, _, _, f, _, _, _, hf, _, _, _, _, _, rfl⟩
    · exact hc.payloads x hx
    · have hp := (hflights _ (mem_of_flightAt hf)).prepared
      exact ⟨_, hp.digest, hp.records⟩
  ranges x hx y hy hs h₁ h₂ := by
    rcases manifest_origin h hx with hx' | ⟨_, _, id, _, _, f, _, _, hcall, _, _, _, hover, _, _, hnew⟩
    · rcases manifest_origin h hy with hy' | ⟨_, _, _, _, _, f, _, _, _, _, _, _, hover, _, _, rfl⟩
      · exact hc.ranges x hx' y hy' hs h₁ h₂
      · have hfree := hover x hx'
        rw [overlaps_of_stream hs h₁ h₂] at hfree
        cases hfree
    · rcases manifest_origin h hy with hy' | ⟨_, _, id', _, _, _, _, _, hcall', _, _, _, _, _, _, hnew'⟩
      · have hfree := hover y hy'
        subst hnew
        rw [overlaps_of_stream hs.symm h₂ h₁] at hfree
        cases hfree
      · have hid : id = id' := by
          rw [hcall] at hcall'
          injection hcall'
        exact Table.eq_of_key hx hy (by rw [hnew, hnew', hid]; rfl)

theorem airborne_step (h : AdmissionEffect env m c w call a c') {f : Flight} (hf : Airborne env c f) :
    Airborne env c' f where
  prepared := hf.prepared
  issued := issued_mono h hf.issued
  agrees r hr hid := by
    rcases reservation_origin h hr with
      ⟨r', hr', _, rfl, _⟩ | ⟨_, _, _, fresh, _, _, _, _, _, hfresh, _, rfl⟩
    · exact hf.agrees r' hr' hid
    · have hid' : fresh = f.reservationId := hid
      exact absurd (hid' ▸ hf.issued) hfresh

theorem airborne_new {ticket : Nat} {principal : MachinePrincipal} {segment : SegmentUpload}
    {fresh id : Uuid} {now : Instant} {p : PreparedPayload}
    (h : Effect env m c w (.admitReserve ticket principal segment fresh now)
      (.admitted (.reserved p id)) c' w') (hc : Admissible env c) :
    Airborne env c' ⟨principal, segment, p, id⟩ := by
  cases h with
  | quiet hq => cases hq
  | admitReserve _ h =>
    cases h with
    | reuse hp _ _ hr hrange _ hd =>
      refine ⟨hp, hc.reservations _ hr, fun x hx hid => ?_⟩
      obtain rfl := Table.eq_of_key hx hr hid
      exact ⟨hrange, hd⟩
    | fresh hp _ _ _ hi ht =>
      refine ⟨hp, List.mem_cons_self, fun x hx hid => ?_⟩
      rcases (ht x).mp hx with ⟨hx, _⟩ | rfl
      · have hid' : x.reservationId = fresh := hid
        exact absurd (hid' ▸ hc.reservations x hx) hi
      · refine ⟨?_, rfl⟩
        simp [sameRange, IngestionService.newReservation, AdmissionReservation.stream,
          SegmentFields.stream]

theorem filed_of_reportAt {ticket : Nat} {lease : WorkLease} {b : BuiltReport}
    (h : reportAt m ticket = some (lease, .built b) ∨ reportAt m ticket = some (lease, .reserved b)) :
    Filed m b := ⟨ticket, lease, h.imp mem_of_lookup mem_of_lookup⟩

theorem built_step (h : Effect env m c w call a c' w') (hm : ∀ b, Filed m b → Built env b)
    {b : BuiltReport} (hb : Filed (finish call (.committed a) m) b) : Built env b := by
  rcases finish_reports hb with hb | ⟨_, _, _, rfl, he⟩ | ⟨_, _, _, _, rfl, he⟩
  · exact hm b hb
  · cases he
    cases h with
    | quiet hq => cases hq
    | @reportBuild _ _ _ plan parquet => exact ⟨plan, parquet, rfl⟩
  · cases he
    cases h with
    | quiet hq => cases hq
    | reportReserve hb _ => exact hm b (filed_of_reportAt (Or.inl hb))

theorem revision_origin (h : ReportEffect env m c w' call c') {x : ReportRevision}
    (hx : x ∈ c'.revisions) : x ∈ c.revisions ∨
    ∃ ticket lease b number id now, reportAt m ticket = some (lease, .reserved b) ∧
      Outbox.generationOpen b.generation (c.generations.get b.attempt) = true ∧
      Holds env w' b.objectKey b.reportDigest ∧ Holds env w' b.parquetKey b.parquetDigest ∧
      x = ReportRevisionWorker.newRevision b number id now := by
  cases h with
  | same hr => exact Or.inl (hr ▸ hx)
  | published hb hopen hreport hparquet h =>
    generalize c'.revisions = revisions, c'.heads = heads at h hx
    cases h with
    | current => exact Or.inl hx
    | advanced _ hr _ =>
      cases hr with
      | added _ hnew =>
        rcases (Table.mem_insert hnew).mp hx with hx | rfl
        · exact Or.inl hx
        · exact Or.inr ⟨_, _, _, _, _, _, hb, hopen, hreport, hparquet, rfl⟩
      | existing => exact Or.inl hx
  | erased _ hr => exact Or.inl ((hr x).mp hx).1

theorem sourced_new {b : BuiltReport} {number : Nat} {id : Uuid} {now : Instant}
    (hb : Built env b) : Sourced env (ReportRevisionWorker.newRevision b number id now) := by
  obtain ⟨plan, parquet, rfl⟩ := hb
  exact ⟨rfl, _, rfl, rfl⟩

theorem sound_initial : Sound env State.initial where
  catalog := by
    constructor <;> intro x hx <;> exact absurd hx (Table.not_mem_empty x)
  flights x hx := nomatch hx
  live x hx := absurd hx (Table.not_mem_empty x)
  generations x hx := absurd hx (Table.not_mem_empty x)
  reports b hb := by
    obtain ⟨_, _, hb | hb⟩ := hb <;> cases hb
  revisions x hx := absurd hx (Table.not_mem_empty x)
  records x hx := absurd hx (Table.not_mem_empty x)

theorem sound_committed (hm : s'.memory = finish call (.committed a) s.memory)
    (h : Effect env s.memory s.catalog s.objects call a s'.catalog s'.objects) (hs : Sound env s) :
    Sound env s' where
  catalog := admissible_step (effect_admission h) hs.flights hs.catalog
  flights x hx := by
    rw [hm] at hx
    rcases finish_flights hx with ⟨stored, hx⟩ | ⟨_, _, _, _, _, _, _, rfl, he, rfl⟩
    · exact airborne_step (effect_admission h) (hs.flights (_, _, stored) hx)
    · cases he
      exact airborne_new h hs.catalog
  live g hg hd :=
    ((lifecycle_aging (effect_lifecycle h)).origin g hg hd).elim (fun hg => hs.live g hg hd) id
  generations x hx := by
    rcases manifest_origin (effect_admission h) hx with
      hx | ⟨_, _, _, _, _, f, _, _, _, _, hc, _, _, _, _, rfl⟩
    · exact hs.generations x hx
    · exact opened_zero hc.opened hs.live
  reports b hb := built_step h hs.reports (hm ▸ hb)
  revisions r hr := by
    rcases revision_origin (effect_report h) hr with hr | ⟨_, _, b, _, _, _, hb, _, _, _, rfl⟩
    · exact hs.revisions r hr
    · exact sourced_new (hs.reports b (filed_of_reportAt (Or.inr hb)))
  records := effect_records h hs.records

theorem sound_step (h : Step env settings s call e s') (hs : Sound env s) : Sound env s' := by
  obtain ⟨hm, _, hstep⟩ := step_cases h
  rcases hstep with ⟨a, rfl, heff⟩ | ⟨hne, hc, _⟩
  · exact sound_committed hm heff hs
  · refine ⟨hc ▸ hs.catalog, fun x hx => ?_, hc ▸ hs.live, hc ▸ hs.generations, fun b hb => ?_,
      hc ▸ hs.revisions, hc ▸ hs.records⟩
    · rw [hm] at hx
      rcases finish_flights hx with ⟨stored, hx⟩ | ⟨_, _, _, _, _, _, _, _, he, _⟩
      · exact hc ▸ hs.flights (_, _, stored) hx
      · exact absurd he (hne _)
    · rw [hm] at hb
      rcases finish_reports hb with hb | ⟨_, _, _, _, he⟩ | ⟨_, _, _, _, _, he⟩
      · exact hs.reports b hb
      · exact absurd he (hne _)
      · exact absurd he (hne _)

theorem sound_of_run {P : State → Call → Ending Failure Reply → Prop} {s₀ : State}
    (h : RunWhere env settings P s₀ s) (h₀ : Sound env s₀) : Sound env s := by
  induction h with
  | start => exact h₀
  | step _ hs _ ih => exact sound_step hs ih

theorem sound_of_reachable (h : Reachable env settings s) : Sound env s :=
  sound_of_run h sound_initial

end Deployment

end RankLens
