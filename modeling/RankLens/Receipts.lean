import RankLens.Soundness

namespace RankLens

open Interleaving (Ending)
open IngestionService (Flight Prepared receipt)

namespace Deployment

variable {env : Env} {settings : IngestionSettings} {s s' : State} {call : Call} {a : Reply}
  {principal : MachinePrincipal} {segment : SegmentUpload} {r : DurableReceipt}

/-- The `admit` call that ends here returns the receipt for the upload. -/
inductive Returned (m : Memory) :
    Call → Reply → MachinePrincipal → SegmentUpload → DurableReceipt → Prop where
  | replay {ticket : Nat} {principal : MachinePrincipal} {segment : SegmentUpload} {fresh : Uuid}
      {now : Instant} {r : DurableReceipt} :
      Returned m (.admitReserve ticket principal segment fresh now) (.admitted (.replay r))
        principal segment r
  | commit {ticket : Nat} {faults : Faults} {freshReceipt freshOutbox : Uuid}
      {committedAt : Instant} {f : Flight} {r : DurableReceipt}
      (hf : flightAt m ticket true = some f) :
      Returned m (.admitCommit ticket faults freshReceipt freshOutbox committedAt) (.receipt r)
        f.principal f.segment r

/-- The manifest is of the range and payload of the upload, and the receipt is its. -/
structure Names (principal : MachinePrincipal) (segment : SegmentUpload) (r : DurableReceipt)
    (x : SegmentManifest) : Prop where
  receipt : r = IngestionService.receipt x r.replayed
  stream : x.stream = segment.stream principal.tenantId
  first : x.firstSequence = segment.firstSequence
  last : x.lastSequence = segment.lastSequence
  digest : x.payloadSha256 = segment.payloadSha256
  records : x.recordCount = segment.recordCount

def Uses (s : State) (call : Call) (r : AdmissionReservation) : Prop :=
  ∃ ticket faults freshReceipt freshOutbox committedAt f,
    call = .admitCommit ticket faults freshReceipt freshOutbox committedAt ∧
    flightAt s.memory ticket true = some f ∧ r ∈ s.catalog.reservations ∧
    r.reservationId = f.reservationId

/-- What a receipt promises about the catalog it is returned over. -/
structure Promised (s : State) (call : Call) (s' : State) (principal : MachinePrincipal)
    (segment : SegmentUpload) (r : DurableReceipt) (x : SegmentManifest) : Prop where
  mem : x ∈ s'.catalog.manifests
  names : Names principal segment r x
  attempt : r.replayed = false → x.attemptId = segment.attemptId
  credential : r.replayed = false → ∃ res, Uses s call res ∧ x.credentialId = res.credentialId
  generation : x.attemptId = segment.attemptId → ∃ g,
    s'.catalog.generations.get (segment.attempt principal.tenantId) = some g ∧
      x.deletionGeneration = g.generation

theorem opened_get {k : AttemptKey} {t t' : Table AttemptGeneration.attempt} {n : Nat}
    (h : IngestionService.Opened k t n t') : ∃ g, t'.get k = some g ∧ g.generation = n := by
  cases h with
  | first hnone =>
    refine ⟨⟨k.tenantId, k.clusterId, k.attemptId, 0, none⟩, ?_, rfl⟩
    rw [Table.get_insert hnone]
    exact if_pos rfl
  | live hget => exact ⟨_, hget, rfl⟩

theorem records_eq {p : PreparedPayload} {x : SegmentManifest} {tenantId : String}
    (hinj : Function.Injective env.sha256) (hs : Admissible env s.catalog)
    (hx : x ∈ s.catalog.manifests) (hp : Prepared env tenantId segment p)
    (hd : x.payloadSha256 = segment.payloadSha256) : x.recordCount = segment.recordCount := by
  obtain ⟨payload, hdigest, hcount⟩ := hs.payloads x hx
  have he : payload = p.content := hinj (hdigest.trans (hd.trans hp.digest.symm))
  rw [he, hp.records] at hcount
  injection hcount with hcount
  exact hcount.symm

theorem names_exact {p : PreparedPayload} {x : SegmentManifest} {replayed : Bool}
    (hinj : Function.Injective env.sha256) (hs : Admissible env s.catalog)
    (hx : x ∈ s.catalog.manifests) (hp : Prepared env principal.tenantId segment p)
    (hexact : IngestionService.exactFilter principal.tenantId segment x = true)
    (hd : x.payloadSha256 = segment.payloadSha256) :
    Names principal segment (receipt x replayed) x := by
  simp only [IngestionService.exactFilter, IngestionService.rangeFilter, Bool.and_eq_true,
    decide_eq_true_eq] at hexact
  exact ⟨rfl, hexact.1.1, hexact.1.2, hexact.2, hd, records_eq hinj hs hx hp hd⟩

theorem generation_eq {k : AttemptKey} {n : Nat} {gens : Table AttemptGeneration.attempt}
    {x : SegmentManifest} (hs : Sound env s) (hs' : Sound env s')
    (ho : IngestionService.Opened k s.catalog.generations n gens)
    (hgens : s'.catalog.generations = gens) (hx : x ∈ s'.catalog.manifests) :
    ∃ g, s'.catalog.generations.get k = some g ∧ x.deletionGeneration = g.generation := by
  obtain ⟨g, hg, hn⟩ := opened_get ho
  refine ⟨g, hgens ▸ hg, ?_⟩
  rw [hs'.generations x hx, hn, opened_zero ho hs.live]

/-- Every receipt is of a manifest that matches the upload it is returned for. -/
theorem receipt_faithful (hs : Reachable env settings s)
    (hstep : Step env settings s call (.committed a) s')
    (hr : Returned s.memory call a principal segment r) (hinj : Function.Injective env.sha256) :
    ∃ x, Promised s call s' principal segment r x := by
  have hsound := sound_of_reachable hs
  have hsound' := sound_step hstep hsound
  obtain ⟨_, _, ⟨_, he, heff⟩ | ⟨hne, _⟩⟩ := step_cases hstep
  · cases he
    cases hr with
    | replay =>
      generalize hc' : s'.catalog = c', hw' : s'.objects = w' at heff
      cases heff with
      | quiet hq => cases hq
      | admitReserve _ h =>
        cases h with
        | @replay gens x p hp ho hm hx hd =>
          have hmem : x ∈ s'.catalog.manifests := hc' ▸ hm
          exact ⟨x, hmem, names_exact hinj hsound.catalog hm hp hx hd, (fun h => nomatch h),
            (fun h => nomatch h), fun _ => generation_eq hsound hsound' ho (by rw [hc']) hmem⟩
    | @commit _ _ freshReceipt _ committedAt f r hf =>
      have hp := (hsound.flights _ (mem_of_flightAt hf)).prepared
      generalize hc' : s'.catalog = c', hw' : s'.objects = w' at heff
      cases heff with
      | quiet hq => cases hq
      | admitCommit hf' h =>
        rw [hf] at hf'
        cases hf'
        cases h with
        | @replay gens res x hc hm hx hd =>
          have hmem : x ∈ s'.catalog.manifests := hc' ▸ hm
          exact ⟨x, hmem, names_exact hinj hsound.catalog hm hp hx hd, (fun h => nomatch h),
            (fun h => nomatch h), fun _ => generation_eq hsound hsound' hc.opened (by rw [hc']) hmem⟩
        | @fresh gens res records freshOutbox hc hobj hover hi hnew =>
          have hmem : IngestionService.newManifest f res f.segment.deletionGeneration
              freshReceipt committedAt ∈ s'.catalog.manifests := by
            rw [hc']
            exact (Table.mem_insert hnew).mpr (Or.inr rfl)
          refine ⟨_, hmem, ⟨rfl, rfl, rfl, rfl, rfl, rfl⟩, fun _ => rfl, fun _ => ?_,
            fun _ => generation_eq hsound hsound' hc.opened (by rw [hc']) hmem⟩
          exact ⟨res, ⟨_, _, _, _, _, f, rfl, hf, Table.mem_of_get hc.get, Table.key_of_get hc.get⟩, rfl⟩
  · exact absurd rfl (hne a)

theorem segmentUpload_ext {u v : SegmentUpload} (h : u.toSegmentFields = v.toSegmentFields) :
    u = v := by
  cases u
  cases v
  cases h
  rfl

theorem receipt_faithful_sample : ∃ s s' x, Reachable Sample.env Sample.settings s ∧
    Promised s (.admitCommit 0 Faults.none 2 3 4) s' Sample.principal Sample.upload₁
      ⟨2, false, segmentKey Sample.env "acme" "c1" Sample.digest, Sample.digest, 4⟩ x := by
  have h : (runCalls Sample.env Sample.settings (Sample.admission.take 2) .initial).bind (fun s =>
      (answer Sample.env Sample.settings s (.admitCommit 0 Faults.none 2 3 4)).bind (fun r =>
        (flightAt s.memory 0 true).map (fun f => (r.1, f.principal, f.segment.toSegmentFields)))) =
      some (.receipt ⟨2, false, segmentKey Sample.env "acme" "c1" Sample.digest, Sample.digest, 4⟩,
        Sample.principal, Sample.fields "a1") := by decide +kernel
  obtain ⟨s, hs, h⟩ := Option.bind_eq_some_iff.mp h
  obtain ⟨⟨a, s'⟩, ha, h⟩ := Option.bind_eq_some_iff.mp h
  obtain ⟨f, hf, h⟩ := Option.map_eq_some_iff.mp h
  simp only [Prod.mk.injEq] at h
  obtain ⟨rfl, hprincipal, hfields⟩ := h
  have hupload : f.segment = Sample.upload₁ := segmentUpload_ext hfields
  have hreach : Reachable Sample.env Sample.settings s := run_of_runCalls _ _ .start hs
  obtain ⟨x, hx⟩ := receipt_faithful hreach (step_of_answer _ _ ha) (.commit hf)
    Sample.sha256_injective
  rw [hprincipal, hupload] at hx
  exact ⟨s, s', x, hreach, hx⟩

/-- A replay can name the manifest of another attempt, and a completed reservation
keeps the credential that made it. -/
theorem receipt_not_as_uploaded :
    (∃ s s' r, Reachable Sample.env Sample.settings s ∧
      Step Sample.env Sample.settings s (.admitReserve 1 Sample.principal Sample.upload₂ 5 6)
        (.committed (.admitted (.replay r))) s' ∧
      ∀ x ∈ s'.catalog.manifests, x.receiptId = r.receiptId →
        x.attemptId ≠ Sample.upload₂.attemptId) ∧
    ∃ s s' r f, Reachable Sample.env Sample.settings s ∧
      Step Sample.env Sample.settings s (.admitCommit 1 Faults.none 2 3 4)
        (.committed (.receipt r)) s' ∧ flightAt s.memory 1 true = some f ∧ r.replayed = false ∧
      ∀ x ∈ s'.catalog.manifests, x.receiptId = r.receiptId →
        x.credentialId ≠ f.principal.credentialId := by
  constructor
  · have h : (runCalls Sample.env Sample.settings Sample.admission .initial).bind (fun s =>
        (answer Sample.env Sample.settings s (.admitReserve 1 Sample.principal Sample.upload₂ 5 6)).map
          (fun r => (r.1, decide (∀ x ∈ r.2.catalog.manifests.rows, x.receiptId = 2 →
            x.attemptId ≠ Sample.upload₂.attemptId)))) =
        some (.admitted (.replay ⟨2, true, segmentKey Sample.env "acme" "c1" Sample.digest,
          Sample.digest, 4⟩), true) := by decide +kernel
    obtain ⟨s, hs, h⟩ := Option.bind_eq_some_iff.mp h
    obtain ⟨⟨a, s'⟩, ha, h⟩ := Option.map_eq_some_iff.mp h
    simp only [Prod.mk.injEq, decide_eq_true_eq] at h
    obtain ⟨rfl, hx⟩ := h
    exact ⟨s, s', _, run_of_runCalls _ _ .start hs, step_of_answer _ _ ha, hx⟩
  · have h : (runCalls Sample.env Sample.settings
          [.admitReserve 0 Sample.principal Sample.upload₁ 1 0, .admitCrash 0,
            .admitReserve 1 Sample.other Sample.upload₁ 5 0, .admitPut 1 Faults.none]
          .initial).bind (fun s =>
        (answer Sample.env Sample.settings s (.admitCommit 1 Faults.none 2 3 4)).bind (fun r =>
          (flightAt s.memory 1 true).map (fun f => (r.1,
            decide (∀ x ∈ r.2.catalog.manifests.rows, x.receiptId = 2 →
              x.credentialId ≠ f.principal.credentialId))))) =
        some (.receipt ⟨2, false, segmentKey Sample.env "acme" "c1" Sample.digest,
          Sample.digest, 4⟩, true) := by decide +kernel
    obtain ⟨s, hs, h⟩ := Option.bind_eq_some_iff.mp h
    obtain ⟨⟨a, s'⟩, ha, h⟩ := Option.bind_eq_some_iff.mp h
    obtain ⟨f, hf, h⟩ := Option.map_eq_some_iff.mp h
    simp only [Prod.mk.injEq, decide_eq_true_eq] at h
    obtain ⟨rfl, hx⟩ := h
    exact ⟨s, s', _, f, run_of_runCalls _ _ .start hs, step_of_answer _ _ ha, hf, rfl, hx⟩

end Deployment

end RankLens
