import RankLens.Ownership
import RankLens.Receipts

namespace RankLens

open Interleaving (Ending)
open IngestionService (Flight Prepared receipt)

namespace Txn

theorem wp_const {σ ω L ε α : Type} {t : Txn σ ω L ε α} {P : Prop} {s : σ} {w : ω} (h : P) :
    t.wp (fun _ => True) (fun _ => True) (fun _ _ _ => P) s w := by
  induction t generalizing s w with
  | done a => exact h
  | fail e => trivial
  | acquire l t ih => exact ih
  | query k ih => exact ih s
  | change f t ih => exact ih
  | effect f k ih => exact ⟨trivial, ih w⟩

end Txn

namespace Deployment

variable {env : Env} {settings : IngestionSettings} {s s' : State} {call : Call} {a : Reply}
  {e : Ending Failure Reply} {m : Memory} {principal : MachinePrincipal} {segment : SegmentUpload}
  {t : StreamKey} {k : AttemptKey} {x : SegmentManifest} {r : DurableReceipt}

/-- The call is for the attempt when it is for the stream. -/
def Owned (t : StreamKey) (k : AttemptKey) : Call → Prop
  | .admitReserve _ principal segment _ _ =>
    segment.stream principal.tenantId = t → segment.attempt principal.tenantId = k
  | _ => True

/-- The manifest is of the stream, the range and the digest of the upload. -/
structure Carries (principal : MachinePrincipal) (segment : SegmentUpload)
    (x : SegmentManifest) : Prop where
  stream : x.stream = segment.stream principal.tenantId
  first : x.firstSequence = segment.firstSequence
  last : x.lastSequence = segment.lastSequence
  digest : x.payloadSha256 = segment.payloadSha256

/-- The receipt is of a manifest of the catalog that carries the upload. -/
def Answers (c : Catalog) (principal : MachinePrincipal) (segment : SegmentUpload)
    (r : DurableReceipt) : Prop :=
  ∃ x ∈ c.manifests, r = receipt x r.replayed ∧ Carries principal segment x

/-- The checks of `admit` that look only at the request pass, and it asks for the
generation of a live attempt. -/
structure Acceptable (env : Env) (settings : IngestionSettings) (principal : MachinePrincipal)
    (segment : SegmentUpload) : Prop where
  scope : segment.clusterId ∈ principal.clusters
  prepared : ∃ p, IngestionService.preparePayload env settings principal.tenantId segment = .ok p
  generation : segment.deletionGeneration = 0

/-- The step adds no manifest and no outbox entry, and counts nothing. -/
structure Unmoved (s s' : State) : Prop where
  manifests : s'.catalog.manifests = s.catalog.manifests
  outbox : s'.catalog.outbox = s.catalog.outbox
  records : s'.catalog.records = s.catalog.records

theorem carries_of_exact (h : IngestionService.exactFilter principal.tenantId segment x = true)
    (hd : x.payloadSha256 = segment.payloadSha256) : Carries principal segment x := by
  simp only [IngestionService.exactFilter, IngestionService.rangeFilter, Bool.and_eq_true,
    decide_eq_true_eq] at h
  exact ⟨h.1.1, h.1.2, h.2, hd⟩

theorem Carries.exact (h : Carries principal segment x) :
    IngestionService.exactFilter principal.tenantId segment x = true := by
  simp only [IngestionService.exactFilter, IngestionService.rangeFilter, Bool.and_eq_true,
    decide_eq_true_eq]
  exact ⟨⟨h.stream, h.first⟩, h.last⟩

theorem Carries.overlap (h : Carries principal segment x) :
    IngestionService.overlapFilter principal.tenantId segment x = true := by
  have hordered := segment.valid.ordered
  simp only [IngestionService.overlapFilter, IngestionService.rangeFilter, Bool.and_eq_true,
    decide_eq_true_eq]
  exact ⟨⟨h.stream, h.first ▸ hordered⟩, h.last ▸ hordered⟩

theorem admitReserve_accepts {c : Catalog} {w : ObjectStore} {fresh : Uuid} {now : Instant} :
    (IngestionService.admitReserve env settings principal segment fresh now).wp (fun _ => True)
      (fun _ => True) (fun _ _ _ => segment.clusterId ∈ principal.clusters ∧
        (∃ p, IngestionService.preparePayload env settings principal.tenantId segment = .ok p) ∧
        ∃ gens, IngestionService.Opened (segment.attempt principal.tenantId) c.generations
          segment.deletionGeneration gens) c w := by
  simp only [IngestionService.admitReserve, IngestionService.assertScope,
    IngestionService.lockAdmission, Txn.wp_bind, Txn.wp_raiseIf, wp_orRaise, Txn.wp_lock,
    Ref.wp_select, not_not]
  refine ⟨fun _ => trivial, fun hscope => ⟨fun _ _ => trivial, fun p hp => ?_⟩⟩
  refine Txn.wp_post (IngestionService.currentGeneration_spec (fun _ _ => trivial)) ?_
  rintro g _ _ ⟨rfl, gens, ho, rfl⟩
  refine ⟨fun _ => trivial, fun hg => ?_⟩
  rw [hg] at ho
  exact Txn.wp_const ⟨hscope, ⟨p, hp⟩, gens, ho⟩

theorem acceptable_of_reserve {ticket : Nat} {fresh : Uuid} {now : Instant} (hs : Sound env s)
    (h : Step env settings s (.admitReserve ticket principal segment fresh now) (.committed a) s') :
    Acceptable env settings principal segment := by
  obtain ⟨hscope, hp, gens, ho⟩ := committed_of_wp (Q := fun _ _ _ =>
    segment.clusterId ∈ principal.clusters ∧
      (∃ p, IngestionService.preparePayload env settings principal.tenantId segment = .ok p) ∧
      ∃ gens, IngestionService.Opened (segment.attempt principal.tenantId) s.catalog.generations
        segment.deletionGeneration gens) h (fun t ht => by
    simp only [program] at ht
    split at ht
    · cases ht
    · cases ht
      rw [Txn.wp_map]
      exact admitReserve_accepts)
  exact ⟨hscope, hp, opened_zero ho hs.live⟩

theorem currentGeneration_live {c : Catalog} {w : ObjectStore} {A : ObjectStore → Prop}
    {E : Failure → Prop} {tenantId : String}
    (hlive : ¬Fenced (segment.attempt tenantId) c) :
    (IngestionService.currentGeneration tenantId segment).wp A E
      (fun g c' w' => w' = w ∧ ∃ gens, IngestionService.Opened (segment.attempt tenantId)
        c.generations g gens ∧ c' = { c with generations := gens }) c w :=
  IngestionService.currentGeneration_opened (fun r h hd =>
    absurd ⟨r, Table.mem_of_get h, Table.key_of_get h, hd⟩ hlive)

theorem admitReserve_replay {c : Catalog} {w : ObjectStore} {fresh : Uuid} {now : Instant}
    (hacc : Acceptable env settings principal segment)
    (hlive : ¬Fenced (segment.attempt principal.tenantId) c)
    (hzero : ∀ g ∈ c.generations, g.deletedAt = none → g.generation = 0)
    (hx : x ∈ c.manifests) (hcarries : Carries principal segment x)
    (hone : ∀ y ∈ c.manifests, IngestionService.exactFilter principal.tenantId segment y = true →
      y = x) :
    (IngestionService.admitReserve env settings principal segment fresh now).wp (fun _ => True)
      (fun _ => False) (fun a _ _ => a = .replay (receipt x true)) c w := by
  obtain ⟨p, hp⟩ := hacc.prepared
  simp only [IngestionService.admitReserve, IngestionService.assertScope,
    IngestionService.lockAdmission, Txn.wp_bind, Txn.wp_raiseIf, wp_orRaise, Txn.wp_lock,
    Ref.wp_select, not_not]
  refine ⟨fun hscope => hscope hacc.scope, fun _ => ⟨fun f hf => ?_, fun p' _ => ?_⟩⟩
  · rw [hp] at hf
    cases hf
  refine Txn.wp_post (currentGeneration_live hlive) ?_
  rintro g _ _ ⟨rfl, gens, ho, rfl⟩
  have hg : g = segment.deletionGeneration := (opened_zero ho hzero).trans hacc.generation.symm
  refine ⟨fun hne => hne hg, fun _ => ?_⟩
  have hselected : (c.manifests.select
      (IngestionService.exactFilter principal.tenantId segment)).head? = some x := by
    have hsingle : c.manifests.select (IngestionService.exactFilter principal.tenantId segment) =
        [x] := Table.select_eq_singleton (fun y =>
      ⟨fun hy => hone y hy.1 hy.2, fun hy => hy ▸ ⟨hx, hcarries.exact⟩⟩)
    rw [hsingle]
    rfl
  simp only [Tables.manifests_view, hselected, Txn.wp_bind, Txn.wp_raiseIf, Txn.wp_pure]
  exact ⟨fun hd => hd hcarries.digest, fun _ => trivial⟩

theorem ending_of_wp {E : Failure → Prop} {Q : Reply → Prop} (h : Step env settings s call e s')
    (hQ : ∀ t, program env settings s.memory call = some t →
      t.wp (fun _ => True) E (fun a _ _ => Q a) s.catalog s.objects) :
    e = .died ∨ (∃ a, e = .committed a ∧ Q a) ∨ ∃ f, e = .raised f ∧ E f := by
  cases h with
  | die _ => exact Or.inl rfl
  | run h =>
    unfold State.run at h
    cases ht : program env settings s.memory call with
    | none =>
      rw [ht] at h
      cases h
    | some t =>
      rw [ht] at h
      simp only [Txn.atomically] at h
      cases hr : t.run s.catalog s.objects with
      | mk r w' =>
        rw [hr] at h
        cases r with
        | ok r =>
          cases h
          exact Or.inr (Or.inl ⟨_, rfl, Txn.run_of_wp (hQ t ht) hr⟩)
        | error f =>
          cases h
          exact Or.inr (Or.inr ⟨f, rfl, Txn.run_error_of_wp (hQ t ht) hr⟩)

theorem unmoved_of_reserve {ticket : Nat} {fresh : Uuid} {now : Instant}
    (h : Step env settings s (.admitReserve ticket principal segment fresh now) e s') :
    Unmoved s s' := by
  obtain ⟨_, _, ⟨a, rfl, heff⟩ | ⟨_, hc, _⟩⟩ := step_cases h
  · generalize hc' : s'.catalog = c', hw' : s'.objects = w' at heff
    cases heff with
    | quiet hq => cases hq
    | admitReserve _ h =>
      cases h with
      | replay _ _ _ _ _ => exact ⟨by rw [hc'], by rw [hc'], by rw [hc']⟩
      | reuse _ _ _ _ _ _ _ => exact ⟨by rw [hc'], by rw [hc'], by rw [hc']⟩
      | fresh _ _ _ _ _ _ => exact ⟨by rw [hc'], by rw [hc'], by rw [hc']⟩
  · exact ⟨by rw [hc], by rw [hc], by rw [hc]⟩

theorem unmoved_of_commit {ticket : Nat} {faults : Faults} {freshReceipt freshOutbox : Uuid}
    {committedAt : Instant} {f : Flight}
    (h : Step env settings s (.admitCommit ticket faults freshReceipt freshOutbox committedAt) e s')
    (hf : flightAt s.memory ticket true = some f) (hx : x ∈ s.catalog.manifests)
    (hcarries : Carries f.principal f.segment x) : Unmoved s s' := by
  obtain ⟨_, _, ⟨a, rfl, heff⟩ | ⟨_, hc, _⟩⟩ := step_cases h
  · generalize hc' : s'.catalog = c', hw' : s'.objects = w' at heff
    cases heff with
    | quiet hq => cases hq
    | admitCommit hf' h =>
      rw [hf] at hf'
      cases hf'
      cases h with
      | replay _ _ _ _ => exact ⟨by rw [hc'], by rw [hc'], by rw [hc']⟩
      | fresh _ _ hfree =>
        have hover := hfree x hx
        rw [hcarries.overlap] at hover
        cases hover
  · exact ⟨by rw [hc], by rw [hc], by rw [hc]⟩

/-- What the server keeps true of a stream whose segments belong to one live attempt. -/
structure Served (env : Env) (settings : IngestionSettings) (t : StreamKey) (k : AttemptKey)
    (s : State) : Prop where
  live : ¬Fenced k s.catalog
  flights : ∀ y ∈ s.memory.flights, Acceptable env settings y.2.1.principal y.2.1.segment ∧
    (y.2.1.segment.stream y.2.1.principal.tenantId = t → y.2.1.attempt = k)
  manifests : ∀ y ∈ s.catalog.manifests, y.stream = t → y.attempt = k
  ordered : ∀ y ∈ s.catalog.manifests, y.firstSequence ≤ y.lastSequence
  receipts : ∀ y ∈ s.memory.receipts, Acceptable env settings y.1 y.2.1 ∧
    (y.2.1.stream y.1.tenantId = t →
      y.2.1.attempt y.1.tenantId = k ∧ Answers s.catalog y.1 y.2.1 y.2.2)

theorem served_initial : Served env settings t k .initial where
  live := fun ⟨g, hg, _⟩ => Table.not_mem_empty g hg
  flights := fun _ hy => nomatch hy
  manifests := fun y hy => absurd hy (Table.not_mem_empty y)
  ordered := fun y hy => absurd hy (Table.not_mem_empty y)
  receipts := fun _ hy => nomatch hy

theorem manifest_kept (h : Step env settings s call e s') (hlive : ¬Fenced k s.catalog)
    (hx : x ∈ s.catalog.manifests) (hk : x.attempt = k) : x ∈ s'.catalog.manifests := by
  obtain ⟨_, _, ⟨a, rfl, heff⟩ | ⟨_, hc, _⟩⟩ := step_cases h
  · cases effect_admission heff with
    | same hm _ _ _ => exact hm ▸ hx
    | reserved _ _ _ _ hm _ _ => exact hm ▸ hx
    | replayed _ _ _ _ _ hm _ _ => exact hm ▸ hx
    | admitted _ _ _ _ _ hm _ _ => exact (hm x).mpr (Or.inl hx)
    | swept _ hm _ _ => exact hm ▸ hx
    | erased hcleared hm _ _ =>
      refine (hm x).mpr ⟨hx, fun hl => hlive ?_⟩
      rw [← hk, hl]
      exact fenced_of_cleared hcleared
  · exact hc ▸ hx

theorem receipts_finish {y : MachinePrincipal × SegmentUpload × DurableReceipt}
    (h : y ∈ (finish call e m).receipts) : y ∈ m.receipts ∨
      ∃ a, e = .committed a ∧ Returned m call a y.1 y.2.1 y.2.2 := by
  unfold finish at h
  split at h
  case h_2 =>
    obtain rfl | h := List.mem_cons.mp h
    · exact Or.inr ⟨_, rfl, .replay⟩
    · exact Or.inl h
  case h_5 =>
    split at h
    · next f hf =>
      obtain rfl | h := List.mem_cons.mp h
      · exact Or.inr ⟨_, rfl, .commit hf⟩
      · exact Or.inl h
    · exact Or.inl h
  all_goals first
    | exact Or.inl h
    | (split at h <;> exact Or.inl h)

theorem receipts_kept {y : MachinePrincipal × SegmentUpload × DurableReceipt}
    (h : y ∈ m.receipts) : y ∈ (finish call e m).receipts := by
  unfold finish
  split
  case h_2 => exact List.mem_cons_of_mem _ h
  case h_5 =>
    split
    · exact List.mem_cons_of_mem _ h
    · exact h
  all_goals first
    | exact h
    | (split <;> exact h)

theorem answers_of_returned (h : Step env settings s call (.committed a) s')
    (hr : Returned s.memory call a principal segment r) :
    Answers s'.catalog principal segment r := by
  obtain ⟨_, _, ⟨_, he, heff⟩ | ⟨hne, _⟩⟩ := step_cases h
  · cases he
    cases hr with
    | replay =>
      generalize hc' : s'.catalog = c', hw' : s'.objects = w' at heff
      cases heff with
      | quiet hq => cases hq
      | admitReserve _ h =>
        cases h with
        | @replay gens y p hp ho hm hexact hd => exact ⟨y, hm, rfl, carries_of_exact hexact hd⟩
    | @commit _ _ freshReceipt _ committedAt f r hf =>
      generalize hc' : s'.catalog = c', hw' : s'.objects = w' at heff
      cases heff with
      | quiet hq => cases hq
      | admitCommit hf' h =>
        rw [hf] at hf'
        cases hf'
        cases h with
        | @replay gens res y hc hm hexact hd => exact ⟨y, hm, rfl, carries_of_exact hexact hd⟩
        | @fresh gens res records freshOutbox hc hobj hover hi hnew =>
          exact ⟨_, (Table.mem_insert hnew).mpr (Or.inr rfl), rfl, rfl, rfl, rfl, rfl⟩
  · exact absurd rfl (hne a)

theorem acceptable_of_returned (hs : Sound env s) (h : Step env settings s call (.committed a) s')
    (hown : Owned t k call) (hi : Served env settings t k s)
    (hr : Returned s.memory call a principal segment r) :
    Acceptable env settings principal segment ∧
      (segment.stream principal.tenantId = t → segment.attempt principal.tenantId = k) := by
  cases hr with
  | replay => exact ⟨acceptable_of_reserve hs h, hown⟩
  | commit hf => exact hi.flights _ (mem_of_flightAt hf)

theorem served_step (hs : Sound env s) (h : Step env settings s call e s')
    (hown : Owned t k call) (hlive : ¬Fenced k s'.catalog) (hi : Served env settings t k s) :
    Served env settings t k s' := by
  obtain ⟨hm, _, hcases⟩ := step_cases h
  refine ⟨hlive, fun y hy => ?_, fun y hy hstream => ?_, fun y hy => ?_, fun y hy => ?_⟩
  · rw [hm] at hy
    obtain ⟨stored, hold⟩ | ⟨ticket, p, u, fresh, now, prepared, id, rfl, rfl, rfl⟩ :=
      finish_flights hy
    · exact hi.flights (y.1, y.2.1, stored) hold
    · exact ⟨acceptable_of_reserve hs h, hown⟩
  · obtain ⟨a, rfl, heff⟩ | ⟨_, hc, _⟩ := hcases
    · obtain hold | ⟨_, _, _, _, _, f, res, gens, _, hf, _, _, _, _, _, rfl⟩ :=
        manifest_origin (effect_admission heff) hy
      · exact hi.manifests y hold hstream
      · exact (hi.flights _ (mem_of_flightAt hf)).2 hstream
    · exact hi.manifests y (hc ▸ hy) hstream
  · obtain ⟨a, rfl, heff⟩ | ⟨_, hc, _⟩ := hcases
    · obtain hold | ⟨_, _, _, _, _, f, res, gens, _, _, _, _, _, _, _, rfl⟩ :=
        manifest_origin (effect_admission heff) hy
      · exact hi.ordered y hold
      · exact f.segment.valid.ordered
    · exact hi.ordered y (hc ▸ hy)
  · rw [hm] at hy
    obtain hold | ⟨a, rfl, hr⟩ := receipts_finish hy
    · obtain ⟨hacc, howned⟩ := hi.receipts y hold
      refine ⟨hacc, fun hstream => ?_⟩
      obtain ⟨hk, x, hx, hreceipt, hcarries⟩ := howned hstream
      have hxk := hi.manifests x hx (hcarries.stream.trans hstream)
      exact ⟨hk, x, manifest_kept h hi.live hx hxk, hreceipt, hcarries⟩
    · obtain ⟨hacc, howned⟩ := acceptable_of_returned hs h hown hi hr
      exact ⟨hacc, fun hstream => ⟨howned hstream, answers_of_returned h hr⟩⟩

/-- A delivery of an upload whose manifest is committed is replayed, and moves nothing. -/
theorem redelivered (hs : Sound env s) (hlive : ¬Fenced (segment.attempt principal.tenantId) s.catalog)
    (hacc : Acceptable env settings principal segment) (hx : x ∈ s.catalog.manifests)
    (hcarries : Carries principal segment x) {ticket : Nat} {fresh : Uuid} {now : Instant}
    (h : Step env settings s (.admitReserve ticket principal segment fresh now) e s') :
    (e = .died ∨ e = .committed (.admitted (.replay (receipt x true)))) ∧ Unmoved s s' := by
  refine ⟨?_, unmoved_of_reserve h⟩
  have hone : ∀ y ∈ s.catalog.manifests,
      IngestionService.exactFilter principal.tenantId segment y = true → y = x := by
    intro y hy hexact
    simp only [IngestionService.exactFilter, IngestionService.rangeFilter, Bool.and_eq_true,
      decide_eq_true_eq] at hexact
    have hordered := segment.valid.ordered
    refine hs.catalog.ranges y hy x hx (hexact.1.1.trans hcarries.stream.symm) ?_ ?_
    · rw [hexact.1.2, hcarries.last]
      exact hordered
    · rw [hexact.2, hcarries.first]
      exact hordered
  have hending := ending_of_wp (E := fun _ => False)
    (Q := fun a => a = .admitted (.replay (receipt x true))) h (fun t ht => by
      simp only [program] at ht
      split at ht
      · cases ht
      · cases ht
        rw [Txn.wp_map]
        refine Txn.wp_post (admitReserve_replay hacc hlive hs.live hx hcarries hone) ?_
        rintro _ _ _ rfl
        rfl)
  obtain hdied | ⟨a, rfl, rfl⟩ | ⟨f, _, hf⟩ := hending
  · exact Or.inl hdied
  · exact Or.inr rfl
  · exact hf.elim

end Deployment

end RankLens
