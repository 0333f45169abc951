import RankLens.Transition

namespace RankLens

open Interleaving (Ending)
open IngestionService (Flight)

namespace ReservationSweeper

variable {self : ReservationSweeper} {fresh : Uuid → Uuid} {clock : Uuid → Instant}
  {rows : List AdmissionReservation} {c c' : Catalog}

theorem Expiring.others_same {r : AdmissionReservation} (h : self.Expiring fresh clock r c c') :
    c' = { c with
      reservations := c'.reservations
      candidates := c'.candidates
      issued := c'.issued } ∧ c.issued ⊆ c'.issued := by
  cases h
  · exact ⟨rfl, List.Subset.refl _⟩
  · exact ⟨rfl, List.subset_cons_self _ _⟩

theorem Expiring.reservations {r : AdmissionReservation} (h : self.Expiring fresh clock r c c')
    (hr : r ∈ c.reservations) (x : AdmissionReservation) : x ∈ c'.reservations ↔
      (x ∈ c.reservations ∧ x ≠ r) ∨ x = IngestionService.setState .expired r := by
  have he : x ∈ expired r c ↔ (x ∈ c.reservations ∧ x ≠ r) ∨
      x = IngestionService.setState .expired r := Table.mem_modify_of_mem hr
  cases h <;> exact he

theorem Expiring.candidates {r : AdmissionReservation} (h : self.Expiring fresh clock r c c') :
    (∀ g ∈ c.candidates, g ∈ c'.candidates) ∧ (∃ g ∈ c'.candidates, g.objectKey = r.objectKey) ∧
    ∀ g ∈ c'.candidates, g ∈ c.candidates ∨ (g.state = .pending ∧ g.objectKey = r.objectKey ∧
      ∀ x ∈ c.candidates, x.objectKey ≠ r.objectKey) := by
  cases h with
  | known hg hk => exact ⟨fun g hg => hg, ⟨_, hg, hk⟩, fun g hg => Or.inl hg⟩
  | handed hnone hi hnew =>
    refine ⟨fun g hg => Table.mem_insert_of_mem hg, ⟨_, (Table.mem_insert hnew).mpr (Or.inr rfl), rfl⟩,
      fun g hg => ?_⟩
    rcases (Table.mem_insert hnew).mp hg with hg | rfl
    · exact Or.inl hg
    · exact Or.inr ⟨rfl, rfl, hnone⟩

theorem Sweeping.others_same (h : self.Sweeping fresh clock rows c c') :
    c' = { c with
      reservations := c'.reservations
      candidates := c'.candidates
      issued := c'.issued } ∧ c.issued ⊆ c'.issued := by
  obtain ⟨-, hc⟩ := h
  induction hc with
  | nil => exact ⟨rfl, List.Subset.refl _⟩
  | cons hx _ ih =>
    obtain ⟨he, hi⟩ := hx.2.others_same
    refine ⟨?_, List.Subset.trans hi ih.2⟩
    rw [ih.1, he]

theorem Sweeping.reservations (h : self.Sweeping fresh clock rows c c')
    (x : AdmissionReservation) : x ∈ c'.reservations ↔ (x ∈ c.reservations ∧ x ∉ rows) ∨
      ∃ r ∈ rows, x = IngestionService.setState .expired r := by
  obtain ⟨hrows, hc⟩ := h
  replace hrows : ∀ r ∈ rows, r.state = .reserved := fun r hr => (hrows r hr).2
  induction hc with
  | nil => simp
  | @cons r rows c₁ c₂ c₃ hr _ ih =>
    rw [List.forall_mem_cons] at hrows
    refine (ih hrows.2).trans ?_
    rw [hr.2.reservations hr.1]
    simp only [List.mem_cons, not_or, exists_eq_or_imp]
    constructor
    · rintro (⟨⟨hx, hne⟩ | hx, hn⟩ | hx)
      · exact Or.inl ⟨hx, hne, hn⟩
      · exact Or.inr (Or.inl hx)
      · exact Or.inr (Or.inr hx)
    · rintro (⟨hx, hne, hn⟩ | hx | hx)
      · exact Or.inl ⟨Or.inl ⟨hx, hne⟩, hn⟩
      · refine Or.inl ⟨Or.inr hx, fun hm => ?_⟩
        have hs := hrows.2 x hm
        rw [hx] at hs
        cases hs
      · exact Or.inr hx

theorem Sweeping.candidates (h : self.Sweeping fresh clock rows c c') :
    (∀ g ∈ c.candidates, g ∈ c'.candidates) ∧
    (∀ r ∈ rows, ∃ g ∈ c'.candidates, g.objectKey = r.objectKey) ∧
    ∀ g ∈ c'.candidates, g ∈ c.candidates ∨ (g.state = .pending ∧
      (∃ r ∈ rows, g.objectKey = r.objectKey) ∧ ∀ x ∈ c.candidates, x.objectKey ≠ g.objectKey) := by
  obtain ⟨-, hc⟩ := h
  induction hc with
  | nil => exact ⟨fun _ h => h, fun r hr => (nomatch hr), fun _ h => Or.inl h⟩
  | @cons r rows c₁ c₂ c₃ hr _ ih =>
    obtain ⟨hkeep, hall, hnew⟩ := ih
    obtain ⟨hkeep₁, ⟨g₁, hg₁, hk₁⟩, hnew₁⟩ := hr.2.candidates
    refine ⟨fun g hg => hkeep g (hkeep₁ g hg), ?_, fun g hg => ?_⟩
    · rw [List.forall_mem_cons]
      exact ⟨⟨g₁, hkeep g₁ hg₁, hk₁⟩, hall⟩
    · rcases hnew g hg with hg | ⟨hs, ⟨r', hr', hk⟩, hnone⟩
      · refine (hnew₁ g hg).imp_right (fun ⟨hs, hk, hnone⟩ => ⟨hs, ⟨r, List.mem_cons_self, hk⟩, ?_⟩)
        rw [hk]
        exact hnone
      · exact Or.inr ⟨hs, ⟨r', List.mem_cons_of_mem _ hr', hk⟩, fun x hx => hnone x (hkeep₁ x hx)⟩

end ReservationSweeper

namespace ObjectGcAuditWorker

variable {c c' : Catalog} {w : ObjectStore} {rows : List ObjectGcCandidate}

theorem Auditing.others_same {g : ObjectGcCandidate} (h : Auditing w g c c') :
    c' = { c with
      candidates := c'.candidates
      incidents := c'.incidents
      notifications := c'.notifications
      issued := c'.issued } ∧ c.issued ⊆ c'.issued := by
  cases h with
  | kept _ hn _ =>
    obtain ⟨hi⟩ := hn
    exact ⟨rfl, hi⟩
  | missing _ _ _ => exact ⟨rfl, List.Subset.refl _⟩

theorem audits_others_same
    (h : Txn.Chain (fun g c c' => g ∈ c.candidates ∧ Auditing w g c c') rows c c') :
    c' = { c with
      candidates := c'.candidates
      incidents := c'.incidents
      notifications := c'.notifications
      issued := c'.issued } ∧ c.issued ⊆ c'.issued := by
  induction h with
  | nil => exact ⟨rfl, List.Subset.refl _⟩
  | cons hx _ ih =>
    obtain ⟨he, hi⟩ := hx.2.others_same
    refine ⟨?_, List.Subset.trans hi ih.2⟩
    rw [ih.1, he]

theorem audits_tracked
    (h : Txn.Chain (fun g c c' => g ∈ c.candidates ∧ Auditing w g c c') rows c c')
    {key : ObjectKey} (hw : w key ≠ none) (ht : Tracked c.candidates key) :
    Tracked c'.candidates key := by
  refine Txn.Chain.preserves (P := fun c => Tracked c.candidates key) h
    (fun g _ c c' ⟨_, hg⟩ ht => ?_) ht
  cases hg with
  | kept hs _ hm =>
    refine hm.tracked ?_ ht
    rcases hs with rfl | rfl | rfl <;> rfl
  | missing hnone _ hm => exact hm.tracked_of_ne (fun hk => hw (hk ▸ hnone)) ht

theorem audits_oneEach
    (h : Txn.Chain (fun g c c' => g ∈ c.candidates ∧ Auditing w g c c') rows c c')
    (ht : OneEach c.candidates) : OneEach c'.candidates := by
  refine Txn.Chain.preserves (P := fun c => OneEach c.candidates) h
    (fun g _ c c' ⟨_, hg⟩ ht => ?_) ht
  cases hg with
  | kept _ _ hm => exact hm.oneEach ht
  | missing _ _ hm => exact hm.oneEach ht

end ObjectGcAuditWorker

namespace ReportRevisionWorker

variable {a : ObjectKey × String} {artifacts : List (ObjectKey × String)}
  {t t' : Table ObjectGcCandidate.candidateId} {key : ObjectKey}

theorem Ensuring.tracked (h : Ensuring a t t') (ht : Tracked t key) : Tracked t' key := by
  cases h with
  | added => exact ht.imp (fun g hg => ⟨Table.mem_insert_of_mem hg.1, hg.2⟩)
  | kept => exact ht
  | revived hk hd hm => exact hm.tracked rfl ht

theorem spent_live {state : CandidateState} (h : spent state = false) : state.live = true := by
  cases state <;> first | rfl | cases h

theorem Ensuring.tracked_self (h : Ensuring a t t') : Tracked t' a.1 := by
  cases h with
  | added hnone hnew hk hd hs => exact ⟨_, (Table.mem_insert hnew).mpr (Or.inr rfl), hk, by rw [hs]; rfl⟩
  | kept hg hk hd hs => exact ⟨_, hg, hk, spent_live hs⟩
  | revived hk hd hm => exact hk ▸ hm.tracked_self rfl

theorem Ensuring.oneEach (h : Ensuring a t t') (ht : OneEach t) : OneEach t' := by
  cases h with
  | added hnone hnew hk hd hs =>
    intro x hx x' hx' hkey
    rcases (Table.mem_insert hnew).mp hx with hm | hm
    · rcases (Table.mem_insert hnew).mp hx' with hm' | hm'
      · exact ht x hm x' hm' hkey
      · exact absurd (hkey.trans (hm' ▸ hk)) (hnone x hm)
    · rcases (Table.mem_insert hnew).mp hx' with hm' | hm'
      · exact absurd (hkey.symm.trans (hm ▸ hk)) (hnone x' hm')
      · rw [hm, hm']
  | kept => exact ht
  | revived hk hd hm => exact hm.oneEach ht

theorem ensured_tracked (h : Txn.Chain Ensuring artifacts t t') :
    (∀ key, Tracked t key → Tracked t' key) ∧ ∀ a ∈ artifacts, Tracked t' a.1 := by
  induction h with
  | nil => exact ⟨fun _ h => h, fun a ha => (nomatch ha)⟩
  | cons hx _ ih =>
    refine ⟨fun key ht => ih.1 key (hx.tracked ht), ?_⟩
    rw [List.forall_mem_cons]
    exact ⟨ih.1 _ hx.tracked_self, ih.2⟩

theorem protected_tracked (h : Txn.Chain Protecting artifacts t t') (ht : Tracked t key) :
    Tracked t' key :=
  h.preserves (fun _ _ _ _ ⟨_, _, _, hm⟩ ht => hm.tracked rfl ht) ht

theorem ensured_oneEach (h : Txn.Chain Ensuring artifacts t t') (ht : OneEach t) : OneEach t' :=
  h.preserves (fun _ _ _ _ hx ht => hx.oneEach ht) ht

theorem protected_oneEach (h : Txn.Chain Protecting artifacts t t') (ht : OneEach t) : OneEach t' :=
  h.preserves (fun _ _ _ _ ⟨_, _, _, hm⟩ ht => hm.oneEach ht) ht

end ReportRevisionWorker

namespace Deployment

open AttemptDeletionWorker (Cleared Erasable Executing Claiming Failing)

variable {env : Env} {m : Memory} {c c' : Catalog} {w w' : ObjectStore} {call : Call} {a : Reply}

/-- What a commit does to the manifests and the reservations. -/
inductive AdmissionEffect (env : Env) (m : Memory) (c : Catalog) (w : ObjectStore) :
    Call → Reply → Catalog → Prop where
  | same {call : Call} {a : Reply} {c' : Catalog} (hm : c'.manifests = c.manifests)
      (hr : c'.reservations = c.reservations) (hi : c.issued ⊆ c'.issued)
      (ha : ∀ ticket faults freshReceipt freshOutbox committedAt,
        call ≠ .admitCommit ticket faults freshReceipt freshOutbox committedAt) :
      AdmissionEffect env m c w call a c'
  | reserved {ticket : Nat} {principal : MachinePrincipal} {segment : SegmentUpload} {fresh : Uuid}
      {now : Instant} {p : PreparedPayload} {c' : Catalog}
      (hp : IngestionService.Prepared env principal.tenantId segment p)
      (hover : ∀ m ∈ c.manifests, IngestionService.overlapFilter principal.tenantId segment m = false)
      (hold : ∀ r ∈ c.reservations, IngestionService.sameRange principal.tenantId segment r = true →
        r.refers = false)
      (hfresh : fresh ∉ c.issued) (hm : c'.manifests = c.manifests)
      (hr : ∀ r, r ∈ c'.reservations ↔
        (r ∈ c.reservations ∧ IngestionService.sameRange principal.tenantId segment r = false) ∨
          r = IngestionService.newReservation principal segment p segment.deletionGeneration fresh now)
      (hi : c'.issued = fresh :: c.issued) :
      AdmissionEffect env m c w (.admitReserve ticket principal segment fresh now)
        (.admitted (.reserved p fresh)) c'
  | replayed {ticket : Nat} {faults : Faults} {freshReceipt freshOutbox : Uuid}
      {committedAt : Instant} {f : Flight} {r : AdmissionReservation} {x : SegmentManifest}
      {gens : Table AttemptGeneration.attempt} {c' : Catalog} (hf : flightAt m ticket true = some f)
      (hc : IngestionService.Commits f c r gens) (hx : x ∈ c.manifests)
      (hexact : IngestionService.exactFilter f.principal.tenantId f.segment x = true)
      (hd : x.payloadSha256 = f.segment.payloadSha256) (hm : c'.manifests = c.manifests)
      (hr : c'.reservations = IngestionService.commitReservation f c) (hi : c'.issued = c.issued) :
      AdmissionEffect env m c w (.admitCommit ticket faults freshReceipt freshOutbox committedAt)
        (.receipt (IngestionService.receipt x true)) c'
  | admitted {ticket : Nat} {faults : Faults} {freshReceipt freshOutbox : Uuid}
      {committedAt : Instant} {f : Flight} {r : AdmissionReservation}
      {gens : Table AttemptGeneration.attempt} {c' : Catalog} (hf : flightAt m ticket true = some f)
      (hc : IngestionService.Commits f c r gens)
      (hobj : Holds env w f.prepared.objectKey f.segment.payloadSha256)
      (hover : ∀ m ∈ c.manifests,
        IngestionService.overlapFilter f.principal.tenantId f.segment m = false)
      (hfresh : freshReceipt ∉ c.issued)
      (hm : ∀ x, x ∈ c'.manifests ↔ x ∈ c.manifests ∨
        x = IngestionService.newManifest f r f.segment.deletionGeneration freshReceipt committedAt)
      (hr : c'.reservations = IngestionService.commitReservation f c)
      (hi : freshReceipt :: c.issued ⊆ c'.issued) :
      AdmissionEffect env m c w (.admitCommit ticket faults freshReceipt freshOutbox committedAt)
        (.receipt (IngestionService.receipt (IngestionService.newManifest f r
          f.segment.deletionGeneration freshReceipt committedAt) false)) c'
  | swept {self : ReservationSweeper} {now : Instant} {skip : List Uuid} {fresh : Uuid → Uuid}
      {clock : Uuid → Instant} {rows : List AdmissionReservation} {c' : Catalog} {n : Nat}
      (hrows : ∀ r ∈ rows, r ∈ c.reservations ∧ r.state = .reserved)
      (hm : c'.manifests = c.manifests)
      (hr : ∀ x, x ∈ c'.reservations ↔ (x ∈ c.reservations ∧ x ∉ rows) ∨
        ∃ r ∈ rows, x = IngestionService.setState .expired r)
      (hi : c.issued ⊆ c'.issued) :
      AdmissionEffect env m c w (.reservationSweep self now skip fresh clock) (.swept n) c'
  | erased {l : DeletionLease} {faults : Faults} {now : Instant} {c' : Catalog} (hc : Cleared l c)
      (hm : ∀ x, x ∈ c'.manifests ↔ x ∈ c.manifests ∧ x.attempt ≠ l.attempt)
      (hr : ∀ x, x ∈ c'.reservations ↔ x ∈ c.reservations ∧ x.attempt ≠ l.attempt)
      (hi : c'.issued = c.issued) :
      AdmissionEffect env m c w (.deletionExecute l faults now) (.erased true) c'

theorem importing_others_same {b : TombstoneBundle} {actor : String}
    (h : Recovery.Importing actor b c c') : c' = { c with
      generations := c'.generations
      deletions := c'.deletions
      holds := c'.holds
      imports := c'.imports } := by
  cases h with
  | replayed => rfl
  | @imported imports c₁ hc =>
    have hsame : c₁ = { c with
        generations := c₁.generations
        deletions := c₁.deletions
        holds := c₁.holds } := by
      generalize b.entries = es at hc
      induction hc with
      | nil => rfl
      | cons hx _ ih =>
        rw [ih]
        cases hx <;> rfl
    rw [hsame]

theorem effect_admission (h : Effect env m c w call a c' w') : AdmissionEffect env m c w call a c' := by
  cases h with
  | quiet hq h =>
    refine .same h.manifests h.reservations h.issued ?_
    rintro _ _ _ _ _ rfl
    cases hq
  | admitReserve _ h =>
    cases h with
    | replay => exact .same rfl rfl (List.Subset.refl _) (by simp)
    | reuse => exact .same rfl rfl (List.Subset.refl _) (by simp)
    | fresh hp _ hover hold hi ht => exact .reserved hp hover hold hi rfl ht rfl
  | admitPut => exact .same rfl rfl (List.Subset.refl _) (by simp)
  | admitCommit hf h =>
    cases h with
    | replay hc hx hexact hd => exact .replayed hf hc hx hexact hd rfl rfl rfl
    | fresh hc hobj hover hi hnew _ _ _ _ =>
      exact .admitted hf hc hobj hover hi (fun x => Table.mem_insert hnew) rfl
        (List.subset_cons_self _ _)
  | deleteAttempt h => cases h <;> exact .same rfl rfl (List.Subset.refl _) (by simp)
  | retentionDelete h => cases h <;> exact .same rfl rfl (List.Subset.refl _) (by simp)
  | placeAttemptHold h => cases h <;> exact .same rfl rfl (List.Subset.refl _) (by simp)
  | releaseAttemptHold h => cases h <;> exact .same rfl rfl (List.Subset.refl _) (by simp)
  | reservationSweep h =>
    obtain ⟨hsame, hi⟩ := h.others_same
    exact .swept h.1 (by rw [hsame]) h.reservations hi
  | objectGc h => cases h <;> exact .same rfl rfl (List.Subset.refl _) (by simp)
  | objectGcAudit h =>
    obtain ⟨hsame, hi⟩ := ObjectGcAuditWorker.audits_others_same h
    exact .same (by rw [hsame]) (by rw [hsame]) hi (by simp)
  | reportBuild h => exact .same h.manifests h.reservations h.issued (by simp)
  | reportReserve _ h =>
    obtain ⟨t, issued, _, hi, rfl⟩ := h
    exact .same rfl rfl hi (by simp)
  | reportPublish _ h =>
    cases h with
    | aside => exact .same rfl rfl (List.Subset.refl _) (by simp)
    | published _ _ _ _ _ _ _ _ hi _ _ => exact .same rfl rfl hi (by simp)
  | deletionClaim h => cases h <;> exact .same rfl rfl (List.Subset.refl _) (by simp)
  | deletionExecute h =>
    cases h with
    | stale => exact .same rfl rfl (List.Subset.refl _) (by simp)
    | heldBack => exact .same rfl rfl (List.Subset.refl _) (by simp)
    | erased hget hcur hfree hgen hfenced hg hrows hw hnone =>
      refine .erased ⟨⟨_, hget, hcur⟩, hfree, _, hgen, hfenced, hg⟩ hrows.manifests
        hrows.reservations ?_
      show _ = _
      rw [hrows.others]
  | deletionFail h => cases h <;> exact .same rfl rfl (List.Subset.refl _) (by simp)
  | applyCompletedTombstones h =>
    have hsame := importing_others_same h
    refine .same (by rw [hsame]) (by rw [hsame]) ?_ (by simp)
    rw [hsame]
    exact List.Subset.refl _

/-- What a commit does to the generations, the holds and the deletion requests. -/
inductive LifecycleEffect (c : Catalog) (w : ObjectStore) : Call → Catalog → ObjectStore → Prop where
  | same {call : Call} {c' : Catalog} {w' : ObjectStore} (hg : c'.generations = c.generations)
      (hh : c'.holds = c.holds) (hd : c'.deletions = c.deletions) : LifecycleEffect c w call c' w'
  | opened {call : Call} {c' : Catalog} {w' : ObjectStore} {k : AttemptKey} {g : Nat}
      (h : IngestionService.Opened k c.generations g c'.generations)
      (hh : c'.holds = c.holds) (hd : c'.deletions = c.deletions) : LifecycleEffect c w call c' w'
  | deleting {call : Call} {c' : Catalog} {k : AttemptKey} {now : Instant} {d : Deleted}
      (h : IngestionService.Deleting k now c d c') : LifecycleEffect c w call c' w
  | placing {call : Call} {c' : Catalog} {k : AttemptKey} {holdId : Uuid}
      {reason credentialId : String} {now : Instant}
      (h : IngestionService.Placing k holdId reason credentialId now c c') :
      LifecycleEffect c w call c' w
  | releasing {call : Call} {c' : Catalog} {holdId : Uuid} {credentialId : String}
      {releasedAt now : Instant} {b : Bool}
      (h : IngestionService.Releasing holdId credentialId releasedAt now c b c') :
      LifecycleEffect c w call c' w
  | claiming {call : Call} {c' : Catalog} {owner : String} {expiresAt now : Instant}
      {l : Option DeletionLease} (h : Claiming owner expiresAt now c l c') :
      LifecycleEffect c w call c' w
  | failing {call : Call} {c' : Catalog} {l : DeletionLease} {message : String}
      (h : Failing l message c c') : LifecycleEffect c w call c' w
  | executing {l : DeletionLease} {faults : Faults} {now : Instant} {done : Bool} {c' : Catalog}
      {w' : ObjectStore} (h : Executing l now c w done c' w') :
      LifecycleEffect c w (.deletionExecute l faults now) c' w'
  | importing {call : Call} {c' : Catalog} {b : TombstoneBundle} {actor : String}
      (h : Recovery.Importing actor b c c') : LifecycleEffect c w call c' w

theorem effect_lifecycle (h : Effect env m c w call a c' w') : LifecycleEffect c w call c' w' := by
  cases h with
  | quiet _ h => exact .same h.generations h.holds h.deletions
  | admitReserve _ h =>
    cases h with
    | replay _ ho => exact .opened ho rfl rfl
    | reuse _ ho => exact .opened ho rfl rfl
    | fresh _ ho => exact .opened ho rfl rfl
  | admitPut => exact .same rfl rfl rfl
  | admitCommit _ h =>
    cases h with
    | replay hc => exact .opened hc.opened rfl rfl
    | fresh hc => exact .opened hc.opened rfl rfl
  | deleteAttempt h => exact .deleting h
  | retentionDelete h => exact .deleting h
  | placeAttemptHold h => exact .placing h
  | releaseAttemptHold h => exact .releasing h
  | reservationSweep h =>
    obtain ⟨hsame, _⟩ := h.others_same
    exact .same (by rw [hsame]) (by rw [hsame]) (by rw [hsame])
  | objectGc h => cases h <;> exact .same rfl rfl rfl
  | objectGcAudit h =>
    obtain ⟨hsame, _⟩ := ObjectGcAuditWorker.audits_others_same h
    exact .same (by rw [hsame]) (by rw [hsame]) (by rw [hsame])
  | reportBuild h => exact .same h.generations h.holds h.deletions
  | reportReserve _ h =>
    obtain ⟨t, issued, _, _, rfl⟩ := h
    exact .same rfl rfl rfl
  | reportPublish _ h => cases h <;> exact .same rfl rfl rfl
  | deletionClaim h => exact .claiming h
  | deletionExecute h => exact .executing h
  | deletionFail h => exact .failing h
  | applyCompletedTombstones h => exact .importing h

/-- What a commit does to the revisions and the heads. -/
inductive ReportEffect (env : Env) (m : Memory) (c : Catalog) (w' : ObjectStore) :
    Call → Catalog → Prop where
  | same {call : Call} {c' : Catalog} (hr : c'.revisions = c.revisions) (hh : c'.heads = c.heads) :
      ReportEffect env m c w' call c'
  | published {ticket : Nat} {self : ReportRevisionWorker} {faults : Faults}
      {fresh : ObjectKey → Uuid} {freshRevision : Uuid} {now : Instant} {lease : WorkLease}
      {b : BuiltReport} {c' : Catalog} (hb : reportAt m ticket = some (lease, .reserved b))
      (hopen : Outbox.generationOpen b.generation (c.generations.get b.attempt) = true)
      (hreport : Holds env w' b.objectKey b.reportDigest)
      (hparquet : Holds env w' b.parquetKey b.parquetDigest)
      (h : ReportRevisionWorker.Heading b c c'.revisions c'.heads) :
      ReportEffect env m c w' (.reportPublish ticket self faults fresh freshRevision now) c'
  | erased {l : DeletionLease} {faults : Faults} {now : Instant} {c' : Catalog} (hc : Cleared l c)
      (hr : ∀ x, x ∈ c'.revisions ↔ x ∈ c.revisions ∧ x.attempt ≠ l.attempt)
      (hh : ∀ x, x ∈ c'.heads ↔ x ∈ c.heads ∧ x.attempt ≠ l.attempt) :
      ReportEffect env m c w' (.deletionExecute l faults now) c'

theorem effect_report (h : Effect env m c w call a c' w') : ReportEffect env m c w' call c' := by
  cases h with
  | quiet _ h => exact .same h.revisions h.heads
  | admitReserve _ h => cases h <;> exact .same rfl rfl
  | admitPut => exact .same rfl rfl
  | admitCommit _ h => cases h <;> exact .same rfl rfl
  | deleteAttempt h => cases h <;> exact .same rfl rfl
  | retentionDelete h => cases h <;> exact .same rfl rfl
  | placeAttemptHold h => cases h <;> exact .same rfl rfl
  | releaseAttemptHold h => cases h <;> exact .same rfl rfl
  | reservationSweep h =>
    obtain ⟨hsame, _⟩ := h.others_same
    exact .same (by rw [hsame]) (by rw [hsame])
  | objectGc h => cases h <;> exact .same rfl rfl
  | objectGcAudit h =>
    obtain ⟨hsame, _⟩ := ObjectGcAuditWorker.audits_others_same h
    exact .same (by rw [hsame]) (by rw [hsame])
  | reportBuild h => exact .same h.revisions h.heads
  | reportReserve _ h =>
    obtain ⟨t, issued, _, _, rfl⟩ := h
    exact .same rfl rfl
  | reportPublish hb h =>
    cases h with
    | aside => exact .same rfl rfl
    | published hopen _ _ hreport hparquet _ _ hheads _ _ _ =>
      exact .published hb hopen hreport hparquet hheads
  | deletionClaim h => cases h <;> exact .same rfl rfl
  | deletionExecute h =>
    cases h with
    | stale => exact .same rfl rfl
    | heldBack => exact .same rfl rfl
    | erased hget hcur hfree hgen hfenced hg hrows hw hnone =>
      exact .erased ⟨⟨_, hget, hcur⟩, hfree, _, hgen, hfenced, hg⟩ hrows.revisions hrows.heads
  | deletionFail h => cases h <;> exact .same rfl rfl
  | applyCompletedTombstones h =>
    have hsame := importing_others_same h
    exact .same (by rw [hsame]) (by rw [hsame])

/-- No commit binds two attempts to one scheduler job. -/
theorem effect_records (h : Effect env m c w call a c' w') (hc : Tables.records.NoClash c.records) :
    Tables.records.NoClash c'.records := by
  cases h with
  | quiet _ h => exact h.records hc
  | admitReserve _ h => cases h <;> exact hc
  | admitPut => exact hc
  | admitCommit _ h =>
    cases h with
    | replay => exact hc
    | fresh _ _ _ _ _ _ _ hrecords _ => exact hrecords hc
  | deleteAttempt h => cases h <;> exact hc
  | retentionDelete h => cases h <;> exact hc
  | placeAttemptHold h => cases h <;> exact hc
  | releaseAttemptHold h => cases h <;> exact hc
  | reservationSweep h =>
    rw [h.others_same.1]
    exact hc
  | objectGc h => cases h <;> exact hc
  | objectGcAudit h =>
    rw [(ObjectGcAuditWorker.audits_others_same h).1]
    exact hc
  | reportBuild h => exact h.records hc
  | reportReserve _ h =>
    obtain ⟨t, issued, _, _, rfl⟩ := h
    exact hc
  | reportPublish _ h => cases h <;> exact hc
  | deletionClaim h => cases h <;> exact hc
  | deletionExecute h =>
    cases h with
    | stale => exact hc
    | heldBack => exact hc
    | erased _ _ _ _ _ _ hrows =>
      intro x hx y hy
      exact hc x ((hrows.records x).mp hx).1 y ((hrows.records y).mp hy).1
  | deletionFail h => cases h <;> exact hc
  | applyCompletedTombstones h =>
    rw [importing_others_same h]
    exact hc

/-- Generations grow, deletions stay, and what is still live is in generation zero
or was there before. -/
structure Aging (t t' : Table AttemptGeneration.attempt) : Prop where
  monotone : ∀ x ∈ t, ∃ y ∈ t', y.attempt = x.attempt ∧ x.generation ≤ y.generation ∧
    (x.deletedAt ≠ none → y.deletedAt ≠ none)
  origin : ∀ y ∈ t', y.deletedAt = none → y ∈ t ∨ y.generation = 0

section aging

variable {t t' : Table AttemptGeneration.attempt}

theorem Aging.refl (t : Table AttemptGeneration.attempt) : Aging t t :=
  ⟨fun x hx => ⟨x, hx, rfl, le_refl _, id⟩, fun _ hy _ => Or.inl hy⟩

theorem Aging.trans {t'' : Table AttemptGeneration.attempt} (h : Aging t t') (h' : Aging t' t'') :
    Aging t t'' where
  monotone x hx := by
    obtain ⟨y, hy, hk, hg, hd⟩ := h.monotone x hx
    obtain ⟨z, hz, hk', hg', hd'⟩ := h'.monotone y hy
    exact ⟨z, hz, hk'.trans hk, hg.trans hg', fun hx => hd' (hd hx)⟩
  origin z hz hlive := by
    rcases h'.origin z hz hlive with hz | h0
    · exact h.origin z hz hlive
    · exact Or.inr h0

theorem aging_insert {r : AttemptGeneration} (h : r.deletedAt = none → r.generation = 0) :
    Aging t (t.insert r) where
  monotone x hx := ⟨x, Table.mem_insert_of_mem hx, rfl, le_refl _, id⟩
  origin y hy hlive := by
    rcases Table.mem_of_mem_insert hy with hy | rfl
    · exact Or.inl hy
    · exact Or.inr (h hlive)

theorem aging_modify {k : AttemptKey} {r : AttemptGeneration} {f : AttemptGeneration → AttemptGeneration}
    {hf : ∀ x, (f x).attempt = x.attempt} (hget : t.get k = some r)
    (hg : r.generation ≤ (f r).generation) (hd : (f r).deletedAt ≠ none) :
    Aging t (t.modify k f hf) := by
  have hr := Table.mem_of_get hget
  obtain rfl := Table.key_of_get hget
  refine ⟨fun x hx => ?_, fun y hy hlive => ?_⟩
  · by_cases hxr : x = r
    · subst hxr
      exact ⟨f x, (Table.mem_modify_of_mem hr).mpr (Or.inr rfl), hf x, hg, fun _ => hd⟩
    · exact ⟨x, (Table.mem_modify_of_mem hr).mpr (Or.inl ⟨hx, hxr⟩), rfl, le_refl _, id⟩
  · rcases (Table.mem_modify_of_mem hr).mp hy with ⟨hy, _⟩ | rfl
    · exact Or.inl hy
    · exact absurd hlive hd

theorem opened_aging {k : AttemptKey} {g : Nat} (h : IngestionService.Opened k t g t') : Aging t t' := by
  cases h with
  | first => exact aging_insert (fun _ => rfl)
  | live => exact .refl t

theorem fencing_aging {k : AttemptKey} {now : Instant} {g : Nat × Instant}
    (h : IngestionService.Fencing k now t g t') : Aging t t' := by
  cases h with
  | first => exact aging_insert (fun h => nomatch h)
  | live hget => exact aging_modify hget (Nat.le_succ _) (fun h => nomatch h)
  | already => exact .refl t

theorem unfenced_aging {k : AttemptKey} (h : IngestionService.Unfenced k t t') : Aging t t' := by
  cases h with
  | new => exact aging_insert (fun _ => rfl)
  | same => exact .refl t

theorem entombing_aging {e : TombstoneEntry} (h : Recovery.Entombing e t t') : Aging t t' := by
  cases h with
  | first => exact aging_insert (fun h => nomatch h)
  | known hget hg => exact aging_modify hget hg (fun h => nomatch h)

end aging

theorem importing_aging {b : TombstoneBundle} {actor : String} (h : Recovery.Importing actor b c c') :
    Aging c.generations c'.generations := by
  cases h with
  | replayed => exact .refl _
  | imported hc =>
    show Aging c.generations _
    refine Txn.Chain.preserves (P := fun x => Aging c.generations x.generations) hc ?_ (.refl _)
    intro e _ x x' hx hage
    cases hx with
    | stale => exact hage
    | applied hgens => exact hage.trans (entombing_aging hgens)

theorem lifecycle_aging (h : LifecycleEffect c w call c' w') : Aging c.generations c'.generations := by
  cases h with
  | same hg => exact hg ▸ .refl _
  | opened h => exact opened_aging h
  | deleting h =>
    cases h with
    | blocked _ hgens => exact unfenced_aging hgens
    | fenced _ hgens => exact fencing_aging hgens
  | placing h => cases h <;> exact .refl _
  | releasing h =>
    cases h with
    | already => exact .refl _
    | other => exact .refl _
    | last _ _ _ _ _ _ hgens => exact fencing_aging hgens
  | claiming h => cases h <;> exact .refl _
  | failing h => cases h <;> exact .refl _
  | executing h =>
    cases h with
    | stale => exact .refl _
    | heldBack => exact .refl _
    | @erased d g found rows c₁ w₁ _ _ _ _ _ _ hrows =>
      show Aging c.generations c₁.generations
      rw [hrows.others]
      exact .refl _
  | importing h => exact importing_aging h

end Deployment

end RankLens
