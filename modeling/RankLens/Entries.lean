import RankLens.Evidence
import RankLens.Soundness

namespace RankLens

open Interleaving (Ending)
open IngestionService (Flight)
open AttemptDeletionWorker (Cleared RowsErased OutboxOf)
open ReportRevisionWorker (inputsOf inputFingerprint Heading Publishing)

def ReportStage.plan : ReportStage → ReportPlan
  | .planned plan => plan
  | .built report => report.toReportPlan
  | .reserved report => report.toReportPlan

namespace Deployment

variable {env : Env} {settings : IngestionSettings} {m : Memory} {c c' : Catalog}
  {w w' : ObjectStore} {s s' : State} {call : Call} {a : Reply} {e : Ending Failure Reply}
  {l : WorkLease} {r r' : OutboxRecord}

/-- The two records are the same entry, under leases of their own. -/
structure SameEntry (r r' : OutboxRecord) : Prop where
  outboxId : r'.outboxId = r.outboxId
  tenantId : r'.tenantId = r.tenantId
  eventType : r'.eventType = r.eventType
  aggregateId : r'.aggregateId = r.aggregateId
  payloadJson : r'.payloadJson = r.payloadJson

theorem SameEntry.refl (r : OutboxRecord) : SameEntry r r := ⟨rfl, rfl, rfl, rfl, rfl⟩

/-- Why a lease was given up, and the state it left its entry in. -/
inductive Closing (env : Env) (m : Memory) (c c' : Catalog) (l : WorkLease) : OutboxState → Prop where
  | failed {state : OutboxState} (hs : state = .pending ∨ state = .failed) : Closing env m c c' l state
  | normalized {ticket : Nat} {p : Publication} {n : NormalizedSegment}
      (hp : lookup m.publications ticket = some (l, p)) (hn : c'.normalized.get p.receiptId = some n)
      (hd : n.payloadSha256 = p.payloadSha256) : Closing env m c c' l .completed
  | unnormalized {ticket : Nat} {p : Publication} (hp : lookup m.publications ticket = some (l, p))
      (hclosed : Outbox.generationOpen p.deletionGeneration (c.generations.get p.attempt) = false) :
      Closing env m c c' l .suppressed
  | reported {ticket : Nat} {b : BuiltReport} (hb : reportAt m ticket = some (l, .reserved b))
      (hopen : Outbox.generationOpen b.generation (c.generations.get b.attempt) = true)
      (hcurrent : inputFingerprint env (inputsOf b.attempt b.generation c) = b.fingerprint)
      (hheads : Heading b c c'.revisions c'.heads) (hn : c'.normalized = c.normalized) :
      Closing env m c c' l .completed
  | unreported {ticket : Nat} {b : BuiltReport} (hb : reportAt m ticket = some (l, .reserved b))
      (hclosed : Outbox.generationOpen b.generation (c.generations.get b.attempt) = false) :
      Closing env m c c' l .suppressed

inductive Turn (env : Env) (m : Memory) (c c' : Catalog) (r : OutboxRecord) : OutboxRecord → Prop where
  | kept : Turn env m c c' r r
  | leased {owner : String} {expiresAt : Instant} :
      Turn env m c c' r (Outbox.lease r owner expiresAt r)
  | closed {l : WorkLease} {state : OutboxState} {lastError : Option String}
      (hid : r.outboxId = l.outboxId) (howner : r.leaseOwner = some l.owner)
      (hg : r.leaseGeneration = l.generation) (h : Closing env m c c' l state) :
      Turn env m c c' r (Outbox.close state lastError r)

theorem Turn.same (h : Turn env m c c' r r') : SameEntry r r' := by
  cases h <;> exact ⟨rfl, rfl, rfl, rfl, rfl⟩

inductive Added (m : Memory) (c c' : Catalog) : OutboxRecord → Prop where
  | admitted {f : Flight} {res : AdmissionReservation} {id freshReceipt : Uuid} {committedAt : Instant}
      (hi : id ∉ freshReceipt :: c.issued) (hi' : id ∈ c'.issued)
      (hm : c'.manifests = c.manifests.insert (IngestionService.newManifest f res
        f.segment.deletionGeneration freshReceipt committedAt))
      (hget : c.manifests.get freshReceipt = none) :
      Added m c c' (IngestionService.newOutbox f id freshReceipt committedAt)
  | requested {ticket : Nat} {l : WorkLease} {p : Publication} {id : Uuid} {now : Instant}
      (hp : lookup m.publications ticket = some (l, p)) (hi : id ∉ c.issued) (hi' : id ∈ c'.issued)
      (hcur : ∃ r ∈ c.outbox, r.outboxId = l.outboxId) (hm : c'.manifests = c.manifests) :
      Added m c c' (OutboxWorker.newRequest p id now)

theorem leaseOwner_of_current (h : Outbox.current l r = true) :
    r.leaseOwner = some l.owner ∧ r.leaseGeneration = l.generation := by
  simp only [Outbox.current, Bool.and_eq_true, decide_eq_true_eq] at h
  exact ⟨h.1.2, h.2⟩

theorem turn_modify {t : Table OutboxRecord.outboxId} {id : Uuid} (f : OutboxRecord → OutboxRecord)
    (hf : ∀ r, (f r).outboxId = r.outboxId) (hr : r ∈ t)
    (h : r.outboxId = id → Turn env m c c' r (f r)) :
    ∃ r' ∈ t.modify id f hf, Turn env m c c' r r' := by
  by_cases hid : r.outboxId = id
  · exact ⟨f r, Table.mem_modify.mpr (Or.inr ⟨r, hr, hid, rfl⟩), h hid⟩
  · exact ⟨r, Table.mem_modify.mpr (Or.inl ⟨hr, hid⟩), .kept⟩

theorem turn_close {t : Table OutboxRecord.outboxId} {r₀ : OutboxRecord} {state : OutboxState}
    {lastError : Option String} (hr : r ∈ t) (hget : t.get l.outboxId = some r₀)
    (howner : r₀.leaseOwner = some l.owner) (hg : r₀.leaseGeneration = l.generation)
    (h : Closing env m c c' l state) : ∃ r' ∈ t.modify l.outboxId (Outbox.close state lastError)
      (fun _ => rfl), Turn env m c c' r r' := by
  refine turn_modify (Outbox.close state lastError) (fun _ => rfl) hr (fun hid => ?_)
  obtain rfl : r = r₀ :=
    Table.eq_of_key hr (Table.mem_of_get hget) (hid.trans (Table.key_of_get hget).symm)
  exact .closed hid howner hg h

theorem outbox_turn (he : EvidenceEffect env m c w call a c' w') (hr : r ∈ c.outbox) :
    (∃ r' ∈ c'.outbox, Turn env m c c' r r') ∨ ∃ l, Cleared l c ∧ OutboxOf l.attempt c r ∧
      ∀ x ∈ c'.outbox, x.outboxId ≠ r.outboxId := by
  cases he with
  | same h =>
    rw [h.outbox]
    exact Or.inl ⟨r, hr, .kept⟩
  | admitted _ _ _ _ hnew _ _ ho =>
    rw [ho]
    exact Or.inl ⟨r, Table.mem_insert_of_mem hr, .kept⟩
  | leased h =>
    left
    cases h with
    | none => exact ⟨r, hr, .kept⟩
    | @leased r₀ hr₀ =>
      refine turn_modify (Outbox.lease r₀ _ _) (fun _ => rfl) hr (fun hid => ?_)
      obtain rfl := Table.eq_of_key hr hr₀ hid
      exact .leased
  | failed _ h =>
    left
    cases h with
    | stale => exact ⟨r, hr, .kept⟩
    | failed hget howner hg =>
      refine turn_close hr hget howner hg (.failed ?_)
      split
      · exact Or.inr rfl
      · exact Or.inl rfl
  | normalized hp h =>
    left
    cases h with
    | stale => exact ⟨r, hr, .kept⟩
    | suppressed hget hcur hclosed =>
      obtain ⟨howner, hg⟩ := leaseOwner_of_current hcur
      exact turn_close hr hget howner hg (.unnormalized hp hclosed)
    | known hget hcur _ hn hd =>
      obtain ⟨howner, hg⟩ := leaseOwner_of_current hcur
      exact turn_close hr hget howner hg (.normalized hp hn hd)
    | @normalized r₀ outbox hget hcur _ hnone _ hrows =>
      obtain ⟨howner, hg⟩ := leaseOwner_of_current hcur
      by_cases hr₀ : r = r₀
      · subst hr₀
        refine ⟨_, (hrows _).mpr (Or.inr (Or.inl rfl)), .closed (Table.key_of_get hget) howner hg ?_⟩
        exact .normalized hp ((Table.get_insert hnone).trans (if_pos rfl)) rfl
      · exact ⟨r, (hrows r).mpr (Or.inl ⟨hr, hr₀⟩), .kept⟩
  | reported hb h =>
    left
    cases h with
    | aside h =>
      cases h with
      | stale => exact ⟨r, hr, .kept⟩
      | suppressed hget hcur hclosed =>
        obtain ⟨howner, hg⟩ := leaseOwner_of_current hcur
        exact turn_close hr hget howner hg (.unreported hb hclosed)
      | changed hget hcur =>
        obtain ⟨howner, hg⟩ := leaseOwner_of_current hcur
        exact turn_close hr hget howner hg (.failed (Or.inl rfl))
    | published hopen hcurrent _ _ _ _ _ hheads _ hget hcur =>
      obtain ⟨howner, hg⟩ := leaseOwner_of_current hcur
      exact turn_close hr hget howner hg (.reported hb hopen hcurrent hheads rfl)
  | @erased l _ _ _ _ _ hc hrows =>
    by_cases ho : OutboxOf l.attempt c r
    · refine Or.inr ⟨l, hc, ho, fun x hx hid => ?_⟩
      obtain ⟨hx, hkeep⟩ := (hrows.outbox x).mp hx
      exact hkeep (Table.eq_of_key hx hr hid ▸ ho)
    · exact Or.inl ⟨r, (hrows.outbox r).mpr ⟨hr, ho⟩, .kept⟩

theorem origin_modify {t : Table OutboxRecord.outboxId} {id : Uuid} (f : OutboxRecord → OutboxRecord)
    (hf : ∀ r, (f r).outboxId = r.outboxId) (hr : r' ∈ t.modify id f hf) :
    ∃ r ∈ t, r.outboxId = r'.outboxId := by
  rcases Table.mem_modify.mp hr with ⟨hr, _⟩ | ⟨x, hx, _, rfl⟩
  · exact ⟨r', hr, rfl⟩
  · exact ⟨x, hx, (hf x).symm⟩

theorem outbox_origin (he : EvidenceEffect env m c w call a c' w') (hr : r' ∈ c'.outbox) :
    (∃ r ∈ c.outbox, r.outboxId = r'.outboxId) ∨ Added m c c' r' := by
  cases he with
  | same h =>
    rw [h.outbox] at hr
    exact Or.inl ⟨r', hr, rfl⟩
  | admitted _ _ _ hi hnew hget hm ho _ _ hissued =>
    rw [ho] at hr
    rcases (Table.mem_insert hnew).mp hr with hr | rfl
    · exact Or.inl ⟨r', hr, rfl⟩
    · exact Or.inr (.admitted hi (hissued ▸ List.mem_cons_self) hm hget)
  | leased h =>
    cases h with
    | none => exact Or.inl ⟨r', hr, rfl⟩
    | leased => exact Or.inl (origin_modify (Outbox.lease _ _ _) (fun _ => rfl) hr)
  | failed _ h =>
    cases h with
    | stale => exact Or.inl ⟨r', hr, rfl⟩
    | failed => exact Or.inl (origin_modify (Outbox.close _ _) (fun _ => rfl) hr)
  | normalized hp h =>
    cases h with
    | stale => exact Or.inl ⟨r', hr, rfl⟩
    | suppressed => exact Or.inl (origin_modify (Outbox.close _ _) (fun _ => rfl) hr)
    | known => exact Or.inl (origin_modify (Outbox.close _ _) (fun _ => rfl) hr)
    | @normalized r₀ outbox hget _ _ _ hi hrows =>
      rcases (hrows r').mp hr with ⟨hr, _⟩ | rfl | rfl
      · exact Or.inl ⟨r', hr, rfl⟩
      · exact Or.inl ⟨r₀, Table.mem_of_get hget, rfl⟩
      · exact Or.inr (.requested hp hi List.mem_cons_self
          ⟨r₀, Table.mem_of_get hget, Table.key_of_get hget⟩ rfl)
  | reported _ h =>
    cases h with
    | aside h =>
      cases h with
      | stale => exact Or.inl ⟨r', hr, rfl⟩
      | suppressed => exact Or.inl (origin_modify (Outbox.close _ _) (fun _ => rfl) hr)
      | changed => exact Or.inl (origin_modify (Outbox.close _ _) (fun _ => rfl) hr)
    | published => exact Or.inl (origin_modify (Outbox.close _ _) (fun _ => rfl) hr)
  | erased _ hrows => exact Or.inl ⟨r', ((hrows.outbox r').mp hr).1, rfl⟩

theorem outbox_cases (he : EvidenceEffect env m c w call a c' w') (hr : r' ∈ c'.outbox) :
    (∃ r ∈ c.outbox, Turn env m c c' r r') ∨ Added m c c' r' := by
  rcases outbox_origin he hr with ⟨r, hm, hid⟩ | hadd
  · left
    refine ⟨r, hm, ?_⟩
    rcases outbox_turn he hm with ⟨r'', hr'', ht⟩ | ⟨l, _, _, hgone⟩
    · obtain rfl : r'' = r' := Table.eq_of_key hr'' hr (ht.same.outboxId.trans hid)
      exact ht
    · exact absurd hid.symm (hgone r' hr)
  · exact Or.inr hadd

/-- The manifests and the normalized segments stay, but for those of an erased attempt. -/
inductive Extent (c c' : Catalog) : Prop where
  | grown (hm : ∀ x ∈ c.manifests, x ∈ c'.manifests) (hn : ∀ n ∈ c.normalized, n ∈ c'.normalized)
  | erased {l : DeletionLease} (hc : Cleared l c)
      (ho : ∀ x, x ∈ c'.outbox ↔ x ∈ c.outbox ∧ ¬OutboxOf l.attempt c x)
      (hn : ∀ n, n ∈ c'.normalized ↔ n ∈ c.normalized ∧
        ∀ x ∈ c.manifests, x.attempt = l.attempt → n.receiptId ≠ x.receiptId)
      (hm : ∀ x, x ∈ c'.manifests ↔ x ∈ c.manifests ∧ x.attempt ≠ l.attempt)

theorem evidence_extent (he : EvidenceEffect env m c w call a c' w') : Extent c c' := by
  cases he with
  | same h => exact .grown (fun x hx => h.manifests ▸ hx) (fun n hn => h.normalized ▸ hn)
  | admitted _ _ _ _ _ _ hm _ hn =>
    exact .grown (fun x hx => hm ▸ Table.mem_insert_of_mem hx) (fun n hx => hn ▸ hx)
  | leased => exact .grown (fun _ hx => hx) (fun _ hn => hn)
  | failed => exact .grown (fun _ hx => hx) (fun _ hn => hn)
  | normalized _ h =>
    cases h with
    | normalized => exact .grown (fun _ hx => hx) (fun _ hn => Table.mem_insert_of_mem hn)
    | _ => exact .grown (fun _ hx => hx) (fun _ hn => hn)
  | reported _ h => cases h <;> exact .grown (fun _ hx => hx) (fun _ hn => hn)
  | erased hc hrows => exact .erased hc hrows.outbox hrows.normalized hrows.manifests

theorem manifests_fresh (he : EvidenceEffect env m c w call a c' w') {x : SegmentManifest}
    (hx : x ∈ c'.manifests) : x ∈ c.manifests ∨ x.receiptId ∉ c.issued := by
  cases he with
  | same h => exact Or.inl (h.manifests ▸ hx)
  | admitted _ _ hfresh _ _ hget hm =>
    rw [hm] at hx
    rcases (Table.mem_insert hget).mp hx with hx | rfl
    · exact Or.inl hx
    · exact Or.inr hfresh
  | leased => exact Or.inl hx
  | failed => exact Or.inl hx
  | normalized _ h => cases h <;> exact Or.inl hx
  | reported _ h => cases h <;> exact Or.inl hx
  | erased _ hrows => exact Or.inl ((hrows.manifests x).mp hx).1

inductive Normalized (m : Memory) (c c' : Catalog) : NormalizedSegment → Prop where
  | new {ticket : Nat} {l : WorkLease} {p : Publication} {now : Instant}
      (hp : lookup m.publications ticket = some (l, p)) (hcur : ∃ r ∈ c.outbox, r.outboxId = l.outboxId)
      (hopen : Outbox.generationOpen p.deletionGeneration (c.generations.get p.attempt) = true)
      (hnone : c.normalized.get p.receiptId = none) (hm : c'.manifests = c.manifests)
      (hreq : ∃ id, OutboxWorker.newRequest p id now ∈ c'.outbox) :
      Normalized m c c' (OutboxWorker.newNormalized p now)

theorem normalized_origin (he : EvidenceEffect env m c w call a c' w') {n : NormalizedSegment}
    (hn : n ∈ c'.normalized) : n ∈ c.normalized ∨ Normalized m c c' n := by
  cases he with
  | same h => exact Or.inl (h.normalized ▸ hn)
  | admitted _ _ _ _ _ _ _ _ h => exact Or.inl (h ▸ hn)
  | leased => exact Or.inl hn
  | failed => exact Or.inl hn
  | normalized hp h =>
    cases h with
    | @normalized r _ hget _ hopen hnone _ hrows =>
      rcases (Table.mem_insert hnone).mp hn with hn | rfl
      · exact Or.inl hn
      · exact Or.inr (.new hp ⟨r, Table.mem_of_get hget, Table.key_of_get hget⟩ hopen hnone rfl
          ⟨_, (hrows _).mpr (Or.inr (Or.inr rfl))⟩)
    | _ => exact Or.inl hn
  | reported _ h => cases h <;> exact Or.inl hn
  | erased _ hrows => exact Or.inl ((hrows.normalized n).mp hn).1

structure Requests (k : AttemptKey) (r : OutboxRecord) : Prop where
  event : r.eventType = .reportRequested
  tenant : r.tenantId = k.tenantId
  aggregate : r.aggregateId = .attempt k.attemptId
  payload : r.payloadJson = .reportRequested k.clusterId k.attemptId 0

/-- The normalized segment is that of the manifest. -/
structure Normalizes (n : NormalizedSegment) (x : SegmentManifest) : Prop where
  receipt : n.receiptId = x.receiptId
  tenant : n.tenantId = x.tenantId
  attempt : n.attemptId = x.attemptId
  records : n.recordCount = x.recordCount
  digest : n.payloadSha256 = x.payloadSha256

/-- What the entries of the outbox and the normalized segments refer to. -/
structure Posted (c : Catalog) : Prop where
  issued : ∀ r ∈ c.outbox, r.outboxId ∈ c.issued
  admitted : ∀ r ∈ c.outbox, r.eventType = .segmentAdmitted → ∃ x ∈ c.manifests,
    r.aggregateId = .receipt x.receiptId ∧ r.payloadJson = .segmentAdmitted x.receiptId x.attemptId
  requested : ∀ r ∈ c.outbox, r.eventType = .reportRequested → ∃ k, Requests k r
  owned : ∀ r ∈ c.outbox, r.leaseOwner ≠ none → r.state = .processing
  normalized : ∀ n ∈ c.normalized, ∃ x ∈ c.manifests, Normalizes n x
  completed : ∀ r ∈ c.outbox, r.eventType = .segmentAdmitted → r.state = .completed →
    ∃ n ∈ c.normalized, r.aggregateId = .receipt n.receiptId

/-- A publication in memory is that of the receipt its entry is about. -/
structure Faithful (c : Catalog) (l : WorkLease) (p : Publication) : Prop where
  entry : l.outboxId ∈ c.issued
  receipt : p.receiptId ∈ c.issued
  about : ∀ r ∈ c.outbox, r.outboxId = l.outboxId → r.aggregateId = .receipt p.receiptId
  manifest : ∀ x ∈ c.manifests, x.receiptId = p.receiptId →
    p = OutboxWorker.publication x x.recordCount

/-- A report in memory is that of the attempt its entry asks for. -/
structure Planned (c : Catalog) (l : WorkLease) (plan : ReportPlan) : Prop where
  entry : l.outboxId ∈ c.issued
  about : ∀ r ∈ c.outbox, r.outboxId = l.outboxId →
    Requests plan.attempt r ∧ plan.generation = 0

/-- The outbox and what the workers remember of it. -/
structure InPost (s : State) : Prop where
  catalog : Posted s.catalog
  publications : ∀ x ∈ s.memory.publications, Faithful s.catalog x.2.1 x.2.2
  reports : ∀ x ∈ s.memory.reports, Planned s.catalog x.2.1 x.2.2.plan

theorem InPost.faithful {ticket : Nat} {p : Publication} (h : InPost s)
    (hp : lookup s.memory.publications ticket = some (l, p)) : Faithful s.catalog l p :=
  h.publications _ (mem_of_lookup hp)

theorem InPost.planned {ticket : Nat} {stage : ReportStage} (h : InPost s)
    (hb : reportAt s.memory ticket = some (l, stage)) : Planned s.catalog l stage.plan :=
  h.reports _ (mem_of_lookup hb)

theorem InPost.manifest {ticket : Nat} {p : Publication} (h : InPost s)
    (hp : lookup s.memory.publications ticket = some (l, p))
    (hcur : ∃ r ∈ s.catalog.outbox, r.outboxId = l.outboxId) :
    ∃ x ∈ s.catalog.manifests, p = OutboxWorker.publication x x.recordCount := by
  obtain ⟨r, hr, hid⟩ := hcur
  have hf := h.faithful hp
  have hagg := hf.about r hr hid
  cases hev : r.eventType with
  | segmentAdmitted =>
    obtain ⟨x, hx, hagg', _⟩ := h.catalog.admitted r hr hev
    rw [hagg, Aggregate.receipt.injEq] at hagg'
    exact ⟨x, hx, hf.manifest x hx hagg'.symm⟩
  | reportRequested =>
    obtain ⟨k, hk⟩ := h.catalog.requested r hr hev
    rw [hk.aggregate] at hagg
    cases hagg

theorem added_fresh (h : Added m c c' r) : r.outboxId ∉ c.issued ∧ r.outboxId ∈ c'.issued := by
  cases h with
  | admitted hi hi' => exact ⟨fun h => hi (List.mem_cons_of_mem _ h), hi'⟩
  | requested _ hi hi' => exact ⟨hi, hi'⟩

theorem turn_of_issued (he : EvidenceEffect env m c w call a c' w') (hr : r' ∈ c'.outbox)
    (hi : r'.outboxId ∈ c.issued) : ∃ r ∈ c.outbox, Turn env m c c' r r' := by
  rcases outbox_cases he hr with h | h
  · exact h
  · exact absurd hi (added_fresh h).1

section posted

variable {p : Publication} {plan : ReportPlan}

theorem faithful_effect (he : EvidenceEffect env m c w call a c' w') (hi : c.issued ⊆ c'.issued)
    (h : Faithful c l p) : Faithful c' l p where
  entry := hi h.entry
  receipt := hi h.receipt
  about r' hr' hid := by
    obtain ⟨r, hr, ht⟩ := turn_of_issued he hr' (hid ▸ h.entry)
    rw [ht.same.aggregateId]
    exact h.about r hr (ht.same.outboxId.symm.trans hid)
  manifest x hx hid := by
    rcases manifests_fresh he hx with hx | hfresh
    · exact h.manifest x hx hid
    · exact absurd h.receipt (hid ▸ hfresh)

theorem Requests.turn {k : AttemptKey} (h : Requests k r) (ht : SameEntry r r') : Requests k r' :=
  ⟨ht.eventType.trans h.event, ht.tenantId.trans h.tenant, ht.aggregateId.trans h.aggregate,
    ht.payloadJson.trans h.payload⟩

theorem planned_effect (he : EvidenceEffect env m c w call a c' w') (hi : c.issued ⊆ c'.issued)
    (h : Planned c l plan) : Planned c' l plan where
  entry := hi h.entry
  about r' hr' hid := by
    obtain ⟨r, hr, ht⟩ := turn_of_issued he hr' (hid ▸ h.entry)
    obtain ⟨hreq, hgen⟩ := h.about r hr (ht.same.outboxId.symm.trans hid)
    exact ⟨hreq.turn ht.same, hgen⟩

theorem admitted_effect (he : EvidenceEffect env s.memory s.catalog w call a c' w')
    (h : InPost s) (hr : r' ∈ c'.outbox) (hev : r'.eventType = .segmentAdmitted) :
    ∃ x ∈ c'.manifests, r'.aggregateId = .receipt x.receiptId ∧
      r'.payloadJson = .segmentAdmitted x.receiptId x.attemptId := by
  rcases outbox_cases he hr with ⟨r, hm, ht⟩ | hadd
  · obtain ⟨x, hx, hagg, hpay⟩ := h.catalog.admitted r hm (ht.same.eventType ▸ hev)
    refine ⟨x, ?_, ht.same.aggregateId.trans hagg, ht.same.payloadJson.trans hpay⟩
    cases evidence_extent he with
    | grown hgrown => exact hgrown x hx
    | erased _ ho _ hmanifests =>
      refine (hmanifests x).mpr ⟨hx, fun hk => ((ho r').mp hr).2 ?_⟩
      exact .receipt hev hx hk (ht.same.aggregateId.trans hagg)
  · cases hadd with
    | admitted _ _ hmanifests =>
      exact ⟨_, hmanifests ▸ (Table.mem_insert ‹_›).mpr (Or.inr rfl), rfl, rfl⟩
    | requested => cases hev

theorem requested_effect (he : EvidenceEffect env s.memory s.catalog w call a c' w')
    (hs : Sound env s) (h : InPost s) (hr : r' ∈ c'.outbox) (hev : r'.eventType = .reportRequested) :
    ∃ k, Requests k r' := by
  rcases outbox_cases he hr with ⟨r, hm, ht⟩ | hadd
  · obtain ⟨k, hk⟩ := h.catalog.requested r hm (ht.same.eventType ▸ hev)
    exact ⟨k, hk.turn ht.same⟩
  · cases hadd with
    | admitted => cases hev
    | @requested _ _ p _ _ hp _ _ hcur =>
      obtain ⟨x, hx, rfl⟩ := h.manifest hp hcur
      refine ⟨x.attempt, rfl, rfl, rfl, ?_⟩
      show OutboxPayload.reportRequested _ _ x.deletionGeneration = _
      rw [hs.generations x hx]
      rfl

theorem owned_effect (he : EvidenceEffect env s.memory s.catalog w call a c' w')
    (h : InPost s) (hr : r' ∈ c'.outbox) (howner : r'.leaseOwner ≠ none) : r'.state = .processing := by
  rcases outbox_cases he hr with ⟨r, hm, ht⟩ | hadd
  · cases ht with
    | kept => exact h.catalog.owned _ hm howner
    | leased => rfl
    | closed => exact absurd rfl howner
  · cases hadd <;> exact absurd rfl howner

theorem normalized_effect (he : EvidenceEffect env s.memory s.catalog w call a c' w')
    (h : InPost s) {n : NormalizedSegment} (hn : n ∈ c'.normalized) :
    ∃ x ∈ c'.manifests, Normalizes n x := by
  rcases normalized_origin he hn with hold | hnew
  · obtain ⟨x, hx, hnx⟩ := h.catalog.normalized n hold
    refine ⟨x, ?_, hnx⟩
    cases evidence_extent he with
    | grown hgrown => exact hgrown x hx
    | erased _ _ hnormalized hmanifests =>
      exact (hmanifests x).mpr ⟨hx, fun hk => ((hnormalized n).mp hn).2 x hx hk hnx.receipt⟩
  · cases hnew with
    | new hp hcur _ _ hm =>
      obtain ⟨x, hx, rfl⟩ := h.manifest hp hcur
      exact ⟨x, hm ▸ hx, rfl, rfl, rfl, rfl, rfl⟩

theorem completed_effect (he : EvidenceEffect env s.memory s.catalog w call a c' w')
    (h : InPost s) (hr : r' ∈ c'.outbox) (hev : r'.eventType = .segmentAdmitted)
    (hdone : r'.state = .completed) : ∃ n ∈ c'.normalized, r'.aggregateId = .receipt n.receiptId := by
  rcases outbox_cases he hr with ⟨r, hm, ht⟩ | hadd
  · have hsame := ht.same
    cases ht with
    | kept =>
      obtain ⟨n, hn, hagg⟩ := h.catalog.completed _ hm hev hdone
      refine ⟨n, ?_, hagg⟩
      cases evidence_extent he with
      | grown _ hgrown => exact hgrown n hn
      | erased _ ho hnormalized _ =>
        refine (hnormalized n).mpr ⟨hn, fun x hx hk hid => ((ho _).mp hr).2 ?_⟩
        exact .receipt hev hx hk (hid ▸ hagg)
    | leased => cases hdone
    | @closed l state _ hid _ _ hclose =>
      obtain rfl : state = .completed := hdone
      generalize hstate : OutboxState.completed = state at hclose
      cases hclose with
      | failed hs =>
        rw [← hstate] at hs
        rcases hs with hs | hs <;> cases hs
      | normalized hp hn hd =>
        exact ⟨_, Table.mem_of_get hn,
          ((h.faithful hp).about r hm hid).trans (congrArg _ (Table.key_of_get hn).symm)⟩
      | unnormalized => cases hstate
      | reported hb =>
        have hreq := ((h.planned hb).about r hm hid).1.event
        rw [show r.eventType = .segmentAdmitted from hev] at hreq
        cases hreq
      | unreported => cases hstate
  · cases hadd with
    | admitted => cases hdone
    | requested => cases hev

theorem posted_effect (he : EvidenceEffect env s.memory s.catalog w call a c' w')
    (hs : Sound env s) (h : InPost s) (hi : s.catalog.issued ⊆ c'.issued) : Posted c' where
  issued r' hr' := by
    rcases outbox_cases he hr' with ⟨r, hr, ht⟩ | hadd
    · exact hi (ht.same.outboxId ▸ h.catalog.issued r hr)
    · exact (added_fresh hadd).2
  admitted _ hr hev := admitted_effect he h hr hev
  requested _ hr hev := requested_effect he hs h hr hev
  owned _ hr howner := owned_effect he h hr howner
  normalized _ hn := normalized_effect he h hn
  completed _ hr hev hdone := completed_effect he h hr hev hdone

end posted

theorem finish_publications {x : Nat × WorkLease × Publication}
    (h : x ∈ (finish call e m).publications) : x ∈ m.publications ∨ ∃ faults,
      call = .outboxRead x.1 x.2.1 faults ∧ e = .committed (.publication (some x.2.2)) := by
  unfold finish at h
  split at h
  case h_11 =>
    rcases mem_remember h with rfl | h
    · exact Or.inr ⟨_, rfl, rfl⟩
    · exact Or.inl h
  all_goals left
  all_goals first
    | exact h
    | exact mem_forget h
    | (split at h <;> exact h)

theorem finish_plans {x : Nat × WorkLease × ReportStage} (h : x ∈ (finish call e m).reports) :
    (∃ stage, (x.1, x.2.1, stage) ∈ m.reports ∧ stage.plan = x.2.2.plan) ∨
    (∃ plan, call = .reportRead x.1 x.2.1 ∧ e = .committed (.plan (some plan)) ∧
      x.2.2 = .planned plan) ∨
    ∃ stage b, reportAt m x.1 = some (x.2.1, stage) ∧ e = .committed (.built b) ∧
      x.2.2.plan = b.toReportPlan ∧ ((∃ self faults, call = .reportBuild x.1 self faults) ∨
        ∃ self fresh now, call = .reportReserve x.1 self fresh now) := by
  unfold finish at h
  split at h
  case h_13 =>
    rcases mem_remember h with rfl | h
    · exact Or.inr (Or.inl ⟨_, rfl, rfl, rfl⟩)
    · exact Or.inl ⟨_, h, rfl⟩
  case h_14 =>
    split at h
    · next hb =>
      rcases mem_remember h with rfl | h
      · exact Or.inr (Or.inr ⟨_, _, hb, rfl, rfl, Or.inl ⟨_, _, rfl⟩⟩)
      · exact Or.inl ⟨_, h, rfl⟩
    · exact Or.inl ⟨_, h, rfl⟩
  case h_16 =>
    split at h
    · next hb =>
      rcases mem_remember h with rfl | h
      · exact Or.inr (Or.inr ⟨_, _, hb, rfl, rfl, Or.inr ⟨_, _, _, rfl⟩⟩)
      · exact Or.inl ⟨_, h, rfl⟩
    · exact Or.inl ⟨_, h, rfl⟩
  all_goals left
  all_goals first
    | exact ⟨_, h, rfl⟩
    | exact ⟨_, mem_forget h, rfl⟩
    | (split at h <;> first | exact ⟨_, h, rfl⟩ | exact ⟨_, mem_forget h, rfl⟩)

theorem faithful_of_read {ticket : Nat} {faults : Faults} {p : Publication}
    (h : Step env settings s (.outboxRead ticket l faults) (.committed (.publication (some p))) s')
    (hs : Sound env s) (hp : InPost s) : Faithful s.catalog l p := by
  have hread := committed_of_wp (Q := fun a _ _ => ∀ p, a = .publication (some p) → ∃ r x,
    s.catalog.outbox.get l.outboxId = some r ∧ x ∈ s.catalog.manifests ∧
      r.aggregateId = .receipt x.receiptId ∧ p = OutboxWorker.publication x x.recordCount) h
    (fun t ht => by
      simp only [program] at ht
      split at ht <;> cases ht
      rw [Txn.wp_map]
      refine Txn.wp_post OutboxWorker.read_spec (fun a _ _ ha p hp => ha p ?_)
      rwa [Reply.publication.injEq] at hp)
  obtain ⟨r, x, hget, hx, hagg, rfl⟩ := hread p rfl
  have hr := Table.mem_of_get hget
  have hkey : r.outboxId = l.outboxId := Table.key_of_get hget
  refine ⟨hkey ▸ hp.catalog.issued r hr, hs.catalog.receipts x hx, fun r' hr' hid => ?_,
    fun x' hx' hid => ?_⟩
  · obtain rfl := Table.eq_of_key hr' hr (hid.trans hkey.symm)
    exact hagg
  · obtain rfl := Table.eq_of_key hx' hx hid
    rfl

theorem planned_of_read {ticket : Nat} {plan : ReportPlan}
    (h : Step env settings s (.reportRead ticket l) (.committed (.plan (some plan))) s')
    (hp : InPost s) : Planned s.catalog l plan := by
  have hread := committed_of_wp (Q := fun a _ _ => ∀ p, a = .plan (some p) → ∃ r,
    s.catalog.outbox.get l.outboxId = some r ∧
      ReportRevisionWorker.request r = .ok (p.attempt, p.generation)) h
    (fun t ht => by
      simp only [program] at ht
      split at ht <;> cases ht
      rw [Txn.wp_map]
      refine Txn.wp_post ReportRevisionWorker.read_spec (fun a _ _ ha p hp => ?_)
      rw [Reply.plan.injEq] at hp
      obtain ⟨r, hget, hreq, _⟩ := ha p hp
      exact ⟨r, hget, hreq⟩)
  obtain ⟨r, hget, hreq⟩ := hread plan rfl
  have hr := Table.mem_of_get hget
  have hkey : r.outboxId = l.outboxId := Table.key_of_get hget
  refine ⟨hkey ▸ hp.catalog.issued r hr, fun r' hr' hid => ?_⟩
  obtain rfl := Table.eq_of_key hr' hr (hid.trans hkey.symm)
  cases hev : r'.eventType with
  | segmentAdmitted =>
    obtain ⟨x, _, _, hpay⟩ := hp.catalog.admitted r' hr hev
    rw [ReportRevisionWorker.request, hpay] at hreq
    cases hreq
  | reportRequested =>
    obtain ⟨k, hk⟩ := hp.catalog.requested r' hr hev
    simp only [ReportRevisionWorker.request, hk.payload] at hreq
    split at hreq
    · cases hreq
    · split at hreq
      · cases hreq
      · rw [Except.ok.injEq, Prod.mk.injEq] at hreq
        have hattempt : k = plan.attempt := by
          rw [← hreq.1, hk.tenant]
        exact ⟨hattempt ▸ hk, hreq.2.symm⟩

theorem plan_of_build {ticket : Nat} {self : ReportRevisionWorker} {faults : Faults} {b : BuiltReport}
    {stage : ReportStage} (h : Step env settings s (.reportBuild ticket self faults) (.committed (.built b)) s')
    (hb : reportAt s.memory ticket = some (l, stage)) : b.toReportPlan = stage.plan := by
  refine committed_of_wp (Q := fun a _ _ => ∀ b, a = .built b → b.toReportPlan = stage.plan) h
    (fun t ht => ?_) b rfl
  simp only [program, hb] at ht
  split at ht
  · next plan hplan =>
    cases hplan
    cases ht
    rw [Txn.wp_map]
    refine Txn.wp_post (Txn.wp_of_changes (reportBuild_changes (R := SameEvidence) env)
      (fun _ _ _ h h' => h.trans h') (.refl s.catalog) trivial (fun _ => trivial)) ?_
    rintro b _ _ ⟨_, _, parquet, rfl⟩ b' hb'
    cases hb'
    rfl
  · cases ht

theorem inPost_step (h : Step env settings s call e s') (hs : Sound env s) (hp : InPost s) :
    InPost s' := by
  obtain ⟨hm, _, ⟨a, rfl, heff⟩ | ⟨hne, hc, _⟩⟩ := step_cases h
  · have he := step_evidence h
    have hi := issued_mono (effect_admission heff)
    refine ⟨posted_effect he hs hp hi, fun x hx => ?_, fun x hx => ?_⟩
    · rw [hm] at hx
      rcases finish_publications hx with hx | ⟨faults, rfl, hreply⟩
      · exact faithful_effect he hi (hp.publications x hx)
      · rw [hreply] at h
        exact faithful_effect he hi (faithful_of_read h hs hp)
    · rw [hm] at hx
      rcases finish_plans hx with ⟨stage, hx, hplan⟩ | ⟨plan, rfl, hreply, hstage⟩ |
        ⟨stage, b, hb, hreply, hplan, hcall⟩
      · exact hplan ▸ planned_effect he hi (hp.reports _ hx)
      · rw [hreply] at h
        rw [hstage]
        exact planned_effect he hi (planned_of_read h hp)
      · have hb' : b.toReportPlan = stage.plan := by
          rcases hcall with ⟨self, faults, rfl⟩ | ⟨self, fresh, now, rfl⟩
          · rw [hreply] at h
            exact plan_of_build h hb
          · rw [Ending.committed.injEq] at hreply
            subst hreply
            generalize s'.catalog = c', s'.objects = w' at heff
            cases heff with
            | quiet hq => cases hq
            | reportReserve hb' =>
              rw [hb] at hb'
              cases hb'
              rfl
        rw [hplan, hb']
        exact planned_effect he hi (hp.planned hb)
  · refine ⟨hc ▸ hp.catalog, fun x hx => ?_, fun x hx => ?_⟩
    · rw [hm] at hx
      rcases finish_publications hx with hx | ⟨_, _, hreply⟩
      · exact hc ▸ hp.publications x hx
      · exact absurd hreply (hne _)
    · rw [hm] at hx
      rcases finish_plans hx with ⟨stage, hx, hplan⟩ | ⟨_, _, hreply, _⟩ | ⟨_, _, _, hreply, _⟩
      · exact hplan ▸ hc ▸ hp.reports _ hx
      · exact absurd hreply (hne _)
      · exact absurd hreply (hne _)

theorem inPost_of_reachable (h : Reachable env settings s) : InPost s := by
  induction h with
  | start =>
    refine ⟨⟨?_, ?_, ?_, ?_, ?_, ?_⟩, (fun x hx => nomatch hx), (fun x hx => nomatch hx)⟩
    · exact fun r hr => absurd hr (Table.not_mem_empty r)
    · exact fun r hr => absurd hr (Table.not_mem_empty r)
    · exact fun r hr => absurd hr (Table.not_mem_empty r)
    · exact fun r hr => absurd hr (Table.not_mem_empty r)
    · exact fun n hn => absurd hn (Table.not_mem_empty n)
    · exact fun r hr => absurd hr (Table.not_mem_empty r)
  | step hr hs _ ih => exact inPost_step hs (sound_of_reachable hr) ih

end Deployment

end RankLens
