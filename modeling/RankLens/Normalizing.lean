import RankLens.Entries

namespace RankLens

open Interleaving (Ending)
open OutboxWorker (newNormalized newRequest)

namespace Deployment

variable {env : Env} {settings : IngestionSettings} {m : Memory} {c c' : Catalog}
  {w w' : ObjectStore} {s s' : State} {call : Call} {a : Reply} {e : Ending Failure Reply}
  {l l' : WorkLease} {r r' : OutboxRecord}

/-- The lease was handed out on its entry. -/
structure HandedOut (l : WorkLease) (c : Catalog) : Prop where
  entry : l.outboxId ∈ c.issued
  older : ∀ r ∈ c.outbox, r.outboxId = l.outboxId → l.generation ≤ r.leaseGeneration
  owner : ∀ r ∈ c.outbox, r.outboxId = l.outboxId → r.leaseGeneration = l.generation →
    r.leaseOwner ≠ none → r.leaseOwner = some l.owner

/-- The lease was given up, or its entry leased again. -/
structure Retired (l : WorkLease) (c : Catalog) : Prop where
  entry : l.outboxId ∈ c.issued
  older : ∀ r ∈ c.outbox, r.outboxId = l.outboxId → l.generation ≤ r.leaseGeneration
  past : ∀ r ∈ c.outbox, r.outboxId = l.outboxId → r.leaseOwner ≠ none →
    l.generation < r.leaseGeneration

theorem older_effect (he : EvidenceEffect env m c w call a c' w') (hi : l.outboxId ∈ c.issued)
    (h : ∀ r ∈ c.outbox, r.outboxId = l.outboxId → l.generation ≤ r.leaseGeneration) :
    ∀ r ∈ c'.outbox, r.outboxId = l.outboxId → l.generation ≤ r.leaseGeneration := by
  intro r' hr' hid
  obtain ⟨r, hr, ht⟩ := turn_of_issued he hr' (hid ▸ hi)
  have hle := h r hr (ht.same.outboxId.symm.trans hid)
  cases ht with
  | kept => exact hle
  | leased => exact hle.trans (Nat.le_succ _)
  | closed => exact hle

theorem handedOut_effect (he : EvidenceEffect env m c w call a c' w') (hi : c.issued ⊆ c'.issued)
    (h : HandedOut l c) : HandedOut l c' := by
  refine ⟨hi h.entry, older_effect he h.entry h.older, fun r' hr' hid hg howner => ?_⟩
  obtain ⟨r, hr, ht⟩ := turn_of_issued he hr' (hid ▸ h.entry)
  have hid' := ht.same.outboxId.symm.trans hid
  have hle := h.older r hr hid'
  cases ht with
  | kept => exact h.owner _ hr hid' hg howner
  | leased =>
    have hg' : r.leaseGeneration + 1 = l.generation := hg
    omega
  | closed => exact absurd rfl howner

theorem retired_effect (he : EvidenceEffect env m c w call a c' w') (hi : c.issued ⊆ c'.issued)
    (h : Retired l c) : Retired l c' := by
  refine ⟨hi h.entry, older_effect he h.entry h.older, fun r' hr' hid howner => ?_⟩
  obtain ⟨r, hr, ht⟩ := turn_of_issued he hr' (hid ▸ h.entry)
  have hid' := ht.same.outboxId.symm.trans hid
  cases ht with
  | kept => exact h.past _ hr hid' howner
  | leased => exact Nat.lt_succ_of_le (h.older r hr hid')
  | closed => exact absurd rfl howner

theorem run_keeps {P : Catalog → Prop} (hrun : Run env settings s s')
    (hP : ∀ {m c w call a c' w'}, EvidenceEffect env m c w call a c' w' → c.issued ⊆ c'.issued →
      P c → P c') (h : P s.catalog) : P s'.catalog := by
  induction hrun with
  | start => exact h
  | step _ hs _ ih =>
    obtain ⟨_, _, ⟨a, rfl, heff⟩ | ⟨_, hc, _⟩⟩ := step_cases hs
    · exact hP (step_evidence hs) (issued_mono (effect_admission heff)) ih
    · exact hc ▸ ih

theorem leasing_of_claim {event : EventType} {owner : String} {leaseSeconds : Nat} {now : Instant}
    {skip : List Uuid}
    (hcall : program env settings s.memory call =
      some (.workLease <$> Outbox.claim event owner leaseSeconds now skip))
    (h : Step env settings s call (.committed (.workLease (some l))) s') :
    ∃ r ∈ s.catalog.outbox, r.eventType = event ∧ l = ⟨r.outboxId, r.leaseGeneration + 1, owner⟩ ∧
      s'.catalog = { s.catalog with
        outbox := s.catalog.outbox.modify r.outboxId
          (Outbox.lease r owner (now + seconds leaseSeconds)) (fun _ => rfl) } := by
  refine committed_of_wp (Q := fun a c' _ => ∀ l, a = .workLease (some l) → ∃ r ∈ s.catalog.outbox,
    r.eventType = event ∧ l = ⟨r.outboxId, r.leaseGeneration + 1, owner⟩ ∧ c' = { s.catalog with
      outbox := s.catalog.outbox.modify r.outboxId
        (Outbox.lease r owner (now + seconds leaseSeconds)) (fun _ => rfl) }) h (fun t ht => ?_) l rfl
  rw [hcall, Option.some.injEq] at ht
  subst ht
  rw [Txn.wp_map]
  refine Txn.wp_post Outbox.claim_spec ?_
  rintro o _ _ ⟨⟨t, hl, rfl⟩, _⟩ l hl'
  rw [Reply.workLease.injEq] at hl'
  subst hl'
  cases hl with
  | @leased r hr hlease =>
    simp only [Outbox.leasable, Bool.and_eq_true, decide_eq_true_eq] at hlease
    exact ⟨r, hr, hlease.1, rfl, rfl⟩

theorem claim_retires {owner : String} {leaseSeconds : Nat} {now : Instant} {skip : List Uuid}
    (h : Step env settings s (.outboxClaim owner leaseSeconds now skip)
      (.committed (.workLease (some l))) s') (hp : InPost s) :
    HandedOut l s'.catalog ∧
      ∀ l', HandedOut l' s.catalog → l'.outboxId = l.outboxId → Retired l' s'.catalog := by
  obtain ⟨r, hr, _, rfl, hc⟩ := leasing_of_claim rfl h
  have hrow : ∀ x ∈ s'.catalog.outbox, x.outboxId = r.outboxId → x.leaseOwner = some owner ∧
      x.leaseGeneration = r.leaseGeneration + 1 := by
    intro x hx hid
    rw [hc] at hx
    have hmod : x ∈ s.catalog.outbox.modify r.outboxId
      (Outbox.lease r owner (now + seconds leaseSeconds)) (fun _ => rfl) ↔ _ := Table.mem_modify
    rcases hmod.mp hx with ⟨_, hne⟩ | ⟨_, _, _, rfl⟩
    · exact absurd hid hne
    · exact ⟨rfl, rfl⟩
  have hi : s'.catalog.issued = s.catalog.issued := by rw [hc]
  refine ⟨⟨hi ▸ hp.catalog.issued r hr, fun x hx hid => (hrow x hx hid).2.ge,
    fun x hx hid _ _ => (hrow x hx hid).1⟩, fun l' hl' hid' => ⟨hi ▸ hl'.entry, ?_, ?_⟩⟩
  · intro x hx hid
    rw [(hrow x hx (hid.trans hid')).2]
    exact (hl'.older r hr hid'.symm).trans (Nat.le_succ _)
  · intro x hx hid _
    rw [(hrow x hx (hid.trans hid')).2]
    exact Nat.lt_succ_of_le (hl'.older r hr hid'.symm)

theorem retired_of_stale (hl : HandedOut l c)
    (h : ∀ r, c.outbox.get l.outboxId = some r →
      ¬(r.leaseOwner = some l.owner ∧ r.leaseGeneration = l.generation)) : Retired l c := by
  refine ⟨hl.entry, hl.older, fun r hr hid howner => ?_⟩
  refine lt_of_le_of_ne (hl.older r hr hid) (fun hg => ?_)
  exact h r (hid ▸ Table.get_of_mem hr) ⟨hl.owner r hr hid hg.symm howner, hg.symm⟩

theorem retired_of_closed {state : OutboxState} {lastError : Option String} (hl : HandedOut l c)
    (hi : c.issued ⊆ c'.issued)
    (h : ∀ x ∈ c'.outbox, x.outboxId = l.outboxId →
      ∃ r ∈ c.outbox, r.outboxId = l.outboxId ∧ x = Outbox.close state lastError r) :
    Retired l c' := by
  refine ⟨hi hl.entry, fun x hx hid => ?_, fun x hx hid howner => ?_⟩
  · obtain ⟨r, hr, hid', rfl⟩ := h x hx hid
    exact hl.older r hr hid'
  · obtain ⟨r, _, _, rfl⟩ := h x hx hid
    exact absurd rfl howner

theorem closed_modify {t : Table OutboxRecord.outboxId} {state : OutboxState}
    {lastError : Option String} (hf : ∀ r, (Outbox.close state lastError r).outboxId = r.outboxId)
    (x : OutboxRecord) (hx : x ∈ t.modify l.outboxId (Outbox.close state lastError) hf)
    (hid : x.outboxId = l.outboxId) :
    ∃ r ∈ t, r.outboxId = l.outboxId ∧ x = Outbox.close state lastError r := by
  rcases Table.mem_modify.mp hx with ⟨_, hne⟩ | ⟨r, hr, hk, rfl⟩
  · exact absurd hid hne
  · exact ⟨r, hr, hk, rfl⟩

theorem not_held_of_stale (hp : Posted c) (h : (c.outbox.get l.outboxId).any (Outbox.current l) = false) :
    ∀ r, c.outbox.get l.outboxId = some r →
      ¬(r.leaseOwner = some l.owner ∧ r.leaseGeneration = l.generation) := by
  intro r hget ⟨howner, hg⟩
  have hs := hp.owned r (Table.mem_of_get hget) (by rw [howner]; exact fun h => nomatch h)
  rw [hget, Option.any_some, Outbox.current, hs, howner, hg] at h
  simp at h

theorem retired_of_normalizing {p : Publication} {fresh : Uuid} {now : Instant} {b : Bool}
    (h : OutboxWorker.Normalizing l p fresh now c b c') (hp : Posted c) (hl : HandedOut l c) :
    Retired l c' := by
  cases h with
  | stale h => exact retired_of_stale hl (not_held_of_stale hp h)
  | suppressed => exact retired_of_closed hl (List.Subset.refl _) (closed_modify (fun _ => rfl))
  | known => exact retired_of_closed hl (List.Subset.refl _) (closed_modify (fun _ => rfl))
  | @normalized r outbox hget hcur _ _ hi hrows =>
    refine @retired_of_closed _ _ _ .completed none hl (List.subset_cons_self _ _)
      (fun x hx hid => ?_)
    rcases (hrows x).mp hx with ⟨hx, hne⟩ | rfl | rfl
    · exact absurd (Table.eq_of_key hx (Table.mem_of_get hget)
        (hid.trans (Table.key_of_get hget).symm)) hne
    · exact ⟨r, Table.mem_of_get hget, Table.key_of_get hget, rfl⟩
    · have hfresh : fresh = l.outboxId := hid
      exact absurd hl.entry (hfresh ▸ hi)

theorem retired_of_failing {message : String} {t : Table OutboxRecord.outboxId}
    (h : Outbox.Failing l message c.outbox t) (hl : HandedOut l c) :
    Retired l { c with outbox := t } := by
  cases h with
  | stale h => exact retired_of_stale hl h
  | failed => exact retired_of_closed hl (List.Subset.refl _) (closed_modify (fun _ => rfl))

/-- The calls a worker makes with a lease. -/
inductive Works (m : Memory) (l : WorkLease) : Call → Prop where
  | read {ticket : Nat} {faults : Faults} : Works m l (.outboxRead ticket l faults)
  | publish {ticket : Nat} {p : Publication} {fresh : Uuid} {order : FlushOrder} {now : Instant}
      (hp : lookup m.publications ticket = some (l, p)) : Works m l (.outboxPublish ticket fresh order now)
  | fail {message : String} : Works m l (.outboxFail l message)

inductive Consumes (m : Memory) (l : WorkLease) : Call → Prop where
  | publish {ticket : Nat} {p : Publication} {fresh : Uuid} {order : FlushOrder} {now : Instant}
      (hp : lookup m.publications ticket = some (l, p)) :
      Consumes m l (.outboxPublish ticket fresh order now)
  | fail {message : String} : Consumes m l (.outboxFail l message)

theorem normalizing_of_step {ticket : Nat} {p : Publication} {fresh : Uuid} {order : FlushOrder}
    {now : Instant} (h : Step env settings s (.outboxPublish ticket fresh order now) (.committed a) s')
    (hp : lookup s.memory.publications ticket = some (l, p)) :
    ∃ b, OutboxWorker.Normalizing l p fresh now s.catalog b s'.catalog := by
  refine committed_of_wp (Q := fun _ c' _ => ∃ b,
    OutboxWorker.Normalizing l p fresh now s.catalog b c') h (fun t ht => ?_)
  simp only [program, hp, Option.map_some, Option.some.injEq] at ht
  subst ht
  rw [Txn.wp_map]
  refine Txn.wp_post OutboxWorker.publish_spec ?_
  rintro b c' _ ⟨h, _⟩
  exact ⟨b, h⟩

theorem failing_of_step {message : String}
    (h : Step env settings s (.outboxFail l message) (.committed a) s') :
    ∃ t, Outbox.Failing l message s.catalog.outbox t ∧ s'.catalog = { s.catalog with outbox := t } := by
  refine committed_of_wp (Q := fun _ c' _ => ∃ t, Outbox.Failing l message s.catalog.outbox t ∧
    c' = { s.catalog with outbox := t }) h (fun t ht => ?_)
  obtain rfl := Option.some.inj ht
  rw [Txn.wp_map]
  refine Txn.wp_post Outbox.fail_spec ?_
  rintro _ _ _ ⟨h, _⟩
  exact h

theorem retired_of_consumed (h : Step env settings s call (.committed a) s')
    (hc : Consumes s.memory l call) (hp : InPost s) (hl : HandedOut l s.catalog) :
    Retired l s'.catalog := by
  cases hc with
  | publish hlookup =>
    obtain ⟨b, hn⟩ := normalizing_of_step h hlookup
    exact retired_of_normalizing hn hp.catalog hl
  | fail =>
    obtain ⟨t, ht, hc⟩ := failing_of_step h
    exact hc ▸ retired_of_failing ht hl

theorem not_current_of_retired (hl : Retired l c) (hget : c.outbox.get l.outboxId = some r) :
    ¬(r.leaseOwner = some l.owner ∧ r.leaseGeneration = l.generation) := by
  intro ⟨howner, hg⟩
  have hlt := hl.past r (Table.mem_of_get hget) (Table.key_of_get hget)
    (by rw [howner]; exact fun h => nomatch h)
  omega

theorem idle_of_retired (h : Step env settings s call e s') (hw : Works s.memory l call)
    (hl : Retired l s.catalog) : s'.catalog = s.catalog := by
  obtain ⟨_, _, ⟨a, rfl, _⟩ | ⟨_, hc, _⟩⟩ := step_cases h
  · cases hw with
    | read =>
      refine committed_of_wp (Q := fun _ c' _ => c' = s.catalog) h (fun t ht => ?_)
      simp only [program] at ht
      split at ht <;> cases ht
      rw [Txn.wp_map]
      refine Txn.wp_post (Txn.wp_of_changes (outboxRead_changes (R := fun c c' => c' = c) env)
        (fun _ _ _ h h' => h'.trans h) rfl trivial (fun _ => trivial)) ?_
      rintro _ _ _ ⟨h, _⟩
      exact h
    | publish hp =>
      obtain ⟨b, hn⟩ := normalizing_of_step h hp
      generalize s'.catalog = c' at hn
      cases hn with
      | stale => rfl
      | suppressed hget hcur =>
        exact absurd (leaseOwner_of_current hcur) (not_current_of_retired hl hget)
      | known hget hcur =>
        exact absurd (leaseOwner_of_current hcur) (not_current_of_retired hl hget)
      | normalized hget hcur =>
        exact absurd (leaseOwner_of_current hcur) (not_current_of_retired hl hget)
    | fail =>
      obtain ⟨t, ht, hc⟩ := failing_of_step h
      cases ht with
      | stale => exact hc
      | failed hget howner hg => exact absurd ⟨howner, hg⟩ (not_current_of_retired hl hget)
  · exact hc

def newSegments (c c' : Catalog) : List NormalizedSegment :=
  c'.normalized.select (fun n => (c.normalized.get n.receiptId).isNone)

def newRequests (c c' : Catalog) : List OutboxRecord :=
  c'.outbox.select (fun r => decide (r.eventType = .reportRequested) && (c.outbox.get r.outboxId).isNone)

theorem newSegments_nil (h : ∀ n ∈ c'.normalized, n ∈ c.normalized) : newSegments c c' = [] := by
  refine List.eq_nil_iff_forall_not_mem.mpr (fun n hn => ?_)
  obtain ⟨hn, hnone⟩ := Table.mem_select.mp hn
  rw [Table.get_of_mem (h n hn)] at hnone
  cases hnone

theorem newRequests_nil (h : ∀ r ∈ c'.outbox, r.eventType = .reportRequested →
    ∃ r₀ ∈ c.outbox, r₀.outboxId = r.outboxId) : newRequests c c' = [] := by
  refine List.eq_nil_iff_forall_not_mem.mpr (fun r hr => ?_)
  obtain ⟨hr, hnew⟩ := Table.mem_select.mp hr
  simp only [Bool.and_eq_true, decide_eq_true_eq] at hnew
  obtain ⟨r₀, hr₀, hid⟩ := h r hr hnew.1
  rw [← hid, Table.get_of_mem hr₀] at hnew
  cases hnew.2

/-- A step normalizes nothing and asks for nothing, or normalizes one segment and asks
for one report of its attempt. -/
inductive Publishes (m : Memory) (c c' : Catalog) : Prop where
  | nothing (hn : newSegments c c' = []) (hr : newRequests c c' = [])
  | one {ticket : Nat} {l : WorkLease} {p : Publication} {id : Uuid} {now : Instant}
      (hp : lookup m.publications ticket = some (l, p)) (hcur : ∃ r ∈ c.outbox, r.outboxId = l.outboxId)
      (hnone : c.normalized.get p.receiptId = none) (hn : newSegments c c' = [newNormalized p now])
      (hadd : newNormalized p now ∈ c'.normalized) (hr : newRequests c c' = [newRequest p id now])

theorem publishes_normalizing {ticket : Nat} {p : Publication} {fresh : Uuid} {now : Instant}
    {b : Bool} (h : OutboxWorker.Normalizing l p fresh now c b c') (hc : Posted c)
    (hp : lookup m.publications ticket = some (l, p)) : Publishes m c c' := by
  have hquiet : ∀ {state lastError}, Publishes m c { c with
      outbox := c.outbox.modify l.outboxId (Outbox.close state lastError) (fun _ => rfl) } :=
    fun {state lastError} => .nothing (newSegments_nil (fun _ hn => hn)) (newRequests_nil
      (fun r hr _ => origin_modify (Outbox.close state lastError) (fun _ => rfl) hr))
  cases h with
  | stale =>
    exact .nothing (newSegments_nil (fun _ hn => hn)) (newRequests_nil (fun r hr _ => ⟨r, hr, rfl⟩))
  | suppressed => exact hquiet
  | known => exact hquiet
  | @normalized r outbox hget _ _ hnone hi hrows =>
    have hfree : c.outbox.get fresh = none :=
      Table.get_eq_none.mpr (fun x hx hid => hi (hid ▸ hc.issued x hx))
    refine .one hp ⟨r, Table.mem_of_get hget, Table.key_of_get hget⟩ hnone ?_
      ((Table.mem_insert hnone).mpr (Or.inr rfl)) (?_ : newRequests _ _ = [newRequest p fresh now])
    · refine Table.select_eq_singleton (fun x => ?_)
      rw [Table.mem_insert hnone]
      constructor
      · rintro ⟨hx | hx, hnew⟩
        · rw [Table.get_of_mem hx] at hnew
          cases hnew
        · exact hx
      · rintro rfl
        exact ⟨Or.inr rfl, Option.isNone_iff_eq_none.mpr hnone⟩
    · refine Table.select_eq_singleton (fun x => ?_)
      rw [Bool.and_eq_true, decide_eq_true_eq]
      constructor
      · intro ⟨hx, _, hnew⟩
        rcases (hrows x).mp hx with ⟨hx, _⟩ | rfl | rfl
        · rw [Table.get_of_mem hx] at hnew
          cases hnew
        · have hkey : r.outboxId = l.outboxId := Table.key_of_get hget
          rw [show (Outbox.close .completed none r).outboxId = l.outboxId from hkey, hget] at hnew
          cases hnew
        · rfl
      · rintro rfl
        exact ⟨(hrows _).mpr (Or.inr (Or.inr rfl)), rfl, Option.isNone_iff_eq_none.mpr hfree⟩

theorem publishes_effect (he : EvidenceEffect env m c w call a c' w') (hc : Posted c) :
    Publishes m c c' := by
  have hkept : c'.normalized = c.normalized → c'.outbox = c.outbox → Publishes m c c' :=
    fun hn ho => .nothing (newSegments_nil (fun n h => hn ▸ h))
      (newRequests_nil (fun r hr _ => ⟨r, ho ▸ hr, rfl⟩))
  have hclosed : ∀ {id state lastError}, c'.normalized = c.normalized →
      c'.outbox = c.outbox.modify id (Outbox.close state lastError) (fun _ => rfl) →
      Publishes m c c' := fun {id state lastError} hn ho =>
    .nothing (newSegments_nil (fun n h => hn ▸ h)) (newRequests_nil (fun r hr _ =>
      origin_modify (Outbox.close state lastError) (fun _ => rfl) (ho ▸ hr)))
  cases he with
  | same h => exact hkept h.normalized h.outbox
  | admitted _ _ _ _ hnew _ _ ho hn =>
    refine .nothing (newSegments_nil (fun n h => hn ▸ h)) (newRequests_nil (fun r hr hev => ?_))
    rw [ho] at hr
    rcases (Table.mem_insert hnew).mp hr with hr | rfl
    · exact ⟨r, hr, rfl⟩
    · cases hev
  | leased h =>
    cases h with
    | none => exact hkept rfl rfl
    | leased =>
      exact .nothing (newSegments_nil (fun _ h => h)) (newRequests_nil (fun r hr _ =>
        origin_modify (Outbox.lease _ _ _) (fun _ => rfl) hr))
  | failed _ h =>
    cases h with
    | stale => exact hkept rfl rfl
    | failed => exact hclosed rfl rfl
  | normalized hp h => exact publishes_normalizing h hc hp
  | reported _ h =>
    cases h with
    | aside h =>
      cases h with
      | stale => exact hkept rfl rfl
      | suppressed => exact hclosed rfl rfl
      | changed => exact hclosed rfl rfl
    | published => exact hclosed rfl rfl
  | erased _ hrows =>
    exact .nothing (newSegments_nil (fun n h => ((hrows.normalized n).mp h).1))
      (newRequests_nil (fun r hr _ => ⟨r, ((hrows.outbox r).mp hr).1, rfl⟩))

/-- A run, with the segments normalized and the reports asked for, the last first. -/
inductive History (env : Env) (settings : IngestionSettings) :
    State → List NormalizedSegment → List OutboxRecord → Prop where
  | start : History env settings .initial [] []
  | step {s s' : State} {call : Call} {e : Ending Failure Reply} {ns : List NormalizedSegment}
      {rs : List OutboxRecord} (hr : History env settings s ns rs) (hs : Step env settings s call e s') :
      History env settings s' (newSegments s.catalog s'.catalog ++ ns)
        (newRequests s.catalog s'.catalog ++ rs)

theorem reachable_of_history {ns : List NormalizedSegment} {rs : List OutboxRecord}
    (h : History env settings s ns rs) : Reachable env settings s := by
  induction h with
  | start => exact .start
  | step _ hs ih => exact ih.step hs trivial

/-- The request asks for a report of the attempt of the segment. -/
structure Asks (n : NormalizedSegment) (r : OutboxRecord) : Prop where
  event : r.eventType = .reportRequested
  tenant : r.tenantId = n.tenantId
  attempt : r.aggregateId = .attempt n.attemptId

/-- The segment is still there, or its manifest is gone for good. -/
def Accounted (c : Catalog) (id : Uuid) : Prop :=
  id ∈ c.issued ∧ ((∃ n ∈ c.normalized, n.receiptId = id) ∨ ∀ x ∈ c.manifests, x.receiptId ≠ id)

theorem accounted_effect {id : Uuid} (he : EvidenceEffect env m c w call a c' w')
    (hi : c.issued ⊆ c'.issued) (h : Accounted c id) : Accounted c' id := by
  refine ⟨hi h.1, ?_⟩
  have hgone : (∀ x ∈ c.manifests, x.receiptId ≠ id) → ∀ x ∈ c'.manifests, x.receiptId ≠ id := by
    intro hnone x hx hid
    rcases manifests_fresh he hx with hx | hfresh
    · exact hnone x hx hid
    · exact hfresh (hid ▸ h.1)
  obtain ⟨n, hn, rfl⟩ | hnone := h.2
  · cases evidence_extent he with
    | grown _ hgrown => exact Or.inl ⟨n, hgrown n hn, rfl⟩
    | @erased l _ _ hnormalized hmanifests =>
      by_cases hx : ∃ x ∈ c.manifests, x.attempt = l.attempt ∧ n.receiptId = x.receiptId
      · obtain ⟨x, hx, hk, hid⟩ := hx
        refine Or.inr (fun y hy hyid => ?_)
        obtain ⟨hy, hne⟩ := (hmanifests y).mp hy
        exact hne (Table.eq_of_key hy hx (hyid.trans hid) ▸ hk)
      · refine Or.inl ⟨n, (hnormalized n).mpr ⟨hn, fun x hxm hk hid => hx ⟨x, hxm, hk, hid⟩⟩, rfl⟩
  · exact Or.inr (hgone hnone)

/-- Every segment is normalized once, and every normalization asks for one report. -/
structure Paired (c : Catalog) (ns : List NormalizedSegment) (rs : List OutboxRecord) : Prop where
  once : (ns.map NormalizedSegment.receiptId).Nodup
  asked : List.Forall₂ Asks ns rs
  accounted : ∀ n ∈ ns, Accounted c n.receiptId

theorem paired_step {ns : List NormalizedSegment} {rs : List OutboxRecord}
    (h : Step env settings s call e s') (hp : InPost s) (hs : Sound env s)
    (hpair : Paired s.catalog ns rs) :
    Paired s'.catalog (newSegments s.catalog s'.catalog ++ ns)
      (newRequests s.catalog s'.catalog ++ rs) := by
  obtain ⟨_, _, ⟨a, rfl, heff⟩ | ⟨_, hc, _⟩⟩ := step_cases h
  · have he := step_evidence h
    have hi := issued_mono (effect_admission heff)
    have hold : ∀ n ∈ ns, Accounted s'.catalog n.receiptId :=
      fun n hn => accounted_effect he hi (hpair.accounted n hn)
    cases publishes_effect he hp.catalog with
    | nothing hn hr =>
      rw [hn, hr]
      exact ⟨hpair.once, hpair.asked, hold⟩
    | one hlookup hcur hnone hn hadd hr =>
      obtain ⟨x, hx, rfl⟩ := hp.manifest hlookup hcur
      rw [hn, hr]
      refine ⟨List.nodup_cons.mpr ⟨?_, hpair.once⟩, .cons ⟨rfl, rfl, rfl⟩ hpair.asked, fun n hn => ?_⟩
      · intro hmem
        obtain ⟨n, hn, hid⟩ := List.mem_map.mp hmem
        obtain ⟨_, ⟨n', hn', hid'⟩ | hgone⟩ := hpair.accounted n hn
        · exact Table.get_eq_none.mp hnone n' hn' (hid'.trans hid)
        · exact hgone x hx hid.symm
      · rcases List.mem_cons.mp hn with rfl | hn
        · exact ⟨hi (hs.catalog.receipts x hx), Or.inl ⟨_, hadd, rfl⟩⟩
        · exact hold n hn
  · rw [hc, newSegments_nil (fun _ hn => hn), newRequests_nil (fun r hr _ => ⟨r, hr, rfl⟩)]
    exact hpair

theorem paired_of_history {ns : List NormalizedSegment} {rs : List OutboxRecord}
    (h : History env settings s ns rs) : Paired s.catalog ns rs := by
  induction h with
  | start => exact ⟨List.nodup_nil, .nil, fun n hn => nomatch hn⟩
  | step hr hs ih =>
    have hreach := reachable_of_history hr
    exact paired_step hs (inPost_of_reachable hreach) (sound_of_reachable hreach) ih

/-- Normalization is exactly once, whatever becomes of the leases. -/
structure NormalizedOnce (env : Env) (settings : IngestionSettings) (s : State) : Prop where
  history : ∀ ns rs, History env settings s ns rs →
    (ns.map NormalizedSegment.receiptId).Nodup ∧ List.Forall₂ Asks ns rs
  completed : ∀ r ∈ s.catalog.outbox, r.eventType = .segmentAdmitted → r.state = .completed →
    ∃ x ∈ s.catalog.manifests, ∃ n ∈ s.catalog.normalized, r.aggregateId = .receipt x.receiptId ∧
      n.receiptId = x.receiptId ∧ n.payloadSha256 = x.payloadSha256
  superseded : ∀ owner leaseSeconds now skip l s₁ s₂ owner' leaseSeconds' now' skip' l' s₃ s₄ call e s₅,
    Step env settings s (.outboxClaim owner leaseSeconds now skip)
      (.committed (.workLease (some l))) s₁ → Run env settings s₁ s₂ →
    Step env settings s₂ (.outboxClaim owner' leaseSeconds' now' skip')
      (.committed (.workLease (some l'))) s₃ → l.outboxId = l'.outboxId → Run env settings s₃ s₄ →
    Works s₄.memory l call → Step env settings s₄ call e s₅ → s₅.catalog = s₄.catalog
  consumed : ∀ owner leaseSeconds now skip l s₁ s₂ call a s₃ s₄ call' e s₅,
    Step env settings s (.outboxClaim owner leaseSeconds now skip)
      (.committed (.workLease (some l))) s₁ → Run env settings s₁ s₂ →
    Step env settings s₂ call (.committed a) s₃ → Consumes s₂.memory l call →
    Run env settings s₃ s₄ → Works s₄.memory l call' → Step env settings s₄ call' e s₅ →
    s₅.catalog = s₄.catalog

theorem normalized_once (h : Reachable env settings s) : NormalizedOnce env settings s where
  history ns rs hh := by
    have hpair := paired_of_history hh
    exact ⟨hpair.once, hpair.asked⟩
  completed r hr hev hdone := by
    have hp := (inPost_of_reachable h).catalog
    obtain ⟨n, hn, hagg⟩ := hp.completed r hr hev hdone
    obtain ⟨x, hx, hnx⟩ := hp.normalized n hn
    exact ⟨x, hx, n, hn, hnx.receipt ▸ hagg, hnx.receipt, hnx.digest⟩
  superseded owner leaseSeconds now skip l s₁ s₂ owner' leaseSeconds' now' skip' l' s₃ s₄ call e s₅
      hclaim hrun hclaim' hid hrun' hw hs := by
    have hr₂ := hrun.after env settings (h.step hclaim trivial)
    have hhanded := run_keeps hrun handedOut_effect
      (claim_retires hclaim (inPost_of_reachable h)).1
    have hretired := (claim_retires hclaim' (inPost_of_reachable hr₂)).2 l hhanded hid
    exact idle_of_retired hs hw (run_keeps hrun' retired_effect hretired)
  consumed owner leaseSeconds now skip l s₁ s₂ call a s₃ s₄ call' e s₅ hclaim hrun hstep hc hrun' hw
      hs := by
    have hr₂ := hrun.after env settings (h.step hclaim trivial)
    have hhanded := run_keeps hrun handedOut_effect
      (claim_retires hclaim (inPost_of_reachable h)).1
    have hretired := retired_of_consumed hstep hc (inPost_of_reachable hr₂) hhanded
    exact idle_of_retired hs hw (run_keeps hrun' retired_effect hretired)

end Deployment

namespace Sample

/-- The order the session flushes a publication in. -/
def flushOrder : FlushOrder := ⟨[.segment, .request, .record], List.Perm.refl _⟩

def normalization : List Call :=
  [.outboxClaim "worker" 60 5 [], .outboxRead 0 ⟨3, 1, "worker"⟩ Faults.none,
    .outboxPublish 0 6 flushOrder 7]

end Sample

namespace Deployment

theorem normalized_once_sample : ∃ s, runCalls Sample.env Sample.settings
    (Sample.admission ++ Sample.normalization) .initial = some s ∧
    (s.catalog.normalized.get 2).map NormalizedSegment.payloadSha256 = some Sample.digest ∧
    NormalizedOnce Sample.env Sample.settings s := by
  have h : (runCalls Sample.env Sample.settings (Sample.admission ++ Sample.normalization)
      .initial).map (fun s => (s.catalog.normalized.get 2).map NormalizedSegment.payloadSha256) =
        some (some Sample.digest) := by decide +kernel
  obtain ⟨s, hs, hn⟩ := Option.map_eq_some_iff.mp h
  exact ⟨s, hs, hn, normalized_once (run_of_runCalls _ _ .start hs)⟩

end Deployment

end RankLens
