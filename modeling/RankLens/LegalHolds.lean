import RankLens.Provenance

namespace RankLens

open Interleaving (Ending)
open AttemptDeletionWorker (Cleared Erasable Executing OutboxOf ObservationOf requestOf)
open IngestionService (Fencing Releasing)

namespace Deployment

variable {env : Env} {settings : IngestionSettings} {s s' : State} {call : Call} {a : Reply}
  {e : Ending Failure Reply} {c c' : Catalog} {w w' : ObjectStore} {k k' : AttemptKey}
  {t t' : Table AttemptDeletion.attempt} {holds holds' : Table AttemptHold.holdId}

def Held (k : AttemptKey) (holds : Table AttemptHold.holdId) : Prop :=
  ∃ h ∈ holds, activeHold k h = true

/-- A deletion request is in state `held` exactly while a hold is active. -/
def HeldExactly (t : Table AttemptDeletion.attempt) (holds : Table AttemptHold.holdId) : Prop :=
  ∀ d ∈ t, d.state = .held ↔ Held d.attempt holds

theorem not_held (h : ∀ x ∈ holds, activeHold k x = false) : ¬Held k holds := by
  intro ⟨x, hx, ha⟩
  rw [h x hx] at ha
  cases ha

theorem heldExactly_at (h : HeldExactly t holds) (hsame : ∀ k' ≠ k, Held k' holds' ↔ Held k' holds)
    (ht : ∀ d ∈ t', (d ∈ t ∧ d.attempt ≠ k) ∨ (d.attempt = k ∧ (d.state = .held ↔ Held k holds'))) :
    HeldExactly t' holds' := by
  intro d hd
  rcases ht d hd with ⟨hd, hk⟩ | ⟨rfl, hd⟩
  · exact (h d hd).trans (hsame _ hk).symm
  · exact hd

theorem heldExactly_insert {d : AttemptDeletion} (h : HeldExactly t holds)
    (hnew : t.get d.attempt = none) (hd : d.state = .held ↔ Held d.attempt holds) :
    HeldExactly (t.insert d) holds := by
  refine heldExactly_at (k := d.attempt) h (fun _ _ => Iff.rfl) (fun x hx => ?_)
  rcases (Table.mem_insert hnew).mp hx with hx | hx
  · exact Or.inl ⟨hx, Table.get_eq_none.mp hnew x hx⟩
  · rw [hx]
    exact Or.inr ⟨rfl, hd⟩

theorem heldExactly_modify (f : AttemptDeletion → AttemptDeletion)
    (hf : ∀ r, (f r).attempt = r.attempt) (h : HeldExactly t holds)
    (hsame : ∀ k' ≠ k, Held k' holds' ↔ Held k' holds)
    (hd : ∀ d ∈ t, d.attempt = k → ((f d).state = .held ↔ Held k holds')) :
    HeldExactly (t.modify k f hf) holds' := by
  refine heldExactly_at h hsame (fun x hx => ?_)
  rcases Table.mem_modify.mp hx with hx | ⟨d, hm, hk, rfl⟩
  · exact Or.inl hx
  · exact Or.inr ⟨(hf d).trans hk, hd d hm hk⟩

theorem held_insert {h : AttemptHold} (hnew : holds.get h.holdId = none) :
    (∀ k' ≠ h.attempt, Held k' (holds.insert h) ↔ Held k' holds) ∧
      (h.state = .active → Held h.attempt (holds.insert h)) := by
  constructor
  · intro k' hk
    constructor
    · intro ⟨x, hx, ha⟩
      rcases (Table.mem_insert hnew).mp hx with hx | hx
      · exact ⟨x, hx, ha⟩
      · rw [hx, activeHold, Bool.and_eq_true, decide_eq_true_eq] at ha
        exact absurd ha.1.symm hk
    · intro ⟨x, hx, ha⟩
      exact ⟨x, Table.mem_insert_of_mem hx, ha⟩
  · intro hs
    exact ⟨h, (Table.mem_insert hnew).mpr (Or.inr rfl), by simp [activeHold, hs]⟩

theorem mem_released {h x : AttemptHold} {credentialId : String} {releasedAt : Instant}
    {hf : ∀ r, (IngestionService.release credentialId releasedAt r).holdId = r.holdId}
    (hget : holds.get h.holdId = some h) {key : AttemptKey} :
    (x ∈ holds.modify h.holdId (IngestionService.release credentialId releasedAt) hf ∧
      activeHold key x = true) ↔ x ∈ holds ∧ activeHold key x = true ∧ x.holdId ≠ h.holdId := by
  rw [Table.mem_modify_of_mem (Table.mem_of_get hget)]
  constructor
  · rintro ⟨⟨hx, hne⟩ | rfl, ha⟩
    · exact ⟨hx, ha, fun hid => hne (Table.eq_of_key hx (Table.mem_of_get hget) hid)⟩
    · simp [activeHold, IngestionService.release] at ha
  · intro ⟨hx, ha, hid⟩
    exact ⟨Or.inl ⟨hx, fun he => hid (he ▸ rfl)⟩, ha⟩

theorem held_released {h : AttemptHold} {credentialId : String} {releasedAt : Instant}
    (hf : ∀ r, (IngestionService.release credentialId releasedAt r).holdId = r.holdId)
    (hget : holds.get h.holdId = some h) : ∀ k' ≠ h.attempt,
      Held k' (holds.modify h.holdId (IngestionService.release credentialId releasedAt) hf) ↔
        Held k' holds := by
  intro k' hk
  constructor
  · intro ⟨x, hx⟩
    obtain ⟨hm, ha, _⟩ := (mem_released hget).mp hx
    exact ⟨x, hm, ha⟩
  · intro ⟨x, hx, ha⟩
    refine ⟨x, (mem_released hget).mpr ⟨hx, ha, fun hid => hk ?_⟩⟩
    have hxh := Table.eq_of_key hx (Table.mem_of_get hget) hid
    rw [activeHold, Bool.and_eq_true, decide_eq_true_eq] at ha
    rw [← hxh, ha.1]

theorem held_of_active {h : AttemptHold} (hm : h ∈ holds) (hs : h.state = .active) :
    Held h.attempt holds := ⟨h, hm, by simp [activeHold, hs]⟩

theorem deleting_held {now : Instant} {d : Deleted} (h : IngestionService.Deleting k now c d c')
    (hc : HeldExactly c.deletions c.holds) : HeldExactly c'.deletions c'.holds := by
  cases h with
  | blocked hold _ hdel =>
    cases hdel with
    | new hnew => exact heldExactly_insert hc hnew ⟨fun _ => hold, fun _ => rfl⟩
    | completed => exact hc
    | blocked =>
      exact heldExactly_modify IngestionService.block (fun _ => rfl) hc (fun _ _ => Iff.rfl) (fun _ _ _ => ⟨fun _ => hold, fun _ => rfl⟩)
  | fenced hfree _ hdel =>
    have hnone := not_held hfree
    cases hdel with
    | new hnew => exact heldExactly_insert hc hnew ⟨fun h => (nomatch h), fun h => absurd h hnone⟩
    | same => exact hc
    | again =>
      exact heldExactly_modify (IngestionService.requeue _ _) (fun _ => rfl) hc (fun _ _ => Iff.rfl)
        (fun _ _ _ => ⟨fun h => (nomatch h), fun h => absurd h hnone⟩)

theorem placing_held {holdId : Uuid} {reason credentialId : String} {now : Instant}
    (h : IngestionService.Placing k holdId reason credentialId now c c')
    (hc : HeldExactly c.deletions c.holds) : HeldExactly c'.deletions c'.holds := by
  cases h with
  | again => exact hc
  | unrequested hnew hdel =>
    have hins := held_insert (h := IngestionService.newHold k holdId (strip reason) credentialId now) hnew
    refine heldExactly_at hc hins.1 (fun d hd => Or.inl ⟨hd, ?_⟩)
    exact Table.get_eq_none.mp hdel d hd
  | requested hnew hdel hs =>
    have hins := held_insert (h := IngestionService.newHold k holdId (strip reason) credentialId now) hnew
    exact heldExactly_modify IngestionService.block (fun _ => rfl) hc hins.1 (fun _ _ _ => ⟨fun _ => hins.2 rfl, fun _ => rfl⟩)

theorem releasing_held {holdId : Uuid} {credentialId : String} {releasedAt now : Instant} {b : Bool}
    (h : Releasing holdId credentialId releasedAt now c b c')
    (hc : HeldExactly c.deletions c.holds) : HeldExactly c'.deletions c'.holds := by
  cases h with
  | already => exact hc
  | @other h holds hget hs hholds hrest =>
    subst hholds
    obtain rfl := Table.key_of_get hget
    refine heldExactly_at hc (held_released (fun _ => rfl) hget) (fun d hd => ?_)
    by_cases hk : d.attempt = h.attempt
    · have hheld : d.state = .held :=
        (hc d hd).mpr (hk ▸ held_of_active (Table.mem_of_get hget) hs)
      refine Or.inr ⟨hk, fun _ => ?_, fun _ => hheld⟩
      -- a held request rules out that its state stopped the release
      refine hrest.resolve_right (fun hne => hne ?_)
      rw [← hk, Table.get_of_mem hd, Option.map_some, hheld]
    · exact Or.inl ⟨hd, hk⟩
  | @last h holds d g gens hget hs hholds hrest hdel hheld hgens =>
    subst hholds
    obtain rfl := Table.key_of_get hget
    exact heldExactly_modify (IngestionService.resume _) (fun _ => rfl) hc (held_released (fun _ => rfl) hget)
      (fun _ _ _ => ⟨fun h => (nomatch h), fun h => absurd h (not_held hrest)⟩)

theorem claiming_held {owner : String} {expiresAt now : Instant} {l : Option DeletionLease}
    (h : AttemptDeletionWorker.Claiming owner expiresAt now c l c')
    (hc : HeldExactly c.deletions c.holds) : HeldExactly c'.deletions c'.holds := by
  cases h with
  | nothing => exact hc
  | @leased d hd hs =>
    refine heldExactly_modify (AttemptDeletionWorker.lease _ _ _) (fun _ => rfl) hc (fun _ _ => Iff.rfl) (fun x hx hk => ?_)
    obtain rfl := Table.eq_of_key hx hd hk
    refine ⟨fun h => (nomatch h), fun h => ?_⟩
    rw [AttemptDeletionWorker.claimable, (hc x hx).mpr h] at hs
    cases hs

theorem current_free {l : DeletionLease} {d : AttemptDeletion} (hc : HeldExactly c.deletions c.holds)
    (hget : c.deletions.get l.attempt = some d) (hcur : AttemptDeletionWorker.current l d = true) :
    ¬Held l.attempt c.holds := by
  intro h
  have hheld := (hc d (Table.mem_of_get hget)).mpr ((Table.key_of_get hget).symm ▸ h)
  rw [AttemptDeletionWorker.current, hheld] at hcur
  cases hcur

theorem failing_held {l : DeletionLease} {message : String}
    (h : AttemptDeletionWorker.Failing l message c c') (hc : HeldExactly c.deletions c.holds) :
    HeldExactly c'.deletions c'.holds := by
  cases h with
  | ignored => exact hc
  | @failed d hget hcur =>
    refine heldExactly_modify (AttemptDeletionWorker.failed _ _) (fun _ => rfl) hc (fun _ _ => Iff.rfl) (fun x hx hk => ?_)
    have hfree := current_free hc hget hcur
    by_cases h5 : 5 ≤ d.attempts
    · simp [AttemptDeletionWorker.failed, h5, hfree]
    · simp [AttemptDeletionWorker.failed, h5, hfree]

theorem executing_held {l : DeletionLease} {now : Instant} {done : Bool}
    (h : Executing l now c w done c' w') (hc : HeldExactly c.deletions c.holds) :
    HeldExactly c'.deletions c'.holds := by
  cases h with
  | stale => exact hc
  | heldBack _ _ hold =>
    exact heldExactly_modify AttemptDeletionWorker.holdBack (fun _ => rfl) hc (fun _ _ => Iff.rfl) (fun _ _ _ => ⟨fun _ => hold, fun _ => rfl⟩)
  | @erased d g found rows c₁ w₁ _ _ hfree _ _ _ hrows =>
    have hholds : c₁.holds = c.holds := by rw [hrows.others]
    show HeldExactly _ c₁.holds
    rw [hholds]
    exact heldExactly_modify (AttemptDeletionWorker.completed _ _ _) (fun _ => rfl) hc (fun _ _ => Iff.rfl)
      (fun _ _ _ => ⟨fun h => (nomatch h), fun h => absurd h (not_held hfree)⟩)

theorem lifting_held {actor : String} {entry : TombstoneEntry}
    (h : Recovery.Lifting actor entry holds holds') :
    ¬Held entry.attempt holds' ∧ ∀ k' ≠ entry.attempt, Held k' holds' ↔ Held k' holds := by
  constructor
  · intro ⟨x, hx, ha⟩
    rcases (h x).mp hx with ⟨_, hn⟩ | ⟨y, _, _, rfl⟩
    · rw [hn] at ha
      cases ha
    · simp [activeHold, Recovery.release] at ha
  · intro k' hk
    constructor
    · intro ⟨x, hx, ha⟩
      rcases (h x).mp hx with ⟨hx, _⟩ | ⟨y, _, _, rfl⟩
      · exact ⟨x, hx, ha⟩
      · simp [activeHold, Recovery.release] at ha
    · intro ⟨x, hx, ha⟩
      refine ⟨x, (h x).mpr (Or.inl ⟨hx, ?_⟩), ha⟩
      rw [activeHold, Bool.and_eq_true, decide_eq_true_eq] at ha
      have hne : x.attempt ≠ entry.attempt := fun he => hk (ha.1.symm.trans he)
      simp [activeHold, hne]

theorem applying_held {actor : String} {entry : TombstoneEntry}
    (h : Recovery.Applying actor entry c c') (hc : HeldExactly c.deletions c.holds) :
    HeldExactly c'.deletions c'.holds := by
  cases h with
  | stale => exact hc
  | applied _ hdel hholds =>
    obtain ⟨hnone, hsame⟩ := lifting_held hholds
    cases hdel with
    | new hnew =>
      refine heldExactly_at hc hsame (fun x hx => ?_)
      rcases (Table.mem_insert hnew).mp hx with hx | hx
      · exact Or.inl ⟨hx, Table.get_eq_none.mp hnew x hx⟩
      · rw [hx]
        exact Or.inr ⟨rfl, fun h => (nomatch h), fun h => absurd h hnone⟩
    | again =>
      exact heldExactly_modify (Recovery.reopen _ _) (fun _ => rfl) hc hsame
        (fun _ _ _ => ⟨fun h => (nomatch h), fun h => absurd h hnone⟩)

theorem lifecycle_held (h : LifecycleEffect c w call c' w') (hc : HeldExactly c.deletions c.holds) :
    HeldExactly c'.deletions c'.holds := by
  cases h with
  | same _ hh hd => exact hh ▸ hd ▸ hc
  | opened _ hh hd => exact hh ▸ hd ▸ hc
  | deleting h => exact deleting_held h hc
  | placing h => exact placing_held h hc
  | releasing h => exact releasing_held h hc
  | claiming h => exact claiming_held h hc
  | failing h => exact failing_held h hc
  | executing h => exact executing_held h hc
  | importing h =>
    cases h with
    | replayed => exact hc
    | imported h =>
      exact Txn.Chain.preserves (P := fun c => HeldExactly c.deletions c.holds) h
        (fun _ _ _ _ hx hc => applying_held hx hc) hc

theorem held_of_reachable (h : Reachable env settings s) :
    HeldExactly s.catalog.deletions s.catalog.holds := by
  induction h with
  | start => exact fun d hd => absurd hd (Table.not_mem_empty d)
  | step _ hs _ ih =>
    obtain ⟨_, _, ⟨a, rfl, heff⟩ | ⟨_, hc, _⟩⟩ := step_cases hs
    · exact lifecycle_held (effect_lifecycle heff) ih
    · exact hc ▸ ih

/-- Every row of the attempt is still there. -/
structure RowsKept (k : AttemptKey) (c c' : Catalog) : Prop where
  manifests : ∀ x ∈ c.manifests, x.attempt = k → x ∈ c'.manifests
  reservations : ∀ x ∈ c.reservations, x.attempt = k → x ∈ c'.reservations
  revisions : ∀ x ∈ c.revisions, x.attempt = k → x ∈ c'.revisions
  heads : ∀ x ∈ c.heads, x.attempt = k → x ∈ c'.heads
  records : ∀ x ∈ c.records, x.attempt = k → x ∈ c'.records
  normalized : ∀ x ∈ c.normalized,
    (∃ m ∈ c.manifests, m.attempt = k ∧ x.receiptId = m.receiptId) → x ∈ c'.normalized
  outbox : ∀ x ∈ c.outbox, OutboxOf k c x → x ∈ c'.outbox
  observations : ∀ x ∈ c.observations, ObservationOf k c x → x ∈ c'.observations
  candidates : ∀ x ∈ c.candidates, ObjectOf k c x.objectKey → x ∈ c'.candidates
  deletions : c'.deletions.get k = c.deletions.get k
  generations : c'.generations = c.generations
  holds : c'.holds = c.holds

theorem RowsKept.refl (k : AttemptKey) (c : Catalog) : RowsKept k c c :=
  ⟨fun _ h _ => h, fun _ h _ => h, fun _ h _ => h, fun _ h _ => h, fun _ h _ => h,
    fun _ h _ => h, fun _ h _ => h, fun _ h _ => h, fun _ h _ => h, rfl, rfl, rfl⟩

theorem outboxOf_unique {x : OutboxRecord} (h : OutboxOf k c x) (h' : OutboxOf k' c x) : k = k' := by
  cases h with
  | receipt he hm hk hx =>
    cases h' with
    | receipt _ hm' hk' hx' =>
      rw [hx, Aggregate.receipt.injEq] at hx'
      rw [← hk, ← hk', Table.eq_of_key hm hm' hx']
    | request hx' _ => simp [requestOf, he] at hx'
  | request hx hc =>
    cases h' with
    | receipt he _ _ _ => simp [requestOf, he] at hx
    | request hx' hc' =>
      simp only [requestOf, Bool.and_eq_true, decide_eq_true_eq] at hx hx'
      have ha := hx.2.symm.trans hx'.2
      have hcl := hc.symm.trans hc'
      rw [Aggregate.attempt.injEq] at ha
      rw [Option.some.injEq] at hcl
      cases k
      cases k'
      rw [AttemptKey.mk.injEq]
      exact ⟨hx.1.1.symm.trans hx'.1.1, hcl, ha⟩

theorem observationOf_unique {x : SchedulerObservation} (hc : Tables.records.NoClash c.records)
    (h : ObservationOf k c x) (h' : ObservationOf k' c x) : k = k' := by
  obtain ⟨r, hget, hr, ht, hcl⟩ := h
  obtain ⟨r', hget', hr', ht', hcl'⟩ := h'
  have hk : r.attempt = k := Table.key_of_get hget
  have hk' : r'.attempt = k' := Table.key_of_get hget'
  have htenant : r.tenantId = r'.tenantId := by
    have h₁ : r.tenantId = k.tenantId := congrArg AttemptKey.tenantId hk
    have h₂ : r'.tenantId = k'.tenantId := congrArg AttemptKey.tenantId hk'
    rw [h₁, h₂, ← ht, ht']
  have hcluster : r.clusterId = r'.clusterId := by
    have h₁ : r.clusterId = k.clusterId := congrArg AttemptKey.clusterId hk
    have h₂ : r'.clusterId = k'.clusterId := congrArg AttemptKey.clusterId hk'
    rw [h₁, h₂, ← hcl, hcl']
  have hclash : Tables.records.clashes r r' = true := by
    simp [Ref.clashes, hr, hr', htenant, hcluster]
  rw [← hk, ← hk', hc r (Table.mem_of_get hget) r' (Table.mem_of_get hget') hclash]

theorem erased_keeps (hsep : Separate s.catalog) (hs : Sound env s)
    {l : DeletionLease} (h : AttemptDeletionWorker.RowsErased l.attempt s.catalog c')
    {f : AttemptDeletion → AttemptDeletion} {hf : ∀ r, (f r).attempt = r.attempt}
    (hk : k ≠ l.attempt) : RowsKept k s.catalog
      { c' with deletions := s.catalog.deletions.modify l.attempt f hf } where
  manifests x hx hxk := (h.manifests x).mpr ⟨hx, fun he => hk (hxk.symm.trans he)⟩
  reservations x hx hxk := (h.reservations x).mpr ⟨hx, fun he => hk (hxk.symm.trans he)⟩
  revisions x hx hxk := (h.revisions x).mpr ⟨hx, fun he => hk (hxk.symm.trans he)⟩
  heads x hx hxk := (h.heads x).mpr ⟨hx, fun he => hk (hxk.symm.trans he)⟩
  records x hx hxk := (h.records x).mpr ⟨hx, fun he => hk (hxk.symm.trans he)⟩
  normalized x hx hxk := by
    obtain ⟨m, hm, hmk, hid⟩ := hxk
    refine (h.normalized x).mpr ⟨hx, fun m' hm' hmk' hid' => hk ?_⟩
    rw [← hmk, ← hmk', Table.eq_of_key hm hm' (hid.symm.trans hid')]
  outbox x hx hxk := (h.outbox x).mpr ⟨hx, fun ho => hk (outboxOf_unique hxk ho)⟩
  observations x hx hxk :=
    (h.kept x hx).resolve_right (fun ho => hk (observationOf_unique hs.records hxk ho))
  candidates x hx hxk := (h.candidates x).mpr ⟨hx, fun he => hk (hsep _ _ _ he hxk)⟩
  deletions := Table.get_modify_of_ne hk
  generations := by
    show c'.generations = _
    rw [h.others]
  holds := by
    show c'.holds = _
    rw [h.others]

/-- What an execute step leaves of an attempt: its rows and its objects. -/
structure Spared (k : AttemptKey) (s s' : State) : Prop where
  rows : RowsKept k s.catalog s'.catalog
  objects : ∀ key, ObjectOf k s.catalog key → s'.objects key = s.objects key

theorem executing_keeps (hsep : Separate s.catalog) (hs : Sound env s)
    (hheld : HeldExactly s.catalog.deletions s.catalog.holds) {l : DeletionLease} {now : Instant}
    {done : Bool} (h : Executing l now s.catalog w done c' w') (hk : Held k s.catalog.holds) :
    RowsKept k s.catalog c' := by
  cases h with
  | stale => exact .refl k _
  | heldBack hget hcur hold => exact absurd hold (current_free hheld hget hcur)
  | erased _ _ hfree _ _ _ hrows =>
    exact erased_keeps hsep hs hrows (fun he => not_held hfree (he ▸ hk))

theorem execute_spares (hsep : Separate s.catalog) (hr : Reachable env settings s)
    {l : DeletionLease} {faults : Faults} {now : Instant}
    (h : Step env settings s (.deletionExecute l faults now) e s') (hk : Held k s.catalog.holds) :
    Spared k s s' := by
  have hs := sound_of_reachable hr
  obtain ⟨_, ht, hstep⟩ := step_cases h
  constructor
  · rcases hstep with ⟨a, rfl, heff⟩ | ⟨_, hc, _⟩
    · generalize s'.catalog = c', s'.objects = w' at heff
      cases heff with
      | quiet hq => cases hq
      | deletionExecute h => exact executing_keeps hsep hs (held_of_reachable hr) h hk
    · rw [hc]
      exact .refl k _
  · intro key hkey
    refine (ht key).resolve_right (fun ⟨⟨hc, he⟩, _⟩ => ?_)
    exact not_held hc.free (hsep _ _ _ he hkey ▸ hk)

/-- The hold is the last active one of an attempt whose deletion it holds back. -/
structure LastHold (holdId : Uuid) (k : AttemptKey) (c : Catalog) : Prop where
  active : ∃ h, c.holds.get holdId = some h ∧ h.attempt = k ∧ h.state = .active
  last : ∀ x ∈ c.holds, activeHold k x = true → x.holdId = holdId
  held : ∃ d, c.deletions.get k = some d ∧ d.state = .held

/-- The deletion of the attempt starts over under its fence, the others stay. -/
structure Resumed (k : AttemptKey) (c c' : Catalog) : Prop where
  pending : ∃ d g, c'.deletions.get k = some d ∧ c'.generations.get k = some g ∧
    d.state = .pending ∧ d.deletionGeneration = g.generation ∧ g.deletedAt ≠ none
  others : ∀ k' ≠ k, c'.deletions.get k' = c.deletions.get k'

theorem fencing_get {now : Instant} {gens gens' : Table AttemptGeneration.attempt}
    {g : Nat × Instant} (h : Fencing k now gens g gens') :
    ∃ r, gens'.get k = some r ∧ r.generation = g.1 ∧ r.deletedAt = some g.2 := by
  cases h with
  | first hnone =>
    refine ⟨⟨k.tenantId, k.clusterId, k.attemptId, 1, some now⟩, ?_, rfl, rfl⟩
    rw [Table.get_insert hnone]
    exact if_pos rfl
  | live hget hd => exact ⟨_, Table.get_modify_self hget, rfl, rfl⟩
  | already hget hd => exact ⟨_, hget, rfl, hd⟩

theorem releasing_resumes {holdId : Uuid} {credentialId : String} {releasedAt now : Instant}
    {b : Bool} (h : Releasing holdId credentialId releasedAt now c b c') :
    (∃ k, LastHold holdId k c ∧ Resumed k c c') ∨
      ((∀ k, ¬LastHold holdId k c) ∧ c'.deletions = c.deletions) := by
  cases h with
  | @already h hget hs =>
    refine Or.inr ⟨fun k hl => ?_, rfl⟩
    obtain ⟨h', hget', _, hs'⟩ := hl.active
    rw [hget, Option.some.injEq] at hget'
    rw [← hget', hs] at hs'
    cases hs'
  | @other h holds hget hs hholds hrest =>
    subst hholds
    obtain rfl := Table.key_of_get hget
    refine Or.inr ⟨fun k hl => ?_, rfl⟩
    obtain ⟨h', hget', rfl, _⟩ := hl.active
    obtain rfl : h = h' := by
      rw [hget] at hget'
      exact Option.some.inj hget'
    rcases hrest with ⟨x, hx⟩ | hne
    · obtain ⟨hm, ha, hid⟩ := (mem_released hget).mp hx
      exact hid (hl.last x hm ha)
    · obtain ⟨d, hd, hheld⟩ := hl.held
      exact hne (by rw [hd, Option.map_some, hheld])
  | @last h holds d g gens hget hs hholds hrest hdel hheld hgens =>
    subst hholds
    obtain rfl := Table.key_of_get hget
    refine Or.inl ⟨h.attempt, ⟨⟨h, hget, rfl, hs⟩, fun x hx ha => ?_, d, hdel, hheld⟩, ?_, ?_⟩
    · by_contra hid
      have hleft := (@mem_released _ h x credentialId releasedAt (fun _ => rfl) hget _).mpr
        ⟨hx, ha, hid⟩
      rw [hrest x hleft.1] at hleft
      cases hleft.2
    · obtain ⟨r, hr, hg, hd⟩ := fencing_get hgens
      refine ⟨_, r, Table.get_modify_self hdel, hr, rfl, hg.symm, fun hn => ?_⟩
      rw [hd] at hn
      cases hn
    · exact fun k' hk => Table.get_modify_of_ne hk

theorem release_resumes {holdId : Uuid} {credentialId : String}
    {expected : Option (String × Option String × Option String)} {releasedAt now : Instant}
    (h : Step env settings s (.releaseAttemptHold holdId credentialId expected releasedAt now) e s') :
    (∃ k, LastHold holdId k s.catalog ∧ (∃ a, e = .committed a) ∧ Resumed k s.catalog s'.catalog) ∨
      (((∀ k, ¬LastHold holdId k s.catalog) ∨ ∀ a, e ≠ .committed a) ∧
        s'.catalog.deletions = s.catalog.deletions) := by
  obtain ⟨_, _, ⟨a, rfl, heff⟩ | ⟨hne, hc, _⟩⟩ := step_cases h
  · generalize s'.catalog = c', s'.objects = w' at heff
    cases heff with
    | quiet hq => cases hq
    | releaseAttemptHold h =>
      rcases releasing_resumes h with ⟨k, hl, hr⟩ | ⟨hl, hd⟩
      · exact Or.inl ⟨k, hl, ⟨_, rfl⟩, hr⟩
      · exact Or.inr ⟨Or.inl hl, hd⟩
  · exact Or.inr ⟨Or.inr hne, by rw [hc]⟩

/-- Holds block erasure, and erasure resumes on the last release. -/
structure HoldsRespected (env : Env) (settings : IngestionSettings) (s : State) : Prop where
  held : ∀ d ∈ s.catalog.deletions, d.state ≠ .completed →
    (d.state = .held ↔ Held d.attempt s.catalog.holds)
  completed : ∀ d ∈ s.catalog.deletions, d.state = .completed → ¬Held d.attempt s.catalog.holds
  spared : ∀ l faults now e s' k, Step env settings s (.deletionExecute l faults now) e s' →
    Held k s.catalog.holds → Spared k s s'
  released : ∀ holdId credentialId expected releasedAt now e s',
    Step env settings s (.releaseAttemptHold holdId credentialId expected releasedAt now) e s' →
    (∃ k, LastHold holdId k s.catalog ∧ (∃ a, e = .committed a) ∧ Resumed k s.catalog s'.catalog) ∨
      (((∀ k, ¬LastHold holdId k s.catalog) ∨ ∀ a, e ≠ .committed a) ∧
        s'.catalog.deletions = s.catalog.deletions)

/-- In every reachable state holds block erasure, and the last release resumes it. -/
theorem holds_respected {python : Python} {write : List NormalizedRow → Bytes}
    (hl : Legible env python write) (h : Reachable env settings s) :
    HoldsRespected env settings s where
  held d hd _ := held_of_reachable h d hd
  completed d hd hs hheld := by
    have hstate := (held_of_reachable h d hd).mpr hheld
    rw [hs] at hstate
    cases hstate
  spared _ _ _ _ _ _ hs hk := execute_spares (separate_of_reachable hl h) h hs hk
  released _ _ _ _ _ _ _ hs := release_resumes hs

end Deployment

namespace Sample

/-- A hold on the attempt that has a report, and the erasure of the other attempt. -/
def held : List Call :=
  admission ++ normalization ++ report ++
    [.placeAttemptHold attempt₁ 50 "audit" "credential" 12, .deleteAttempt attempt₁ 13] ++
    erasure attempt₂

end Sample

namespace Deployment

theorem holds_respected_sample : ∃ s,
    runCalls Sample.reporting Sample.settings Sample.held .initial = some s ∧
    s.catalog.deletions.rows.map AttemptDeletion.state = [.held, .completed] ∧
    s.catalog.revisions.rows.map ReportRevision.attempt = [Sample.attempt₁] ∧
    HoldsRespected Sample.reporting Sample.settings s := by
  have h : (runCalls Sample.reporting Sample.settings Sample.held .initial).map
      (fun s => (s.catalog.deletions.rows.map AttemptDeletion.state,
        s.catalog.revisions.rows.map ReportRevision.attempt)) =
          some ([.held, .completed], [Sample.attempt₁]) := by
    decide +kernel
  obtain ⟨s, hs, hrows⟩ := Option.map_eq_some_iff.mp h
  obtain ⟨hstates, hattempts⟩ := Prod.mk.inj hrows
  exact ⟨s, hs, hstates, hattempts,
    holds_respected Sample.reporting_legible (run_of_runCalls _ _ .start hs)⟩

end Deployment

end RankLens
