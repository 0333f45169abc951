import RankLens.Soundness

namespace RankLens

open Interleaving (Ending)
open IngestionService (Flight)

namespace Deployment

variable {env : Env} {settings : IngestionSettings} {m : Memory} {c c' : Catalog}
  {w w' : ObjectStore} {s s' : State} {call : Call} {a : Reply} {e : Ending Failure Reply} {id : Uuid}

/-- The receipts that say a manifest was admitted now. -/
def freshReceipts (m : Memory) : List Uuid :=
  (m.receipts.filter (fun r => !r.2.2.replayed)).map (fun r => r.2.2.receiptId)

def inserts (id : Uuid) (s s' : State) : Bool :=
  (s.catalog.manifests.get id).isNone && (s'.catalog.manifests.get id).isSome

/-- A run, with how often a manifest has been added under the receipt. -/
inductive Insertions (env : Env) (settings : IngestionSettings) (id : Uuid) : State → Nat → Prop where
  | start : Insertions env settings id .initial 0
  | step {s s' : State} {n : Nat} {call : Call} {e : Ending Failure Reply}
      (hr : Insertions env settings id s n) (hs : Step env settings s call e s') :
      Insertions env settings id s' (if inserts id s s' then n + 1 else n)

/-- The reservation of the identifier is no longer live, and never will be again. -/
def Lost (id : Uuid) (c : Catalog) : Prop :=
  id ∈ c.issued ∧ ∀ r ∈ c.reservations, r.reservationId = id → r.state ≠ .reserved

theorem finish_receipts (h : ∀ ticket faults freshReceipt freshOutbox committedAt r,
      call = .admitCommit ticket faults freshReceipt freshOutbox committedAt →
      e ≠ .committed (.receipt r))
    (h' : ∀ ticket principal segment fresh now r,
      call = .admitReserve ticket principal segment fresh now →
      e = .committed (.admitted (.replay r)) → r.replayed = true) :
    freshReceipts (finish call e m) = freshReceipts m := by
  unfold finish
  split
  all_goals first
    | rfl
    | (split <;> rfl)
    | skip
  · next r =>
    have hr := h' _ _ _ _ _ r rfl rfl
    simp [freshReceipts, hr]
  · exact absurd rfl (h _ _ _ _ _ _ rfl)

/-- What a step adds to the manifests and to the receipts. -/
inductive Delivery (s s' : State) : Prop where
  | nothing (hm : ∀ id, inserts id s s' = false)
      (hr : freshReceipts s'.memory = freshReceipts s.memory)
  | one (id : Uuid) (hi : id ∉ s.catalog.issued) (hi' : id ∈ s'.catalog.issued)
      (hm : ∀ x, inserts x s s' = decide (x = id))
      (hr : freshReceipts s'.memory = id :: freshReceipts s.memory)

theorem inserts_of_subset (h : ∀ x ∈ s'.catalog.manifests, x ∈ s.catalog.manifests) :
    inserts id s s' = false := by
  cases hg : s.catalog.manifests.get id with
  | some x => simp [inserts, hg]
  | none =>
    cases hg' : s'.catalog.manifests.get id with
    | none => simp [inserts, hg']
    | some x =>
      have hx := Table.get_of_mem (h x (Table.mem_of_get hg'))
      rw [Table.key_of_get hg', hg] at hx
      cases hx

theorem inserts_of_added {x : SegmentManifest} (hs : Admissible env s.catalog)
    (hx : x.receiptId ∉ s.catalog.issued)
    (h : ∀ y, y ∈ s'.catalog.manifests ↔ y ∈ s.catalog.manifests ∨ y = x) :
    inserts id s s' = decide (id = x.receiptId) := by
  have hnone : s.catalog.manifests.get x.receiptId = none :=
    Table.get_eq_none.mpr (fun y hy hid => hx (hid ▸ hs.receipts y hy))
  by_cases hid : id = x.receiptId
  · have hg : s'.catalog.manifests.get x.receiptId = some x :=
      Table.get_of_mem ((h x).mpr (Or.inr rfl))
    rw [hid]
    simp [inserts, hnone, hg]
  · have hsame : s'.catalog.manifests.get id = s.catalog.manifests.get id := by
      ext y
      rw [Table.get_eq_some, Table.get_eq_some, h y]
      constructor
      · rintro ⟨hy | rfl, hk⟩
        · exact ⟨hy, hk⟩
        · exact absurd hk.symm hid
      · exact fun hy => ⟨Or.inl hy.1, hy.2⟩
    cases hg : s.catalog.manifests.get id <;> simp [inserts, hsame, hg, hid]

theorem replay_replayed {ticket : Nat} {principal : MachinePrincipal} {segment : SegmentUpload}
    {fresh : Uuid} {now : Instant} {r : DurableReceipt}
    (h : Effect env m c w (.admitReserve ticket principal segment fresh now)
      (.admitted (.replay r)) c' w') : r.replayed = true := by
  cases h with
  | quiet hq => cases hq
  | admitReserve _ h =>
    cases h
    rfl

theorem delivery_step (h : Step env settings s call e s') (hs : Sound env s) : Delivery s s' := by
  obtain ⟨hm, _, ⟨a, rfl, heff⟩ | ⟨hne, hc, _⟩⟩ := step_cases h
  · have hreplay : ∀ ticket principal segment fresh now r,
        call = .admitReserve ticket principal segment fresh now →
        Ending.committed (ε := Failure) a = .committed (.admitted (.replay r)) →
        r.replayed = true := by
      rintro _ _ _ _ _ r rfl hr
      cases hr
      exact replay_replayed heff
    have hquiet : (∀ ticket faults freshReceipt freshOutbox committedAt,
        call ≠ .admitCommit ticket faults freshReceipt freshOutbox committedAt) →
        freshReceipts s'.memory = freshReceipts s.memory := by
      intro hcall
      rw [hm]
      exact finish_receipts (fun _ _ _ _ _ _ hc => absurd hc (hcall _ _ _ _ _)) hreplay
    cases effect_admission heff with
    | same hsame _ _ ha => exact .nothing (fun id => inserts_of_subset (fun x hx => hsame ▸ hx)) (hquiet ha)
    | reserved _ _ _ _ hsame _ _ =>
      exact .nothing (fun id => inserts_of_subset (fun x hx => hsame ▸ hx)) (hquiet (by simp))
    | replayed hf _ _ _ _ hsame _ _ =>
      refine .nothing (fun id => inserts_of_subset (fun x hx => hsame ▸ hx)) ?_
      rw [hm]
      simp [finish, hf, freshReceipts, IngestionService.receipt]
    | admitted hf _ _ _ hfresh hadd _ hi =>
      refine .one _ hfresh (hi List.mem_cons_self) (fun x => inserts_of_added hs.catalog hfresh hadd) ?_
      rw [hm]
      simp [finish, hf, freshReceipts, IngestionService.receipt, IngestionService.newManifest]
    | swept _ hsame _ _ =>
      exact .nothing (fun id => inserts_of_subset (fun x hx => hsame ▸ hx)) (hquiet (by simp))
    | erased _ hsub _ _ =>
      exact .nothing (fun id => inserts_of_subset (fun x hx => ((hsub x).mp hx).1)) (hquiet (by simp))
  · refine .nothing (fun id => inserts_of_subset (fun x hx => hc ▸ hx)) ?_
    rw [hm]
    exact finish_receipts (fun _ _ _ _ _ r _ => hne (.receipt r))
      (fun _ _ _ _ _ r _ he => absurd he (hne _))

theorem issued_step (h : Step env settings s call e s') : s.catalog.issued ⊆ s'.catalog.issued := by
  obtain ⟨_, _, ⟨a, rfl, heff⟩ | ⟨_, hc, _⟩⟩ := step_cases h
  · exact issued_mono (effect_admission heff)
  · exact hc ▸ List.Subset.refl _

/-- The fresh receipts name different manifests, all of them issued. -/
structure Distinct (s : State) : Prop where
  nodup : (freshReceipts s.memory).Nodup
  issued : ∀ id ∈ freshReceipts s.memory, id ∈ s.catalog.issued

theorem distinct_step (h : Step env settings s call e s') (hs : Sound env s) (hd : Distinct s) :
    Distinct s' := by
  have hi := issued_step h
  cases delivery_step h hs with
  | nothing _ hr => exact ⟨hr ▸ hd.nodup, fun id hid => hi (hd.issued id (hr ▸ hid))⟩
  | one id hfresh hissued _ hr =>
    refine ⟨?_, fun x hx => ?_⟩
    · rw [hr, List.nodup_cons]
      exact ⟨fun hx => hfresh (hd.issued id hx), hd.nodup⟩
    · rw [hr] at hx
      rcases List.mem_cons.mp hx with rfl | hx
      · exact hissued
      · exact hi (hd.issued x hx)

theorem distinct_of_reachable (h : Reachable env settings s) : Distinct s := by
  induction h with
  | start => exact ⟨List.nodup_nil, fun id hid => nomatch hid⟩
  | step hr hs _ ih => exact distinct_step hs (sound_of_reachable hr) ih

theorem reachable_of_insertions {n : Nat} (h : Insertions env settings id s n) :
    Reachable env settings s := by
  induction h with
  | start => exact .start
  | step _ hs ih => exact ih.step hs trivial

theorem insertions_count {n : Nat} (h : Insertions env settings id s n) :
    n = (freshReceipts s.memory).count id := by
  induction h with
  | start => rfl
  | @step s s' n call e hr hs ih =>
    cases delivery_step hs (sound_of_reachable (reachable_of_insertions hr)) with
    | nothing hm hrec => rw [hm, hrec, ← ih, if_neg (by simp)]
    | one x _ _ hm hrec =>
      rw [hm, hrec, List.count_cons, ← ih]
      by_cases hx : id = x
      · simp [hx]
      · have hx' : ¬x = id := fun h => hx h.symm
        simp [hx, hx']

theorem lost_step (h : Step env settings s call e s') (hl : Lost id s.catalog) :
    Lost id s'.catalog := by
  refine ⟨issued_step h hl.1, ?_⟩
  obtain ⟨_, _, ⟨a, rfl, heff⟩ | ⟨_, hc, _⟩⟩ := step_cases h
  · intro x hx hid hs
    rcases reservation_origin (effect_admission heff) hx with
      ⟨r, hr, _, _, hold⟩ | ⟨_, _, _, fresh, _, _, _, _, _, hfresh, _, rfl⟩
    · exact hl.2 x (hold hs ▸ hr) hid hs
    · have hid' : fresh = id := hid
      exact hfresh (hid' ▸ hl.1)
  · exact hc ▸ hl.2

theorem lost_of_run (h : Run env settings s s') (hl : Lost id s.catalog) : Lost id s'.catalog := by
  induction h with
  | start => exact hl
  | step _ hs _ ih => exact lost_step hs ih

theorem manifests_of_lost {ticket : Nat} {faults : Faults} {freshReceipt freshOutbox : Uuid}
    {committedAt : Instant} {f : Flight}
    (h : Step env settings s (.admitCommit ticket faults freshReceipt freshOutbox committedAt) e s')
    (hf : flightAt s.memory ticket true = some f) (hl : Lost f.reservationId s.catalog) :
    s'.catalog.manifests = s.catalog.manifests := by
  obtain ⟨_, _, ⟨a, rfl, heff⟩ | ⟨_, hc, _⟩⟩ := step_cases h
  · have hstale : ∀ {r gens}, ¬IngestionService.Commits f s.catalog r gens := by
      intro r gens hcommit
      exact hl.2 r (Table.mem_of_get hcommit.get) (Table.key_of_get hcommit.get) hcommit.state
    cases effect_admission heff with
    | same hm => exact hm
    | replayed _ _ _ _ _ hm => exact hm
    | admitted hf' hcommit =>
      rw [hf] at hf'
      cases hf'
      exact absurd hcommit hstale
  · rw [hc]

/-- Admission is exactly once, by ranges that are disjoint. -/
structure ExactlyOnce (env : Env) (settings : IngestionSettings) (s : State) : Prop where
  disjoint : ∀ x ∈ s.catalog.manifests, ∀ y ∈ s.catalog.manifests, x ≠ y → x.stream = y.stream →
    Disjoint (Set.Icc x.firstSequence x.lastSequence) (Set.Icc y.firstSequence y.lastSequence)
  distinct : (freshReceipts s.memory).Nodup
  counted : ∀ id n, Insertions env settings id s n → n = (freshReceipts s.memory).count id
  stale : ∀ x ∈ s.memory.flights, (∀ r ∈ s.catalog.reservations,
      r.reservationId = x.2.1.reservationId → r.state ≠ .reserved) →
    ∀ s₁ s₂ ticket faults freshReceipt freshOutbox committedAt e, Run env settings s s₁ →
      flightAt s₁.memory ticket true = some x.2.1 →
      Step env settings s₁ (.admitCommit ticket faults freshReceipt freshOutbox committedAt) e s₂ →
      s₂.catalog.manifests = s₁.catalog.manifests

theorem admission_exactly_once (h : Reachable env settings s) : ExactlyOnce env settings s := by
  have hs := sound_of_reachable h
  refine ⟨fun x hx y hy hne hstream => ?_, (distinct_of_reachable h).nodup,
    fun id n hn => insertions_count hn, ?_⟩
  · rw [Set.disjoint_left]
    rintro n ⟨h₁, h₂⟩ ⟨h₃, h₄⟩
    exact hne (hs.catalog.ranges x hx y hy hstream (h₁.trans h₄) (h₃.trans h₂))
  · intro x hx hlost s₁ s₂ ticket faults freshReceipt freshOutbox committedAt e hrun hf hstep
    exact manifests_of_lost hstep hf (lost_of_run hrun ⟨(hs.flights x hx).issued, hlost⟩)

theorem admission_exactly_once_sample : ∃ s,
    runCalls Sample.env Sample.settings Sample.admission .initial = some s ∧
    freshReceipts s.memory = [2] ∧ ExactlyOnce Sample.env Sample.settings s := by
  have h : (runCalls Sample.env Sample.settings Sample.admission .initial).map
      (fun s => freshReceipts s.memory) = some [2] := by decide +kernel
  obtain ⟨s, hs, hfresh⟩ := Option.map_eq_some_iff.mp h
  exact ⟨s, hs, hfresh, admission_exactly_once (run_of_runCalls _ _ .start hs)⟩

end Deployment

end RankLens
