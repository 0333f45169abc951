import RankLens.LegalHolds

namespace RankLens

open Interleaving (Ending)
open AttemptDeletionWorker (Cleared Erasable Executing Claiming current newLease generationCurrent)
open IngestionService (Fencing Opened Unfenced Releasing Placing)
open Recovery (Applying Importing Entombing Reopening)

namespace Deployment

variable {env : Env} {settings : IngestionSettings} {s s' : State} {call : Call} {a : Reply}
  {e : Ending Failure Reply} {c c' : Catalog} {w w' : ObjectStore} {k : AttemptKey}
  {t t' : Table AttemptDeletion.attempt} {gens gens' : Table AttemptGeneration.attempt}
  {l l' : DeletionLease}

/-- A request keeps or raises its lease generation, and is leased anew only with a
higher one. -/
structure Advances (d d' : AttemptDeletion) : Prop where
  grows : d.leaseGeneration ≤ d'.leaseGeneration
  leased : d'.state = .processing → d' = d ∨ d.leaseGeneration < d'.leaseGeneration

theorem Advances.refl (d : AttemptDeletion) : Advances d d := ⟨le_refl _, fun _ => Or.inl rfl⟩

theorem Advances.trans {d d' d'' : AttemptDeletion} (h : Advances d d') (h' : Advances d' d'') :
    Advances d d'' where
  grows := h.grows.trans h'.grows
  leased hs := by
    rcases h'.leased hs with rfl | hlt
    · exact h.leased hs
    · exact Or.inr (lt_of_le_of_lt h.grows hlt)

theorem advances_of_idle {d d' : AttemptDeletion} (hg : d.leaseGeneration ≤ d'.leaseGeneration)
    (hs : d'.state ≠ .processing) : Advances d d' := ⟨hg, fun h => absurd h hs⟩

def AdvancesAll (t t' : Table AttemptDeletion.attempt) : Prop :=
  ∀ k d, t.get k = some d → ∃ d', t'.get k = some d' ∧ Advances d d'

theorem AdvancesAll.refl (t : Table AttemptDeletion.attempt) : AdvancesAll t t :=
  fun _ d h => ⟨d, h, .refl d⟩

theorem AdvancesAll.trans {t'' : Table AttemptDeletion.attempt} (h : AdvancesAll t t')
    (h' : AdvancesAll t' t'') : AdvancesAll t t'' := by
  intro k d hd
  obtain ⟨d', hd', hadv⟩ := h k d hd
  obtain ⟨d'', hd'', hadv'⟩ := h' k d' hd'
  exact ⟨d'', hd'', hadv.trans hadv'⟩

theorem advancesAll_insert {d : AttemptDeletion} : AdvancesAll t (t.insert d) := by
  intro k x hx
  refine ⟨x, ?_, .refl x⟩
  have hk : x.attempt = k := Table.key_of_get hx
  exact hk ▸ Table.get_of_mem (Table.mem_insert_of_mem (Table.mem_of_get hx))

theorem advancesAll_modify (f : AttemptDeletion → AttemptDeletion)
    (hf : ∀ r, (f r).attempt = r.attempt)
    (h : ∀ d, t.get k = some d → Advances d (f d)) : AdvancesAll t (t.modify k f hf) := by
  intro j d hd
  by_cases hj : j = k
  · subst hj
    exact ⟨f d, Table.get_modify_self hd, h d hd⟩
  · exact ⟨d, (Table.get_modify_of_ne hj).trans hd, .refl d⟩

theorem advancesAll_idle (f : AttemptDeletion → AttemptDeletion)
    (hf : ∀ r, (f r).attempt = r.attempt) (hg : ∀ d, (f d).leaseGeneration = d.leaseGeneration)
    (hs : ∀ d, (f d).state ≠ .processing) : AdvancesAll t (t.modify k f hf) :=
  advancesAll_modify f hf (fun d _ => advances_of_idle (hg d).ge (hs d))

theorem reopening_advances {entry : TombstoneEntry} (h : Reopening entry t t') : AdvancesAll t t' := by
  cases h with
  | new _ => exact advancesAll_insert
  | @again d hget =>
    refine advancesAll_modify (Recovery.reopen entry d) (fun _ => rfl) (fun x hx => advances_of_idle ?_ (fun h => nomatch h))
    rw [hget] at hx
    cases hx
    exact Nat.le_succ _

theorem applying_advances {entry : TombstoneEntry} {actor : String}
    (h : Applying actor entry c c') : AdvancesAll c.deletions c'.deletions := by
  cases h with
  | stale => exact .refl _
  | applied _ hdel => exact reopening_advances hdel

theorem importing_advances {b : TombstoneBundle} {actor : String} (h : Importing actor b c c') :
    AdvancesAll c.deletions c'.deletions := by
  cases h with
  | replayed => exact .refl _
  | imported hc =>
    show AdvancesAll c.deletions _
    exact Txn.Chain.preserves (P := fun x => AdvancesAll c.deletions x.deletions) hc
      (fun _ _ _ _ hx hadv => hadv.trans (applying_advances hx)) (.refl _)

theorem lifecycle_advances (h : LifecycleEffect c w call c' w') :
    AdvancesAll c.deletions c'.deletions := by
  cases h with
  | same _ _ hd => exact hd ▸ .refl _
  | opened _ _ hd => exact hd ▸ .refl _
  | deleting h =>
    cases h with
    | blocked _ _ hdel =>
      cases hdel with
      | new _ => exact advancesAll_insert
      | completed => exact .refl _
      | blocked => exact advancesAll_idle IngestionService.block (fun _ => rfl) (fun _ => rfl) (fun _ h => nomatch h)
    | fenced _ _ hdel =>
      cases hdel with
      | new _ => exact advancesAll_insert
      | same => exact .refl _
      | again => exact advancesAll_idle (IngestionService.requeue _ _) (fun _ => rfl) (fun _ => rfl) (fun _ h => nomatch h)
  | placing h =>
    cases h with
    | again => exact .refl _
    | unrequested => exact .refl _
    | requested => exact advancesAll_idle IngestionService.block (fun _ => rfl) (fun _ => rfl) (fun _ h => nomatch h)
  | releasing h =>
    cases h with
    | already => exact .refl _
    | other => exact .refl _
    | last => exact advancesAll_idle (IngestionService.resume _) (fun _ => rfl) (fun _ => rfl) (fun _ h => nomatch h)
  | claiming h =>
    cases h with
    | nothing => exact .refl _
    | @leased d hd =>
      refine advancesAll_modify (AttemptDeletionWorker.lease d _ _) (fun _ => rfl) (fun x hx => ?_)
      obtain rfl : x = d := Table.eq_of_key (Table.mem_of_get hx) hd (Table.key_of_get hx)
      exact ⟨Nat.le_succ _, fun _ => Or.inr (Nat.lt_succ_self _)⟩
  | failing h =>
    cases h with
    | ignored => exact .refl _
    | failed =>
      refine advancesAll_idle (AttemptDeletionWorker.failed _ _) (fun _ => rfl) (fun _ => rfl) (fun x => ?_)
      dsimp only [AttemptDeletionWorker.failed]
      split <;> exact fun h => nomatch h
  | executing h =>
    cases h with
    | stale => exact .refl _
    | heldBack => exact advancesAll_idle AttemptDeletionWorker.holdBack (fun _ => rfl) (fun _ => rfl) (fun _ h => nomatch h)
    | erased => exact advancesAll_idle (AttemptDeletionWorker.completed _ _ _) (fun _ => rfl) (fun _ => rfl) (fun _ h => nomatch h)
  | importing h => exact importing_advances h

theorem advances_step (h : Step env settings s call e s') :
    AdvancesAll s.catalog.deletions s'.catalog.deletions := by
  obtain ⟨_, _, ⟨a, rfl, heff⟩ | ⟨_, hc, _⟩⟩ := step_cases h
  · exact lifecycle_advances (effect_lifecycle heff)
  · exact hc ▸ .refl _

theorem advances_of_run (h : Run env settings s s') :
    AdvancesAll s.catalog.deletions s'.catalog.deletions := by
  induction h with
  | start => exact .refl _
  | step _ hs _ ih => exact ih.trans (advances_step hs)

/-- The generation the request asks for is the one its attempt is fenced in. -/
def Marked (gens : Table AttemptGeneration.attempt) (d : AttemptDeletion) : Prop :=
  ∃ g, gens.get d.attempt = some g ∧ g.deletedAt ≠ none ∧ g.generation = d.deletionGeneration

/-- Every request that is not held is for the generation its attempt is fenced in. -/
def MarkedAll (t : Table AttemptDeletion.attempt) (gens : Table AttemptGeneration.attempt) : Prop :=
  ∀ d ∈ t, d.state ≠ .held → Marked gens d

/-- The fenced generations stay, but for one attempt. -/
def KeepsFenced (k : AttemptKey) (gens gens' : Table AttemptGeneration.attempt) : Prop :=
  ∀ g ∈ gens, g.deletedAt ≠ none → g.attempt ≠ k → g ∈ gens'

theorem markedAll_at (h : MarkedAll t gens) (hkeep : KeepsFenced k gens gens')
    (ht : ∀ d ∈ t', (d ∈ t ∧ d.attempt ≠ k) ∨ (d.state ≠ .held → Marked gens' d)) :
    MarkedAll t' gens' := by
  intro d hd hs
  rcases ht d hd with ⟨hd, hk⟩ | hm
  · obtain ⟨g, hget, hdel, hgen⟩ := h d hd hs
    have hkey : g.attempt = d.attempt := Table.key_of_get hget
    have hmem := hkeep g (Table.mem_of_get hget) hdel (hkey ▸ hk)
    exact ⟨g, hkey ▸ Table.get_of_mem hmem, hdel, hgen⟩
  · exact hm hs

theorem markedAll_mono (h : MarkedAll t gens) (hkeep : ∀ g ∈ gens, g.deletedAt ≠ none → g ∈ gens') :
    MarkedAll t gens' := by
  intro d hd hs
  obtain ⟨g, hget, hdel, hgen⟩ := h d hd hs
  have hmem := hkeep g (Table.mem_of_get hget) hdel
  have hkey : g.attempt = d.attempt := Table.key_of_get hget
  exact ⟨g, hkey ▸ Table.get_of_mem hmem, hdel, hgen⟩

theorem markedAll_insert {d : AttemptDeletion} (h : MarkedAll t gens) (hd : d.state ≠ .held → Marked gens d) :
    MarkedAll (t.insert d) gens := by
  intro x hx hs
  rcases Table.mem_of_mem_insert hx with hx | rfl
  · exact h x hx hs
  · exact hd hs

theorem markedAll_modify (f : AttemptDeletion → AttemptDeletion)
    (hf : ∀ r, (f r).attempt = r.attempt) (h : MarkedAll t gens)
    (hd : ∀ d ∈ t, d.attempt = k → (f d).state ≠ .held → Marked gens (f d)) :
    MarkedAll (t.modify k f hf) gens := by
  intro x hx hs
  rcases Table.mem_modify.mp hx with ⟨hx, _⟩ | ⟨d, hm, hk, rfl⟩
  · exact h x hx hs
  · exact hd d hm hk hs

theorem not_held_of_current {d : AttemptDeletion} (h : current l d = true) : d.state ≠ .held := by
  intro hs
  rw [current, hs] at h
  cases h

theorem Marked.keep {d d' : AttemptDeletion} (h : Marked gens d) (hk : d'.attempt = d.attempt)
    (hg : d'.deletionGeneration = d.deletionGeneration) : Marked gens d' := by
  obtain ⟨g, hget, hdel, hgen⟩ := h
  exact ⟨g, hk ▸ hget, hdel, hgen.trans hg.symm⟩

theorem opened_keeps {n : Nat} (h : Opened k gens n gens') : ∀ g ∈ gens, g ∈ gens' := by
  cases h with
  | first => exact fun g hg => Table.mem_insert_of_mem hg
  | live => exact fun g hg => hg

theorem unfenced_keeps (h : Unfenced k gens gens') : ∀ g ∈ gens, g ∈ gens' := by
  cases h with
  | new => exact fun g hg => Table.mem_insert_of_mem hg
  | same => exact fun g hg => hg

/-- Fencing keeps what is fenced, and fences the attempt in the generation it returns. -/
theorem fencing_marks {now : Instant} {n : Nat × Instant} (h : Fencing k now gens n gens') :
    (∀ g ∈ gens, g.deletedAt ≠ none → g ∈ gens') ∧
      ∃ g, gens'.get k = some g ∧ g.deletedAt ≠ none ∧ g.generation = n.1 := by
  cases h with
  | first hnone =>
    refine ⟨fun g hg _ => Table.mem_insert_of_mem hg, _,
      (Table.get_insert hnone).trans (if_pos rfl), ?_, rfl⟩
    exact fun h => nomatch h
  | @live r hget hd =>
    refine ⟨fun g hg hdel => ?_, _, Table.get_modify_self hget, (fun h => nomatch h), rfl⟩
    refine Table.mem_modify.mpr (Or.inl ⟨hg, fun hk => hdel ?_⟩)
    obtain rfl : g = r :=
      Table.eq_of_key hg (Table.mem_of_get hget) (hk.trans (Table.key_of_get hget).symm)
    exact hd
  | @already r d hget hd =>
    refine ⟨fun g hg _ => hg, r, hget, ?_, rfl⟩
    rw [hd]
    exact fun h => nomatch h

theorem marked_at {d : AttemptDeletion} {n : Nat} (hk : d.attempt = k)
    (h : ∃ g, gens.get k = some g ∧ g.deletedAt ≠ none ∧ g.generation = n)
    (hd : d.deletionGeneration = n) : Marked gens d := by
  obtain ⟨g, hget, hdel, hgen⟩ := h
  exact ⟨g, hk ▸ hget, hdel, hgen.trans hd.symm⟩

theorem entombing_marks {entry : TombstoneEntry} (h : Entombing entry gens gens') :
    KeepsFenced entry.attempt gens gens' ∧ ∃ g, gens'.get entry.attempt = some g ∧
      g.deletedAt ≠ none ∧ g.generation = entry.deletionGeneration := by
  cases h with
  | first hnone =>
    refine ⟨fun g hg _ _ => Table.mem_insert_of_mem hg, _,
      (Table.get_insert hnone).trans (if_pos rfl), ?_, rfl⟩
    exact fun h => nomatch h
  | known hget _ =>
    refine ⟨fun g hg _ hk => Table.mem_modify.mpr (Or.inl ⟨hg, hk⟩), _,
      Table.get_modify_self hget, (fun h => nomatch h), rfl⟩

theorem applying_marked {entry : TombstoneEntry} {actor : String} (h : Applying actor entry c c')
    (hc : MarkedAll c.deletions c.generations) : MarkedAll c'.deletions c'.generations := by
  cases h with
  | stale => exact hc
  | applied hgens hdel =>
    obtain ⟨hkeep, hmark⟩ := entombing_marks hgens
    refine markedAll_at hc hkeep (fun d hd => ?_)
    cases hdel with
    | new hnew =>
      rcases (Table.mem_insert hnew).mp hd with hd | rfl
      · exact Or.inl ⟨hd, Table.get_eq_none.mp hnew d hd⟩
      · exact Or.inr (fun _ => marked_at rfl hmark rfl)
    | @again d₀ _ =>
      have hmod : d ∈ c.deletions.modify entry.attempt (Recovery.reopen entry d₀) (fun _ => rfl) ↔
          _ := Table.mem_modify
      rcases hmod.mp hd with hd | ⟨d₁, hm, hk, rfl⟩
      · exact Or.inl hd
      · exact Or.inr (fun _ => marked_at hk hmark rfl)

theorem lifecycle_marked (h : LifecycleEffect c w call c' w')
    (hc : MarkedAll c.deletions c.generations) : MarkedAll c'.deletions c'.generations := by
  cases h with
  | same hg _ hd => exact hg ▸ hd ▸ hc
  | opened h _ hd => exact hd ▸ markedAll_mono hc (fun g hg _ => opened_keeps h g hg)
  | deleting h =>
    cases h with
    | blocked _ hgens hdel =>
      have hc' := markedAll_mono hc (fun g hg _ => unfenced_keeps hgens g hg)
      cases hdel with
      | new => exact markedAll_insert hc' (fun hs => absurd rfl hs)
      | completed => exact hc'
      | blocked => exact markedAll_modify IngestionService.block (fun _ => rfl) hc' (fun _ _ _ hs => absurd rfl hs)
    | fenced _ hgens hdel =>
      obtain ⟨hkeep, hmark⟩ := fencing_marks hgens
      have hc' := markedAll_mono hc hkeep
      cases hdel with
      | new => exact markedAll_insert hc' (fun _ => marked_at rfl hmark rfl)
      | same => exact hc'
      | again => exact markedAll_modify (IngestionService.requeue _ _) (fun _ => rfl) hc' (fun _ _ hk _ => marked_at hk hmark rfl)
  | placing h =>
    cases h with
    | again => exact hc
    | unrequested => exact hc
    | requested => exact markedAll_modify IngestionService.block (fun _ => rfl) hc (fun _ _ _ hs => absurd rfl hs)
  | releasing h =>
    cases h with
    | already => exact hc
    | other => exact hc
    | last _ _ _ _ _ _ hgens =>
      obtain ⟨hkeep, hmark⟩ := fencing_marks hgens
      exact markedAll_modify (IngestionService.resume _) (fun _ => rfl) (markedAll_mono hc hkeep)
        (fun _ _ hk _ => marked_at hk hmark rfl)
  | claiming h =>
    cases h with
    | nothing => exact hc
    | @leased d hd hs =>
      refine markedAll_modify (AttemptDeletionWorker.lease _ _ _) (fun _ => rfl) hc (fun x hx hk _ => ?_)
      obtain rfl := Table.eq_of_key hx hd hk
      refine (hc x hx (fun h => ?_)).keep rfl rfl
      simp [AttemptDeletionWorker.claimable, h] at hs
  | failing h =>
    cases h with
    | ignored => exact hc
    | failed hget hcur =>
      refine markedAll_modify (AttemptDeletionWorker.failed _ _) (fun _ => rfl) hc (fun x hx hk _ => ?_)
      obtain rfl := Table.eq_of_key hx (Table.mem_of_get hget) (hk.trans (Table.key_of_get hget).symm)
      exact (hc x hx (not_held_of_current hcur)).keep rfl rfl
  | executing h =>
    cases h with
    | stale => exact hc
    | heldBack => exact markedAll_modify AttemptDeletionWorker.holdBack (fun _ => rfl) hc (fun _ _ _ hs => absurd rfl hs)
    | @erased d _ _ _ c₁ _ hget hcur _ _ _ _ hrows =>
      show MarkedAll _ c₁.generations
      have hg : c₁.generations = c.generations := by rw [hrows.others]
      rw [hg]
      refine markedAll_modify (AttemptDeletionWorker.completed _ _ _) (fun _ => rfl) hc (fun x hx hk _ => ?_)
      obtain rfl := Table.eq_of_key hx (Table.mem_of_get hget) (hk.trans (Table.key_of_get hget).symm)
      exact (hc x hx (not_held_of_current hcur)).keep rfl rfl
  | importing h =>
    cases h with
    | replayed => exact hc
    | imported h =>
      exact Txn.Chain.preserves (P := fun c => MarkedAll c.deletions c.generations) h
        (fun _ _ _ _ hx hc => applying_marked hx hc) hc

theorem marked_of_reachable (h : Reachable env settings s) :
    MarkedAll s.catalog.deletions s.catalog.generations := by
  induction h with
  | start => exact fun d hd => absurd hd (Table.not_mem_empty d)
  | step _ hs _ ih =>
    obtain ⟨_, _, ⟨a, rfl, heff⟩ | ⟨_, hc, _⟩⟩ := step_cases hs
    · exact lifecycle_marked (effect_lifecycle heff) ih
    · exact hc ▸ ih

/-- The request of the lease's attempt has moved on. -/
def Superseded (l : DeletionLease) (c : Catalog) : Prop :=
  ∃ d, c.deletions.get l.attempt = some d ∧ l.leaseGeneration ≤ d.leaseGeneration ∧
    (d.state = .processing → l.leaseGeneration < d.leaseGeneration)

def Issued (l : DeletionLease) (c : Catalog) : Prop :=
  ∃ d, c.deletions.get l.attempt = some d ∧ l.leaseGeneration ≤ d.leaseGeneration

/-- The lease is the current one of its attempt. -/
def Holding (l : DeletionLease) (c : Catalog) : Prop :=
  ∃ d, c.deletions.get l.attempt = some d ∧ current l d = true

theorem issued_advances (h : AdvancesAll c.deletions c'.deletions) (hl : Issued l c) : Issued l c' := by
  obtain ⟨d, hget, hg⟩ := hl
  obtain ⟨d', hget', hadv⟩ := h _ d hget
  exact ⟨d', hget', hg.trans hadv.grows⟩

theorem superseded_advances (h : AdvancesAll c.deletions c'.deletions) (hl : Superseded l c) :
    Superseded l c' := by
  obtain ⟨d, hget, hg, hp⟩ := hl
  obtain ⟨d', hget', hadv⟩ := h _ d hget
  refine ⟨d', hget', hg.trans hadv.grows, fun hs => ?_⟩
  rcases hadv.leased hs with rfl | hlt
  · exact hp hs
  · exact lt_of_le_of_lt hg hlt

theorem not_holding_of_superseded (h : Superseded l c) : ¬Holding l c := by
  intro ⟨d', hget', hcur⟩
  obtain ⟨d, hget, _, hp⟩ := h
  rw [hget] at hget'
  cases hget'
  simp only [current, Bool.and_eq_true, decide_eq_true_eq] at hcur
  have hlt := hp hcur.1.1.1
  omega

theorem holding_unique (h : Holding l c) (h' : Holding l' c) (hk : l.attempt = l'.attempt) :
    l = l' := by
  obtain ⟨d, hget, hcur⟩ := h
  obtain ⟨d', hget', hcur'⟩ := h'
  rw [hk, hget'] at hget
  cases hget
  simp only [current, Bool.and_eq_true, decide_eq_true_eq] at hcur hcur'
  obtain ⟨⟨⟨_, ho⟩, hl⟩, hg⟩ := hcur
  obtain ⟨⟨⟨_, ho'⟩, hl'⟩, hg'⟩ := hcur'
  rw [ho, Option.some.injEq] at ho'
  cases l
  cases l'
  simp only [DeletionLease.attempt, AttemptKey.mk.injEq] at hk
  simp only at ho' hl hl' hg hg'
  rw [DeletionLease.mk.injEq]
  exact ⟨hk.1, hk.2.1, hk.2.2, hg.symm.trans hg', hl.symm.trans hl', ho'⟩

theorem claim_holds {owner : String} {leaseSeconds : Nat} {now : Instant} {skip : List AttemptKey}
    (h : Step env settings s (.deletionClaim owner leaseSeconds now skip)
      (.committed (.deletionLease (some l))) s') :
    Holding l s'.catalog ∧ ∃ d, s.catalog.deletions.get l.attempt = some d ∧
      d.leaseGeneration < l.leaseGeneration := by
  obtain ⟨_, _, ⟨a, he, heff⟩ | ⟨hne, _⟩⟩ := step_cases h
  · cases he
    generalize s'.catalog = c', s'.objects = w' at heff
    cases heff with
    | quiet hq => cases hq
    | deletionClaim hc =>
      cases hc with
      | @leased d hd hs =>
        have hget := Table.get_of_mem hd
        refine ⟨⟨_, Table.get_modify_self hget, ?_⟩, d, hget, Nat.lt_succ_self _⟩
        simp [current, newLease, AttemptDeletionWorker.lease]
  · exact absurd rfl (hne _)

theorem issued_of_holding (h : Holding l c) : Issued l c := by
  obtain ⟨d, hget, hcur⟩ := h
  simp only [current, Bool.and_eq_true, decide_eq_true_eq] at hcur
  exact ⟨d, hget, hcur.1.2.ge⟩

/-- The calls a worker makes with a lease. -/
inductive Employs (l : DeletionLease) : Call → Prop where
  | execute {faults : Faults} {now : Instant} : Employs l (.deletionExecute l faults now)
  | fail {message : String} : Employs l (.deletionFail l message)

theorem idle_of_not_holding (h : Step env settings s call e s') (hu : Employs l call)
    (hl : ¬Holding l s.catalog) : s'.catalog = s.catalog ∧ s'.objects = s.objects := by
  obtain ⟨_, htouch, hend⟩ := step_cases h
  have hobjects : s'.objects = s.objects := by
    cases hu with
    | execute =>
      refine funext (fun key => (htouch key).elim id (fun hd => absurd ?_ hl))
      exact hd.1.1.current
    | fail => exact htouch
  refine ⟨?_, hobjects⟩
  rcases hend with ⟨a, rfl, heff⟩ | ⟨_, hc, _⟩
  · generalize s'.catalog = c', s'.objects = w' at heff
    cases hu with
    | execute =>
      cases heff with
      | quiet hq => cases hq
      | deletionExecute hx =>
        cases hx with
        | stale => rfl
        | heldBack hget hcur => exact absurd ⟨_, hget, hcur⟩ hl
        | erased hget hcur => exact absurd ⟨_, hget, hcur⟩ hl
    | fail =>
      cases heff with
      | quiet hq => cases hq
      | deletionFail hx =>
        cases hx with
        | ignored => rfl
        | failed hget hcur => exact absurd ⟨_, hget, hcur⟩ hl
  · exact hc

/-- The bundle has an entry for the attempt that is not yet imported and not older
than the generation of the attempt. -/
structure Applies (b : TombstoneBundle) (k : AttemptKey) (c : Catalog) : Prop where
  new : c.imports.get b.sha256 = none
  entry : ∃ x ∈ b.entries, x.attempt = k ∧
    ∀ g, c.generations.get k = some g → g.generation ≤ x.deletionGeneration

theorem entombing_other {entry : TombstoneEntry} (h : Entombing entry gens gens')
    (hk : entry.attempt ≠ k) : gens'.get k = gens.get k := by
  cases h with
  | first hnone => exact (Table.get_insert hnone).trans (if_neg hk)
  | known => exact Table.get_modify_of_ne hk.symm

theorem applying_supersedes {entry : TombstoneEntry} {actor : String}
    (h : Applying actor entry c c') (hk : entry.attempt = l.attempt)
    (hg : ∀ g, c.generations.get l.attempt = some g → g.generation ≤ entry.deletionGeneration)
    (hl : Issued l c) : Superseded l c' := by
  obtain ⟨d, hget, hle⟩ := hl
  have hget' : c.deletions.get entry.attempt = some d := hk.symm ▸ hget
  cases h with
  | stale hgen hlt =>
    rw [hk] at hgen
    exact absurd (hg _ hgen) (by omega)
  | applied _ hdel =>
    cases hdel with
    | new hnone =>
      rw [hget'] at hnone
      cases hnone
    | again hagain =>
      rw [hget'] at hagain
      cases hagain
      refine ⟨Recovery.reopen entry d d, ?_, hle.trans (Nat.le_succ _), fun hs => nomatch hs⟩
      show (c.deletions.modify entry.attempt (Recovery.reopen entry d) (fun _ => rfl)).get _ = _
      rw [← hk]
      exact Table.get_modify_self hget'

theorem chain_supersedes {actor : String} {entries : List TombstoneEntry} {x : TombstoneEntry}
    (h : Txn.Chain (Applying actor) entries c c') (hx : x ∈ entries)
    (hunique : (entries.map TombstoneEntry.attempt).Nodup) (hk : x.attempt = l.attempt)
    (hg : ∀ g, c.generations.get l.attempt = some g → g.generation ≤ x.deletionGeneration)
    (hl : Issued l c) : Superseded l c' := by
  induction h with
  | nil => cases hx
  | @cons y ys c c₁ c₂ hy hys ih =>
    rw [List.map_cons, List.nodup_cons] at hunique
    rcases List.mem_cons.mp hx with rfl | hx
    · refine superseded_advances ?_ (applying_supersedes hy hk hg hl)
      exact Txn.Chain.preserves (P := fun z => AdvancesAll c₁.deletions z.deletions) hys
        (fun _ _ _ _ hz hadv => hadv.trans (applying_advances hz)) (.refl _)
    · refine ih hx hunique.2 (fun g hget => hg g ?_) (issued_advances (applying_advances hy) hl)
      have hne : y.attempt ≠ l.attempt := fun he =>
        hunique.1 (List.mem_map.mpr ⟨x, hx, hk.trans he.symm⟩)
      cases hy with
      | stale => exact hget
      | applied hgens => exact (entombing_other hgens hne) ▸ hget

/-- The commits that take the request of the attempt out of the hands of its workers. -/
inductive Supersedes (k : AttemptKey) (c : Catalog) : Call → Reply → Prop where
  | placed {holdId : Uuid} {reason credentialId : String} {now : Instant} {a : Reply} :
      Supersedes k c (.placeAttemptHold k holdId reason credentialId now) a
  | released {holdId : Uuid} {credentialId : String}
      {expected : Option (String × Option String × Option String)} {releasedAt now : Instant}
      {h : AttemptHold} (hget : c.holds.get holdId = some h) (hk : h.attempt = k) :
      Supersedes k c (.releaseAttemptHold holdId credentialId expected releasedAt now)
        (.released true)
  | imported {b : TombstoneBundle} {actor : String} {now : Instant} {a : Reply}
      (h : Applies b k c) : Supersedes k c (.applyCompletedTombstones b actor now) a

theorem placing_active {holdId : Uuid} {reason credentialId : String} {now : Instant}
    (h : Placing k holdId reason credentialId now c c') : Held k c'.holds := by
  cases h with
  | again hget hk hs => exact hk ▸ held_of_active (Table.mem_of_get hget) hs
  | unrequested hnew =>
    exact (held_insert (h := IngestionService.newHold k holdId (strip reason) credentialId now)
      hnew).2 rfl
  | requested hnew =>
    exact (held_insert (h := IngestionService.newHold k holdId (strip reason) credentialId now)
      hnew).2 rfl

theorem superseded_of_held (h : HeldExactly c.deletions c.holds) (hl : Issued l c)
    (hk : Held l.attempt c.holds) : Superseded l c := by
  obtain ⟨d, hget, hle⟩ := hl
  have hkey : d.attempt = l.attempt := Table.key_of_get hget
  have hs := (h d (Table.mem_of_get hget)).mpr (hkey.symm ▸ hk)
  refine ⟨d, hget, hle, fun he => ?_⟩
  rw [hs] at he
  cases he

theorem superseded_of_step (hr : Reachable env settings s)
    (h : Step env settings s call (.committed a) s') (hc : Supersedes l.attempt s.catalog call a)
    (hl : Issued l s.catalog) : Superseded l s'.catalog := by
  have hadv := advances_step h
  have hheld := held_of_reachable (hr.step h trivial)
  obtain ⟨_, _, ⟨_, he, heff⟩ | ⟨hne, _⟩⟩ := step_cases h
  · cases he
    have hl' := issued_advances hadv hl
    generalize s'.catalog = c', s'.objects = w' at heff hadv hheld hl'
    cases hc with
    | placed =>
      cases heff with
      | quiet hq => cases hq
      | placeAttemptHold hp => exact superseded_of_held hheld hl' (placing_active hp)
    | @released _ _ _ _ _ x hget hk =>
      cases heff with
      | quiet hq => cases hq
      | releaseAttemptHold hx =>
        refine superseded_advances hadv (superseded_of_held (held_of_reachable hr) hl ?_)
        cases hx with
        | other hget' hs =>
          rw [hget] at hget'
          cases hget'
          exact hk ▸ held_of_active (Table.mem_of_get hget) hs
        | last hget' hs =>
          rw [hget] at hget'
          cases hget'
          exact hk ▸ held_of_active (Table.mem_of_get hget) hs
    | @imported b actor _ _ happlies =>
      cases heff with
      | quiet hq => cases hq
      | applyCompletedTombstones hi =>
        cases hi with
        | replayed hget =>
          rw [happlies.new] at hget
          cases hget
        | imported hchain =>
          obtain ⟨x, hx, hk, hg⟩ := happlies.entry
          have hsuper := chain_supersedes hchain hx b.unique hk hg hl
          exact hsuper
  · exact absurd rfl (hne _)

theorem raised_of_wp {E : Failure → Prop} {f : Failure}
    (h : Step env settings s call (.raised f) s')
    (hE : ∀ t, program env settings s.memory call = some t →
      t.wp (fun _ => True) E (fun _ _ _ => True) s.catalog s.objects) : E f := by
  cases h with
  | run h =>
    unfold State.run at h
    cases ht : program env settings s.memory call with
    | none =>
      rw [ht] at h
      cases h
    | some t =>
      rw [ht] at h
      simp only [Txn.atomically] at h
      cases hr : t.run s.catalog s.objects with
      | mk r w' =>
        rw [hr] at h
        cases r with
        | ok r => cases h
        | error f =>
          cases h
          exact Txn.run_error_of_wp (hE t ht) hr

theorem never_obsolete (hr : Reachable env settings s) {faults : Faults} {now : Instant}
    {f : Failure} (h : Step env settings s (.deletionExecute l faults now) (.raised f) s') :
    f ≠ AttemptDeletionWorker.obsolete := by
  refine raised_of_wp (E := fun f => f ≠ AttemptDeletionWorker.obsolete) h (fun t ht => ?_)
  obtain rfl := Option.some.inj ht
  rw [Txn.wp_map]
  refine Txn.wp_mono (fun _ _ => trivial) (fun _ h => h) (fun _ _ _ _ => trivial)
    (AttemptDeletionWorker.execute_spec (fun _ => by simp [AttemptDeletionWorker.obsolete])
      (fun h => nomatch h) ?_)
  intro ⟨d, hget, hcur⟩ hgen _
  obtain ⟨g, hg, hdel, heq⟩ :=
    marked_of_reachable hr d (Table.mem_of_get hget) (not_held_of_current hcur)
  rw [Table.key_of_get hget] at hg
  simp only [current, Bool.and_eq_true, decide_eq_true_eq] at hcur
  rw [generationCurrent, hg, Option.any_some, heq, hcur.2] at hgen
  simp [hdel] at hgen

/-- The leases on the deletion requests are safe. -/
structure LeaseSafety (env : Env) (settings : IngestionSettings) (s : State) : Prop where
  grows : ∀ s' k d, Run env settings s s' → s.catalog.deletions.get k = some d →
    ∃ d', s'.catalog.deletions.get k = some d' ∧ d.leaseGeneration ≤ d'.leaseGeneration
  claimed : ∀ owner leaseSeconds now skip l s', Step env settings s
      (.deletionClaim owner leaseSeconds now skip) (.committed (.deletionLease (some l))) s' →
    Holding l s'.catalog ∧ ∃ d, s.catalog.deletions.get l.attempt = some d ∧
      d.leaseGeneration < l.leaseGeneration
  unique : ∀ l l', Holding l s.catalog → Holding l' s.catalog → l.attempt = l'.attempt → l = l'
  exclusive : ∀ l call e s', Employs l call → Step env settings s call e s' → ¬Holding l s.catalog →
    s'.catalog = s.catalog ∧ s'.objects = s.objects
  superseded : ∀ owner leaseSeconds now skip l s₁ s₂ call a s₃ s₄ call' e s₅,
    Step env settings s (.deletionClaim owner leaseSeconds now skip)
      (.committed (.deletionLease (some l))) s₁ →
    Run env settings s₁ s₂ → Step env settings s₂ call (.committed a) s₃ →
    Supersedes l.attempt s₂.catalog call a → Run env settings s₃ s₄ → Employs l call' →
    Step env settings s₄ call' e s₅ → s₅.catalog = s₄.catalog ∧ s₅.objects = s₄.objects
  marked : ∀ k d, s.catalog.deletions.get k = some d → d.state ≠ .held → Marked s.catalog.generations d
  obsolete : ∀ l faults now f s', Step env settings s (.deletionExecute l faults now) (.raised f) s' →
    f ≠ AttemptDeletionWorker.obsolete

theorem lease_safety (h : Reachable env settings s) : LeaseSafety env settings s where
  grows s' k d hrun hget := by
    obtain ⟨d', hget', hadv⟩ := advances_of_run hrun k d hget
    exact ⟨d', hget', hadv.grows⟩
  claimed _ _ _ _ _ _ hs := claim_holds hs
  unique _ _ := holding_unique
  exclusive _ _ _ _ hu hs hl := idle_of_not_holding hs hu hl
  superseded owner leaseSeconds now skip l s₁ s₂ call a s₃ s₄ call' e s₅ hclaim hrun hs hsup hrun'
      hu hs' := by
    have hr₂ := hrun.after env settings (h.step hclaim trivial)
    have hissued := issued_advances (advances_of_run hrun) (issued_of_holding (claim_holds hclaim).1)
    have hsuper := superseded_advances (advances_of_run hrun') (superseded_of_step hr₂ hs hsup hissued)
    exact idle_of_not_holding hs' hu (not_holding_of_superseded hsuper)
  marked k d hget hs := marked_of_reachable h d (Table.mem_of_get hget) hs
  obsolete _ _ _ _ _ hs := never_obsolete h hs

end Deployment

namespace Sample

/-- The first attempt, deleted in the given generation. -/
def entry (generation : Nat) (h : 1 ≤ generation ∧ generation ≤ 2 ^ 63 - 1) : TombstoneEntry :=
  ⟨attempt₁, generation, 1, 2, by decide, h, by decide⟩

def bundle (sha256 : String) (e : TombstoneEntry) : TombstoneBundle :=
  ⟨sha256, 3, [e], by simp, List.nodup_singleton _⟩

/-- A later deletion of the attempt is imported before an earlier one. -/
def later : TombstoneBundle := bundle "later" (entry 2 (by decide))

def earlier : TombstoneBundle := bundle "earlier" (entry 1 (by decide))

def deletionLease : DeletionLease := ⟨"acme", "c1", "a1", 2, 1, "worker"⟩

end Sample

namespace Deployment

/-- An import whose entry is stale leaves the lease of a worker current, and the worker
completes the erasure. -/
theorem stale_import_keeps_lease : ∃ s₀ s₁ s₂ s₃, Reachable Sample.env Sample.settings s₀ ∧
    Step Sample.env Sample.settings s₀ (.deletionClaim "worker" 60 5 [])
      (.committed (.deletionLease (some Sample.deletionLease))) s₁ ∧
    (∃ x ∈ Sample.earlier.entries, x.attempt = Sample.deletionLease.attempt) ∧
    Step Sample.env Sample.settings s₁ (.applyCompletedTombstones Sample.earlier "ops" 6)
      (.committed (.imported ⟨"earlier", 1, 0, 1, false⟩)) s₂ ∧
    Step Sample.env Sample.settings s₂ (.deletionExecute Sample.deletionLease Faults.none 7)
      (.committed (.erased true)) s₃ ∧
    s₃.catalog ≠ s₂.catalog := by
  have h₀ : (runCalls Sample.env Sample.settings [.applyCompletedTombstones Sample.later "ops" 4]
      .initial).bind (fun s₀ =>
        (answer Sample.env Sample.settings s₀ (.deletionClaim "worker" 60 5 [])).bind (fun r₁ =>
          (answer Sample.env Sample.settings r₁.2
            (.applyCompletedTombstones Sample.earlier "ops" 6)).bind (fun r₂ =>
            (answer Sample.env Sample.settings r₂.2
              (.deletionExecute Sample.deletionLease Faults.none 7)).map (fun r₃ =>
              (r₁.1, r₂.1, r₃.1, (r₂.2.catalog.deletions.get Sample.attempt₁).map
                AttemptDeletion.state,
                (r₃.2.catalog.deletions.get Sample.attempt₁).map AttemptDeletion.state))))) =
      some (.deletionLease (some Sample.deletionLease), .imported ⟨"earlier", 1, 0, 1, false⟩,
        .erased true, some .processing, some .completed) := by decide +kernel
  obtain ⟨s₀, hs₀, h₀⟩ := Option.bind_eq_some_iff.mp h₀
  obtain ⟨⟨a₁, s₁⟩, hs₁, h₀⟩ := Option.bind_eq_some_iff.mp h₀
  obtain ⟨⟨a₂, s₂⟩, hs₂, h₀⟩ := Option.bind_eq_some_iff.mp h₀
  obtain ⟨⟨a₃, s₃⟩, hs₃, h₀⟩ := Option.map_eq_some_iff.mp h₀
  simp only [Prod.mk.injEq] at h₀
  obtain ⟨rfl, rfl, rfl, hbefore, hafter⟩ := h₀
  refine ⟨s₀, s₁, s₂, s₃, run_of_runCalls _ _ .start hs₀, step_of_answer _ _ hs₁,
    ⟨_, List.mem_singleton_self _, rfl⟩, step_of_answer _ _ hs₂, step_of_answer _ _ hs₃, ?_⟩
  intro he
  rw [he, hbefore] at hafter
  cases hafter

/-- A worker has the lease on a request. -/
theorem lease_safety_sample : ∃ s d, runCalls Sample.env Sample.settings
    (Sample.admission ++ [.deleteAttempt Sample.attempt₁ 5, .deletionClaim "worker" 60 6 []])
      .initial = some s ∧
    s.catalog.deletions.get Sample.attempt₁ = some d ∧ d.leaseOwner = some "worker" ∧
    LeaseSafety Sample.env Sample.settings s := by
  have h : ((runCalls Sample.env Sample.settings
      (Sample.admission ++ [.deleteAttempt Sample.attempt₁ 5, .deletionClaim "worker" 60 6 []])
        .initial).bind (fun s => (s.catalog.deletions.get Sample.attempt₁).map
          AttemptDeletion.leaseOwner)) = some (some "worker") := by decide +kernel
  obtain ⟨s, hs, h⟩ := Option.bind_eq_some_iff.mp h
  obtain ⟨d, hd, howner⟩ := Option.map_eq_some_iff.mp h
  exact ⟨s, d, hs, hd, howner, lease_safety (run_of_runCalls _ _ .start hs)⟩

end Deployment

end RankLens
