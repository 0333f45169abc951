import RankLens.Leases

namespace RankLens

namespace Txn

variable {σ ω L ε α : Type} {A A' : ω → Prop} {E E' : ε → Prop} {Q Q' : α → σ → ω → Prop}

theorem wp_and {t : Txn σ ω L ε α} {s : σ} {w : ω} (h : t.wp A E Q s w) (h' : t.wp A' E' Q' s w) :
    t.wp (fun w => A w ∧ A' w) (fun e => E e ∧ E' e) (fun a s w => Q a s w ∧ Q' a s w) s w := by
  induction t generalizing s w with
  | done a => exact ⟨h, h'⟩
  | fail e => exact ⟨h, h'⟩
  | acquire l t ih => exact ih h h'
  | query k ih => exact ih s h h'
  | change f t ih => exact ih h h'
  | effect f k ih => exact ⟨⟨h.1, h'.1⟩, ih w h.2 h'.2⟩

theorem run_returns {t : Txn σ ω L ε α} {s : σ} {w : ω} (h : t.wp A (fun _ => False) Q s w) :
    ∃ a s' w', t.run s w = (.ok (a, s'), w') ∧ Q a s' w' := by
  cases hr : t.run s w with
  | mk r w' =>
    cases r with
    | ok x => exact ⟨x.1, x.2, w', rfl, run_of_wp h hr⟩
    | error e => exact (run_error_of_wp h hr).elim

end Txn

namespace Recovery

open Deployment (AdvancesAll Issued Superseded Holding)

variable {c c' c₁ c₂ : Catalog} {w : ObjectStore} {actor : String} {e : TombstoneEntry}
  {es es' : List TombstoneEntry} {k : AttemptKey} {b : TombstoneBundle} {now : Instant}

section returns

variable {A : ObjectStore → Prop}

/-- The entry is not below a live generation. -/
def Admits (e : TombstoneEntry) (c : Catalog) : Prop :=
  ∀ g, c.generations.get e.attempt = some g → g.deletedAt = none →
    g.generation ≤ e.deletionGeneration

theorem requestDeletion_returns : (requestDeletion e).wp (fun _ => True) (fun _ => False)
    (fun _ _ _ => True) c w := by
  simp only [requestDeletion, Txn.wp_bind, Ref.wp_get, Tables.deletions_view]
  split
  · next h =>
    simp only [Ref.wp_insert, implies_true, and_true]
    intro htaken
    have hfree : Tables.deletions.taken (newDeletion e) c = false :=
      Ref.taken_eq_false.mpr ⟨h, fun x _ => by simp [Ref.clashes, Tables.deletions_unique]⟩
    rw [htaken] at hfree
    cases hfree
  · next d h =>
    simp only [Ref.wp_update, implies_true, and_true, Tables.deletions_view]
    intro hnone
    rw [h] at hnone
    cases hnone

theorem releaseHolds_returns : (releaseHolds actor e).wp (fun _ => True) (fun _ => False)
    (fun _ _ _ => True) c w := by
  simp only [releaseHolds, Txn.wp_bind, Ref.wp_select, Tables.holds_view]
  have hnodup : ((c.holds.select (activeHold e.attempt)).map AttemptHold.holdId).Nodup :=
    c.holds.nodup.sublist (List.filter_sublist.map _)
  refine Txn.wp_post (Ref.wp_forEach_rows (T := Tables.holds)
    (R := fun h c c' => ∀ x ∈ c.holds, x.holdId ≠ h.holdId → x ∈ c'.holds) hnodup
    (fun h hh => (Table.mem_select.mp hh).1) (fun _ _ _ hR => hR) ?_) (fun _ _ _ _ => trivial)
  intro h _ c hmem
  simp only [Ref.wp_update, Tables.holds_view, Tables.holds_put, and_true]
  refine ⟨fun hnone => ?_, fun _ _ x hx hk => Table.mem_modify.mpr (Or.inl ⟨hx, hk⟩)⟩
  exact Table.get_eq_none.mp hnone h hmem rfl

theorem applyEntry_returns (h : Admits e c) : (applyEntry actor e).wp (fun _ => True)
    (fun _ => False) (fun _ c' _ => Applying actor e c c') c w := by
  have hend : ∀ c, (do
      requestDeletion e
      releaseHolds actor e
      pure true : Tx Bool).wp (fun _ => True) (fun _ => False) (fun _ _ _ => True) c w := by
    intro c
    rw [Txn.wp_bind]
    refine Txn.wp_post requestDeletion_returns (fun _ _ _ _ => ?_)
    rw [Txn.wp_bind]
    exact Txn.wp_post releaseHolds_returns (fun _ _ _ _ => trivial)
  have htotal : (applyEntry actor e).wp (fun _ => True) (fun _ => False) (fun _ _ _ => True) c w := by
    simp only [applyEntry, Txn.wp_bind, Txn.wp_lock, Ref.wp_get, Tables.generations_view]
    split
    · next hnone =>
      rw [Txn.wp_bind, Ref.wp_insert]
      refine ⟨fun htaken => ?_, fun _ => hend _⟩
      have hfree : Tables.generations.taken ⟨e.attempt.tenantId, e.attempt.clusterId,
          e.attempt.attemptId, e.deletionGeneration, some e.completedAt⟩ c = false :=
        Ref.taken_eq_false.mpr ⟨hnone, fun x _ => by
          simp [Ref.clashes, Tables.generations_unique]⟩
      rw [htaken] at hfree
      cases hfree
    · next g hg =>
      simp only [Txn.wp_ite, Txn.wp_bind, Txn.wp_raiseIf, Txn.wp_pure, Ref.wp_update,
        Tables.generations_view, and_true, implies_true]
      refine ⟨fun hlt hlive => ?_, fun _ => ⟨fun hnone => ?_, fun _ _ => ?_⟩⟩
      · have hle := h g hg hlive
        omega
      · rw [hg] at hnone
        cases hnone
      · simpa using hend _
  refine Txn.wp_mono (fun _ _ => trivial) (fun _ h => h.1) (fun _ _ _ h => h.2.1)
    (Txn.wp_and htotal (applyEntry_spec (A := fun _ => True)))

theorem Applying.admits {e' : TombstoneEntry} (h : Applying actor e c c₁) (ha : Admits e' c) :
    Admits e' c₁ := by
  cases h with
  | stale => exact ha
  | applied hgens =>
    intro g hg hlive
    by_cases hk : e.attempt = e'.attempt
    · rw [← hk] at hg
      cases hgens with
      | first hnone =>
        obtain rfl := Option.some.inj
          (((Table.get_insert hnone).trans (if_pos rfl)).symm.trans hg)
        cases hlive
      | known hget =>
        obtain rfl := Option.some.inj ((Table.get_modify_self hget).symm.trans hg)
        cases hlive
    · exact ha g ((Deployment.entombing_other hgens hk) ▸ hg) hlive

theorem Applying.imports (h : Applying actor e c c₁) : c₁.imports = c.imports := by
  cases h <;> rfl

theorem applyEntries_returns (h : ∀ e ∈ es, Admits e c) : (applyEntries actor es).wp
    (fun _ => True) (fun _ => False)
    (fun _ c' _ => Txn.Chain (Applying actor) es c c') c w := by
  induction es generalizing c w with
  | nil => exact .nil
  | cons e es ih =>
    rw [applyEntries, Txn.wp_bind]
    refine Txn.wp_post (applyEntry_returns (h e (List.mem_cons_self ..))) ?_
    intro applied c' w' hstep
    rw [Txn.wp_bind]
    refine Txn.wp_post (ih (fun x hx => hstep.admits (h x (List.mem_cons_of_mem _ hx)))) ?_
    intro counts c'' w'' hrest
    exact .cons hstep hrest

/-- What one application of a bundle does: nothing when the bundle was imported before. -/
inductive Imports (actor : String) (b : TombstoneBundle) (c : Catalog) : Catalog → Prop where
  | replayed (h : c.imports.get b.sha256 ≠ none) : Imports actor b c c
  | imported {r : RestoreTombstoneImport} {c₁ : Catalog} (hnone : c.imports.get b.sha256 = none)
      (h : Txn.Chain (Applying actor) b.entries c c₁) (hr : r.bundleSha256 = b.sha256) :
      Imports actor b c { c₁ with imports := c₁.imports.insert r }

theorem chain_imports (h : Txn.Chain (Applying actor) es c c₁) : c₁.imports = c.imports := by
  induction h with
  | nil => rfl
  | cons h _ ih => exact ih.trans h.imports

theorem applyCompletedTombstones_counts (hactor : identifier 128 [] actor = true)
    (h : ∀ e ∈ b.entries, Admits e c) : (applyCompletedTombstones b actor now).wp (fun _ => True)
      (fun _ => False) (fun r c' _ => Imports actor b c c' ∧
        (c.imports.get b.sha256 = none → r.entryCount = b.entries.length) ∧
        ∀ x, c.imports.get b.sha256 = some x → r.entryCount = x.entryCount) c w := by
  simp only [applyCompletedTombstones, Txn.wp_bind, Txn.wp_raiseIf, Ref.wp_get,
    Tables.imports_view]
  refine ⟨fun hbad => ?_, fun _ => ?_⟩
  · rw [hactor] at hbad
    cases hbad
  split
  · next r hr =>
    refine ⟨.replayed (fun hnone => ?_), fun hnone => ?_, fun x hx => ?_⟩
    · rw [hr] at hnone
      cases hnone
    · rw [hr] at hnone
      cases hnone
    · exact congrArg RestoreTombstoneImport.entryCount (Option.some.inj (hr.symm.trans hx))
  · next hnone =>
    rw [Txn.wp_bind]
    refine Txn.wp_post (applyEntries_returns h) ?_
    intro counts c' w' hchain
    simp only [Txn.wp_bind, Ref.wp_insert, Txn.wp_pure, Tables.imports_put, Tables.imports_view]
    refine ⟨fun htaken => ?_, fun _ => ⟨.imported hnone hchain rfl, fun _ => trivial, fun x hx => ?_⟩⟩
    · obtain ⟨x, hx⟩ := Option.isSome_iff_exists.mp
        (by simpa [Ref.taken, Ref.clashes, Tables.imports_unique] using htaken)
      rw [chain_imports hchain, hnone] at hx
      cases hx
    · rw [hnone] at hx
      cases hx

theorem applyCompletedTombstones_returns (hactor : identifier 128 [] actor = true)
    (h : ∀ e ∈ b.entries, Admits e c) : (applyCompletedTombstones b actor now).wp (fun _ => True)
      (fun _ => False) (fun _ c' _ => Imports actor b c c') c w :=
  Txn.wp_post (applyCompletedTombstones_counts hactor h) (fun _ _ _ hr => hr.1)

end returns

/-- The generation the attempt has, and those the entries give it. -/
def generationsAt (c : Catalog) (es : List TombstoneEntry) (k : AttemptKey) : Set Nat :=
  {n | (∃ g, c.generations.get k = some g ∧ g.generation = n) ∨
    ∃ e ∈ es, e.attempt = k ∧ e.deletionGeneration = n}

/-- An entry for the attempt is not stale. -/
def Effective (c : Catalog) (es : List TombstoneEntry) (k : AttemptKey) : Prop :=
  ∃ e ∈ es, e.attempt = k ∧ ∀ g, c.generations.get k = some g → g.generation ≤ e.deletionGeneration

/-- The attempt waits for its erasure at the generation it has, and nothing holds it. -/
structure Awaits (k : AttemptKey) (c : Catalog) : Prop where
  pending : ∃ d g, c.deletions.get k = some d ∧ c.generations.get k = some g ∧
    d.state = .pending ∧ d.deletionGeneration = g.generation
  free : ∀ h ∈ c.holds, activeHold k h = false

/-- What entries have made of an attempt of the catalog `c`. -/
structure Settled (c : Catalog) (es : List TombstoneEntry) (k : AttemptKey) (c' : Catalog) :
    Prop where
  idle : (∀ e ∈ es, e.attempt ≠ k) → c'.generations.get k = c.generations.get k
  absent : c'.generations.get k = none → generationsAt c es k = ∅
  greatest : ∀ g, c'.generations.get k = some g → IsGreatest (generationsAt c es k) g.generation
  fenced : (∃ e ∈ es, e.attempt = k) → ∀ g, c'.generations.get k = some g → g.deletedAt ≠ none
  awaits : Effective c es k → Awaits k c'

theorem settled_start : Settled c [] k c where
  idle _ := rfl
  absent hnone := by
    ext n
    simp [generationsAt, hnone]
  greatest g hg := by
    have heq : generationsAt c [] k = {g.generation} := by
      ext n
      simp [generationsAt, hg, eq_comm]
    exact heq ▸ isGreatest_singleton
  fenced h := by
    obtain ⟨_, he, _⟩ := h
    cases he
  awaits h := by
    obtain ⟨_, he, _⟩ := h
    cases he

theorem generationsAt_congr (h : ∀ e, e ∈ es' ↔ e ∈ es) :
    generationsAt c es' k = generationsAt c es k := by
  ext n
  simp only [generationsAt, Set.mem_ofPred_eq, h]

/-- Neither the order of the entries nor their number matters. -/
theorem Settled.congr (h : Settled c es k c') (hes : ∀ e, e ∈ es' ↔ e ∈ es) :
    Settled c es' k c' where
  idle hk := h.idle (fun e he => hk e ((hes e).mpr he))
  absent hnone := (generationsAt_congr hes).trans (h.absent hnone)
  greatest g hg := (generationsAt_congr hes).symm ▸ h.greatest g hg
  fenced he := by
    obtain ⟨e, he, hk⟩ := he
    exact h.fenced ⟨e, (hes e).mp he, hk⟩
  awaits he := by
    obtain ⟨e, he, hk⟩ := he
    exact h.awaits ⟨e, (hes e).mp he, hk⟩

theorem generationsAt_snoc_other (hk : e.attempt ≠ k) :
    generationsAt c (es ++ [e]) k = generationsAt c es k := by
  ext n
  simp only [generationsAt, Set.mem_ofPred_eq, List.mem_append, List.mem_singleton]
  constructor
  · rintro (hg | ⟨x, hx | rfl, hxk, hn⟩)
    · exact Or.inl hg
    · exact Or.inr ⟨x, hx, hxk, hn⟩
    · exact absurd hxk hk
  · rintro (hg | ⟨x, hx, hn⟩)
    · exact Or.inl hg
    · exact Or.inr ⟨x, Or.inl hx, hn⟩

theorem generationsAt_snoc : generationsAt c (es ++ [e]) e.attempt =
    insert e.deletionGeneration (generationsAt c es e.attempt) := by
  ext n
  simp only [generationsAt, Set.mem_ofPred_eq, List.mem_append, List.mem_singleton, Set.mem_insert_iff]
  constructor
  · rintro (hg | ⟨x, hx | rfl, hxk, hn⟩)
    · exact Or.inr (Or.inl hg)
    · exact Or.inr (Or.inr ⟨x, hx, hxk, hn⟩)
    · exact Or.inl hn.symm
  · rintro (rfl | hg | ⟨x, hx, hn⟩)
    · exact Or.inr ⟨e, Or.inr rfl, rfl, rfl⟩
    · exact Or.inl hg
    · exact Or.inr ⟨x, Or.inl hx, hn⟩

theorem reopening_other {t t' : Table AttemptDeletion.attempt} (h : Reopening e t t')
    (hk : e.attempt ≠ k) : t'.get k = t.get k := by
  cases h with
  | new hnone => exact (Table.get_insert hnone).trans (if_neg hk)
  | again => exact Table.get_modify_of_ne hk.symm

theorem lifting_free {t t' : Table AttemptHold.holdId} (h : Lifting actor e t t')
    (hfree : ∀ x ∈ t, activeHold k x = false) : ∀ x ∈ t', activeHold k x = false := by
  intro x hx
  obtain ⟨hx, _⟩ | ⟨y, _, _, rfl⟩ := (h x).mp hx
  · exact hfree x hx
  · simp [activeHold, release]

theorem lifting_frees {t t' : Table AttemptHold.holdId} (h : Lifting actor e t t') :
    ∀ x ∈ t', activeHold e.attempt x = false := by
  intro x hx
  obtain ⟨_, hfree⟩ | ⟨y, _, _, rfl⟩ := (h x).mp hx
  · exact hfree
  · simp [activeHold, release]

theorem entombing_get {t t' : Table AttemptGeneration.attempt} (h : Entombing e t t') :
    ∃ g, t'.get e.attempt = some g ∧ g.generation = e.deletionGeneration ∧ g.deletedAt ≠ none := by
  cases h with
  | first hnone => exact ⟨_, (Table.get_insert hnone).trans (if_pos rfl), rfl, nofun⟩
  | known hget => exact ⟨_, Table.get_modify_self hget, rfl, nofun⟩

theorem reopening_get {t t' : Table AttemptDeletion.attempt} (h : Reopening e t t') :
    ∃ d, t'.get e.attempt = some d ∧ d.state = .pending ∧
      d.deletionGeneration = e.deletionGeneration := by
  cases h with
  | new hnone => exact ⟨_, (Table.get_insert hnone).trans (if_pos rfl), rfl, rfl⟩
  | again hget => exact ⟨_, Table.get_modify_self hget, rfl, rfl⟩

theorem Settled.other (h : Settled c es k c₁) (ha : Applying actor e c₁ c₂) (hk : e.attempt ≠ k) :
    Settled c (es ++ [e]) k c₂ := by
  have hgens : c₂.generations.get k = c₁.generations.get k := by
    cases ha with
    | stale => rfl
    | applied hgens => exact Deployment.entombing_other hgens hk
  have hset : generationsAt c (es ++ [e]) k = generationsAt c es k := generationsAt_snoc_other hk
  refine ⟨fun hidle => ?_, fun hnone => ?_, fun g hg => ?_, fun he g hg => ?_, fun he => ?_⟩
  · exact hgens.trans (h.idle (fun x hx => hidle x (List.mem_append_left _ hx)))
  · exact hset.trans (h.absent (hgens.symm.trans hnone))
  · exact hset.symm ▸ h.greatest g (hgens.symm.trans hg)
  · obtain ⟨x, hx, hxk⟩ := he
    obtain hx | hx := List.mem_append.mp hx
    · exact h.fenced ⟨x, hx, hxk⟩ g (hgens.symm.trans hg)
    · exact absurd (List.mem_singleton.mp hx ▸ hxk) hk
  · obtain ⟨x, hx, hxk, hle⟩ := he
    obtain hx | hx := List.mem_append.mp hx
    · obtain ⟨⟨d, g, hd, hg, hpending⟩, hfree⟩ := h.awaits ⟨x, hx, hxk, hle⟩
      cases ha with
      | stale => exact ⟨⟨d, g, hd, hg, hpending⟩, hfree⟩
      | applied _ hdel hholds =>
        exact ⟨⟨d, g, (reopening_other hdel hk).trans hd, hgens.trans hg, hpending⟩,
          lifting_free hholds hfree⟩
    · exact absurd (List.mem_singleton.mp hx ▸ hxk) hk

theorem Settled.stale {g : AttemptGeneration} (h : Settled c es e.attempt c₁)
    (hget : c₁.generations.get e.attempt = some g) (hg : e.deletionGeneration < g.generation)
    (hd : g.deletedAt ≠ none) : Settled c (es ++ [e]) e.attempt c₁ := by
  have hmax := h.greatest g hget
  refine ⟨fun hidle => ?_, fun hnone => ?_, fun g' hg' => ?_, fun _ g' hg' => ?_, fun he => ?_⟩
  · exact absurd rfl (hidle e (List.mem_append_right _ (List.mem_singleton_self _)))
  · rw [hget] at hnone
    cases hnone
  · obtain rfl := Option.some.inj (hget.symm.trans hg')
    rw [generationsAt_snoc]
    refine ⟨Set.mem_insert_of_mem _ hmax.1, fun n hn => ?_⟩
    obtain rfl | hn := hn
    · exact hg.le
    · exact hmax.2 hn
  · obtain rfl := Option.some.inj (hget.symm.trans hg')
    exact hd
  · refine h.awaits ?_
    obtain ⟨x, hx, hxk, hle⟩ := he
    obtain hx | hx := List.mem_append.mp hx
    · exact ⟨x, hx, hxk, hle⟩
    · obtain rfl := List.mem_singleton.mp hx
      obtain ⟨g₀, hg₀, heq⟩ | ⟨y, hy, hyk, heq⟩ := hmax.1
      · have hle₀ := hle g₀ hg₀
        omega
      · refine ⟨y, hy, hyk, fun g₀ hg₀ => ?_⟩
        have hle₀ := hle g₀ hg₀
        omega

theorem Settled.applied {gens : Table AttemptGeneration.attempt}
    {deletions : Table AttemptDeletion.attempt} {holds : Table AttemptHold.holdId}
    (h : Settled c es e.attempt c₁) (hgens : Entombing e c₁.generations gens)
    (hdel : Reopening e c₁.deletions deletions) (hholds : Lifting actor e c₁.holds holds) :
    Settled c (es ++ [e]) e.attempt
      { c₁ with generations := gens, deletions := deletions, holds := holds } := by
  obtain ⟨g, hget, hg, hd⟩ := entombing_get hgens
  obtain ⟨d, hdget, hstate, hdg⟩ := reopening_get hdel
  refine ⟨fun hidle => ?_, fun hnone => ?_, fun g' hg' => ?_, fun _ g' hg' => ?_, fun _ => ?_⟩
  · exact absurd rfl (hidle e (List.mem_append_right _ (List.mem_singleton_self _)))
  · rw [hget] at hnone
    cases hnone
  · obtain rfl := Option.some.inj (hget.symm.trans hg')
    rw [generationsAt_snoc, hg]
    refine ⟨Set.mem_insert _ _, fun n hn => ?_⟩
    obtain rfl | hn := hn
    · exact le_refl _
    · cases hgens with
      | first hnone =>
        rw [h.absent hnone] at hn
        exact hn.elim
      | known hold hle => exact ((h.greatest _ hold).2 hn).trans hle
  · obtain rfl := Option.some.inj (hget.symm.trans hg')
    exact hd
  · exact ⟨⟨d, g, hdget, hget, hstate, hdg.trans hg.symm⟩, lifting_frees hholds⟩

theorem Settled.entry (h : Settled c es k c₁) (ha : Applying actor e c₁ c₂) :
    Settled c (es ++ [e]) k c₂ := by
  by_cases hk : e.attempt = k
  · subst hk
    cases ha with
    | stale hget hg hd => exact h.stale hget hg hd
    | applied hgens hdel hholds => exact h.applied hgens hdel hholds
  · exact h.other ha hk

theorem Settled.chain (h : Settled c es k c₁) (hchain : Txn.Chain (Applying actor) es' c₁ c₂) :
    Settled c (es ++ es') k c₂ := by
  induction hchain generalizing es with
  | nil => rwa [List.append_nil]
  | @cons e es' c₁ c₂ c₃ he _ ih =>
    have hnext := ih (h.entry he)
    rwa [List.append_assoc, List.singleton_append] at hnext

/-- The catalog knows of a bundle only what the bundle did: its entries fence their
attempts. -/
def Remembered (b : TombstoneBundle) (c : Catalog) : Prop :=
  c.imports.get b.sha256 ≠ none → ∀ e ∈ b.entries, ∃ g, c.generations.get e.attempt = some g ∧
    e.deletionGeneration ≤ g.generation ∧ g.deletedAt ≠ none

/-- The digest of a bundle tells its entries. -/
def Distinct (bs : List TombstoneBundle) : Prop :=
  ∀ b ∈ bs, ∀ b' ∈ bs, b.sha256 = b'.sha256 → b.entries = b'.entries

/-- The entries of the bundles that were not imported before. -/
def newEntries (c : Catalog) (bs : List TombstoneBundle) : List TombstoneEntry :=
  (bs.filter (fun b => (c.imports.get b.sha256).isNone)).flatMap TombstoneBundle.entries

theorem mem_newEntries {bs : List TombstoneBundle} : e ∈ newEntries c bs ↔
    ∃ b ∈ bs, c.imports.get b.sha256 = none ∧ e ∈ b.entries := by
  simp [newEntries, and_assoc]

/-- The catalog after some applications, the one it was before being `c`. -/
structure Restoring (c : Catalog) (done : List TombstoneBundle) (c' : Catalog) : Prop where
  imports : ∀ sha, c'.imports.get sha = none ↔
    c.imports.get sha = none ∧ ∀ b ∈ done, b.sha256 ≠ sha
  settled : ∀ k, Settled c (newEntries c done) k c'
  advances : AdvancesAll c.deletions c'.deletions

theorem restoring_start : Restoring c [] c where
  imports sha := by simp
  settled _ := settled_start
  advances := .refl _

theorem Settled.withImports {imports : Table RestoreTombstoneImport.bundleSha256}
    (h : Settled c es k c₁) : Settled c es k { c₁ with imports := imports } :=
  ⟨h.idle, h.absent, h.greatest, h.fenced,
    fun he => ⟨(h.awaits he).pending, (h.awaits he).free⟩⟩

theorem Settled.admits (h : Settled c es e.attempt c₁) (ha : Admits e c) : Admits e c₁ := by
  intro g hg hlive
  by_cases hes : ∃ x ∈ es, x.attempt = e.attempt
  · exact absurd hlive (h.fenced hes g hg)
  · refine ha g ?_ hlive
    rw [← h.idle (fun x hx hk => hes ⟨x, hx, hk⟩)]
    exact hg

theorem chain_advances (h : Txn.Chain (Applying actor) es c c₁) :
    AdvancesAll c.deletions c₁.deletions := by
  induction h with
  | nil => exact .refl _
  | cons h _ ih => exact (Deployment.applying_advances h).trans ih

theorem Restoring.step {done : List TombstoneBundle} (h : Restoring c done c₁)
    (hi : Imports actor b c₁ c₂) (hsha : Distinct (done ++ [b])) :
    Restoring c (done ++ [b]) c₂ := by
  have hb : b ∈ done ++ [b] := List.mem_append_right _ (List.mem_singleton_self _)
  cases hi with
  | replayed hseen =>
    have hold : c.imports.get b.sha256 ≠ none ∨ ∃ b' ∈ done, b'.sha256 = b.sha256 := by
      by_contra hnew
      rw [not_or, not_not] at hnew
      exact hseen ((h.imports _).mpr ⟨hnew.1, fun b' hb' he => hnew.2 ⟨b', hb', he⟩⟩)
    refine ⟨fun sha => ?_, fun k => (h.settled k).congr (fun e => ?_), h.advances⟩
    · rw [h.imports sha]
      refine and_congr_right (fun hnone => ⟨fun hdone x hx => ?_, fun hdone x hx => ?_⟩)
      · obtain hx | hx := List.mem_append.mp hx
        · exact hdone x hx
        · obtain rfl := List.mem_singleton.mp hx
          rintro rfl
          obtain hold | ⟨b', hb', he⟩ := hold
          · exact hold hnone
          · exact hdone b' hb' he
      · exact hdone x (List.mem_append_left _ hx)
    · rw [mem_newEntries, mem_newEntries]
      constructor
      · rintro ⟨x, hx, hnone, he⟩
        obtain hx | hx := List.mem_append.mp hx
        · exact ⟨x, hx, hnone, he⟩
        · obtain rfl := List.mem_singleton.mp hx
          obtain hold | ⟨b', hb', hs⟩ := hold
          · exact absurd hnone hold
          · have hsame := hsha b' (List.mem_append_left _ hb') x hb hs
            exact ⟨b', hb', hs ▸ hnone, hsame ▸ he⟩
      · rintro ⟨x, hx, hrest⟩
        exact ⟨x, List.mem_append_left _ hx, hrest⟩
  | @imported r c₂ hnone hchain hr =>
    obtain ⟨hfirst, hdone⟩ := (h.imports _).mp hnone
    have hinsert : c₂.imports.get r.bundleSha256 = none := by
      rw [chain_imports hchain, hr]
      exact hnone
    have hadv := chain_advances hchain
    refine ⟨fun sha => ?_, fun k => ?_, h.advances.trans hadv⟩
    · have hget : (c₂.imports.insert r).get sha =
          if r.bundleSha256 = sha then some r else c₂.imports.get sha := Table.get_insert hinsert
      show (c₂.imports.insert r).get sha = none ↔ _
      rw [hget, hr, chain_imports hchain]
      split
      · next hs => exact ⟨by rintro ⟨⟩, fun hx => absurd hs (hx.2 b hb)⟩
      · next hs =>
        rw [h.imports sha]
        refine and_congr_right (fun _ => ⟨fun hdone x hx => ?_, fun hdone x hx => ?_⟩)
        · obtain hx | hx := List.mem_append.mp hx
          · exact hdone x hx
          · exact List.mem_singleton.mp hx ▸ hs
        · exact hdone x (List.mem_append_left _ hx)
    · have hentries : newEntries c (done ++ [b]) = newEntries c done ++ b.entries := by
        simp [newEntries, hfirst]
      rw [hentries]
      exact ((h.settled k).chain hchain).withImports

/-- One application: a bundle, who applies it, and when. -/
abbrev Application := TombstoneBundle × String × Instant

/-- Applications one after the other, each in a transaction of its own. -/
def restore (w : ObjectStore) : List Application → Catalog → Except Failure Catalog
  | [], c => .ok c
  | (b, actor, now) :: rest, c =>
    match (applyCompletedTombstones b actor now).atomically c w with
    | (.ok _, c', _) => restore w rest c'
    | (.error f, _, _) => .error f

theorem restore_returns {xs : List Application} {done : List TombstoneBundle}
    (h : Restoring c done c₁) (hactor : ∀ x ∈ xs, identifier 128 [] x.2.1 = true)
    (hsha : Distinct (done ++ xs.map Prod.fst))
    (hadmits : ∀ x ∈ xs, ∀ e ∈ x.1.entries, Admits e c) :
    ∃ c', restore w xs c₁ = .ok c' ∧ Restoring c (done ++ xs.map Prod.fst) c' := by
  induction xs generalizing done c₁ with
  | nil =>
    rw [List.map_nil, List.append_nil]
    exact ⟨c₁, rfl, h⟩
  | cons x xs ih =>
    obtain ⟨b, actor, now⟩ := x
    have hnow : ∀ e ∈ b.entries, Admits e c₁ := fun e he =>
      (h.settled e.attempt).admits (hadmits _ (List.mem_cons_self ..) e he)
    obtain ⟨a, c₂, w', hrun, hi⟩ := Txn.run_returns
      (@applyCompletedTombstones_returns c₁ w actor b now (hactor _ (List.mem_cons_self ..)) hnow)
    have hsplit : done ++ ((b, actor, now) :: xs).map Prod.fst = done ++ [b] ++ xs.map Prod.fst := by
      simp
    rw [hsplit] at hsha ⊢
    have hfirst : Distinct (done ++ [b]) := fun x hx y hy =>
      hsha x (List.mem_append_left _ hx) y (List.mem_append_left _ hy)
    obtain ⟨c', hrest, hc'⟩ := ih (h.step hi hfirst)
      (fun x hx => hactor x (List.mem_cons_of_mem _ hx)) hsha
      (fun x hx => hadmits x (List.mem_cons_of_mem _ hx))
    refine ⟨c', ?_, hc'⟩
    rw [restore, Txn.atomically, hrun]
    exact hrest

/-- An attempt after bundles were applied to the catalog `c`. -/
structure Restored (c : Catalog) (bs : List TombstoneBundle) (k : AttemptKey) (c' : Catalog) :
    Prop where
  fenced : (∃ b ∈ bs, ∃ e ∈ b.entries, e.attempt = k) → ∃ g, c'.generations.get k = some g ∧
    g.deletedAt ≠ none ∧ IsGreatest (generationsAt c (bs.flatMap TombstoneBundle.entries) k)
      g.generation
  awaits : Effective c (newEntries c bs) k → Awaits k c'
  retired : Effective c (newEntries c bs) k → ∀ l : DeletionLease, l.attempt = k → Issued l c →
    Superseded l c' ∧ ¬Holding l c'

theorem generationsAt_mono (h : ∀ e ∈ es, e ∈ es') : generationsAt c es k ⊆ generationsAt c es' k := by
  rintro n (hg | ⟨e, he, hrest⟩)
  · exact Or.inl hg
  · exact Or.inr ⟨e, h e he, hrest⟩

theorem Restoring.restored {bs : List TombstoneBundle} (h : Restoring c bs c')
    (hmem : ∀ b ∈ bs, Remembered b c) (k : AttemptKey) : Restored c bs k c' := by
  have hs := h.settled k
  have hnew : ∀ e ∈ newEntries c bs, e ∈ bs.flatMap TombstoneBundle.entries := by
    intro e he
    obtain ⟨b, hb, _, he⟩ := mem_newEntries.mp he
    exact List.mem_flatMap.mpr ⟨b, hb, he⟩
  refine ⟨fun hk => ?_, hs.awaits, fun he l hl hissued => ?_⟩
  · have hsplit : ∃ g, c'.generations.get k = some g ∧ g.deletedAt ≠ none := by
      by_cases hin : ∃ e ∈ newEntries c bs, e.attempt = k
      · cases hget : c'.generations.get k with
        | none =>
          obtain ⟨e, he, hek⟩ := hin
          have hempty := hs.absent hget
          have hgen : e.deletionGeneration ∈ generationsAt c (newEntries c bs) k :=
            Or.inr ⟨e, he, hek, rfl⟩
          rw [hempty] at hgen
          exact hgen.elim
        | some g => exact ⟨g, rfl, hs.fenced hin g hget⟩
      · obtain ⟨b, hb, e, he, rfl⟩ := hk
        have hseen : c.imports.get b.sha256 ≠ none := fun hnone =>
          hin ⟨e, mem_newEntries.mpr ⟨b, hb, hnone, he⟩, rfl⟩
        obtain ⟨g, hg, _, hd⟩ := hmem b hb hseen e he
        exact ⟨g, (hs.idle (fun x hx hxk => hin ⟨x, hx, hxk⟩)).trans hg, hd⟩
    obtain ⟨g, hg, hd⟩ := hsplit
    have hmax := hs.greatest g hg
    refine ⟨g, hg, hd, generationsAt_mono hnew hmax.1, ?_⟩
    rintro n (⟨g₀, hg₀, rfl⟩ | ⟨e, he, hek, rfl⟩)
    · exact hmax.2 (Or.inl ⟨g₀, hg₀, rfl⟩)
    · obtain ⟨b, hb, he⟩ := List.mem_flatMap.mp he
      by_cases hnone : c.imports.get b.sha256 = none
      · exact hmax.2 (Or.inr ⟨e, mem_newEntries.mpr ⟨b, hb, hnone, he⟩, hek, rfl⟩)
      · obtain ⟨g₀, hg₀, hle, _⟩ := hmem b hb hnone e he
        exact hle.trans (hmax.2 (Or.inl ⟨g₀, hek ▸ hg₀, rfl⟩))
  · obtain ⟨⟨d, _, hd, _, hpending, _⟩, _⟩ := hs.awaits he
    obtain ⟨d₀, hd₀, hle⟩ := hissued
    obtain ⟨d', hd', hadv⟩ := h.advances l.attempt d₀ hd₀
    rw [hl, hd] at hd'
    obtain rfl := Option.some.inj hd'
    have hsuper : Superseded l c' := by
      refine ⟨d, hl ▸ hd, hle.trans hadv.grows, fun hproc => ?_⟩
      rw [hpending] at hproc
      cases hproc
    exact ⟨hsuper, Deployment.not_holding_of_superseded hsuper⟩

theorem Restored.congr {bs bs' : List TombstoneBundle} (h : Restored c bs k c')
    (hbs : ∀ b, b ∈ bs' ↔ b ∈ bs) : Restored c bs' k c' := by
  have hnew : ∀ e, e ∈ newEntries c bs' ↔ e ∈ newEntries c bs := by
    intro e
    simp only [mem_newEntries, hbs]
  have hall : ∀ e, e ∈ bs'.flatMap TombstoneBundle.entries ↔
      e ∈ bs.flatMap TombstoneBundle.entries := by
    intro e
    simp only [List.mem_flatMap, hbs]
  have heff : Effective c (newEntries c bs') k → Effective c (newEntries c bs) k := by
    rintro ⟨e, he, hrest⟩
    exact ⟨e, (hnew e).mp he, hrest⟩
  refine ⟨fun hk => ?_, fun he => h.awaits (heff he), fun he => h.retired (heff he)⟩
  obtain ⟨b, hb, hrest⟩ := hk
  rw [generationsAt_congr hall]
  exact h.fenced ⟨b, (hbs b).mp hb, hrest⟩

theorem chain_admits (h : Txn.Chain (Applying actor) es c c₁)
    (hunique : (es.map TombstoneEntry.attempt).Nodup) (he : e ∈ es) : Admits e c := by
  induction h with
  | nil => cases he
  | @cons x es c c₂ c₁ hx _ ih =>
    rw [List.map_cons, List.nodup_cons] at hunique
    obtain rfl | he := List.mem_cons.mp he
    · intro g hg hlive
      cases hx with
      | stale hget _ hd =>
        obtain rfl := Option.some.inj (hget.symm.trans hg)
        exact absurd hlive hd
      | applied hgens =>
        cases hgens with
        | first hnone =>
          rw [hg] at hnone
          cases hnone
        | known hget hle =>
          obtain rfl := Option.some.inj (hget.symm.trans hg)
          exact hle
    · have hne : x.attempt ≠ e.attempt := fun hk =>
        hunique.1 (hk ▸ List.mem_map_of_mem he)
      intro g hg hlive
      refine ih hunique.2 he g ?_ hlive
      cases hx with
      | stale => exact hg
      | applied hgens => exact (Deployment.entombing_other hgens hne).trans hg

theorem conflict_refused (hmem : Remembered b c) (he : e ∈ b.entries) (hconflict : ¬Admits e c) :
    ∃ f, (applyCompletedTombstones b actor now).atomically c w = (.error f, c, w) := by
  have hspec : (applyCompletedTombstones b actor now).wp (fun w' => w' = w) (fun _ => True)
      (fun _ c' w' => Importing actor b c c' ∧ w' = w) c w := applyCompletedTombstones_spec
  have hkeep := Txn.run_external_of_wp (A := fun w' => w' = w) rfl hspec
  unfold Txn.atomically
  cases hr : (applyCompletedTombstones b actor now).run c w with
  | mk r w' =>
    rw [hr] at hkeep
    obtain rfl : w' = w := hkeep
    cases r with
    | error f => exact ⟨f, rfl⟩
    | ok x =>
      obtain ⟨a, c'⟩ := x
      refine absurd ?_ hconflict
      obtain ⟨hi, _⟩ := Txn.run_of_wp hspec hr
      cases hi with
      | replayed hseen =>
        intro g hg hlive
        obtain ⟨g', hg', _, hd⟩ := hmem (fun hnone => by rw [hseen] at hnone; cases hnone) e he
        obtain rfl := Option.some.inj (hg'.symm.trans hg)
        exact absurd hlive hd
      | imported hchain => exact chain_admits hchain b.unique he

/-- Tombstone application is confluent, and atomic. -/
theorem tombstones_confluent {bs : List TombstoneBundle} (hsha : Distinct bs)
    (hmem : ∀ b ∈ bs, Remembered b c) :
    ((∀ b ∈ bs, ∀ e ∈ b.entries, Admits e c) → ∀ xs : List Application,
      (∀ x ∈ xs, identifier 128 [] x.2.1 = true) → (∀ b, b ∈ bs ↔ b ∈ xs.map Prod.fst) →
        ∃ c', restore w xs c = .ok c' ∧ ∀ k, Restored c bs k c') ∧
    ∀ b ∈ bs, (∃ e ∈ b.entries, ¬Admits e c) → ∀ actor now,
      ∃ f, (applyCompletedTombstones b actor now).atomically c w = (.error f, c, w) := by
  refine ⟨fun hadmits xs hactor hbs => ?_, fun b hb hconflict actor now => ?_⟩
  · have hin : ∀ x ∈ xs.map Prod.fst, x ∈ bs := fun x hx => (hbs x).mpr hx
    obtain ⟨c', hc', hr⟩ := restore_returns (w := w) (restoring_start (c := c)) hactor
      (fun x hx y hy => hsha x (hin x hx) y (hin y hy))
      (fun x hx => hadmits _ (hin _ (List.mem_map_of_mem hx)))
    rw [List.nil_append] at hr
    exact ⟨c', hc', fun k => (hr.restored (fun b hb => hmem b (hin b hb)) k).congr hbs⟩
  · obtain ⟨e, he, hadmit⟩ := hconflict
    exact conflict_refused (hmem b hb) he hadmit

end Recovery

-- Two bundles, taken from two moments of the same site.
namespace Sample

def tombstone (k : AttemptKey) (n : Nat) (hn : 1 ≤ n ∧ n ≤ 2 ^ 63 - 1)
    (hk : [k.tenantId, k.clusterId, k.attemptId].all (identifier 128 []) = true) : TombstoneEntry :=
  ⟨k, n, 20, 30, hk, hn, by decide⟩

theorem first_generation : 1 ≤ 1 ∧ 1 ≤ 2 ^ 63 - 1 := by decide

theorem second_generation : 1 ≤ 2 ∧ 2 ≤ 2 ^ 63 - 1 := by decide

theorem attempt₁_named :
    [attempt₁.tenantId, attempt₁.clusterId, attempt₁.attemptId].all (identifier 128 []) = true := by
  decide

def older : TombstoneBundle where
  sha256 := "older"
  sourceCreatedAt := 40
  entries := [tombstone attempt₁ 1 first_generation attempt₁_named,
    tombstone attempt₂ 2 second_generation (by decide)]
  bounded := by decide
  unique := by decide

def newer : TombstoneBundle where
  sha256 := "newer"
  sourceCreatedAt := 50
  entries := [tombstone attempt₁ 3 (by decide) attempt₁_named]
  bounded := by decide
  unique := by decide

end Sample

namespace Recovery

open Deployment (runCalls)

/-- The newer bundle, the older one and the newer one again, on a site where the attempt is
live and under a hold. -/
theorem tombstones_confluent_sample : ∃ s c',
    runCalls Sample.env Sample.settings
      (Sample.admission ++ [.placeAttemptHold Sample.attempt₁ 9 "audit" "admin" 6]) .initial = some s ∧
    restore (fun _ => none) [(Sample.newer, "operator", 60), (Sample.older, "operator", 61),
      (Sample.newer, "operator", 62)] s.catalog = .ok c' ∧
    (∀ k, Restored s.catalog [Sample.older, Sample.newer] k c') ∧
    Awaits Sample.attempt₁ c' := by
  have hrun : (runCalls Sample.env Sample.settings
      (Sample.admission ++ [.placeAttemptHold Sample.attempt₁ 9 "audit" "admin" 6]) .initial).map
      (fun s => (s.catalog.generations.get Sample.attempt₁, s.catalog.generations.get Sample.attempt₂,
        s.catalog.imports.rows.isEmpty)) =
        some (some ⟨"acme", "c1", "a1", 0, none⟩, none, true) := by decide +kernel
  obtain ⟨s, hs, hrun⟩ := Option.map_eq_some_iff.mp hrun
  simp only [Prod.mk.injEq] at hrun
  obtain ⟨h₁, h₂, hempty⟩ := hrun
  have himports : ∀ sha, s.catalog.imports.get sha = none := by
    intro sha
    refine Table.get_eq_none.mpr (fun r hr => ?_)
    have hmem : r ∈ s.catalog.imports.rows := hr
    rw [List.isEmpty_iff.mp hempty] at hmem
    cases hmem
  have hadmits : ∀ b ∈ [Sample.older, Sample.newer], ∀ e ∈ b.entries, Admits e s.catalog := by
    have hkey : ∀ b ∈ [Sample.older, Sample.newer], ∀ e ∈ b.entries,
        e.attempt = Sample.attempt₁ ∨ e.attempt = Sample.attempt₂ := by
      intro b hb e he
      obtain rfl | rfl : b = Sample.older ∨ b = Sample.newer := by simpa using hb
      · obtain he | he := List.mem_cons.mp he
        · exact Or.inl (he ▸ rfl)
        · exact Or.inr (List.mem_singleton.mp he ▸ rfl)
      · exact Or.inl (List.mem_singleton.mp he ▸ rfl)
    intro b hb e he g hg _
    obtain hk | hk := hkey b hb e he
    · rw [hk, h₁] at hg
      obtain rfl := Option.some.inj hg
      exact Nat.zero_le _
    · rw [hk, h₂] at hg
      cases hg
  have hsha : Distinct [Sample.older, Sample.newer] := by
    intro b hb b' hb' he
    obtain rfl | rfl : b = Sample.older ∨ b = Sample.newer := by simpa using hb
    · obtain rfl | rfl : b' = Sample.older ∨ b' = Sample.newer := by simpa using hb'
      · rfl
      · exact absurd he (by decide)
    · obtain rfl | rfl : b' = Sample.older ∨ b' = Sample.newer := by simpa using hb'
      · exact absurd he (by decide)
      · rfl
  obtain ⟨hconfluent, _⟩ := tombstones_confluent (w := fun _ => none) hsha
    (fun b _ hseen => absurd (himports b.sha256) hseen)
  obtain ⟨c', hc', hr⟩ := hconfluent hadmits [(Sample.newer, "operator", 60),
    (Sample.older, "operator", 61), (Sample.newer, "operator", 62)]
    (fun x hx => by
      obtain rfl | rfl | rfl : x = (Sample.newer, "operator", 60) ∨
        x = (Sample.older, "operator", 61) ∨ x = (Sample.newer, "operator", 62) := by simpa using hx
      all_goals decide)
    (fun b => by simp [or_comm])
  refine ⟨s, c', hs, hc', hr, (hr Sample.attempt₁).awaits ?_⟩
  refine ⟨Sample.tombstone Sample.attempt₁ 3 (by decide) (by decide), ?_, rfl, fun g hg => ?_⟩
  · exact mem_newEntries.mpr ⟨Sample.newer, by simp, himports _, by simp [Sample.newer]⟩
  · obtain rfl := Option.some.inj (h₁.symm.trans hg)
    exact Nat.zero_le _

end Recovery

end RankLens
