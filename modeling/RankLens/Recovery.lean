import RankLens.Lifecycle

namespace RankLens

/-- One entry of a tombstone bundle, as `_parse_entry` accepts it. -/
structure TombstoneEntry where
  attempt : AttemptKey
  deletionGeneration : Nat
  requestedAt : Instant
  completedAt : Instant
  identifiers : [attempt.tenantId, attempt.clusterId, attempt.attemptId].all (identifier 128 []) = true
  generation : 1 ≤ deletionGeneration ∧ deletionGeneration ≤ 2 ^ 63 - 1
  ordered : requestedAt ≤ completedAt

/-- A bundle that passed the checks on its size, envelope, signature and order. -/
structure TombstoneBundle where
  sha256 : String
  sourceCreatedAt : Instant
  entries : List TombstoneEntry
  bounded : entries.length ≤ 10000
  unique : (entries.map TombstoneEntry.attempt).Nodup

structure TombstoneImportResult where
  bundleSha256 : String
  entryCount : Nat
  appliedCount : Nat
  staleCount : Nat
  replayed : Bool
deriving DecidableEq, Repr

namespace Recovery

def newDeletion (e : TombstoneEntry) : AttemptDeletion :=
  IngestionService.newDeletion e.attempt e.deletionGeneration .pending none e.requestedAt

def reopen (e : TombstoneEntry) (loaded d : AttemptDeletion) : AttemptDeletion :=
  { d with
    deletionGeneration := e.deletionGeneration
    state := .pending
    attempts := 0
    leaseOwner := none
    leaseGeneration := loaded.leaseGeneration + 1
    leaseExpiresAt := none
    lastError := none
    requestedAt := e.requestedAt
    completedAt := none }

def release (actor : String) (e : TombstoneEntry) (h : AttemptHold) : AttemptHold :=
  { h with
    state := .released
    releasedByCredentialId := some (("restore:" ++ actor).take 128).toString
    releasedAt := some e.completedAt }

def requestDeletion (e : TombstoneEntry) : Tx Unit := do
  let deletion ← Tables.deletions.get e.attempt
  match deletion with
  | none => Tables.deletions.insert .integrity (newDeletion e)
  | some deletion => Tables.deletions.update .staleData e.attempt (reopen e deletion)

def releaseHolds (actor : String) (e : TombstoneEntry) : Tx Unit := do
  let holds ← Tables.holds.select (activeHold e.attempt)
  Txn.forEach holds (fun h => Tables.holds.update .staleData h.holdId (release actor e))

def setGeneration (e : TombstoneEntry) (g : AttemptGeneration) : AttemptGeneration :=
  { g with generation := e.deletionGeneration, deletedAt := some e.completedAt }

/-- One entry: whether it was applied, or found stale. -/
def applyEntry (actor : String) (e : TombstoneEntry) : Tx Bool := do
  Txn.lock (.attempt e.attempt)
  let generation ← Tables.generations.get e.attempt
  match generation with
  | none => do
    Tables.generations.insert .integrity ⟨e.attempt.tenantId, e.attempt.clusterId,
      e.attempt.attemptId, e.deletionGeneration, some e.completedAt⟩
    requestDeletion e
    releaseHolds actor e
    pure true
  | some generation =>
    if e.deletionGeneration < generation.generation then do
      Txn.raiseIf (generation.deletedAt = none)
        (.value "tombstone conflicts with a newer live attempt generation")
      pure false
    else do
      Tables.generations.update .staleData e.attempt (setGeneration e)
      requestDeletion e
      releaseHolds actor e
      pure true

/-- The applied and the stale entries, counted. -/
def applyEntries (actor : String) : List TombstoneEntry → Tx (Nat × Nat)
  | [] => pure (0, 0)
  | e :: es => do
    let applied ← applyEntry actor e
    let counts ← applyEntries actor es
    pure (if applied then (counts.1 + 1, counts.2) else (counts.1, counts.2 + 1))

def applyCompletedTombstones (b : TombstoneBundle) (actor : String) (now : Instant) :
    Tx TombstoneImportResult := do
  Txn.raiseIf (identifier 128 [] actor = false)
    (.value "restore actor must be a safe identifier")
  let existing ← Tables.imports.get b.sha256
  match existing with
  | some existing => pure ⟨b.sha256, existing.entryCount, existing.appliedCount, existing.staleCount, true⟩
  | none => do
    let counts ← applyEntries actor b.entries
    Tables.imports.insert .integrity ⟨b.sha256, b.sourceCreatedAt, b.entries.length, counts.1,
      counts.2, actor, now⟩
    pure ⟨b.sha256, b.entries.length, counts.1, counts.2, false⟩

inductive Entombing (e : TombstoneEntry) (t : Table AttemptGeneration.attempt) :
    Table AttemptGeneration.attempt → Prop where
  | first (h : t.get e.attempt = none) : Entombing e t (t.insert ⟨e.attempt.tenantId,
      e.attempt.clusterId, e.attempt.attemptId, e.deletionGeneration, some e.completedAt⟩)
  | known {g : AttemptGeneration} (h : t.get e.attempt = some g)
      (hg : g.generation ≤ e.deletionGeneration) :
      Entombing e t (t.modify e.attempt (setGeneration e) (fun _ => rfl))

inductive Reopening (e : TombstoneEntry) (t : Table AttemptDeletion.attempt) :
    Table AttemptDeletion.attempt → Prop where
  | new (h : t.get e.attempt = none) : Reopening e t (t.insert (newDeletion e))
  | again {d : AttemptDeletion} (h : t.get e.attempt = some d) :
      Reopening e t (t.modify e.attempt (reopen e d) (fun _ => rfl))

def Lifting (actor : String) (e : TombstoneEntry) (t t' : Table AttemptHold.holdId) : Prop :=
  ∀ x, x ∈ t' ↔ (x ∈ t ∧ activeHold e.attempt x = false) ∨
    ∃ h ∈ t, activeHold e.attempt h = true ∧ x = release actor e h

inductive Applying (actor : String) (e : TombstoneEntry) (c : Catalog) : Catalog → Prop where
  | stale {g : AttemptGeneration} (hget : c.generations.get e.attempt = some g)
      (hg : e.deletionGeneration < g.generation) (hd : g.deletedAt ≠ none) : Applying actor e c c
  | applied {gens : Table AttemptGeneration.attempt} {deletions : Table AttemptDeletion.attempt}
      {holds : Table AttemptHold.holdId} (hgens : Entombing e c.generations gens)
      (hdel : Reopening e c.deletions deletions) (hholds : Lifting actor e c.holds holds) :
      Applying actor e c
        { c with generations := gens, deletions := deletions, holds := holds }

inductive Importing (actor : String) (b : TombstoneBundle) (c : Catalog) : Catalog → Prop where
  | replayed {r : RestoreTombstoneImport} (h : c.imports.get b.sha256 = some r) : Importing actor b c c
  | imported {imports : Table RestoreTombstoneImport.bundleSha256} {c' : Catalog}
      (h : Txn.Chain (Applying actor) b.entries c c') :
      Importing actor b c { c' with imports := imports }

section spec

variable {c : Catalog} {w : ObjectStore} {A : ObjectStore → Prop} {actor : String}
  {e : TombstoneEntry}

theorem requestDeletion_spec :
    (requestDeletion e).wp A (fun _ => True) (fun _ c' w' => (∃ deletions,
      Reopening e c.deletions deletions ∧ c' = { c with deletions := deletions }) ∧ w' = w) c w := by
  simp only [requestDeletion, Txn.wp_bind, Ref.wp_get, Tables.deletions_view]
  split
  · next h =>
    simp only [Ref.wp_insert, implies_true, true_and, and_true, Tables.deletions_put,
      Tables.deletions_view]
    exact fun _ => ⟨_, .new h, rfl⟩
  · next d h =>
    simp only [Ref.wp_update, implies_true, true_and, and_true, Tables.deletions_put,
      Tables.deletions_view]
    exact fun _ _ => ⟨_, .again h, rfl⟩

theorem releaseHolds_step {t holds : Table AttemptHold.holdId} {pre : List AttemptHold}
    {h : AttemptHold} (ht : h ∈ t) (hpre : ∀ p ∈ pre, p.holdId ≠ h.holdId)
    (hholds : ∀ x, x ∈ holds ↔ (x ∈ t ∧ ∀ p ∈ pre, x.holdId ≠ p.holdId) ∨
      ∃ p ∈ pre, x = release actor e p) {hf : ∀ r, (release actor e r).holdId = r.holdId}
    (x : AttemptHold) : x ∈ holds.modify h.holdId (release actor e) hf ↔
      (x ∈ t ∧ ∀ p ∈ pre ++ [h], x.holdId ≠ p.holdId) ∨
        ∃ p ∈ pre ++ [h], x = release actor e p := by
  have hh : h ∈ holds := (hholds h).mpr (Or.inl ⟨ht, fun p hp => (hpre p hp).symm⟩)
  rw [Table.mem_modify_of_mem hh, hholds x]
  simp only [List.mem_append, List.mem_singleton, or_imp, forall_and, forall_eq, or_and_right,
    exists_or, exists_eq_left]
  constructor
  · rintro ((⟨⟨hx, hp⟩, hne⟩ | ⟨⟨p, hp, rfl⟩, _⟩) | rfl)
    · exact Or.inl ⟨hx, hp, fun hid => hne (Table.eq_of_key hx ht hid)⟩
    · exact Or.inr (Or.inl ⟨p, hp, rfl⟩)
    · exact Or.inr (Or.inr rfl)
  · rintro (⟨hx, hp, hid⟩ | ⟨p, hp, rfl⟩ | rfl)
    · exact Or.inl (Or.inl ⟨⟨hx, hp⟩, fun he => hid (he ▸ rfl)⟩)
    · exact Or.inl (Or.inr ⟨⟨p, hp, rfl⟩, fun he => hpre p hp ((hf p).symm.trans (congrArg AttemptHold.holdId he))⟩)
    · exact Or.inr rfl

theorem releaseHolds_spec :
    (releaseHolds actor e).wp A (fun _ => True) (fun _ c' w' => (∃ holds,
      Lifting actor e c.holds holds ∧ c' = { c with holds := holds }) ∧ w' = w) c w := by
  simp only [releaseHolds, Txn.wp_bind, Ref.wp_select, Tables.holds_view]
  have hnodup : ((c.holds.select (activeHold e.attempt)).map AttemptHold.holdId).Nodup :=
    c.holds.nodup.sublist (List.filter_sublist.map _)
  refine Txn.wp_post (Txn.wp_forEach (fun (pre : List AttemptHold) c' w' => (∃ holds,
    (∀ x, x ∈ holds ↔ (x ∈ c.holds ∧ ∀ p ∈ pre, x.holdId ≠ p.holdId) ∨
      ∃ p ∈ pre, x = release actor e p) ∧ c' = { c with holds := holds }) ∧ w' = w)
    ⟨⟨c.holds, by simp, rfl⟩, rfl⟩ ?_) ?_
  · rintro pre h post _ _ hx ⟨⟨holds, hholds, rfl⟩, rfl⟩
    have hm : h ∈ c.holds.select (activeHold e.attempt) :=
      hx ▸ List.mem_append_right _ List.mem_cons_self
    rw [hx, List.map_append, List.map_cons, List.nodup_append] at hnodup
    have hpre : ∀ p ∈ pre, p.holdId ≠ h.holdId := fun p hp =>
      hnodup.2.2 _ (List.mem_map_of_mem hp) _ List.mem_cons_self
    simp only [Ref.wp_update, implies_true, true_and, and_true, Tables.holds_put, Tables.holds_view]
    exact fun _ _ => ⟨_, releaseHolds_step (Table.mem_select.mp hm).1 hpre hholds, rfl⟩
  · rintro _ _ _ ⟨⟨holds, hholds, rfl⟩, rfl⟩
    refine ⟨⟨holds, fun x => ?_, rfl⟩, rfl⟩
    rw [hholds x]
    simp only [Table.mem_select, and_imp]
    constructor
    · rintro (⟨hx, hp⟩ | ⟨p, ⟨hp, ha⟩, rfl⟩)
      · refine Or.inl ⟨hx, ?_⟩
        by_contra ha
        exact hp x hx (by simpa using ha) rfl
      · exact Or.inr ⟨p, hp, ha, rfl⟩
    · rintro (⟨hx, ha⟩ | ⟨p, hp, ha, rfl⟩)
      · refine Or.inl ⟨hx, fun p hp hpa hid => ?_⟩
        obtain rfl := Table.eq_of_key hx hp hid
        rw [ha] at hpa
        cases hpa
      · exact Or.inr ⟨p, ⟨hp, ha⟩, rfl⟩

theorem applyEntry_spec :
    (applyEntry actor e).wp A (fun _ => True)
      (fun _ c' w' => Applying actor e c c' ∧ w' = w) c w := by
  have happly : ∀ {gens}, Entombing e c.generations gens → (do
      requestDeletion e
      releaseHolds actor e
      pure true : Tx Bool).wp A (fun _ => True)
        (fun _ c' w' => Applying actor e c c' ∧ w' = w) { c with generations := gens } w := by
    intro gens hgens
    rw [Txn.wp_bind]
    refine Txn.wp_post requestDeletion_spec ?_
    rintro _ _ w ⟨⟨deletions, hdel, rfl⟩, rfl⟩
    rw [Txn.wp_bind]
    refine Txn.wp_post releaseHolds_spec ?_
    rintro _ _ w ⟨⟨holds, hholds, rfl⟩, rfl⟩
    exact ⟨.applied hgens hdel hholds, rfl⟩
  simp only [applyEntry, Txn.wp_bind, Txn.wp_lock, Ref.wp_get, Tables.generations_view]
  split
  · next h =>
    rw [Txn.wp_bind, Ref.wp_insert]
    exact ⟨fun _ => trivial, fun _ => happly (.first h)⟩
  · next g h =>
    simp only [Txn.wp_ite, Txn.wp_bind, Txn.wp_raiseIf, Txn.wp_pure, Ref.wp_update, implies_true,
      true_and, and_true, not_lt]
    exact ⟨fun hg hd => .stale h hg hd, fun hg _ _ => by simpa using happly (.known h hg)⟩

theorem applyEntries_spec {es : List TombstoneEntry} :
    (applyEntries actor es).wp A (fun _ => True)
      (fun _ c' w' => Txn.Chain (Applying actor) es c c' ∧ w' = w) c w := by
  induction es generalizing c with
  | nil => exact ⟨.nil, rfl⟩
  | cons e es ih =>
    rw [applyEntries, Txn.wp_bind]
    refine Txn.wp_post applyEntry_spec ?_
    rintro applied c' w ⟨h, rfl⟩
    rw [Txn.wp_bind]
    refine Txn.wp_post ih ?_
    rintro counts c'' w ⟨hs, rfl⟩
    exact ⟨.cons h hs, rfl⟩

theorem applyCompletedTombstones_spec {b : TombstoneBundle} {now : Instant} :
    (applyCompletedTombstones b actor now).wp A (fun _ => True)
      (fun _ c' w' => Importing actor b c c' ∧ w' = w) c w := by
  simp only [applyCompletedTombstones, Txn.wp_bind, Txn.wp_raiseIf, Ref.wp_get, implies_true,
    true_and, Tables.imports_view]
  intro _
  split
  · next h => exact ⟨.replayed h, rfl⟩
  · rw [Txn.wp_bind]
    refine Txn.wp_post applyEntries_spec ?_
    rintro counts c' w ⟨h, rfl⟩
    simp only [Txn.wp_bind, Ref.wp_insert, Txn.wp_pure, implies_true, true_and, and_true,
      Tables.imports_put]
    exact fun _ => .imported h

end spec

end Recovery

end RankLens
