import RankLens.Export

namespace RankLens

namespace Recovery

variable {tools : RestoreTools} {b : TombstoneBundle} {bytes bytes' : Bytes}
  {secret actor actor' digest : String} {now now' : Instant} {c c' : Catalog} {w w' : ObjectStore}
  {r : TombstoneImportResult}

/-- The application of a bundle reports a replay and changes no row. -/
def ReplayOnly (tools : RestoreTools) (bytes : Bytes) (secret actor : String) (now : Instant)
    (c : Catalog) (w : ObjectStore) : Prop :=
  ∃ r, (applyBundle tools bytes secret actor now).atomically c w = (.ok r, c, w) ∧
    r.replayed = true

theorem checkEntries_digest {createdAt : Instant} {entries : List TombstoneEntry}
    (h : checkEntries digest createdAt entries = .ok b) : b.sha256 = digest := by
  unfold checkEntries at h
  split at h
  · obtain rfl := Except.ok.inj h
    rfl
  · cases h

theorem parsePayload_digest {payload : JsonValue} (h : parsePayload tools digest payload = .ok b) :
    b.sha256 = digest := by
  unfold parsePayload at h
  split at h
  · split at h
    · split at h
      · split at h
        · cases h
        · cases h
        · exact checkEntries_digest h
      · cases h
    · cases h
  · cases h

theorem parseBundle_digest (h : parseBundle tools bytes secret = .ok b) :
    b.sha256 = tools.sha256 bytes := by
  unfold parseBundle at h
  split at h
  · cases h
  unfold readBundle at h
  split at h
  · cases h
  unfold parseEnvelope at h
  split at h
  · split at h
    · split at h
      · exact parsePayload_digest h
      · cases h
    · cases h
    · cases h
  · cases h

theorem applyCompletedTombstones_remembers : (applyCompletedTombstones b actor now).wp
    (fun _ => True) (fun _ => True) (fun r c' _ =>
      (∀ sha, c'.imports.get sha ≠ none ↔ sha = b.sha256 ∨ c.imports.get sha ≠ none) ∧
        (r.replayed = true → c.imports.get b.sha256 ≠ none)) c w := by
  simp only [applyCompletedTombstones, Txn.wp_bind, Txn.wp_raiseIf, Ref.wp_get, implies_true,
    true_and, Tables.imports_view]
  intro _
  split
  · next x hx =>
    have known : c.imports.get b.sha256 ≠ none := by
      rw [hx]
      exact Option.some_ne_none _
    refine ⟨fun sha => ⟨.inr, ?_⟩, fun _ => known⟩
    rintro (rfl | h)
    · exact known
    · exact h
  · next hnone =>
    rw [Txn.wp_bind]
    refine Txn.wp_post applyEntries_spec ?_
    rintro counts c' w ⟨hchain, rfl⟩
    simp only [Txn.wp_bind, Ref.wp_insert, Txn.wp_pure, implies_true, true_and,
      Tables.imports_put, Tables.imports_view]
    refine fun _ => ⟨fun sha => ?_, by rintro ⟨⟩⟩
    rw [chain_imports hchain, Table.get_insert hnone]
    split
    · next hsha => exact iff_of_true (Option.some_ne_none _) (.inl hsha.symm)
    · next hsha => exact ⟨.inr, Or.rec (fun he => absurd he.symm hsha) id⟩

theorem applyBundle_accepted (h : parseBundle tools bytes secret = .ok b)
    (hactor : identifier 128 [] actor = true) :
    applyBundle tools bytes secret actor now = applyCompletedTombstones b actor now := by
  rw [applyBundle_eq hactor, h]

theorem actor_of_applied (h : (applyBundle tools bytes secret actor now).atomically c w =
    (.ok r, c', w')) : identifier 128 [] actor = true := by
  cases hactor : identifier 128 [] actor with
  | true => rfl
  | false =>
    obtain ⟨e, he⟩ := @applyBundle_refused tools bytes secret actor now hactor
    rw [he] at h
    cases (Prod.mk.inj h).1

theorem atomically_of_run {t : Tx TombstoneImportResult} (h : t.run c w = (.ok (r, c'), w')) :
    t.atomically c w = (.ok r, c', w') := by
  rw [Txn.atomically, h]

theorem atomically_of_fst {t : Tx TombstoneImportResult} (h : (t.run c w).1 = .ok (r, c')) :
    t.atomically c w = (.ok r, c', (t.run c w).2) :=
  atomically_of_run (Prod.ext h rfl)

theorem run_of_atomically {t : Tx TombstoneImportResult}
    (h : t.atomically c w = (.ok r, c', w')) : t.run c w = (.ok (r, c'), w') := by
  unfold Txn.atomically at h
  split at h
  · next hrun =>
    obtain ⟨rfl, rfl, rfl⟩ := by simpa using h
    exact hrun
  · exact absurd (Prod.mk.inj h).1 nofun

theorem replayOnly_of_known (h : parseBundle tools bytes secret = .ok b)
    (hactor : identifier 128 [] actor = true) (hknown : c.imports.get (tools.sha256 bytes) ≠ none) :
    ReplayOnly tools bytes secret actor now c w := by
  obtain ⟨x, hx⟩ := Option.ne_none_iff_exists'.mp hknown
  rw [← parseBundle_digest h] at hx
  have returns : (applyCompletedTombstones b actor now).wp (fun _ => True) (fun _ => False)
      (fun r c' w' => r.replayed = true ∧ c' = c ∧ w' = w) c w := by
    simp only [applyCompletedTombstones, Txn.wp_bind, Txn.wp_raiseIf, Ref.wp_get,
      Tables.imports_view, hx, Txn.wp_pure, hactor]
    exact ⟨by rintro ⟨⟩, fun _ => ⟨trivial, trivial, trivial⟩⟩
  obtain ⟨r, c', w', hrun, hr, rfl, rfl⟩ := Txn.run_returns returns
  refine ⟨r, ?_, hr⟩
  rw [applyBundle_accepted h hactor]
  exact atomically_of_run hrun

theorem known_of_replayOnly (h : parseBundle tools bytes secret = .ok b)
    (hr : ReplayOnly tools bytes secret actor now c w) :
    c.imports.get (tools.sha256 bytes) ≠ none := by
  obtain ⟨r, hrun, hreplayed⟩ := hr
  rw [applyBundle_accepted h (actor_of_applied hrun)] at hrun
  obtain ⟨-, known⟩ := Txn.run_of_wp applyCompletedTombstones_remembers (run_of_atomically hrun)
  rw [← parseBundle_digest h]
  exact known hreplayed

theorem applied_imports (h : (applyBundle tools bytes secret actor now).atomically c w =
    (.ok r, c', w')) (sha : String) :
    c'.imports.get sha ≠ none ↔ sha = tools.sha256 bytes ∨ c.imports.get sha ≠ none := by
  have hactor := actor_of_applied h
  cases hb : parseBundle tools bytes secret with
  | error e =>
    rw [applyBundle_eq hactor, hb] at h
    cases (Prod.mk.inj h).1
  | ok b =>
    rw [applyBundle_accepted hb hactor] at h
    obtain ⟨remembered, -⟩ :=
      Txn.run_of_wp applyCompletedTombstones_remembers (run_of_atomically h)
    rw [← parseBundle_digest hb]
    exact remembered sha

/-- After a bundle was applied, and whatever else has happened to the other tables since, a bundle
that is accepted is a replay just when it has the same digest or was imported before. -/
theorem replay_iff (h₁ : (applyBundle tools bytes secret actor now).atomically c w = (.ok r, c', w'))
    (h₂ : parseBundle tools bytes' secret = .ok b) (hactor : identifier 128 [] actor' = true)
    (others : Catalog) (store : ObjectStore) :
    ReplayOnly tools bytes' secret actor' now' { others with imports := c'.imports } store ↔
      tools.sha256 bytes' = tools.sha256 bytes ∨ c.imports.get (tools.sha256 bytes') ≠ none :=
  (Iff.intro (known_of_replayOnly h₂) (replayOnly_of_known h₂ hactor)).trans
    (applied_imports h₁ (tools.sha256 bytes'))

end Recovery

namespace Sample

/-- The tools that also read the exported bundle with a line break after it. -/
def lenientTools : RestoreTools :=
  { unreadable "acme" with
    loads := fun bytes =>
      if bytes = Recovery.canonical (exported "acme") ∨
          bytes = Recovery.canonical (exported "acme") ++ [10] then some (exported "acme") else none
    sha256 := fun bytes =>
      if bytes = Recovery.canonical (exported "acme") then
        "10a04160e1f7ee2c03e5511d8462420a8c0eb7761b0d31f16bc2c5297f2d988e"
      else "c2fcbd17a8a278e16263aadc124a2a23a77c2c9264862afc299ab78b17f9e876" }

end Sample

namespace Recovery

/-- What the signature of an envelope is about: its payload, as it is written for it. -/
def signedPayload (tools : RestoreTools) (bytes : Bytes) : Option Bytes :=
  match tools.loads bytes with
  | some (.object members) => (JsonValue.member members "payload").map canonical
  | _ => none

theorem exists_ok {ε α : Type} {x : Except ε α} (h : x.toOption.isSome = true) :
    ∃ a, x = .ok a := by
  cases x with
  | error e => exact absurd h nofun
  | ok a => exact ⟨a, rfl⟩

theorem applyBundle_sample : ∃ r c' w', (applyBundle Sample.lenientTools
    (canonical (Sample.exported "acme")) Sample.signingSecret "operator" 9).atomically .empty
      (fun _ => none) = (.ok r, c', w') := by
  obtain ⟨⟨r, c'⟩, h⟩ := exists_ok (x := ((applyBundle Sample.lenientTools
    (canonical (Sample.exported "acme")) Sample.signingSecret "operator" 9).run .empty
      (fun _ => none)).1) (by decide +kernel)
  exact ⟨r, c', _, atomically_of_fst h⟩

theorem replay_iff_same : ∃ c' : Catalog,
    ReplayOnly Sample.lenientTools (canonical (Sample.exported "acme")) Sample.signingSecret
      "operator" 10 { Catalog.empty with imports := c'.imports } (fun _ => none) := by
  obtain ⟨r, c', w', h⟩ := applyBundle_sample
  obtain ⟨b, hb⟩ := exists_ok (x := parseBundle Sample.lenientTools
    (canonical (Sample.exported "acme")) Sample.signingSecret) (by decide +kernel)
  exact ⟨c', (replay_iff h hb (by decide +kernel) .empty _).mpr (.inl rfl)⟩

/-- A bundle with a line break after it is applied again. -/
theorem respelled_reapplied : ¬ ∀ (tools : RestoreTools) (bytes bytes' : Bytes) (secret actor : String)
    (now now' : Instant) (c c' : Catalog) (w w' : ObjectStore) (r : TombstoneImportResult),
    signedPayload tools bytes = signedPayload tools bytes' →
    (parseBundle tools bytes' secret).toOption.isSome = true →
    (applyBundle tools bytes secret actor now).atomically c w = (.ok r, c', w') →
    ReplayOnly tools bytes' secret actor now' c' w' := by
  intro h
  obtain ⟨r, c', w', happly⟩ := applyBundle_sample
  have accepted : (parseBundle Sample.lenientTools (canonical (Sample.exported "acme") ++ [10])
      Sample.signingSecret).toOption.isSome = true := by decide +kernel
  have replay := h _ _ (canonical (Sample.exported "acme") ++ [10]) _ _ 9 10 _ _ _ _ r
    (by decide +kernel) accepted happly
  obtain ⟨b, hb⟩ := exists_ok accepted
  obtain hsha | hknown := (applied_imports happly _).mp (known_of_replayOnly hb replay)
  · exact absurd hsha (by decide +kernel)
  · exact hknown rfl

end Recovery

end RankLens
