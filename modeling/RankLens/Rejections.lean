import RankLens.Deployment

namespace RankLens

namespace IngestionService

variable {env : Env} {settings : IngestionSettings} {faults : Faults} {f : Flight}
  {freshReceipt freshOutbox : Uuid} {committedAt : Instant} {c : Catalog} {w : ObjectStore}

def deletionFenced : Failure :=
  conflict "deletion_fenced_admission" "deletion policy changed while the object was being stored"
    false

def sequenceOverlap : Failure :=
  conflict "sequence_overlap" "segment overlaps an admitted sequence range" false

def attemptDeleted : Failure := conflict "attempt_deleted" "attempt no longer accepts telemetry" false

/-- The reservation of a flight is reserved. -/
def HeldOpen (f : Flight) (c : Catalog) : Prop :=
  ∃ r, c.reservations.get f.reservationId = some r ∧ r.state = .reserved

theorem wp_top {α : Type} (t : Tx α) (c : Catalog) (w : ObjectStore) :
    t.wp (fun _ => True) (fun _ => True) (fun _ _ _ => True) c w := by
  induction t generalizing c w with
  | done a => trivial
  | fail e => trivial
  | acquire l t ih => exact ih c w
  | query k ih => exact ih c c w
  | change f t ih => exact ih (f c) w
  | effect f k ih => exact ⟨trivial, ih w c (f w)⟩

theorem currentGeneration_reservations {tenantId : String} {segment : SegmentUpload}
    {E : Failure → Prop} (hdeleted : E attemptDeleted) :
    (currentGeneration tenantId segment).wp (fun _ => True) E
      (fun _ c' _ => c'.reservations = c.reservations) c w := by
  refine Txn.wp_post (currentGeneration_opened (fun _ _ _ => hdeleted)) ?_
  rintro _ _ _ ⟨-, _, -, rfl⟩
  rfl

/-- The checks of the second transaction that write a terminal state come after that of the
reservation. -/
theorem admitCommit_rejects : (admitCommit env settings faults f freshReceipt freshOutbox
    committedAt).wp (fun _ => True) (fun e => e = deletionFenced ∨ e = sequenceOverlap → HeldOpen f c)
      (fun _ _ _ => True) c w := by
  have other : ∀ e, e = Failure.integrity ∨ e = reservationExpired ∨ e = attemptDeleted →
      (e = deletionFenced ∨ e = sequenceOverlap → HeldOpen f c) := by
    rintro e (rfl | rfl | rfl) (h | h) <;> exact absurd h (by decide)
  unfold admitCommit
  simp only [lockAdmission, Txn.wp_bind, Txn.wp_lock]
  refine Txn.wp_post (currentGeneration_reservations (other _ (.inr (.inr rfl)))) ?_
  intro g c' w' hreservations
  simp only [Ref.wp_get]
  split
  · exact other _ (.inr (.inl rfl))
  · next r hget =>
    simp only [Txn.wp_bind, Txn.wp_raiseIf]
    refine ⟨fun _ => other _ (.inr (.inl rfl)), fun hstate => ?_⟩
    have held : HeldOpen f c := ⟨r, hreservations ▸ hget, not_not.mp hstate⟩
    exact Txn.wp_mono (fun _ h => h) (fun _ _ _ => held) (fun _ _ _ h => h) (wp_top _ _ _)

/-- The reservation of a flight is closed, and nothing else is changed. -/
def Closes (f : Flight) (c c' : Catalog) : Prop :=
  ∃ state, (state = .fenced ∨ state = .conflicted) ∧ c' = { c with
    reservations := c.reservations.modify f.reservationId (setState state) (fun _ => rfl) }

theorem HeldOpen.not_closed (h : HeldOpen f c) : ¬Closes f c c := by
  rintro ⟨state, hstate, hc⟩
  obtain ⟨r, hget, hr⟩ := h
  have got := congrArg (fun t => t.get f.reservationId) (congrArg Catalog.reservations hc)
  have modified : (c.reservations.modify f.reservationId (setState state) (fun _ => rfl)).get
      f.reservationId = some (setState state r) := Table.get_modify_self hget
  rw [modified, hget] at got
  have same := congrArg AdmissionReservation.state (Option.some.inj got)
  rw [hr] at same
  obtain rfl | rfl := hstate
  · cases same
  · cases same

end IngestionService

namespace Deployment

open IngestionService

variable {env : Env} {settings : IngestionSettings} {s s' : State} {ticket : Nat} {faults : Faults}
  {freshReceipt freshOutbox : Uuid} {committedAt : Instant} {e : Failure} {f : Flight}

theorem rejected_open (hs : Step env settings s
    (.admitCommit ticket faults freshReceipt freshOutbox committedAt) (.raised e) s')
    (hf : flightAt s.memory ticket true = some f) :
    s'.catalog = s.catalog ∧ (e = deletionFenced ∨ e = sequenceOverlap → HeldOpen f s.catalog) := by
  obtain @⟨_, _, h⟩ := hs
  have found : program env settings s.memory
      (.admitCommit ticket faults freshReceipt freshOutbox committedAt) = some (.receipt <$>
        admitCommit env settings faults f freshReceipt freshOutbox committedAt) := by
    rw [program, hf, Option.map_some]
  have rejects : (Reply.receipt <$> admitCommit env settings faults f freshReceipt freshOutbox
      committedAt : Tx Reply).wp (fun _ => True)
        (fun e => e = deletionFenced ∨ e = sequenceOverlap → HeldOpen f s.catalog)
        (fun _ _ _ => True) s.catalog s.objects := Txn.wp_map.mpr admitCommit_rejects
  rw [State.run, found] at h
  simp only [Txn.atomically] at h
  split at h
  · cases h
  · next hrun =>
    split at hrun
    · cases hrun
    · next herror =>
      cases hrun
      cases h
      exact ⟨rfl, Txn.run_error_of_wp rejects herror⟩

/-- No rejection of a segment whose reservation is held closes it. -/
theorem rejection_rolled_back (hs : Step env settings s
    (.admitCommit ticket faults freshReceipt freshOutbox committedAt) (.raised e) s')
    (hf : flightAt s.memory ticket true = some f)
    (he : e = deletionFenced ∨ e = sequenceOverlap ∨ (e = attemptDeleted ∧ HeldOpen f s.catalog)) :
    ¬Closes f s.catalog s'.catalog ∧ HeldOpen f s'.catalog := by
  obtain ⟨hsame, hopen⟩ := rejected_open hs hf
  have held : HeldOpen f s.catalog := by
    obtain he | he | ⟨-, hheld⟩ := he
    · exact hopen (.inl he)
    · exact hopen (.inr he)
    · exact hheld
  rw [hsame]
  exact ⟨held.not_closed, held⟩

/-- Two records from the range that `upload₁` begins. -/
def twoRecords : Bytes := [123, 125, 10, 123, 125, 10]

def twoRecordsDigest : String := "3b00ba5361676a0a8152642a6edaf54a222bd409b5774b5b461ac8d1cee09cb4"

def longer : SegmentUpload := ⟨{ Sample.fields "a1" with
  lastSequence := 1
  recordCount := 2
  expandedSizeBytes := 6
  payloadSha256 := twoRecordsDigest
  payloadBase64 := "e30Ke30K" }, by constructor <;> decide⟩

def digests : Env :=
  { Sample.env with
    sha256 := fun p => if p = twoRecords then twoRecordsDigest else Sample.sha256 p }

/-- The shorter range is stored when the longer one is admitted. -/
def overtaken : List Call :=
  [.admitReserve 0 Sample.principal Sample.upload₁ 1 0, .admitPut 0 Faults.none,
    .admitReserve 1 Sample.principal longer 2 0, .admitPut 1 Faults.none,
    .admitCommit 1 Faults.none 3 4 5]

theorem overtaken_refused : ∃ (s s' : State) (f : Flight),
    runCalls digests Sample.settings overtaken .initial = some s ∧
    flightAt s.memory 0 true = some f ∧
    Step digests Sample.settings s (.admitCommit 0 Faults.none 6 7 8) (.raised sequenceOverlap) s' := by
  have h : (runCalls digests Sample.settings overtaken .initial).map (fun s =>
      ((flightAt s.memory 0 true).isSome,
        (refusal digests Sample.settings s (.admitCommit 0 Faults.none 6 7 8)).map Prod.fst)) =
      some (true, some sequenceOverlap) := by decide +kernel
  obtain ⟨s, hs, h⟩ := Option.map_eq_some_iff.mp h
  obtain ⟨hf, hr⟩ := Prod.mk.inj h
  obtain ⟨f, hf⟩ := Option.isSome_iff_exists.mp hf
  obtain ⟨⟨e, s'⟩, hr, he⟩ := Option.map_eq_some_iff.mp hr
  cases he
  exact ⟨s, s', f, hs, hf, step_of_refusal _ _ hr⟩

theorem rejection_rolled_back_overtaken : ∃ (s s' : State) (f : Flight),
    runCalls digests Sample.settings overtaken .initial = some s ∧
    flightAt s.memory 0 true = some f ∧ ¬Closes f s.catalog s'.catalog ∧ HeldOpen f s'.catalog := by
  obtain ⟨s, s', f, hs, hf, hstep⟩ := overtaken_refused
  exact ⟨s, s', f, hs, hf, rejection_rolled_back hstep hf (.inr (.inl rfl))⟩

/-- The segment is rejected for its overlap, and the reservation stays reserved. -/
theorem overlap_left_open : ¬ ∀ (env : Env) (settings : IngestionSettings) (s s' : State)
    (ticket : Nat) (faults : Faults) (freshReceipt freshOutbox : Uuid) (committedAt : Instant)
    (f : Flight) (e : Failure), Reachable env settings s → flightAt s.memory ticket true = some f →
    Step env settings s (.admitCommit ticket faults freshReceipt freshOutbox committedAt) (.raised e)
      s' → (e = deletionFenced ∨ e = sequenceOverlap) → Closes f s.catalog s'.catalog := by
  intro h
  obtain ⟨s, s', f, hs, hf, hstep⟩ := overtaken_refused
  have closed := h _ _ _ _ _ _ _ _ _ f _ (run_of_runCalls _ _ .start hs) hf hstep (.inr rfl)
  obtain ⟨hsame, hopen⟩ := rejected_open hstep hf
  rw [hsame] at closed
  exact (hopen (.inr rfl)).not_closed closed

end Deployment

end RankLens
