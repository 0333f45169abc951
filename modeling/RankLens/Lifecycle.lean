import RankLens.Admission

namespace RankLens

/-- The characters `str.strip` removes. -/
def space (c : Char) : Bool :=
  (9 ≤ c.toNat && c.toNat ≤ 13) || (28 ≤ c.toNat && c.toNat ≤ 32) || c.toNat = 0x85 ||
    c.toNat = 0xa0 || c.toNat = 0x1680 || (0x2000 ≤ c.toNat && c.toNat ≤ 0x200a) ||
    c.toNat = 0x2028 || c.toNat = 0x2029 || c.toNat = 0x202f || c.toNat = 0x205f ||
    c.toNat = 0x3000

def strip (s : String) : String :=
  String.ofList ((s.toList.dropWhile space).reverse.dropWhile space).reverse

/-- A reason of one to 512 characters once stripped. -/
@[irreducible] def reasonInvalid (reason : String) : Bool := strip reason = "" || 512 < (strip reason).length

def activeHold (k : AttemptKey) (h : AttemptHold) : Bool := h.attempt = k && h.state = .active

/-- The answer of `delete_attempt`: the generation, or the holds that block it. -/
inductive Deleted where
  | generation (n : Nat)
  | held (holdIds : List Uuid)
deriving DecidableEq, Repr

namespace IngestionService

def blockedMessage : String := "physical erasure blocked by retention hold"

def activeHoldIds (k : AttemptKey) : Tx (List Uuid) :=
  Txn.read (fun c => ((c.holds.select (activeHold k)).map AttemptHold.holdId).insertionSort (· ≤ ·))

def newHold (k : AttemptKey) (holdId : Uuid) (reason credentialId : String) (now : Instant) :
    AttemptHold where
  holdId := holdId
  tenantId := k.tenantId
  clusterId := k.clusterId
  attemptId := k.attemptId
  reason := reason
  placedByCredentialId := credentialId
  releasedByCredentialId := none
  state := .active
  placedAt := now
  releasedAt := none

/-- A request behind a hold has no lease and is not completed. -/
def block (d : AttemptDeletion) : AttemptDeletion :=
  { d with
    state := .held
    leaseOwner := none
    leaseExpiresAt := none
    lastError := some blockedMessage
    completedAt := none }

def placeAttemptHold (k : AttemptKey) (holdId : Uuid) (reason credentialId : String)
    (now : Instant) : Tx Unit := do
  Txn.raiseIf (reasonInvalid reason = true)
    (.value "hold reason must contain between 1 and 512 characters")
  Txn.raiseIf (identifier 128 [] credentialId = false) (.value "placing credential ID is invalid")
  Txn.lock (.attempt k)
  let record ← Tables.records.get k
  let generation ← Tables.generations.get k
  Txn.raiseIf (record.isNone = true ∧ generation.isNone = true)
    (.value "cannot hold an unknown attempt")
  let deletion ← Tables.deletions.get k
  Txn.raiseIf (deletion.map AttemptDeletion.state = some .completed)
    (.value "cannot hold an attempt after erasure completed")
  let existing ← Tables.holds.get holdId
  match existing with
  | some existing => do
    Txn.raiseIf (existing.attempt ≠ k ∨ existing.reason ≠ strip reason)
      (.value "hold_id is already bound to different hold data")
    Txn.raiseIf (existing.state ≠ .active) (.value "a released hold_id cannot be reused")
  | none => do
    Tables.holds.insert .integrity (newHold k holdId (strip reason) credentialId now)
    match deletion with
    | none => pure ()
    | some _ => Tables.deletions.update .staleData k block

def release (credentialId : String) (now : Instant) (h : AttemptHold) : AttemptHold :=
  { h with
    state := .released
    releasedAt := some now
    releasedByCredentialId := some credentialId }

/-- Fence an attempt: its generation and the time it was fenced. -/
def fence (k : AttemptKey) (state : Option AttemptGeneration) (now : Instant) :
    Tx (Nat × Instant) :=
  match state with
  | none => do
    Tables.generations.insert .integrity ⟨k.tenantId, k.clusterId, k.attemptId, 1, some now⟩
    pure (1, now)
  | some state =>
    match state.deletedAt with
    | none => do
      Tables.generations.update .staleData k
        (fun r => { r with generation := state.generation + 1, deletedAt := some now })
      pure (state.generation + 1, now)
    | some deletedAt => pure (state.generation, deletedAt)

/-- A held request whose last hold is gone starts over. -/
def resume (generation : Nat) (d : AttemptDeletion) : AttemptDeletion :=
  { d with
    deletionGeneration := generation
    state := .pending
    attempts := 0
    leaseOwner := none
    leaseExpiresAt := none
    lastError := none
    completedAt := none }

/-- The part of `release_attempt_hold` after the last active hold is released. -/
def resumeDeletion (k : AttemptKey) (now : Instant) : Tx Bool := do
  let deletion ← Tables.deletions.get k
  if deletion.map AttemptDeletion.state = some .held then do
    let state ← Tables.generations.get k
    let fenced ← fence k state now
    Tables.deletions.update .staleData k (resume fenced.1)
    pure true
  else pure true

/-- The hold is read before the attempt is locked and not read again. -/
def releaseAttemptHold (holdId : Uuid) (credentialId : String)
    (expected : Option (String × Option String × Option String)) (releasedAt now : Instant) :
    Tx Bool := do
  Txn.raiseIf (identifier 128 [] credentialId = false) (.value "releasing credential ID is invalid")
  let hold ← Tables.holds.get holdId
  match hold with
  | none => Txn.raise (.value "retention hold does not exist")
  | some hold => do
    Txn.raiseIf (expected.any (fun e => decide (hold.tenantId ≠ e.1 ∨ some hold.clusterId ≠ e.2.1 ∨
      some hold.attemptId ≠ e.2.2)) = true) (.value "retention hold does not exist")
    Txn.lock (.attempt hold.attempt)
    if hold.state = .released then pure false
    else do
      Tables.holds.update .staleData holdId (release credentialId releasedAt)
      let active ← activeHoldIds hold.attempt
      if active = [] then resumeDeletion hold.attempt now else pure true

def newDeletion (k : AttemptKey) (generation : Nat) (state : DeletionState)
    (lastError : Option String) (requestedAt : Instant) : AttemptDeletion where
  tenantId := k.tenantId
  clusterId := k.clusterId
  attemptId := k.attemptId
  deletionGeneration := generation
  state := state
  attempts := 0
  leaseOwner := none
  leaseGeneration := 0
  leaseExpiresAt := none
  deletedSegmentObjects := 0
  retainedSharedObjects := 0
  deletedReportObjects := 0
  deletedCatalogRows := 0
  lastError := lastError
  requestedAt := requestedAt
  completedAt := none

def addUnfenced (k : AttemptKey) (state : Option AttemptGeneration) : Tx Unit :=
  match state with
  | none => Tables.generations.insert .integrity ⟨k.tenantId, k.clusterId, k.attemptId, 0, none⟩
  | some _ => pure ()

def blockDeletion (k : AttemptKey) (generation : Nat) (now : Instant) : Tx Unit := do
  let deletion ← Tables.deletions.get k
  match deletion with
  | none =>
    Tables.deletions.insert .integrity (newDeletion k generation .held (some blockedMessage) now)
  | some deletion =>
    if deletion.state = .completed then pure ()
    else Tables.deletions.update .staleData k block

/-- A request of an earlier generation starts over. -/
def requeue (generation : Nat) (requestedAt : Instant) (d : AttemptDeletion) : AttemptDeletion :=
  { d with
    deletionGeneration := generation
    state := .pending
    attempts := 0
    leaseOwner := none
    leaseExpiresAt := none
    lastError := none
    requestedAt := requestedAt
    completedAt := none }

def requestDeletion (k : AttemptKey) (generation : Nat) (requestedAt : Instant) : Tx Unit := do
  let deletion ← Tables.deletions.get k
  match deletion with
  | none => Tables.deletions.insert .integrity (newDeletion k generation .pending none requestedAt)
  | some deletion =>
    if deletion.deletionGeneration = generation then pure ()
    else Tables.deletions.update .staleData k (requeue generation requestedAt)

/-- `DeletionHeldError` is raised once the transaction has committed. -/
def deleteAttempt (k : AttemptKey) (now : Instant) : Tx Deleted := do
  Txn.lock (.attempt k)
  let state ← Tables.generations.get k
  let blockedHolds ← activeHoldIds k
  if blockedHolds = [] then do
    let fenced ← fence k state now
    requestDeletion k fenced.1 fenced.2
    pure (.generation fenced.1)
  else do
    addUnfenced k state
    blockDeletion k ((state.map AttemptGeneration.generation).getD 0) now
    pure (.held blockedHolds)

section spec

variable {c : Catalog} {w : ObjectStore} {A : ObjectStore → Prop} {k : AttemptKey}

theorem activeHoldIds_eq_nil :
    ((c.holds.select (activeHold k)).map AttemptHold.holdId).insertionSort (· ≤ ·) = [] ↔
      ∀ h ∈ c.holds, activeHold k h = false := by
  rw [← List.length_eq_zero_iff, List.length_insertionSort, List.length_map,
    List.length_eq_zero_iff, List.eq_nil_iff_forall_not_mem]
  simp only [Table.mem_select, not_and, Bool.not_eq_true]

inductive Fencing (k : AttemptKey) (now : Instant) (t : Table AttemptGeneration.attempt) :
    Nat × Instant → Table AttemptGeneration.attempt → Prop where
  | first (h : t.get k = none) : Fencing k now t (1, now)
      (t.insert ⟨k.tenantId, k.clusterId, k.attemptId, 1, some now⟩)
  | live {r : AttemptGeneration} (h : t.get k = some r) (hd : r.deletedAt = none) :
      Fencing k now t (r.generation + 1, now) (t.modify k
        (fun x => { x with generation := r.generation + 1, deletedAt := some now }) (fun _ => rfl))
  | already {r : AttemptGeneration} {d : Instant} (h : t.get k = some r)
      (hd : r.deletedAt = some d) : Fencing k now t (r.generation, d) t

theorem fence_spec {state : Option AttemptGeneration} {now : Instant}
    (h : c.generations.get k = state) :
    (fence k state now).wp A (fun _ => True)
      (fun g c' w' => w' = w ∧ ∃ gens, Fencing k now c.generations g gens ∧
        c' = { c with generations := gens }) c w := by
  unfold fence
  split
  · simp only [Txn.wp_bind, Ref.wp_insert, Txn.wp_pure, Tables.generations_put,
      Tables.generations_view, implies_true, true_and]
    exact fun _ => ⟨_, .first h, rfl⟩
  · split
    · next hd =>
      simp only [Txn.wp_bind, Ref.wp_update, Txn.wp_pure, Tables.generations_put,
        Tables.generations_view, implies_true, true_and]
      exact fun _ _ => ⟨_, .live h hd, rfl⟩
    · next hd => exact ⟨rfl, _, .already h hd, rfl⟩

inductive Blocking (k : AttemptKey) (generation : Nat) (now : Instant)
    (t : Table AttemptDeletion.attempt) : Table AttemptDeletion.attempt → Prop where
  | new (h : t.get k = none) : Blocking k generation now t
      (t.insert (newDeletion k generation .held (some blockedMessage) now))
  | completed {d : AttemptDeletion} (h : t.get k = some d) (hs : d.state = .completed) :
      Blocking k generation now t t
  | blocked {d : AttemptDeletion} (h : t.get k = some d) (hs : d.state ≠ .completed) :
      Blocking k generation now t (t.modify k block (fun _ => rfl))

inductive Requesting (k : AttemptKey) (generation : Nat) (requestedAt : Instant)
    (t : Table AttemptDeletion.attempt) : Table AttemptDeletion.attempt → Prop where
  | new (h : t.get k = none) : Requesting k generation requestedAt t
      (t.insert (newDeletion k generation .pending none requestedAt))
  | same {d : AttemptDeletion} (h : t.get k = some d) (hg : d.deletionGeneration = generation) :
      Requesting k generation requestedAt t t
  | again {d : AttemptDeletion} (h : t.get k = some d) (hg : d.deletionGeneration ≠ generation) :
      Requesting k generation requestedAt t
        (t.modify k (requeue generation requestedAt) (fun _ => rfl))

inductive Unfenced (k : AttemptKey) (t : Table AttemptGeneration.attempt) :
    Table AttemptGeneration.attempt → Prop where
  | new (h : t.get k = none) :
      Unfenced k t (t.insert ⟨k.tenantId, k.clusterId, k.attemptId, 0, none⟩)
  | same : Unfenced k t t

inductive Deleting (k : AttemptKey) (now : Instant) (c : Catalog) : Deleted → Catalog → Prop where
  | blocked {ids : List Uuid} {gens : Table AttemptGeneration.attempt}
      {deletions : Table AttemptDeletion.attempt} {g : Nat}
      (hold : ∃ h ∈ c.holds, activeHold k h = true) (hgens : Unfenced k c.generations gens)
      (hdel : Blocking k g now c.deletions deletions) :
      Deleting k now c (.held ids) { c with generations := gens, deletions := deletions }
  | fenced {g : Nat × Instant} {gens : Table AttemptGeneration.attempt}
      {deletions : Table AttemptDeletion.attempt} (hfree : ∀ h ∈ c.holds, activeHold k h = false)
      (hgens : Fencing k now c.generations g gens)
      (hdel : Requesting k g.1 g.2 c.deletions deletions) :
      Deleting k now c (.generation g.1) { c with generations := gens, deletions := deletions }

theorem requestDeletion_spec {g : Nat} {requestedAt : Instant} :
    (requestDeletion k g requestedAt).wp A (fun _ => True)
      (fun _ c' w' => w' = w ∧ ∃ deletions, Requesting k g requestedAt c.deletions deletions ∧
        c' = { c with deletions := deletions }) c w := by
  simp only [requestDeletion, Txn.wp_bind, Ref.wp_get, Tables.deletions_view]
  split
  · next h =>
    simp only [Ref.wp_insert, Tables.deletions_put, Tables.deletions_view, implies_true, true_and]
    exact fun _ => ⟨_, .new h, rfl⟩
  · next d h =>
    simp only [Txn.wp_ite, Txn.wp_pure, Ref.wp_update, Tables.deletions_put, Tables.deletions_view,
      implies_true, true_and]
    exact ⟨fun hg => ⟨_, .same h hg, rfl⟩, fun hg _ _ => ⟨_, .again h hg, rfl⟩⟩

theorem blockDeletion_spec {g : Nat} {now : Instant} :
    (blockDeletion k g now).wp A (fun _ => True)
      (fun _ c' w' => w' = w ∧ ∃ deletions, Blocking k g now c.deletions deletions ∧
        c' = { c with deletions := deletions }) c w := by
  simp only [blockDeletion, Txn.wp_bind, Ref.wp_get, Tables.deletions_view]
  split
  · next h =>
    simp only [Ref.wp_insert, Tables.deletions_put, Tables.deletions_view, implies_true, true_and]
    exact fun _ => ⟨_, .new h, rfl⟩
  · next d h =>
    simp only [Txn.wp_ite, Txn.wp_pure, Ref.wp_update, Tables.deletions_put, Tables.deletions_view,
      implies_true, true_and]
    exact ⟨fun hs => ⟨_, .completed h hs, rfl⟩, fun hs _ _ => ⟨_, .blocked h hs, rfl⟩⟩

theorem addUnfenced_spec {state : Option AttemptGeneration} (h : c.generations.get k = state) :
    (addUnfenced k state).wp A (fun _ => True)
      (fun _ c' w' => w' = w ∧ ∃ gens, Unfenced k c.generations gens ∧
        c' = { c with generations := gens }) c w := by
  unfold addUnfenced
  split
  · simp only [Ref.wp_insert, Tables.generations_put, Tables.generations_view, implies_true,
      true_and]
    exact fun _ => ⟨_, .new h, rfl⟩
  · exact ⟨rfl, _, .same, rfl⟩

theorem deleteAttempt_spec {now : Instant} :
    (deleteAttempt k now).wp A (fun _ => True)
      (fun a c' w' => Deleting k now c a c' ∧ w' = w) c w := by
  simp only [deleteAttempt, activeHoldIds, Txn.wp_bind, Txn.wp_lock, Ref.wp_get, Txn.wp_read,
    Txn.wp_ite, Tables.generations_view, activeHoldIds_eq_nil]
  refine ⟨fun hfree => ?_, fun hold => ?_⟩
  · refine Txn.wp_post (fence_spec rfl) ?_
    rintro g _ _ ⟨rfl, gens, hgens, rfl⟩
    refine Txn.wp_post requestDeletion_spec ?_
    rintro _ _ _ ⟨rfl, deletions, hdel, rfl⟩
    exact ⟨.fenced hfree hgens hdel, rfl⟩
  · refine Txn.wp_post (addUnfenced_spec rfl) ?_
    rintro _ _ _ ⟨rfl, gens, hgens, rfl⟩
    refine Txn.wp_post blockDeletion_spec ?_
    rintro _ _ _ ⟨rfl, deletions, hdel, rfl⟩
    refine ⟨.blocked ?_ hgens hdel, rfl⟩
    simpa using hold

inductive Placing (k : AttemptKey) (holdId : Uuid) (reason credentialId : String) (now : Instant)
    (c : Catalog) : Catalog → Prop where
  | again {h : AttemptHold} (hget : c.holds.get holdId = some h) (hk : h.attempt = k)
      (hs : h.state = .active) : Placing k holdId reason credentialId now c c
  | unrequested (hnew : c.holds.get holdId = none) (hdel : c.deletions.get k = none) :
      Placing k holdId reason credentialId now c
        { c with holds := c.holds.insert (newHold k holdId (strip reason) credentialId now) }
  | requested {d : AttemptDeletion} (hnew : c.holds.get holdId = none)
      (hdel : c.deletions.get k = some d) (hs : d.state ≠ .completed) :
      Placing k holdId reason credentialId now c
        { c with
          holds := c.holds.insert (newHold k holdId (strip reason) credentialId now)
          deletions := c.deletions.modify k block (fun _ => rfl) }

theorem placeAttemptHold_spec {holdId : Uuid} {reason credentialId : String} {now : Instant} :
    (placeAttemptHold k holdId reason credentialId now).wp A (fun _ => True)
      (fun _ c' w' => Placing k holdId reason credentialId now c c' ∧ w' = w) c w := by
  simp only [placeAttemptHold, Txn.wp_bind, Txn.wp_raiseIf, Txn.wp_lock, Ref.wp_get, implies_true,
    true_and, Tables.deletions_view, Tables.holds_view]
  intro _ _ _ hs
  split
  · next h hget =>
    simp only [Txn.wp_bind, Txn.wp_raiseIf, implies_true, true_and, and_true, not_or, not_not]
    exact fun hb hs => .again hget hb.1 hs
  · next hnew =>
    simp only [Txn.wp_bind, Ref.wp_insert, implies_true, true_and, Tables.holds_view,
      Tables.holds_put]
    intro _
    split
    · next hdel => exact ⟨.unrequested hnew hdel, rfl⟩
    · next d hdel =>
      simp only [Ref.wp_update, implies_true, true_and, Tables.deletions_view, Tables.deletions_put,
        and_true]
      rw [hdel] at hs
      exact fun _ _ => .requested hnew hdel (by simpa using hs)

inductive Releasing (holdId : Uuid) (credentialId : String) (releasedAt now : Instant)
    (c : Catalog) : Bool → Catalog → Prop where
  | already {h : AttemptHold} (hget : c.holds.get holdId = some h) (hs : h.state = .released) :
      Releasing holdId credentialId releasedAt now c false c
  | other {h : AttemptHold} {holds : Table AttemptHold.holdId}
      (hget : c.holds.get holdId = some h) (hs : h.state = .active)
      (hholds : holds = c.holds.modify holdId (release credentialId releasedAt) (fun _ => rfl))
      (hrest : (∃ x ∈ holds, activeHold h.attempt x = true) ∨
        (c.deletions.get h.attempt).map AttemptDeletion.state ≠ some .held) :
      Releasing holdId credentialId releasedAt now c true { c with holds := holds }
  | last {h : AttemptHold} {holds : Table AttemptHold.holdId} {d : AttemptDeletion}
      {g : Nat × Instant} {gens : Table AttemptGeneration.attempt}
      (hget : c.holds.get holdId = some h) (hs : h.state = .active)
      (hholds : holds = c.holds.modify holdId (release credentialId releasedAt) (fun _ => rfl))
      (hrest : ∀ x ∈ holds, activeHold h.attempt x = false)
      (hdel : c.deletions.get h.attempt = some d) (hheld : d.state = .held)
      (hgens : Fencing h.attempt now c.generations g gens) :
      Releasing holdId credentialId releasedAt now c true
        { c with
          holds := holds
          generations := gens
          deletions := c.deletions.modify h.attempt (resume g.1) (fun _ => rfl) }

theorem resumeDeletion_spec {now : Instant} :
    (resumeDeletion k now).wp A (fun _ => True)
      (fun a c' w' => a = true ∧ w' = w ∧
        (((c.deletions.get k).map AttemptDeletion.state ≠ some .held ∧ c' = c) ∨
        ∃ d g gens, c.deletions.get k = some d ∧ d.state = .held ∧
          Fencing k now c.generations g gens ∧ c' = { c with
            generations := gens
            deletions := c.deletions.modify k (resume g.1) (fun _ => rfl) })) c w := by
  simp only [resumeDeletion, Txn.wp_bind, Ref.wp_get, Txn.wp_ite, Txn.wp_pure,
    Tables.deletions_view, Tables.generations_view]
  refine ⟨fun hd => ?_, fun hd => ⟨trivial, trivial, Or.inl ⟨hd, trivial⟩⟩⟩
  refine Txn.wp_post (fence_spec rfl) ?_
  rintro g _ _ ⟨rfl, gens, hgens, rfl⟩
  simp only [Ref.wp_update, implies_true, true_and, Tables.deletions_view, Tables.deletions_put]
  intro d hget
  rw [hget] at hd
  exact Or.inr ⟨d, g, gens, hget, by simpa using hd, hgens, rfl⟩

theorem releaseAttemptHold_spec {holdId : Uuid} {credentialId : String}
    {expected : Option (String × Option String × Option String)} {releasedAt now : Instant} :
    (releaseAttemptHold holdId credentialId expected releasedAt now).wp A (fun _ => True)
      (fun a c' w' => Releasing holdId credentialId releasedAt now c a c' ∧ w' = w) c w := by
  simp only [releaseAttemptHold, Txn.wp_bind, Txn.wp_raiseIf, Ref.wp_get, implies_true, true_and,
    Tables.holds_view]
  intro _
  split
  · trivial
  · next h hget =>
    simp only [activeHoldIds, Txn.wp_bind, Txn.wp_raiseIf, Txn.wp_lock, Txn.wp_ite, Txn.wp_pure,
      Ref.wp_update, Txn.wp_read, implies_true, true_and, Tables.holds_view, Tables.holds_put,
      activeHoldIds_eq_nil, and_true]
    refine fun _ => ⟨fun hs => .already hget hs, fun hs _ _ => ?_⟩
    have hactive : h.state = .active := by
      cases hh : h.state with
      | active => rfl
      | released => exact absurd hh hs
    refine ⟨fun hrest => ?_, fun hrest => ?_⟩
    · refine Txn.wp_post resumeDeletion_spec ?_
      rintro _ _ _ ⟨rfl, rfl, ⟨hd, rfl⟩ | ⟨d, g, gens, hd, hheld, hgens, rfl⟩⟩
      · exact ⟨.other hget hactive rfl (Or.inr hd), rfl⟩
      · exact ⟨.last hget hactive rfl hrest hd hheld hgens, rfl⟩
    · exact .other hget hactive rfl (Or.inl (by simpa using hrest))

end spec

end IngestionService

end RankLens
