import RankLens.Catalog

namespace RankLens

/-- The exceptions an operation ends with. -/
inductive Failure where
  | admission (code message : String) (statusCode : Nat) (retriable : Bool)
  | value (message : String)
  | lookup (message : String)
  | objectIntegrity (message : String)
  | osError (message : String)
  | integrity
  | staleData
  | repeatedUuid
deriving DecidableEq, Repr

inductive Json where
  | null
  | int (n : Int)
  | str (s : String)
  | list (xs : List Json)
  | object (fields : List (String × Json))

/-- How `json.loads` ends on one line. `escapes` is an exception other than the
two its callers catch. -/
inductive Loaded where
  | object
  | other
  | undecodable (message : String)
  | escapes (message : String)
deriving DecidableEq, Repr

/-- One segment of the input of `build_normalized_parquet`. -/
structure ParquetSegment where
  receiptId : Uuid
  payloadSha256 : String
  expectedRecords : Nat
  payload : Bytes
deriving DecidableEq, Repr

structure NormalizedParquet where
  payload : Bytes
  schemaVersion : String
  rowCount : Nat
deriving DecidableEq, Repr

/-- The functions the services call and do not define: `sha256` is the hex digest
of SHA-256, `bucket` the first sixteen digits of the digest of a text, `dumps`
the canonical JSON encoding. -/
structure Env where
  sha256 : Bytes → String
  bucket : String → String
  loads : Bytes → Loaded
  dumps : Json → Bytes
  isoformat : Instant → String
  buildNormalizedParquet : AttemptKey → List ParquetSegment → (maxSegments maxRecords
    maxInputBytes : Nat) → Except String NormalizedParquet

abbrev ObjectStore := ObjectKey → Option Bytes

abbrev Tx := Txn Catalog ObjectStore Lock Failure

/-- What the file system does to one call, by object. A failed write or delete
may have landed. -/
inductive WriteFault where
  | corrupted
  | os (message : String) (landed : Bool)
deriving DecidableEq, Repr

structure Faults where
  read : ObjectKey → Option String
  write : ObjectKey → Option WriteFault
  delete : ObjectKey → Option (String × Bool)

def Faults.none : Faults := ⟨fun _ => .none, fun _ => .none, fun _ => .none⟩

/-- A write of the object reaches the disk, whether or not it reports an error. -/
def Faults.lands (faults : Faults) (key : ObjectKey) : Bool :=
  match faults.write key with
  | .none => true
  | some .corrupted => false
  | some (.os _ landed) => landed

/-- Present with the recorded digest. -/
def Holds (env : Env) (objects : ObjectStore) (key : ObjectKey) (sha256 : String) : Prop :=
  ∃ payload, objects key = some payload ∧ env.sha256 payload = sha256

namespace LocalObjectStore

variable (env : Env) (faults : Faults)

def existsVerified (key : ObjectKey) (sha256 : String) (objects : ObjectStore) :
    Except Failure Bool :=
  match objects key with
  | none => .ok false
  | some payload =>
    match faults.read key with
    | some e => .error (.objectIntegrity ("cannot verify existing object: " ++ e))
    | none =>
      if env.sha256 payload ≠ sha256 then
        .error (.objectIntegrity "existing object digest does not match its content key")
      else .ok true

def readVerified (key : ObjectKey) (sha256 : String) (objects : ObjectStore) :
    Except Failure Bytes :=
  match objects key with
  | none => .error (.objectIntegrity "cannot read object: no such file")
  | some payload =>
    match faults.read key with
    | some e => .error (.objectIntegrity ("cannot read object: " ++ e))
    | none =>
      if env.sha256 payload ≠ sha256 then
        .error (.objectIntegrity "stored object failed checksum verification")
      else .ok payload

def putVerified (key : ObjectKey) (payload : Bytes) (sha256 : String) (objects : ObjectStore) :
    Except Failure Unit × ObjectStore :=
  if env.sha256 payload ≠ sha256 then
    (.error (.objectIntegrity "payload digest mismatch"), objects)
  else
    match existsVerified env faults key sha256 objects with
    | .error e => (.error e, objects)
    | .ok true => (.ok (), objects)
    | .ok false =>
      match faults.write key with
      | some .corrupted =>
        (.error (.objectIntegrity "temporary object failed checksum verification"), objects)
      | some (.os e landed) =>
        (.error (.osError e), if landed then Function.update objects key (some payload) else objects)
      | none => (.ok (), Function.update objects key (some payload))

def deleteVerified (key : ObjectKey) (sha256 : String) (objects : ObjectStore) :
    Except Failure Bool × ObjectStore :=
  match objects key with
  | none => (.ok false, objects)
  | some payload =>
    match faults.read key with
    | some e => (.error (.objectIntegrity ("cannot verify object before deletion: " ++ e)), objects)
    | none =>
      if env.sha256 payload ≠ sha256 then
        (.error (.objectIntegrity "object scheduled for deletion failed checksum verification"),
          objects)
      else
        match faults.delete key with
        | some (e, landed) =>
          (.error (.objectIntegrity ("cannot delete verified object: " ++ e)),
            if landed then Function.update objects key none else objects)
        | none => (.ok true, Function.update objects key none)

section lemmas

variable {env faults} {key : ObjectKey} {sha256 : String} {payload : Bytes} {objects : ObjectStore}

theorem existsVerified_true (h : existsVerified env faults key sha256 objects = .ok true) :
    Holds env objects key sha256 := by
  unfold existsVerified at h
  cases ho : objects key with
  | none => simp [ho] at h
  | some p =>
    cases hr : faults.read key with
    | some e => simp [ho, hr] at h
    | none =>
      by_cases hd : env.sha256 p = sha256
      · exact ⟨p, ho, hd⟩
      · simp [ho, hr, hd] at h

theorem existsVerified_false (h : existsVerified env faults key sha256 objects = .ok false) :
    objects key = none := by
  unfold existsVerified at h
  cases ho : objects key with
  | none => rfl
  | some p =>
    cases hr : faults.read key with
    | some e => simp [ho, hr] at h
    | none => by_cases hd : env.sha256 p = sha256 <;> simp [ho, hr, hd] at h

/-- A put leaves the store as it is or fills an empty key with verified bytes. -/
theorem putVerified_store :
    (putVerified env faults key payload sha256 objects).2 = objects ∨
      (objects key = none ∧ env.sha256 payload = sha256 ∧ faults.lands key = true ∧
        (putVerified env faults key payload sha256 objects).2 =
          Function.update objects key (some payload)) := by
  unfold putVerified Faults.lands
  by_cases hd : env.sha256 payload = sha256
  · rw [if_neg (not_not_intro hd)]
    cases he : existsVerified env faults key sha256 objects with
    | error e => exact Or.inl rfl
    | ok b =>
      cases b with
      | true => exact Or.inl rfl
      | false =>
        have hn := existsVerified_false he
        cases hw : faults.write key with
        | none => exact Or.inr ⟨hn, hd, rfl, rfl⟩
        | some f =>
          cases f with
          | corrupted => exact Or.inl rfl
          | os e landed =>
            cases landed with
            | true => exact Or.inr ⟨hn, hd, rfl, rfl⟩
            | false => exact Or.inl rfl
  · rw [if_pos hd]
    exact Or.inl rfl

theorem putVerified_ok (h : (putVerified env faults key payload sha256 objects).1 = .ok ()) :
    Holds env (putVerified env faults key payload sha256 objects).2 key sha256 := by
  unfold putVerified at h ⊢
  by_cases hd : env.sha256 payload = sha256
  · rw [if_neg (not_not_intro hd)] at h ⊢
    cases he : existsVerified env faults key sha256 objects with
    | error e => simp [he] at h
    | ok b =>
      cases b with
      | true => exact existsVerified_true he
      | false =>
        simp only [he] at h ⊢
        cases hw : faults.write key with
        | none => exact ⟨payload, Function.update_self .., hd⟩
        | some f => cases f <;> simp [hw] at h
  · simp [hd] at h

/-- A delete leaves the store as it is or empties its key. -/
theorem deleteVerified_store :
    (deleteVerified env faults key sha256 objects).2 = objects ∨
      (deleteVerified env faults key sha256 objects).2 = Function.update objects key none := by
  unfold deleteVerified
  cases ho : objects key with
  | none => exact Or.inl rfl
  | some p =>
    cases hr : faults.read key with
    | some e => exact Or.inl rfl
    | none =>
      by_cases hd : env.sha256 p = sha256
      · cases hf : faults.delete key with
        | none => simp [hd]
        | some f =>
          obtain ⟨e, landed⟩ := f
          cases landed <;> simp [hd]
      · simp [hd]

theorem deleteVerified_ok {b : Bool}
    (h : (deleteVerified env faults key sha256 objects).1 = .ok b) :
    (deleteVerified env faults key sha256 objects).2 key = none := by
  unfold deleteVerified at h ⊢
  cases ho : objects key with
  | none => simp [ho]
  | some p =>
    cases hr : faults.read key with
    | some e => simp [ho, hr] at h
    | none =>
      by_cases hd : env.sha256 p = sha256
      · cases hf : faults.delete key with
        | none => simp [hd]
        | some f => simp [ho, hr, hd, hf] at h
      · simp [ho, hr, hd] at h

theorem deleteVerified_of_ne {key' : ObjectKey} (h : key' ≠ key) :
    (deleteVerified env faults key sha256 objects).2 key' = objects key' := by
  rcases @deleteVerified_store env faults key sha256 objects with hp | hp
  · rw [hp]
  · rw [hp, Function.update_of_ne h]

end lemmas

end LocalObjectStore

inductive Put (env : Env) (faults : Faults) (key : ObjectKey) (digest : String) (w : ObjectStore) :
    ObjectStore → Prop where
  | same : Put env faults key digest w w
  | stored {payload : Bytes} (hn : w key = none) (hd : env.sha256 payload = digest)
      (hl : faults.lands key = true) :
      Put env faults key digest w (Function.update w key (some payload))

theorem putVerified_put {env : Env} {faults : Faults} {key : ObjectKey} {payload : Bytes}
    {digest : String} {w : ObjectStore} :
    Put env faults key digest w (LocalObjectStore.putVerified env faults key payload digest w).2 := by
  rcases @LocalObjectStore.putVerified_store env faults key digest payload w with h | ⟨hn, hd, hl, h⟩
  · rw [h]
    exact .same
  · rw [h]
    exact .stored hn hd hl

section put

variable {env : Env} {faults : Faults} {key key' : ObjectKey} {digest d : String}
  {w w' : ObjectStore}

theorem Put.of_some {payload : Bytes} (h : Put env faults key digest w w')
    (hk : w key' = some payload) : w' key' = some payload := by
  cases h with
  | same => exact hk
  | stored hn _ _ =>
    have hne : key' ≠ key := by
      rintro rfl
      rw [hn] at hk
      cases hk
    rw [Function.update_of_ne hne, hk]

theorem Put.holds (h : Put env faults key digest w w') (hk : Holds env w key' d) :
    Holds env w' key' d := by
  obtain ⟨payload, hp, hd⟩ := hk
  exact ⟨payload, h.of_some hp, hd⟩

theorem Put.none_or (h : Put env faults key digest w w') (hk : w key' = none) :
    w' key' = none ∨ (key' = key ∧ faults.lands key = true) := by
  cases h with
  | same => exact Or.inl hk
  | stored _ _ hl =>
    by_cases he : key' = key
    · exact Or.inr ⟨he, hl⟩
    · exact Or.inl (by rw [Function.update_of_ne he, hk])

end put

/-- What puts of objects in `P` can do to the store. -/
def Stores (env : Env) (P : ObjectKey → String → Prop) (w w' : ObjectStore) : Prop :=
  ∀ key, w' key = w key ∨ (w key = none ∧ ∃ digest, P key digest ∧ Holds env w' key digest)

section stores

variable {env : Env} {P : ObjectKey → String → Prop} {w w' : ObjectStore} {key : ObjectKey}
  {digest : String}

theorem Stores.refl (w : ObjectStore) : Stores env P w w := fun _ => Or.inl rfl

theorem Stores.of_some {payload : Bytes} (h : Stores env P w w') (hk : w key = some payload) :
    w' key = some payload := by
  rcases h key with h | ⟨hn, _⟩
  · rw [h, hk]
  · rw [hn] at hk
    cases hk

theorem Stores.holds (h : Stores env P w w') (hk : Holds env w key digest) :
    Holds env w' key digest := by
  obtain ⟨payload, hp, hd⟩ := hk
  exact ⟨payload, h.of_some hp, hd⟩

theorem Stores.trans {w'' : ObjectStore} (h : Stores env P w w') (h' : Stores env P w' w'') :
    Stores env P w w'' := by
  intro key
  rcases h key with h₁ | ⟨hn, digest, hP, hd⟩
  · rw [← h₁]
    exact h' key
  · exact Or.inr ⟨hn, digest, hP, h'.holds hd⟩

theorem Put.stores {faults : Faults} (h : Put env faults key digest w w')
    (hP : faults.lands key = true → P key digest) : Stores env P w w' := by
  cases h with
  | same => exact .refl w
  | @stored payload hn hd hl =>
    intro x
    by_cases hx : x = key
    · subst hx
      exact Or.inr ⟨hn, digest, hP hl, payload, Function.update_self .., hd⟩
    · exact Or.inl (Function.update_of_ne hx _ _)

end stores

/-- What deletes of the keys in `keys` can do to the store. -/
def Deletes (keys : ObjectKey → Prop) (w w' : ObjectStore) : Prop :=
  ∀ key, w' key = w key ∨ (keys key ∧ w' key = none)

theorem Deletes.refl {keys : ObjectKey → Prop} (w : ObjectStore) : Deletes keys w w :=
  fun _ => Or.inl rfl

theorem Deletes.trans {keys : ObjectKey → Prop} {w w' w'' : ObjectStore} (h : Deletes keys w w')
    (h' : Deletes keys w' w'') : Deletes keys w w'' := by
  intro key
  rcases h' key with h₂ | h₂
  · rw [h₂]
    exact h key
  · exact Or.inr h₂

theorem deleteVerified_deletes {env : Env} {faults : Faults} {key : ObjectKey} {digest : String}
    {w : ObjectStore} : Deletes (fun x => x = key) w
      (LocalObjectStore.deleteVerified env faults key digest w).2 := by
  intro x
  by_cases hx : x = key
  · rcases @LocalObjectStore.deleteVerified_store env faults key digest w with h | h
    · exact Or.inl (by rw [h])
    · exact Or.inr ⟨hx, by rw [h, hx, Function.update_self]⟩
  · exact Or.inl (LocalObjectStore.deleteVerified_of_ne hx)

/-- The store as the transactions see it. -/
def existsVerified (env : Env) (faults : Faults) (key : ObjectKey) (sha256 : String) :
    Tx (Except Failure Bool) :=
  Txn.perform (fun w => (LocalObjectStore.existsVerified env faults key sha256 w, w))

def readVerified (env : Env) (faults : Faults) (key : ObjectKey) (sha256 : String) :
    Tx (Except Failure Bytes) :=
  Txn.perform (fun w => (LocalObjectStore.readVerified env faults key sha256 w, w))

def putVerified (env : Env) (faults : Faults) (key : ObjectKey) (payload : Bytes)
    (sha256 : String) : Tx (Except Failure Unit) :=
  Txn.perform (LocalObjectStore.putVerified env faults key payload sha256)

def deleteVerified (env : Env) (faults : Faults) (key : ObjectKey) (sha256 : String) :
    Tx (Except Failure Bool) :=
  Txn.perform (LocalObjectStore.deleteVerified env faults key sha256)

def orRaise {α : Type} : Except Failure α → Tx α
  | .ok a => pure a
  | .error e => Txn.raise e

/-- `uuid.uuid4`: it never returns a value twice. -/
def uuid4 (id : Uuid) : Tx Uuid := do
  Txn.lock (.uuid id)
  let used ← Txn.read (fun c : Catalog => decide (id ∈ c.issued))
  Txn.raiseIf (used = true) .repeatedUuid
  Txn.write (fun c : Catalog => { c with issued := id :: c.issued })
  pure id

section wp

variable {env : Env} {faults : Faults} {key : ObjectKey} {sha256 : String}
  {A : ObjectStore → Prop} {E : Failure → Prop} {s : Catalog} {w : ObjectStore}

@[simp] theorem wp_existsVerified {Q : Except Failure Bool → Catalog → ObjectStore → Prop} :
    (existsVerified env faults key sha256).wp A E Q s w ↔
      A w ∧ Q (LocalObjectStore.existsVerified env faults key sha256 w) s w := Iff.rfl

@[simp] theorem wp_readVerified {Q : Except Failure Bytes → Catalog → ObjectStore → Prop} :
    (readVerified env faults key sha256).wp A E Q s w ↔
      A w ∧ Q (LocalObjectStore.readVerified env faults key sha256 w) s w := Iff.rfl

@[simp] theorem wp_putVerified {payload : Bytes}
    {Q : Except Failure Unit → Catalog → ObjectStore → Prop} :
    (putVerified env faults key payload sha256).wp A E Q s w ↔
      A (LocalObjectStore.putVerified env faults key payload sha256 w).2 ∧
        Q (LocalObjectStore.putVerified env faults key payload sha256 w).1 s
          (LocalObjectStore.putVerified env faults key payload sha256 w).2 := Iff.rfl

@[simp] theorem wp_deleteVerified {Q : Except Failure Bool → Catalog → ObjectStore → Prop} :
    (deleteVerified env faults key sha256).wp A E Q s w ↔
      A (LocalObjectStore.deleteVerified env faults key sha256 w).2 ∧
        Q (LocalObjectStore.deleteVerified env faults key sha256 w).1 s
          (LocalObjectStore.deleteVerified env faults key sha256 w).2 := Iff.rfl

@[simp] theorem wp_orRaise {α : Type} {r : Except Failure α}
    {Q : α → Catalog → ObjectStore → Prop} :
    (orRaise r).wp A E Q s w ↔ (∀ e, r = .error e → E e) ∧ (∀ a, r = .ok a → Q a s w) := by
  cases r with
  | ok a =>
    constructor
    · intro h
      refine ⟨fun e he => (nomatch he), fun b hb => ?_⟩
      cases hb
      exact h
    · intro h
      exact h.2 a rfl
  | error e =>
    constructor
    · intro h
      refine ⟨fun e' he => ?_, fun b hb => (nomatch hb)⟩
      cases he
      exact h
    · intro h
      exact h.1 e rfl

@[simp] theorem wp_uuid4 {id : Uuid} {Q : Uuid → Catalog → ObjectStore → Prop} :
    (uuid4 id).wp A E Q s w ↔ (id ∈ s.issued → E .repeatedUuid) ∧
      (id ∉ s.issued → Q id { s with issued := id :: s.issued } w) := by
  simp only [uuid4, Txn.wp_bind, Txn.wp_lock, Txn.wp_read, Txn.wp_raiseIf, Txn.wp_write,
    Txn.wp_pure, decide_eq_true_eq]

end wp

section changes

variable {env : Env} {faults : Faults} {key : ObjectKey} {sha256 : String}
  {R : Catalog → Catalog → Prop}

@[simp] theorem changes_existsVerified {Q : Except Failure Bool → Prop} :
    (existsVerified env faults key sha256).changes R Q ↔
      ∀ w, Q (LocalObjectStore.existsVerified env faults key sha256 w) := by
  simp only [existsVerified, Txn.changes_perform, true_and]

@[simp] theorem changes_readVerified {Q : Except Failure Bytes → Prop} :
    (readVerified env faults key sha256).changes R Q ↔
      ∀ w, Q (LocalObjectStore.readVerified env faults key sha256 w) := by
  simp only [readVerified, Txn.changes_perform, true_and]

@[simp] theorem changes_orRaise {α : Type} {r : Except Failure α} {Q : α → Prop} :
    (orRaise r).changes R Q ↔ ∀ a, r = .ok a → Q a := by
  cases r with
  | ok a =>
    constructor
    · intro h b hb
      cases hb
      exact h
    · intro h
      exact h a rfl
  | error e =>
    constructor
    · intro _ b hb
      cases hb
    · intro _
      trivial

@[simp] theorem changes_uuid4 {id : Uuid} {Q : Uuid → Prop} :
    (uuid4 id).changes R Q ↔ ∀ s : Catalog, id ∉ s.issued →
      (∀ s : Catalog, R s { s with issued := id :: s.issued }) ∧ Q id := by
  simp only [uuid4, Txn.changes_bind, Txn.changes_lock, Txn.changes_read, Txn.changes_raiseIf,
    Txn.changes_write, Txn.changes_pure, decide_eq_true_eq]

end changes

end RankLens
