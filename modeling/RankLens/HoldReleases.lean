import RankLens.Fences

namespace RankLens

open Interleaving (Rely Session Config Workload Quiet Ending)

namespace HoldReleases

/-- A call of `release_attempt_hold`, with the times it takes. -/
structure Release where
  credentialId : String
  expected : Option (String × Option String × Option String)
  releasedAt : Instant
  now : Instant
deriving DecidableEq, Repr

inductive Call where
  | release (r : Release)
  | place (holdId : Uuid) (reason credentialId : String) (now : Instant)
  | delete (now : Instant)

/-- The answers of the releases, the latest one first. -/
abbrev Answers := List (Release × Bool)

variable {k : AttemptKey} {holdId : Uuid}

def program (k : AttemptKey) (holdId : Uuid) : Call → Tx (Option Bool)
  | .release r => some <$>
    IngestionService.releaseAttemptHold holdId r.credentialId r.expected r.releasedAt r.now
  | .place id reason credentialId now =>
    (fun _ => none) <$> IngestionService.placeAttemptHold k id reason credentialId now
  | .delete now => (fun _ => none) <$> IngestionService.deleteAttempt k now

def finish : Call → Ending Failure (Option Bool) → Answers → Answers
  | .release r, .committed (some b), m => (r, b) :: m
  | _, _, m => m

/-- Releases of one hold, with the calls that place holds on its attempt and delete it. -/
def workload (k : AttemptKey) (holdId : Uuid) :
    Workload Catalog ObjectStore Lock Failure Call (Option Bool) Answers where
  program := fun _ call => some (program k holdId call)
  finish := finish

abbrev Pool := Config Catalog ObjectStore Lock Failure Call (Option Bool) Answers

abbrev Waiter := Session Catalog ObjectStore Lock Failure Call (Option Bool)

/-- What a release does once it has the lock of the attempt, by the hold it read before. -/
def locked (holdId : Uuid) (r : Release) (hold : AttemptHold) : Tx Bool :=
  if hold.state = .released then pure false
  else do
    Tables.holds.update .staleData holdId (IngestionService.release r.credentialId r.releasedAt)
    let active ← IngestionService.activeHoldIds hold.attempt
    if active = [] then IngestionService.resumeDeletion hold.attempt r.now else pure true

/-- The hold is not of the attempt the caller named. -/
def mismatched (r : Release) (hold : AttemptHold) : Bool :=
  r.expected.any (fun e => decide (hold.tenantId ≠ e.1 ∨ some hold.clusterId ≠ e.2.1 ∨
    some hold.attemptId ≠ e.2.2))

/-- What a release does by the hold it reads. -/
def reading (holdId : Uuid) (r : Release) : Option AttemptHold → Tx Bool
  | none => Txn.raise (.value "retention hold does not exist")
  | some hold => do
    Txn.raiseIf (mismatched r hold = true) (.value "retention hold does not exist")
    Txn.lock (.attempt hold.attempt)
    locked holdId r hold

theorem releaseAttemptHold_eq {r : Release} :
    IngestionService.releaseAttemptHold holdId r.credentialId r.expected r.releasedAt r.now = (do
      Txn.raiseIf (identifier 128 [] r.credentialId = false)
        (.value "releasing credential ID is invalid")
      let hold ← Tables.holds.get holdId
      reading holdId r hold) := by
  rfl

/-- The call that returned `True` released the hold, and it was the first to return. -/
def FirstWins (holdId : Uuid) (c : Pool) : Prop :=
  c.memory = [] ∨ ∃ (winner : Release) (losers : List Release),
    c.memory = losers.map (fun r => (r, false)) ++ [(winner, true)] ∧
      ∃ hold, c.db.holds.get holdId = some hold ∧ hold.state = .released ∧
        hold.releasedByCredentialId = some winner.credentialId ∧
        hold.releasedAt = some winner.releasedAt

/-- A release that is to write the hold it read as active finds it active still. -/
def Fresh (holdId : Uuid) (c : Pool) : Prop :=
  ∀ x ∈ c.sessions, ∀ r hold, x.call = .release r → x.rest = some <$> locked holdId r hold →
    hold.state = .active → ∀ row, c.db.holds.get holdId = some row → row.state = .active

/-- The hold is not there yet, or it is an active hold of the attempt. -/
def Unreleased (k : AttemptKey) (holdId : Uuid) (c : Catalog) : Prop :=
  ∀ hold, c.holds.get holdId = some hold → hold.attempt = k ∧ hold.state = .active

inductive Runs (k : AttemptKey) (holdId : Uuid) (condition : Pool → Prop) : Pool → Prop where
  | start {db : Catalog} {w : ObjectStore} (h : Unreleased k holdId db) :
      Runs k holdId condition ⟨db, w, [], []⟩
  | step {c c' : Pool} {label : Option (Call × Option Bool)} (h : Runs k holdId condition c)
      (hs : Interleaving.Step (workload k holdId) c label c') (hc : condition c') :
      Runs k holdId condition c'

section guarantee

variable {c c' : Catalog} {p : Catalog → Catalog} {H : Set Lock} {call : Call} {a : Option Bool}
  {r : Release} {row row' : Option AttemptHold}

/-- What a commit does to the row of the hold. -/
inductive Changed (k : AttemptKey) (H : Set Lock) : Call → Option Bool → Option AttemptHold →
    Option AttemptHold → Prop where
  | won {r : Release} {hold : AttemptHold} (hk : Lock.attempt k ∈ H) :
      Changed k H (.release r) (some true) (some hold)
        (some (IngestionService.release r.credentialId r.releasedAt hold))
  | lost {r : Release} {hold : AttemptHold} (h : hold.state = .released) :
      Changed k H (.release r) (some false) (some hold) (some hold)
  | placed {id : Uuid} {reason credentialId : String} {now : Instant} {hold : AttemptHold}
      (hk : Lock.attempt k ∈ H) (h : hold.attempt = k) (hs : hold.state = .active) :
      Changed k H (.place id reason credentialId now) none none (some hold)
  | placedOther {id : Uuid} {reason credentialId : String} {now : Instant}
      {row : Option AttemptHold} : Changed k H (.place id reason credentialId now) none row row
  | deleted {now : Instant} {row : Option AttemptHold} : Changed k H (.delete now) none row row

def Guarantee (k : AttemptKey) (holdId : Uuid) (call : Call) (a : Option Bool) (H : Set Lock)
    (c c' : Catalog) : Prop :=
  Changed k H call a (c.holds.get holdId) (c'.holds.get holdId)

def Placed (k : AttemptKey) (row : Option AttemptHold) : Prop :=
  ∀ hold, row = some hold → hold.attempt = k

def Released (row : Option AttemptHold) : Prop :=
  ∃ hold, row = some hold ∧ hold.state = .released

theorem Changed.keeps_placed (h : Changed k H call a row row') (hp : Placed k row) :
    Placed k row' := by
  cases h with
  | @won r old hk =>
    intro hold hhold
    obtain rfl := Option.some.inj hhold
    exact hp old rfl
  | lost => exact hp
  | placed hk h hs =>
    intro hold hhold
    obtain rfl := Option.some.inj hhold
    exact h
  | placedOther => exact hp
  | deleted => exact hp

theorem Changed.keeps_released (h : Changed k H call a row row') (hr : Released row) :
    Released row' := by
  cases h with
  | won hk => exact ⟨_, rfl, rfl⟩
  | lost => exact hr
  | placed hk h hs =>
    obtain ⟨hold, hnone, -⟩ := hr
    cases hnone
  | placedOther => exact hr
  | deleted => exact hr

theorem Changed.keeps_some (h : Changed k H call a row row') (hr : row.isSome) : row'.isSome := by
  cases h with
  | placed hk h hs => cases hr
  | won hk => rfl
  | lost => rfl
  | placedOther => exact hr
  | deleted => exact hr

theorem Changed.eq_of_unlocked (h : Changed k H call a row row') (hk : Lock.attempt k ∉ H) :
    row' = row := by
  cases h with
  | won hk' => exact absurd hk' hk
  | placed hk' => exact absurd hk' hk
  | lost => rfl
  | placedOther => rfl
  | deleted => rfl

theorem hold_stays (hk : Lock.attempt k ∈ H) (h : Rely (Guarantee k holdId) H c c') :
    c'.holds.get holdId = c.holds.get holdId := by
  refine Rely.preserves (P := fun x => x.holds.get holdId = c.holds.get holdId) ?_ h rfl
  intro call a H' s s' hd hG hs
  have hk' : Lock.attempt k ∉ H' := fun hk' => Set.disjoint_left.mp hd hk' hk
  exact (hG.eq_of_unlocked hk').trans hs

theorem hold_keeps {P : Option AttemptHold → Prop}
    (hP : ∀ {H call a row row'}, Changed k H call a row row' → P row → P row')
    (h : Rely (Guarantee k holdId) H c c') (hc : P (c.holds.get holdId)) :
    P (c'.holds.get holdId) :=
  Rely.preserves (P := fun x : Catalog => P (x.holds.get holdId))
    (fun _ _ _ _ _ _ hG hs => hP hG hs) h hc

/-- What the transaction has not committed yet changes the hold as `f` does. -/
def Changes (holdId : Uuid) (f : Option AttemptHold → Option AttemptHold)
    (p : Catalog → Catalog) : Prop :=
  ∀ c, (p c).holds.get holdId = f (c.holds.get holdId)

theorem rwp_holds {α : Type} {t : Tx α} {Q : α → Prop}
    {f : Option AttemptHold → Option AttemptHold}
    (ht : t.writes (fun c c' => c'.holds = c.holds) Q) (hp : Changes holdId f p) :
    t.rwp (Rely (Guarantee k holdId)) (fun a H' c' p' => (H ⊆ H' ∧
      Rely (Guarantee k holdId) H c c' ∧ Changes holdId f p') ∧ Q a) H c p := by
  refine Txn.rwp_of_writes (J := fun H' c' p' => H ⊆ H' ∧
    Rely (Guarantee k holdId) H c c' ∧ Changes holdId f p') ?_ ?_ ?_ ht ⟨subset_rfl, .refl c, hp⟩
  · exact fun H' s s' p hs ⟨hH, hrely, hp⟩ => ⟨hH, hrely.trans (hs.anti hH), hp⟩
  · exact fun l H' s p ⟨hH, hrely, hp⟩ => ⟨hH.trans (Set.subset_insert l H'), hrely, hp⟩
  · intro H' s p' g hg ⟨hH, hrely, hp⟩
    refine ⟨hH, hrely, fun x => ?_⟩
    rw [Function.comp, hg]
    exact hp x

theorem resumeDeletion_holds {now : Instant} :
    (IngestionService.resumeDeletion k now).writes (fun c c' => c'.holds = c.holds)
      (fun b => b = true) := by
  simp only [IngestionService.resumeDeletion, Txn.writes_bind, Ref.writes_get, Txn.writes_ite]
  refine fun c => ⟨fun _ c => Txn.writes_mono (fun _ _ h => h) (fun g _ => ?_)
    (fence_writes (fun _ _ => rfl)), fun _ => rfl⟩
  exact Ref.writes_update (fun _ => rfl) rfl

theorem deleteAttempt_holds {now : Instant} :
    (IngestionService.deleteAttempt k now).writes (fun c c' => c'.holds = c.holds)
      (fun _ => True) := by
  simp only [IngestionService.deleteAttempt, IngestionService.activeHoldIds, Txn.writes_bind,
    Txn.writes_lock, Ref.writes_get, Txn.writes_read, Txn.writes_ite, Txn.writes_pure]
  refine fun c c' => ⟨fun _ => ?_, fun _ => ?_⟩
  · refine Txn.writes_mono (fun _ _ h => h) (fun _ _ => ?_) (fence_writes (fun _ _ => rfl))
    exact requestDeletion_writes (fun _ _ _ => rfl) (fun _ _ _ => rfl)
  · unfold IngestionService.addUnfenced
    split
    · exact Ref.writes_insert (fun _ => rfl)
        (blockDeletion_writes (fun _ _ _ => rfl) (fun _ _ _ => rfl))
    · exact blockDeletion_writes (fun _ _ _ => rfl) (fun _ _ _ => rfl)

theorem delete_commits {now : Instant} : (program k holdId (.delete now)).rwp
    (Rely (Guarantee k holdId)) (Interleaving.Commits (Guarantee k holdId) (.delete now)) ∅ c id := by
  rw [program, Txn.rwp_map]
  refine Txn.rwp_mono (rwp_holds (f := id) deleteAttempt_holds (fun _ => rfl)) ?_
  rintro a H' c' p' ⟨⟨-, -, hp⟩, -⟩ c'' -
  unfold Guarantee
  rw [hp c'']
  exact .deleted

theorem get_insert_of_ne {t : Table AttemptHold.holdId} {hold : AttemptHold}
    (h : hold.holdId ≠ holdId) : (t.insert hold).get holdId = t.get holdId := by
  cases hget : t.get hold.holdId with
  | none => rw [Table.get_insert hget, if_neg h]
  | some old =>
    ext x
    rw [Table.get_eq_some, Table.get_eq_some]
    refine and_congr_left (fun hx => ⟨fun hm => ?_, Table.mem_insert_of_mem⟩)
    obtain hm | rfl := Table.mem_of_mem_insert hm
    · exact hm
    · exact absurd hx h

theorem place_inserts {id : Uuid} {reason stripped credentialId : String} {now : Instant}
    (hk : Lock.attempt k ∈ H) (hfree : id = holdId → c.holds.get holdId = none)
    (hp : ∀ c, (p c).holds =
      c.holds.insert (IngestionService.newHold k id stripped credentialId now)) :
    Interleaving.Commits (Guarantee k holdId) (.place id reason credentialId now) none H c p := by
  intro c' hc'
  unfold Guarantee
  rw [hp c']
  by_cases hid : id = holdId
  · have hnone : c'.holds.get holdId = none := (hold_stays hk hc').trans (hfree hid)
    subst hid
    rw [Table.get_insert hnone, if_pos (by rfl), hnone]
    exact .placed hk rfl rfl
  · rw [get_insert_of_ne hid]
    exact .placedOther

theorem place_commits {id : Uuid} {reason credentialId : String} {now : Instant} :
    (program k holdId (.place id reason credentialId now)).rwp (Rely (Guarantee k holdId))
      (Interleaving.Commits (Guarantee k holdId) (.place id reason credentialId now)) ∅ c
      (fun c => c) := by
  rw [program, Txn.rwp_map]
  simp only [IngestionService.placeAttemptHold, Txn.rwp_bind, Txn.rwp_raiseIf, Txn.rwp_lock,
    Ref.rwp_get, Tables.holds_view]
  intro _ _ c₁ _ c₂ _ c₃ _ _ c₄ _ _ c₅ h₅
  have hk : Lock.attempt k ∈ insert (Lock.attempt k) (∅ : Set Lock) := Set.mem_insert _ _
  split
  · simp only [Txn.rwp_bind, Txn.rwp_raiseIf]
    exact fun _ _ c'' _ => .placedOther
  · next hnew =>
    rw [Txn.rwp_bind]
    refine Ref.rwp_insert (fun H₆ c₆ hsub _ h₆ hfree => ?_)
    have habsent : id = holdId → c₆.holds.get holdId = none := by
      rintro rfl
      have hget := (Bool.or_eq_false_iff.mp hfree).1
      exact (Option.not_isSome_iff_eq_none.mp (by simpa using hget) :
        c₆.holds.get (IngestionService.newHold k id (strip reason) credentialId now).holdId = none)
    have hinserts : ∀ c, (Tables.holds.put ((Tables.holds.view c).insert
        (IngestionService.newHold k id (strip reason) credentialId now)) c).holds =
          c.holds.insert (IngestionService.newHold k id (strip reason) credentialId now) :=
      fun _ => rfl
    split
    · exact place_inserts (hsub hk) habsent hinserts
    · refine Ref.rwp_update (fun c₇ _ h₇ _ => ?_)
      refine place_inserts (Or.inr (hsub hk)) (fun hid => ?_) hinserts
      exact (hold_stays (hsub hk) h₇).trans (habsent hid)

theorem locked_commits {hold : AttemptHold} (hk : Lock.attempt k ∈ H)
    (hrow : hold.state = .released → Released (c.holds.get holdId)) :
    (locked holdId r hold).rwp (Rely (Guarantee k holdId))
      (fun b => Interleaving.Commits (Guarantee k holdId) (.release r) (some b)) H c id := by
  unfold locked
  rw [Txn.rwp_ite]
  refine ⟨fun hreleased c' hc' => ?_, fun hactive => ?_⟩
  · obtain ⟨row, hget, hstate⟩ := hold_keeps Changed.keeps_released hc' (hrow hreleased)
    unfold Guarantee
    rw [id, hget]
    exact .lost hstate
  · rw [Txn.rwp_bind]
    refine Ref.rwp_update (fun c₁ row h₁ hget => ?_)
    have hsome : (c₁.holds.get holdId).isSome := by
      rw [Option.isSome_iff_exists]
      exact ⟨row, hget⟩
    have hwins : ∀ {H' : Set Lock} {c' : Catalog} {p' : Catalog → Catalog}, H ⊆ H' →
        Rely (Guarantee k holdId) H c₁ c' →
        Changes holdId (Option.map (IngestionService.release r.credentialId r.releasedAt)) p' →
        Interleaving.Commits (Guarantee k holdId) (.release r) (some true) H' c' p' := by
      intro H' c' p' hH hc' hp c'' hc''
      obtain ⟨last, hlast⟩ := Option.isSome_iff_exists.mp
        (hold_keeps Changed.keeps_some (hc'.trans (hc''.anti hH)) hsome)
      unfold Guarantee
      rw [hp c'', hlast]
      exact .won (hH hk)
    have hp₁ : Changes holdId (Option.map (IngestionService.release r.credentialId r.releasedAt))
        (fun c => Tables.holds.put ((Tables.holds.view c).modify holdId
          (IngestionService.release r.credentialId r.releasedAt) (fun _ => rfl)) c) := by
      intro x
      have hkey : ∀ h, (IngestionService.release r.credentialId r.releasedAt h).holdId = h.holdId :=
        fun _ => rfl
      have hmodify : (x.holds.modify holdId _ hkey).get holdId = _ := Table.get_modify
      exact hmodify.trans (if_pos rfl)
    have hsub := Set.subset_insert (Tables.holds.row holdId) H
    simp only [IngestionService.activeHoldIds, Txn.rwp_bind, Txn.rwp_read, Txn.rwp_ite]
    refine fun c₂ h₂ => ⟨fun _ => ?_, fun _ => hwins hsub (h₂.anti hsub) hp₁⟩
    refine Txn.rwp_mono (rwp_holds resumeDeletion_holds hp₁) ?_
    rintro _ H₃ c₃ p₃ ⟨⟨hH, h₃, hp₃⟩, rfl⟩
    exact hwins (hsub.trans hH) ((h₂.trans h₃).anti hsub) hp₃

theorem release_commits (hplaced : Placed k (c.holds.get holdId)) :
    (program k holdId (.release r)).rwp (Rely (Guarantee k holdId))
      (Interleaving.Commits (Guarantee k holdId) (.release r)) ∅ c id := by
  rw [program, Txn.rwp_map, releaseAttemptHold_eq]
  simp only [Txn.rwp_bind, Txn.rwp_raiseIf, Ref.rwp_get, Tables.holds_view]
  intro _ c₁ h₁
  have hplaced₁ := hold_keeps Changed.keeps_placed h₁ hplaced
  cases hget : c₁.holds.get holdId with
  | none => rw [id, hget]; trivial
  | some hold =>
    rw [id, hget]
    simp only [reading, Txn.rwp_bind, Txn.rwp_raiseIf, Txn.rwp_lock]
    intro _ c₂ h₂
    obtain rfl := hplaced₁ hold hget
    exact locked_commits (Set.mem_insert _ _) (fun hreleased =>
      hold_keeps Changed.keeps_released h₂ ⟨hold, hget, hreleased⟩)

theorem meets_guarantee : Interleaving.Meets (workload k holdId)
    (fun c => Placed k (c.holds.get holdId)) (Guarantee k holdId) := by
  intro m call t c hcall hplaced
  obtain rfl := Option.some.inj hcall
  cases call with
  | release r => exact release_commits hplaced
  | place id reason credentialId now => exact place_commits
  | delete now => exact delete_commits

end guarantee

section run

variable {c c' : Pool} {db db' : Catalog} {H : Set Lock} {p : Catalog → Catalog} {r : Release}
  {t : Tx (Option Bool)} {a : Option Bool} {l : Lock} {label : Option (Call × Option Bool)}
  {m : Answers}

/-- Whoever is to return `True` finds the hold active under the lock of the attempt. -/
def Sure (k : AttemptKey) (holdId : Uuid) (a : Option Bool) (H : Set Lock) (c : Catalog)
    (_ : Catalog → Catalog) : Prop :=
  a = some true → Lock.attempt k ∈ H ∧ ∀ row, c.holds.get holdId = some row → row.state = .active

/-- How far a release is: it is to read the hold, it waits for the lock with what it read, or its
answer does not depend on what it read any more. -/
inductive Stage (k : AttemptKey) (holdId : Uuid) (r : Release) (db : Catalog) :
    Tx (Option Bool) → Set Lock → (Catalog → Catalog) → Prop where
  | unread : Stage k holdId r db
      (.query (fun c => some <$> reading holdId r (c.holds.get holdId))) ∅ id
  | waiting {hold : AttemptHold} (hk : hold.attempt = k) (hs : hold.state = .active) :
      Stage k holdId r db (.acquire (.attempt hold.attempt) (some <$> locked holdId r hold)) ∅ id
  | decided {t : Tx (Option Bool)} {H : Set Lock} {p : Catalog → Catalog}
      (h : t.rwp (Rely (Guarantee k holdId)) (Sure k holdId) H db p) : Stage k holdId r db t H p

theorem Sure.stable (h : Sure k holdId a H db p) (hrely : Rely (Guarantee k holdId) H db db') :
    Sure k holdId a H db' p := by
  intro ha
  obtain ⟨hk, hactive⟩ := h ha
  refine ⟨hk, fun row hrow => hactive row ?_⟩
  rw [← hold_stays hk hrely]
  exact hrow

theorem Stage.stable (h : Stage k holdId r db t H p)
    (hrely : Rely (Guarantee k holdId) H db db') : Stage k holdId r db' t H p := by
  cases h with
  | unread => exact .unread
  | waiting hk hs => exact .waiting hk hs
  | decided h =>
    refine .decided (Txn.rwp_stable ?_ ?_ hrely h)
    · exact fun _ _ _ _ h₁ h₂ => h₁.trans h₂
    · exact fun _ _ _ _ _ hrely hQ => hQ.stable hrely

theorem sure_of_active (hk : Lock.attempt k ∈ H)
    (hactive : ∀ row, db.holds.get holdId = some row → row.state = .active) :
    t.rwp (Rely (Guarantee k holdId)) (Sure k holdId) H db p := by
  induction t generalizing H db p with
  | done a => exact fun _ => ⟨hk, hactive⟩
  | fail e => trivial
  | acquire l t ih =>
    refine fun db' hrely => ih (Set.mem_insert_of_mem l hk) (fun row hrow => hactive row ?_)
    exact (hold_stays hk hrely) ▸ hrow
  | query f ih =>
    refine fun db' hrely => ih (p db') hk (fun row hrow => hactive row ?_)
    exact (hold_stays hk hrely) ▸ hrow
  | change f t ih => exact ih hk hactive
  | effect f g ih => exact fun w => ih w hk hactive

theorem Stage.acquired (h : Stage k holdId r db (.acquire l t) H p)
    (hfresh : ∀ hold, t = some <$> locked holdId r hold → hold.state = .active →
      ∀ row, db.holds.get holdId = some row → row.state = .active) :
    Stage k holdId r db t (insert l H) p := by
  cases h with
  | @waiting hold hk hs =>
    subst hk
    exact .decided (sure_of_active (Set.mem_insert _ _) (hfresh hold rfl hs))
  | decided h => exact .decided (h db (.refl db))

theorem Stage.queried {f : Catalog → Tx (Option Bool)} (hplaced : Placed k (db.holds.get holdId))
    (h : Stage k holdId r db (.query f) H p) : Stage k holdId r db (f (p db)) H p := by
  cases h with
  | decided h => exact .decided (h db (.refl db))
  | unread =>
    show Stage k holdId r db (some <$> reading holdId r (db.holds.get holdId)) ∅ id
    cases hget : db.holds.get holdId with
    | none => exact .decided trivial
    | some hold =>
      by_cases hraise : mismatched r hold = true
      · refine .decided ?_
        simp only [reading, Txn.rwp_map, Txn.rwp_bind, Txn.rwp_raiseIf]
        exact fun hn => absurd hraise hn
      · have hrest : (some <$> reading holdId r (some hold) : Tx (Option Bool)) =
            .acquire (.attempt hold.attempt) (some <$> locked holdId r hold) := by
          simp only [reading, Txn.raiseIf, if_neg hraise]
          rfl
        rw [hrest]
        by_cases hs : hold.state = .released
        · refine .decided (fun db' _ => ?_)
          unfold locked
          rw [if_pos hs]
          intro ha
          cases ha
        · refine .waiting (hplaced hold hget) ?_
          cases hh : hold.state with
          | active => rfl
          | released => exact absurd hh hs

theorem Stage.started : Stage k holdId r db (program k holdId (.release r)) ∅ id := by
  rw [program, releaseAttemptHold_eq]
  by_cases hraise : identifier 128 [] r.credentialId = false
  · refine .decided ?_
    simp only [Txn.rwp_map, Txn.rwp_bind, Txn.rwp_raiseIf]
    exact fun hn => absurd hraise hn
  · unfold Txn.raiseIf
    rw [if_neg hraise]
    exact .unread

/-- The answers so far, and what they say of the hold. -/
inductive Told (holdId : Uuid) (db : Catalog) : Answers → Prop where
  | nothing (h : ¬Released (db.holds.get holdId)) : Told holdId db []
  | won {winner : Release} {losers : List Release} {hold : AttemptHold}
      (hget : db.holds.get holdId = some hold) (hs : hold.state = .released)
      (hby : hold.releasedByCredentialId = some winner.credentialId)
      (hat : hold.releasedAt = some winner.releasedAt) :
      Told holdId db (losers.map (fun r => (r, false)) ++ [(winner, true)])

structure Inv (k : AttemptKey) (holdId : Uuid) (c : Pool) : Prop where
  disciplined : Interleaving.Disciplined (fun c => Placed k (c.holds.get holdId))
    (Guarantee k holdId) c
  stages : ∀ x ∈ c.sessions, ∀ r, x.call = .release r →
    Stage k holdId r c.db x.rest x.held x.pending
  told : Told holdId c.db c.memory

theorem Told.stable (h : Told holdId db m) (hsame : db'.holds.get holdId = db.holds.get holdId) :
    Told holdId db' m := by
  cases h with
  | nothing h => exact .nothing (hsame ▸ h)
  | won hget hs hby hat => exact .won (hsame.trans hget) hs hby hat

theorem Told.commit {call : Call} (h : Told holdId db m)
    (hG : Guarantee k holdId call a H db db') (hsure : ∀ r, call = .release r →
      a = some true → ∀ row, db.holds.get holdId = some row → row.state = .active) :
    Told holdId db' (finish call (.committed a) m) := by
  unfold Guarantee at hG
  generalize hrow : db.holds.get holdId = row at hG
  generalize hrow' : db'.holds.get holdId = row' at hG
  cases hG with
  | @won r hold hk =>
    have hactive := hsure r rfl rfl hold hrow
    cases h with
    | nothing h => exact @Told.won holdId db' r [] _ hrow' rfl rfl rfl
    | won hget hs =>
      obtain rfl := Option.some.inj (hget.symm.trans hrow)
      rw [hactive] at hs
      cases hs
  | @lost r hold hs =>
    cases h with
    | nothing h => exact absurd ⟨hold, hrow, hs⟩ h
    | @won winner losers _ hget hs hby hat =>
      exact @Told.won holdId db' winner (r :: losers) _ (hrow'.trans (hrow.symm.trans hget)) hs hby hat
  | @placed _ _ _ _ hold hk hp hs =>
    cases h with
    | nothing h =>
      refine .nothing ?_
      rintro ⟨x, hx, hreleased⟩
      obtain rfl := Option.some.inj (hrow'.symm.trans hx)
      rw [hs] at hreleased
      cases hreleased
    | won hget => exact absurd (hget.symm.trans hrow) nofun
  | placedOther => exact h.stable (hrow'.trans hrow.symm)
  | deleted => exact h.stable (hrow'.trans hrow.symm)

theorem stages_replace {pre post : List Waiter} {x y : Waiter}
    (h : ∀ z ∈ pre ++ x :: post, ∀ r, z.call = .release r →
      Stage k holdId r db z.rest z.held z.pending)
    (hy : ∀ r, y.call = .release r → Stage k holdId r db y.rest y.held y.pending) :
    ∀ z ∈ pre ++ y :: post, ∀ r, z.call = .release r →
      Stage k holdId r db z.rest z.held z.pending := by
  intro z hz
  obtain hz | hz := List.mem_append.mp hz
  · exact h z (List.mem_append_left _ hz)
  · obtain rfl | hz := List.mem_cons.mp hz
    · exact hy
    · exact h z (List.mem_append_right _ (List.mem_cons_of_mem _ hz))

theorem mem_middle {pre post : List Waiter} {x z : Waiter} (h : z ∈ pre ++ post) :
    z ∈ pre ++ x :: post :=
  (List.mem_append.mp h).elim (List.mem_append_left _)
    (fun h => List.mem_append_right _ (List.mem_cons_of_mem _ h))

theorem Inv.step (h : Inv k holdId c) (hs : Interleaving.Step (workload k holdId) c label c')
    (hfresh : Fresh holdId c') : Inv k holdId c' := by
  have hdisciplined := Interleaving.disciplined_step
    (fun _ _ _ _ _ hG hI => Changed.keeps_placed hG hI) meets_guarantee h.disciplined hs
  refine ⟨hdisciplined, ?_, ?_⟩
  · cases hs with
    | @start _ call t hcall =>
      refine List.forall_mem_cons.mpr ⟨?_, h.stages⟩
      rintro r rfl
      obtain rfl := Option.some.inj hcall
      exact .started
    | @acquire db w m pre post call l t H p hl =>
      refine stages_replace h.stages (fun r hr => ?_)
      have hx := h.stages _ (List.mem_append_right _ List.mem_cons_self) r hr
      have hy := hfresh _ (List.mem_append_right _ List.mem_cons_self) r
      exact hx.acquired (fun hold => hy hold hr)
    | @query db w m pre post call f H p =>
      refine stages_replace h.stages (fun r hr => ?_)
      have hx := h.stages _ (List.mem_append_right _ List.mem_cons_self) r hr
      exact hx.queried h.disciplined.inv
    | @change db w m pre post call f t H p =>
      refine stages_replace h.stages (fun r hr => ?_)
      have hx := h.stages _ (List.mem_append_right _ List.mem_cons_self) r hr
      cases hx with
      | decided hx => exact .decided hx
    | @effect db w m pre post call f g H p =>
      refine stages_replace h.stages (fun r hr => ?_)
      have hx := h.stages _ (List.mem_append_right _ List.mem_cons_self) r hr
      cases hx with
      | decided hx => exact .decided (hx w)
    | @commit db w m pre post call a H p =>
      intro z hz r hr
      have hG : Guarantee k holdId call a H db (p db) :=
        h.disciplined.safe _ (List.mem_append_right _ List.mem_cons_self) db (.refl db)
      have hd := (Interleaving.exclusive_middle.mp h.disciplined.exclusive).2 z hz
      exact (h.stages z (mem_middle hz) r hr).stable
        (Relation.ReflTransGen.single ⟨call, a, H, hd, hG⟩)
    | rollback => exact fun z hz => h.stages z (mem_middle hz)
    | die => exact fun z hz => h.stages z (mem_middle hz)
  · cases hs with
    | start hcall => exact h.told
    | acquire hl => exact h.told
    | query => exact h.told
    | change => exact h.told
    | effect => exact h.told
    | @commit db w m pre post call a H p =>
      have hG : Guarantee k holdId call a H db (p db) :=
        h.disciplined.safe _ (List.mem_append_right _ List.mem_cons_self) db (.refl db)
      refine h.told.commit hG (fun r hr ha => ?_)
      have hx := h.stages _ (List.mem_append_right _ List.mem_cons_self) r hr
      cases hx with
      | decided hx => exact (hx ha).2
    | @rollback db w m pre post call e H p =>
      have hsame : finish call (.raised e) m = m := by cases call <;> rfl
      show Told holdId db (finish call (.raised e) m)
      rw [hsame]
      exact h.told
    | @die db w m pre post x =>
      have hsame : finish x.call .died m = m := by cases x.call <;> rfl
      show Told holdId db (finish x.call .died m)
      rw [hsame]
      exact h.told

theorem Runs.inv (h : Runs k holdId (Fresh holdId) c) : Inv k holdId c := by
  induction h with
  | start h =>
    refine ⟨⟨fun hold hget => (h hold hget).1, List.Pairwise.nil, nofun⟩, nofun, .nothing ?_⟩
    rintro ⟨hold, hget, hs⟩
    rw [(h hold hget).2] at hs
    cases hs
  | step _ hs hc ih => exact ih.step hs hc

/-- In the runs where no release writes a hold that was released after it read it, the first release
to return is the only one that returns `True`, and the hold is as it left it. -/
theorem released_once (h : Runs k holdId (Fresh holdId) c) : FirstWins holdId c := by
  have told := h.inv.told
  revert told
  generalize hm : c.memory = m
  intro told
  cases told with
  | nothing h => exact .inl hm
  | won hget hs hby hat => exact .inr ⟨_, _, hm, _, hget, hs, hby, hat⟩

end run

section waiter

variable {condition : Pool → Prop} {db db' : Catalog} {w w' : ObjectStore} {m : Answers}
  {post : List Waiter} {call : Call} {a : Option Bool} {t : Tx (Option Bool)} {H : Set Lock}
  {p : Catalog → Catalog}

/-- A session that runs while the others wait without a lock. -/
theorem Runs.alone (h : Runs k holdId condition ⟨db, w, m, ⟨call, t, H, p⟩ :: post⟩)
    (hpost : ∀ x ∈ post, x.held = ∅) (hrun : t.run (p db) w = (.ok (a, db'), w'))
    (hc : ∀ c : Pool, c.db = db → condition c)
    (hlast : condition ⟨db', w', finish call (.committed a) m, post⟩) :
    Runs k holdId condition ⟨db', w', finish call (.committed a) m, post⟩ := by
  have hquiet : ∃ H' p', Quiet (workload k holdId) ⟨db, w, m, ⟨call, t, H, p⟩ :: post⟩
      ⟨db, w', m, ⟨call, .done a, H', p'⟩ :: post⟩ ∧ p' db = db' :=
    Interleaving.quiet_done hpost t hrun
  obtain ⟨H', p', hquiet, rfl⟩ := hquiet
  have hdone : ∀ c : Pool, Quiet (workload k holdId) ⟨db, w, m, ⟨call, t, H, p⟩ :: post⟩ c →
      c.db = db ∧ Runs k holdId condition c := by
    intro c hq
    induction hq with
    | refl => exact ⟨rfl, h⟩
    | tail _ hs ih =>
      have hdb := (Interleaving.step_db hs.1).trans ih.1
      exact ⟨hdb, ih.2.step hs.1 (hc _ hdb)⟩
  exact (hdone _ hquiet).2.step (@Interleaving.Step.commit _ _ _ _ _ _ _ (workload k holdId) db w' m []
    post call a H' p') hlast

def attempt : AttemptKey := ⟨"t", "c", "a"⟩

def holding : Catalog :=
  { Catalog.empty with
    holds := Table.empty.insert (IngestionService.newHold attempt 7 "audit" "admin" 0) }

def releaseBy (credentialId : String) (now : Instant) : Release := ⟨credentialId, none, now, now⟩

theorem holding_unreleased : Unreleased attempt 7 holding := by
  intro hold hget
  obtain rfl := Option.some.inj ((rfl : holding.holds.get 7 = some _).symm.trans hget)
  exact ⟨rfl, rfl⟩

/-- A release that is to write the hold waits for the lock of its row. -/
theorem locked_active {r : Release} {hold : AttemptHold} (hs : hold.state = .active) :
    ∃ t, some <$> locked holdId r hold = .acquire (Tables.holds.row holdId) t := by
  rw [locked, if_neg (by rw [hs]; decide)]
  exact ⟨_, rfl⟩

theorem fresh_of_rest {x : Waiter} (h : ∀ t, x.rest ≠ .acquire (Tables.holds.row holdId) t) :
    Fresh holdId ⟨db, w, m, [x]⟩ := by
  intro y hy r hold _ hrest hs
  obtain rfl := List.mem_singleton.mp hy
  have acquires : ∃ t, some <$> locked holdId r hold = .acquire (Tables.holds.row holdId) t :=
    locked_active hs
  obtain ⟨t, ht⟩ := acquires
  exact absurd (hrest.trans ht) (h t)

/-- The first of two releases takes the hold back, the second one finds it released. -/
theorem released_once_second : ∃ c : Pool,
    c.memory = [(releaseBy "two" 2, false), (releaseBy "one" 1, true)] ∧ FirstWins 7 c := by
  have fresh : ∀ c : Pool, c.db = holding → Fresh 7 c := by
    intro c hdb x _ r hold _ _ _ row hget
    rw [hdb] at hget
    exact (holding_unreleased row hget).2
  have start : Runs attempt 7 (Fresh 7) ⟨holding, fun _ => none, [], []⟩ :=
    .start holding_unreleased
  have first := start.step (@Interleaving.Step.start _ _ _ _ _ _ _ (workload attempt 7) _
    (.release (releaseBy "one" 1)) _ rfl) (fresh _ rfl)
  have released := first.alone (fun x hx => absurd hx List.not_mem_nil) rfl fresh
    (fun x hx => absurd hx List.not_mem_nil)
  have second := released.step (@Interleaving.Step.start _ _ _ _ _ _ _ (workload attempt 7) _
    (.release (releaseBy "two" 2)) _ rfl) (fresh_of_rest (by rintro t ⟨⟩))
  have secondRead := second.step (@Interleaving.Step.query _ _ _ _ _ _ _ (workload attempt 7) _ _ _
    [] [] _ _ _ _) (fresh_of_rest (by rintro t ⟨⟩))
  have secondLocked := secondRead.step (@Interleaving.Step.acquire _ _ _ _ _ _ _
    (workload attempt 7) _ _ _ [] [] _ _ _ _ _
    (fun x hx => absurd hx List.not_mem_nil)) (fresh_of_rest (by rintro t ⟨⟩))
  have answered := secondLocked.step (@Interleaving.Step.commit _ _ _ _ _ _ _ (workload attempt 7)
    _ _ _ [] [] _ (some false) _ _) (fun x hx => absurd hx List.not_mem_nil)
  exact ⟨_, rfl, released_once answered⟩

/-- Two releases that wait for the lock with the same value of the hold both return `True`. -/
theorem released_twice : ¬∀ (k : AttemptKey) (holdId : Uuid) (c : Pool),
    Runs k holdId (fun _ => True) c → FirstWins holdId c := by
  intro h
  have start : Runs attempt 7 (fun _ => True) ⟨holding, fun _ => none, [], []⟩ :=
    .start holding_unreleased
  have first := start.step (@Interleaving.Step.start _ _ _ _ _ _ _ (workload attempt 7) _
    (.release (releaseBy "one" 1)) _ rfl) trivial
  have firstRead := first.step (@Interleaving.Step.query _ _ _ _ _ _ _ (workload attempt 7) _ _ _
    [] [] _ _ _ _) trivial
  have second := firstRead.step (@Interleaving.Step.start _ _ _ _ _ _ _ (workload attempt 7) _
    (.release (releaseBy "two" 2)) _ rfl) trivial
  have secondRead := second.step (@Interleaving.Step.query _ _ _ _ _ _ _ (workload attempt 7) _ _ _
    [] _ _ _ _ _) trivial
  have firstDone := secondRead.alone (fun x hx => by
    obtain rfl := List.mem_singleton.mp hx
    rfl) rfl (fun _ _ => trivial) trivial
  have secondDone := firstDone.alone nofun rfl (fun _ _ => trivial) trivial
  obtain hnone | ⟨winner, losers, hmemory, -⟩ := h _ _ _ secondDone
  · exact nomatch hnone
  · have twice := congrArg (fun m : Answers => m.countP (fun x => x.2)) hmemory
    have once : (losers.map (fun r => (r, false)) ++ [(winner, true)] : Answers).countP
        (fun x => x.2) = 1 := by
      simp [List.countP_append, List.countP_map, Function.comp_def]
    rw [once] at twice
    exact nomatch twice

end waiter

end HoldReleases

end RankLens
