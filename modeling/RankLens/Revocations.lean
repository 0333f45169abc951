import RankLens.Backfills
import RankLens.Credentials

namespace RankLens

open Interleaving (Rely Session Config Workload Reach Quiet)

namespace Interleaving

variable {σ ω L ε τ α μ : Type} {I I' : σ → Prop} {G G' : τ → α → Set L → σ → σ → Prop}
  {c : Config σ ω L ε τ α μ}

theorem Rely.mono (hG : ∀ call a H s s', G' call a H s s' → G call a H s s') {H : Set L} {s s' : σ}
    (h : Rely G' H s s') : Rely G H s s' := by
  refine Relation.ReflTransGen.mono ?_ s s' h
  rintro s₁ s₂ ⟨call, a, H', hd, hg⟩
  exact ⟨call, a, H', hd, hG call a H' s₁ s₂ hg⟩

/-- From a configuration on, more can be asked of the calls that are not open in it. -/
theorem Disciplined.strengthen (hG : ∀ call a H s s', G' call a H s s' → G call a H s s')
    (hopen : ∀ x ∈ c.sessions, ∀ a H s s', G x.call a H s s' → G' x.call a H s s')
    (hI : I' c.db) (h : Disciplined I G c) : Disciplined I' G' c := by
  refine ⟨hI, h.exclusive, fun x hx => ?_⟩
  have hsafe : x.rest.rwp (Rely G') (Commits G x.call) x.held c.db x.pending :=
    Txn.rwp_anti (fun _ _ _ hs => hs.mono hG) (h.safe x hx)
  refine Txn.rwp_mono hsafe (fun a H s p hcommits s' hs => ?_)
  exact hopen x hx a H s' (p s') (hcommits s' (hs.mono hG))

end Interleaving

namespace MachineAuthenticator

/-- A request to the service: one for any endpoint behind a permission, or a
revocation. The number tells two requests apart. -/
inductive Call where
  | serve (number : Nat) (authorization permission : String) (now : Instant)
  | revoke (number : Nat) (authorization : String) (now : Instant) (credentialId reason : String)
      (revokedAt : Instant)

inductive Reply where
  | served (principal : MachinePrincipal)
  | revoked (principal : MachinePrincipal) (revocation : MachineCredentialRevocation)

def Reply.principal : Reply → MachinePrincipal
  | .served p => p
  | .revoked p _ => p

variable (sha256 : Bytes → String) (credentials : List MachineCredential)

/-- The work of `revoke_machine_credential` for an authenticated principal. -/
def revoking (principal : MachinePrincipal) (credentialId reason : String) (revokedAt : Instant) :
    RevocationTx Reply := do
  let revocation ← revokeCredential credentials principal credentialId reason revokedAt
  pure (.revoked principal revocation)

/-- The session that authenticates only reads and ends before the endpoint's own begins. -/
def program : Call → RevocationTx Reply
  | .serve _ authorization permission now => do
    let principal ← authenticate sha256 credentials authorization permission now
    pure (.served principal)
  | .revoke _ authorization now credentialId reason revokedAt => do
    let principal ← authenticate sha256 credentials authorization "credentials:revoke" now
    revoking credentials principal credentialId reason revokedAt

def workload : Workload Revocations Unit RevocationLock Refusal Call Reply Unit where
  program _ call := some (program sha256 credentials call)
  finish _ _ m := m

abbrev Pool := Config Revocations Unit RevocationLock Refusal Call Reply Unit

def pool (t : Revocations) : Pool := ⟨t, (), (), []⟩

/-- A credential of the same tenant that may revoke stands behind the row, and another
credential of the tenant is what it revokes. -/
structure Authorized (r : MachineCredentialRevocation) : Prop where
  reason : ∃ reason, reasonInvalid reason = false ∧ r.reason = strip reason
  target : ∃ c ∈ credentials, revocationId c.principal = r.identity
  revoker : ∃ c ∈ credentials, revocationId c.principal = (r.tenantId, r.revokedByCredentialId) ∧
    "credentials:revoke" ∈ c.permissions
  other : r.revokedByCredentialId ≠ r.credentialId

inductive Effect (H : Set RevocationLock) (t : Revocations) : Reply → Revocations → Prop where
  | served {p : MachinePrincipal} : Effect H t (.served p) t
  | repeated {p : MachinePrincipal} {r : MachineCredentialRevocation} (hr : r ∈ t)
      (hby : (r.tenantId, r.revokedByCredentialId) = revocationId p) : Effect H t (.revoked p r) t
  | added {p : MachinePrincipal} {r : MachineCredentialRevocation} (hfree : t.get r.identity = none)
      (hrow : RevocationLock.row r.identity ∈ H) (hr : Authorized credentials r)
      (hby : (r.tenantId, r.revokedByCredentialId) = revocationId p) :
      Effect H t (.revoked p r) (t.insert r)

/-- A call that is not an old one is answered for nobody who is revoked. -/
def Guarantee (old : Call → Prop) (revoked : Set (String × String)) (call : Call) (a : Reply)
    (H : Set RevocationLock) (t t' : Revocations) : Prop :=
  Effect credentials H t a t' ∧ (¬old call → revocationId a.principal ∉ revoked)

def Revoked (revoked : Set (String × String)) (t : Revocations) : Prop :=
  ∀ identity ∈ revoked, t.get identity ≠ none

section guarantee

variable {sha256 credentials} {old : Call → Prop} {revoked : Set (String × String)}
  {H : Set RevocationLock} {t t' : Revocations} {p : Revocations → Revocations} {a : Reply}
  {call : Call} {c : MachineCredential} {r : MachineCredentialRevocation}
  {identity : String × String} {principal : MachinePrincipal}
  {authorization permission credentialId reason : String} {now revokedAt : Instant}

theorem Effect.grows (h : Effect credentials H t a t') (hr : r ∈ t) : r ∈ t' := by
  cases h with
  | served => exact hr
  | repeated => exact hr
  | added => exact Table.mem_insert_of_mem hr

theorem Effect.origin (h : Effect credentials H t a t') (hr : r ∈ t') :
    r ∈ t ∨ Authorized credentials r := by
  cases h with
  | served => exact Or.inl hr
  | repeated => exact Or.inl hr
  | added hfree hrow hnew =>
    rcases Table.mem_of_mem_insert hr with hr | rfl
    · exact Or.inl hr
    · exact Or.inr hnew

theorem get_ne_none : t.get identity ≠ none ↔ ∃ r ∈ t, r.identity = identity := by
  rw [Option.ne_none_iff_exists']
  constructor
  · rintro ⟨r, hr⟩
    exact ⟨r, Table.mem_of_get hr, Table.key_of_get hr⟩
  · rintro ⟨r, hr, rfl⟩
    exact ⟨r, Table.get_of_mem hr⟩

theorem Effect.keeps_revoked (h : Effect credentials H t a t') (hr : Revoked revoked t) :
    Revoked revoked t' := by
  intro identity hi
  obtain ⟨r, hmem, hid⟩ := get_ne_none.mp (hr identity hi)
  exact get_ne_none.mpr ⟨r, h.grows hmem, hid⟩

theorem Effect.keeps_free (h : Effect credentials H t a t')
    (hrow : RevocationLock.row identity ∉ H) (hfree : t.get identity = none) :
    t'.get identity = none := by
  cases h with
  | served => exact hfree
  | repeated => exact hfree
  | @added p r hnone hlock =>
    rw [Table.get_insert hnone, if_neg, hfree]
    rintro rfl
    exact hrow hlock

theorem rely_grows (h : Rely (Guarantee credentials old revoked) H t t') (hr : r ∈ t) : r ∈ t' :=
  h.preserves (P := fun t => r ∈ t) (fun _ _ _ _ _ _ hG hr => hG.1.grows hr) hr

theorem rely_revoked (h : Rely (Guarantee credentials old revoked) H t t')
    (hr : Revoked revoked t) : Revoked revoked t' :=
  h.preserves (P := Revoked revoked) (fun _ _ _ _ _ _ hG hr => hG.1.keeps_revoked hr) hr

theorem rely_free (h : Rely (Guarantee credentials old revoked) H t t')
    (hrow : RevocationLock.row identity ∈ H) (hfree : t.get identity = none) :
    t'.get identity = none := by
  refine h.preserves (P := fun t => t.get identity = none) (fun _ _ _ _ _ hd hG hfree => ?_) hfree
  exact hG.1.keeps_free (fun hlock => Set.disjoint_left.mp hd hlock hrow) hfree

theorem authenticate_rwp {Q : MachinePrincipal → Set RevocationLock → Revocations →
      (Revocations → Revocations) → Prop}
    (h : ∀ c ∈ credentials, permission ∈ c.permissions → ∀ t',
      Rely (Guarantee credentials old revoked) H t t' →
      (p t').get (revocationId c.principal) = none → Q c.principal H t' p) :
    (authenticate sha256 credentials authorization permission now).rwp
      (Rely (Guarantee credentials old revoked)) Q H t p := by
  unfold authenticate
  split
  · exact trivial
  split
  · exact trivial
  rename_i c hmatched
  simp only [Txn.rwp_bind, Txn.rwp_raiseIf, isRevoked, Ref.rwp_get, Txn.rwp_pure]
  intro _ t' hrely hrevoked hpermission
  refine h c (matched_some hmatched).1 (not_not.mp hpermission) t' hrely ?_
  exact Option.not_isSome_iff_eq_none.mp hrevoked

/-- What `revoke_credential` checks before it opens its session. -/
structure Revocable (credentials : List MachineCredential) (principal : MachinePrincipal)
    (credentialId reason : String) : Prop where
  reason : reasonInvalid reason = false
  other : credentialId ≠ principal.credentialId
  target : ∃ c ∈ credentials, revocationId c.principal = (principal.tenantId, credentialId)

theorem target_of_byId (h : ¬((byId credentials credentialId).all
      (fun target => target.principal.tenantId != principal.tenantId) = true)) :
    ∃ c ∈ credentials, revocationId c.principal = (principal.tenantId, credentialId) := by
  unfold byId at h
  cases hfind : credentials.find? (fun c => c.principal.credentialId = credentialId) with
  | none =>
    rw [hfind] at h
    exact absurd rfl h
  | some c =>
    rw [hfind] at h
    have hid := of_decide_eq_true
      (List.find?_some (p := fun c : MachineCredential =>
        decide (c.principal.credentialId = credentialId)) hfind)
    have htenant : c.principal.tenantId = principal.tenantId := by simpa using h
    exact ⟨c, List.mem_of_find?_eq_some hfind, by rw [revocationId, htenant, hid]⟩

theorem authorized_new (hr : Revocable credentials c.principal credentialId reason)
    (hc : c ∈ credentials) (hpermission : "credentials:revoke" ∈ c.permissions) :
    Authorized credentials (newRevocation c.principal credentialId reason revokedAt) :=
  ⟨⟨reason, hr.reason, rfl⟩, hr.target, ⟨c, hc, rfl, hpermission⟩, hr.other.symm⟩

theorem revokeCredential_rwp {Q : MachineCredentialRevocation → Set RevocationLock → Revocations →
      (Revocations → Revocations) → Prop}
    (hsome : ∀ H' t' r, H ⊆ H' → Rely (Guarantee credentials old revoked) H t t' →
      (p t').get (principal.tenantId, credentialId) = some r →
      r.revokedByCredentialId = principal.credentialId → Q r H' t' p)
    (hnone : ∀ H' t', Revocable credentials principal credentialId reason →
      RevocationLock.row (principal.tenantId, credentialId) ∈ H' →
      Rely (Guarantee credentials old revoked) H t t' →
      (p t').get (principal.tenantId, credentialId) = none →
      Q (newRevocation principal credentialId reason now) H' t'
        (fun t => (p t).insert (newRevocation principal credentialId reason now))) :
    (revokeCredential credentials principal credentialId reason now).rwp
      (Rely (Guarantee credentials old revoked)) Q H t p := by
  unfold revokeCredential
  simp only [Txn.rwp_bind, Txn.rwp_raiseIf, Txn.rwp_lock, Ref.rwp_get]
  intro hreason hother htarget t₁ h₁ t₂ h₂
  have hstep := h₁.trans (h₂.anti (Set.subset_insert _ H))
  split
  · next existing hget =>
    simp only [Txn.rwp_bind, Txn.rwp_raiseIf, Txn.rwp_pure]
    intro hsame
    have hby := not_not.mp (not_or.mp hsame).2
    exact hsome _ t₂ existing (Set.subset_insert _ H) hstep hget hby
  · next hget =>
    simp only [Txn.rwp_bind]
    refine Ref.rwp_insert (fun H' t₃ hH hrow h₃ htaken => ?_)
    simp only [Txn.rwp_pure]
    have hfree : (p t₃).get (principal.tenantId, credentialId) = none := by
      simp only [Ref.taken, revocationTable, Bool.or_eq_false_iff] at htaken
      exact Option.not_isSome_iff_eq_none.mp (Bool.not_eq_true _ |>.mpr htaken.1)
    exact hnone H' t₃ ⟨Bool.eq_false_of_not_eq_true hreason, hother, target_of_byId htarget⟩ hrow
      (hstep.trans (h₃.anti (Set.subset_insert _ H))) hfree

theorem unrevoked_of_read (hr : Revoked revoked t)
    (hget : t.get (revocationId principal) = none) : revocationId principal ∉ revoked :=
  fun hmem => hr _ hmem hget

theorem revoking_commits (hold : ¬old call → revocationId c.principal ∉ revoked)
    (hc : c ∈ credentials) (hpermission : "credentials:revoke" ∈ c.permissions) :
    (revoking credentials c.principal credentialId reason revokedAt).rwp
      (Rely (Guarantee credentials old revoked))
      (Interleaving.Commits (Guarantee credentials old revoked) call) H t id := by
  unfold revoking
  simp only [Txn.rwp_bind, Txn.rwp_pure]
  refine revokeCredential_rwp ?_ ?_
  · intro H' t' r _ _ hget hby t'' hrely
    have hkey := Table.key_of_get hget
    have htenant : r.tenantId = c.principal.tenantId := congrArg Prod.fst hkey
    exact ⟨.repeated (rely_grows hrely (Table.mem_of_get hget)) (by rw [htenant, hby]; rfl), hold⟩
  · intro H' t' hrevocable hrow _ hget t'' hrely
    exact ⟨.added (rely_free hrely hrow hget) hrow (authorized_new hrevocable hc hpermission) rfl,
      hold⟩

theorem meets_guarantee : Interleaving.Meets (workload sha256 credentials) (Revoked revoked)
    (Guarantee credentials old revoked) := by
  intro m call t s hcall hrevoked
  obtain rfl := Option.some.inj hcall
  cases call with
  | serve number authorization permission now =>
    simp only [program, Txn.rwp_bind]
    refine authenticate_rwp (fun c hc _ t' hrely hget t'' _ => ⟨.served, fun _ => ?_⟩)
    exact unrevoked_of_read (rely_revoked hrely hrevoked) hget
  | revoke number authorization now credentialId reason revokedAt =>
    simp only [program, Txn.rwp_bind]
    refine authenticate_rwp (fun c hc hpermission t' hrely hget => ?_)
    exact revoking_commits
      (fun _ => unrevoked_of_read (rely_revoked hrely hrevoked) hget) hc hpermission

end guarantee

section run

variable {sha256 credentials} {t t' t₀ : Revocations} {c c' : Pool} {call : Call} {a : Reply}

def Open (c : Pool) (call : Call) : Prop := ∃ x ∈ c.sessions, x.call = call

def identities (t : Revocations) : Set (String × String) := {identity | t.get identity ≠ none}

theorem pool_disciplined : Interleaving.Disciplined (Revoked ∅)
    (Guarantee credentials (fun _ => True) ∅) (pool t₀) :=
  ⟨fun _ hi => absurd hi (Set.notMem_empty _), List.Pairwise.nil,
    fun _ hx => absurd hx List.not_mem_nil⟩

theorem reach_disciplined (h : Reach (workload sha256 credentials) (pool t₀) c) :
    Interleaving.Disciplined (Revoked ∅) (Guarantee credentials (fun _ => True) ∅) c :=
  Interleaving.disciplined_reach (fun _ _ _ _ _ hG => hG.1.keeps_revoked) meets_guarantee
    pool_disciplined h

theorem later_disciplined (h : Reach (workload sha256 credentials) (pool t₀) c)
    (h' : Reach (workload sha256 credentials) c c') :
    Interleaving.Disciplined (Revoked (identities c.db))
      (Guarantee credentials (Open c) (identities c.db)) c' := by
  refine Interleaving.disciplined_reach (fun _ _ _ _ _ hG => hG.1.keeps_revoked) meets_guarantee
    ((reach_disciplined h).strengthen ?_ ?_ (fun _ hi => hi)) h'
  · exact fun call a H t t' hG => ⟨hG.1, fun _ => Set.notMem_empty _⟩
  · exact fun x hx a H t t' hG => ⟨hG.1, fun hn => absurd ⟨x, hx, rfl⟩ hn⟩

theorem step_effect (h : Reach (workload sha256 credentials) (pool t₀) c)
    (hs : Interleaving.Step (workload sha256 credentials) c (some (call, a)) c') :
    ∃ H, Effect credentials H c.db a c'.db := by
  obtain ⟨H, hG, _⟩ := Interleaving.commit_guarantee (reach_disciplined h) hs
  exact ⟨H, hG.1⟩

theorem reach_grows (h : Reach (workload sha256 credentials) (pool t₀) c)
    (h' : Reach (workload sha256 credentials) c c') {r : MachineCredentialRevocation}
    (hr : r ∈ c.db) : r ∈ c'.db := by
  induction h' with
  | init => exact hr
  | @step c₁ c₂ label hreach hs ih =>
    cases label with
    | none =>
      rw [Interleaving.step_db hs]
      exact ih
    | some answered =>
      obtain ⟨H, hE⟩ := @step_effect _ _ _ _ _ answered.1 answered.2 (h.trans hreach) hs
      exact hE.grows ih

theorem reach_origin (h : Reach (workload sha256 credentials) (pool t₀) c)
    {r : MachineCredentialRevocation} (hr : r ∈ c.db) : r ∈ t₀ ∨ Authorized credentials r := by
  induction h with
  | init => exact Or.inl hr
  | @step c₁ c₂ label hreach hs ih =>
    cases label with
    | none =>
      rw [Interleaving.step_db hs] at hr
      exact ih hr
    | some answered =>
      obtain ⟨H, hE⟩ := @step_effect _ _ _ _ _ answered.1 answered.2 hreach hs
      exact (hE.origin hr).elim ih Or.inr

/-- What holds of a configuration that was reached and of everything after it. -/
structure Permanent (sha256 : Bytes → String) (credentials : List MachineCredential)
    (t₀ : Revocations) (c : Pool) : Prop where
  authorized : ∀ r ∈ c.db, r ∈ t₀ ∨ Authorized credentials r
  kept : ∀ c', Reach (workload sha256 credentials) c c' → ∀ r ∈ c.db, r ∈ c'.db
  refused : ∀ c', Reach (workload sha256 credentials) c c' → ∀ call a c'',
    Interleaving.Step (workload sha256 credentials) c' (some (call, a)) c'' → ¬Open c call →
    ∀ r ∈ c.db, revocationId a.principal ≠ r.identity
  recorded : ∀ call p r c', Interleaving.Step (workload sha256 credentials) c
    (some (call, .revoked p r)) c' → r ∈ c'.db ∧
      (r.tenantId, r.revokedByCredentialId) = revocationId p

/-- However the requests interleave, a revocation is made by a credential of the tenant that may
make it, stays as it was made, and is obeyed by every request that begins after it. -/
theorem revocation_permanent (h : Reach (workload sha256 credentials) (pool t₀) c) :
    Permanent sha256 credentials t₀ c := by
  refine ⟨fun r hr => reach_origin h hr, fun c' h' r hr => reach_grows h h' hr, ?_, ?_⟩
  · intro c' h' call a c'' hs hnew r hr hid
    obtain ⟨H, hG, _⟩ := Interleaving.commit_guarantee (later_disciplined h h') hs
    exact hG.2 hnew (get_ne_none.mpr ⟨r, hr, hid.symm⟩)
  · intro call p r c' hs
    obtain ⟨H, hE⟩ := step_effect h hs
    generalize hdb : c'.db = t' at hE
    cases hE with
    | repeated hr hby => exact ⟨hdb ▸ hr, hby⟩
    | added hfree hrow hr hby => exact ⟨(Table.mem_insert hfree).mpr (Or.inr rfl), hby⟩

end run

section turns

variable {sha256 credentials} {t t' : Revocations} {a b c : MachineCredential} {call : Call}
  {credentialId reason : String} {p principal : MachinePrincipal} {revokedAt now : Instant}

def after (sha256 : Bytes → String) (credentials : List MachineCredential) (t : Revocations)
    (call : Call) : Revocations :=
  ((program sha256 credentials call).atomically t ()).2.1

/-- A credential of the tenant that may revoke and is not revoked. -/
def Administered (credentials : List MachineCredential) (tenantId : String) (t : Revocations) :
    Prop :=
  ∃ c ∈ credentials, c.principal.tenantId = tenantId ∧ "credentials:revoke" ∈ c.permissions ∧
    t.get (revocationId c.principal) = none

theorem Effect.alone {H : Set RevocationLock} {reply : Reply}
    (h : Effect credentials H t reply t') (hnot : t.get (revocationId reply.principal) = none) :
    t' = t ∨ ∃ r, t.get r.identity = none ∧ Authorized credentials r ∧
      t.get (r.tenantId, r.revokedByCredentialId) = none ∧ t' = t.insert r := by
  cases h with
  | served => exact Or.inl rfl
  | repeated => exact Or.inl rfl
  | @added q r hfree hrow hr hby => exact Or.inr ⟨r, hfree, hr, by rw [hby]; exact hnot, rfl⟩

theorem after_cases : after sha256 credentials t call = t ∨
    ∃ r, t.get r.identity = none ∧ Authorized credentials r ∧
      t.get (r.tenantId, r.revokedByCredentialId) = none ∧
      after sha256 credentials t call = t.insert r := by
  unfold after Txn.atomically
  cases hrun : (program sha256 credentials call).run t () with
  | mk result w =>
    cases result with
    | error e => exact Or.inl rfl
    | ok answered =>
      obtain ⟨reply, t'⟩ := answered
      have hquiet : ∃ H p, Quiet (workload sha256 credentials)
          ⟨t, (), (), [⟨call, program sha256 credentials call, ∅, id⟩]⟩
          ⟨t, w, (), [⟨call, .done reply, H, p⟩]⟩ ∧ p t = t' :=
        Interleaving.quiet_done (fun x hx => absurd hx List.not_mem_nil) _ hrun
      obtain ⟨H, p, hquiet, rfl⟩ := hquiet
      have hreach : Reach (workload sha256 credentials) (pool t)
          ⟨t, w, (), [⟨call, .done reply, H, p⟩]⟩ :=
        (Reach.init.step (.start rfl)).trans (Interleaving.reach_of_quiet hquiet)
      have hs := @Interleaving.Step.commit _ _ _ _ _ _ _ (workload sha256 credentials) t w () [] []
        call reply H p
      obtain ⟨H', hG, -⟩ := Interleaving.commit_guarantee
        (later_disciplined (.init : Reach _ (pool t) (pool t)) hreach) hs
      have hnot : t.get (revocationId reply.principal) = none := by
        by_contra hget
        refine hG.2 ?_ hget
        rintro ⟨x, hx, -⟩
        exact List.not_mem_nil hx
      exact hG.1.alone hnot

theorem Administered.insert {tenantId : String} {r : MachineCredentialRevocation}
    (h : Administered credentials tenantId t) (hfree : t.get r.identity = none)
    (hr : Authorized credentials r) (hby : t.get (r.tenantId, r.revokedByCredentialId) = none) :
    Administered credentials tenantId (t.insert r) := by
  by_cases htenant : r.tenantId = tenantId
  · obtain ⟨c, hc, hid, hpermission⟩ := hr.revoker
    refine ⟨c, hc, (congrArg Prod.fst hid).trans htenant, hpermission, ?_⟩
    rw [hid, Table.get_insert hfree, if_neg, hby]
    exact fun h => hr.other (congrArg Prod.snd h).symm
  · obtain ⟨c, hc, hct, hpermission, hget⟩ := h
    refine ⟨c, hc, hct, hpermission, ?_⟩
    rw [Table.get_insert hfree, if_neg, hget]
    exact fun h => htenant ((congrArg Prod.fst h).trans hct)

/-- Requests served one after the other leave a tenant a credential that may revoke. -/
theorem administered_in_turn {tenantId : String} (calls : List Call)
    (h : Administered credentials tenantId t) :
    Administered credentials tenantId (calls.foldl (after sha256 credentials) t) := by
  induction calls generalizing t with
  | nil => exact h
  | cons call calls ih =>
    refine ih ?_
    obtain heq | ⟨r, hfree, hr, hby, heq⟩ := @after_cases sha256 credentials t call
    · rw [heq]
      exact h
    · rw [heq]
      exact h.insert hfree hr hby

/-- Two credentials of one tenant that may revoke and stand, each behind its own header. -/
structure Rivals (sha256 : Bytes → String) (credentials : List MachineCredential) (now : Instant)
    (t : Revocations) (a b : MachineCredential) (headerA headerB : String) : Prop where
  configured : Configured credentials
  members : a ∈ credentials ∧ b ∈ credentials
  distinct : a ≠ b
  tenant : a.principal.tenantId = b.principal.tenantId
  permitted : "credentials:revoke" ∈ a.permissions ∧ "credentials:revoke" ∈ b.permissions
  stand : Stands now t a ∧ Stands now t b
  present : Presents sha256 headerA a ∧ Presents sha256 headerB b

variable {headerA headerB : String}

theorem Rivals.swap (h : Rivals sha256 credentials now t a b headerA headerB) :
    Rivals sha256 credentials now t b a headerB headerA :=
  ⟨h.configured, h.members.symm, h.distinct.symm, h.tenant.symm, h.permitted.symm, h.stand.symm,
    h.present.symm⟩

theorem Rivals.ids (h : Rivals sha256 credentials now t a b headerA headerB) :
    b.principal.credentialId ≠ a.principal.credentialId := fun heq =>
  h.distinct.symm (List.inj_on_of_nodup_map h.configured.ids h.members.2 h.members.1 heq)

theorem byId_of_mem (hc : Configured credentials) (h : c ∈ credentials) :
    byId credentials c.principal.credentialId = some c := by
  unfold byId
  cases hfind : credentials.find?
      (fun c' => c'.principal.credentialId = c.principal.credentialId) with
  | none => exact absurd (decide_eq_true rfl) (List.find?_eq_none.mp hfind c h)
  | some c' =>
    have hid := of_decide_eq_true (List.find?_some (p := fun c' : MachineCredential =>
      decide (c'.principal.credentialId = c.principal.credentialId)) hfind)
    rw [List.inj_on_of_nodup_map hc.ids (List.mem_of_find?_eq_some hfind) h hid]

theorem Rivals.program_eq (h : Rivals sha256 credentials now t a b headerA headerB) (n : Nat)
    (reason : String) : program sha256 credentials
      (.revoke n headerA now b.principal.credentialId reason revokedAt) =
    .query (fun t' => if (t'.get (revocationId a.principal)).isSome = true then .fail invalid
      else revoking credentials a.principal b.principal.credentialId reason revokedAt) := by
  obtain ⟨supplied, hbearer, hdigest⟩ := h.present.1
  have hwithin : ¬within a now = false := (stands_iff.mp h.stand.1).1
  have hpermitted := not_not.mpr h.permitted.1
  simp only [program, authenticate, hbearer, hdigest, matched_of_mem h.configured h.members.1,
    Txn.raiseIf, if_neg hwithin, if_neg hpermitted]
  refine congrArg Txn.query (funext fun t' => ?_)
  by_cases hrevoked : (t'.get (revocationId a.principal)).isSome = true
  · rw [if_pos hrevoked]
    show (Txn.bind (Txn.bind (if (t'.get (revocationId a.principal)).isSome = true then _ else _) _)
      _ : RevocationTx Reply) = _
    rw [if_pos hrevoked]
    rfl
  · rw [if_neg hrevoked]
    show (Txn.bind (Txn.bind (if (t'.get (revocationId a.principal)).isSome = true then _ else _) _)
      _ : RevocationTx Reply) = _
    rw [if_neg hrevoked]
    rfl

theorem Rivals.revoking_run (h : Rivals sha256 credentials now t a b headerA headerB)
    (hreason : reasonInvalid reason = false) {t' : Revocations}
    (hfree : t'.get (revocationId b.principal) = none) :
    (revoking credentials a.principal b.principal.credentialId reason revokedAt).run t' () =
      (.ok (.revoked a.principal
        (newRevocation a.principal b.principal.credentialId reason revokedAt),
        t'.insert (newRevocation a.principal b.principal.credentialId reason revokedAt)), ()) := by
  have hvalid : ¬reasonInvalid reason = true := by rw [hreason]; exact Bool.false_ne_true
  have htarget : ¬((byId credentials b.principal.credentialId).all
      (fun target => target.principal.tenantId != a.principal.tenantId) = true) := by
    rw [byId_of_mem h.configured h.members.2]
    simp [h.tenant]
  have hget : t'.get (a.principal.tenantId, b.principal.credentialId) = none := by
    rw [h.tenant]
    exact hfree
  unfold revoking revokeCredential
  simp only [Txn.raiseIf, if_neg hvalid, if_neg h.ids, if_neg htarget]
  simp [Txn.run, Txn.bind, bind, Txn.lock, Ref.get, Txn.read, revocationTable, hget, Ref.insert,
    Ref.taken, Ref.clashes, pure, Ref.lockAll, Txn.forEach, Txn.raiseIf, Txn.write, newRevocation,
    MachineCredentialRevocation.identity]

theorem Rivals.program_run (h : Rivals sha256 credentials now t a b headerA headerB)
    (hreason : reasonInvalid reason = false) (n : Nat) :
    (program sha256 credentials
      (.revoke n headerA now b.principal.credentialId reason revokedAt)).run t () =
      (.ok (.revoked a.principal
        (newRevocation a.principal b.principal.credentialId reason revokedAt),
        t.insert (newRevocation a.principal b.principal.credentialId reason revokedAt)), ()) := by
  have hrevoked : ¬(t.get (revocationId a.principal)).isSome = true := (stands_iff.mp h.stand.1).2
  rw [h.program_eq, Txn.run, if_neg hrevoked]
  exact h.revoking_run hreason h.stand.2.unrevoked

/-- When the requests overlap, each of the two can revoke the other. -/
theorem rivals_revoke_each_other (h : Rivals sha256 credentials now t a b headerA headerB)
    (hreason : reasonInvalid reason = false) :
    ∃ c, Reach (workload sha256 credentials) (pool t) c ∧ c.sessions = [] ∧
      c.db.get (revocationId a.principal) =
        some (newRevocation b.principal a.principal.credentialId reason revokedAt) ∧
      c.db.get (revocationId b.principal) =
        some (newRevocation a.principal b.principal.credentialId reason revokedAt) := by
  let callA : Call := .revoke 0 headerA now b.principal.credentialId reason revokedAt
  let callB : Call := .revoke 1 headerB now a.principal.credentialId reason revokedAt
  let rowA := newRevocation a.principal b.principal.credentialId reason revokedAt
  let rowB := newRevocation b.principal a.principal.credentialId reason revokedAt
  let waiting := revoking credentials a.principal b.principal.credentialId reason revokedAt
  have hrevoked : ¬(t.get (revocationId a.principal)).isSome = true := (stands_iff.mp h.stand.1).2
  have hkeyB : rowB.identity = revocationId a.principal := by
    show (b.principal.tenantId, a.principal.credentialId) = _
    rw [← h.tenant]
    rfl
  have hkeyA : rowA.identity = revocationId b.principal := by
    show (a.principal.tenantId, b.principal.credentialId) = _
    rw [h.tenant]
    rfl
  have hne : revocationId a.principal ≠ revocationId b.principal := fun heq =>
    h.ids (congrArg Prod.snd heq).symm
  have hfreeB : t.get rowB.identity = none := by
    rw [hkeyB]
    exact h.stand.1.unrevoked
  have hfreeA : (t.insert rowB).get (revocationId b.principal) = none := by
    rw [Table.get_insert hfreeB, hkeyB, if_neg hne]
    exact h.stand.2.unrevoked
  -- the first authenticates and waits
  have hstartA : Reach (workload sha256 credentials) (pool t)
      ⟨t, (), (), [⟨callA, program sha256 credentials callA, ∅, id⟩]⟩ :=
    Reach.init.step (.start rfl)
  have hread : Reach (workload sha256 credentials) (pool t)
      ⟨t, (), (), [⟨callA, waiting, ∅, id⟩]⟩ := by
    refine hstartA.step (?_ : Interleaving.Step _ _ none _)
    rw [h.program_eq]
    have hstep := @Interleaving.Step.query _ _ _ _ _ _ _ (workload sha256 credentials) t () () []
      [] callA (fun t' => if (t'.get (revocationId a.principal)).isSome = true then .fail invalid
        else waiting) ∅ id
    rw [id, if_neg hrevoked] at hstep
    exact hstep
  -- the second runs through
  have hstartB : Reach (workload sha256 credentials) (pool t)
      ⟨t, (), (), [⟨callB, program sha256 credentials callB, ∅, id⟩, ⟨callA, waiting, ∅, id⟩]⟩ :=
    hread.step (.start rfl)
  have hquietB : ∃ H p, Quiet (workload sha256 credentials)
      ⟨t, (), (), [⟨callB, program sha256 credentials callB, ∅, id⟩, ⟨callA, waiting, ∅, id⟩]⟩
      ⟨t, (), (), [⟨callB, .done (.revoked b.principal rowB), H, p⟩, ⟨callA, waiting, ∅, id⟩]⟩ ∧
        p t = t.insert rowB :=
    Interleaving.quiet_done (fun x hx => by rw [List.mem_singleton.mp hx]) _
      (h.swap.program_run hreason 1)
  obtain ⟨HB, pB, hquietB, hpB⟩ := hquietB
  have hcommitB : Reach (workload sha256 credentials) (pool t)
      ⟨t.insert rowB, (), (), [⟨callA, waiting, ∅, id⟩]⟩ := by
    rw [← hpB]
    exact (hstartB.trans (Interleaving.reach_of_quiet hquietB)).step
      (@Interleaving.Step.commit _ _ _ _ _ _ _ (workload sha256 credentials) t () () []
        [⟨callA, waiting, ∅, id⟩] callB (.revoked b.principal rowB) HB pB)
  -- and the first carries on
  have hquietA : ∃ H p, Quiet (workload sha256 credentials)
      ⟨t.insert rowB, (), (), [⟨callA, waiting, ∅, id⟩]⟩
      ⟨t.insert rowB, (), (), [⟨callA, .done (.revoked a.principal rowA), H, p⟩]⟩ ∧
        p (t.insert rowB) = (t.insert rowB).insert rowA :=
    Interleaving.quiet_done (fun x hx => absurd hx List.not_mem_nil) _
      (h.revoking_run hreason hfreeA)
  obtain ⟨HA, pA, hquietA, hpA⟩ := hquietA
  have hcommitA : Reach (workload sha256 credentials) (pool t)
      ⟨(t.insert rowB).insert rowA, (), (), []⟩ := by
    rw [← hpA]
    exact (hcommitB.trans (Interleaving.reach_of_quiet hquietA)).step
      (@Interleaving.Step.commit _ _ _ _ _ _ _ (workload sha256 credentials) (t.insert rowB) () ()
        [] [] callA (.revoked a.principal rowA) HA pA)
  have hfreeA' : (t.insert rowB).get rowA.identity = none := by
    rw [hkeyA]
    exact hfreeA
  refine ⟨_, hcommitA, rfl, ?_, ?_⟩
  · rw [Table.get_insert hfreeA', hkeyA, if_neg hne.symm, Table.get_insert hfreeB, if_pos hkeyB]
  · rw [Table.get_insert hfreeA', if_pos hkeyA]

theorem rivals_sample : Rivals Sample.tokenSha256 Sample.administrators 7 Table.empty
    ⟨"f13df11e9db3bab50873f13a43e07a7cbe447c8cd0f350838ef6bddbd86dbc6f", ⟨"acme", ["c1"], "audit"⟩,
      ["credentials:revoke", "telemetry:read"], none, none⟩
    ⟨"ac462d5ea711c0c669b939e029ae18ab516c59a375500541870b365e489228ac", ⟨"acme", ["c1"], "admin"⟩,
      ["credentials:revoke"], none, none⟩ "Bearer audit-token-1" "bearer admin-token-2" where
  configured := Sample.administrators_configured
  members := ⟨List.mem_cons_self, List.mem_cons_of_mem _ List.mem_cons_self⟩
  distinct := by decide
  tenant := rfl
  permitted := ⟨by decide, by decide⟩
  stand := ⟨⟨rfl, rfl⟩, ⟨rfl, rfl⟩⟩
  present := ⟨⟨"audit-token-1", by decide +kernel, by decide +kernel⟩,
    ⟨"admin-token-2", by decide +kernel, by decide +kernel⟩⟩

theorem leaked_valid : reasonInvalid " leaked " = false := by
  unfold reasonInvalid
  decide +kernel

theorem administered_in_turn_sample : Administered Sample.administrators "acme"
    ([Call.revoke 0 "Bearer audit-token-1" 7 "admin" " leaked " 8,
      Call.revoke 1 "bearer admin-token-2" 7 "audit" " leaked " 9].foldl
      (after Sample.tokenSha256 Sample.administrators) Table.empty) := by
  refine administered_in_turn _ ?_
  exact ⟨_, rivals_sample.members.1, rfl, rivals_sample.permitted.1,
    rivals_sample.stand.1.unrevoked⟩

theorem rivals_revoke_each_other_sample :
    ∃ c, Reach (workload Sample.tokenSha256 Sample.administrators) (pool Table.empty) c ∧
      c.sessions = [] ∧
      c.db.get ("acme", "audit") = some ⟨"acme", "audit", "leaked", "admin", 8⟩ ∧
      c.db.get ("acme", "admin") = some ⟨"acme", "admin", "leaked", "audit", 8⟩ := by
  have hstrip : strip " leaked " = "leaked" := by decide +kernel
  obtain ⟨c, hc, hquiet, hA, hB⟩ := @rivals_revoke_each_other _ _ _ _ _ " leaked " 8 7 _ _
    rivals_sample leaked_valid
  rw [newRevocation, hstrip] at hA hB
  exact ⟨c, hc, hquiet, hA, hB⟩

end turns

theorem revocation_permanent_sample : ∃ c r,
    Reach (workload Sample.tokenSha256 Sample.administrators) (pool Table.empty) c ∧ r ∈ c.db ∧
      Permanent Sample.tokenSha256 Sample.administrators Table.empty c := by
  obtain ⟨c, hc, hs⟩ := Interleaving.alone_commits (m := ())
    (W := workload Sample.tokenSha256 Sample.administrators) rfl
    (@Rivals.program_run _ _ _ _ _ " leaked " 8 7 _ _ rivals_sample leaked_valid 0)
  have hreach := hc.step hs
  exact ⟨_, _, hreach, (Table.mem_insert rfl).mpr (Or.inr rfl), revocation_permanent hreach⟩

end MachineAuthenticator

end RankLens
