import RankLens.Punctual
import RankLens.Revisions

namespace RankLens

open Interleaving (Rely Session Config Workload Ending Reach)

theorem Txn.rwp_anti {σ ω L ε α : Type} {rely rely' : Set L → σ → σ → Prop} {t : Txn σ ω L ε α}
    {Q : α → Set L → σ → (σ → σ) → Prop} {H : Set L} {s : σ} {p : σ → σ}
    (h' : ∀ H s s', rely' H s s' → rely H s s') (h : t.rwp rely Q H s p) : t.rwp rely' Q H s p := by
  induction t generalizing H s p with
  | done a => exact h
  | fail e => trivial
  | acquire l t ih => exact fun s' hs => ih (h s' (h' H s s' hs))
  | query k ih => exact fun s' hs => ih _ (h s' (h' H s s' hs))
  | change f t ih => exact ih (p := f ∘ p) h
  | effect f k ih => exact fun w => ih w (h w)

namespace Interleaving

section pool

variable {σ ω L ε τ α μ : Type} {W : Workload σ ω L ε τ α μ} {R : τ → α → Set L → σ → σ → Prop}
  {Q : τ → α → Set L → σ → (σ → σ) → Prop} {c c' : Config σ ω L ε τ α μ} {label : Option (τ × α)}

/-- The session reaches its commit with what `Q` says of its call. -/
def Session.Promises (R : τ → α → Set L → σ → σ → Prop)
    (Q : τ → α → Set L → σ → (σ → σ) → Prop) (x : Session σ ω L ε τ α) (s : σ) : Prop :=
  x.rest.rwp (Rely R) (Q x.call) x.held s x.pending

structure Promising (R : τ → α → Set L → σ → σ → Prop) (Q : τ → α → Set L → σ → (σ → σ) → Prop)
    (c : Config σ ω L ε τ α μ) : Prop where
  exclusive : Exclusive c.sessions
  promises : ∀ x ∈ c.sessions, x.Promises R Q c.db

theorem promising_replace {db : σ} {w w' : ω} {m m' : μ} {pre post : List (Session σ ω L ε τ α)}
    {x y : Session σ ω L ε τ α} (h : Promising R Q ⟨db, w, m, pre ++ x :: post⟩)
    (hheld : ∀ z ∈ pre ++ post, Disjoint y.held z.held) (hy : y.Promises R Q db) :
    Promising R Q ⟨db, w', m', pre ++ y :: post⟩ := by
  refine ⟨exclusive_middle.mpr ⟨(exclusive_middle.mp h.exclusive).1, hheld⟩, ?_⟩
  intro z hz
  rcases List.mem_append.mp hz with hz | hz
  · exact h.promises z (List.mem_append_left _ hz)
  · rcases List.mem_cons.mp hz with rfl | hz
    · exact hy
    · exact h.promises z (List.mem_append_right _ (List.mem_cons_of_mem _ hz))

theorem promising_remove {db : σ} {w w' : ω} {m m' : μ} {pre post : List (Session σ ω L ε τ α)}
    {x : Session σ ω L ε τ α} (h : Promising R Q ⟨db, w, m, pre ++ x :: post⟩) :
    Promising R Q ⟨db, w', m', pre ++ post⟩ := by
  refine ⟨(exclusive_middle.mp h.exclusive).1, fun z hz => ?_⟩
  rcases List.mem_append.mp hz with hz | hz
  · exact h.promises z (List.mem_append_left _ hz)
  · exact h.promises z (List.mem_append_right _ (List.mem_cons_of_mem _ hz))

/-- Every step keeps the promises, when what a commit does is within what the others allow for and
a new session starts with its promise. -/
theorem promising_step
    (hQ : ∀ call a H s s' p, Rely R H s s' → Q call a H s p → Q call a H s' p)
    (hstart : ∀ call t, W.program c.memory call = some t → t.rwp (Rely R) (Q call) ∅ c.db id)
    (hcommit : ∀ call a H p, label = some (call, a) → Q call a H c.db p → c'.db = p c.db →
      R call a H c.db c'.db)
    (h : Promising R Q c) (hs : Step W c label c') : Promising R Q c' := by
  cases hs with
  | start hp =>
    rename_i call t
    refine ⟨List.pairwise_cons.mpr ⟨fun y _ => Set.empty_disjoint _, h.exclusive⟩, ?_⟩
    intro x hx
    rcases List.mem_cons.mp hx with rfl | hx
    · exact hstart call t hp
    · exact h.promises x hx
  | @acquire db w m pre post call l t H p hl =>
    have hx := h.promises _ (List.mem_append_right _ List.mem_cons_self)
    refine promising_replace h ?_ (hx db (Rely.refl db))
    intro z hz
    exact Set.disjoint_insert_left.mpr ⟨hl z hz, (exclusive_middle.mp h.exclusive).2 z hz⟩
  | @query db w m pre post call k H p =>
    have hx := h.promises _ (List.mem_append_right _ List.mem_cons_self)
    exact promising_replace h (exclusive_middle.mp h.exclusive).2 (hx db (Rely.refl db))
  | @change db w m pre post call f t H p =>
    have hx := h.promises _ (List.mem_append_right _ List.mem_cons_self)
    exact promising_replace h (exclusive_middle.mp h.exclusive).2 hx
  | @effect db w m pre post call f k H p =>
    have hx := h.promises _ (List.mem_append_right _ List.mem_cons_self)
    exact promising_replace h (exclusive_middle.mp h.exclusive).2 (hx w)
  | @commit db w m pre post call a H p =>
    have hx : Q call a H db p := h.promises _ (List.mem_append_right _ List.mem_cons_self)
    have hR : R call a H db (p db) := hcommit call a H p rfl hx rfl
    have hr : Promising R Q ⟨db, w, m, pre ++ post⟩ := promising_remove h
    refine ⟨hr.exclusive, fun z hz => ?_⟩
    have hd := (exclusive_middle.mp h.exclusive).2 z hz
    refine Txn.rwp_stable ?_ ?_ (Relation.ReflTransGen.single ⟨call, a, H, hd, hR⟩)
      (hr.promises z hz)
    · exact fun _ _ _ _ h₁ h₂ => h₁.trans h₂
    · exact fun a H s s' p hs hq => hQ z.call a H s s' p hs hq
  | rollback => exact promising_remove h
  | die => exact promising_remove h

theorem alone_commits {db db' : σ} {w w' : ω} {m : μ} {call : τ} {t : Txn σ ω L ε α} {a : α}
    (hcall : W.program m call = some t) (hrun : t.run db w = (.ok (a, db'), w')) :
    ∃ c, Reach W ⟨db, w, m, []⟩ c ∧
      Step W c (some (call, a)) ⟨db', w', W.finish call (.committed a) m, []⟩ := by
  have hstart : Reach W ⟨db, w, m, []⟩ ⟨db, w, m, [⟨call, t, ∅, id⟩]⟩ := Reach.init.step (.start hcall)
  have hquiet : ∃ H' p', Quiet W ⟨db, w, m, [⟨call, t, ∅, id⟩]⟩ ⟨db, w', m, [⟨call, .done a, H', p'⟩]⟩ ∧
      p' db = db' := quiet_done (fun _ hx => (List.not_mem_nil hx).elim) t hrun
  obtain ⟨H, p, hquiet, rfl⟩ := hquiet
  exact ⟨_, hstart.trans (reach_of_quiet hquiet), @Step.commit _ _ _ _ _ _ _ W db w' m [] [] call a H p⟩

end pool

end Interleaving

namespace IngestionService

variable (env : Env)

def previewDecision (q : BackfillRequest) (plan : BackfillPlan) : RetentionPolicyBackfillDecision where
  tenantId := q.tenantId
  clusterId := q.clusterId
  policyVersion := q.policyVersion
  logicalCaseId := plan.policy.logicalCaseId
  candidateDigest := plan.candidateDigest
  eligibleAttempts := plan.attempts.length
  dueAttempts := plan.dueAttempts
  updatedAttempts := 0
  sourcePolicyVersion := q.sourcePolicyVersion
  reason := q.reason.map strip
  backfillId := none
  requestedByCredentialId := none
  requestedAt := none

def previewRetentionPolicyBackfill (q : BackfillRequest) (now : Instant) :
    Tx RetentionPolicyBackfillDecision :=
  previewDecision q <$> retentionBackfillDecision env q now []

def eligible (q : BackfillRequest) (logicalCaseId : Option String) (c : Catalog)
    (r : AttemptRecord) : Bool :=
  r.tenantId = q.tenantId && r.clusterId = q.clusterId && (c.deletions.get r.attempt).isNone &&
    r.retentionPolicyVersion = q.sourcePolicyVersion &&
    (logicalCaseId.isNone || r.logicalCaseId = logicalCaseId)

def eligibleAttempts (q : BackfillRequest) (logicalCaseId : Option String) (c : Catalog) :
    List AttemptRecord :=
  (c.records.select (eligible q logicalCaseId c)).insertionSort (fun a b => a.attemptId ≤ b.attemptId)

def dueAttempts (policy : RetentionPolicyRevision) (now : Instant) (attempts : List AttemptRecord) :
    Nat :=
  (attempts.filter (fun a => 0 < policy.retentionSeconds &&
    retentionDeadlineIsDue (a.firstAdmittedAt + seconds policy.retentionSeconds) now)).length

theorem mem_eligibleAttempts {q : BackfillRequest} {logicalCaseId : Option String} {c : Catalog}
    {r : AttemptRecord} : r ∈ eligibleAttempts q logicalCaseId c ↔ r ∈ c.records ∧
      r.tenantId = q.tenantId ∧ r.clusterId = q.clusterId ∧ c.deletions.get r.attempt = none ∧
      r.retentionPolicyVersion = q.sourcePolicyVersion ∧
      (logicalCaseId = none ∨ r.logicalCaseId = logicalCaseId) := by
  rw [eligibleAttempts, List.mem_insertionSort, Table.mem_select]
  simp only [eligible, Bool.and_eq_true, Bool.or_eq_true, decide_eq_true_eq,
    Option.isNone_iff_eq_none, and_assoc]

end IngestionService

namespace Backfills

open IngestionService (eligibleAttempts dueAttempts setRetention newItem newBackfill admitAgain)

/-- A preview that was answered, and what its decision was computed from. -/
structure Preview where
  request : BackfillRequest
  plan : BackfillPlan
deriving DecidableEq

inductive Call where
  | preview (q : BackfillRequest) (now : Instant)
  | confirm (p : Preview) (q : BackfillRequest) (credentialId : String) (fresh : Uuid) (now : Instant)
  | service (call : RankLens.Call)

inductive Reply where
  | previewed (plan : BackfillPlan)
  | service (a : RankLens.Reply)

/-- The previews answered so far, and what the other callers remember. -/
structure History where
  previews : List Preview
  others : Memory

/-- The calls of the services that run beside the backfills. -/
def beside : RankLens.Call → Bool
  | .admitReserve .. => true
  | .admitPut .. => true
  | .admitCommit .. => true
  | .admitCrash .. => true
  | .deleteAttempt .. => true
  | .placeAttemptHold .. => true
  | .releaseAttemptHold .. => true
  | .createRetentionPolicyRevision .. => true
  | .cancelRetentionPolicyRevision .. => true
  | .applyRetentionPolicyBackfill .. => true
  | _ => false

/-- The request is the previewed one, up to its bound and its reason. -/
def Preview.Covers (p : Preview) (q : BackfillRequest) : Prop :=
  q.tenantId = p.request.tenantId ∧ q.clusterId = p.request.clusterId ∧
    q.policyVersion = p.request.policyVersion ∧
    q.sourcePolicyVersion = p.request.sourcePolicyVersion

instance (p : Preview) (q : BackfillRequest) : Decidable (p.Covers q) :=
  inferInstanceAs (Decidable (_ ∧ _ ∧ _ ∧ _))

/-- A preview runs as `previewRetentionPolicyBackfill`. A confirmation applies the backfill with the
counts and the digest of a preview answered before. -/
def program (env : Env) (settings : IngestionSettings) (m : History) : Call → Option (Tx Reply)
  | .preview q now => some (.previewed <$> IngestionService.retentionBackfillDecision env q now [])
  | .confirm p q credentialId fresh now =>
    if p ∈ m.previews ∧ p.Covers q then
      some ((fun d => .service (.backfill d)) <$> IngestionService.applyRetentionPolicyBackfill env q
        (IngestionService.previewDecision p.request p.plan).eligibleAttempts
        (IngestionService.previewDecision p.request p.plan).dueAttempts
        (IngestionService.previewDecision p.request p.plan).candidateDigest credentialId fresh now)
    else none
  | .service call =>
    if beside call then
      (Deployment.program env settings m.others call).map (fun t => .service <$> t)
    else none

def ending : Ending Failure Reply → Ending Failure RankLens.Reply
  | .committed (.service a) => .committed a
  | .committed (.previewed _) => .died
  | .raised e => .raised e
  | .died => .died

def finish : Call → Ending Failure Reply → History → History
  | .preview q _, .committed (.previewed plan), m => { m with previews := ⟨q, plan⟩ :: m.previews }
  | .service call, e, m => { m with others := Deployment.finish call (ending e) m.others }
  | _, _, m => m

def workload (env : Env) (settings : IngestionSettings) :
    Workload Catalog ObjectStore Lock Failure Call Reply History :=
  ⟨program env settings, finish⟩

abbrev Pool := Config Catalog ObjectStore Lock Failure Call Reply History

/-- Any catalog, with nobody at work on it and no preview answered yet. -/
def opening (db : Catalog) (w : ObjectStore) (others : Memory) : Pool := ⟨db, w, ⟨[], others⟩, []⟩

section digest

variable {env : Env} {xs ys : List AttemptRecord} {a b : AttemptRecord}

/-- The columns the digest of the candidates covers. -/
structure Candidate where
  attemptId : String
  firstAdmittedAt : Instant
  retentionPolicyVersion : Option Nat
  retentionExpiresAt : Option Instant
deriving DecidableEq

def candidate (r : AttemptRecord) : Candidate :=
  ⟨r.attemptId, r.firstAdmittedAt, r.retentionPolicyVersion, r.retentionExpiresAt⟩

def candidateJson (env : Env) (a : AttemptRecord) : Json := .object [
  ("attempt_id", .str a.attemptId),
  ("first_admitted_at", IngestionService.timestamp env (some a.firstAdmittedAt)),
  ("retention_policy_version", (a.retentionPolicyVersion.map (fun v => .int v)).getD .null),
  ("retention_expires_at", IngestionService.timestamp env a.retentionExpiresAt)]

def candidatesJson (env : Env) (attempts : List AttemptRecord) : Json :=
  .list (attempts.map (candidateJson env))

/-- Neither SHA-256 nor the texts of times and of candidates collide. -/
structure CollisionFree (env : Env) : Prop where
  sha256 : Function.Injective env.sha256
  dumps : ∀ xs ys, env.dumps (candidatesJson env xs) = env.dumps (candidatesJson env ys) →
    candidatesJson env xs = candidatesJson env ys
  isoformat : Function.Injective env.isoformat

theorem timestamp_injective (h : Function.Injective env.isoformat) :
    Function.Injective (IngestionService.timestamp env) := by
  intro s t hst
  cases s with
  | none =>
    cases t with
    | none => rfl
    | some t => exact nomatch hst
  | some s =>
    cases t with
    | none => exact nomatch hst
    | some t => rw [h (Json.str.inj hst)]

theorem candidate_of_json (h : Function.Injective env.isoformat)
    (hab : candidateJson env a = candidateJson env b) : candidate a = candidate b := by
  simp only [candidateJson, Json.object.injEq, List.cons.injEq, Prod.mk.injEq, true_and, and_true,
    Json.str.injEq] at hab
  obtain ⟨hid, hadmitted, hversion, hexpires⟩ := hab
  have hv : a.retentionPolicyVersion = b.retentionPolicyVersion := by
    cases hav : a.retentionPolicyVersion with
    | none =>
      cases hbv : b.retentionPolicyVersion with
      | none => rfl
      | some w =>
        rw [hav, hbv] at hversion
        exact nomatch hversion
    | some v =>
      cases hbv : b.retentionPolicyVersion with
      | none =>
        rw [hav, hbv] at hversion
        exact nomatch hversion
      | some w =>
        rw [hav, hbv] at hversion
        rw [Int.ofNat.inj (Json.int.inj hversion)]
  rw [candidate, candidate, hid, hv, timestamp_injective h hexpires,
    Option.some.inj (timestamp_injective h hadmitted)]

theorem candidates_of_digest (h : CollisionFree env)
    (hd : IngestionService.retentionBackfillCandidateDigest env xs =
      IngestionService.retentionBackfillCandidateDigest env ys) :
    xs.map candidate = ys.map candidate := by
  have hdoc : candidatesJson env xs = candidatesJson env ys := h.dumps xs ys (h.sha256 hd)
  have hrows : xs.map (candidateJson env) = ys.map (candidateJson env) := Json.list.inj hdoc
  clear hd hdoc
  induction xs generalizing ys with
  | nil =>
    cases ys with
    | nil => rfl
    | cons y ys => cases hrows
  | cons x xs ih =>
    cases ys with
    | nil => cases hrows
    | cons y ys =>
      rw [List.map_cons, List.map_cons, List.cons.injEq] at hrows
      rw [List.map_cons, List.map_cons, candidate_of_json h.isoformat hrows.1, ih hrows.2]

end digest

section kept

variable {F F' : Set Lock} {k : AttemptKey} {r r' r'' : AttemptRecord} {c c' c'' : Catalog}

/-- What becomes of a record while the locks `F` are held by nobody who changes it. -/
structure Follows (F : Set Lock) (k : AttemptKey) (r r' : AttemptRecord) : Prop where
  admitted : r'.firstAdmittedAt = r.firstAdmittedAt
  scope : r'.logicalCaseId = r.logicalCaseId ∨ r.logicalCaseId = none ∧ Lock.attempt k ∉ F
  assignment : Lock.retentionPolicyBackfill k.tenantId k.clusterId ∈ F →
    r'.retentionPolicyVersion = r.retentionPolicyVersion ∧
      r'.retentionExpiresAt = r.retentionExpiresAt

theorem Follows.refl (r : AttemptRecord) : Follows F k r r := ⟨rfl, .inl rfl, fun _ => ⟨rfl, rfl⟩⟩

theorem Follows.trans (h : Follows F k r r') (h' : Follows F k r' r'') : Follows F k r r'' where
  admitted := h'.admitted.trans h.admitted
  scope := by
    obtain hs | hs := h.scope
    · exact h'.scope.imp (fun hs' => hs'.trans hs) (fun hs' => ⟨hs ▸ hs'.1, hs'.2⟩)
    · exact .inr hs
  assignment hF := ⟨(h'.assignment hF).1.trans (h.assignment hF).1,
    (h'.assignment hF).2.trans (h.assignment hF).2⟩

theorem Follows.anti (h : Follows F k r r') (hF : F' ⊆ F) : Follows F' k r r' where
  admitted := h.admitted
  scope := h.scope.imp id (fun hs => ⟨hs.1, fun hk => hs.2 (hF hk)⟩)
  assignment hb := h.assignment (hF hb)

/-- What every commit keeps, of what the locks `F` guard. -/
structure Kept (F : Set Lock) (c c' : Catalog) : Prop where
  records : ∀ k r, c.records.get k = some r → ∃ r', c'.records.get k = some r' ∧ Follows F k r r'
  requested : ∀ k, c'.deletions.get k = none → c.deletions.get k = none
  unrequested : ∀ k, Lock.attempt k ∈ F → c.deletions.get k = none → c'.deletions.get k = none
  policies : ∀ k p, c.policies.get k = some p → c'.policies.get k = some p
  items : ∀ k, Lock.row (.backfillItem k) ∈ F → c'.backfillItems.get k = c.backfillItems.get k

theorem Kept.refl (c : Catalog) : Kept F c c :=
  ⟨fun _ r hr => ⟨r, hr, .refl r⟩, fun _ h => h, fun _ _ h => h, fun _ _ h => h, fun _ _ => rfl⟩

theorem Kept.trans (h : Kept F c c') (h' : Kept F c' c'') : Kept F c c'' where
  records k r hr := by
    obtain ⟨r', hr', hf⟩ := h.records k r hr
    obtain ⟨r'', hr'', hf'⟩ := h'.records k r' hr'
    exact ⟨r'', hr'', hf.trans hf'⟩
  requested k hk := h.requested k (h'.requested k hk)
  unrequested k hF hk := h'.unrequested k hF (h.unrequested k hF hk)
  policies k p hp := h'.policies k p (h.policies k p hp)
  items k hF := (h'.items k hF).trans (h.items k hF)

theorem Kept.anti (h : Kept F c c') (hF : F' ⊆ F) : Kept F' c c' where
  records k r hr := by
    obtain ⟨r', hr', hf⟩ := h.records k r hr
    exact ⟨r', hr', hf.anti hF⟩
  requested := h.requested
  unrequested k hk := h.unrequested k (hF hk)
  policies := h.policies
  items k hk := h.items k (hF hk)

structure Same (c c' : Catalog) : Prop where
  records : c'.records = c.records
  deletions : c'.deletions = c.deletions
  policies : c'.policies = c.policies
  items : c'.backfillItems = c.backfillItems

theorem Same.refl (c : Catalog) : Same c c := ⟨rfl, rfl, rfl, rfl⟩

theorem same_of_admits (h : Admits c c') : Same c c' := by
  obtain ⟨_, _, _, rfl⟩ := h
  exact ⟨rfl, rfl, rfl, rfl⟩

theorem Same.trans (h : Same c c') (h' : Same c' c'') : Same c c'' where
  records := h'.records.trans h.records
  deletions := h'.deletions.trans h.deletions
  policies := h'.policies.trans h.policies
  items := h'.items.trans h.items

theorem Same.kept (h : Same c c') : Kept F c c' where
  records _ r hr := ⟨r, h.records ▸ hr, .refl r⟩
  requested _ hk := h.deletions ▸ hk
  unrequested _ _ hk := h.deletions ▸ hk
  policies _ _ hp := h.policies ▸ hp
  items k _ := by rw [h.items]

end kept

section rely

variable {V : Set Catalog} {F H H' : Set Lock} {s s' s'' : Catalog} {p : Catalog → Catalog} {α : Type}
  {t : Tx α} {Q : α → Prop}

/-- A commit keeps what the locks of the others guard, and leads to one of the catalogs of the run. -/
def Commit (V : Set Catalog) (_ : Call) (_ : Reply) (H : Set Lock) (c c' : Catalog) : Prop :=
  Kept Hᶜ c c' ∧ c' ∈ V

theorem kept_of_rely (h : Rely (Commit V) H s s') : Kept H s s' := by
  refine Rely.preserves (P := fun x => Kept H s x) ?_ h (.refl s)
  intro call a H' x x' hd hG hx
  exact hx.trans (hG.1.anti (fun l hl hl' => Set.disjoint_left.mp hd hl' hl))

theorem mem_of_rely (h : Rely (Commit V) H s s') (hs : s ∈ V) : s' ∈ V :=
  Rely.preserves (P := fun x => x ∈ V) (fun _ _ _ _ _ _ hG _ => hG.2) h hs

/-- Whenever the transaction commits, it keeps what it has no lock for. -/
def Due (V : Set Catalog) (H : Set Lock) (s : Catalog) (p : Catalog → Catalog) : Prop :=
  ∀ s', Rely (Commit V) H s s' → Kept Hᶜ s' (p s')

theorem due_of_same (h : ∀ c, Same c (p c)) : Due V H s p := fun s' _ => (h s').kept

theorem Due.stable (h : Due V H s p) (hs : Rely (Commit V) H s s') : Due V H s' p :=
  fun s'' hs' => h s'' (hs.trans hs')

theorem Due.lock (h : Due V H s p) (hH : H ⊆ H') : Due V H' s p :=
  fun s' hs => (h s' (hs.anti hH)).anti (Set.compl_subset_compl.mpr hH)

theorem Due.writes (h : Due V H s p) (ht : t.writes (Kept Hᶜ) Q) :
    t.rwp (Rely (Commit V)) (fun a H' s' p' => (H ⊆ H' ∧ Due V H' s' p') ∧ Q a) H s p := by
  refine Txn.rwp_of_writes (J := fun H' s' p' => H ⊆ H' ∧ Due V H' s' p') ?_ ?_ ?_ ht
    ⟨subset_rfl, h⟩
  · exact fun H' s s' p hs ⟨hH, hdue⟩ => ⟨hH, hdue.stable hs⟩
  · exact fun l H' s p ⟨hH, hdue⟩ =>
      ⟨hH.trans (Set.subset_insert l H'), hdue.lock (Set.subset_insert l H')⟩
  · intro H' s p f hf ⟨hH, hdue⟩
    refine ⟨hH, fun s' hs => (hdue s' hs).trans ?_⟩
    exact (hf (p s')).anti (Set.compl_subset_compl.mpr hH)

theorem rwp_same (hp : ∀ c, Same c (p c)) (ht : t.writes Same Q) :
    t.rwp (Rely (Commit V)) (fun a H' s' p' =>
      (H ⊆ H' ∧ Rely (Commit V) H s s' ∧ ∀ c, Same c (p' c)) ∧ Q a) H s p := by
  refine Txn.rwp_of_writes (J := fun H' s' p' =>
    H ⊆ H' ∧ Rely (Commit V) H s s' ∧ ∀ c, Same c (p' c)) ?_ ?_ ?_ ht ⟨subset_rfl, .refl s, hp⟩
  · exact fun H' s₁ s₂ p hs ⟨hH, hrely, hp⟩ => ⟨hH, hrely.trans (hs.anti hH), hp⟩
  · exact fun l H' s₁ p ⟨hH, hrely, hp⟩ => ⟨hH.trans (Set.subset_insert l H'), hrely, hp⟩
  · exact fun H' s₁ p f hf ⟨hH, hrely, hp⟩ => ⟨hH, hrely, fun c => (hp c).trans (hf (p c))⟩

end rely

section programs

variable {env : Env} {settings : IngestionSettings} {V : Set Catalog} {R : Catalog → Catalog → Prop}
  {F H : Set Lock} {s c : Catalog} {p : Catalog → Catalog} {principal : MachinePrincipal}
  {segment : SegmentUpload} {fresh : Uuid} {now : Instant} {k : AttemptKey}

theorem admitReserve_same :
    (IngestionService.admitReserve env settings principal segment fresh now).writes Same
      (fun _ => True) :=
  Txn.writes_mono (fun _ _ => same_of_admits) (fun _ h => h)
    Deployment.admitReserve_admits

theorem openRange_due {faults : Faults} {f : IngestionService.Flight}
    {Q : DurableReceipt ⊕ AdmissionReservation × Nat → Set Lock → Catalog →
      (Catalog → Catalog) → Prop}
    (hQ : ∀ a H s p, Lock.attempt f.attempt ∈ H → (∀ c, Same c (p c)) → Q a H s p) :
    (IngestionService.openRange env faults f).rwp (Rely (Commit V)) Q ∅ s id := by
  rw [IngestionService.openRange, Txn.rwp_bind, IngestionService.lockAdmission, Txn.rwp_bind,
    Txn.rwp_lock]
  intro s₁ _
  rw [Txn.rwp_bind, Txn.rwp_lock]
  intro s₂ _
  rw [Txn.rwp_lock]
  intro s₃ _
  refine Txn.rwp_mono (rwp_same (Q := fun _ => True) (fun c => .refl c) ?_) ?_
  · have writes := @Deployment.openRange_admits env faults f
    simp only [IngestionService.openRange, IngestionService.lockAdmission, Txn.writes_bind,
      Txn.writes_lock] at writes
    rw [Txn.writes_bind]
    exact Txn.writes_mono (fun _ _ => same_of_admits)
      (fun _ => Txn.writes_mono (fun _ _ => same_of_admits) (fun _ h => h)) writes
  · rintro a H' s' p' ⟨⟨hH, _, hp⟩, _⟩
    refine hQ a H' s' p' (hH ?_) hp
    exact Set.mem_insert_of_mem _ (Set.mem_insert_of_mem _ (Set.mem_insert _ _))

theorem kept_insertRecord {r : AttemptRecord} :
    Kept F c { c with records := c.records.insert r } where
  records _ old hr := ⟨old, Table.get_eq_some.mpr
    ⟨Table.mem_insert_of_mem (Table.mem_of_get hr), Table.key_of_get hr⟩, .refl old⟩
  requested _ hk := hk
  unrequested _ _ hk := hk
  policies _ _ hp := hp
  items _ _ := rfl

theorem kept_modifyRecord {f : AttemptRecord → AttemptRecord} {hf : ∀ r, (f r).attempt = r.attempt}
    (h : ∀ r, c.records.get k = some r → Follows F k r (f r)) :
    Kept F c { c with records := c.records.modify k f hf } where
  records j r hr := by
    by_cases hj : j = k
    · subst hj
      exact ⟨f r, Table.get_modify_self hr hf, h r hr⟩
    · exact ⟨r, (Table.get_modify_of_ne hj hf).trans hr, .refl r⟩
  requested _ hk := hk
  unrequested _ _ hk := hk
  policies _ _ hp := hp
  items _ _ := rfl

theorem recordAdmission_due {tenantId : String}
    (hk : Lock.attempt (segment.attempt tenantId) ∈ H) (hp : ∀ c, Same c (p c)) :
    (IngestionService.recordAdmission settings tenantId segment now).rwp (Rely (Commit V))
      (fun _ H' s' p' => Due V H' s' p') H s p := by
  rw [IngestionService.recordAdmission, Txn.rwp_bind, Ref.rwp_get]
  intro s₁ _
  split
  · rw [Txn.rwp_bind, Txn.rwp_read]
    intro s₂ _
    refine Txn.rwp_mono ((due_of_same hp).writes (Q := fun _ => True)
      (Ref.writes_insert (fun _ => kept_insertRecord) trivial)) ?_
    exact fun _ _ _ _ h => h.1.2
  · next record hget =>
    simp only [IngestionService.bindField, Txn.rwp_bind, Txn.rwp_raiseIf]
    intro _ _ _
    have hget₁ : s₁.records.get (segment.attempt tenantId) = some record := (hp s₁).records ▸ hget
    rw [← Table.key_of_get hget₁] at hk hget₁
    refine Ref.rwp_updateUnique (fun H' s₂ hH _ h₂ s₃ h₃ => ?_)
    refine (hp s₃).kept.trans (kept_modifyRecord (fun r hr => ?_))
    have hkept := kept_of_rely (h₂.trans (h₃.anti hH))
    obtain ⟨r', hr', hf⟩ := hkept.records _ record hget₁
    obtain rfl : r' = r := Option.some.inj (hr'.symm.trans ((hp s₃).records ▸ hr))
    have hscope : r'.logicalCaseId = record.logicalCaseId :=
      hf.scope.resolve_right (fun hs => hs.2 hk)
    refine ⟨rfl, ?_, fun _ => ⟨rfl, rfl⟩⟩
    show (if record.logicalCaseId.isNone && segment.logicalCaseId.isSome then segment.logicalCaseId
      else r'.logicalCaseId) = r'.logicalCaseId ∨ _
    split
    · next hnone =>
      refine .inr ⟨?_, fun hc => hc (hH hk)⟩
      rw [hscope]
      exact Option.isNone_iff_eq_none.mp (Bool.and_eq_true_iff.mp hnone).1
    · exact .inl rfl

theorem addManifest_due {f : IngestionService.Flight} {r : AdmissionReservation} {g : Nat}
    {freshReceipt freshOutbox : Uuid} (hk : Lock.attempt f.attempt ∈ H) (hp : ∀ c, Same c (p c)) :
    (IngestionService.addManifest settings f r g freshReceipt freshOutbox now).rwp
      (Rely (Commit V)) (fun _ H' s' p' => Due V H' s' p') H s p := by
  rw [IngestionService.addManifest, Txn.rwp_bind]
  refine Txn.rwp_mono (rwp_same (Q := fun _ => True) hp
    (writes_uuid4 (fun _ => ⟨rfl, rfl, rfl, rfl⟩) trivial)) ?_
  rintro receiptId H₁ s₁ p₁ ⟨⟨hH₁, _, hp₁⟩, _⟩
  rw [Txn.rwp_bind]
  refine Txn.rwp_mono (rwp_same (Q := fun _ => True) hp₁
    (Ref.writes_insert (fun _ => ⟨rfl, rfl, rfl, rfl⟩) trivial)) ?_
  rintro _ H₂ s₂ p₂ ⟨⟨hH₂, _, hp₂⟩, _⟩
  rw [Txn.rwp_bind]
  refine Txn.rwp_mono (recordAdmission_due (hH₂ (hH₁ hk)) hp₂) ?_
  intro _ H₃ s₃ p₃ h₃
  refine Txn.rwp_mono (h₃.writes (Q := fun _ => True) ?_) (fun _ _ _ _ h => h.1.2)
  simp only [Txn.writes_bind]
  refine writes_uuid4 (fun _ => Same.kept ⟨rfl, rfl, rfl, rfl⟩) ?_
  refine Ref.writes_insert (fun _ => Same.kept ⟨rfl, rfl, rfl, rfl⟩) ?_
  exact Ref.writes_update (fun _ => Same.kept ⟨rfl, rfl, rfl, rfl⟩) trivial

theorem admitCommit_due {faults : Faults} {f : IngestionService.Flight}
    {freshReceipt freshOutbox : Uuid} :
    (IngestionService.admitCommit env settings faults f freshReceipt freshOutbox now).rwp
      (Rely (Commit V)) (fun _ H' s' p' => Due V H' s' p') ∅ s id := by
  rw [IngestionService.admitCommit_eq, Txn.rwp_bind]
  refine openRange_due (fun a H' s' p' hk hp => ?_)
  cases a with
  | inl receipt => exact due_of_same hp
  | inr opened => exact addManifest_due hk hp

end programs

section lifecycle

variable {V : Set Catalog} {F H : Set Lock} {s c : Catalog} {p : Catalog → Catalog} {now : Instant}
  {k : AttemptKey}

theorem kept_insertDeletion {d : AttemptDeletion} (hk : Lock.attempt d.attempt ∉ F) :
    Kept F c { c with deletions := c.deletions.insert d } where
  records _ r hr := ⟨r, hr, .refl r⟩
  requested j hj := by
    rw [Table.get_eq_none] at hj ⊢
    exact fun x hx => hj x (Table.mem_insert_of_mem hx)
  unrequested j hF hj := by
    rw [Table.get_eq_none] at hj ⊢
    intro x hx
    obtain hx | rfl := Table.mem_of_mem_insert hx
    · exact hj x hx
    · rintro rfl
      exact hk hF
  policies _ _ hp := hp
  items _ _ := rfl

theorem kept_modifyDeletion {f : AttemptDeletion → AttemptDeletion}
    {hf : ∀ d, (f d).attempt = d.attempt} :
    Kept F c { c with deletions := c.deletions.modify k f hf } where
  records _ r hr := ⟨r, hr, .refl r⟩
  requested j hj := by
    rw [Table.get_modify] at hj
    split at hj
    · exact Option.map_eq_none_iff.mp hj
    · exact hj
  unrequested j _ hj := by
    rw [Table.get_modify, hj]
    split <;> rfl
  policies _ _ hp := hp
  items _ _ := rfl

theorem fence_kept {o : Option AttemptGeneration} :
    (IngestionService.fence k o now).writes (Kept F) (fun _ => True) :=
  fence_writes (fun _ _ => Same.kept ⟨rfl, rfl, rfl, rfl⟩)

theorem requestDeletion_kept {g : Nat} {requestedAt : Instant} (hk : Lock.attempt k ∉ F) :
    (IngestionService.requestDeletion k g requestedAt).writes (Kept F) (fun _ => True) :=
  requestDeletion_writes (fun _ _ hrow => kept_insertDeletion (hrow ▸ hk))
    (fun _ _ _ => kept_modifyDeletion)

theorem blockDeletion_kept {g : Nat} (hk : Lock.attempt k ∉ F) :
    (IngestionService.blockDeletion k g now).writes (Kept F) (fun _ => True) :=
  blockDeletion_writes (fun _ _ hrow => kept_insertDeletion (hrow ▸ hk))
    (fun _ _ _ => kept_modifyDeletion)

theorem resumeDeletion_kept :
    (IngestionService.resumeDeletion k now).writes (Kept F) (fun _ => True) := by
  simp only [IngestionService.resumeDeletion, Txn.writes_bind, Ref.writes_get, Txn.writes_ite]
  refine fun c => ⟨fun _ c => Txn.writes_mono (fun _ _ h => h) (fun g _ => ?_) fence_kept,
    fun _ => trivial⟩
  exact Ref.writes_update (fun _ => kept_modifyDeletion) trivial

theorem deleteAttempt_due : (IngestionService.deleteAttempt k now).rwp (Rely (Commit V))
    (fun _ H' s' p' => Due V H' s' p') ∅ s id := by
  rw [IngestionService.deleteAttempt, Txn.rwp_bind, Txn.rwp_lock]
  intro s₁ _
  have hk : Lock.attempt k ∉ (insert (Lock.attempt k) (∅ : Set Lock))ᶜ :=
    fun hk => hk (Set.mem_insert _ _)
  refine Txn.rwp_mono (Due.writes (Q := fun _ => True) (due_of_same (fun c => .refl c)) ?_)
    (fun _ _ _ _ h => h.1.2)
  simp only [IngestionService.activeHoldIds, Txn.writes_bind, Ref.writes_get, Txn.writes_read,
    Txn.writes_ite, Txn.writes_pure]
  refine fun c c' => ⟨fun _ => ?_, fun _ => ?_⟩
  · exact Txn.writes_mono (fun _ _ h => h) (fun _ _ => requestDeletion_kept hk) fence_kept
  · unfold IngestionService.addUnfenced
    split
    · exact Ref.writes_insert (fun _ => Same.kept ⟨rfl, rfl, rfl, rfl⟩) (blockDeletion_kept hk)
    · exact blockDeletion_kept hk

theorem placeAttemptHold_due {holdId : Uuid} {reason credentialId : String} :
    (IngestionService.placeAttemptHold k holdId reason credentialId now).rwp (Rely (Commit V))
      (fun _ H' s' p' => Due V H' s' p') ∅ s id := by
  refine Txn.rwp_mono (Due.writes (Q := fun _ => True) (due_of_same (fun c => .refl c)) ?_)
    (fun _ _ _ _ h => h.1.2)
  simp only [IngestionService.placeAttemptHold, Txn.writes_bind, Txn.writes_raiseIf,
    Txn.writes_lock, Ref.writes_get]
  intro _ _ _ _ _ _ _ c
  split
  · simp
  · rw [Txn.writes_bind]
    refine Ref.writes_insert (fun _ => Same.kept ⟨rfl, rfl, rfl, rfl⟩) ?_
    split
    · trivial
    · exact Ref.writes_update (fun _ => kept_modifyDeletion) trivial

theorem releaseAttemptHold_due {holdId : Uuid} {credentialId : String}
    {expected : Option (String × Option String × Option String)} {releasedAt : Instant} :
    (IngestionService.releaseAttemptHold holdId credentialId expected releasedAt now).rwp
      (Rely (Commit V)) (fun _ H' s' p' => Due V H' s' p') ∅ s id := by
  refine Txn.rwp_mono (Due.writes (Q := fun _ => True) (due_of_same (fun c => .refl c)) ?_)
    (fun _ _ _ _ h => h.1.2)
  simp only [IngestionService.releaseAttemptHold, Txn.writes_bind, Txn.writes_raiseIf,
    Ref.writes_get]
  intro _ c
  split
  · trivial
  · simp only [Txn.writes_bind, Txn.writes_raiseIf, Txn.writes_lock, Txn.writes_ite]
    refine fun _ => ⟨fun _ => trivial, fun _ => ?_⟩
    refine Ref.writes_update (fun _ => Same.kept ⟨rfl, rfl, rfl, rfl⟩) ?_
    simp only [IngestionService.activeHoldIds, Txn.writes_read]
    exact fun _ => ⟨fun _ => resumeDeletion_kept, fun _ => trivial⟩

theorem createRetentionPolicyRevision_kept {tenantId clusterId : String} {retentionSeconds : Nat}
    {credentialId : String} {effectiveAt : Option Instant} {logicalCaseId : Option String} :
    (IngestionService.createRetentionPolicyRevision tenantId clusterId retentionSeconds
      credentialId effectiveAt logicalCaseId now).writes (Kept F) (fun _ => True) := by
  simp only [IngestionService.createRetentionPolicyRevision, Txn.writes_bind, Txn.writes_raiseIf,
    Txn.writes_lock, Ref.writes_select]
  intro _ _ _ _ _ c
  refine Ref.writes_insert (fun c => ?_) trivial
  exact ⟨fun _ r hr => ⟨r, hr, .refl r⟩, fun _ h => h, fun _ _ h => h, fun _ p hp =>
    Table.get_eq_some.mpr ⟨Table.mem_insert_of_mem (Table.mem_of_get hp), Table.key_of_get hp⟩,
    fun _ _ => rfl⟩

theorem cancelRetentionPolicyRevision_same {key : PolicyKey} {reason credentialId : String} :
    (IngestionService.cancelRetentionPolicyRevision key reason credentialId now).writes Same
      (fun _ => True) := by
  simp only [IngestionService.cancelRetentionPolicyRevision, Txn.writes_bind, Txn.writes_raiseIf,
    Txn.writes_lock, Ref.writes_get]
  intro _ _ c
  split
  · trivial
  · simp only [Txn.writes_bind, Ref.writes_get]
    intro c
    split
    · simp
    · simp only [Txn.writes_bind, Txn.writes_raiseIf]
      exact fun _ => Ref.writes_insert (fun _ => ⟨rfl, rfl, rfl, rfl⟩) trivial

end lifecycle

section decision

variable {env : Env} {V : Set Catalog} {q : BackfillRequest} {now : Instant}
  {loaded : List AttemptRecord} {plan : BackfillPlan} {H H' : Set Lock} {s s' c c' : Catalog}
  {p : Catalog → Catalog} {k : AttemptKey} {a : AttemptRecord}

/-- The plan of a decision that found its candidates at `s`, in a session that had loaded some
records before. -/
structure Evaluated (env : Env) (q : BackfillRequest) (now : Instant) (loaded : List AttemptRecord)
    (plan : BackfillPlan) (s : Catalog) : Prop where
  policy : s.policies.get ⟨q.tenantId, q.clusterId, q.policyVersion⟩ = some plan.policy
  attempts : plan.attempts = (eligibleAttempts q plan.policy.logicalCaseId s).map
    (fun r => (loaded.find? (fun l => l.attempt = r.attempt)).getD r)
  due : plan.dueAttempts = dueAttempts plan.policy now plan.attempts
  digest : plan.candidateDigest =
    IngestionService.retentionBackfillCandidateDigest env plan.attempts

theorem retentionBackfillPolicy_rwp {key : PolicyKey} :
    (IngestionService.retentionBackfillPolicy key now).rwp (Rely (Commit V)) (fun policy H' s' p' =>
      (H' = H ∧ p' = id ∧ Rely (Commit V) H s s') ∧ s'.policies.get key = some policy) H s id := by
  rw [IngestionService.retentionBackfillPolicy, Txn.rwp_bind, Ref.rwp_get]
  intro s₁ h₁
  split
  · trivial
  · next policy hget =>
    simp only [Txn.rwp_bind, Ref.rwp_get, Txn.rwp_raiseIf, Txn.rwp_pure]
    intro s₂ h₂ _ _
    exact ⟨⟨trivial, trivial, h₁.trans h₂⟩, (kept_of_rely h₂).policies key policy hget⟩

theorem checkSource_rwp {policy : RetentionPolicyRevision} :
    (IngestionService.checkSource q policy).rwp (Rely (Commit V)) (fun _ H' s' p' =>
      H' = H ∧ p' = id ∧ Rely (Commit V) H s s') H s id := by
  rw [IngestionService.checkSource, Txn.rwp_bind, Txn.rwp_raiseIf]
  intro _
  split
  · simp only [Txn.rwp_bind, Txn.rwp_raiseIf, Ref.rwp_get]
    intro _ s₁ h₁
    split
    · trivial
    · rw [Txn.rwp_raiseIf]
      exact fun _ => ⟨rfl, rfl, h₁⟩
  · rw [Txn.rwp_raiseIf]
    exact fun _ => ⟨rfl, rfl, .refl s⟩

/-- A decision that does not raise found all the candidates there were. -/
theorem retentionBackfillDecision_rwp :
    (IngestionService.retentionBackfillDecision env q now loaded).rwp (Rely (Commit V))
      (fun plan H' s' p' => (H' = H ∧ p' = id ∧ Rely (Commit V) H s s') ∧
        Evaluated env q now loaded plan s') H s id := by
  rw [IngestionService.retentionBackfillDecision, Txn.rwp_bind, Txn.rwp_raiseIf]
  intro hbound
  rw [not_not] at hbound
  rw [Txn.rwp_bind]
  refine Txn.rwp_mono retentionBackfillPolicy_rwp ?_
  rintro policy _ s₁ _ ⟨⟨rfl, rfl, h₁⟩, hpolicy⟩
  rw [Txn.rwp_bind]
  refine Txn.rwp_mono checkSource_rwp ?_
  rintro _ _ s₂ _ ⟨rfl, rfl, h₂⟩
  simp only [IngestionService.retentionBackfillCandidates, Txn.rwp_bind, Txn.rwp_read,
    Txn.rwp_raiseIf, Txn.rwp_pure]
  intro s₃ h₃ hlen
  have hall : (eligibleAttempts q policy.logicalCaseId s₃).take (q.maxAttempts + 1).toNat =
      eligibleAttempts q policy.logicalCaseId s₃ := by
    refine List.take_of_length_le ?_
    have hlen' : ¬q.maxAttempts < ((eligibleAttempts q policy.logicalCaseId s₃).take
      (q.maxAttempts + 1).toNat).length := hlen
    rw [List.length_take] at hlen'
    omega
  have hpolicy₃ := (kept_of_rely (h₂.trans h₃)).policies _ policy hpolicy
  refine ⟨⟨trivial, trivial, (h₁.trans h₂).trans h₃⟩, hpolicy₃, ?_, rfl, rfl⟩
  show ((eligibleAttempts q policy.logicalCaseId s₃).take (q.maxAttempts + 1).toNat).map _ = _
  rw [hall]

theorem Evaluated.row (h : Evaluated env q now loaded plan s) (ha : a ∈ plan.attempts) :
    ∃ r ∈ eligibleAttempts q plan.policy.logicalCaseId s, r.attempt = a.attempt ∧
      (a = r ∨ a ∈ loaded) := by
  rw [h.attempts] at ha
  obtain ⟨r, hr, rfl⟩ := List.mem_map.mp ha
  refine ⟨r, hr, ?_⟩
  cases hfind : loaded.find? (fun l => l.attempt = r.attempt) with
  | none => exact ⟨rfl, .inl rfl⟩
  | some l =>
    have hl : l.attempt = r.attempt := by simpa using List.find?_some hfind
    exact ⟨hl.symm, .inr (List.mem_of_find?_eq_some hfind)⟩

theorem Evaluated.scoped (h : Evaluated env q now loaded plan s) (ha : a ∈ plan.attempts) :
    a.tenantId = q.tenantId ∧ a.clusterId = q.clusterId := by
  obtain ⟨r, hr, hk, -⟩ := h.row ha
  obtain ⟨-, ht, hc, -⟩ := IngestionService.mem_eligibleAttempts.mp hr
  have hkey := AttemptKey.mk.inj hk
  exact ⟨hkey.1.symm.trans ht, hkey.2.1.symm.trans hc⟩

theorem Evaluated.keys (h : Evaluated env q now loaded plan s) :
    plan.attempts.map AttemptRecord.attempt =
      (eligibleAttempts q plan.policy.logicalCaseId s).map AttemptRecord.attempt := by
  rw [h.attempts, List.map_map]
  refine List.map_congr_left (fun r _ => ?_)
  rw [Function.comp]
  cases hfind : loaded.find? (fun l => l.attempt = r.attempt) with
  | none => rfl
  | some l => simpa using List.find?_some hfind

theorem Evaluated.nodup (h : Evaluated env q now loaded plan s) :
    (plan.attempts.map AttemptRecord.attempt).Nodup := by
  rw [h.keys]
  refine ((List.perm_insertionSort _ _).map _).nodup_iff.mpr ?_
  exact s.records.nodup.sublist (List.filter_sublist.map _)

theorem Evaluated.ids (h : Evaluated env q now loaded plan s) :
    (plan.attempts.map AttemptRecord.attemptId).Nodup := by
  have hkeys : plan.attempts.map AttemptRecord.attempt =
      (plan.attempts.map AttemptRecord.attemptId).map
        (fun id => ⟨q.tenantId, q.clusterId, id⟩) := by
    rw [List.map_map]
    refine List.map_congr_left (fun a ha => ?_)
    obtain ⟨ht, hc⟩ := h.scoped ha
    rw [AttemptRecord.attempt, ht, hc]
    rfl
  have hnodup := h.nodup
  rw [hkeys] at hnodup
  exact hnodup.of_map

end decision

section application

variable {env : Env} {V : Set Catalog} {q : BackfillRequest} {now : Instant} {batch fresh : Uuid}
  {policy : RetentionPolicyRevision} {xs : List AttemptRecord} {a : AttemptRecord}
  {H H' : Set Lock} {s s' c c' : Catalog} {p : Catalog → Catalog} {k : AttemptKey}
  {expectedEligible expectedDue : Int} {expectedDigest credentialId : String}

/-- The records of some attempts get a policy, and each of them an item. -/
structure Migrated (batch : Uuid) (policy : RetentionPolicyRevision) (xs : List AttemptRecord)
    (c c' : Catalog) : Prop where
  changed : ∀ a ∈ xs, c'.records.get a.attempt =
    (c.records.get a.attempt).map (setRetention policy a)
  unchanged : ∀ k, (∀ a ∈ xs, a.attempt ≠ k) → c'.records.get k = c.records.get k
  added : ∀ a ∈ xs, c'.backfillItems.get (batch, a.attemptId) = some (newItem batch policy a)
  others : ∀ k, (∀ a ∈ xs, (batch, a.attemptId) ≠ k) → c'.backfillItems.get k = c.backfillItems.get k
  rest : c' = { c with
    issued := batch :: c.issued
    records := c'.records
    backfillItems := c'.backfillItems }

theorem Migrated.step {t : AttemptRecord} (h : Migrated batch policy xs c c')
    (hkey : ∀ a ∈ xs, a.attempt ≠ t.attempt) (hid : ∀ a ∈ xs, a.attemptId ≠ t.attemptId)
    (hfree : c.backfillItems.get (batch, t.attemptId) = none) :
    Migrated batch policy (xs ++ [t]) c { c' with
      backfillItems := c'.backfillItems.insert (newItem batch policy t)
      records := c'.records.modify t.attempt (setRetention policy t) (fun _ => rfl) } := by
  have hpair : ∀ a ∈ xs, (batch, a.attemptId) ≠ (batch, t.attemptId) := fun a ha he =>
    hid a ha (Prod.mk.inj he).2
  have hnone : c'.backfillItems.get (newItem batch policy t).item = none :=
    (h.others (batch, t.attemptId) hpair).trans hfree
  have hrecords : ∀ j, (c'.records.modify t.attempt (setRetention policy t) (fun _ => rfl)).get j =
      if j = t.attempt then (c'.records.get j).map (setRetention policy t)
      else c'.records.get j := by
    intro j
    exact Table.get_modify
  have hitems : ∀ j, (c'.backfillItems.insert (newItem batch policy t)).get j =
      if (batch, t.attemptId) = j then some (newItem batch policy t)
      else c'.backfillItems.get j := fun j => Table.get_insert hnone
  constructor
  · intro a ha
    refine (hrecords a.attempt).trans ?_
    obtain ha | ha := List.mem_append.mp ha
    · rw [if_neg (hkey a ha), h.changed a ha]
    · obtain rfl := List.mem_singleton.mp ha
      rw [if_pos rfl, h.unchanged a.attempt hkey]
  · intro j hj
    refine (hrecords j).trans ?_
    rw [if_neg (fun he => hj t (List.mem_append_right _ List.mem_cons_self) he.symm)]
    exact h.unchanged j (fun a ha => hj a (List.mem_append_left _ ha))
  · intro a ha
    refine (hitems _).trans ?_
    obtain ha | ha := List.mem_append.mp ha
    · rw [if_neg (fun he => hpair a ha he.symm), h.added a ha]
    · obtain rfl := List.mem_singleton.mp ha
      exact if_pos rfl
  · intro j hj
    refine (hitems j).trans ?_
    rw [if_neg (hj t (List.mem_append_right _ List.mem_cons_self))]
    exact h.others j (fun a ha => hj a (List.mem_append_left _ ha))
  · rw [h.rest]

/-- What the loop of a backfill has written so far. -/
structure Written (batch : Uuid) (policy : RetentionPolicyRevision) (xs : List AttemptRecord)
    (H : Set Lock) (s : Catalog) (p : Catalog → Catalog) : Prop where
  locks : ∀ a ∈ xs, Lock.row (.backfillItem (batch, a.attemptId)) ∈ H
  free : ∀ a ∈ xs, s.backfillItems.get (batch, a.attemptId) = none
  migrates : ∀ c, (∀ a ∈ xs, c.backfillItems.get (batch, a.attemptId) = none) →
    Migrated batch policy xs c (p c)

theorem written_nil : Written batch policy [] H s
    ((fun c : Catalog => { c with issued := batch :: c.issued }) ∘ id) where
  locks _ ha := absurd ha List.not_mem_nil
  free _ ha := absurd ha List.not_mem_nil
  migrates _ _ := {
    changed := fun _ ha => absurd ha List.not_mem_nil
    unchanged := fun _ _ => rfl
    added := fun _ ha => absurd ha List.not_mem_nil
    others := fun _ _ => rfl
    rest := rfl }

theorem Written.stable (h : Written batch policy xs H s p) (hs : Rely (Commit V) H s s') :
    Written batch policy xs H s' p where
  locks := h.locks
  free a ha := ((kept_of_rely hs).items _ (h.locks a ha)).trans (h.free a ha)
  migrates := h.migrates

theorem Written.lock (h : Written batch policy xs H s p) (hH : H ⊆ H') :
    Written batch policy xs H' s p where
  locks a ha := hH (h.locks a ha)
  free := h.free
  migrates := h.migrates

theorem backfillAttempt_rwp {t : AttemptRecord} (h : Written batch policy xs H s p)
    (hkey : ∀ a ∈ xs, a.attempt ≠ t.attempt) (hid : ∀ a ∈ xs, a.attemptId ≠ t.attemptId) :
    (IngestionService.backfillAttempt batch policy t).rwp (Rely (Commit V)) (fun _ H' s' p' =>
      H ⊆ H' ∧ Rely (Commit V) H s s' ∧ Written batch policy (xs ++ [t]) H' s' p') H s p := by
  rw [IngestionService.backfillAttempt, Txn.rwp_bind]
  refine Ref.rwp_insert (fun H₁ s₁ hH₁ hrow h₁ hfree => ?_)
  refine Ref.rwp_update (fun s₂ r h₂ _ => ?_)
  have hw := ((h.stable h₁).lock hH₁).stable h₂
  have hpair : ∀ a ∈ xs, (batch, a.attemptId) ≠ (batch, t.attemptId) := fun a ha he =>
    hid a ha (Prod.mk.inj he).2
  have hnone₁ : s₁.backfillItems.get (batch, t.attemptId) = none := by
    rw [← ((h.stable h₁).migrates s₁ (h.stable h₁).free).others _ hpair]
    exact (Ref.taken_eq_false.mp hfree).1
  have hnone₂ := ((kept_of_rely h₂).items _ hrow).trans hnone₁
  refine ⟨hH₁.trans (Set.subset_insert _ _), h₁.trans (h₂.anti hH₁), ?_, ?_, ?_⟩
  · intro a ha
    obtain ha | ha := List.mem_append.mp ha
    · exact Or.inr (hw.locks a ha)
    · obtain rfl := List.mem_singleton.mp ha
      exact Or.inr hrow
  · intro a ha
    obtain ha | ha := List.mem_append.mp ha
    · exact hw.free a ha
    · obtain rfl := List.mem_singleton.mp ha
      exact hnone₂
  · intro c hc
    have hmigrated := h.migrates c (fun a ha => hc a (List.mem_append_left _ ha))
    exact hmigrated.step hkey hid (hc t (List.mem_append_right _ List.mem_cons_self))

theorem backfillAttempts_rwp (hkeys : (xs.map AttemptRecord.attempt).Nodup)
    (hids : (xs.map AttemptRecord.attemptId).Nodup) (h : Written batch policy [] H s p) :
    (Txn.forEach xs (IngestionService.backfillAttempt batch policy)).rwp (Rely (Commit V))
      (fun _ H' s' p' => H ⊆ H' ∧ Rely (Commit V) H s s' ∧ Written batch policy xs H' s' p') H s p := by
  refine Txn.rwp_forEach (fun pre H' s' p' =>
    H ⊆ H' ∧ Rely (Commit V) H s s' ∧ Written batch policy pre H' s' p') ⟨subset_rfl, .refl s, h⟩ ?_
  rintro pre t post H₁ s₁ p₁ rfl ⟨hH₁, h₁, hw⟩
  rw [List.map_append, List.map_cons, List.nodup_append] at hkeys hids
  have hkey : ∀ a ∈ pre, a.attempt ≠ t.attempt := fun a ha =>
    hkeys.2.2 _ (List.mem_map_of_mem ha) _ List.mem_cons_self
  have hid : ∀ a ∈ pre, a.attemptId ≠ t.attemptId := fun a ha =>
    hids.2.2 _ (List.mem_map_of_mem ha) _ List.mem_cons_self
  refine Txn.rwp_mono (backfillAttempt_rwp hw hkey hid) ?_
  exact fun _ H₂ s₂ p₂ ⟨hH₂, h₂, hw₂⟩ => ⟨hH₁.trans hH₂, h₁.trans (h₂.anti hH₁), hw₂⟩

/-- A backfill that has come to its end: what its two decisions found, the locks it took between
them, and what it is to write. -/
inductive Applying (env : Env) (V : Set Catalog) (q : BackfillRequest)
    (expectedEligible expectedDue : Int) (expectedDigest credentialId : String) (batch : Uuid)
    (now : Instant) (s : Catalog) : Set Lock → Catalog → (Catalog → Catalog) → Prop where
  | mk {first plan : BackfillPlan} {s₁ s₂ s' : Catalog} {H H' : Set Lock} {p : Catalog → Catalog}
      (h₁ : Rely (Commit V) ∅ s s₁) (firstly : Evaluated env q now [] first s₁)
      (h₂ : Rely (Commit V) {Lock.retentionPolicyBackfill q.tenantId q.clusterId} s₁ s₂)
      (secondly : Evaluated env q now first.attempts plan s₂)
      (lock : Lock.retentionPolicyBackfill q.tenantId q.clusterId ∈ H)
      (locks : ∀ a ∈ first.attempts, Lock.attempt a.attempt ∈ H) (h₃ : Rely (Commit V) H s₂ s')
      (hH : H ⊆ H') (eligible : (plan.attempts.length : Int) = expectedEligible)
      (due : (plan.dueAttempts : Int) = expectedDue) (digest : plan.candidateDigest = expectedDigest)
      (written : Written batch plan.policy plan.attempts H' s' p) :
      Applying env V q expectedEligible expectedDue expectedDigest credentialId batch now s H' s'
        (fun c => { p c with
          backfills := (p c).backfills.insert (newBackfill q plan batch credentialId now) })

theorem applyRetentionPolicyBackfill_rwp :
    (IngestionService.applyRetentionPolicyBackfill env q expectedEligible expectedDue
      expectedDigest credentialId fresh now).rwp (Rely (Commit V)) (fun _ =>
        Applying env V q expectedEligible expectedDue expectedDigest credentialId fresh now s) ∅ s id := by
  simp only [IngestionService.applyRetentionPolicyBackfill, Txn.rwp_bind, Txn.rwp_raiseIf,
    Txn.rwp_lock]
  intro _ _ _ s₀ h₀
  refine Txn.rwp_mono retentionBackfillDecision_rwp ?_
  rintro first _ s₁ _ ⟨⟨rfl, rfl, h₁⟩, firstly⟩
  refine Txn.rwp_mono (Txn.rwp_forEach (fun pre H' s' p' => p' = id ∧
    insert (Lock.retentionPolicyBackfill q.tenantId q.clusterId) ∅ ⊆ H' ∧
      (∀ a ∈ pre, Lock.attempt a.attempt ∈ H') ∧
        Rely (Commit V) (insert (Lock.retentionPolicyBackfill q.tenantId q.clusterId) ∅) s₁ s')
    ⟨rfl, subset_rfl, fun _ ha => absurd ha List.not_mem_nil, .refl s₁⟩ ?_) ?_
  · rintro pre a post H' s' p' _ ⟨rfl, hH', hlocks, hs'⟩
    rw [Txn.rwp_lock]
    intro s'' hs''
    refine ⟨rfl, hH'.trans (Set.subset_insert _ _), fun b hb => ?_, hs'.trans (hs''.anti hH')⟩
    obtain hb | hb := List.mem_append.mp hb
    · exact Or.inr (hlocks b hb)
    · obtain rfl := List.mem_singleton.mp hb
      exact Or.inl rfl
  rintro _ H₂ s₂ _ ⟨rfl, hH₂, hlocks, h₂⟩
  refine Txn.rwp_mono retentionBackfillDecision_rwp ?_
  rintro plan H₃ s₃ _ ⟨⟨rfl, rfl, h₃⟩, secondly⟩
  simp only [uuid4, Txn.rwp_bind, Txn.rwp_raiseIf, Txn.rwp_lock, Txn.rwp_read, Txn.rwp_write,
    Txn.rwp_pure]
  intro hexpected s₄ h₄ s₅ h₅ _
  rw [not_or, not_or, not_not, not_not, not_not] at hexpected
  refine Txn.rwp_mono (backfillAttempts_rwp secondly.nodup secondly.ids written_nil) ?_
  rintro _ H₆ s₆ p₆ ⟨hH₆, h₆, written⟩
  refine Ref.rwp_insert (fun H₇ s₇ hH₇ _ h₇ _ => ?_)
  have hsub := Set.subset_insert (Lock.uuid fresh) H₃
  have hlater : Rely (Commit V) H₃ s₃ s₇ := (((h₄.trans (h₅.anti hsub)).trans
    (h₆.anti hsub)).trans (h₇.anti (hsub.trans hH₆)))
  exact .mk (h₀.trans (h₁.anti (Set.empty_subset _))) firstly
    ((h₂.trans (h₃.anti hH₂)).anti (Set.singleton_subset_iff.mpr (Set.mem_insert _ _))) secondly
    (hH₂ (Set.mem_insert _ _)) hlocks hlater ((hsub.trans hH₆).trans hH₇) hexpected.1 hexpected.2.1
    hexpected.2.2 ((written.stable h₇).lock hH₇)

end application

section preview

variable {env : Env} {V : Set Catalog} {F : Set Lock} {q : BackfillRequest} {now : Instant}
  {batch : Uuid} {policy : RetentionPolicyRevision} {xs ys : List AttemptRecord}
  {a b r r' : AttemptRecord} {plan : BackfillPlan} {H H' : Set Lock} {s s' c c' : Catalog}
  {p : Preview} {w : Catalog → Catalog} {k : AttemptKey} {credentialId : String}
  {expectedEligible expectedDue : Int} {expectedDigest : String}

theorem Applying.due (h : Applying env V q expectedEligible expectedDue expectedDigest credentialId
    batch now s H s' w) : Due V H s' w := by
  cases h with
  | @mk first plan s₁ s₂ s' H₂ H p h₁ firstly h₂ secondly lock locks h₃ hH eligible due digest
      written =>
    intro s'' hs
    have hw := written.stable hs
    have hm := hw.migrates s'' hw.free
    refine ⟨fun k r hr => ?_, fun k hk => ?_, fun k _ hk => ?_, fun k p' hp' => ?_, fun k hk => ?_⟩
    · by_cases hmem : ∃ a ∈ plan.attempts, a.attempt = k
      · obtain ⟨a, ha, rfl⟩ := hmem
        refine ⟨setRetention plan.policy a r, (hm.changed a ha).trans (by rw [hr]; rfl), rfl,
          .inl rfl, fun hlock => absurd ?_ hlock⟩
        obtain ⟨ht, hc⟩ := secondly.scoped ha
        show Lock.retentionPolicyBackfill a.tenantId a.clusterId ∈ H
        rw [ht, hc]
        exact hH lock
      · refine ⟨r, (hm.unchanged k (fun a ha he => hmem ⟨a, ha, he⟩)).trans hr, .refl r⟩
    · have hk' : (p s'').deletions.get k = none := hk
      rw [hm.rest] at hk'
      exact hk'
    · show (p s'').deletions.get k = none
      rw [hm.rest]
      exact hk
    · show (p s'').policies.get k = some p'
      rw [hm.rest]
      exact hp'
    · refine hm.others k (fun a ha he => hk ?_)
      rw [← he]
      exact hw.locks a ha

/-- What a preview that was answered showed lasts. -/
structure Shown (env : Env) (p : Preview) (c : Catalog) : Prop where
  policy : c.policies.get ⟨p.request.tenantId, p.request.clusterId, p.request.policyVersion⟩ =
    some p.plan.policy
  attempts : ∀ a ∈ p.plan.attempts, a.tenantId = p.request.tenantId ∧
    a.clusterId = p.request.clusterId ∧ ∃ r, c.records.get a.attempt = some r ∧
      (p.plan.policy.logicalCaseId = none ∨ r.logicalCaseId = p.plan.policy.logicalCaseId)
  digest : p.plan.candidateDigest =
    IngestionService.retentionBackfillCandidateDigest env p.plan.attempts

theorem Shown.kept (h : Shown env p c) (hc : Kept F c c') : Shown env p c' where
  policy := hc.policies _ _ h.policy
  attempts a ha := by
    obtain ⟨ht, hcl, r, hr, hscope⟩ := h.attempts a ha
    obtain ⟨r', hr', hf⟩ := hc.records _ r hr
    refine ⟨ht, hcl, r', hr', ?_⟩
    obtain hnone | hscope := hscope
    · exact .inl hnone
    · obtain hsame | ⟨hnone, -⟩ := hf.scope
      · exact .inr (hsame.trans hscope)
      · exact .inl (hscope.symm.trans hnone)
  digest := h.digest

theorem Evaluated.unloaded (h : Evaluated env q now [] plan s) :
    plan.attempts = eligibleAttempts q plan.policy.logicalCaseId s :=
  h.attempts.trans (List.map_id _)

theorem Evaluated.shown (h : Evaluated env q now [] plan s) : Shown env ⟨q, plan⟩ s where
  policy := h.policy
  attempts a ha := by
    have ha' : a ∈ eligibleAttempts q plan.policy.logicalCaseId s := h.unloaded ▸ ha
    obtain ⟨hm, ht, hc, -, -, hscope⟩ := IngestionService.mem_eligibleAttempts.mp ha'
    exact ⟨ht, hc, a, Table.get_of_mem hm, hscope⟩
  digest := h.digest

theorem candidate_eq (hid : a.attemptId = b.attemptId) (hadmitted : a.firstAdmittedAt = b.firstAdmittedAt)
    (hversion : a.retentionPolicyVersion = b.retentionPolicyVersion)
    (hexpires : a.retentionExpiresAt = b.retentionExpiresAt) : candidate a = candidate b := by
  rw [candidate, candidate, hid, hadmitted, hversion, hexpires]

theorem Follows.candidate (h : Follows F k r r') (hr : r.attempt = k) (hr' : r'.attempt = k)
    (hlock : Lock.retentionPolicyBackfill k.tenantId k.clusterId ∈ F) :
    candidate r' = candidate r := by
  obtain ⟨hversion, hexpires⟩ := h.assignment hlock
  exact candidate_eq (AttemptKey.mk.inj (hr'.trans hr.symm)).2.2 h.admitted hversion hexpires

theorem attempt_eq (hid : candidate a = candidate b) (ht : a.tenantId = b.tenantId)
    (hc : a.clusterId = b.clusterId) : a.attempt = b.attempt := by
  have hid' : a.attemptId = b.attemptId := congrArg Candidate.attemptId hid
  rw [AttemptRecord.attempt, AttemptRecord.attempt, ht, hc, hid']

theorem newItem_congr (hk : a.attempt = b.attempt) (h : candidate a = candidate b) :
    newItem batch policy a = newItem batch policy b := by
  obtain ⟨ht, hc, hid⟩ := AttemptKey.mk.inj hk
  have hadmitted : a.firstAdmittedAt = b.firstAdmittedAt := congrArg Candidate.firstAdmittedAt h
  have hversion : a.retentionPolicyVersion = b.retentionPolicyVersion :=
    congrArg Candidate.retentionPolicyVersion h
  have hexpires : a.retentionExpiresAt = b.retentionExpiresAt :=
    congrArg Candidate.retentionExpiresAt h
  rw [newItem, newItem, ht, hc, hid, hadmitted, hversion, hexpires]

theorem setRetention_congr (h : candidate a = candidate b) :
    setRetention policy a = setRetention policy b := by
  have hadmitted : a.firstAdmittedAt = b.firstAdmittedAt := congrArg Candidate.firstAdmittedAt h
  funext r
  rw [setRetention, setRetention, hadmitted]

theorem Migrated.congr (h : Migrated batch policy xs c c')
    (hyx : ∀ b ∈ ys, ∃ a ∈ xs, a.attempt = b.attempt ∧ candidate a = candidate b)
    (hxy : ∀ a ∈ xs, ∃ b ∈ ys, a.attempt = b.attempt ∧ candidate a = candidate b) :
    Migrated batch policy ys c c' where
  changed b hb := by
    obtain ⟨a, ha, hk, hab⟩ := hyx b hb
    rw [← hk, ← setRetention_congr hab]
    exact h.changed a ha
  unchanged k hk := h.unchanged k (fun a ha he => by
    obtain ⟨b, hb, hkb, -⟩ := hxy a ha
    exact hk b hb (hkb.symm.trans he))
  added b hb := by
    obtain ⟨a, ha, hk, hab⟩ := hyx b hb
    have hid : a.attemptId = b.attemptId := congrArg Candidate.attemptId hab
    rw [← newItem_congr hk hab, ← hid]
    exact h.added a ha
  others k hk := h.others k (fun a ha he => by
    obtain ⟨b, hb, -, hab⟩ := hxy a ha
    have hid : a.attemptId = b.attemptId := congrArg Candidate.attemptId hab
    exact hk b hb (hid ▸ he))
  rest := h.rest

theorem exists_candidate (h : xs.map candidate = ys.map candidate) (ha : a ∈ xs) :
    ∃ b ∈ ys, candidate b = candidate a := by
  have hmem : candidate a ∈ ys.map candidate := h ▸ List.mem_map_of_mem ha
  exact List.mem_map.mp hmem

theorem dueAttempts_congr (h : xs.map candidate = ys.map candidate) :
    dueAttempts policy now xs = dueAttempts policy now ys := by
  have hcount : ∀ zs : List AttemptRecord, dueAttempts policy now zs = ((zs.map candidate).filter
      (fun x => 0 < policy.retentionSeconds && IngestionService.retentionDeadlineIsDue
        (x.firstAdmittedAt + seconds policy.retentionSeconds) now)).length := by
    intro zs
    rw [List.filter_map, List.length_map]
    rfl
  rw [hcount, hcount, h]

/-- The attempts of the preview get its policy, and nothing else changes but the audit rows. -/
structure Applied (p : Preview) (q : BackfillRequest) (credentialId : String) (batch : Uuid)
    (now : Instant) (c c' : Catalog) : Prop where
  current : ∀ a ∈ p.plan.attempts, ∃ r, c.records.get a.attempt = some r ∧ candidate r = candidate a
  unrequested : ∀ a ∈ p.plan.attempts, c.deletions.get a.attempt = none
  due : dueAttempts p.plan.policy now p.plan.attempts = p.plan.dueAttempts
  fresh : ∀ a ∈ p.plan.attempts, c.backfillItems.get (batch, a.attemptId) = none
  migrated : Migrated batch p.plan.policy p.plan.attempts c { c' with backfills := c.backfills }
  recorded : c'.backfills = c.backfills.insert (newBackfill q p.plan batch credentialId now)

/-- The eligible attempts, with their first admission, policy version and deadline, are those of the
preview. -/
def Current (p : Preview) (q : BackfillRequest) (c : Catalog) : Prop :=
  (eligibleAttempts q p.plan.policy.logicalCaseId c).map candidate = p.plan.attempts.map candidate

theorem Applying.located {first : BackfillPlan} {s₁ s₂ : Catalog} (hq : p.Covers q)
    (shown : Shown env p s₁) (firstly : Evaluated env q now [] first s₁)
    (hkept : Kept {Lock.retentionPolicyBackfill q.tenantId q.clusterId} s₁ s₂)
    (secondly : Evaluated env q now first.attempts plan s₂)
    (hcandidates : plan.attempts.map Backfills.candidate = p.plan.attempts.map Backfills.candidate)
    (ha : a ∈ plan.attempts) : (∃ l ∈ first.attempts, l.attempt = a.attempt) ∧
      s₂.deletions.get a.attempt = none ∧
        ∃ r, s₂.records.get a.attempt = some r ∧ Backfills.candidate r = Backfills.candidate a := by
  obtain ⟨ht, hc, hv, -⟩ := hq
  obtain ⟨r, hr, hk, hloaded⟩ := secondly.row ha
  obtain ⟨hm, htr, hcr, hdel, hversion, hscope⟩ := IngestionService.mem_eligibleAttempts.mp hr
  obtain ⟨hta, hca⟩ := secondly.scoped ha
  obtain ⟨b, hb, hab⟩ := exists_candidate hcandidates ha
  obtain ⟨htb, hcb, r₁, hr₁, hscope₁⟩ := shown.attempts b hb
  have hkb : b.attempt = a.attempt :=
    attempt_eq hab (by rw [htb, hta, ht]) (by rw [hcb, hca, hc])
  rw [hkb] at hr₁
  have hpolicy : first.policy = p.plan.policy := by
    have hfirst := firstly.policy
    rw [ht, hc, hv] at hfirst
    exact Option.some.inj (hfirst.symm.trans shown.policy)
  obtain ⟨r', hr', hf⟩ := hkept.records _ r₁ hr₁
  obtain rfl : r' = r := Option.some.inj (hr'.symm.trans (hk ▸ Table.get_of_mem hm))
  have hlock : Lock.retentionPolicyBackfill a.attempt.tenantId a.attempt.clusterId ∈
      ({Lock.retentionPolicyBackfill q.tenantId q.clusterId} : Set Lock) := by
    show Lock.retentionPolicyBackfill a.tenantId a.clusterId ∈ _
    rw [hta, hca]
    exact rfl
  have hk₁ := Table.key_of_get hr₁
  have hsame : Backfills.candidate r' = Backfills.candidate r₁ := hf.candidate hk₁ hk hlock
  have hmem : r₁ ∈ first.attempts := by
    rw [firstly.unloaded, IngestionService.mem_eligibleAttempts, hpolicy]
    have hkey := AttemptKey.mk.inj hk₁
    refine ⟨Table.mem_of_get hr₁, hkey.1.trans hta, hkey.2.1.trans hca, ?_, ?_, hscope₁⟩
    · rw [hk₁]
      exact hkept.requested _ (hk ▸ hdel)
    · exact (hf.assignment hlock).1.symm.trans hversion
  refine ⟨⟨r₁, hmem, hk₁⟩, hk ▸ hdel, r', hr', ?_⟩
  obtain rfl | hmemA := hloaded
  · rfl
  · have hrow : a ∈ s₁.records := by
      rw [firstly.unloaded] at hmemA
      exact (IngestionService.mem_eligibleAttempts.mp hmemA).1
    obtain rfl : a = r₁ := Table.eq_of_key hrow (Table.mem_of_get hr₁) hk₁.symm
    exact hsame

/-- A backfill that is given the counts and the digest of a preview finds the attempts of this
preview, and applies it. -/
theorem Applying.applied (hfree : CollisionFree env) (hq : p.Covers q) (shown : Shown env p s)
    (hs : s ∈ V) (h : Applying env V q p.plan.attempts.length p.plan.dueAttempts
      p.plan.candidateDigest credentialId batch now s H s' w) :
    (∀ s'', Rely (Commit V) H s' s'' → Applied p q credentialId batch now s'' (w s'')) ∧
      ∃ m ∈ V, Current p q m := by
  cases h with
  | @mk first plan s₁ s₂ s' H₂ H w h₁ firstly h₂ secondly lock locks h₃ hH eligible due digest
      written =>
    have shown₁ := shown.kept (kept_of_rely h₁)
    have shown₂ := shown₁.kept (kept_of_rely h₂)
    have hcandidates : plan.attempts.map Backfills.candidate =
        p.plan.attempts.map Backfills.candidate :=
      candidates_of_digest hfree (secondly.digest.symm.trans (digest.trans shown.digest))
    have hpolicy : plan.policy = p.plan.policy := by
      have hplan := secondly.policy
      rw [hq.1, hq.2.1, hq.2.2.1] at hplan
      exact Option.some.inj (hplan.symm.trans shown₂.policy)
    have located := fun a (ha : a ∈ plan.attempts) =>
      Applying.located hq shown₁ firstly (kept_of_rely h₂) secondly hcandidates ha
    have hkey : ∀ a ∈ plan.attempts, ∀ b ∈ p.plan.attempts, Backfills.candidate b =
        Backfills.candidate a → a.attempt = b.attempt := by
      intro a ha b hb hab
      obtain ⟨ht, hc⟩ := secondly.scoped ha
      obtain ⟨htb, hcb, -⟩ := shown.attempts b hb
      exact attempt_eq hab.symm (by rw [ht, htb, hq.1]) (by rw [hc, hcb, hq.2.1])
    have hyx : ∀ b ∈ p.plan.attempts, ∃ a ∈ plan.attempts, a.attempt = b.attempt ∧
        Backfills.candidate a = Backfills.candidate b := by
      intro b hb
      obtain ⟨a, ha, hab⟩ := exists_candidate hcandidates.symm hb
      exact ⟨a, ha, hkey a ha b hb hab.symm, hab⟩
    have hxy : ∀ a ∈ plan.attempts, ∃ b ∈ p.plan.attempts, a.attempt = b.attempt ∧
        Backfills.candidate a = Backfills.candidate b := by
      intro a ha
      obtain ⟨b, hb, hab⟩ := exists_candidate hcandidates ha
      exact ⟨b, hb, hkey a ha b hb hab, hab.symm⟩
    refine ⟨fun s'' hs'' => ?_, s₂, ?_, ?_⟩
    · have hkept : Kept H₂ s₂ s'' := kept_of_rely (h₃.trans (hs''.anti hH))
      have hw := written.stable hs''
      have hm := hw.migrates s'' hw.free
      constructor
      · intro b hb
        obtain ⟨a, ha, hk, hab⟩ := hyx b hb
        obtain ⟨-, -, r, hr, hra⟩ := located a ha
        obtain ⟨r', hr', hf⟩ := hkept.records _ r hr
        refine ⟨r', hk ▸ hr', ?_⟩
        obtain ⟨ht, hc⟩ := secondly.scoped ha
        have hlock : Lock.retentionPolicyBackfill a.attempt.tenantId a.attempt.clusterId ∈ H₂ := by
          show Lock.retentionPolicyBackfill a.tenantId a.clusterId ∈ _
          rw [ht, hc]
          exact lock
        exact (hf.candidate (Table.key_of_get hr) (Table.key_of_get hr') hlock).trans (hra.trans hab)
      · intro b hb
        obtain ⟨a, ha, hk, -⟩ := hyx b hb
        obtain ⟨⟨l, hl, hla⟩, hdel, -⟩ := located a ha
        rw [← hk]
        exact hkept.unrequested _ (hla ▸ locks l hl) hdel
      · rw [← dueAttempts_congr hcandidates, ← hpolicy, ← secondly.due]
        exact_mod_cast due
      · intro b hb
        obtain ⟨a, ha, -, hab⟩ := hyx b hb
        have hid : a.attemptId = b.attemptId := congrArg Candidate.attemptId hab
        rw [← hid]
        exact hw.free a ha
      · have hsame : ({ w s'' with backfills := s''.backfills } : Catalog) = w s'' := by
          rw [hm.rest]
        show Migrated batch p.plan.policy p.plan.attempts s'' { w s'' with
          backfills := s''.backfills }
        rw [hsame, ← hpolicy]
        exact hm.congr hyx hxy
      · have hlength : plan.attempts.length = p.plan.attempts.length := by exact_mod_cast eligible
        have hdue : plan.dueAttempts = p.plan.dueAttempts := by exact_mod_cast due
        have hrow : newBackfill q plan batch credentialId now =
            newBackfill q p.plan batch credentialId now := by
          rw [newBackfill, newBackfill, hpolicy, digest, hlength, hdue]
        have hbackfills : (w s'').backfills = s''.backfills := by
          rw [hm.rest]
        show (w s'').backfills.insert (newBackfill q plan batch credentialId now) = _
        rw [hrow, hbackfills]
    · exact mem_of_rely h₂ (mem_of_rely h₁ hs)
    · rw [Current, ← hcandidates, secondly.attempts, List.map_map, ← hpolicy]
      refine List.map_congr_left (fun r hr => ?_)
      have hmem : ((first.attempts.find? (fun l => l.attempt = r.attempt)).getD r) ∈
          plan.attempts := by
        rw [secondly.attempts]
        exact List.mem_map_of_mem hr
      obtain ⟨-, -, r', hr', hrow⟩ := located _ hmem
      have hk : ((first.attempts.find? (fun l => l.attempt = r.attempt)).getD r).attempt =
          r.attempt := by
        cases hfind : first.attempts.find? (fun l => l.attempt = r.attempt) with
        | none => rfl
        | some l => simpa using List.find?_some hfind
      rw [hk, Table.get_of_mem (IngestionService.mem_eligibleAttempts.mp hr).1] at hr'
      obtain rfl : r = r' := Option.some.inj hr'
      exact hrow

end preview

section run

variable {env : Env} {settings : IngestionSettings} {V : Set Catalog} {H : Set Lock}
  {s s' db : Catalog} {w : Catalog → Catalog} {call : Call} {a : Reply} {c c' c₀ : Pool}
  {label : Option (Call × Reply)} {m : History} {objects : ObjectStore} {others : Memory}
  {T T' : Call → Prop}

/-- What a session is to deliver at its commit. The calls in `T` are watched from their start. -/
structure Promise (env : Env) (V : Set Catalog) (T : Call → Prop) (call : Call) (a : Reply)
    (H : Set Lock) (s : Catalog) (w : Catalog → Catalog) : Prop where
  due : Due V H s w
  shown : ∀ q now plan, call = .preview q now → a = .previewed plan → Shown env ⟨q, plan⟩ s
  applied : ∀ p q credentialId batch now, call = .confirm p q credentialId batch now →
    ∀ s', Rely (Commit V) H s s' → Applied p q credentialId batch now s' (w s')
  current : ∀ p q credentialId batch now, call = .confirm p q credentialId batch now → T call →
    ∃ m ∈ V, Current p q m

theorem Promise.stable (h : Promise env V T call a H s w) (hs : Rely (Commit V) H s s') :
    Promise env V T call a H s' w where
  due := h.due.stable hs
  shown q now plan hcall ha := (h.shown q now plan hcall ha).kept (kept_of_rely hs)
  applied p q credentialId batch now hcall s'' hs' :=
    h.applied p q credentialId batch now hcall s'' (hs.trans hs')
  current := h.current

theorem rely_of_visited (h : Rely (Commit V) H s s') : Rely (Commit Set.univ) H s s' := by
  refine Relation.ReflTransGen.mono ?_ s s' h
  rintro s₁ s₂ ⟨call, a, H', hd, hG⟩
  exact ⟨call, a, H', hd, hG.1, trivial⟩

theorem Promise.narrow (h : Promise env Set.univ T call a H s w) (hT : ¬T' call) :
    Promise env V T' call a H s w where
  due s' hs := h.due s' (rely_of_visited hs)
  shown := h.shown
  applied p q credentialId batch now hcall s' hs :=
    h.applied p q credentialId batch now hcall s' (rely_of_visited hs)
  current _ _ _ _ _ _ ht := absurd ht hT

theorem promise_of_due {call : RankLens.Call} (h : Due V H s w) :
    Promise env V T (.service call) a H s w :=
  ⟨h, fun _ _ _ hcall => (nomatch hcall), fun _ _ _ _ _ hcall => (nomatch hcall),
    fun _ _ _ _ _ hcall => (nomatch hcall)⟩

theorem rwp_service {call : RankLens.Call} {t : Tx RankLens.Reply}
    (h : t.rwp (Rely (Commit V)) (fun _ H' s' w' => Due V H' s' w') ∅ s id) :
    (.service <$> t : Tx Reply).rwp (Rely (Commit V)) (Promise env V T (.service call)) ∅ s id := by
  rw [Txn.rwp_map]
  exact Txn.rwp_mono h (fun _ _ _ _ hdue => promise_of_due hdue)

theorem rwp_service_map {α : Type} {call : RankLens.Call} {t : Tx α} {g : α → RankLens.Reply}
    (h : t.rwp (Rely (Commit V)) (fun _ H' s' w' => Due V H' s' w') ∅ s id) :
    (.service <$> (g <$> t) : Tx Reply).rwp (Rely (Commit V)) (Promise env V T (.service call)) ∅ s
      id := by
  refine rwp_service ?_
  rw [Txn.rwp_map]
  exact h

theorem due_of_writes {α : Type} {t : Tx α}
    (h : t.writes (Kept Set.univ) (fun _ => True)) :
    t.rwp (Rely (Commit V)) (fun _ H' s' w' => Due V H' s' w') ∅ s id := by
  refine Txn.rwp_mono (Due.writes (Q := fun _ => True) (due_of_same (fun c => .refl c)) ?_)
    (fun _ _ _ _ h => h.1.2)
  exact Txn.writes_mono (fun _ _ hc => hc.anti (Set.subset_univ _)) (fun _ h => h) h

theorem due_of_writes_same {α : Type} {t : Tx α} (h : t.writes Same (fun _ => True)) :
    t.rwp (Rely (Commit V)) (fun _ H' s' w' => Due V H' s' w') ∅ s id :=
  due_of_writes (Txn.writes_mono (fun _ _ hc => hc.kept) (fun _ h => h) h)

theorem service_promises {call : RankLens.Call} {t : Tx RankLens.Reply} (hb : beside call = true)
    (h : Deployment.program env settings m.others call = some t) :
    (.service <$> t : Tx Reply).rwp (Rely (Commit V)) (Promise env V T (.service call)) ∅ s id := by
  cases call with
  | admitReserve ticket principal segment fresh now =>
    rw [Deployment.program] at h
    split at h
    · cases h
    · obtain rfl := Option.some.inj h
      exact rwp_service_map (due_of_writes_same admitReserve_same)
  | admitPut ticket faults =>
    obtain ⟨f, -, rfl⟩ := Option.map_eq_some_iff.mp h
    exact rwp_service_map (due_of_writes_same Deployment.admitPut_writes)
  | admitCommit ticket faults freshReceipt freshOutbox committedAt =>
    obtain ⟨f, -, rfl⟩ := Option.map_eq_some_iff.mp h
    exact rwp_service_map admitCommit_due
  | admitCrash ticket =>
    obtain rfl := Option.some.inj h
    exact promise_of_due (due_of_same (fun c => .refl c))
  | deleteAttempt k now =>
    obtain rfl := Option.some.inj h
    exact rwp_service_map deleteAttempt_due
  | placeAttemptHold k holdId reason credentialId now =>
    obtain rfl := Option.some.inj h
    exact rwp_service_map placeAttemptHold_due
  | releaseAttemptHold holdId credentialId expected releasedAt now =>
    obtain rfl := Option.some.inj h
    exact rwp_service_map releaseAttemptHold_due
  | createRetentionPolicyRevision =>
    obtain rfl := Option.some.inj h
    exact rwp_service_map (due_of_writes createRetentionPolicyRevision_kept)
  | cancelRetentionPolicyRevision k reason credentialId now =>
    obtain rfl := Option.some.inj h
    exact rwp_service_map (due_of_writes_same cancelRetentionPolicyRevision_same)
  | applyRetentionPolicyBackfill =>
    obtain rfl := Option.some.inj h
    refine rwp_service_map ?_
    exact Txn.rwp_mono applyRetentionPolicyBackfill_rwp (fun _ _ _ _ happlying => happlying.due)
  | _ => cases hb

theorem program_promises (hfree : CollisionFree env) (hs : s ∈ V)
    (hshown : ∀ p ∈ m.previews, Shown env p s) {t : Tx Reply}
    (h : program env settings m call = some t) :
    t.rwp (Rely (Commit V)) (Promise env V T call) ∅ s id := by
  cases call with
  | preview q now =>
    obtain rfl := Option.some.inj h
    rw [Txn.rwp_map]
    refine Txn.rwp_mono retentionBackfillDecision_rwp ?_
    rintro plan H' s' w ⟨⟨rfl, rfl, -⟩, hevaluated⟩
    refine ⟨due_of_same (fun c => .refl c), ?_, fun _ _ _ _ _ hcall => (nomatch hcall),
      fun _ _ _ _ _ hcall => (nomatch hcall)⟩
    rintro q' now' plan' hcall ha
    obtain ⟨rfl, rfl⟩ := Call.preview.inj hcall
    obtain rfl := Reply.previewed.inj ha
    exact hevaluated.shown
  | confirm p q credentialId fresh now =>
    rw [program] at h
    split at h
    · next hp =>
      obtain rfl := Option.some.inj h
      rw [Txn.rwp_map]
      refine Txn.rwp_mono applyRetentionPolicyBackfill_rwp ?_
      intro d H' s' w happlying
      have happlied := happlying.applied hfree hp.2 (hshown p hp.1) hs
      refine ⟨happlying.due, fun _ _ _ hcall => (nomatch hcall), ?_, ?_⟩
      · rintro p' q' credentialId' batch now' hcall
        obtain ⟨rfl, rfl, rfl, rfl, rfl⟩ := Call.confirm.inj hcall
        exact happlied.1
      · rintro p' q' credentialId' batch now' hcall _
        obtain ⟨rfl, rfl, rfl, rfl, rfl⟩ := Call.confirm.inj hcall
        exact happlied.2
    · cases h
  | service call =>
    rw [program] at h
    split at h
    · next hb =>
      obtain ⟨t', ht', rfl⟩ := Option.map_eq_some_iff.mp h
      exact service_promises hb ht'
    · cases h

/-- The sessions keep their promises, and what was previewed lasts. -/
structure Inv (env : Env) (V : Set Catalog) (T : Call → Prop) (c : Pool) : Prop where
  promising : Interleaving.Promising (Commit V) (Promise env V T) c
  shown : ∀ p ∈ c.memory.previews, Shown env p c.db

theorem Inv.narrow (h : Inv env Set.univ T c) (hT : ∀ x ∈ c.sessions, ¬T' x.call) :
    Inv env V T' c where
  promising := ⟨h.promising.exclusive, fun x hx => Txn.rwp_mono
    (Txn.rwp_anti (fun _ _ _ hs => rely_of_visited hs) (h.promising.promises x hx))
    (fun _ _ _ _ hp => hp.narrow (hT x hx))⟩
  shown := h.shown

theorem previews_of_not_preview {e : Ending Failure Reply}
    (h : ∀ q now plan, call = .preview q now → e ≠ .committed (.previewed plan)) :
    (finish call e m).previews = m.previews := by
  cases call with
  | preview q now =>
    cases e with
    | committed a =>
      cases a with
      | previewed plan => exact absurd rfl (h q now plan rfl)
      | service a => rfl
    | raised e => rfl
    | died => rfl
  | confirm p q credentialId fresh now => rfl
  | service call => rfl

theorem Inv.step (hfree : CollisionFree env) (h : Inv env V T c)
    (hs : Interleaving.Step (workload env settings) c label c') (hV : c.db ∈ V)
    (hV' : c'.db ∈ V) : Inv env V T c' := by
  constructor
  · refine Interleaving.promising_step ?_ ?_ ?_ h.promising hs
    · exact fun call a H s s' p hrely hp => hp.stable hrely
    · exact fun call t hp => program_promises hfree hV h.shown hp
    · intro call a H p _ hp hdb
      refine ⟨?_, hV'⟩
      rw [hdb]
      exact hp.due c.db (.refl c.db)
  · cases hs with
    | start hp => exact h.shown
    | acquire hl => exact h.shown
    | query => exact h.shown
    | change => exact h.shown
    | effect => exact h.shown
    | @commit db objects m pre post call a H p =>
      have hpromise : Promise env V T call a H db p :=
        h.promising.promises _ (List.mem_append_right _ List.mem_cons_self)
      have hkept : Kept Hᶜ db (p db) := hpromise.due db (.refl db)
      have hold : ∀ p' ∈ m.previews, Shown env p' (p db) := fun p' hp' => (h.shown p' hp').kept hkept
      show ∀ p' ∈ (finish call (.committed a) m).previews, Shown env p' (p db)
      by_cases hnew : ∃ q now plan, call = .preview q now ∧ a = .previewed plan
      · obtain ⟨q, now, plan, rfl, rfl⟩ := hnew
        intro p' hp'
        obtain rfl | hp' := List.mem_cons.mp hp'
        · exact (hpromise.shown q now plan rfl rfl).kept hkept
        · exact hold p' hp'
      · rw [previews_of_not_preview (fun q now plan hcall ha =>
          hnew ⟨q, now, plan, hcall, Ending.committed.inj ha⟩)]
        exact hold
    | @rollback db objects m pre post call e H p =>
      have hsame : (finish call (.raised e) m).previews = m.previews :=
        previews_of_not_preview nofun
      show ∀ p' ∈ (finish call (.raised e) m).previews, Shown env p' db
      rw [hsame]
      exact h.shown
    | @die db objects m pre post x =>
      have hsame : (finish x.call .died m).previews = m.previews := previews_of_not_preview nofun
      show ∀ p' ∈ (finish x.call .died m).previews, Shown env p' db
      rw [hsame]
      exact h.shown

theorem inv_opening : Inv env V T (opening db objects others) :=
  ⟨⟨List.Pairwise.nil, fun _ hx => (List.not_mem_nil hx).elim⟩,
    fun _ hp => (List.not_mem_nil hp).elim⟩

theorem Inv.reach (hfree : CollisionFree env) (h₀ : Inv env V T c₀)
    (h : Reach (workload env settings) c₀ c)
    (hV : ∀ m, Reach (workload env settings) c₀ m → Reach (workload env settings) m c →
      m.db ∈ V) : Inv env V T c := by
  induction h with
  | init => exact h₀
  | @step c₁ c₂ label hr hs ih =>
    have hlast : Reach (workload env settings) c₁ c₂ := Reach.init.step hs
    refine Inv.step hfree (ih (fun m hm hm' => hV m hm (hm'.trans hlast))) hs (hV c₁ hr hlast) ?_
    exact hV c₂ (hr.step hs) .init

theorem Inv.unrequested (hfree : CollisionFree env) (h₀ : Inv env Set.univ T c₀)
    (h : Reach (workload env settings) c₀ c) {k : AttemptKey} (hk : c.db.deletions.get k = none) :
    c₀.db.deletions.get k = none := by
  induction h with
  | init => exact hk
  | @step c₁ c₂ label hr hs ih =>
    refine ih ?_
    cases label with
    | none => rwa [Interleaving.step_db hs] at hk
    | some l =>
      cases hs with
      | @commit db objects m pre post call a H p =>
        have hinv : Inv env Set.univ T _ := h₀.reach hfree hr (fun _ _ _ => trivial)
        have hpromise : Promise env Set.univ T call a H db p :=
          hinv.promising.promises _ (List.mem_append_right _ List.mem_cons_self)
        exact (hpromise.due db (.refl db)).requested k hk

/-- Whatever runs beside it: a backfill that commits with the counts and the digest of a preview
changes exactly what the preview showed. Since it was called there was a moment when the eligible
attempts were those of the preview, and until its commit no deletion of them was requested. Any
other end changes no row. -/
theorem backfill_applies_preview (hfree : CollisionFree env)
    (h : Reach (workload env settings) (opening db objects others) c)
    (hs : Interleaving.Step (workload env settings) c label c') :
    (label = none → c'.db = c.db) ∧
      ∀ p q credentialId batch now a, label = some (.confirm p q credentialId batch now, a) →
        Applied p q credentialId batch now c.db c'.db ∧
        ∀ c₁, Reach (workload env settings) (opening db objects others) c₁ →
          Reach (workload env settings) c₁ c →
            (∀ a ∈ p.plan.attempts, c₁.db.deletions.get a.attempt = none) ∧
            ((∀ x ∈ c₁.sessions, x.call ≠ .confirm p q credentialId batch now) →
              ∃ m, Reach (workload env settings) c₁ m ∧ Reach (workload env settings) m c ∧
                Current p q m.db) := by
  refine ⟨fun hlabel => Interleaving.step_db (hlabel ▸ hs), ?_⟩
  rintro p q credentialId batch now a rfl
  have hinv : ∀ {c₁}, Reach (workload env settings) (opening db objects others) c₁ →
      Inv env Set.univ (fun _ => True) c₁ := fun hr => inv_opening.reach hfree hr (fun _ _ _ => trivial)
  cases hs with
  | @commit db' objects' m' pre post _ _ H w =>
    have hpromise : Promise env _ _ (.confirm p q credentialId batch now) a H db' w :=
      (hinv h).promising.promises _ (List.mem_append_right _ List.mem_cons_self)
    have happlied := hpromise.applied p q credentialId batch now rfl db' (.refl db')
    refine ⟨happlied, fun c₁ h₁ h₂ => ⟨fun a ha => ?_, fun hidle => ?_⟩⟩
    · exact (hinv h₁).unrequested hfree h₂ (happlied.unrequested a ha)
    · have hwatched : Inv env {s | ∃ m, Reach (workload env settings) c₁ m ∧
          Reach (workload env settings) m _ ∧ m.db = s}
          (fun call => call = .confirm p q credentialId batch now) _ :=
        ((hinv h₁).narrow hidle).reach hfree h₂ (fun m hm hm' => ⟨m, hm, hm', rfl⟩)
      have hpromise' : Promise env _ _ (.confirm p q credentialId batch now) a H db' w :=
        hwatched.promising.promises _ (List.mem_append_right _ List.mem_cons_self)
      obtain ⟨_, ⟨m, hm, hm', rfl⟩, hcurrent⟩ :=
        hpromise'.current p q credentialId batch now rfl rfl
      exact ⟨m, hm, hm', hcurrent⟩

end run

section sample

open Sample (encodeNat encodeString encodeList PrefixFree encodeNat_prefixFree
  encodeString_prefixFree encodeList_prefixFree encodeList_map)

def policy : RetentionPolicyRevision := ⟨"acme", "c1", 1, none, 3600, "admin", 0, 0⟩

def unassigned : AttemptRecord :=
  ⟨"acme", "c1", "a1", none, none, none, "unknown", none, 0, 0, none, none, 1, 2⟩

/-- A catalog with one attempt and a policy that is younger. -/
def unmigrated : Catalog :=
  { Catalog.empty with
    policies := Table.empty.insert policy
    records := Table.empty.insert unassigned }

def request : BackfillRequest := ⟨"acme", "c1", 1, 10, none, none⟩

def epoch : String := "1970-01-01T00:00:00+00:00"

def candidateText : Bytes :=
  ("[\x7b\"attempt_id\":\"a1\",\"first_admitted_at\":\"1970-01-01T00:00:00+00:00\"," ++
    "\"retention_expires_at\":null,\"retention_policy_version\":null\x7d]").toList.map
      (fun c => UInt8.ofNat c.toNat)

def candidateDigest : String := "f38f82a1ce74eeac5c7d65c92cb04c74029e2502831a3e98f6010f7bcac7ac4c"

def sha256 (p : Bytes) : String :=
  if p = candidateText then candidateDigest
  else String.ofList ('x' :: p.map (fun b => Char.ofNat b.toNat))

def isoformat (t : Instant) : String :=
  if t = 0 then epoch
  else String.ofList ((if t < 0 then '-' else '+') :: List.replicate t.natAbs '0')

def encodeValue : Json → Bytes
  | .int n => 1 :: encodeNat n.toNat
  | .str s => 2 :: encodeString s
  | _ => [0]

def encodeCandidate : Json → Bytes
  | .object [(_, attemptId), (_, admitted), (_, version), (_, expires)] =>
    encodeValue attemptId ++ (encodeValue admitted ++ (encodeValue version ++ encodeValue expires))
  | _ => []

def unassignedJson : Json → Bool
  | .object [(_, .str attemptId), (_, .str admitted), (_, .null), (_, .null)] =>
    attemptId = "a1" && admitted = epoch
  | _ => false

def single : Json → Bool
  | .list rows => rows.length = 1 && rows.all unassignedJson
  | _ => false

def encodeCandidates : Json → Bytes
  | .list rows => 0 :: encodeList encodeCandidate rows
  | _ => []

def dumps (j : Json) : Bytes := if single j then candidateText else encodeCandidates j

def confirming : Env :=
  { Sample.env with
    sha256 := sha256
    isoformat := isoformat
    dumps := dumps }

def preview : Preview := ⟨request, policy, [unassigned], 0, candidateDigest⟩

theorem sha256_injective : Function.Injective sha256 := Sample.marked_injective (by decide)

theorem isoformat_injective : Function.Injective isoformat := by
  have hne : ∀ t : Instant, epoch ≠
      String.ofList ((if t < 0 then '-' else '+') :: List.replicate t.natAbs '0') := by
    intro t h
    have hl := congrArg String.toList h
    rw [String.toList_ofList] at hl
    split at hl <;> cases hl
  intro s t h
  by_cases hs : s = 0
  · by_cases ht : t = 0
    · rw [hs, ht]
    · rw [isoformat, isoformat, if_pos hs, if_neg ht] at h
      exact absurd h (hne t)
  · by_cases ht : t = 0
    · rw [isoformat, isoformat, if_neg hs, if_pos ht] at h
      exact absurd h.symm (hne s)
    · rw [isoformat, isoformat, if_neg hs, if_neg ht] at h
      have hl := congrArg String.toList h
      rw [String.toList_ofList, String.toList_ofList, List.cons.injEq] at hl
      have habs := congrArg List.length hl.2
      rw [List.length_replicate, List.length_replicate] at habs
      obtain hst | hst := Int.natAbs_eq_natAbs_iff.mp habs
      · exact hst
      · exfalso
        have hl₁ := hl.1
        split at hl₁ <;> split at hl₁
        · next h₁ h₂ => exact absurd (hst ▸ h₁ : -t < 0) (by simpa using le_of_lt h₂)
        · cases hl₁
        · cases hl₁
        · next h₁ h₂ =>
          have hle : 0 ≤ -t := hst ▸ not_lt.mp h₁
          exact ht (le_antisymm (by simpa using hle) (not_lt.mp h₂))

theorem encodeValue_string : PrefixFree (fun s => encodeValue (.str s)) id := by
  intro s t u u' h
  exact encodeString_prefixFree s t u u' (List.cons.inj h).2

theorem encodeValue_time : PrefixFree
    (fun t => encodeValue (IngestionService.timestamp confirming t))
    (IngestionService.timestamp confirming) := by
  intro s t u u' h
  cases s with
  | none =>
    cases t with
    | none => exact ⟨rfl, (List.cons.inj h).2⟩
    | some t => cases (List.cons.inj h).1
  | some s =>
    cases t with
    | none => cases (List.cons.inj h).1
    | some t =>
      obtain ⟨hst, hu⟩ := encodeValue_string _ _ u u' h
      exact ⟨congrArg Json.str hst, hu⟩

theorem encodeValue_version : PrefixFree
    (fun v : Option Nat => encodeValue ((v.map (fun n : Nat => Json.int n)).getD .null)) id := by
  intro v v' u u' h
  cases v with
  | none =>
    cases v' with
    | none => exact ⟨rfl, (List.cons.inj h).2⟩
    | some v' => cases (List.cons.inj h).1
  | some v =>
    cases v' with
    | none => cases (List.cons.inj h).1
    | some v' =>
      obtain ⟨hv, hu⟩ := encodeNat_prefixFree _ _ u u' (List.cons.inj h).2
      have hv' : v = v' := hv
      exact ⟨congrArg some hv', hu⟩

theorem encodeCandidate_prefixFree : PrefixFree
    (fun a => encodeCandidate (candidateJson confirming a)) (candidateJson confirming) := by
  intro a b u u' h
  simp only [encodeCandidate, candidateJson, List.append_assoc] at h
  obtain ⟨hid, h⟩ := encodeValue_string _ _ _ _ h
  obtain ⟨hadmitted, h⟩ := encodeValue_time _ _ _ _ h
  obtain ⟨hversion, h⟩ := encodeValue_version _ _ _ _ h
  obtain ⟨hexpires, hu⟩ := encodeValue_time _ _ _ _ h
  have hid' : a.attemptId = b.attemptId := hid
  have hversion' : a.retentionPolicyVersion = b.retentionPolicyVersion := hversion
  exact ⟨by rw [candidateJson, candidateJson, hid', hadmitted, hversion', hexpires], hu⟩

theorem single_candidates {xs : List AttemptRecord}
    (h : single (candidatesJson confirming xs) = true) :
    candidatesJson confirming xs = candidatesJson confirming [unassigned] := by
  have hrows : ((xs.map (candidateJson confirming)).length = 1 &&
      (xs.map (candidateJson confirming)).all unassignedJson) = true := h
  rw [Bool.and_eq_true, decide_eq_true_eq, List.length_map] at hrows
  obtain ⟨a, rfl⟩ := List.length_eq_one_iff.mp hrows.1
  have hrow : unassignedJson (candidateJson confirming a) = true := by simpa using hrows.2
  have hfields : a.attemptId = "a1" ∧ isoformat a.firstAdmittedAt = epoch ∧
      a.retentionPolicyVersion = none ∧ a.retentionExpiresAt = none := by
    rw [candidateJson] at hrow
    cases hv : a.retentionPolicyVersion with
    | some v =>
      rw [hv] at hrow
      cases hrow
    | none =>
      cases he : a.retentionExpiresAt with
      | some t =>
        rw [hv, he] at hrow
        cases hrow
      | none =>
        rw [hv, he] at hrow
        have hb : (decide (a.attemptId = "a1") &&
          decide (isoformat a.firstAdmittedAt = epoch)) = true := hrow
        rw [Bool.and_eq_true, decide_eq_true_eq, decide_eq_true_eq] at hb
        exact ⟨hb.1, hb.2, rfl, rfl⟩
  obtain ⟨hid, hadmitted, hversion, hexpires⟩ := hfields
  have hzero : a.firstAdmittedAt = 0 := isoformat_injective (hadmitted.trans rfl)
  rw [candidatesJson, candidatesJson, List.map_cons, List.map_cons, candidateJson, candidateJson,
    hid, hzero, hversion, hexpires]
  rfl

theorem confirming_collisionFree : CollisionFree confirming := by
  have hne : ∀ zs, candidateText ≠ encodeCandidates (candidatesJson confirming zs) := by
    intro zs h
    have hhead := congrArg List.head? h
    rw [show (encodeCandidates (candidatesJson confirming zs)).head? = some 0 from rfl] at hhead
    exact absurd hhead (by decide +kernel)
  refine ⟨sha256_injective, fun xs ys h => ?_, isoformat_injective⟩
  have h : dumps (candidatesJson confirming xs) = dumps (candidatesJson confirming ys) := h
  by_cases hx : single (candidatesJson confirming xs) = true
  · by_cases hy : single (candidatesJson confirming ys) = true
    · rw [single_candidates hx, single_candidates hy]
    · rw [dumps, dumps, if_pos hx, if_neg hy] at h
      exact absurd h (hne ys)
  · by_cases hy : single (candidatesJson confirming ys) = true
    · rw [dumps, dumps, if_neg hx, if_pos hy] at h
      exact absurd h.symm (hne xs)
    · rw [dumps, dumps, if_neg hx, if_neg hy] at h
      have hrows : encodeList encodeCandidate (xs.map (candidateJson confirming)) =
        encodeList encodeCandidate (ys.map (candidateJson confirming)) := (List.cons.inj h).2
      rw [encodeList_map, encodeList_map] at hrows
      have hmap := (encodeList_prefixFree encodeCandidate_prefixFree xs ys [] [] (by rw [hrows])).1
      rw [candidatesJson, candidatesJson, hmap]

def answered : Except Failure (Reply × Catalog) × ObjectStore →
    Option (Reply × Catalog × ObjectStore)
  | (.ok (a, db), w) => some (a, db, w)
  | (.error _, _) => none

theorem of_answered {r : Except Failure (Reply × Catalog) × ObjectStore} {a : Reply} {db : Catalog}
    {w : ObjectStore} (h : answered r = some (a, db, w)) : r = (.ok (a, db), w) := by
  obtain ⟨x | x, w'⟩ := r
  · cases h
  · cases h
    rfl

def planOf : Reply → Option BackfillPlan
  | .previewed plan => some plan
  | .service _ => none

/-- A preview that is confirmed. -/
theorem backfill_applies_preview_single : ∃ (c c' : Pool) (a : Reply),
    Reach (workload confirming Sample.settings) (opening unmigrated (fun _ => none) .empty) c ∧
    Interleaving.Step (workload confirming Sample.settings) c
      (some (.confirm preview request "admin" 9 1, a)) c' ∧
    Applied preview request "admin" 9 1 c.db c'.db := by
  have hruns : ((answered ((.previewed <$> IngestionService.retentionBackfillDecision confirming
      request 1 [] : Tx Reply).run unmigrated (fun _ => none))).bind (fun x =>
        if planOf x.1 = some preview.plan then
          (program confirming Sample.settings ⟨[preview], .empty⟩
            (.confirm preview request "admin" 9 1)).bind (fun t => answered (t.run x.2.1 x.2.2))
        else none)).isSome = true := by decide +kernel
  obtain ⟨⟨a₂, db₂, w₂⟩, hruns⟩ := Option.isSome_iff_exists.mp hruns
  obtain ⟨⟨a₁, db₁, w₁⟩, h₁, h₂⟩ := Option.bind_eq_some_iff.mp hruns
  split at h₂
  · next hplan =>
    have ha₁ : a₁ = .previewed preview.plan := by
      cases a₁ with
      | previewed plan => rw [Option.some.inj hplan]
      | service a => cases hplan
    obtain rfl := ha₁
    have hpreview : (workload confirming Sample.settings).program ⟨[], .empty⟩
        (.preview request 1) = some (.previewed <$>
          IngestionService.retentionBackfillDecision confirming request 1 []) := rfl
    obtain ⟨c₁, hr₁, hs₁⟩ := Interleaving.alone_commits hpreview (of_answered h₁)
    obtain ⟨t, hcall, h₂⟩ := Option.bind_eq_some_iff.mp h₂
    have hconfirm : (workload confirming Sample.settings).program ⟨[preview], .empty⟩
        (.confirm preview request "admin" 9 1) = some t := hcall
    obtain ⟨c₂, hr₂, hs₂⟩ := Interleaving.alone_commits hconfirm (of_answered h₂)
    have hr : Reach (workload confirming Sample.settings)
        (opening unmigrated (fun _ => none) .empty) c₂ := (hr₁.step hs₁).trans hr₂
    exact ⟨c₂, _, _, hr, hs₂, ((backfill_applies_preview confirming_collisionFree hr hs₂).2
      preview request "admin" 9 1 _ rfl).1⟩
  · cases h₂

end sample

end Backfills

end RankLens
