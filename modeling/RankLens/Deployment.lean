import RankLens.Erasure
import RankLens.Recovery
import RankLens.Reporting
import RankLens.Retention

namespace RankLens

open Interleaving (Ending Workload)

/-- How far `ReportRevisionWorker.execute` has come between two sessions. -/
inductive ReportStage where
  | planned (plan : ReportPlan)
  | built (report : BuiltReport)
  | reserved (report : BuiltReport)
deriving DecidableEq, Repr

/-- What the running calls remember between their transactions, by ticket, the
receipts handed out, and the objects put or attempted, by the attempt they were
put for. -/
structure Memory where
  flights : List (Nat × IngestionService.Flight × Bool)
  publications : List (Nat × WorkLease × Publication)
  reports : List (Nat × WorkLease × ReportStage)
  sweeps : List (Nat × Instant × List AttemptKey)
  receipts : List (MachinePrincipal × SegmentUpload × DurableReceipt)
  puts : List (AttemptKey × ObjectKey)

def Memory.empty : Memory := ⟨[], [], [], [], [], []⟩

def lookup {α : Type} (xs : List (Nat × α)) (ticket : Nat) : Option α :=
  (xs.find? (fun x => x.1 = ticket)).map Prod.snd

def forget {α : Type} (xs : List (Nat × α)) (ticket : Nat) : List (Nat × α) :=
  xs.filter (fun x => x.1 ≠ ticket)

def remember {α : Type} (xs : List (Nat × α)) (ticket : Nat) (a : α) : List (Nat × α) :=
  (ticket, a) :: forget xs ticket

/-- The transactions of the services, with what the clock, `uuid4`, the file
system and the locks of others choose. -/
inductive Call where
  | admitReserve (ticket : Nat) (principal : MachinePrincipal) (segment : SegmentUpload)
      (fresh : Uuid) (now : Instant)
  | admitPut (ticket : Nat) (faults : Faults)
  | admitCommit (ticket : Nat) (faults : Faults) (freshReceipt freshOutbox : Uuid)
      (committedAt : Instant)
  | admitCrash (ticket : Nat)
  | deleteAttempt (k : AttemptKey) (now : Instant)
  | placeAttemptHold (k : AttemptKey) (holdId : Uuid) (reason credentialId : String) (now : Instant)
  | releaseAttemptHold (holdId : Uuid) (credentialId : String)
      (expected : Option (String × Option String × Option String)) (releasedAt now : Instant)
  | createRetentionPolicyRevision (tenantId clusterId : String) (retentionSeconds : Nat)
      (credentialId : String) (effectiveAt : Option Instant) (logicalCaseId : Option String)
      (now : Instant)
  | cancelRetentionPolicyRevision (k : PolicyKey) (reason credentialId : String) (now : Instant)
  | applyRetentionPolicyBackfill (q : BackfillRequest) (expectedEligible expectedDue : Int)
      (expectedDigest credentialId : String) (fresh : Uuid) (now : Instant)
  | retentionScan (sweep : Nat) (batchSize : Nat) (now : Instant)
  | retentionDelete (sweep : Nat) (k : AttemptKey) (now : Instant)
  | reservationSweep (self : ReservationSweeper) (now : Instant) (skip : List Uuid)
      (fresh : Uuid → Uuid) (clock : Uuid → Instant)
  | objectGc (faults : Faults) (now : Instant) (skip : List Uuid)
  | objectGcAudit (self : ObjectGcAuditWorker) (faults : Faults) (now : Instant) (skip : List Uuid)
      (fresh : Uuid → String × String → Uuid × Uuid)
  | outboxClaim (owner : String) (leaseSeconds : Nat) (now : Instant) (skip : List Uuid)
  | outboxRead (ticket : Nat) (lease : WorkLease) (faults : Faults)
  | outboxPublish (ticket : Nat) (fresh : Uuid) (order : FlushOrder) (now : Instant)
  | outboxFail (lease : WorkLease) (message : String)
  | reportClaim (owner : String) (leaseSeconds : Nat) (now : Instant) (skip : List Uuid)
  | reportRead (ticket : Nat) (lease : WorkLease)
  | reportBuild (ticket : Nat) (self : ReportRevisionWorker) (faults : Faults)
  | reportReserve (ticket : Nat) (self : ReportRevisionWorker) (fresh : ObjectKey → Uuid)
      (now : Instant)
  | reportPublish (ticket : Nat) (self : ReportRevisionWorker) (faults : Faults)
      (fresh : ObjectKey → Uuid) (freshRevision : Uuid) (now : Instant)
  | reportFail (lease : WorkLease) (message : String)
  | deletionClaim (owner : String) (leaseSeconds : Nat) (now : Instant) (skip : List AttemptKey)
  | deletionExecute (lease : DeletionLease) (faults : Faults) (now : Instant)
  | deletionFail (lease : DeletionLease) (message : String)
  | applyCompletedTombstones (bundle : TombstoneBundle) (actor : String) (now : Instant)

inductive Reply where
  | unit
  | admitted (a : IngestionService.Admitted)
  | receipt (r : DurableReceipt)
  | deleted (d : Deleted)
  | released (changed : Bool)
  | policy (p : RetentionPolicyRevision)
  | cancellation (c : RetentionPolicyCancellation)
  | backfill (d : RetentionPolicyBackfillDecision)
  | due (attempts : List AttemptKey)
  | swept (count : Nat)
  | collected (outcome : Option GcOutcome)
  | audited (states : List CandidateState)
  | workLease (lease : Option WorkLease)
  | publication (p : Option Publication)
  | published (done : Bool)
  | plan (p : Option ReportPlan)
  | built (b : BuiltReport)
  | deletionLease (lease : Option DeletionLease)
  | erased (done : Bool)
  | imported (r : TombstoneImportResult)
deriving DecidableEq, Repr

namespace Deployment

variable (env : Env) (settings : IngestionSettings)

def flightAt (m : Memory) (ticket : Nat) (stored : Bool) : Option IngestionService.Flight :=
  (lookup m.flights ticket).bind (fun x => if x.2 = stored then some x.1 else none)

def reportAt (m : Memory) (ticket : Nat) : Option (WorkLease × ReportStage) :=
  lookup m.reports ticket

/-- The transaction a call runs, when what the callers remember allows the call. -/
def program (m : Memory) : Call → Option (Tx Reply)
  | .admitReserve ticket principal segment fresh now =>
    match lookup m.flights ticket with
    | some _ => none
    | none =>
      some (.admitted <$> IngestionService.admitReserve env settings principal segment fresh now)
  | .admitPut ticket faults =>
    (flightAt m ticket false).map (fun f => (fun _ => .unit) <$> IngestionService.admitPut env faults f)
  | .admitCommit ticket faults freshReceipt freshOutbox committedAt =>
    (flightAt m ticket true).map (fun f => .receipt <$>
      IngestionService.admitCommit env settings faults f freshReceipt freshOutbox committedAt)
  | .admitCrash _ => some (pure .unit)
  | .deleteAttempt k now => some (.deleted <$> IngestionService.deleteAttempt k now)
  | .placeAttemptHold k holdId reason credentialId now =>
    some ((fun _ => .unit) <$> IngestionService.placeAttemptHold k holdId reason credentialId now)
  | .releaseAttemptHold holdId credentialId expected releasedAt now =>
    some (.released <$>
      IngestionService.releaseAttemptHold holdId credentialId expected releasedAt now)
  | .createRetentionPolicyRevision tenantId clusterId retentionSeconds credentialId effectiveAt
      logicalCaseId now =>
    some (.policy <$> IngestionService.createRetentionPolicyRevision tenantId clusterId
      retentionSeconds credentialId effectiveAt logicalCaseId now)
  | .cancelRetentionPolicyRevision k reason credentialId now =>
    some (.cancellation <$>
      IngestionService.cancelRetentionPolicyRevision k reason credentialId now)
  | .applyRetentionPolicyBackfill q expectedEligible expectedDue expectedDigest credentialId fresh
      now =>
    some (.backfill <$> IngestionService.applyRetentionPolicyBackfill env q expectedEligible
      expectedDue expectedDigest credentialId fresh now)
  | .retentionScan sweep batchSize now =>
    match lookup m.sweeps sweep with
    | some _ => none
    | none => some (.due <$> RetentionSweeper.scan batchSize now)
  | .retentionDelete sweep k now =>
    match lookup m.sweeps sweep with
    | some (_, k' :: _) =>
      if k' = k then some (.deleted <$> IngestionService.deleteAttempt k now) else none
    | _ => none
  | .reservationSweep self now skip fresh clock => some (.swept <$> self.runOnce now skip fresh clock)
  | .objectGc faults now skip => some (.collected <$> ObjectGcWorker.runOnce env faults now skip)
  | .objectGcAudit self faults now skip fresh =>
    some (.audited <$> self.runOnce env faults now skip fresh)
  | .outboxClaim owner leaseSeconds now skip =>
    some (.workLease <$> OutboxWorker.claim owner leaseSeconds now skip)
  | .outboxRead ticket lease faults =>
    match lookup m.publications ticket with
    | some _ => none
    | none => some (.publication <$> OutboxWorker.read env faults lease)
  | .outboxPublish ticket fresh order now =>
    (lookup m.publications ticket).map (fun x =>
      .published <$> OutboxWorker.publish x.1 x.2 fresh order now)
  | .outboxFail lease message => some ((fun _ => .unit) <$> OutboxWorker.fail lease message)
  | .reportClaim owner leaseSeconds now skip =>
    some (.workLease <$> ReportRevisionWorker.claim owner leaseSeconds now skip)
  | .reportRead ticket lease =>
    match reportAt m ticket with
    | some _ => none
    | none => some (.plan <$> ReportRevisionWorker.read lease)
  | .reportBuild ticket self faults =>
    match reportAt m ticket with
    | some (_, .planned plan) => some (.built <$> self.build env faults plan)
    | _ => none
  | .reportReserve ticket self fresh now =>
    match reportAt m ticket with
    | some (_, .built report) =>
      some ((fun _ => .built report) <$> self.reserveArtifacts report fresh now)
    | _ => none
  | .reportPublish ticket self faults fresh freshRevision now =>
    match reportAt m ticket with
    | some (lease, .reserved report) =>
      some (.published <$> self.publish env faults lease report fresh freshRevision now)
    | _ => none
  | .reportFail lease message =>
    some ((fun _ => .unit) <$> ReportRevisionWorker.fail lease message)
  | .deletionClaim owner leaseSeconds now skip =>
    some (.deletionLease <$> AttemptDeletionWorker.claim owner leaseSeconds now skip)
  | .deletionExecute lease faults now =>
    some (.erased <$> AttemptDeletionWorker.execute env faults lease now)
  | .deletionFail lease message =>
    some ((fun _ => .unit) <$> AttemptDeletionWorker.fail lease message)
  | .applyCompletedTombstones bundle actor now =>
    some (.imported <$> Recovery.applyCompletedTombstones bundle actor now)

/-- What the caller does with the end of its transaction. -/
def finish (call : Call) (e : Ending Failure Reply) (m : Memory) : Memory :=
  match call, e with
  | .admitReserve ticket principal segment _ _, .committed (.admitted (.reserved prepared id)) =>
    { m with flights := remember m.flights ticket (⟨principal, segment, prepared, id⟩, false) }
  | .admitReserve _ principal segment _ _, .committed (.admitted (.replay r)) =>
    { m with receipts := (principal, segment, r) :: m.receipts }
  | .admitPut ticket _, .committed _ =>
    match flightAt m ticket false with
    | some f =>
      { m with
        flights := remember m.flights ticket (f, true)
        puts := (f.attempt, f.prepared.objectKey) :: m.puts }
    | none => m
  | .admitPut ticket _, _ =>
    match flightAt m ticket false with
    | some f =>
      { m with
        flights := forget m.flights ticket
        puts := (f.attempt, f.prepared.objectKey) :: m.puts }
    | none => m
  | .admitCommit ticket _ _ _ _, .committed (.receipt r) =>
    match flightAt m ticket true with
    | some f =>
      { m with
        flights := forget m.flights ticket
        receipts := (f.principal, f.segment, r) :: m.receipts }
    | none => m
  | .admitCommit ticket _ _ _ _, _ => { m with flights := forget m.flights ticket }
  | .admitCrash ticket, _ => { m with flights := forget m.flights ticket }
  | .retentionScan sweep _ now, .committed (.due attempts) =>
    { m with sweeps := remember m.sweeps sweep (now, attempts) }
  | .retentionDelete sweep _ _, .committed _ =>
    match lookup m.sweeps sweep with
    | some (now, _ :: attempts) => { m with sweeps := remember m.sweeps sweep (now, attempts) }
    | _ => m
  | .retentionDelete sweep _ _, _ => { m with sweeps := forget m.sweeps sweep }
  | .outboxRead ticket lease _, .committed (.publication (some p)) =>
    { m with publications := remember m.publications ticket (lease, p) }
  | .outboxPublish ticket _ _ _, _ => { m with publications := forget m.publications ticket }
  | .reportRead ticket lease, .committed (.plan (some plan)) =>
    { m with reports := remember m.reports ticket (lease, .planned plan) }
  | .reportBuild ticket _ _, .committed (.built report) =>
    match reportAt m ticket with
    | some (lease, _) => { m with reports := remember m.reports ticket (lease, .built report) }
    | none => m
  | .reportBuild ticket _ _, _ => { m with reports := forget m.reports ticket }
  | .reportReserve ticket _ _ _, .committed (.built report) =>
    match reportAt m ticket with
    | some (lease, _) => { m with reports := remember m.reports ticket (lease, .reserved report) }
    | none => m
  | .reportReserve ticket _ _ _, _ => { m with reports := forget m.reports ticket }
  | .reportPublish ticket _ _ _ _ _, _ =>
    match reportAt m ticket with
    | some (_, .reserved b) =>
      { m with
        reports := forget m.reports ticket
        puts := (b.attempt, b.parquetKey) :: (b.attempt, b.objectKey) :: m.puts }
    | _ => m
  | _, _ => m

/-- The services over one database and one object store. -/
def workload : Workload Catalog ObjectStore Lock Failure Call Reply Memory :=
  ⟨program env settings, finish⟩

/-- The whole system when every transaction is one step. -/
structure State where
  catalog : Catalog
  objects : ObjectStore
  memory : Memory

def State.initial : State := ⟨.empty, fun _ => none, .empty⟩

def State.run (s : State) (call : Call) : Option (Ending Failure Reply × State) :=
  match program env settings s.memory call with
  | none => none
  | some t =>
    match t.atomically s.catalog s.objects with
    | (.ok a, c, w) => some (.committed a, ⟨c, w, finish call (.committed a) s.memory⟩)
    | (.error e, c, w) => some (.raised e, ⟨c, w, finish call (.raised e) s.memory⟩)

def State.die (s : State) (call : Call) (n : Nat) : Option State :=
  match program env settings s.memory call with
  | none => none
  | some t => some ⟨s.catalog, t.crash n s.catalog s.objects, finish call .died s.memory⟩

inductive Step (s : State) (call : Call) : Ending Failure Reply → State → Prop where
  | run {e : Ending Failure Reply} {s' : State} (h : s.run env settings call = some (e, s')) :
      Step s call e s'
  | die {n : Nat} {s' : State} (h : s.die env settings call n = some s') : Step s call .died s'

inductive RunWhere (P : State → Call → Ending Failure Reply → Prop) (s₀ : State) : State → Prop where
  | start : RunWhere P s₀ s₀
  | step {s s' : State} {call : Call} {e : Ending Failure Reply} (hr : RunWhere P s₀ s)
      (hs : Step env settings s call e s') (hp : P s call e) : RunWhere P s₀ s'

abbrev Run (s₀ s : State) : Prop := RunWhere env settings (fun _ _ _ => True) s₀ s

abbrev Reachable (s : State) : Prop := Run env settings .initial s

/-- Calls run one after the other, each of which passes a check. -/
def runChecked (p : State → Call → Bool) : List Call → State → Option State
  | [], s => some s
  | call :: calls, s =>
    if p s call then (s.run env settings call).bind (fun r => runChecked p calls r.2) else none

theorem runWhere_of_runChecked {p : State → Call → Bool}
    {P : State → Call → Ending Failure Reply → Prop} (hp : ∀ s call e, p s call = true → P s call e)
    {calls : List Call} {s₀ s s' : State} (h₀ : RunWhere env settings P s₀ s)
    (h : runChecked env settings p calls s = some s') : RunWhere env settings P s₀ s' := by
  induction calls generalizing s with
  | nil =>
    cases h
    exact h₀
  | cons call calls ih =>
    rw [runChecked] at h
    split at h
    · next hc =>
      obtain ⟨⟨e, t⟩, ht, h⟩ := Option.bind_eq_some_iff.mp h
      exact ih (h₀.step (.run ht) (hp s call e hc)) h
    · cases h

def runCalls : List Call → State → Option State := runChecked env settings (fun _ _ => true)

theorem run_of_runCalls {calls : List Call} {s₀ s s' : State} (h₀ : Run env settings s₀ s)
    (h : runCalls env settings calls s = some s') : Run env settings s₀ s' :=
  runWhere_of_runChecked env settings (fun _ _ _ _ => trivial) h₀ h

/-- The reply of a call that commits, and the state after it. -/
def answer (s : State) (call : Call) : Option (Reply × State) :=
  match s.run env settings call with
  | some (.committed a, s') => some (a, s')
  | _ => none

theorem step_of_answer {s s' : State} {call : Call} {a : Reply}
    (h : answer env settings s call = some (a, s')) : Step env settings s call (.committed a) s' := by
  unfold answer at h
  split at h
  · next hr =>
    cases h
    exact .run hr
  · cases h

/-- The exception of a call that raises, and the state after it. -/
def refusal (s : State) (call : Call) : Option (Failure × State) :=
  match s.run env settings call with
  | some (.raised f, s') => some (f, s')
  | _ => none

theorem step_of_refusal {s s' : State} {call : Call} {f : Failure}
    (h : refusal env settings s call = some (f, s')) : Step env settings s call (.raised f) s' := by
  unfold refusal at h
  split at h
  · next hr =>
    cases h
    exact .run hr
  · cases h

theorem RunWhere.after {P : State → Call → Ending Failure Reply → Prop} {s₀ s s' : State}
    (h : RunWhere env settings P s s') (h₀ : RunWhere env settings P s₀ s) :
    RunWhere env settings P s₀ s' := by
  induction h with
  | start => exact h₀
  | step _ hs hp ih => exact ih.step hs hp

theorem run_of_runWhere {P : State → Call → Ending Failure Reply → Prop} {s₀ s : State}
    (h : RunWhere env settings P s₀ s) : Run env settings s₀ s := by
  induction h with
  | start => exact .start
  | step _ hs _ ih => exact ih.step hs trivial

end Deployment

-- A site with one agent that uploads the payload `{}`.
namespace Sample

def payload : Bytes := [123, 125, 10]

def digest : String := "ca3d163bab055381827226140568f3bef7eaac187cebd76878e0b63e9e442356"

/-- SHA-256 on the payload, and an encoding of the bytes elsewhere. -/
def sha256 (p : Bytes) : String :=
  if p = payload then digest else String.ofList ('x' :: p.map (fun b => Char.ofNat b.toNat))

def bucket (s : String) : String :=
  if s = "acme" then "822b33ad87c148a0"
  else if s = "c1" then "d0f631ca1ddba8db"
  else if s = "a1" then "f55ff16f66f43360"
  else if s = "a2" then "2c3a4249d7707005"
  else "x" ++ s

def env : Env where
  sha256 := sha256
  bucket := bucket
  loads line := if line = [123, 125] then .object else .undecodable "Expecting value"
  dumps _ := []
  isoformat _ := ""
  buildNormalizedParquet _ _ _ _ _ := .error "Parquet input is empty"

def settings : IngestionSettings := ⟨8388608, 0, by decide⟩

def fields (attemptId : String) : SegmentFields where
  clusterId := "c1"
  attemptId := attemptId
  workflowExecutionId := none
  logicalCaseId := none
  schedulerSourceIdentity := none
  producerId := "p"
  transportEpoch := "e"
  streamId := "s"
  firstSequence := 0
  lastSequence := 0
  recordCount := 1
  deletionGeneration := 0
  expandedSizeBytes := 3
  payloadSha256 := digest
  payloadBase64 := "e30K"

/-- The same range and bytes, uploaded for two attempts. -/
def upload₁ : SegmentUpload := ⟨fields "a1", by constructor <;> decide⟩

def upload₂ : SegmentUpload := ⟨fields "a2", by constructor <;> decide⟩

def principal : MachinePrincipal := ⟨"acme", ["c1"], "credential"⟩

def other : MachinePrincipal := ⟨"acme", ["c1"], "other"⟩

def attempt₁ : AttemptKey := ⟨"acme", "c1", "a1"⟩

def attempt₂ : AttemptKey := ⟨"acme", "c1", "a2"⟩

def admission : List Call :=
  [.admitReserve 0 principal upload₁ 1 0, .admitPut 0 Faults.none,
    .admitCommit 0 Faults.none 2 3 4]

def erasure (k : AttemptKey) : List Call :=
  [.deleteAttempt k 5, .deletionClaim "worker" 60 6 [],
    .deletionExecute ⟨k.tenantId, k.clusterId, k.attemptId, 1, 1, "worker"⟩ Faults.none 7]

theorem toNat_char (b : UInt8) : (Char.ofNat b.toNat).toNat = b.toNat := by
  have hb : b.toNat.isValidChar := Or.inl (Nat.lt_trans b.toNat_lt (by decide))
  rw [Char.ofNat, dif_pos hb]
  exact UInt32.toNat_ofNatLT

theorem char_injective {a b : UInt8} (h : Char.ofNat a.toNat = Char.ofNat b.toNat) : a = b := by
  have hn := congrArg Char.toNat h
  rw [toNat_char, toNat_char] at hn
  exact UInt8.toNat_inj.mp hn

theorem marked_injective {payload : Bytes} {digest : String}
    (hdigest : digest.toList.head? ≠ some 'x') : Function.Injective (fun p : Bytes =>
      if p = payload then digest else String.ofList ('x' :: p.map (fun b => Char.ofNat b.toNat))) := by
  have hne : ∀ p : Bytes, digest ≠ String.ofList ('x' :: p.map (fun b => Char.ofNat b.toNat)) := by
    intro p h
    rw [h, String.toList_ofList] at hdigest
    exact hdigest rfl
  intro p q h
  dsimp only at h
  by_cases hp : p = payload
  · by_cases hq : q = payload
    · rw [hp, hq]
    · rw [if_pos hp, if_neg hq] at h
      exact absurd h (hne q)
  · by_cases hq : q = payload
    · rw [if_neg hp, if_pos hq] at h
      exact absurd h.symm (hne p)
    · rw [if_neg hp, if_neg hq] at h
      have hl := congrArg String.toList h
      rw [String.toList_ofList, String.toList_ofList, List.cons.injEq] at hl
      exact List.map_injective_iff.mpr (fun _ _ => char_injective) hl.2

theorem sha256_injective : Function.Injective env.sha256 := marked_injective (by decide)

theorem sha256_ne_empty (p : Bytes) : env.sha256 p ≠ "" := by
  by_cases hp : p = payload
  · simp only [env, sha256, if_pos hp]
    decide
  · simp only [env, sha256, if_neg hp]
    intro h
    have hl := congrArg String.toList h
    rw [String.toList_ofList] at hl
    cases hl

theorem bucket_injective : Function.Injective env.bucket := by
  have hne : ∀ (h s : String), h.toList.head? ≠ some 'x' → h ≠ "x" ++ s := by
    intro h s hx he
    rw [he, String.toList_append] at hx
    exact hx rfl
  intro s t h
  simp only [env, bucket] at h
  split_ifs at h
  all_goals first
    | exact absurd h (by decide)
    | exact absurd h (hne _ _ (by decide))
    | exact absurd h.symm (hne _ _ (by decide))
    | exact (String.append_right_inj _).mp h
    | simp only [*]
end Sample

end RankLens
