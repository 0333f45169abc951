import RankLens.Collection
import RankLens.Lifecycle

namespace RankLens

structure NotificationLease where
  notificationId : Uuid
  generation : Nat
  owner : String
deriving DecidableEq, Repr

structure IntegrityNotificationRedrive where
  redriveId : Uuid
  notificationId : Uuid
  tenantId : String
  clusterId : String
  requestedByCredentialId : String
  reason : String
  requestedAt : Instant
deriving DecidableEq, Repr

/-- What the constructor of a worker has checked. -/
structure IntegrityNotificationWorker where
  owner : String
  leaseSeconds : Nat
  maxAttempts : Nat
  retryBaseSeconds : Nat
  lease_range : 10 ≤ leaseSeconds ∧ leaseSeconds ≤ 3600
  attempts_range : 1 ≤ maxAttempts ∧ maxAttempts ≤ 100
  retry_range : 1 ≤ retryBaseSeconds ∧ retryBaseSeconds ≤ 3600

namespace IntegrityNotificationWorker

/-- The condition of the query of `claim`. -/
def claimable (now : Instant) (n : IntegrityNotification) : Bool :=
  (n.state = .pending && n.nextAttemptAt ≤ now) ||
    (n.state = .processing && n.leaseExpiresAt.any (· < now))

def claim (self : IntegrityNotificationWorker) (now : Instant) (n : IntegrityNotification) :
    Option (IntegrityNotification × NotificationLease) :=
  if claimable now n then
    some ({ n with
      state := .processing
      attempts := n.attempts + 1
      leaseOwner := some self.owner
      leaseGeneration := n.leaseGeneration + 1
      leaseExpiresAt := some (now + seconds self.leaseSeconds) },
      ⟨n.notificationId, n.leaseGeneration + 1, self.owner⟩)
  else none

/-- `_owns`, which `execute` also checks before it sends. -/
def owns (n : IntegrityNotification) (lease : NotificationLease) : Bool :=
  n.state = .processing && n.leaseOwner = some lease.owner &&
    n.leaseGeneration = lease.generation

/-- The transaction of `execute` after the sender has returned. -/
def deliver (lease : NotificationLease) (now : Instant) (n : IntegrityNotification) :
    IntegrityNotification :=
  if owns n lease then
    { n with
      state := .delivered
      leaseOwner := none
      leaseExpiresAt := none
      lastError := none
      deliveredAt := some now }
  else n

def fail (self : IntegrityNotificationWorker) (lease : NotificationLease) (message : String)
    (now : Instant) (n : IntegrityNotification) : IntegrityNotification :=
  if owns n lease then
    let released := { n with
      leaseOwner := none
      leaseExpiresAt := none
      lastError := some (clip (if message = "" then "webhook delivery failed" else message)) }
    if self.maxAttempts ≤ n.attempts then { released with state := .failed }
    else { released with
      state := .pending
      nextAttemptAt := now + seconds (min 3600 (self.retryBaseSeconds * 2 ^ (n.attempts - 1))) }
  else n

end IntegrityNotificationWorker

namespace IntegrityNotificationService

inductive RedriveFailure where
  | invalidReason
  | notFound
  | notFailed
deriving DecidableEq, Repr

structure RedriveRequest where
  tenantId : String
  clusterId : String
  notificationId : Uuid
  actor : String
  reason : String
deriving DecidableEq, Repr

def latest (redrives : List IntegrityNotificationRedrive) (notificationId : Uuid) :
    Option IntegrityNotificationRedrive :=
  ((redrives.filter (fun r => r.notificationId = notificationId)).mergeSort (fun a b =>
    b.requestedAt < a.requestedAt ||
      (b.requestedAt = a.requestedAt && b.redriveId ≤ a.redriveId))).head?

/-- The row and the redrive that `redrive` leaves, none where it answers without a new one. -/
def redrive (r : RedriveRequest) (now : Instant) (fresh : Uuid) (n : IntegrityNotification)
    (redrives : List IntegrityNotificationRedrive) :
    Except RedriveFailure (IntegrityNotification × Option IntegrityNotificationRedrive) :=
  if reasonInvalid r.reason then .error .invalidReason
  else if n.notificationId ≠ r.notificationId ∨ n.tenantId ≠ r.tenantId ∨
      n.clusterId ≠ r.clusterId then .error .notFound
  else if n.state ≠ .failed then
    if (n.state = .pending || n.state = .processing) &&
        (latest redrives r.notificationId).any (fun last =>
          last.requestedByCredentialId = r.actor && last.reason = strip r.reason) then
      .ok (n, none)
    else .error .notFailed
  else .ok ({ n with
      state := .pending
      attempts := 0
      nextAttemptAt := now
      leaseOwner := none
      leaseExpiresAt := none
      leaseGeneration := n.leaseGeneration + 1
      lastError := none
      deliveredAt := none },
    some ⟨fresh, r.notificationId, r.tenantId, r.clusterId, r.actor, strip r.reason, now⟩)

end IntegrityNotificationService

namespace Notifications

open IntegrityNotificationWorker IntegrityNotificationService

/-- How far `execute` is: the lease is committed, the row was read, or the sender is back, with the
text of its error. -/
inductive Phase where
  | leased
  | loaded
  | answered (error : Option String)
deriving DecidableEq, Repr

/-- A worker that has claimed the notification. The last three fields are kept for the statements: the
redrives there were before the claim, whether the notification had been delivered before it, and
whether there has been a claim or a redrive since. -/
structure Running where
  worker : IntegrityNotificationWorker
  lease : NotificationLease
  phase : Phase
  period : Nat
  afterDelivery : Bool
  superseded : Bool

/-- A call of the sender: the redrives before it, and whether the claim was after a delivery. -/
structure Sent where
  period : Nat
  afterDelivery : Bool
deriving DecidableEq, Repr

/-- A notification, its workers and the calls of the sender. -/
structure State where
  row : IntegrityNotification
  redrives : List IntegrityNotificationRedrive
  running : List Running
  clock : Instant
  sends : List Sent
  delivered : Bool

inductive Action where
  | claim (worker : IntegrityNotificationWorker) (now : Instant)
  | load (r : Running)
  | send (r : Running) (error : Option String)
  | record (r : Running) (now : Instant)
  | crash (r : Running)
  | redrive (request : RedriveRequest) (now : Instant) (fresh : Uuid)
  | tick (now : Instant)

def Running.supersede (r : Running) : Running := { r with superseded := true }

def State.initial (incident : IntegrityIncident) (event : IncidentEvent) (id : Uuid)
    (createdAt : Instant) : State :=
  ⟨Integrity.newNotification incident event id createdAt, [], [], createdAt, [], false⟩

/-- What the recording transaction leaves of the row. -/
def recorded (r : Running) (error : Option String) (now : Instant) (n : IntegrityNotification) :
    IntegrityNotification :=
  match error with
  | none => deliver r.lease now n
  | some message => r.worker.fail r.lease message now n

/-- A transaction, a call of the sender, a crash or the passing of time. A clock may have been read
before the transaction that uses it. -/
inductive Step (maxAttempts : Nat) : State → Action → State → Prop where
  | claim {s : State} {w : IntegrityNotificationWorker} {now : Instant}
      {row : IntegrityNotification} {lease : NotificationLease} (hmax : w.maxAttempts = maxAttempts)
      (hnow : now ≤ s.clock) (h : w.claim now s.row = some (row, lease)) :
      Step maxAttempts s (.claim w now) { s with
        row := row
        running := ⟨w, lease, .leased, s.redrives.length, s.delivered, false⟩ ::
          s.running.map Running.supersede }
  | load {s : State} {before after : List Running} {r : Running}
      (h : s.running = before ++ r :: after) (hr : r.phase = .leased) :
      Step maxAttempts s (.load r) { s with
        running := before ++ (if owns s.row r.lease then [{ r with phase := .loaded }] else []) ++
          after }
  | send {s : State} {before after : List Running} {r : Running} (error : Option String)
      (h : s.running = before ++ r :: after) (hr : r.phase = .loaded) :
      Step maxAttempts s (.send r error) { s with
        running := before ++ { r with phase := .answered error } :: after
        sends := ⟨s.redrives.length, r.afterDelivery⟩ :: s.sends }
  | record {s : State} {before after : List Running} {r : Running} {error : Option String}
      {now : Instant} (h : s.running = before ++ r :: after) (hr : r.phase = .answered error)
      (hnow : now ≤ s.clock) :
      Step maxAttempts s (.record r now) { s with
        row := recorded r error now s.row
        running := before ++ after
        delivered := s.delivered || (error = none && owns s.row r.lease) }
  | crash {s : State} {before after : List Running} {r : Running}
      (h : s.running = before ++ r :: after) :
      Step maxAttempts s (.crash r) { s with running := before ++ after }
  | redrive {s : State} {request : RedriveRequest} {now : Instant} {fresh : Uuid}
      {row : IntegrityNotification} {made : IntegrityNotificationRedrive} (hnow : now ≤ s.clock)
      (h : IntegrityNotificationService.redrive request now fresh s.row s.redrives =
        .ok (row, some made)) :
      Step maxAttempts s (.redrive request now fresh) { s with
        row := row
        redrives := s.redrives ++ [made]
        running := s.running.map Running.supersede }
  | tick {s : State} {now : Instant} (h : s.clock ≤ now) :
      Step maxAttempts s (.tick now) { s with clock := now }

/-- No attempt is left to a lease that expires at the maximum, and no worker calls the sender after a
redrive that followed its claim. -/
def Action.Within (maxAttempts : Nat) (s : State) : Action → Prop
  | .claim _ _ => s.row.state = .processing → s.row.attempts < maxAttempts
  | .send r _ => r.period = s.redrives.length
  | _ => True

inductive Runs (maxAttempts : Nat) (condition : State → Action → Prop) : State → Prop where
  | start (incident : IntegrityIncident) (event : IncidentEvent) (id : Uuid) (createdAt : Instant)
      (hmax : 1 ≤ maxAttempts) : Runs maxAttempts condition (.initial incident event id createdAt)
  | step {s s' : State} {a : Action} (h : Runs maxAttempts condition s)
      (hs : Step maxAttempts s a s') (hc : condition s a) : Runs maxAttempts condition s'

/-- Delivery is bounded: the calls of the sender between redrives, no call for a claim after the
delivery, and no effect of a worker that was superseded. -/
structure Bounded (maxAttempts : Nat) (s : State) : Prop where
  sends : ∀ period, s.sends.countP (fun x => x.period = period) ≤ maxAttempts
  final : ∀ x ∈ s.sends, x.afterDelivery = false
  fenced : ∀ r ∈ s.running, r.superseded = true → ∀ now s', Step maxAttempts s (.record r now) s' →
    s'.row = s.row ∧ s'.redrives = s.redrives

section delivery

variable {maxAttempts : Nat} {s s' : State} {a : Action} {r : Running} {error : Option String}
  {now : Instant} {n row : IntegrityNotification} {lease : NotificationLease}

def Running.unsent (r : Running) : Bool :=
  match r.phase with
  | .answered _ => false
  | _ => true

theorem claim_ok {w : IntegrityNotificationWorker} (h : w.claim now n = some (row, lease)) :
    claimable now n = true ∧ row.state = .processing ∧ row.attempts = n.attempts + 1 ∧
      row.leaseGeneration = n.leaseGeneration + 1 ∧ lease.generation = n.leaseGeneration + 1 := by
  unfold IntegrityNotificationWorker.claim at h
  split at h
  · next hc =>
    obtain ⟨rfl, rfl⟩ := Prod.mk.inj (Option.some.inj h)
    exact ⟨hc, rfl, rfl, rfl, rfl⟩
  · cases h

theorem claimable_state (h : claimable now n = true) :
    n.state = .pending ∨ n.state = .processing := by
  unfold claimable at h
  simp only [Bool.or_eq_true, Bool.and_eq_true, decide_eq_true_eq] at h
  exact h.imp And.left And.left

theorem redrive_ok {request : RedriveRequest} {fresh : Uuid}
    {redrives : List IntegrityNotificationRedrive} {made : IntegrityNotificationRedrive}
    (h : redrive request now fresh n redrives = .ok (row, some made)) :
    n.state = .failed ∧ row.state = .pending ∧ row.attempts = 0 ∧
      row.leaseGeneration = n.leaseGeneration + 1 := by
  unfold redrive at h
  split at h
  · cases h
  split at h
  · cases h
  split at h
  · split at h <;> cases h
  · next hs =>
    obtain ⟨rfl, -⟩ := Prod.mk.inj (Except.ok.inj h)
    exact ⟨not_not.mp hs, rfl, rfl, rfl⟩

theorem owns_ok (h : owns n lease = true) :
    n.state = .processing ∧ n.leaseGeneration = lease.generation := by
  unfold owns at h
  simp only [Bool.and_eq_true, decide_eq_true_eq] at h
  exact ⟨h.1.1, h.2⟩

theorem recorded_unowned (h : owns n r.lease = false) : recorded r error now n = n := by
  cases error with
  | none => exact if_neg (by simp [h])
  | some message => exact if_neg (by simp [h])

theorem recorded_owned (h : owns n r.lease = true) :
    (recorded r error now n).attempts = n.attempts ∧
      (recorded r error now n).leaseGeneration = n.leaseGeneration ∧
      ((recorded r error now n).state = .pending → n.attempts < r.worker.maxAttempts) ∧
      (error = none → (recorded r error now n).state = .delivered) := by
  cases error with
  | none =>
    have done : recorded r none now n = _ := if_pos h
    rw [done]
    exact ⟨rfl, rfl, nofun, fun _ => rfl⟩
  | some message =>
    have done : recorded r (some message) now n = _ := if_pos h
    rw [done]
    dsimp only
    split
    · exact ⟨rfl, rfl, nofun, nofun⟩
    · next hlt => exact ⟨rfl, rfl, fun _ => not_le.mp hlt, nofun⟩

/-- Leases that were superseded are older than the row's, and the row of a notification that was
delivered stays so. -/
structure Fenced (maxAttempts : Nat) (s : State) : Prop where
  workers : ∀ r ∈ s.running, r.worker.maxAttempts = maxAttempts
  generations : ∀ r ∈ s.running, r.lease.generation ≤ s.row.leaseGeneration ∧
    (r.superseded = true → r.lease.generation < s.row.leaseGeneration)
  sent : ∀ x ∈ s.sends, x.afterDelivery = false
  claimed : ∀ r ∈ s.running, r.afterDelivery = false
  delivered : s.delivered = true → s.row.state = .delivered

/-- The calls of the sender since the last redrive, and those to come, are among the attempts. -/
structure Counted (maxAttempts : Nat) (s : State) : Prop where
  positive : 1 ≤ maxAttempts
  attempts : s.row.attempts ≤ maxAttempts
  pending : s.row.state = .pending → s.row.attempts < maxAttempts
  sent : ∀ x ∈ s.sends, x.period ≤ s.redrives.length
  claimed : ∀ r ∈ s.running, r.period ≤ s.redrives.length
  current : s.sends.countP (fun x => x.period = s.redrives.length) +
    s.running.countP (fun r => r.unsent && r.period = s.redrives.length) ≤ s.row.attempts
  past : ∀ period, s.sends.countP (fun x => x.period = period) ≤ maxAttempts

theorem Fenced.recorded (h : Fenced maxAttempts s) (hr : r ∈ s.running) :
    (recorded r error now s.row).attempts = s.row.attempts ∧
      (recorded r error now s.row).leaseGeneration = s.row.leaseGeneration ∧
      ((recorded r error now s.row).state = .pending →
        s.row.state = .pending ∨ s.row.attempts < maxAttempts) ∧
      (s.row.state = .delivered → recorded r error now s.row = s.row) := by
  cases howns : owns s.row r.lease with
  | true =>
    obtain ⟨ha, hg, hp, -⟩ := @recorded_owned r error now s.row howns
    refine ⟨ha, hg, fun hs => .inr ?_, fun hs => ?_⟩
    · rw [← h.workers r hr]
      exact hp hs
    · exact absurd (hs.symm.trans (owns_ok howns).1) (by decide)
  | false =>
    rw [recorded_unowned howns]
    exact ⟨rfl, rfl, .inl, fun _ => rfl⟩

/-- The workers of the second state are workers of the first, perhaps further on. -/
def Continued (s s' : State) : Prop :=
  ∀ x ∈ s'.running, ∃ y ∈ s.running, x = { y with phase := x.phase }

theorem continued_of_mem (h : ∀ x ∈ s'.running, x ∈ s.running) : Continued s s' :=
  fun x hx => ⟨x, h x hx, rfl⟩

theorem Fenced.continued (h : Fenced maxAttempts s) (hc : Continued s s')
    (hgeneration : s'.row.leaseGeneration = s.row.leaseGeneration)
    (hsent : ∀ x ∈ s'.sends, x.afterDelivery = false)
    (hdelivered : s'.delivered = true → s'.row.state = .delivered) : Fenced maxAttempts s' := by
  refine ⟨fun x hx => ?_, fun x hx => ?_, hsent, fun x hx => ?_, hdelivered⟩ <;>
    obtain ⟨y, hy, he⟩ := hc x hx <;> rw [he]
  · exact h.workers y hy
  · rw [hgeneration]
    exact h.generations y hy
  · exact h.claimed y hy

theorem load_continued {before after : List Running} (h : s.running = before ++ r :: after)
    (h' : s'.running = before ++ (if owns s.row r.lease then [{ r with phase := .loaded }] else []) ++
      after) : Continued s s' := by
  intro x hx
  rw [h'] at hx
  rw [h]
  obtain hx | hx := List.mem_append.mp hx
  · obtain hx | hx := List.mem_append.mp hx
    · exact ⟨x, List.mem_append_left _ hx, rfl⟩
    · split at hx
      · obtain rfl := List.mem_singleton.mp hx
        exact ⟨r, by simp, rfl⟩
      · cases hx
  · exact ⟨x, by simp [hx], rfl⟩

theorem send_continued {before after : List Running} (h : s.running = before ++ r :: after)
    (h' : s'.running = before ++ { r with phase := .answered error } :: after) : Continued s s' := by
  intro x hx
  rw [h'] at hx
  rw [h]
  obtain hx | hx := List.mem_append.mp hx
  · exact ⟨x, List.mem_append_left _ hx, rfl⟩
  · obtain rfl | hx := List.mem_cons.mp hx
    · exact ⟨r, by simp, rfl⟩
    · exact ⟨x, by simp [hx], rfl⟩

theorem mem_of_removed {before after : List Running} (h : s.running = before ++ r :: after)
    (x : Running) (hx : x ∈ before ++ after) : x ∈ s.running := by
  rw [h]
  exact (List.Sublist.append_left (List.sublist_cons_self r after) before).subset hx

theorem mem_running {before after : List Running} (h : s.running = before ++ r :: after) :
    r ∈ s.running := by
  rw [h]
  exact List.mem_append_right _ List.mem_cons_self

theorem Fenced.step (h : Fenced maxAttempts s) (hs : Step maxAttempts s a s') :
    Fenced maxAttempts s' := by
  cases hs with
  | @claim w now row lease hmax hnow hclaim =>
    obtain ⟨hc, -, -, hrow, hlease⟩ := claim_ok hclaim
    have undelivered : s.delivered = false := by
      by_contra hd
      have delivered := h.delivered (by simpa using hd)
      have due := claimable_state hc
      simp [delivered] at due
    refine ⟨?_, ?_, h.sent, ?_, fun hd => absurd hd (by simp [undelivered])⟩
    · exact List.forall_mem_cons.mpr ⟨hmax, List.forall_mem_map.mpr h.workers⟩
    · refine List.forall_mem_cons.mpr ⟨⟨?_, fun hn => absurd hn (by simp)⟩,
        List.forall_mem_map.mpr (fun r hr => ?_)⟩
      · exact (hlease.trans hrow.symm).le
      · have older := (h.generations r hr).1
        exact ⟨by rw [hrow]; exact older.trans (Nat.le_succ _),
          fun _ => by rw [hrow]; exact Nat.lt_succ_of_le older⟩
    · exact List.forall_mem_cons.mpr ⟨undelivered, List.forall_mem_map.mpr h.claimed⟩
  | load hrunning hr => exact h.continued (load_continued hrunning rfl) rfl h.sent h.delivered
  | send error hrunning hr =>
    refine h.continued (send_continued hrunning rfl) rfl ?_ h.delivered
    exact List.forall_mem_cons.mpr ⟨h.claimed _ (mem_running hrunning), h.sent⟩
  | @record before after r error now hrunning hr hnow =>
    have mem := mem_running hrunning
    obtain ⟨-, hgeneration, -, hkept⟩ := @Fenced.recorded _ _ r error now h mem
    refine h.continued (continued_of_mem (mem_of_removed hrunning)) hgeneration h.sent (fun hd => ?_)
    obtain hd | hd := Bool.or_eq_true_iff.mp hd
    · exact (congrArg IntegrityNotification.state (hkept (h.delivered hd))).trans (h.delivered hd)
    · simp only [Bool.and_eq_true, decide_eq_true_eq] at hd
      exact (recorded_owned hd.2).2.2.2 hd.1
  | crash hrunning =>
    exact h.continued (continued_of_mem (mem_of_removed hrunning)) rfl h.sent h.delivered
  | redrive hnow hredrive =>
    obtain ⟨hfailed, -, -, hrow⟩ := redrive_ok hredrive
    refine ⟨List.forall_mem_map.mpr h.workers, List.forall_mem_map.mpr (fun r hr => ?_), h.sent,
      List.forall_mem_map.mpr h.claimed, fun hd => ?_⟩
    · have older := (h.generations r hr).1
      exact ⟨by rw [hrow]; exact older.trans (Nat.le_succ _),
        fun _ => by rw [hrow]; exact Nat.lt_succ_of_le older⟩
    · exact absurd (hfailed.symm.trans (h.delivered hd)) (by decide)
  | tick _ => exact ⟨h.workers, h.generations, h.sent, h.claimed, h.delivered⟩

/-- The workers that are still to call the sender, of the claims since the last redrive. -/
def State.waiting (s : State) : Nat :=
  s.running.countP (fun r => r.unsent && r.period = s.redrives.length)

theorem Counted.continued (h : Counted maxAttempts s) (hc : Continued s s')
    (hredrives : s'.redrives = s.redrives) (hattempts : s'.row.attempts = s.row.attempts)
    (hpending : s'.row.state = .pending → s.row.state = .pending ∨ s.row.attempts < maxAttempts)
    (hsends : s'.sends = s.sends) (hwaiting : s'.waiting ≤ s.waiting) : Counted maxAttempts s' := by
  refine ⟨h.positive, hattempts ▸ h.attempts, fun hs => ?_, ?_, fun x hx => ?_, ?_, ?_⟩
  · rw [hattempts]
    exact (hpending hs).elim h.pending id
  · rw [hsends, hredrives]
    exact h.sent
  · obtain ⟨y, hy, he⟩ := hc x hx
    rw [he, hredrives]
    exact h.claimed y hy
  · have before := h.current
    unfold State.waiting at hwaiting
    rw [hsends, hattempts]
    rw [hredrives] at hwaiting ⊢
    omega
  · rw [hsends]
    exact h.past

theorem removed_waiting {before after : List Running} (h : s.running = before ++ r :: after)
    (h' : s'.running = before ++ after) (hredrives : s'.redrives = s.redrives) :
    s'.waiting ≤ s.waiting := by
  unfold State.waiting
  rw [h, h', hredrives]
  exact (List.Sublist.append_left (List.sublist_cons_self r after) before).countP_le

theorem Counted.step (h : Counted maxAttempts s) (hf : Fenced maxAttempts s)
    (hs : Step maxAttempts s a s') (hc : a.Within maxAttempts s) : Counted maxAttempts s' := by
  cases hs with
  | @claim w now row lease hmax hnow hclaim =>
    obtain ⟨hdue, hstate, hattempts, -, -⟩ := claim_ok hclaim
    have left : s.row.attempts < maxAttempts := (claimable_state hdue).elim h.pending hc
    refine ⟨h.positive, ?_, fun hp => absurd (hstate.symm.trans hp) (by decide), h.sent, ?_, ?_,
      h.past⟩
    · exact hattempts.trans_le left
    · exact List.forall_mem_cons.mpr ⟨le_rfl, List.forall_mem_map.mpr h.claimed⟩
    · have before := h.current
      have same : (s.running.map Running.supersede).countP
          (fun r => r.unsent && r.period = s.redrives.length) =
          s.running.countP (fun r => r.unsent && r.period = s.redrives.length) := List.countP_map
      rw [List.countP_cons, same, hattempts]
      dsimp only
      split <;> omega
  | @load before after r hrunning hr =>
    refine h.continued (load_continued hrunning rfl) rfl rfl .inl rfl ?_
    unfold State.waiting
    dsimp only
    rw [hrunning, List.append_assoc, List.countP_append, List.countP_append, List.countP_append,
      List.countP_cons]
    have one : (if owns s.row r.lease then [{ r with phase := .loaded }] else []).countP
        (fun r => r.unsent && r.period = s.redrives.length) ≤
        if (r.unsent && r.period = s.redrives.length) = true then 1 else 0 := by
      split
      · simp [Running.unsent, hr]
      · exact Nat.zero_le _
    omega
  | @send before after r error hrunning hr =>
    have period : r.period = s.redrives.length := hc
    have counted := h.current
    rw [hrunning, List.countP_append, List.countP_cons] at counted
    have due : (r.unsent && decide (r.period = s.redrives.length)) = true := by
      simp [Running.unsent, hr, period]
    rw [if_pos due] at counted
    have now : (s.sends.countP (fun x => x.period = s.redrives.length) + 1) +
        (before ++ { r with phase := Phase.answered error } :: after).countP
          (fun r => r.unsent && r.period = s.redrives.length) ≤ s.row.attempts := by
      rw [List.countP_append, List.countP_cons_of_neg (by simp [Running.unsent])]
      omega
    refine ⟨h.positive, h.attempts, h.pending, ?_, fun x hx => ?_, ?_, fun p => ?_⟩
    · exact List.forall_mem_cons.mpr ⟨le_rfl, h.sent⟩
    · obtain ⟨y, hy, he⟩ := @send_continued s { s with
        running := before ++ { r with phase := .answered error } :: after } r error before after
        hrunning rfl x hx
      rw [he]
      exact h.claimed y hy
    · rw [List.countP_cons_of_pos (by simp)]
      exact now
    · rw [List.countP_cons]
      dsimp only
      split
      · next hp =>
        obtain rfl := of_decide_eq_true hp
        have top := h.attempts
        omega
      · exact h.past p
  | @record before after r error now hrunning hr hnow =>
    obtain ⟨hattempts, -, hpending, -⟩ := @Fenced.recorded _ _ r error now hf (mem_running hrunning)
    exact h.continued (continued_of_mem (mem_of_removed hrunning)) rfl hattempts hpending rfl
      (removed_waiting hrunning rfl rfl)
  | crash hrunning =>
    exact h.continued (continued_of_mem (mem_of_removed hrunning)) rfl rfl .inl rfl
      (removed_waiting hrunning rfl rfl)
  | @redrive request now fresh row made hnow hredrive =>
    obtain ⟨-, -, hattempts, -⟩ := redrive_ok hredrive
    have next : (s.redrives ++ [made]).length = s.redrives.length + 1 := List.length_append
    refine ⟨h.positive, ?_, fun _ => ?_, fun x hx => ?_, ?_, ?_, h.past⟩
    · exact hattempts.trans_le (Nat.zero_le _)
    · exact hattempts.trans_lt h.positive
    · exact (h.sent x hx).trans (by rw [next]; exact Nat.le_succ _)
    · exact List.forall_mem_map.mpr (fun r hr =>
        (h.claimed r hr).trans (by rw [next]; exact Nat.le_succ _))
    · have none : s.sends.countP (fun x => x.period = (s.redrives ++ [made]).length) = 0 := by
        refine List.countP_eq_zero.mpr (fun x hx => ?_)
        have old := h.sent x hx
        rw [next]
        simp only [decide_eq_true_eq]
        omega
      have idle : (s.running.map Running.supersede).countP
          (fun r => r.unsent && r.period = (s.redrives ++ [made]).length) = 0 := by
        refine List.countP_eq_zero.mpr (List.forall_mem_map.mpr (fun r hr => ?_))
        have old : r.supersede.period ≤ s.redrives.length := h.claimed r hr
        rw [next]
        simp only [Bool.and_eq_true, decide_eq_true_eq]
        omega
      dsimp only
      rw [none, idle]
      exact Nat.zero_le _
  | tick _ => exact ⟨h.positive, h.attempts, h.pending, h.sent, h.claimed, h.current, h.past⟩

theorem Runs.fenced {condition : State → Action → Prop} (h : Runs maxAttempts condition s) :
    Fenced maxAttempts s := by
  induction h with
  | start _ _ _ _ _ => exact ⟨nofun, nofun, nofun, nofun, nofun⟩
  | step _ hs _ ih => exact ih.step hs

theorem Runs.counted (h : Runs maxAttempts (fun s a => a.Within maxAttempts s) s) :
    Counted maxAttempts s := by
  induction h with
  | start _ _ _ _ hmax =>
    exact ⟨hmax, Nat.zero_le _, fun _ => hmax, nofun, nofun, Nat.zero_le _, fun _ => Nat.zero_le _⟩
  | step h hs hc ih => exact ih.step h.fenced hs hc

theorem Fenced.unchanged (h : Fenced maxAttempts s) (hr : r ∈ s.running)
    (hsuperseded : r.superseded = true) (hs : Step maxAttempts s (.record r now) s') :
    s'.row = s.row ∧ s'.redrives = s.redrives := by
  cases hs with
  | record _ _ _ =>
    refine ⟨recorded_unowned ?_, rfl⟩
    by_contra howns
    have same := (owns_ok (by simpa using howns)).2
    have older := (h.generations r hr).2 hsuperseded
    omega

/-- Delivery is bounded in the runs where no exhausted lease is claimed anew. -/
theorem delivery_bounded (h : Runs maxAttempts (fun s a => a.Within maxAttempts s) s) :
    Bounded maxAttempts s where
  sends := h.counted.past
  final := h.fenced.sent
  fenced _ hr hsuperseded _ _ hs := h.fenced.unchanged hr hsuperseded hs

end delivery

section expiry

def lostObject : IntegrityIncident where
  incidentId := 1
  candidateId := 2
  tenantId := "t"
  clusterId := "c"
  attemptId := none
  objectKey := .segment "t" "c" "d"
  payloadSha256 := "d"
  category := .missing
  state := .opened
  details := ""
  occurrences := 1
  firstDetectedAt := 0
  lastDetectedAt := 0
  resolvedAt := none
  resolvedByCredentialId := none
  resolution := none

def once : IntegrityNotificationWorker :=
  ⟨"w", 60, 1, 30, by decide, by decide, by decide⟩

theorem Runs.sent {maxAttempts : Nat} {condition : State → Action → Prop} {s : State} {r : Running}
    {rest : List Running} (h : Runs maxAttempts condition s) (hrunning : s.running = r :: rest)
    (hphase : r.phase = .leased) (howns : owns s.row r.lease = true) (error : Option String)
    (hload : condition s (.load r))
    (hsend : condition { s with running := { r with phase := .loaded } :: rest }
      (.send { r with phase := .loaded } error)) :
    Runs maxAttempts condition { s with
      running := { r with phase := .answered error } :: rest
      sends := ⟨s.redrives.length, r.afterDelivery⟩ :: s.sends } := by
  have loaded := h.step (@Step.load _ s [] rest r hrunning hphase) hload
  rw [if_pos howns] at loaded
  exact loaded.step (@Step.send _ _ [] rest { r with phase := .loaded } error rfl rfl) hsend

theorem delivery_bounded_once : ∃ s : State, s.sends.length = 1 ∧ Bounded 1 s := by
  have start : Runs 1 (fun s a => a.Within 1 s) (.initial lostObject .detected 7 0) :=
    .start _ _ _ _ (le_refl 1)
  have claimed := start.step (.claim (w := once) rfl (le_refl 0) rfl) nofun
  exact ⟨_, rfl, delivery_bounded (claimed.sent rfl rfl rfl none trivial rfl)⟩

/-- A worker crashes after its call of the sender, and the call is made again when its lease has
expired. -/
theorem lease_expired_resent : ¬ ∀ s : State, Runs 1 (fun _ _ => True) s → Bounded 1 s := by
  intro h
  have start : Runs 1 (fun _ _ => True) (.initial lostObject .detected 7 0) :=
    .start _ _ _ _ (le_refl 1)
  have claimed := start.step (.claim (w := once) rfl (le_refl 0) rfl) trivial
  have sent := claimed.sent rfl rfl rfl none trivial trivial
  have crashed := sent.step (@Step.crash _ _ [] [] _ rfl) trivial
  have expired := crashed.step (@Step.tick 1 _ (seconds 61) (by decide)) trivial
  have again := expired.step (@Step.claim 1 _ once (seconds 61) _ _ rfl (le_refl (seconds 61))
    (if_pos (by decide))) trivial
  have resent := again.sent rfl rfl rfl none trivial trivial
  exact absurd ((h _ resent).sends 0) (by decide)

end expiry

end Notifications

end RankLens
