import RankLens.Catalog

namespace RankLens

/-- The row of one poll stream. -/
structure SchedulerPollCursor where
  tenantId : String
  clusterId : String
  adapter : String
  cursorAt : Option Instant
  nextPollAt : Instant
  leaseOwner : Option String
  leaseGeneration : Nat
  leaseExpiresAt : Option Instant
  consecutiveFailures : Nat
  lastSuccessAt : Option Instant
  lastError : Option String
  createdAt : Instant
  updatedAt : Instant
deriving DecidableEq, Repr

structure SchedulerPollLease where
  tenantId : String
  clusterId : String
  generation : Nat
  owner : String
deriving DecidableEq, Repr

/-- A poller as its constructor accepts it. `jitter` is what the random source makes of a delay in
seconds. -/
structure SchedulerPoller where
  owner : String
  pollIntervalSeconds : Nat
  leaseSeconds : Nat
  accountingLookbackSeconds : Nat
  maxBackoffSeconds : Nat
  valid : 0 < pollIntervalSeconds ∧ 0 < leaseSeconds ∧ pollIntervalSeconds ≤ maxBackoffSeconds

namespace SchedulerPoller

/-- What `register` adds for a stream that has no row. -/
def registered (tenantId clusterId adapter : String) (now : Instant) : SchedulerPollCursor where
  tenantId := tenantId
  clusterId := clusterId
  adapter := adapter
  cursorAt := none
  nextPollAt := now
  leaseOwner := none
  leaseGeneration := 0
  leaseExpiresAt := none
  consecutiveFailures := 0
  lastSuccessAt := none
  lastError := none
  createdAt := now
  updatedAt := now

variable (self : SchedulerPoller)

def due (now : Instant) (c : SchedulerPollCursor) : Bool :=
  c.nextPollAt ≤ now && (c.leaseOwner.isNone || c.leaseExpiresAt.any (fun t => t < now))

/-- The transaction of `claim`, with the clock read before it. -/
def claim (now : Instant) (c : SchedulerPollCursor) :
    Option SchedulerPollLease × SchedulerPollCursor :=
  if due now c = true then
    (some ⟨c.tenantId, c.clusterId, c.leaseGeneration + 1, self.owner⟩, { c with
      leaseOwner := some self.owner
      leaseGeneration := c.leaseGeneration + 1
      leaseExpiresAt := some (now + seconds self.leaseSeconds)
      updatedAt := now })
  else (none, c)

/-- The row is the one of the lease, and still leased under it. -/
def current (lease : SchedulerPollLease) (c : SchedulerPollCursor) : Bool :=
  c.tenantId = lease.tenantId && c.clusterId = lease.clusterId &&
    c.leaseOwner = some lease.owner && c.leaseGeneration = lease.generation

/-- Where the query of `execute` starts, or that the lease is lost. -/
def look (lease : SchedulerPollLease) (c : SchedulerPollCursor) : Option (Option Instant) :=
  if current lease c = true then
    some (c.cursorAt.map (fun t => t - seconds self.accountingLookbackSeconds))
  else none

/-- The transaction at the end of `execute`. -/
def publish (lease : SchedulerPollLease) (startedAt completedAt delay : Instant)
    (c : SchedulerPollCursor) : Bool × SchedulerPollCursor :=
  if current lease c = true then
    (true, { c with
      cursorAt := some startedAt
      nextPollAt := completedAt + delay
      leaseOwner := none
      leaseExpiresAt := none
      consecutiveFailures := 0
      lastSuccessAt := some completedAt
      lastError := none
      updatedAt := completedAt })
  else (false, c)

def backoff (failures : Nat) : Nat :=
  min self.maxBackoffSeconds (self.pollIntervalSeconds * 2 ^ min (failures - 1) 20)

/-- The transaction of `fail`. The delay is what the jitter makes of the seconds to back off. -/
def fail (lease : SchedulerPollLease) (message : String) (now : Instant) (delay : Nat → Instant)
    (c : SchedulerPollCursor) : Bool × SchedulerPollCursor :=
  if current lease c = true then
    (true, { c with
      consecutiveFailures := c.consecutiveFailures + 1
      nextPollAt := now + delay (self.backoff (c.consecutiveFailures + 1))
      leaseOwner := none
      leaseExpiresAt := none
      lastError := some ((message.take 512).toString)
      updatedAt := now })
  else (false, c)

end SchedulerPoller

namespace Poller

open SchedulerPoller (current due)

/-- How far a call has come between two accesses to the clock, the cursor or the adapter. -/
inductive Stage where
  | claiming (now : Instant)
  | started (lease : SchedulerPollLease) (startedAt : Instant)
  | querying (lease : SchedulerPollLease) (startedAt : Instant) (since : Option Instant)
  | publishing (lease : SchedulerPollLease) (startedAt : Instant) (since : Option Instant)
      (completedAt : Instant)
  | failing (lease : SchedulerPollLease) (message : String) (now : Instant)

/-- A call of one of the pollers that is under way. -/
structure Process where
  poller : SchedulerPoller
  stage : Stage

/-- A successful publication: the lookback of its poller, the start of its query, and where its
window begins. -/
structure Publication where
  lookback : Nat
  startedAt : Instant
  since : Option Instant
deriving DecidableEq, Repr

/-- The pollers over one cursor. `leases` are the leases handed out and `history` the
publications, the last one first. -/
structure State where
  clock : Instant
  cursor : SchedulerPollCursor
  processes : List Process
  leases : List SchedulerPollLease
  history : List Publication

def State.initial (tenantId clusterId adapter : String) (now : Instant) : State :=
  ⟨now, SchedulerPoller.registered tenantId clusterId adapter now, [], [], []⟩

/-- What a step does, as far as the cursor shows it. -/
inductive Label where
  | quiet
  | claimed (lease : Option SchedulerPollLease)
  | published (lease : SchedulerPollLease) (done : Bool)
  | failed (lease : SchedulerPollLease) (done : Bool)

/-- A call starts, comes one access further, or dies. -/
inductive Step : State → Label → State → Prop where
  | tick {s : State} {t : Instant} (h : s.clock ≤ t) : Step s .quiet { s with clock := t }
  | beginClaim {s : State} (p : SchedulerPoller) :
      Step s .quiet { s with processes := ⟨p, .claiming s.clock⟩ :: s.processes }
  | claim {clock now : Instant} {cursor : SchedulerPollCursor} {pre post : List Process}
      {leases : List SchedulerPollLease} {history : List Publication} {p : SchedulerPoller} :
      Step ⟨clock, cursor, pre ++ ⟨p, .claiming now⟩ :: post, leases, history⟩
        (.claimed (p.claim now cursor).1)
        ⟨clock, (p.claim now cursor).2, pre ++ post, (p.claim now cursor).1.toList ++ leases,
          history⟩
  | beginExecute {s : State} (p : SchedulerPoller) {lease : SchedulerPollLease}
      (h : lease ∈ s.leases) :
      Step s .quiet { s with processes := ⟨p, .started lease s.clock⟩ :: s.processes }
  | look {clock startedAt : Instant} {cursor : SchedulerPollCursor} {pre post : List Process}
      {leases : List SchedulerPollLease} {history : List Publication} {p : SchedulerPoller}
      {lease : SchedulerPollLease} {since : Option Instant} (h : p.look lease cursor = some since) :
      Step ⟨clock, cursor, pre ++ ⟨p, .started lease startedAt⟩ :: post, leases, history⟩ .quiet
        ⟨clock, cursor, pre ++ ⟨p, .querying lease startedAt since⟩ :: post, leases, history⟩
  | answered {clock startedAt : Instant} {cursor : SchedulerPollCursor} {pre post : List Process}
      {leases : List SchedulerPollLease} {history : List Publication} {p : SchedulerPoller}
      {lease : SchedulerPollLease} {since : Option Instant} :
      Step ⟨clock, cursor, pre ++ ⟨p, .querying lease startedAt since⟩ :: post, leases, history⟩
        .quiet ⟨clock, cursor, pre ++ ⟨p, .publishing lease startedAt since clock⟩ :: post, leases,
          history⟩
  | raised {clock startedAt : Instant} {cursor : SchedulerPollCursor} {pre post : List Process}
      {leases : List SchedulerPollLease} {history : List Publication} {p : SchedulerPoller}
      {lease : SchedulerPollLease} {since : Option Instant} (message : String) :
      Step ⟨clock, cursor, pre ++ ⟨p, .querying lease startedAt since⟩ :: post, leases, history⟩
        .quiet ⟨clock, cursor, pre ++ ⟨p, .failing lease message clock⟩ :: post, leases, history⟩
  | publish {clock startedAt completedAt : Instant} {cursor : SchedulerPollCursor}
      {pre post : List Process} {leases : List SchedulerPollLease} {history : List Publication}
      {p : SchedulerPoller} {lease : SchedulerPollLease} {since : Option Instant}
      (delay : Instant) :
      Step ⟨clock, cursor, pre ++ ⟨p, .publishing lease startedAt since completedAt⟩ :: post,
          leases, history⟩
        (.published lease (SchedulerPoller.publish lease startedAt completedAt delay cursor).1)
        ⟨clock, (SchedulerPoller.publish lease startedAt completedAt delay cursor).2, pre ++ post,
          leases, if current lease cursor = true then
            ⟨p.accountingLookbackSeconds, startedAt, since⟩ :: history else history⟩
  | beginFail {s : State} (p : SchedulerPoller) {lease : SchedulerPollLease} (message : String)
      (h : lease ∈ s.leases) :
      Step s .quiet { s with processes := ⟨p, .failing lease message s.clock⟩ :: s.processes }
  | fail {clock now : Instant} {cursor : SchedulerPollCursor} {pre post : List Process}
      {leases : List SchedulerPollLease} {history : List Publication} {p : SchedulerPoller}
      {lease : SchedulerPollLease} {message : String} (delay : Nat → Instant) :
      Step ⟨clock, cursor, pre ++ ⟨p, .failing lease message now⟩ :: post, leases, history⟩
        (.failed lease (p.fail lease message now delay cursor).1)
        ⟨clock, (p.fail lease message now delay cursor).2, pre ++ post, leases, history⟩
  | die {clock : Instant} {cursor : SchedulerPollCursor} {pre post : List Process}
      {leases : List SchedulerPollLease} {history : List Publication} {x : Process} :
      Step ⟨clock, cursor, pre ++ x :: post, leases, history⟩ .quiet
        ⟨clock, cursor, pre ++ post, leases, history⟩

/-- The states of the runs from a registered cursor. -/
inductive Reachable : State → Prop where
  | start {tenantId clusterId adapter : String} {now : Instant} :
      Reachable (.initial tenantId clusterId adapter now)
  | step {s s' : State} {label : Label} (hr : Reachable s) (hs : Step s label s') : Reachable s'

def Stage.lease? : Stage → Option SchedulerPollLease
  | .claiming _ => none
  | .started lease _ => some lease
  | .querying lease _ _ => some lease
  | .publishing lease _ _ _ => some lease
  | .failing lease _ _ => some lease

def Stage.startedAt? : Stage → Option Instant
  | .started _ startedAt => some startedAt
  | .querying _ startedAt _ => some startedAt
  | .publishing _ startedAt _ _ => some startedAt
  | _ => none

/-- What a call knows of the cursor as long as its lease is current. -/
def Stage.Sound (lookback : Nat) (c : SchedulerPollCursor) : Stage → Prop
  | .started _ startedAt => ∀ t, c.cursorAt = some t → t ≤ startedAt
  | .querying _ startedAt since => (∀ t, c.cursorAt = some t → t ≤ startedAt) ∧
      since = c.cursorAt.map (fun t => t - seconds lookback)
  | .publishing _ startedAt since _ => (∀ t, c.cursorAt = some t → t ≤ startedAt) ∧
      since = c.cursorAt.map (fun t => t - seconds lookback)
  | _ => True

structure Process.Fits (s : State) (x : Process) : Prop where
  begun : ∀ t, x.stage.startedAt? = some t → t ≤ s.clock
  holds : ∀ lease, x.stage.lease? = some lease → lease ∈ s.leases
  sound : ∀ lease, x.stage.lease? = some lease → current lease s.cursor = true →
    x.stage.Sound x.poller.accountingLookbackSeconds s.cursor

/-- The publications from the last one back: each window begins at the start of the one before
it less the lookback, and the first one has no beginning. -/
def Linked : List Publication → Prop
  | [] => True
  | [q] => q.since = none
  | q :: p :: rest => p.startedAt ≤ q.startedAt ∧
      q.since = some (p.startedAt - seconds q.lookback) ∧ Linked (p :: rest)

structure Consistent (s : State) : Prop where
  past : ∀ t, s.cursor.cursorAt = some t → t ≤ s.clock
  last : s.cursor.cursorAt = s.history.head?.map Publication.startedAt
  linked : Linked s.history
  issued : ∀ lease ∈ s.leases, lease.generation ≤ s.cursor.leaseGeneration
  calls : ∀ x ∈ s.processes, x.Fits s

section lease

variable {lease : SchedulerPollLease} {c : SchedulerPollCursor}

theorem current_generation (h : current lease c = true) : lease.generation = c.leaseGeneration := by
  simp only [current, Bool.and_eq_true, decide_eq_true_eq] at h
  exact h.2.symm

theorem current_owner (h : current lease c = true) : c.leaseOwner = some lease.owner := by
  simp only [current, Bool.and_eq_true, decide_eq_true_eq] at h
  exact h.1.2

theorem claim_cases (p : SchedulerPoller) (now : Instant) (c : SchedulerPollCursor) :
    (p.claim now c = (none, c)) ∨
    (∃ lease, p.claim now c = (some lease, (p.claim now c).2) ∧
      lease.generation = c.leaseGeneration + 1 ∧
      (p.claim now c).2.leaseGeneration = c.leaseGeneration + 1 ∧
      (p.claim now c).2.cursorAt = c.cursorAt) := by
  by_cases h : due now c = true
  · exact .inr ⟨⟨c.tenantId, c.clusterId, c.leaseGeneration + 1, p.owner⟩, by
      simp [SchedulerPoller.claim, h]⟩
  · exact .inl (by simp [SchedulerPoller.claim, h])

theorem publish_cases (lease : SchedulerPollLease) (startedAt completedAt delay : Instant)
    (c : SchedulerPollCursor) :
    (current lease c = false ∧
      SchedulerPoller.publish lease startedAt completedAt delay c = (false, c)) ∨
    (current lease c = true ∧ ∃ c', SchedulerPoller.publish lease startedAt completedAt delay c =
        (true, c') ∧ c'.cursorAt = some startedAt ∧ c'.leaseOwner = none ∧
      c'.leaseGeneration = c.leaseGeneration) := by
  cases h : current lease c with
  | false => exact .inl ⟨rfl, by simp [SchedulerPoller.publish, h]⟩
  | true =>
    refine .inr ⟨rfl, (SchedulerPoller.publish lease startedAt completedAt delay c).2, ?_⟩
    simp [SchedulerPoller.publish, h]

theorem fail_cases (p : SchedulerPoller) (lease : SchedulerPollLease) (message : String)
    (now : Instant) (delay : Nat → Instant) (c : SchedulerPollCursor) :
    (current lease c = false ∧ p.fail lease message now delay c = (false, c)) ∨
    (current lease c = true ∧ ∃ c', p.fail lease message now delay c = (true, c') ∧
      c'.cursorAt = c.cursorAt ∧ c'.leaseOwner = none ∧
      c'.leaseGeneration = c.leaseGeneration) := by
  cases h : current lease c with
  | false => exact .inl ⟨rfl, by simp [SchedulerPoller.fail, h]⟩
  | true =>
    refine .inr ⟨rfl, (p.fail lease message now delay c).2, ?_⟩
    simp [SchedulerPoller.fail, h]

theorem look_eq {p : SchedulerPoller} {since : Option Instant} (h : p.look lease c = some since) :
    since = c.cursorAt.map (fun t => t - seconds p.accountingLookbackSeconds) := by
  unfold SchedulerPoller.look at h
  split at h
  · exact (Option.some.inj h).symm
  · cases h

end lease

section step

variable {s s' : State} {label : Label}

theorem Process.Fits.mono {x : Process} (h : x.Fits s) (hclock : s.clock ≤ s'.clock)
    (hleases : ∀ lease ∈ s.leases, lease ∈ s'.leases)
    (hcursor : ∀ lease ∈ s.leases, current lease s'.cursor = true → s'.cursor = s.cursor) :
    x.Fits s' where
  begun := fun t ht => (h.begun t ht).trans hclock
  holds := fun lease hl => hleases lease (h.holds lease hl)
  sound := by
    intro lease hl hc
    have same := hcursor lease (h.holds lease hl) hc
    rw [same] at hc ⊢
    exact h.sound lease hl hc

theorem Consistent.calls_replaced (h : Consistent s) (processes : List Process)
    (hp : ∀ x ∈ processes, x ∈ s.processes ∨ x.Fits s) :
    Consistent { s with processes := processes } where
  past := h.past
  last := h.last
  linked := h.linked
  issued := h.issued
  calls := by
    intro x hx
    have fits : x.Fits s := (hp x hx).elim (h.calls x) id
    exact fits.mono le_rfl (fun _ hl => hl) (fun _ _ _ => rfl)

theorem mem_split {α : Type} {pre post : List α} {x y z : α} (h : z ∈ pre ++ y :: post) :
    z ∈ pre ++ x :: post ∨ z = y := by
  simp only [List.mem_append, List.mem_cons] at h ⊢
  tauto

theorem mem_without {α : Type} {pre post : List α} {x z : α} (h : z ∈ pre ++ post) :
    z ∈ pre ++ x :: post := by
  simp only [List.mem_append, List.mem_cons] at h ⊢
  tauto

theorem initial_consistent (tenantId clusterId adapter : String) (now : Instant) :
    Consistent (.initial tenantId clusterId adapter now) where
  past := fun _ h => nomatch h
  last := rfl
  linked := trivial
  issued := fun _ h => nomatch h
  calls := fun _ h => nomatch h

theorem not_current_of_unleased {lease : SchedulerPollLease} {c : SchedulerPollCursor}
    (hc : c.leaseOwner = none) : current lease c = true → False := by
  intro h
  have owned := current_owner h
  rw [hc] at owned
  cases owned

theorem claim_consistent {clock now : Instant} {cursor : SchedulerPollCursor}
    {pre post : List Process} {leases : List SchedulerPollLease} {history : List Publication}
    {p : SchedulerPoller}
    (h : Consistent ⟨clock, cursor, pre ++ ⟨p, .claiming now⟩ :: post, leases, history⟩) :
    Consistent ⟨clock, (p.claim now cursor).2, pre ++ post, (p.claim now cursor).1.toList ++ leases,
      history⟩ := by
  obtain none' | ⟨lease, given, generation, next, still⟩ := claim_cases p now cursor
  · rw [none']
    exact h.calls_replaced _ (fun x hx => .inl (mem_without hx))
  · have first : (p.claim now cursor).1 = some lease := by rw [given]
    rw [first]
    exact {
      past := fun t ht => h.past t (by rwa [still] at ht)
      last := still.trans h.last
      linked := h.linked
      issued := by
        intro l hl
        rw [next]
        obtain rfl | hl := List.mem_cons.mp hl
        · exact generation.le
        · exact (h.issued l hl).trans (Nat.le_succ _)
      calls := by
        intro x hx
        refine (h.calls x (mem_without hx)).mono le_rfl (fun l hl => List.mem_cons_of_mem _ hl) ?_
        -- No lease from before is of the new generation.
        intro l hl hc
        have old := h.issued l hl
        have new := current_generation hc
        simp only [next] at new
        exact absurd old (by simp only; omega) }

theorem Linked.publish {history : List Publication} {q : Publication} {c : Option Instant}
    (h : Linked history) (hlast : c = history.head?.map Publication.startedAt)
    (hstart : ∀ t, c = some t → t ≤ q.startedAt)
    (hsince : q.since = c.map (fun t => t - seconds q.lookback)) : Linked (q :: history) := by
  cases history with
  | nil => simpa [Linked, hlast] using hsince
  | cons p rest =>
    simp only [List.head?_cons, Option.map_some] at hlast
    subst hlast
    exact ⟨hstart _ rfl, hsince, h⟩

theorem publish_consistent {clock startedAt completedAt delay : Instant}
    {cursor : SchedulerPollCursor} {pre post : List Process} {leases : List SchedulerPollLease}
    {history : List Publication} {p : SchedulerPoller} {lease : SchedulerPollLease}
    {since : Option Instant}
    (h : Consistent ⟨clock, cursor, pre ++ ⟨p, .publishing lease startedAt since completedAt⟩ ::
      post, leases, history⟩) :
    Consistent ⟨clock, (SchedulerPoller.publish lease startedAt completedAt delay cursor).2,
      pre ++ post, leases, if current lease cursor = true then
        ⟨p.accountingLookbackSeconds, startedAt, since⟩ :: history else history⟩ := by
  have call := h.calls ⟨p, .publishing lease startedAt since completedAt⟩ (by simp)
  obtain ⟨lost, same⟩ | ⟨held, c', given, moved, unleased, generation⟩ :=
    publish_cases lease startedAt completedAt delay cursor
  · rw [same, lost]
    exact h.calls_replaced _ (fun x hx => .inl (mem_without hx))
  · rw [given, held, if_pos rfl]
    obtain ⟨behind, hsince⟩ := call.sound lease rfl held
    exact {
      past := by
        intro t ht
        simp only [moved, Option.some.injEq] at ht
        exact ht ▸ call.begun startedAt rfl
      last := moved
      linked := h.linked.publish h.last behind hsince
      issued := fun l hl => generation ▸ h.issued l hl
      calls := fun x hx => (h.calls x (mem_without hx)).mono le_rfl (fun _ hl => hl)
        (fun l _ hc => (not_current_of_unleased unleased hc).elim) }

theorem fail_consistent {clock now : Instant} {cursor : SchedulerPollCursor}
    {pre post : List Process} {leases : List SchedulerPollLease} {history : List Publication}
    {p : SchedulerPoller} {lease : SchedulerPollLease} {message : String} {delay : Nat → Instant}
    (h : Consistent ⟨clock, cursor, pre ++ ⟨p, .failing lease message now⟩ :: post, leases,
      history⟩) :
    Consistent ⟨clock, (p.fail lease message now delay cursor).2, pre ++ post, leases,
      history⟩ := by
  obtain ⟨-, same⟩ | ⟨-, c', given, still, unleased, generation⟩ :=
    fail_cases p lease message now delay cursor
  · rw [same]
    exact h.calls_replaced _ (fun x hx => .inl (mem_without hx))
  · rw [given]
    exact {
      past := fun t ht => h.past t (still.symm.trans ht)
      last := still.trans h.last
      linked := h.linked
      issued := fun l hl => generation ▸ h.issued l hl
      calls := fun x hx => (h.calls x (mem_without hx)).mono le_rfl (fun _ hl => hl)
        (fun l _ hc => (not_current_of_unleased unleased hc).elim) }

theorem step_consistent (hs : Step s label s') (h : Consistent s) : Consistent s' := by
  cases hs with
  | tick later =>
    exact { past := fun t ht => (h.past t ht).trans later
            last := h.last
            linked := h.linked
            issued := h.issued
            calls := fun x hx => (h.calls x hx).mono later (fun _ hl => hl) (fun _ _ _ => rfl) }
  | beginClaim p =>
    refine h.calls_replaced _ (fun x hx => ?_)
    obtain rfl | hx := List.mem_cons.mp hx
    · exact .inr ⟨(fun _ ht => nomatch ht), (fun _ hl => nomatch hl), (fun _ hl => nomatch hl)⟩
    · exact .inl hx
  | claim => exact claim_consistent h
  | beginExecute p mem =>
    refine h.calls_replaced _ (fun x hx => ?_)
    obtain rfl | hx := List.mem_cons.mp hx
    · refine .inr ⟨fun t ht => ?_, fun l hl => ?_, fun l hl _ => h.past⟩
      · exact (Option.some.inj ht).symm.le
      · exact Option.some.inj hl ▸ mem
    · exact .inl hx
  | @look _ startedAt cursor pre post _ _ p lease since found =>
    refine h.calls_replaced _ (fun x hx => ?_)
    refine (mem_split hx).imp id ?_
    rintro rfl
    have call := h.calls ⟨p, .started lease startedAt⟩ (by simp)
    exact ⟨call.begun, call.holds, fun l hl hc => ⟨call.sound l hl hc, look_eq found⟩⟩
  | @answered _ startedAt _ _ _ _ _ p lease since =>
    refine h.calls_replaced _ (fun x hx => ?_)
    refine (mem_split hx).imp id ?_
    rintro rfl
    have call := h.calls ⟨p, .querying lease startedAt since⟩ (by simp)
    exact ⟨call.begun, call.holds, call.sound⟩
  | @raised _ startedAt _ _ _ _ _ p lease since message =>
    refine h.calls_replaced _ (fun x hx => ?_)
    refine (mem_split hx).imp id ?_
    rintro rfl
    have call := h.calls ⟨p, .querying lease startedAt since⟩ (by simp)
    exact ⟨(fun _ ht => nomatch ht), call.holds, fun _ _ _ => trivial⟩
  | publish delay => exact publish_consistent h
  | beginFail p message mem =>
    refine h.calls_replaced _ (fun x hx => ?_)
    obtain rfl | hx := List.mem_cons.mp hx
    · refine .inr ⟨(fun _ ht => nomatch ht), fun l hl => ?_, fun _ _ _ => trivial⟩
      exact Option.some.inj hl ▸ mem
    · exact .inl hx
  | fail delay => exact fail_consistent h
  | die => exact h.calls_replaced _ (fun x hx => .inl (mem_without hx))

end step

theorem reachable_consistent {s : State} (h : Reachable s) : Consistent s := by
  induction h with
  | start => exact initial_consistent _ _ _ _
  | step _ hs ih => exact step_consistent hs ih

/-- The instants a publication's query has covered. -/
def Publication.Covers (q : Publication) (t : Instant) : Prop :=
  (∀ b, q.since = some b → b ≤ t) ∧ t ≤ q.startedAt

theorem covered_of_linked {history : List Publication} {q : Publication} {t : Instant}
    (h : Linked history) (hq : history.head? = some q) (ht : t ≤ q.startedAt) :
    ∃ x ∈ history, x.Covers t := by
  induction history generalizing q with
  | nil => cases hq
  | cons x rest ih =>
    obtain rfl : x = q := Option.some.inj hq
    cases rest with
    | nil => exact ⟨x, List.mem_singleton_self x, by simp [show x.since = none from h], ht⟩
    | cons p rest =>
      obtain ⟨-, hsince, h⟩ := h
      by_cases early : p.startedAt - seconds x.lookback ≤ t
      · refine ⟨x, List.mem_cons_self, fun b hb => ?_, ht⟩
        rw [hsince] at hb
        exact Option.some.inj hb ▸ early
      · have back : 0 ≤ seconds x.lookback := by unfold seconds; omega
        have before : t ≤ p.startedAt := (not_le.mp early).le.trans (Int.sub_le_self _ back)
        obtain ⟨y, hy, covers⟩ := ih h rfl before
        exact ⟨y, List.mem_cons_of_mem _ hy, covers⟩

theorem consecutive_of_linked {pre rest : List Publication} {p q : Publication}
    (h : Linked (pre ++ q :: p :: rest)) :
    p.startedAt ≤ q.startedAt ∧ q.since = some (p.startedAt - seconds q.lookback) := by
  induction pre with
  | nil => exact ⟨h.1, h.2.1⟩
  | cons x pre ih =>
    refine ih ?_
    cases pre with
    | nil => exact h.2.2
    | cons y pre => exact h.2.2

/-- What one step does to the cursor of a run. -/
structure Advances (s : State) (label : Label) (s' : State) : Prop where
  forward : ∀ t, s.cursor.cursorAt = some t → ∃ t', s'.cursor.cursorAt = some t' ∧ t ≤ t'
  superseded : ∀ lease done, label = .published lease done ∨ label = .failed lease done →
    lease.generation ≠ s.cursor.leaseGeneration → s'.cursor = s.cursor ∧ done = false
  generations : ∀ lease, label = .claimed (some lease) → s'.leases = lease :: s.leases ∧
    s'.cursor.leaseGeneration = lease.generation ∧
    ∀ old ∈ s.leases, old.generation < lease.generation
  others : label = .quiet ∨ label = .claimed none → s'.cursor = s.cursor
  recorded : s'.history = s.history ∨ ∃ lease q, label = .published lease true ∧
    s'.history = q :: s.history ∧ s'.cursor.cursorAt = some q.startedAt

/-- What the publications of a run have covered, the last one first. -/
structure Gapless (history : List Publication) : Prop where
  consecutive : ∀ pre q p rest, history = pre ++ q :: p :: rest → p.startedAt ≤ q.startedAt ∧
    ∃ since, q.since = some since ∧ since ≤ p.startedAt - seconds q.lookback
  covered : ∀ first last, history.getLast? = some first → history.head? = some last →
    ∀ t, (∀ b, first.since = some b → b ≤ t) → t ≤ last.startedAt →
      ∃ q ∈ history, q.Covers t

theorem Linked.gapless {history : List Publication} (h : Linked history) : Gapless history where
  consecutive := by
    rintro pre q p rest rfl
    obtain ⟨after, hsince⟩ := consecutive_of_linked h
    exact ⟨after, _, hsince, le_rfl⟩
  covered := fun _ _ _ hlast _ _ ht => covered_of_linked h hlast ht

section advance

variable {clock : Instant} {cursor : SchedulerPollCursor} {pre post : List Process}
  {leases : List SchedulerPollLease} {history : List Publication} {p : SchedulerPoller}

theorem Advances.idle {s s' : State} (hc : s'.cursor = s.cursor) (hh : s'.history = s.history) :
    Advances s .quiet s' where
  forward := fun t ht => ⟨t, by rwa [hc], le_rfl⟩
  superseded := by rintro _ _ (h | h) <;> cases h
  generations := fun _ h => nomatch h
  others := fun _ => hc
  recorded := .inl hh

theorem claim_advances {now : Instant}
    (h : Consistent ⟨clock, cursor, pre ++ ⟨p, .claiming now⟩ :: post, leases, history⟩) :
    Advances ⟨clock, cursor, pre ++ ⟨p, .claiming now⟩ :: post, leases, history⟩
      (.claimed (p.claim now cursor).1)
      ⟨clock, (p.claim now cursor).2, pre ++ post, (p.claim now cursor).1.toList ++ leases,
        history⟩ := by
  obtain idle | ⟨lease, given, generation, next, still⟩ := claim_cases p now cursor
  · rw [idle]
    exact {
      forward := fun t ht => ⟨t, ht, le_rfl⟩
      superseded := by rintro _ _ (h | h) <;> cases h
      generations := fun _ h => nomatch h
      others := fun _ => rfl
      recorded := .inl rfl }
  · have first : (p.claim now cursor).1 = some lease := by rw [given]
    rw [first]
    exact {
      forward := fun t ht => ⟨t, still.trans ht, le_rfl⟩
      superseded := by rintro _ _ (h | h) <;> cases h
      generations := by
        rintro _ ⟨⟩
        refine ⟨rfl, next.trans generation.symm, fun old hold => ?_⟩
        exact generation ▸ Nat.lt_succ_of_le (h.issued old hold)
      others := by rintro (h | h) <;> cases h
      recorded := .inl rfl }

theorem publish_advances {startedAt completedAt delay : Instant} {lease : SchedulerPollLease}
    {since : Option Instant}
    (h : Consistent ⟨clock, cursor, pre ++ ⟨p, .publishing lease startedAt since completedAt⟩ ::
      post, leases, history⟩) :
    Advances ⟨clock, cursor, pre ++ ⟨p, .publishing lease startedAt since completedAt⟩ :: post,
        leases, history⟩
      (.published lease (SchedulerPoller.publish lease startedAt completedAt delay cursor).1)
      ⟨clock, (SchedulerPoller.publish lease startedAt completedAt delay cursor).2,
        pre ++ post, leases, if current lease cursor = true then
          ⟨p.accountingLookbackSeconds, startedAt, since⟩ :: history else history⟩ := by
  have call := h.calls ⟨p, .publishing lease startedAt since completedAt⟩ (by simp)
  obtain ⟨lost, same⟩ | ⟨held, c', given, moved, -, -⟩ :=
    publish_cases lease startedAt completedAt delay cursor
  · rw [same, lost]
    exact {
      forward := fun t ht => ⟨t, ht, le_rfl⟩
      superseded := by
        rintro _ _ (⟨⟨⟩⟩ | ⟨⟨⟩⟩) -
        exact ⟨rfl, rfl⟩
      generations := fun _ h => nomatch h
      others := fun _ => rfl
      recorded := .inl rfl }
  · rw [given, held, if_pos rfl]
    exact {
      forward := fun t ht => ⟨startedAt, moved, (call.sound lease rfl held).1 t ht⟩
      superseded := by
        rintro _ _ (⟨⟨⟩⟩ | ⟨⟨⟩⟩) other
        exact absurd (current_generation held) other
      generations := fun _ h => nomatch h
      others := by rintro (h | h) <;> cases h
      recorded := .inr ⟨lease, ⟨p.accountingLookbackSeconds, startedAt, since⟩, rfl, rfl, moved⟩ }

theorem fail_advances {now : Instant} {lease : SchedulerPollLease} {message : String}
    {delay : Nat → Instant} :
    Advances ⟨clock, cursor, pre ++ ⟨p, .failing lease message now⟩ :: post, leases, history⟩
      (.failed lease (p.fail lease message now delay cursor).1)
      ⟨clock, (p.fail lease message now delay cursor).2, pre ++ post, leases, history⟩ := by
  obtain ⟨-, same⟩ | ⟨held, c', given, still, -, -⟩ := fail_cases p lease message now delay cursor
  · rw [same]
    exact {
      forward := fun t ht => ⟨t, ht, le_rfl⟩
      superseded := by
        rintro _ _ (⟨⟨⟩⟩ | ⟨⟨⟩⟩) -
        exact ⟨rfl, rfl⟩
      generations := fun _ h => nomatch h
      others := fun _ => rfl
      recorded := .inl rfl }
  · rw [given]
    exact {
      forward := fun t ht => ⟨t, still.trans ht, le_rfl⟩
      superseded := by
        rintro _ _ (⟨⟨⟩⟩ | ⟨⟨⟩⟩) other
        exact absurd (current_generation held) other
      generations := fun _ h => nomatch h
      others := by rintro (h | h) <;> cases h
      recorded := .inl rfl }

end advance

theorem step_advances {s s' : State} {label : Label} (hs : Step s label s')
    (h : Consistent s) : Advances s label s' := by
  cases hs with
  | claim => exact claim_advances h
  | publish delay => exact publish_advances h
  | fail delay => exact fail_advances
  | tick | beginClaim | beginExecute | look | answered | raised | beginFail | die =>
    exact .idle rfl rfl

/-- Over every run of any number of pollers, the cursor only moves forward, only under the lease
of the last claim, and the windows of the publications leave no instant out. -/
theorem cursors_leave_no_gap {s : State} (h : Reachable s) :
    (∀ label s', Step s label s' → Advances s label s') ∧ Gapless s.history :=
  ⟨fun _ _ hs => step_advances hs (reachable_consistent h),
    (reachable_consistent h).linked.gapless⟩

def daily : SchedulerPoller := ⟨"scheduler", 60, 300, 86400, 3600, by decide⟩

def polled : State :=
  ⟨0, ⟨"tenant", "cluster", "slurm", some 0, seconds 60, none, 1, none, 0, some 0, none, 0, 0⟩, [],
    [⟨"tenant", "cluster", 1, "scheduler"⟩], [⟨86400, 0, none⟩]⟩

theorem polled_reachable : Reachable polled := by
  have start : Reachable (.initial "tenant" "cluster" "slurm" 0) := .start
  have claiming := start.step (.beginClaim daily)
  have claimed := claiming.step (@Step.claim _ _ _ [] [] _ _ daily)
  have executing := claimed.step (.beginExecute daily List.mem_cons_self)
  have looking := executing.step (@Step.look _ _ _ [] [] _ _ daily _ none (by decide))
  have querying := looking.step (@Step.answered _ _ _ [] [] _ _ daily _ _)
  have published := querying.step (@Step.publish _ _ _ _ [] [] _ _ daily _ _ (seconds 60))
  exact published

/-- A minute later, after a second publication. -/
def polledAgain : State :=
  ⟨seconds 60, ⟨"tenant", "cluster", "slurm", some (seconds 60), seconds 60 + seconds 60, none, 2,
      none, 0, some (seconds 60), none, 0, seconds 60⟩, [],
    [⟨"tenant", "cluster", 2, "scheduler"⟩, ⟨"tenant", "cluster", 1, "scheduler"⟩],
    [⟨86400, seconds 60, some (0 - seconds 86400)⟩, ⟨86400, 0, none⟩]⟩

theorem polledAgain_reachable : Reachable polledAgain := by
  have later := polled_reachable.step (@Step.tick polled (seconds 60) (by decide))
  have claiming := later.step (.beginClaim daily)
  have claimed := claiming.step (@Step.claim _ _ _ [] [] _ _ daily)
  have executing := claimed.step (.beginExecute daily List.mem_cons_self)
  have looking := executing.step (@Step.look _ _ _ [] [] _ _ daily _ (some (0 - seconds 86400))
    (by decide))
  have querying := looking.step (@Step.answered _ _ _ [] [] _ _ daily _ _)
  have published := querying.step (@Step.publish _ _ _ _ [] [] _ _ daily _ _ (seconds 60))
  exact published

theorem polled_gapless :
    (∀ label s', Step polledAgain label s' → Advances polledAgain label s') ∧
      Gapless polledAgain.history :=
  cursors_leave_no_gap polledAgain_reachable

end Poller

end RankLens
