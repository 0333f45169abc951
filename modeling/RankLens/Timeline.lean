import RankLens.Catalog

namespace RankLens

inductive ExecutionState where
  | pending
  | running
  | completing
  | succeeded
  | failed
  | cancelled
  | preempted
  | timedOut
  | unknown
deriving DecidableEq, Repr

def ExecutionState.value : ExecutionState → String
  | .pending => "pending"
  | .running => "running"
  | .completing => "completing"
  | .succeeded => "succeeded"
  | .failed => "failed"
  | .cancelled => "cancelled"
  | .preempted => "preempted"
  | .timedOut => "timed_out"
  | .unknown => "unknown"

structure AllocationInterval where
  startedAt : Instant
  endedAt : Option Instant
  allocatedNodes : Option Int
  allocatedCpus : Option Int
  partition : Option String
deriving DecidableEq, Repr

structure AllocationTimeline where
  sourceIdentity : String
  jobId : String
  latestState : String
  latestObservedAt : Instant
  coverageStatus : String
  coverageReasons : List String
  intervals : List AllocationInterval
deriving DecidableEq, Repr

namespace Scheduler

abbrev Resources := Option Int × Option Int × Option String

def terminalStates : List String :=
  [ExecutionState.succeeded.value, ExecutionState.failed.value, ExecutionState.cancelled.value,
    ExecutionState.preempted.value, ExecutionState.timedOut.value]

def activeStates : List String := [ExecutionState.running.value, ExecutionState.completing.value]

def resources (row : SchedulerObservation) : Resources :=
  (row.allocatedNodes, row.allocatedCpus, row.partition)

def hasResources (row : SchedulerObservation) : Bool :=
  row.allocatedNodes.isSome || row.allocatedCpus.isSome

def isTerminal (row : SchedulerObservation) : Bool := row.state ∈ terminalStates

def isActive (row : SchedulerObservation) : Bool := row.state ∈ activeStates

def canOpen (row : SchedulerObservation) : Bool :=
  isActive row || isTerminal row && row.startedAt.isSome

/-- When the allocation of an observation that opens it starts. -/
def opening (row : SchedulerObservation) : Instant := row.startedAt.getD row.observedAt

/-- When a terminal observation ends the allocation. -/
def boundary (row : SchedulerObservation) : Instant := row.endedAt.getD row.observedAt

def interval (startedAt : Instant) (row : SchedulerObservation) : AllocationInterval :=
  ⟨startedAt, none, row.allocatedNodes, row.allocatedCpus, row.partition⟩


/-- The local variables of the loop: the intervals, the current one, the reasons. -/
structure Derivation where
  intervals : List AllocationInterval
  current : Option AllocationInterval
  reasons : List String
deriving DecidableEq, Repr

namespace Derivation

variable (d : Derivation)

def because (reason : String) : Derivation :=
  { d with reasons := if reason ∈ d.reasons then d.reasons else reason :: d.reasons }

/-- Opens an interval, or starts a new one where the resources change. -/
def extend (row : SchedulerObservation) : Derivation :=
  match d.current with
  | none =>
    if canOpen row && hasResources row
    then { d with current := some (interval (opening row) row) } else d
  | some current =>
    if isActive row && hasResources row &&
        resources row ≠ (current.allocatedNodes, current.allocatedCpus, current.partition) then
      if current.startedAt ≤ row.observedAt then
        { d with
          intervals := d.intervals ++ [{ current with endedAt := some row.observedAt }]
          current := some (interval row.observedAt row) }
      else d.because "non_monotonic_observation"
    else d

def measure (row : SchedulerObservation) : Derivation :=
  if canOpen row && !hasResources row then d.because "missing_allocation_size" else d

/-- A terminal observation closes the current interval. -/
def terminate (row : SchedulerObservation) : Derivation :=
  match d.current with
  | none => d
  | some current =>
    if isTerminal row then
      if current.startedAt ≤ boundary row then
        { d with
          intervals := d.intervals ++ [{ current with endedAt := some (boundary row) }]
          current := none }
      else { d.because "invalid_terminal_interval" with current := none }
    else d

def observe (row : SchedulerObservation) : Derivation :=
  ((d.extend row).measure row).terminate row

end Derivation

def ordered (observations : List SchedulerObservation) : List SchedulerObservation :=
  observations.insertionSort (fun a b => a.observedAt ≤ b.observedAt)

/-- What the loop recorded, with the interval it left open. -/
def recorded (d : Derivation) : List AllocationInterval := d.intervals ++ d.current.toList

def coverageReasons (rows : List SchedulerObservation) (latest : SchedulerObservation)
    (d : Derivation) : List String :=
  let intervals := recorded d
  let d := if intervals = [] then d.because "no_observed_allocation" else d
  let d := if rows.any (fun row => row.startedAt.isSome) then d
    else d.because "missing_scheduler_start"
  let d := if isTerminal latest && latest.endedAt.isNone
    then d.because "missing_scheduler_end" else d
  let d := if isTerminal latest then d else d.because "attempt_not_terminal"
  let d := if intervals = [] then d else d.because "poll_sampled"
  d.reasons.insertionSort (fun a b => a ≤ b)

def deriveAllocationTimeline (observations : List SchedulerObservation) :
    Except String AllocationTimeline :=
  let rows := ordered observations
  match rows.head?, rows.getLast? with
  | some first, some latest =>
    if rows.any (fun row => row.sourceIdentity ≠ first.sourceIdentity) then
      .error "observations must belong to one scheduler source identity"
    else
      let d := rows.foldl Derivation.observe ⟨[], none, []⟩
      .ok {
        sourceIdentity := first.sourceIdentity
        jobId := latest.jobId
        latestState := latest.state
        latestObservedAt := latest.observedAt
        coverageStatus := if recorded d = [] then "unknown" else "observed"
        coverageReasons := coverageReasons rows latest d
        intervals := recorded d }
  | _, _ => .error "at least one scheduler observation is required"

/-- The observations in order, cut after every terminal one. -/
def tenures : List SchedulerObservation → List (List SchedulerObservation)
  | [] => []
  | row :: rows =>
    if isTerminal row then [row] :: tenures rows
    else match tenures rows with
      | [] => [[row]]
      | t :: ts => (row :: t) :: ts

def opens (row : SchedulerObservation) : Bool := canOpen row && hasResources row

/-- When the resources change after `t`, where they were `x`. -/
def changes : Instant → Resources → List SchedulerObservation → List Instant
  | _, _, [] => []
  | t, x, row :: rows =>
    if isActive row && hasResources row && resources row ≠ x && t ≤ row.observedAt
    then row.observedAt :: changes row.observedAt (resources row) rows
    else changes t x rows

def ending (rows : List SchedulerObservation) : Option Instant :=
  (rows.getLast?.filter isTerminal).map boundary

/-- The span of an allocation that starts at `t` and changes at `ts`. A terminal
observation that ends it before the last change is dropped. -/
def span (t : Instant) (ts : List Instant) : Option Instant → Option (Instant × Option Instant)
  | none => some (t, none)
  | some e =>
    if ts.getLast?.getD t ≤ e then some (t, some e)
    else ts.getLast?.map (fun u => (t, some u))

/-- The span of the allocation in one tenure, when it has one. -/
def allocation (tenure : List SchedulerObservation) : Option (Instant × Option Instant) :=
  match tenure.dropWhile (fun row => !opens row) with
  | [] => none
  | row :: rows =>
    span (opening row) (changes (opening row) (resources row) rows) (ending tenure)

/-- No tenure allocates before the allocation of an earlier one has ended. -/
def Sequential (observations : List SchedulerObservation) : Prop :=
  ((tenures (ordered observations)).filterMap allocation).IsChain
    (fun p q => ∃ e, p.2 = some e ∧ e ≤ q.1)

/-- The intervals are in order, closed but for the last one, and do not overlap. -/
structure WellFormed (xs : List AllocationInterval) : Prop where
  chronological : xs.Pairwise (fun x y => x.startedAt ≤ y.startedAt)
  forward : ∀ x ∈ xs, ∀ e, x.endedAt = some e → x.startedAt ≤ e
  separate : xs.IsChain (fun x y => ∀ e, x.endedAt = some e → e ≤ y.startedAt)
  closed : ∀ x ∈ xs.dropLast, x.endedAt ≠ none

/-- A chain of intervals that starts at one instant and ends at another. -/
inductive Covers : Instant → Option Instant → List AllocationInterval → Prop where
  | last {x : AllocationInterval} (h : ∀ e, x.endedAt = some e → x.startedAt ≤ e) :
      Covers x.startedAt x.endedAt [x]
  | cons {x : AllocationInterval} {t : Instant} {e : Option Instant} {xs : List AllocationInterval}
      (hx : x.endedAt = some t) (ht : x.startedAt ≤ t) (hxs : Covers t e xs) :
      Covers x.startedAt e (x :: xs)

def Realizes : Option (Instant × Option Instant) → List AllocationInterval → Prop
  | none, xs => xs = []
  | some p, xs => Covers p.1 p.2 xs

variable {row : SchedulerObservation} {rows : List SchedulerObservation} {d : Derivation}

@[simp] theorem recorded_because {reason : String} : recorded (d.because reason) = recorded d := rfl

theorem span_cons {t u : Instant} {ts : List Instant} {e : Option Instant} :
    span t (u :: ts) e = some (t, (span u ts e).elim (some u) Prod.snd) := by
  cases e with
  | none => rfl
  | some e =>
    have hlast : (u :: ts).getLast? = some (ts.getLast?.getD u) := List.getLast?_cons
    simp only [span, hlast, Option.getD_some, Option.map_some]
    by_cases h : ts.getLast?.getD u ≤ e
    · rw [if_pos h, if_pos h]
      rfl
    · rw [if_neg h, if_neg h]
      cases ts.getLast? <;> rfl

theorem span_fst {t : Instant} {ts : List Instant} {e : Option Instant}
    {p : Instant × Option Instant} (h : span t ts e = some p) : p.1 = t := by
  cases e with
  | none =>
    cases h
    rfl
  | some e =>
    simp only [span] at h
    split at h
    · cases h
      rfl
    · obtain ⟨u, _, rfl⟩ := Option.map_eq_some_iff.mp h
      rfl

theorem realizes_cons {x : AllocationInterval} {u : Instant} {p : Option (Instant × Option Instant)}
    {xs : List AllocationInterval} (hx : x.endedAt = some u) (ht : x.startedAt ≤ u)
    (hp : ∀ q, p = some q → q.1 = u) (h : Realizes p xs) :
    Realizes (some (x.startedAt, p.elim (some u) Prod.snd)) (x :: xs) := by
  cases p with
  | none =>
    obtain rfl : xs = [] := h
    have hlast : Covers x.startedAt x.endedAt [x] := .last (fun e he => by
      rw [hx] at he
      cases he
      exact ht)
    rw [hx] at hlast
    exact hlast
  | some q =>
    obtain rfl := hp q rfl
    exact Covers.cons hx ht h

theorem not_isTerminal_of_isActive (h : isActive row = true) : isTerminal row = false := by
  simp only [isActive, activeStates, isTerminal, terminalStates, decide_eq_true_eq,
    decide_eq_false_iff_not, List.mem_cons, List.not_mem_nil, or_false] at h ⊢
  obtain h | h := h <;> rw [h] <;> decide

theorem not_isActive_of_isTerminal (h : isTerminal row = true) : isActive row = false := by
  by_contra hn
  have hterm := not_isTerminal_of_isActive (eq_true_of_ne_false hn)
  rw [h] at hterm
  cases hterm

theorem ending_cons (h : isTerminal row = false) : ending (row :: rows) = ending rows := by
  cases rows with
  | nil => simp [ending, h]
  | cons x xs => simp [ending, List.getLast?_cons_cons]

theorem ending_terminal (h : isTerminal row = true) : ending [row] = some (boundary row) := by
  simp [ending, h]

namespace Derivation

@[simp] theorem intervals_because {reason : String} : (d.because reason).intervals = d.intervals := rfl

@[simp] theorem current_because {reason : String} : (d.because reason).current = d.current := rfl

@[simp] theorem intervals_measure : (d.measure row).intervals = d.intervals := by
  unfold measure
  split <;> rfl

@[simp] theorem current_measure : (d.measure row).current = d.current := by
  unfold measure
  split <;> rfl

theorem terminate_open (h : isTerminal row = false) : d.terminate row = d := by
  unfold terminate
  split
  · rfl
  · rw [h]
    rfl

theorem observe_idle (hd : d.current = none) (h : opens row = false) :
    (d.observe row).intervals = d.intervals ∧ (d.observe row).current = none := by
  have hextend : d.extend row = d := by
    have h' : (canOpen row && hasResources row) = false := h
    simp [extend, hd, h']
  have hcurrent : (d.measure row).current = none := by rw [current_measure, hd]
  have hterminate : (d.measure row).terminate row = d.measure row := by
    unfold terminate
    rw [hcurrent]
  rw [observe, hextend, hterminate]
  exact ⟨intervals_measure, hcurrent⟩

theorem observe_change {x : AllocationInterval} (hd : d.current = some x)
    (h : isActive row = true) (hr : hasResources row = true)
    (hx : resources row ≠ (x.allocatedNodes, x.allocatedCpus, x.partition))
    (ht : x.startedAt ≤ row.observedAt) :
    (d.observe row).intervals = d.intervals ++ [{ x with endedAt := some row.observedAt }] ∧
      (d.observe row).current = some (interval row.observedAt row) := by
  rw [observe, terminate_open (not_isTerminal_of_isActive h), intervals_measure, current_measure]
  simp [extend, hd, h, hr, hx, ht]

theorem observe_same {x : AllocationInterval} (hd : d.current = some x)
    (h : isTerminal row = false)
    (hn : (isActive row && hasResources row &&
      resources row ≠ (x.allocatedNodes, x.allocatedCpus, x.partition) &&
        x.startedAt ≤ row.observedAt) = false) :
    (d.observe row).intervals = d.intervals ∧ (d.observe row).current = some x := by
  rw [observe, terminate_open h, intervals_measure, current_measure]
  unfold extend
  rw [hd]
  dsimp only
  split
  · next hc =>
    split
    · next ht => simp_all
    · exact ⟨rfl, hd⟩
  · exact ⟨rfl, hd⟩

theorem observe_terminal {x : AllocationInterval} (hd : d.current = some x)
    (h : isTerminal row = true) :
    (d.observe row).intervals = d.intervals ++ (if x.startedAt ≤ boundary row
      then [{ x with endedAt := some (boundary row) }] else []) ∧
      (d.observe row).current = none := by
  have hextend : d.extend row = d := by simp [extend, hd, not_isActive_of_isTerminal h]
  have hcurrent : (d.measure row).current = some x := by rw [current_measure, hd]
  rw [observe, hextend]
  unfold terminate
  rw [hcurrent]
  dsimp only
  rw [if_pos h]
  split
  · exact ⟨congrArg (· ++ _) intervals_measure, rfl⟩
  · exact ⟨by simp, rfl⟩

theorem extend_opens (hd : d.current = none) (h : opens row = true) :
    d.extend row = { d with current := some (interval (opening row) row) } := by
  have h' : (canOpen row && hasResources row) = true := h
  simp [extend, hd, h']

theorem foldl_open {x : AllocationInterval} (hd : d.current = some x) (hx : x.endedAt = none)
    (hrows : ∀ r ∈ rows.dropLast, isTerminal r = false) :
    ∃ xs, recorded (rows.foldl observe d) = d.intervals ++ xs ∧
      Realizes (span x.startedAt (changes x.startedAt
        (x.allocatedNodes, x.allocatedCpus, x.partition) rows) (ending rows)) xs ∧
      (ending rows ≠ none → (rows.foldl observe d).current = none) := by
  induction rows generalizing d x with
  | nil =>
    refine ⟨[x], ?_, ?_, fun h => absurd rfl h⟩
    · rw [List.foldl_nil, recorded, hd]
      rfl
    · have h : Covers x.startedAt x.endedAt [x] := .last (fun e he => by rw [hx] at he; cases he)
      rw [hx] at h
      exact h
  | cons row rows ih =>
    by_cases hterm : isTerminal row = true
    · have hnil : rows = [] := by
        cases rows with
        | nil => rfl
        | cons r rs =>
          have h := hrows row (List.mem_cons_self ..)
          rw [hterm] at h
          cases h
      subst hnil
      obtain ⟨hi, hc⟩ := observe_terminal hd hterm
      have hactive := not_isActive_of_isTerminal hterm
      refine ⟨if x.startedAt ≤ boundary row then [{ x with endedAt := some (boundary row) }] else [],
        ?_, ?_, fun _ => hc⟩
      · rw [List.foldl_cons, List.foldl_nil, recorded, hi, hc, Option.toList_none, List.append_nil]
      · rw [ending_terminal hterm]
        simp only [changes, hactive, Bool.false_and, Bool.false_eq_true, if_false, span,
          List.getLast?_nil, Option.getD_none, Option.map_none]
        split
        · next ht =>
          let y : AllocationInterval := { x with endedAt := some (boundary row) }
          have h : Covers y.startedAt y.endedAt [y] := .last (fun e he => Option.some.inj he ▸ ht)
          exact h
        · rfl
    · have hterm := eq_false_of_ne_true hterm
      have hrest : ∀ r ∈ rows.dropLast, isTerminal r = false := by
        intro r hr
        cases rows with
        | nil => cases hr
        | cons y ys => exact hrows r (List.mem_cons_of_mem _ hr)
      rw [ending_cons hterm, List.foldl_cons]
      by_cases hn : (isActive row && hasResources row &&
          resources row ≠ (x.allocatedNodes, x.allocatedCpus, x.partition) &&
            x.startedAt ≤ row.observedAt) = true
      · have hcond := hn
        simp only [Bool.and_eq_true, decide_eq_true_eq] at hcond
        obtain ⟨⟨⟨ha, hr⟩, hne⟩, ht⟩ := hcond
        obtain ⟨hi, hc⟩ := observe_change hd ha hr hne ht
        obtain ⟨xs, hxs, hreal, hend⟩ := ih hc rfl hrest
        rw [changes, if_pos hn, span_cons]
        refine ⟨{ x with endedAt := some row.observedAt } :: xs, ?_, ?_, hend⟩
        · rw [hxs, hi, List.append_assoc, List.singleton_append]
        · exact realizes_cons (x := { x with endedAt := some row.observedAt }) rfl ht
            (fun p hp => span_fst hp) hreal
      · obtain ⟨hi, hc⟩ := observe_same hd hterm (eq_false_of_ne_true hn)
        obtain ⟨xs, hxs, hreal, hend⟩ := ih hc hx hrest
        rw [changes, if_neg hn]
        exact ⟨xs, hi ▸ hxs, hreal, hend⟩

theorem foldl_tenure {tenure : List SchedulerObservation} (hd : d.current = none)
    (ht : ∀ r ∈ tenure.dropLast, isTerminal r = false) :
    ∃ xs, recorded (tenure.foldl observe d) = d.intervals ++ xs ∧ Realizes (allocation tenure) xs ∧
      (ending tenure ≠ none → (tenure.foldl observe d).current = none) := by
  induction tenure generalizing d with
  | nil => exact ⟨[], by rw [List.foldl_nil, recorded, hd]; rfl, rfl, fun h => absurd rfl h⟩
  | cons row rows ih =>
    have hrest : ∀ r ∈ rows.dropLast, isTerminal r = false := by
      intro r hr
      cases rows with
      | nil => cases hr
      | cons y ys => exact ht r (List.mem_cons_of_mem _ hr)
    rw [List.foldl_cons]
    by_cases hopen : opens row = true
    · have hextend := extend_opens hd hopen
      have hagain : (d.extend row).extend row = d.extend row := by
        rw [hextend]
        simp [extend, resources, interval]
      have hobserve : d.observe row = (d.extend row).observe row := by
        rw [observe, observe, hagain]
      rw [hobserve, ← List.foldl_cons]
      obtain ⟨xs, hxs, hreal, hend⟩ := foldl_open (d := d.extend row) (by rw [hextend]) rfl ht
      refine ⟨xs, ?_, ?_, hend⟩
      · rw [hxs, hextend]
      · have hdrop : (row :: rows).dropWhile (fun r => !opens r) = row :: rows := by
          simp [hopen]
        have hchanges : changes (opening row) (resources row) (row :: rows) =
            changes (opening row) (resources row) rows := by simp [changes]
        rw [allocation, hdrop]
        dsimp only
        rw [← hchanges]
        exact hreal
    · have hidle := eq_false_of_ne_true hopen
      obtain ⟨hi, hc⟩ := observe_idle hd hidle
      obtain ⟨xs, hxs, hreal, hend⟩ := ih hc hrest
      have hdrop : (row :: rows).dropWhile (fun r => !opens r) = rows.dropWhile (fun r => !opens r) := by
        simp [hidle]
      by_cases hterm : isTerminal row = true
      · have hnil : rows = [] := by
          cases rows with
          | nil => rfl
          | cons r rs =>
            have h := ht row (List.mem_cons_self ..)
            rw [hterm] at h
            cases h
        subst hnil
        refine ⟨xs, hi ▸ hxs, ?_, fun _ => hc⟩
        rw [allocation, hdrop]
        exact hreal
      · have hending : ending (row :: rows) = ending rows :=
          ending_cons (eq_false_of_ne_true hterm)
        refine ⟨xs, hi ▸ hxs, ?_, hending ▸ hend⟩
        rw [allocation, hdrop, hending]
        exact hreal

/-- The tenures of the observations that follow one another. -/
inductive Tenures : List (List SchedulerObservation) → Prop where
  | nil : Tenures []
  | last {t : List SchedulerObservation} (ht : ∀ r ∈ t, isTerminal r = false) : Tenures [t]
  | cons {t : List SchedulerObservation} {ts : List (List SchedulerObservation)}
      (ht : ∀ r ∈ t.dropLast, isTerminal r = false) (he : ending t ≠ none) (hts : Tenures ts) :
      Tenures (t :: ts)

theorem tenures_tenures (rows : List SchedulerObservation) : Tenures (tenures rows) := by
  induction rows with
  | nil => exact .nil
  | cons row rows ih =>
    rw [tenures]
    split
    · next h => exact .cons (fun r hr => nomatch hr) (by rw [ending_terminal h]; simp) ih
    · next h =>
      have hterm := eq_false_of_ne_true h
      split
      · exact .last (fun r hr => List.mem_singleton.mp hr ▸ hterm)
      · next t ts hts =>
        rw [hts] at ih
        cases ih with
        | last ht =>
          refine .last (fun r hr => ?_)
          obtain rfl | hr := List.mem_cons.mp hr
          · exact hterm
          · exact ht r hr
        | cons ht he hts =>
          refine .cons (fun r hr => ?_) ((ending_cons hterm : ending (row :: t) = ending t) ▸ he) hts
          cases t with
          | nil => cases hr
          | cons y ys =>
            obtain rfl | hr := List.mem_cons.mp hr
            · exact hterm
            · exact ht r hr

theorem flatten_tenures (rows : List SchedulerObservation) : (tenures rows).flatten = rows := by
  induction rows with
  | nil => rfl
  | cons row rows ih =>
    rw [tenures]
    split
    · rw [List.flatten_cons, ih, List.singleton_append]
    · split
      · next h =>
        rw [h] at ih
        rw [← ih]
        rfl
      · next h =>
        rw [h] at ih
        rw [← ih]
        rfl

theorem realizes_filterMap {t : List SchedulerObservation} {ts : List (List SchedulerObservation)}
    {xs : List AllocationInterval} {xss : List (List AllocationInterval)}
    (h : Realizes (allocation t) xs)
    (hxss : List.Forall₂ (fun p xs => Covers p.1 p.2 xs) (ts.filterMap allocation) xss) :
    ∃ yss, yss.flatten = xs ++ xss.flatten ∧
      List.Forall₂ (fun p xs => Covers p.1 p.2 xs) ((t :: ts).filterMap allocation) yss := by
  cases ha : allocation t with
  | none =>
    rw [ha] at h
    obtain rfl : xs = [] := h
    exact ⟨xss, rfl, by rwa [List.filterMap_cons_none ha]⟩
  | some p =>
    rw [ha] at h
    exact ⟨xs :: xss, rfl, by rw [List.filterMap_cons_some ha]; exact .cons h hxss⟩

theorem foldl_tenures {ts : List (List SchedulerObservation)} (hts : Tenures ts)
    (hd : d.current = none) :
    ∃ xss, recorded (ts.flatten.foldl observe d) = d.intervals ++ xss.flatten ∧
      List.Forall₂ (fun p xs => Covers p.1 p.2 xs) (ts.filterMap allocation) xss := by
  induction hts generalizing d with
  | nil => exact ⟨[], by rw [List.flatten_nil, List.foldl_nil, recorded, hd]; rfl, .nil⟩
  | @last t ht =>
    obtain ⟨xs, hxs, hreal, _⟩ := foldl_tenure hd (fun r hr => ht r (List.dropLast_subset _ hr))
    have hnone : List.Forall₂ (fun p xs => Covers p.1 p.2 xs)
        (([] : List (List SchedulerObservation)).filterMap allocation) [] := .nil
    obtain ⟨yss, hyss, hall⟩ := realizes_filterMap hreal hnone
    refine ⟨yss, ?_, hall⟩
    rw [List.flatten_singleton, hxs, hyss, List.flatten_nil, List.append_nil]
  | @cons t ts ht he hts ih =>
    obtain ⟨xs, hxs, hreal, hend⟩ := foldl_tenure hd ht
    have hc := hend he
    obtain ⟨xss, hxss, hcovers⟩ := ih hc
    obtain ⟨yss, hyss, hall⟩ := realizes_filterMap hreal hcovers
    refine ⟨yss, ?_, hall⟩
    have hintervals : (t.foldl observe d).intervals = d.intervals ++ xs := by
      rw [← hxs, recorded, hc, Option.toList_none, List.append_nil]
    rw [List.flatten_cons, List.foldl_append, hxss, hintervals, hyss, List.append_assoc]

end Derivation

namespace Covers

variable {t : Instant} {e : Option Instant} {xs : List AllocationInterval}

theorem forward (h : Covers t e xs) : ∀ x ∈ xs, ∀ u, x.endedAt = some u → x.startedAt ≤ u := by
  induction h with
  | last h => exact fun x hx u hu => List.mem_singleton.mp hx ▸ h u (List.mem_singleton.mp hx ▸ hu)
  | @cons y u e xs hy ht hxs ih =>
    intro x hx v hv
    obtain rfl | hx := List.mem_cons.mp hx
    · rw [hy] at hv
      cases hv
      exact ht
    · exact ih x hx v hv

theorem head (h : Covers t e xs) : ∃ x, xs.head? = some x ∧ x.startedAt = t := by
  cases h with
  | @last x _ => exact ⟨x, rfl, rfl⟩
  | @cons x _ _ _ _ _ _ => exact ⟨x, rfl, rfl⟩

theorem getLast (h : Covers t e xs) : ∃ x, xs.getLast? = some x ∧ x.endedAt = e := by
  induction h with
  | @last x _ => exact ⟨x, rfl, rfl⟩
  | @cons y u e xs hy ht hxs ih =>
    obtain ⟨x, hx, he⟩ := ih
    refine ⟨x, ?_, he⟩
    cases xs with
    | nil => cases hx
    | cons z zs => rw [List.getLast?_cons_cons, hx]

theorem isChain (h : Covers t e xs) :
    xs.IsChain (fun x y => ∃ u, x.endedAt = some u ∧ u ≤ y.startedAt) := by
  induction h with
  | last _ => exact List.isChain_singleton _
  | @cons x u e xs hx ht hxs ih =>
    refine List.isChain_cons.mpr ⟨fun y hy => ?_, ih⟩
    obtain ⟨z, hz, hu⟩ := hxs.head
    rw [hz] at hy
    cases hy
    exact ⟨u, hx, hu.ge⟩

end Covers

theorem chronological_of_isChain {xs : List AllocationInterval}
    (hx : ∀ x ∈ xs, ∀ e, x.endedAt = some e → x.startedAt ≤ e)
    (h : xs.IsChain (fun x y => ∃ e, x.endedAt = some e ∧ e ≤ y.startedAt)) :
    xs.Pairwise (fun x y => x.startedAt ≤ y.startedAt) := by
  induction xs with
  | nil => exact .nil
  | cons x xs ih =>
    obtain ⟨hhead, htail⟩ := List.isChain_cons.mp h
    have hpairs := ih (fun y hy => hx y (List.mem_cons_of_mem _ hy)) htail
    refine List.pairwise_cons.mpr ⟨fun y hy => ?_, hpairs⟩
    cases xs with
    | nil => cases hy
    | cons z zs =>
      obtain ⟨e, he, hz⟩ := hhead z rfl
      have hxz : x.startedAt ≤ z.startedAt := (hx x (List.mem_cons_self ..) e he).trans hz
      obtain rfl | hy := List.mem_cons.mp hy
      · exact hxz
      · exact hxz.trans ((List.pairwise_cons.mp hpairs).1 y hy)

theorem closed_of_isChain {xs : List AllocationInterval}
    (h : xs.IsChain (fun x y => ∃ e, x.endedAt = some e ∧ e ≤ y.startedAt)) :
    ∀ x ∈ xs.dropLast, x.endedAt ≠ none := by
  induction xs with
  | nil => exact fun x hx => nomatch hx
  | cons x xs ih =>
    obtain ⟨hhead, htail⟩ := List.isChain_cons.mp h
    cases xs with
    | nil => exact fun x hx => nomatch hx
    | cons z zs =>
      intro y hy
      obtain rfl | hy := List.mem_cons.mp hy
      · obtain ⟨e, he, _⟩ := hhead z rfl
        rw [he]
        exact Option.some_ne_none e
      · exact ih htail y hy

theorem isChain_of_closed {xs : List AllocationInterval}
    (hs : xs.IsChain (fun x y => ∀ e, x.endedAt = some e → e ≤ y.startedAt))
    (hc : ∀ x ∈ xs.dropLast, x.endedAt ≠ none) :
    xs.IsChain (fun x y => ∃ e, x.endedAt = some e ∧ e ≤ y.startedAt) := by
  induction xs with
  | nil => exact .nil
  | cons x xs ih =>
    obtain ⟨hhead, htail⟩ := List.isChain_cons.mp hs
    cases xs with
    | nil => exact .singleton x
    | cons z zs =>
      obtain ⟨e, he⟩ := Option.ne_none_iff_exists'.mp (hc x (List.mem_cons_self ..))
      exact List.isChain_cons_cons.mpr ⟨⟨e, he, hhead z rfl e he⟩,
        ih htail (fun y hy => hc y (List.mem_cons_of_mem _ hy))⟩

/-- Where no interval ends before it starts, the form is that of a chain. -/
theorem wellFormed_iff {xs : List AllocationInterval}
    (hx : ∀ x ∈ xs, ∀ e, x.endedAt = some e → x.startedAt ≤ e) :
    WellFormed xs ↔ xs.IsChain (fun x y => ∃ e, x.endedAt = some e ∧ e ≤ y.startedAt) := by
  constructor
  · exact fun h => isChain_of_closed h.separate h.closed
  · intro h
    refine ⟨chronological_of_isChain hx h, hx, h.imp ?_, closed_of_isChain h⟩
    intro x y hxy e he
    obtain ⟨u, hu, hy⟩ := hxy
    rw [he] at hu
    cases hu
    exact hy

theorem isChain_covers {ps : List (Instant × Option Instant)} {xss : List (List AllocationInterval)}
    (h : List.Forall₂ (fun p xs => Covers p.1 p.2 xs) ps xss) :
    xss.flatten.IsChain (fun x y => ∃ e, x.endedAt = some e ∧ e ≤ y.startedAt) ↔
      ps.IsChain (fun p q => ∃ e, p.2 = some e ∧ e ≤ q.1) := by
  induction h with
  | nil => exact ⟨fun _ => .nil, fun _ => .nil⟩
  | @cons p xs ps xss hp hrest ih =>
    rw [List.flatten_cons, List.isChain_append, List.isChain_cons, ih, and_iff_right hp.isChain,
      and_comm]
    refine and_congr_left (fun _ => ?_)
    obtain ⟨x, hx, he⟩ := hp.getLast
    cases hrest with
    | nil => exact ⟨fun _ q hq => (nomatch hq), fun _ x hx y hy => (nomatch hy)⟩
    | @cons q ys ps xss hq _ =>
      obtain ⟨y, hy, hs⟩ := hq.head
      have hhead : (ys :: xss).flatten.head? = some y := by
        rw [List.flatten_cons, List.head?_append, hy]
        rfl
      rw [hx, hhead]
      constructor
      · intro h r hr
        cases hr
        rw [← he, ← hs]
        exact h x rfl y rfl
      · intro h x' hx' y' hy'
        cases hx'
        cases hy'
        rw [he, hs]
        exact h q rfl

theorem forward_covers {ps : List (Instant × Option Instant)} {xss : List (List AllocationInterval)}
    (h : List.Forall₂ (fun p xs => Covers p.1 p.2 xs) ps xss) :
    ∀ x ∈ xss.flatten, ∀ e, x.endedAt = some e → x.startedAt ≤ e := by
  induction h with
  | nil => exact fun x hx => nomatch hx
  | cons hp _ ih =>
    intro x hx
    obtain hx | hx := List.mem_append.mp hx
    · exact hp.forward x hx
    · exact ih x hx

theorem recorded_wellFormed (observations : List SchedulerObservation) :
    WellFormed (recorded ((ordered observations).foldl Derivation.observe ⟨[], none, []⟩)) ↔
      Sequential observations := by
  obtain ⟨xss, hxss, hcovers⟩ := Derivation.foldl_tenures (d := ⟨[], none, []⟩)
    (Derivation.tenures_tenures (ordered observations)) rfl
  rw [Derivation.flatten_tenures, List.nil_append] at hxss
  rw [hxss, wellFormed_iff, isChain_covers hcovers, Sequential]
  intro x hx
  exact forward_covers hcovers x hx

/-- A timeline is well formed if and only if the tenures are sequential. -/
theorem timeline_well_formed {observations : List SchedulerObservation} {identity : String}
    (hne : observations ≠ []) (hid : ∀ row ∈ observations, row.sourceIdentity = identity) :
    ∃ t, deriveAllocationTimeline observations = .ok t ∧
      (WellFormed t.intervals ↔ Sequential observations) := by
  have hperm := observations.perm_insertionSort (fun a b => a.observedAt ≤ b.observedAt)
  have hrows : ordered observations ≠ [] := fun h => hne (List.Perm.nil_eq (h ▸ hperm)).symm
  have hany : ∀ first ∈ (ordered observations).head?,
      (ordered observations).any (fun row => row.sourceIdentity ≠ first.sourceIdentity) = false := by
    intro first hfirst
    have hmem := List.mem_of_mem_head? hfirst
    refine List.any_eq_false.mpr (fun row hrow => ?_)
    rw [hid row (hperm.mem_iff.mp hrow), hid first (hperm.mem_iff.mp hmem)]
    simp
  obtain ⟨first, hfirst⟩ := Option.ne_none_iff_exists'.mp (mt List.head?_eq_none_iff.mp hrows)
  obtain ⟨latest, hlatest⟩ := Option.ne_none_iff_exists'.mp (mt List.getLast?_eq_none_iff.mp hrows)
  simp only [deriveAllocationTimeline, hfirst, hlatest, hany first hfirst, Bool.false_eq_true,
    if_false]
  exact ⟨_, rfl, recorded_wellFormed observations⟩

end Scheduler

namespace Sample

/-- A job on two nodes, as one poll sees it. -/
def observation (state : ExecutionState) (endedAt : Option Instant) (nodes : Int)
    (observedAt : Instant) : SchedulerObservation where
  observationId := 0
  tenantId := "acme"
  clusterId := "c1"
  adapter := "slurm"
  adapterVersion := "slurm-sacct-json-v1"
  sourceIdentity := "slurm:c1:derived:1"
  jobId := "44"
  arrayJobId := none
  arrayTaskId := none
  stepId := none
  restartCount := 0
  state := state.value
  stateReason := none
  submittedAt := none
  startedAt := some 0
  endedAt := endedAt
  allocatedNodes := some nodes
  allocatedCpus := none
  account := none
  partition := none
  userRef := none
  observedAt := observedAt
  rawJson := "{}"
  firstSeenAt := observedAt

end Sample

namespace Scheduler

open Sample (observation)

/-- A job that grows and finishes. -/
theorem timeline_well_formed_sample :
    ∃ t, deriveAllocationTimeline [observation .running none 2 1, observation .running none 4 3,
        observation .succeeded (some 5) 4 6] = .ok t ∧ WellFormed t.intervals := by
  obtain ⟨t, ht, h⟩ := @timeline_well_formed [observation .running none 2 1,
    observation .running none 4 3, observation .succeeded (some 5) 4 6] "slurm:c1:derived:1"
    (by simp) (by simp [observation])
  refine ⟨t, ht, h.mpr ?_⟩
  unfold Sequential
  decide +kernel

/-- Two polls that overlap repeat the terminal observation, and its time is counted twice. -/
theorem terminal_counted_twice :
    ∃ t, deriveAllocationTimeline [observation .succeeded (some 5) 2 6,
        observation .succeeded (some 5) 2 7] = .ok t ∧
      t.intervals.map (fun x => (x.startedAt, x.endedAt)) = [(0, some 5), (0, some 5)] ∧
      ¬WellFormed t.intervals := by
  have h : (deriveAllocationTimeline [observation .succeeded (some 5) 2 6,
      observation .succeeded (some 5) 2 7]).toOption.map (fun t =>
        t.intervals.map (fun x => (x.startedAt, x.endedAt))) = some [(0, some 5), (0, some 5)] := by
    decide +kernel
  obtain ⟨t, ht, hspans⟩ := Option.map_eq_some_iff.mp h
  refine ⟨t, ?_, hspans, fun hwf => ?_⟩
  · revert ht
    cases deriveAllocationTimeline [observation .succeeded (some 5) 2 6,
      observation .succeeded (some 5) 2 7] with
    | error e => exact fun ht => nomatch ht
    | ok u => exact fun ht => congrArg Except.ok (Option.some.inj ht)
  · have hchain : (t.intervals.map (fun x => (x.startedAt, x.endedAt))).IsChain
        (fun x y => ∀ e, x.2 = some e → e ≤ y.1) := List.isChain_map _ |>.mpr hwf.separate
    rw [hspans] at hchain
    have hle := (List.isChain_cons_cons.mp hchain).1 5 rfl
    exact absurd hle (by decide)

end Scheduler

end RankLens
