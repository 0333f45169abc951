import RankLens.Wrappers

namespace RankLens

/-- An entry of the request table. The group of the peers is there as the ranks it has in
`MPI_COMM_WORLD`. -/
structure Pending where
  id : Nat
  receive : Bool
  peers : Int → Int
  peer : Int
  tag : Int
  persistent : Bool

structure MpiStatus where
  source : Int
  tag : Int
  count : Int
  cancelled : Bool

/-- The maps `pending` and `persistent`, as their entries in the order they were made, with the key of
each. -/
structure RequestTable (H : Type) where
  pending : List (H × Pending)
  persistent : List (H × Pending)
  nextRequestId : Nat
  requestTrackingLimit : Nat

namespace RequestTable

variable {H : Type} [DecidableEq H]

/-- `remember`, with the request id it has given out. -/
def remember (self : RequestTable H) (request : H) (receive : Bool) (peers : Int → Int)
    (peer tag : Int) (persistentRequest : Bool) : RequestTable H × Option Nat :=
  let currentSize := if persistentRequest then self.persistent.length else self.pending.length
  if self.requestTrackingLimit ≤ currentSize then (self, none)
  else
    let id := self.nextRequestId + 1
    if persistentRequest then
      ({ self with
        nextRequestId := id
        persistent := self.persistent.filter (fun e => e.1 ≠ request) ++
          [(request, ⟨id, receive, peers, peer, tag, true⟩)] }, some id)
    else
      ({ self with
        nextRequestId := id
        pending := self.pending ++ [(request, ⟨id, receive, peers, peer, tag, false⟩)] }, some id)

def forgetRequest (self : RequestTable H) (key : H) : RequestTable H :=
  { self with
    pending := self.pending.filter (fun e => e.1 ≠ key)
    persistent := self.persistent.filter (fun e => e.1 ≠ key) }

def startPersistent (self : RequestTable H) (key : H) : RequestTable H :=
  match self.persistent.find? (fun e => e.1 = key) with
  | none => self
  | some (_, saved) =>
    if self.requestTrackingLimit ≤ self.pending.length then self
    else { self with pending := self.pending ++ [(key, { saved with persistent := true })] }

/-- The entry `complete_request` takes out of the table. -/
def takeFront (self : RequestTable H) (key : H) : Option (Pending × RequestTable H) :=
  match self.pending.find? (fun e => e.1 = key) with
  | none => none
  | some (_, item) =>
    some (item, { self with pending := self.pending.eraseP (fun e => e.1 = key) })

end RequestTable

/-- The completion that `complete_request` records. -/
def Pending.completion (item : Pending) (status : MpiStatus) (now : Nat) : WrapperCall :=
  let peer := if item.receive then status.source else item.peer
  .completed item.receive now (if item.receive && !status.cancelled then status.count else 0)
    (if 0 ≤ peer then item.peers peer else peer)
    (if item.receive then status.tag else item.tag) item.id status.cancelled

namespace Requests

section completions

inductive Completing where
  | wait
  | test
  | waitall
  | waitany
  | testall
  | testany
  | waitsome
  | testsome
deriving DecidableEq, Repr

inductive Outcome where
  | success
  | errInStatus
  | other
deriving DecidableEq, Repr

/-- What the PMPI function returns: its result, and through its arguments. -/
structure Returned where
  result : Outcome
  flag : Bool
  index : Option Int
  outcount : Option Nat
  indices : List Int
  errorFree : List Bool
deriving DecidableEq, Repr

/-- An index into the requests, `MPI_UNDEFINED` where there is none. -/
def indexed (count : Nat) : Option Int → List Nat
  | some index => if 0 ≤ index ∧ index < count then [index.toNat] else []
  | none => []

/-- `result == MPI_SUCCESS || observed[item].MPI_ERROR == MPI_SUCCESS`. -/
def Returned.sound (r : Returned) (item : Nat) : Bool :=
  r.result = .success || (r.errorFree.getD item false)

/-- The items a wrapper calls `complete_request` for, in this order. -/
def completedItems (count : Nat) (r : Returned) : Completing → List Nat
  | .wait => if r.result = .success then [0] else []
  | .test => if r.result = .success ∧ r.flag = true then [0] else []
  | .waitall => if r.result = .success ∨ r.result = .errInStatus then
      (List.range count).filter r.sound else []
  | .waitany => if r.result = .success then indexed count r.index else []
  | .testall => if (r.result = .success ∨ r.result = .errInStatus) ∧ r.flag = true then
      (List.range count).filter r.sound else []
  | .testany => if r.result = .success ∧ r.flag = true then indexed count r.index else []
  | .waitsome => if r.result = .success ∨ r.result = .errInStatus then
      ((List.range (r.outcount.getD 0)).filter r.sound).flatMap (fun completed =>
        indexed count r.indices[completed]?) else []
  | .testsome => if r.result = .success ∨ r.result = .errInStatus then
      ((List.range (r.outcount.getD 0)).filter r.sound).flatMap (fun completed =>
        indexed count r.indices[completed]?) else []

end completions

section runs

variable (H : Type)

/-- A request of the program, by its number. A request that was complete when it was made may share
its handle. -/
structure Instance where
  number : Nat
  handle : H
  receive : Bool
  persistent : Bool
  shared : Bool
deriving DecidableEq

instance Instance.lawful [DecidableEq H] : LawfulBEq (Instance H) := inferInstance

/-- What a wrapper still has to do to the table after its PMPI call. -/
inductive Update where
  | remember (request : Instance H) (peers : Int → Int) (peer tag : Int)
  | start (request : Instance H)
  | complete (request : Instance H) (status : MpiStatus) (now : Nat)
  | forget (request : Instance H)

/-- A completion that was recorded, with the request that was observed to be complete. -/
structure Emitted where
  observed : Instance H
  item : Pending
  status : MpiStatus
  now : Nat

/-- The requests of a process, the table, and the wrapper calls that have returned from PMPI, each
with its updates that are still to be made. `begun` and `owner` are kept for the statements: the starts
of requests, and the request each id was given to. -/
structure State where
  table : RequestTable H
  live : List (Instance H)
  active : List (Instance H)
  threads : List (List (Update H))
  created : Nat
  begun : List (Instance H)
  owner : Nat → Option (Instance H)
  emitted : List (Emitted H)

variable {H} [DecidableEq H]

def Update.request : Update H → Instance H
  | .remember request _ _ _ => request
  | .start request => request
  | .complete request _ _ => request
  | .forget request => request

/-- Two requests that no call can tell apart: the same, or both complete from the start under one
handle. -/
def Indistinguishable (i j : Instance H) : Prop :=
  i = j ∨ (i.shared = true ∧ j.shared = true ∧ i.persistent = false ∧ j.persistent = false ∧
    i.handle = j.handle ∧ i.receive = j.receive)

/-- No wrapper call is still at work on the request. -/
def State.Settled (s : State H) (i : Instance H) : Prop :=
  ∀ u ∈ s.threads.flatten, u.request ≠ i

def Emitted.call (e : Emitted H) : WrapperCall := e.item.completion e.status e.now

def State.apply (s : State H) : Update H → State H
  | .remember i peers peer tag =>
    let (table, id) := s.table.remember i.handle i.receive peers peer tag i.persistent
    { s with
      table := table
      owner := fun n => if id = some n then some i else s.owner n }
  | .start i => { s with table := s.table.startPersistent i.handle }
  | .complete i status now =>
    match s.table.takeFront i.handle with
    | none => s
    | some (item, table) => { s with
        table := table
        emitted := s.emitted ++ [⟨i, item, status, now⟩] }
  | .forget i => { s with table := s.table.forgetRequest i.handle }

def State.initial (requestTrackingLimit : Nat) : State H :=
  ⟨⟨[], [], 0, requestTrackingLimit⟩, [], [], [], 0, [], fun _ => none, []⟩

/-- The updates after a completion call, for the requests it was given. -/
def completions (requests : List (Option (Instance H))) (items : List Nat)
    (statuses : Nat → MpiStatus) (now : Nat) : List (Update H) :=
  items.filterMap (fun item => (requests[item]?.join).map (fun i => .complete i (statuses item) now))

/-- A completion call releases the requests that are not persistent. -/
def State.release (s : State H) (done : List (Instance H)) : State H :=
  { s with
    live := s.live.filter (fun i => i.persistent || !decide (i ∈ done))
    active := s.active.filter (fun i => !decide (i ∈ done)) }

/-- A step of a legal program with any number of threads: a PMPI call that has an effect, or one
update of the table by a wrapper. -/
inductive Step : State H → State H → Prop where
  | create {s : State H} (i : Instance H) (peers : Int → Int) (peer tag : Int)
      (hnumber : i.number = s.created)
      (hhandle : ∀ j ∈ s.live, j.handle = i.handle → Indistinguishable j i) : Step s { s with
        live := i :: s.live
        active := if i.persistent then s.active else i :: s.active
        begun := if i.persistent then s.begun else i :: s.begun
        threads := [.remember i peers peer tag] :: s.threads
        created := s.created + 1 }
  | start {s : State H} (is : List (Instance H)) (hdistinct : is.Nodup)
      (hlegal : ∀ i ∈ is, i ∈ s.live ∧ i.persistent = true ∧ i ∉ s.active ∧ s.Settled i) :
      Step s { s with
        active := is ++ s.active
        begun := is ++ s.begun
        threads := is.map .start :: s.threads }
  | complete {s : State H} (call : Completing) (requests : List (Option (Instance H)))
      (r : Returned) (statuses : Nat → MpiStatus) (now : Nat) (failed : List (Instance H))
      (hlegal : ∀ i, some i ∈ requests → i ∈ s.live ∧ s.Settled i)
      (hfailed : ∀ i ∈ failed, some i ∈ requests) :
      Step s { s.release (failed ++ (completions requests
          (completedItems requests.length r call) statuses now).map Update.request) with
        threads := completions requests (completedItems requests.length r call) statuses now ::
          s.threads }
  | free {s : State H} (i : Instance H) (hlive : i ∈ s.live) (hsettled : s.Settled i) :
      Step s { s with
        live := s.live.filter (fun j => j ≠ i)
        active := s.active.filter (fun j => j ≠ i)
        threads := [.forget i] :: s.threads }
  | update {s : State H} {before after : List (List (Update H))} {u : Update H}
      {us : List (Update H)} (h : s.threads = before ++ (u :: us) :: after) :
      Step s { s.apply u with threads := before ++ us :: after }
  | thrown {s : State H} {before after : List (List (Update H))} {u : Update H}
      {us : List (Update H)} (h : s.threads = before ++ (u :: us) :: after) :
      Step s { s with threads := before ++ us :: after }

/-- The requests the table has entries of, or will have. -/
def State.Tracked (s : State H) (i : Instance H) : Prop :=
  (∃ u ∈ s.threads.flatten, u.request = i) ∨
    ∃ e ∈ s.table.pending ++ s.table.persistent, s.owner e.2.id = some i

/-- A step that gives out a handle does so when the table has done with all earlier requests under
that handle, apart from indistinguishable ones. -/
def Apart (s s' : State H) : Prop :=
  ∀ i ∈ s'.live, i ∉ s.live → ∀ j, s.Tracked j → j.handle = i.handle → Indistinguishable j i

/-- The states of the runs whose steps meet a condition. -/
inductive Runs (condition : State H → State H → Prop) : State H → Prop where
  | start (requestTrackingLimit : Nat) : Runs condition (.initial requestTrackingLimit)
  | step {s s' : State H} (h : Runs condition s) (hs : Step s s') (hc : condition s s') :
      Runs condition s'

end runs

section identity

variable {H : Type} {s s' : State H} {i j : Instance H} {u : Update H}

theorem Indistinguishable.symm (h : Indistinguishable i j) : Indistinguishable j i := by
  obtain rfl | ⟨hi, hj, pi, pj, hh, hr⟩ := h
  · exact .inl rfl
  · exact .inr ⟨hj, hi, pj, pi, hh.symm, hr.symm⟩

theorem Indistinguishable.receive (h : Indistinguishable i j) : i.receive = j.receive := by
  obtain rfl | ⟨-, -, -, -, -, hr⟩ := h
  · rfl
  · exact hr

variable [DecidableEq H]

/-- The entries an update adds to the completions of a request that are to come. -/
def Update.pushes (i : Instance H) : Update H → Nat
  | .remember request _ _ _ => if request = i ∧ request.persistent = false then 1 else 0
  | .start request => if request = i then 1 else 0
  | _ => 0

/-- The completions of a request, recorded and to come. -/
def State.load (s : State H) (i : Instance H) : Nat :=
  s.emitted.countP (fun e => s.owner e.item.id = some i) +
    s.table.pending.countP (fun e => s.owner e.2.id = some i) +
      (s.threads.flatten.map (Update.pushes i)).sum

def State.Concerned (s : State H) (i : Instance H) : Prop := i ∈ s.live ∨ s.Tracked i

/-- All that the table, the wrappers and PMPI know of a handle is of the same request, or of
indistinguishable ones. -/
structure Tidy (s : State H) : Prop where
  numbers : ∀ i ∈ s.live, i.number < s.created
  ids : ∀ e ∈ s.table.pending ++ s.table.persistent, e.2.id ≤ s.table.nextRequestId
  emittedIds : ∀ e ∈ s.emitted, e.item.id ≤ s.table.nextRequestId
  owned : ∀ e ∈ s.table.pending ++ s.table.persistent, ∃ i, s.owner e.2.id = some i ∧
    i.handle = e.1 ∧ i.receive = e.2.receive
  saved : ∀ e ∈ s.table.persistent, ∀ i, s.owner e.2.id = some i → i.persistent = true
  uniform : ∀ i j, s.Concerned i → s.Concerned j → i.handle = j.handle → Indistinguishable i j
  correct : ∀ e ∈ s.emitted, ∃ i, s.owner e.item.id = some i ∧ Indistinguishable i e.observed ∧
    e.item.receive = e.observed.receive
  counted : ∀ i, s.load i ≤ s.begun.count i

theorem Tidy.call (h : Tidy s) (htable : s'.table = s.table) (howner : s'.owner = s.owner)
    (hemitted : s'.emitted = s.emitted) (hcreated : s'.created = s.created)
    (hlive : ∀ i ∈ s'.live, i ∈ s.live)
    (hthreads : ∀ u ∈ s'.threads.flatten, u ∈ s.threads.flatten ∨ u.request ∈ s.live)
    (hcounted : ∀ i, (s'.threads.flatten.map (Update.pushes i)).sum + s.begun.count i ≤
      (s.threads.flatten.map (Update.pushes i)).sum + s'.begun.count i) : Tidy s' := by
  have concerned : ∀ i, s'.Concerned i → s.Concerned i := by
    rintro i (hi | ⟨u, hu, rfl⟩ | ⟨e, he, howned⟩)
    · exact .inl (hlive i hi)
    · obtain hu | hu := hthreads u hu
      · exact .inr (.inl ⟨u, hu, rfl⟩)
      · exact .inl hu
    · rw [htable] at he
      rw [howner] at howned
      exact .inr (.inr ⟨e, he, howned⟩)
  refine ⟨fun i hi => ?_, ?_, ?_, ?_, ?_, fun i j hi hj => ?_, ?_, fun i => ?_⟩
  · rw [hcreated]
    exact h.numbers i (hlive i hi)
  · rw [htable]
    exact h.ids
  · rw [htable, hemitted]
    exact h.emittedIds
  · rw [htable, howner]
    exact h.owned
  · rw [htable, howner]
    exact h.saved
  · exact h.uniform i j (concerned i hi) (concerned j hj)
  · rw [hemitted, howner]
    exact h.correct
  · have before := h.counted i
    have grown := hcounted i
    unfold State.load at before ⊢
    rw [htable, howner, hemitted]
    omega

theorem Tidy.create (h : Tidy s) {peers : Int → Int} {peer tag : Int} (htable : s'.table = s.table)
    (howner : s'.owner = s.owner) (hemitted : s'.emitted = s.emitted)
    (hcreated : s'.created = s.created + 1) (hlive : s'.live = i :: s.live)
    (hthreads : s'.threads.flatten = .remember i peers peer tag :: s.threads.flatten)
    (hbegun : s'.begun = if i.persistent = true then s.begun else i :: s.begun)
    (hnumber : i.number = s.created)
    (hnew : ∀ j, s.Concerned j → j.handle = i.handle → Indistinguishable j i) : Tidy s' := by
  have concerned : ∀ j, s'.Concerned j → j = i ∨ s.Concerned j := by
    rintro j (hj | ⟨u, hu, rfl⟩ | ⟨e, he, howned⟩)
    · rw [hlive] at hj
      exact (List.mem_cons.mp hj).imp id .inl
    · rw [hthreads] at hu
      obtain rfl | hu := List.mem_cons.mp hu
      · exact .inl rfl
      · exact .inr (.inr (.inl ⟨u, hu, rfl⟩))
    · rw [htable] at he
      rw [howner] at howned
      exact .inr (.inr (.inr ⟨e, he, howned⟩))
  refine ⟨?_, ?_, ?_, ?_, ?_, fun j k hj hk hjk => ?_, ?_, fun j => ?_⟩
  · rw [hlive, hcreated]
    refine List.forall_mem_cons.mpr ⟨?_, fun j hj => Nat.lt_succ_of_lt (h.numbers j hj)⟩
    rw [hnumber]
    exact Nat.lt_succ_self _
  · rw [htable]
    exact h.ids
  · rw [htable, hemitted]
    exact h.emittedIds
  · rw [htable, howner]
    exact h.owned
  · rw [htable, howner]
    exact h.saved
  · obtain hj | hj := concerned j hj
    · obtain hk | hk := concerned k hk
      · exact .inl (hj.trans hk.symm)
      · rw [hj] at hjk ⊢
        exact (hnew k hk hjk.symm).symm
    · obtain hk | hk := concerned k hk
      · rw [hk] at hjk ⊢
        exact hnew j hj hjk
      · exact h.uniform j k hj hk hjk
  · rw [hemitted, howner]
    exact h.correct
  · have before := h.counted j
    unfold State.load at before ⊢
    rw [htable, howner, hemitted, hthreads, hbegun, List.map_cons, List.sum_cons]
    by_cases hp : i.persistent = true
    · have none : Update.pushes j (.remember i peers peer tag) = 0 := by simp [Update.pushes, hp]
      rw [none, if_pos hp]
      omega
    · rw [if_neg hp, List.count_cons]
      have one : Update.pushes j (.remember i peers peer tag) = if (i == j) = true then 1 else 0 := by
        simp [Update.pushes, hp]
      rw [one]
      omega

/-- The wrappers that are still at work, when one of them has made an update. -/
structure Made (s s' : State H) (u : Update H) : Prop where
  live : s'.live = s.live
  created : s'.created = s.created
  begun : s'.begun = s.begun
  mem : u ∈ s.threads.flatten
  rest : ∀ v ∈ s'.threads.flatten, v ∈ s.threads.flatten
  pushes : ∀ i, (s.threads.flatten.map (Update.pushes i)).sum =
    u.pushes i + (s'.threads.flatten.map (Update.pushes i)).sum

theorem made_of_threads {before after : List (List (Update H))} {us : List (Update H)}
    (h : s.threads = before ++ (u :: us) :: after) (h' : s'.threads = before ++ us :: after)
    (hlive : s'.live = s.live) (hcreated : s'.created = s.created) (hbegun : s'.begun = s.begun) :
    Made s s' u := by
  refine ⟨hlive, hcreated, hbegun, ?_, fun v hv => ?_, fun i => ?_⟩
  · rw [h]
    simp
  · rw [h'] at hv
    rw [h]
    simp only [List.flatten_append, List.flatten_cons, List.mem_append, List.mem_cons] at hv ⊢
    tauto
  · rw [h, h']
    simp only [List.flatten_append, List.flatten_cons, List.map_append, List.map_cons,
      List.sum_append, List.sum_cons]
    omega

theorem Made.concerned (hm : Made s s' u) : s.Concerned u.request := .inr (.inl ⟨u, hm.mem, rfl⟩)

theorem Tidy.idle (h : Tidy s) (hm : Made s s' u) (htable : s'.table = s.table)
    (howner : s'.owner = s.owner) (hemitted : s'.emitted = s.emitted) : Tidy s' := by
  refine h.call htable howner hemitted hm.created ?_ (fun v hv => .inl (hm.rest v hv)) (fun i => ?_)
  · rw [hm.live]
    exact fun i hi => hi
  · rw [hm.begun, hm.pushes i]
    omega

/-- What an update may do: entries go, entries of its own request come, and a completion is recorded
with an entry under the handle of the request. -/
theorem Tidy.updated (h : Tidy s) (hm : Made s s' u)
    (hids : s.table.nextRequestId ≤ s'.table.nextRequestId)
    (howner : ∀ n ≤ s.table.nextRequestId, s'.owner n = s.owner n)
    (hentries : ∀ e ∈ s'.table.pending ++ s'.table.persistent,
      e ∈ s.table.pending ++ s.table.persistent ∨ (s'.owner e.2.id = some u.request ∧
        u.request.handle = e.1 ∧ u.request.receive = e.2.receive) ∧
        e.2.id ≤ s'.table.nextRequestId)
    (hsaved : ∀ e ∈ s'.table.persistent, e ∈ s.table.persistent ∨
      s'.owner e.2.id = some u.request ∧ u.request.persistent = true)
    (hemitted : ∀ e ∈ s'.emitted, e ∈ s.emitted ∨
      (u.request.handle, e.item) ∈ s.table.pending ∧ e.observed = u.request)
    (hcounted : ∀ i, s'.emitted.countP (fun e => s'.owner e.item.id = some i) +
        s'.table.pending.countP (fun e => s'.owner e.2.id = some i) ≤
      s.emitted.countP (fun e => s.owner e.item.id = some i) +
        s.table.pending.countP (fun e => s.owner e.2.id = some i) + u.pushes i) : Tidy s' := by
  have old : ∀ e ∈ s.table.pending ++ s.table.persistent, s'.owner e.2.id = s.owner e.2.id :=
    fun e he => howner _ (h.ids e he)
  have concerned : ∀ i, s'.Concerned i → s.Concerned i := by
    rintro i (hi | ⟨v, hv, rfl⟩ | ⟨e, he, howned⟩)
    · rw [hm.live] at hi
      exact .inl hi
    · exact .inr (.inl ⟨v, hm.rest v hv, rfl⟩)
    · obtain he | ⟨⟨hnew, -⟩, -⟩ := hentries e he
      · rw [old e he] at howned
        exact .inr (.inr ⟨e, he, howned⟩)
      · obtain rfl := Option.some.inj (hnew.symm.trans howned)
        exact hm.concerned
  have pending : ∀ e ∈ s.table.pending, e ∈ s.table.pending ++ s.table.persistent :=
    fun e he => List.mem_append_left _ he
  refine ⟨fun i hi => ?_, fun e he => ?_, fun e he => ?_, fun e he => ?_, fun e he i hi => ?_,
    fun i j hi hj => h.uniform i j (concerned i hi) (concerned j hj), fun e he => ?_, fun i => ?_⟩
  · rw [hm.live] at hi
    rw [hm.created]
    exact h.numbers i hi
  · obtain he | ⟨-, hle⟩ := hentries e he
    · exact (h.ids e he).trans hids
    · exact hle
  · obtain he | ⟨he, -⟩ := hemitted e he
    · exact (h.emittedIds e he).trans hids
    · exact (h.ids _ (pending _ he)).trans hids
  · obtain he | ⟨hnew, -⟩ := hentries e he
    · rw [old e he]
      exact h.owned e he
    · exact ⟨_, hnew⟩
  · obtain he | ⟨hnew, hp⟩ := hsaved e he
    · rw [old e (List.mem_append_right _ he)] at hi
      exact h.saved e he i hi
    · obtain rfl := Option.some.inj (hnew.symm.trans hi)
      exact hp
  · obtain he | ⟨he, hobserved⟩ := hemitted e he
    · rw [howner _ (h.emittedIds e he)]
      exact h.correct e he
    · obtain ⟨j, hj, hhandle, hreceive⟩ := h.owned _ (pending _ he)
      have same := h.uniform j u.request (.inr (.inr ⟨_, pending _ he, hj⟩)) hm.concerned hhandle
      rw [old _ (pending _ he), hobserved]
      exact ⟨j, hj, same, hreceive.symm.trans same.receive⟩
  · have before := h.counted i
    have fewer := hcounted i
    have pushed := hm.pushes i
    unfold State.load at before ⊢
    rw [hm.begun]
    omega

theorem countP_owner {α : Type} {f : α → Nat} {xs : List α} {owner owner' : Nat → Option (Instance H)}
    (h : ∀ x ∈ xs, owner' (f x) = owner (f x)) (i : Instance H) :
    xs.countP (fun x => owner' (f x) = some i) = xs.countP (fun x => owner (f x) = some i) :=
  List.countP_congr (fun x hx => by rw [h x hx])

theorem Tidy.remembered (h : Tidy s) {peers : Int → Int} {peer tag : Int}
    (hm : Made s s' (.remember i peers peer tag))
    (htable : s'.table = (s.table.remember i.handle i.receive peers peer tag i.persistent).1)
    (howner : s'.owner = fun n =>
      if (s.table.remember i.handle i.receive peers peer tag i.persistent).2 = some n then some i
      else s.owner n)
    (hemitted : s'.emitted = s.emitted) : Tidy s' := by
  by_cases hfull : s.table.requestTrackingLimit ≤
      (if i.persistent = true then s.table.persistent.length else s.table.pending.length)
  · have kept : s.table.remember i.handle i.receive peers peer tag i.persistent = (s.table, none) :=
      if_pos hfull
    rw [kept] at htable howner
    refine h.idle hm htable ?_ hemitted
    rw [howner]
    funext n
    exact if_neg (by simp)
  have given : (s.table.remember i.handle i.receive peers peer tag i.persistent).2 =
      some (s.table.nextRequestId + 1) ∧
      s'.table.nextRequestId = s.table.nextRequestId + 1 ∧
      s'.table.pending = (if i.persistent = true then s.table.pending else s.table.pending ++
        [(i.handle, ⟨s.table.nextRequestId + 1, i.receive, peers, peer, tag, false⟩)]) ∧
      s'.table.persistent = (if i.persistent = true then
        s.table.persistent.filter (fun e => e.1 ≠ i.handle) ++
          [(i.handle, ⟨s.table.nextRequestId + 1, i.receive, peers, peer, tag, true⟩)]
        else s.table.persistent) := by
    rw [htable, RequestTable.remember]
    simp only [if_neg hfull]
    by_cases hp : i.persistent = true
    · simp [hp]
    · simp [hp]
  obtain ⟨hid, hnext, hpending, hpersistent⟩ := given
  have fresh : ∀ n ≤ s.table.nextRequestId, s'.owner n = s.owner n := by
    intro n hn
    rw [howner, hid]
    exact if_neg (fun hsome => by have := Option.some.inj hsome; omega)
  have new : s'.owner (s.table.nextRequestId + 1) = some i := by
    rw [howner, hid]
    exact if_pos rfl
  have emitted : ∀ e ∈ s.emitted, s'.owner e.item.id = s.owner e.item.id :=
    fun e he => fresh _ (h.emittedIds e he)
  have listed : ∀ e ∈ s.table.pending, s'.owner e.2.id = s.owner e.2.id :=
    fun e he => fresh _ (h.ids e (List.mem_append_left _ he))
  by_cases hp : i.persistent = true
  · rw [if_pos hp] at hpending hpersistent
    have saved : ∀ e ∈ s'.table.persistent, e ∈ s.table.persistent ∨
        e = (i.handle, ⟨s.table.nextRequestId + 1, i.receive, peers, peer, tag, true⟩) := by
      intro e he
      rw [hpersistent] at he
      obtain he | he := List.mem_append.mp he
      · exact .inl (List.mem_of_mem_filter he)
      · exact .inr (List.mem_singleton.mp he)
    refine h.updated hm (by omega) fresh (fun e he => ?_) (fun e he => ?_) ?_ (fun k => ?_)
    · obtain he | he := List.mem_append.mp he
      · rw [hpending] at he
        exact .inl (List.mem_append_left _ he)
      · obtain he | rfl := saved e he
        · exact .inl (List.mem_append_right _ he)
        · exact .inr ⟨⟨new, rfl, rfl⟩, hnext.ge⟩
    · obtain he | rfl := saved e he
      · exact .inl he
      · exact .inr ⟨new, hp⟩
    · rw [hemitted]
      exact fun e he => .inl he
    · rw [hemitted, hpending, countP_owner emitted, countP_owner listed]
      exact Nat.le_add_right _ _
  · rw [if_neg hp] at hpending hpersistent
    refine h.updated hm (by omega) fresh (fun e he => ?_) (fun e he => ?_) ?_ (fun k => ?_)
    · obtain he | he := List.mem_append.mp he
      · rw [hpending] at he
        obtain he | he := List.mem_append.mp he
        · exact .inl (List.mem_append_left _ he)
        · obtain rfl := List.mem_singleton.mp he
          exact .inr ⟨⟨new, rfl, rfl⟩, hnext.ge⟩
      · rw [hpersistent] at he
        exact .inl (List.mem_append_right _ he)
    · rw [hpersistent] at he
      exact .inl he
    · rw [hemitted]
      exact fun e he => .inl he
    · rw [hemitted, hpending, List.countP_append, countP_owner emitted, countP_owner listed]
      have pushed : Update.pushes k (.remember i peers peer tag) = if i = k then 1 else 0 := by
        simp [Update.pushes, hp]
      rw [pushed, List.countP_singleton]
      simp only [new, Option.some.injEq, decide_eq_true_eq]
      omega

theorem Tidy.started (h : Tidy s) (hm : Made s s' (.start i))
    (htable : s'.table = s.table.startPersistent i.handle) (howner : s'.owner = s.owner)
    (hemitted : s'.emitted = s.emitted) : Tidy s' := by
  unfold RequestTable.startPersistent at htable
  split at htable
  · exact h.idle hm htable howner hemitted
  · next key saved hfind =>
    split at htable
    · exact h.idle hm htable howner hemitted
    · have mem : (key, saved) ∈ s.table.persistent := List.mem_of_find?_eq_some hfind
      obtain rfl : key = i.handle := by simpa using List.find?_some hfind
      have listed : (i.handle, saved) ∈ s.table.pending ++ s.table.persistent :=
        List.mem_append_right _ mem
      obtain ⟨j, hj, hhandle, hreceive⟩ := h.owned _ listed
      have own : j = i := by
        obtain same | ⟨-, -, hp, -⟩ :=
          h.uniform j i (.inr (.inr ⟨_, listed, hj⟩)) hm.concerned hhandle
        · exact same
        · exact absurd (h.saved _ mem j hj) (by simp [hp])
      subst own
      have pending := congrArg RequestTable.pending htable
      have persistent := congrArg RequestTable.persistent htable
      have next := congrArg RequestTable.nextRequestId htable
      refine h.updated hm next.ge (fun n _ => by rw [howner]) (fun e he => ?_) (fun e he => ?_) ?_
        (fun k => ?_)
      · obtain he | he := List.mem_append.mp he
        · rw [pending] at he
          obtain he | he := List.mem_append.mp he
          · exact .inl (List.mem_append_left _ he)
          · obtain rfl := List.mem_singleton.mp he
            rw [howner, next]
            exact .inr ⟨⟨hj, rfl, hreceive⟩, h.ids (j.handle, saved) listed⟩
        · rw [persistent] at he
          exact .inl (List.mem_append_right _ he)
      · rw [persistent] at he
        exact .inl he
      · rw [hemitted]
        exact fun e he => .inl he
      · rw [hemitted, howner, pending, List.countP_append, List.countP_singleton]
        have pushed : Update.pushes k (.start j) = if j = k then 1 else 0 := rfl
        rw [pushed]
        simp only [hj, Option.some.injEq, decide_eq_true_eq]
        omega

theorem countP_eraseP {α : Type} {p q : α → Bool} {xs : List α} {x : α}
    (h : xs.find? p = some x) :
    xs.countP q = (xs.eraseP p).countP q + if q x = true then 1 else 0 := by
  induction xs with
  | nil => exact nomatch h
  | cons y xs ih =>
    rw [List.find?_cons] at h
    split at h
    · next hp =>
      obtain rfl := Option.some.inj h
      rw [List.eraseP_cons_of_pos hp, List.countP_cons]
    · next hp =>
      rw [List.eraseP_cons_of_neg (by simp [hp]), List.countP_cons, List.countP_cons, ih h]
      omega

theorem Tidy.completed (h : Tidy s) {status : MpiStatus} {now : Nat}
    (hm : Made s s' (.complete i status now))
    (happly : (s.table.takeFront i.handle = none ∧ s'.table = s.table ∧ s'.emitted = s.emitted) ∨
      ∃ item table, s.table.takeFront i.handle = some (item, table) ∧ s'.table = table ∧
        s'.emitted = s.emitted ++ [⟨i, item, status, now⟩])
    (howner : s'.owner = s.owner) : Tidy s' := by
  obtain ⟨-, htable, hemitted⟩ | ⟨item, table, htake, htable, hemitted⟩ := happly
  · exact h.idle hm htable howner hemitted
  unfold RequestTable.takeFront at htake
  split at htake
  · exact nomatch htake
  · next key front hfind =>
    obtain ⟨rfl, rfl⟩ := Prod.mk.inj (Option.some.inj htake)
    have mem : (key, front) ∈ s.table.pending := List.mem_of_find?_eq_some hfind
    obtain rfl : key = i.handle := by simpa using List.find?_some hfind
    have pending := congrArg RequestTable.pending htable
    have persistent := congrArg RequestTable.persistent htable
    have next := congrArg RequestTable.nextRequestId htable
    refine h.updated hm next.ge (fun n _ => by rw [howner]) (fun e he => ?_) (fun e he => ?_)
      (fun e he => ?_) (fun k => ?_)
    · obtain he | he := List.mem_append.mp he
      · rw [pending] at he
        exact .inl (List.mem_append_left _ (List.mem_of_mem_eraseP he))
      · rw [persistent] at he
        exact .inl (List.mem_append_right _ he)
    · rw [persistent] at he
      exact .inl he
    · rw [hemitted] at he
      obtain he | he := List.mem_append.mp he
      · exact .inl he
      · obtain rfl := List.mem_singleton.mp he
        exact .inr ⟨mem, rfl⟩
    · have taken := @countP_eraseP _ _ (fun e => decide (s.owner e.2.id = some k)) _ _ hfind
      rw [hemitted, howner, pending, List.countP_append, List.countP_singleton, taken]
      dsimp only
      omega

theorem Tidy.forgotten (h : Tidy s) (hm : Made s s' (.forget i))
    (htable : s'.table = s.table.forgetRequest i.handle) (howner : s'.owner = s.owner)
    (hemitted : s'.emitted = s.emitted) : Tidy s' := by
  have pending : s'.table.pending = s.table.pending.filter (fun e => e.1 ≠ i.handle) :=
    congrArg RequestTable.pending htable
  have persistent : s'.table.persistent = s.table.persistent.filter (fun e => e.1 ≠ i.handle) :=
    congrArg RequestTable.persistent htable
  have next : s'.table.nextRequestId = s.table.nextRequestId :=
    (congrArg RequestTable.nextRequestId htable).trans rfl
  refine h.updated hm next.ge (fun n _ => by rw [howner]) (fun e he => ?_) (fun e he => ?_) ?_
    (fun k => ?_)
  · obtain he | he := List.mem_append.mp he
    · rw [pending] at he
      exact .inl (List.mem_append_left _ (List.mem_of_mem_filter he))
    · rw [persistent] at he
      exact .inl (List.mem_append_right _ (List.mem_of_mem_filter he))
  · rw [persistent] at he
    exact .inl (List.mem_of_mem_filter he)
  · rw [hemitted]
    exact fun e he => .inl he
  · rw [hemitted, howner, pending]
    have fewer := (List.filter_sublist (p := fun e : H × Pending => e.1 ≠ i.handle)
      (l := s.table.pending)).countP_le (p := fun e => decide (s.owner e.2.id = some k))
    omega

theorem pushes_starts (is : List (Instance H)) :
    ((is.map Update.start).map (Update.pushes i)).sum = is.count i := by
  induction is with
  | nil => rfl
  | cons j is ih =>
    rw [List.map_cons, List.map_cons, List.sum_cons, ih, List.count_cons]
    have one : Update.pushes i (.start j) = if (j == i) = true then 1 else 0 := by
      simp [Update.pushes]
    rw [one]
    omega

omit [DecidableEq H] in
theorem completion_of_mem {requests : List (Option (Instance H))} {items : List Nat}
    {statuses : Nat → MpiStatus} {now : Nat} (h : u ∈ completions requests items statuses now) :
    ∃ j status, some j ∈ requests ∧ u = .complete j status now := by
  obtain ⟨item, -, h⟩ := List.mem_filterMap.mp h
  cases hget : requests[item]?.join with
  | none => simp [hget] at h
  | some j =>
    rw [hget] at h
    exact ⟨j, statuses item, List.mem_of_getElem? (Option.join_eq_some_iff.mp hget),
      (Option.some.inj h).symm⟩

theorem pushes_completions {requests : List (Option (Instance H))} {items : List Nat}
    {statuses : Nat → MpiStatus} {now : Nat} (i : Instance H) :
    ((completions requests items statuses now).map (Update.pushes i)).sum = 0 := by
  refine List.sum_eq_zero (fun n hn => ?_)
  obtain ⟨u, hu, rfl⟩ := List.mem_map.mp hn
  obtain ⟨j, status, -, rfl⟩ := completion_of_mem hu
  rfl

theorem Tidy.step (h : Tidy s) (hs : Step s s') (hc : Apart s s') : Tidy s' := by
  cases hs with
  | create i peers peer tag hnumber hhandle =>
    have unused : i ∉ s.live := fun hi => absurd (h.numbers i hi) (by omega)
    refine h.create rfl rfl rfl rfl rfl rfl rfl hnumber (fun j hj hji => ?_)
    obtain hj | hj := hj
    · exact hhandle j hj hji
    · exact hc i List.mem_cons_self unused j hj hji
  | start is _ hlegal =>
    refine h.call rfl rfl rfl rfl (fun i hi => hi) (fun u hu => ?_) (fun i => ?_)
    · obtain hu | hu := List.mem_append.mp hu
      · obtain ⟨i, hi, rfl⟩ := List.mem_map.mp hu
        exact .inr (hlegal i hi).1
      · exact .inl hu
    · rw [List.flatten_cons, List.map_append, List.sum_append, pushes_starts, List.count_append]
      omega
  | complete call requests r statuses now failed hlegal _ =>
    refine h.call rfl rfl rfl rfl (fun i hi => List.mem_of_mem_filter hi) (fun u hu => ?_)
      (fun i => ?_)
    · obtain hu | hu := List.mem_append.mp hu
      · obtain ⟨j, status, hj, rfl⟩ := completion_of_mem hu
        exact .inr (hlegal j hj).1
      · exact .inl hu
    · rw [List.flatten_cons, List.map_append, List.sum_append, pushes_completions]
      exact (congrArg (· + _) (Nat.zero_add _)).le
  | free i hlive _ =>
    refine h.call rfl rfl rfl rfl (fun j hj => List.mem_of_mem_filter hj) (fun u hu => ?_)
      (fun j => ?_)
    · obtain rfl | hu := List.mem_cons.mp hu
      · exact .inr hlive
      · exact .inl hu
    · exact (congrArg (· + _) (Nat.zero_add _)).le
  | @update before after u us hthreads =>
    cases u with
    | remember i peers peer tag =>
      exact h.remembered (made_of_threads hthreads rfl rfl rfl rfl) rfl rfl rfl
    | start i => exact h.started (made_of_threads hthreads rfl rfl rfl rfl) rfl rfl rfl
    | complete i status now =>
      rw [State.apply]
      cases htake : s.table.takeFront i.handle with
      | none => exact h.completed (made_of_threads hthreads rfl rfl rfl rfl) (.inl ⟨htake, rfl, rfl⟩) rfl
      | some taken =>
        exact h.completed (made_of_threads hthreads rfl rfl rfl rfl)
          (.inr ⟨taken.1, taken.2, htake, rfl, rfl⟩) rfl
    | forget i => exact h.forgotten (made_of_threads hthreads rfl rfl rfl rfl) rfl rfl rfl
  | thrown hthreads => exact h.idle (made_of_threads hthreads rfl rfl rfl rfl) rfl rfl rfl

theorem tidy_initial (requestTrackingLimit : Nat) :
    Tidy (.initial requestTrackingLimit : State H) := by
  refine ⟨nofun, nofun, fun e he => absurd he List.not_mem_nil, nofun, nofun, ?_,
    fun e he => absurd he List.not_mem_nil, fun i => Nat.le_refl 0⟩
  rintro i j (hi | ⟨u, hu, -⟩ | ⟨e, he, -⟩) - -
  · exact absurd hi List.not_mem_nil
  · exact absurd hu List.not_mem_nil
  · exact absurd he List.not_mem_nil

theorem Runs.tidy (h : Runs Apart s) : Tidy s := by
  induction h with
  | start limit => exact tidy_initial limit
  | step _ hs hc ih => exact ih.step hs hc

/-- Each completion that is recorded has the id and the direction of the request that was observed to
be complete, and no request has more of them than starts. -/
structure Faithful (procNull : Int) (s : State H) : Prop where
  identity : ∀ e ∈ s.emitted, ∃ id : Nat, (e.call.call procNull).requestId = id ∧
    ∃ i, s.owner id = some i ∧ Indistinguishable i e.observed ∧
      (e.call.call procNull).operation =
        if e.observed.receive = true then "MPI_Irecv_complete" else "MPI_Isend_complete"
  once : ∀ i, s.emitted.countP (fun e => s.owner e.item.id = some i) ≤ s.begun.count i

/-- No request is taken for another one in a run that gives out a handle only when the table has done
with it. -/
theorem identity_kept (procNull : Int) (h : Runs Apart s) : Faithful procNull s := by
  have tidy := h.tidy
  refine ⟨fun e he => ?_, fun i => ?_⟩
  · obtain ⟨i, howner, same, hreceive⟩ := tidy.correct e he
    refine ⟨e.item.id, rfl, i, howner, same, ?_⟩
    rw [← hreceive]
    rfl
  · have counted := tidy.counted i
    unfold State.load at counted
    omega

end identity

section reuse

theorem Step.head {H : Type} [DecidableEq H] {s : State H} {u : Update H} {us : List (Update H)}
    {rest : List (List (Update H))} (h : s.threads = (u :: us) :: rest) :
    Step s { s.apply u with threads := us :: rest } :=
  @Step.update _ _ _ [] rest u us h

theorem apart_of_live {H : Type} [DecidableEq H] {s s' : State H} (h : ∀ i ∈ s'.live, i ∈ s.live) :
    Apart s s' :=
  fun i hi hnew => absurd (h i hi) hnew

theorem apart_of_release {H : Type} [DecidableEq H] {s : State H} {done : List (Instance H)}
    {threads : List (List (Update H))} : Apart s { s.release done with threads := threads } :=
  apart_of_live (fun i (hi : i ∈ s.live.filter _) => List.mem_of_mem_filter hi)

def received : Instance Unit := ⟨0, (), true, false, false⟩

def resent : Instance Unit := ⟨1, (), false, false, false⟩

def ended : Returned := ⟨.success, true, none, none, [], [true]⟩

def refusedWait : Returned := ⟨.other, true, none, none, [], [false]⟩

theorem identity_kept_received : ∃ s : State Unit, s.emitted.length = 1 ∧ Faithful (-2) s := by
  have created := (Runs.start 8 : Runs Apart (.initial 8 : State Unit)).step
    (.create received id 0 7 rfl (fun j hj => absurd hj List.not_mem_nil))
    (fun i _ _ j hj => by
      obtain ⟨u, hu, -⟩ | ⟨e, he, -⟩ := hj
      · exact absurd hu List.not_mem_nil
      · exact absurd he List.not_mem_nil)
  have remembered := created.step (.head rfl) (apart_of_live (fun _ h => h))
  have waited := remembered.step (.complete .wait [some received] ended
    (fun _ => ⟨0, 7, 4, false⟩) 5 [] (fun i hi => by
      obtain rfl := Option.some.inj (List.mem_singleton.mp hi)
      exact ⟨List.mem_cons_self, fun u hu => absurd hu List.not_mem_nil⟩)
    (fun i hi => absurd hi List.not_mem_nil)) apart_of_release
  have completed := waited.step (.head rfl) (apart_of_live (fun _ h => h))
  exact ⟨_, rfl, identity_kept (-2) completed⟩

/-- A receive that ends in an error leaves its entry behind, and a send with its handle is recorded as
this receive. -/
theorem reuse_confused : ¬ ∀ s : State Unit, Runs (fun _ _ => True) s → Faithful (-2) s := by
  intro h
  have posted := (Runs.start 8 : Runs (fun _ _ => True) (.initial 8 : State Unit)).step
    (.create received id 0 7 rfl (fun j hj => absurd hj List.not_mem_nil)) trivial
  have listed := posted.step (.head rfl) trivial
  have failed := listed.step (.complete .wait [some received] refusedWait
    (fun _ => ⟨0, 7, 4, false⟩) 5 [received] (fun i hi => by
      obtain rfl := Option.some.inj (List.mem_singleton.mp hi)
      exact ⟨List.mem_cons_self, fun u hu => absurd hu List.not_mem_nil⟩)
    (fun i hi => by
      obtain rfl := List.mem_singleton.mp hi
      exact List.mem_cons_self)) trivial
  have reissued := failed.step
    (.create resent id 0 7 rfl (fun j hj => absurd hj List.not_mem_nil)) trivial
  have pushed := reissued.step (.head rfl) trivial
  have waited := pushed.step (.complete .wait [some resent] ended
    (fun _ => ⟨0, 7, 4, false⟩) 9 [] (fun i hi => by
      obtain rfl := Option.some.inj (List.mem_singleton.mp hi)
      exact ⟨List.mem_cons_self, fun u hu => absurd hu List.not_mem_nil⟩)
    (fun i hi => absurd hi List.not_mem_nil)) trivial
  have completed := waited.step (.head rfl) trivial
  obtain ⟨n, -, i, -, -, hname⟩ := (h _ completed).identity _ List.mem_cons_self
  exact absurd hname (by decide)

end reuse

end Requests

end RankLens
