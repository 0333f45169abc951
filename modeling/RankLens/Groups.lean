import RankLens.Custody
import RankLens.Requests

namespace RankLens

open Custody

/-- An entry of the request table, with the handle of its group. -/
structure Grouped extends Pending where
  group : Nat

/-- The maps `pending` and `persistent` with the handles of the groups, and what was done with
those. The handles are numbered in the order in which MPI gives them out. -/
structure GroupTable (H : Type) where
  pending : List (H × Grouped)
  persistent : List (H × Grouped)
  nextRequestId : Nat
  requestTrackingLimit : Nat
  obtained : Nat
  uses : List (Use Nat)

namespace GroupTable

variable {H : Type}

/-- The groups of the entries that are not persistent. -/
def ordinary (entries : List (H × Grouped)) : List Nat :=
  (entries.filter (fun e => !e.2.persistent)).map (fun e => e.2.group)

def groupsOf (entries : List (H × Grouped)) : List Nat := entries.map (fun e => e.2.group)

/-- The groups that are still to be freed. -/
def owned (self : GroupTable H) : List Nat := ordinary self.pending ++ groupsOf self.persistent

/-- The request table without the handles of the groups. -/
def plain (self : GroupTable H) : RequestTable H :=
  ⟨self.pending.map (fun e => (e.1, e.2.toPending)),
    self.persistent.map (fun e => (e.1, e.2.toPending)), self.nextRequestId,
    self.requestTrackingLimit⟩

/-- `MPI_Finalize`, before it calls `PMPI_Finalize`. The loops go over the entries of the two maps
in the order of their keys. -/
def finalize (self : GroupTable H) (entries saved : List (H × Grouped)) : GroupTable H :=
  { self with
    pending := []
    persistent := []
    uses := self.uses ++ (ordinary entries ++ groupsOf saved).map .free }

variable [DecidableEq H]

/-- `remember`. There is no key for `MPI_REQUEST_NULL`. -/
def remember (self : GroupTable H) (request : Option H) (receive : Bool) (peers : Int → Int)
    (peer tag : Int) (persistentRequest : Bool) : GroupTable H × Option Nat :=
  match request with
  | none => (self, none)
  | some key =>
    let currentSize := if persistentRequest then self.persistent.length else self.pending.length
    if self.requestTrackingLimit ≤ currentSize then (self, none)
    else
      let group := self.obtained
      let id := self.nextRequestId + 1
      if persistentRequest then
        let previous := self.persistent.filter (fun e => e.1 = key)
        ({ self with
          nextRequestId := id
          persistent := self.persistent.filter (fun e => e.1 ≠ key) ++
            [(key, ⟨⟨id, receive, peers, peer, tag, true⟩, group⟩)]
          obtained := group + 1
          uses := self.uses ++ [.obtain group] ++ (groupsOf previous).map .free }, some id)
      else
        ({ self with
          nextRequestId := id
          pending := self.pending ++ [(key, ⟨⟨id, receive, peers, peer, tag, false⟩, group⟩)]
          obtained := group + 1
          uses := self.uses ++ [.obtain group] }, some id)

def forgetRequest (self : GroupTable H) : Option H → GroupTable H
  | none => self
  | some key =>
    let found := self.pending.filter (fun e => e.1 = key)
    let saved := self.persistent.filter (fun e => e.1 = key)
    { self with
      pending := self.pending.filter (fun e => e.1 ≠ key)
      persistent := self.persistent.filter (fun e => e.1 ≠ key)
      uses := self.uses ++ (ordinary found ++ groupsOf saved).map .free }

def startPersistent (self : GroupTable H) : Option H → GroupTable H
  | none => self
  | some key =>
    match self.persistent.find? (fun e => e.1 = key) with
    | none => self
    | some (_, saved) =>
      if self.requestTrackingLimit ≤ self.pending.length then self
      else { self with pending := self.pending ++ [(key, { saved with persistent := true })] }

/-- `complete_request`, as far as the groups go. It obtains the group of `MPI_COMM_WORLD` when it
translates a rank. -/
def completeRequest (self : GroupTable H) (key : H) (status : MpiStatus) : GroupTable H :=
  match self.pending.find? (fun e => e.1 = key) with
  | none => self
  | some (_, item) =>
    let peer := if item.receive then status.source else item.peer
    let world := self.obtained
    { self with
      pending := self.pending.eraseP (fun e => e.1 = key)
      obtained := if 0 ≤ peer then world + 1 else world
      uses := self.uses ++
        (if 0 ≤ peer then [.obtain world, .touch item.group, .touch world, .free world] else []) ++
        (if item.persistent then [] else [.free item.group]) }

section plain

variable {self : GroupTable H} {key : H}

omit [DecidableEq H] in
theorem plain_filter (p : H → Bool) (entries : List (H × Grouped)) :
    (entries.filter (fun e => p e.1)).map (fun e => (e.1, e.2.toPending)) =
      (entries.map (fun e => (e.1, e.2.toPending))).filter (fun e => p e.1) := by
  rw [List.filter_map]
  rfl

theorem plain_find (key : H) (entries : List (H × Grouped)) :
    (entries.map (fun e => (e.1, e.2.toPending))).find? (fun e => e.1 = key) =
      (entries.find? (fun e => e.1 = key)).map (fun e => (e.1, e.2.toPending)) := by
  rw [List.find?_map]
  rfl

theorem plain_remember (self : GroupTable H) (key : H) (receive : Bool) (peers : Int → Int)
    (peer tag : Int) (persistentRequest : Bool) :
    ((self.remember (some key) receive peers peer tag persistentRequest).1.plain,
      (self.remember (some key) receive peers peer tag persistentRequest).2) =
        self.plain.remember key receive peers peer tag persistentRequest := by
  cases persistentRequest with
  | true =>
    by_cases h : self.requestTrackingLimit ≤ self.persistent.length
    · simp only [remember, RequestTable.remember, plain, if_true, List.length_map, if_pos h]
    · have kept := plain_filter (fun k => decide (k ≠ key)) self.persistent
      simp only [remember, RequestTable.remember, plain, if_true, List.length_map, if_neg h,
        List.map_append, kept, List.map_singleton]
  | false =>
    by_cases h : self.requestTrackingLimit ≤ self.pending.length
    · simp only [remember, RequestTable.remember, plain, Bool.false_eq_true, if_false,
        List.length_map, if_pos h]
    · simp only [remember, RequestTable.remember, plain, Bool.false_eq_true, if_false,
        List.length_map, if_neg h, List.map_append, List.map_singleton]

theorem plain_forgetRequest (self : GroupTable H) (key : H) :
    (self.forgetRequest (some key)).plain = self.plain.forgetRequest key := by
  have pending := plain_filter (fun k => decide (k ≠ key)) self.pending
  have persistent := plain_filter (fun k => decide (k ≠ key)) self.persistent
  unfold forgetRequest RequestTable.forgetRequest plain
  dsimp only
  rw [pending, persistent]

theorem plain_startPersistent (self : GroupTable H) (key : H) :
    (self.startPersistent (some key)).plain = self.plain.startPersistent key := by
  unfold startPersistent RequestTable.startPersistent plain
  dsimp only
  rw [plain_find, List.length_map]
  cases self.persistent.find? (fun e => decide (e.1 = key)) with
  | none => rfl
  | some e =>
    dsimp only [Option.map_some]
    split
    · rfl
    · rw [List.map_append]
      rfl

theorem plain_completeRequest (self : GroupTable H) (key : H) (status : MpiStatus) :
    (self.completeRequest key status).plain =
      match self.plain.takeFront key with
      | none => self.plain
      | some (_, table) => table := by
  unfold completeRequest RequestTable.takeFront plain
  dsimp only
  rw [plain_find]
  cases self.pending.find? (fun e => decide (e.1 = key)) with
  | none => rfl
  | some e =>
    dsimp only [Option.map_some]
    rw [List.eraseP_map]
    rfl

end plain

section kept

variable {self : GroupTable H} {key : H} {entries others : List (H × Grouped)}

omit [DecidableEq H] in
theorem ordinary_append (entries others : List (H × Grouped)) :
    ordinary (entries ++ others) = ordinary entries ++ ordinary others := by
  rw [ordinary, List.filter_append, List.map_append]
  rfl

omit [DecidableEq H] in
theorem groupsOf_append (entries others : List (H × Grouped)) :
    groupsOf (entries ++ others) = groupsOf entries ++ groupsOf others := List.map_append

omit [DecidableEq H] in
theorem ordinary_perm (h : entries.Perm others) : (ordinary entries).Perm (ordinary others) :=
  (h.filter _).map _

omit [DecidableEq H] in
theorem groupsOf_perm (h : entries.Perm others) : (groupsOf entries).Perm (groupsOf others) :=
  h.map _

/-- The groups of the tables are owned once each, and the tables are bounded. -/
structure Kept (t : GroupTable H) : Prop where
  holds : Custody.Holds t.uses t.owned
  numbered : Numbered t.obtained t.uses
  aliased : ∀ e ∈ t.pending, e.2.persistent = true →
    ∃ saved ∈ t.persistent, saved.1 = e.1 ∧ saved.2.group = e.2.group
  pendingBound : t.pending.length ≤ t.requestTrackingLimit
  persistentBound : t.persistent.length ≤ t.requestTrackingLimit

theorem Kept.remember (h : self.Kept) {request : Option H} {receive : Bool} {peers : Int → Int}
    {peer tag : Int} {persistentRequest : Bool} (hkey : persistentRequest = true →
      ∀ e ∈ self.persistent, ∀ key, request = some key → e.1 ≠ key) :
    (self.remember request receive peers peer tag persistentRequest).1.Kept := by
  cases request with
  | none => exact h
  | some key =>
    have obtained := h.holds.obtained self.obtained
    unfold GroupTable.remember
    cases persistentRequest with
    | true =>
      simp only [if_true]
      split
      · exact h
      · next hroom =>
        have other := fun e he => hkey rfl e he key rfl
        have none : self.persistent.filter (fun e => e.1 = key) = [] :=
          List.filter_eq_nil_iff.mpr (fun e he => by simpa using other e he)
        have all : self.persistent.filter (fun e => e.1 ≠ key) = self.persistent :=
          List.filter_eq_self.mpr (fun e he => by simpa using other e he)
        rw [none, all, groupsOf, List.map_nil, List.map_nil, List.append_nil]
        refine ⟨obtained.perm ?_, h.numbered.obtained, fun e he hpersistent => ?_, h.pendingBound,
          ?_⟩
        · show (_ :: self.owned).Perm (ordinary self.pending ++ groupsOf (self.persistent ++ [_]))
          rw [groupsOf_append, ← List.append_assoc]
          exact (List.perm_append_singleton _ _).symm
        · obtain ⟨saved, hsaved, hsame⟩ := h.aliased e he hpersistent
          exact ⟨saved, List.mem_append_left _ hsaved, hsame⟩
        · rw [List.length_append, List.length_singleton]
          exact not_le.mp hroom
    | false =>
      simp only [Bool.false_eq_true, if_false]
      split
      · exact h
      · next hroom =>
        refine ⟨obtained.perm ?_, h.numbered.obtained, fun e he hpersistent => ?_, ?_,
          h.persistentBound⟩
        · show (_ :: self.owned).Perm (ordinary (self.pending ++ [_]) ++ groupsOf self.persistent)
          rw [ordinary_append, List.append_assoc]
          exact List.perm_middle.symm
        · obtain he | he := List.mem_append.mp he
          · exact h.aliased e he hpersistent
          · obtain rfl := List.mem_singleton.mp he
            exact absurd hpersistent (by simp)
        · rw [List.length_append, List.length_singleton]
          exact not_le.mp hroom

theorem Kept.forgetRequest (h : self.Kept) (request : Option H) :
    (self.forgetRequest request).Kept := by
  cases request with
  | none => exact h
  | some key =>
    have apart : ∀ entries : List (H × Grouped), (entries.filter (fun e => e.1 = key) ++
        entries.filter (fun e => e.1 ≠ key)).Perm entries := by
      intro entries
      have split := List.filter_append_perm (fun e => decide (e.1 = key)) entries
      simpa using split
    refine ⟨Custody.Holds.allFreed (h.holds.perm ?_), h.numbered.allFreed _,
      fun e he hpersistent => ?_,
      (List.length_filter_le _ _).trans h.pendingBound,
      (List.length_filter_le _ _).trans h.persistentBound⟩
    · have pending := ordinary_perm (apart self.pending)
      have persistent := groupsOf_perm (apart self.persistent)
      rw [ordinary_append] at pending
      rw [groupsOf_append] at persistent
      refine (pending.append persistent).symm.trans ?_
      show (_ ++ ordinary _ ++ (_ ++ groupsOf _)).Perm (_ ++ _ ++ (ordinary _ ++ groupsOf _))
      rw [List.append_assoc, List.append_assoc]
      refine List.Perm.append_left _ ?_
      rw [← List.append_assoc, ← List.append_assoc]
      exact List.Perm.append_right _ List.perm_append_comm
    · obtain ⟨hmem, hkey⟩ := List.mem_filter.mp he
      obtain ⟨saved, hsaved, hsame, hgroup⟩ := h.aliased e hmem hpersistent
      refine ⟨saved, List.mem_filter.mpr ⟨hsaved, ?_⟩, hsame, hgroup⟩
      rw [hsame]
      exact hkey

theorem Kept.startPersistent (h : self.Kept) (request : Option H) :
    (self.startPersistent request).Kept := by
  cases request with
  | none => exact h
  | some key =>
    unfold GroupTable.startPersistent
    dsimp only
    split
    · exact h
    · next key' saved hfind =>
      split
      · exact h
      · next hroom =>
        have mem : (key', saved) ∈ self.persistent := List.mem_of_find?_eq_some hfind
        obtain rfl : key' = key := by simpa using List.find?_some hfind
        refine ⟨?_, h.numbered, fun e he hpersistent => ?_, ?_, h.persistentBound⟩
        · show Custody.Holds self.uses (ordinary (self.pending ++ [_]) ++ groupsOf self.persistent)
          rw [ordinary_append]
          have none : ordinary [(key', { saved with persistent := true })] = [] := rfl
          rw [none, List.append_nil]
          exact h.holds
        · obtain he | he := List.mem_append.mp he
          · exact h.aliased e he hpersistent
          · obtain rfl := List.mem_singleton.mp he
            exact ⟨(key', saved), mem, rfl, rfl⟩
        · rw [List.length_append, List.length_singleton]
          exact not_le.mp hroom

omit [DecidableEq H] in
theorem eraseP_perm {p : H × Grouped → Bool} {e : H × Grouped} (h : entries.find? p = some e) :
    entries.Perm (e :: entries.eraseP p) := by
  obtain ⟨hp, before, after, rfl, hbefore⟩ := List.find?_eq_some_iff_append.mp h
  have skipped : ∀ b ∈ before, ¬p b = true := fun b hb => by simpa using hbefore b hb
  rw [List.eraseP_append_right _ skipped, List.eraseP_cons_of_pos hp]
  exact List.perm_middle

theorem Kept.completeRequest (h : self.Kept) (key : H) (status : MpiStatus) :
    (self.completeRequest key status).Kept := by
  unfold GroupTable.completeRequest
  split
  · exact h
  · next key' item hfind =>
    have mem : (key', item) ∈ self.pending := List.mem_of_find?_eq_some hfind
    have perm := eraseP_perm hfind
    -- the group of the entry is owned by the entry itself or by the saved one
    have held : item.group ∈ self.owned := by
      cases hpersistent : item.persistent with
      | true =>
        obtain ⟨saved, hsaved, -, hgroup⟩ := h.aliased _ mem hpersistent
        refine List.mem_append_right _ ?_
        rw [← hgroup]
        exact List.mem_map_of_mem hsaved
      | false =>
        refine List.mem_append_left _ (List.mem_map_of_mem (f := fun e => e.2.group)
          (List.mem_filter.mpr ⟨mem, ?_⟩))
        simp only [hpersistent, Bool.not_false]
    have translated : ∀ peer : Int, Custody.Holds (self.uses ++ (if 0 ≤ peer then
          [.obtain self.obtained, .touch item.group, .touch self.obtained, .free self.obtained]
        else [])) self.owned ∧
        Numbered (if 0 ≤ peer then self.obtained + 1 else self.obtained) (self.uses ++
          (if 0 ≤ peer then
            [.obtain self.obtained, .touch item.group, .touch self.obtained, .free self.obtained]
          else [])) := by
      intro peer
      split
      · have world := ((h.holds.obtained self.obtained).touched
          (List.mem_cons_of_mem _ held)).touched List.mem_cons_self
        have numbered : Numbered (self.obtained + 1) (self.uses ++ [.obtain self.obtained] ++
            [.touch item.group, .touch self.obtained, .free self.obtained]) :=
          h.numbered.obtained.used (fun a => by simp)
        refine ⟨?_, ?_⟩
        · have freed := world.freed
          simpa only [List.append_assoc, List.cons_append, List.nil_append] using freed
        · simpa only [List.append_assoc, List.cons_append, List.nil_append] using numbered
      · rw [List.append_nil]
        exact ⟨h.holds, h.numbered⟩
    obtain ⟨holds, numbered⟩ :=
      translated (if item.receive = true then status.source else item.peer)
    refine ⟨?_, ?_, fun e he => h.aliased e (List.mem_of_mem_eraseP he),
      (List.length_eraseP_le).trans h.pendingBound, h.persistentBound⟩
    · have order := ordinary_perm perm
      cases hpersistent : item.persistent with
      | true =>
        have same : ordinary ((key', item) :: self.pending.eraseP (fun e => decide (e.1 = key))) =
            ordinary (self.pending.eraseP (fun e => decide (e.1 = key))) := by
          unfold ordinary
          rw [List.filter_cons_of_neg (by simp [hpersistent])]
        rw [same] at order
        simp only [if_true, List.append_nil]
        exact holds.perm (order.append_right _)
      | false =>
        have more : ordinary ((key', item) :: self.pending.eraseP (fun e => decide (e.1 = key))) =
            item.group :: ordinary (self.pending.eraseP (fun e => decide (e.1 = key))) := by
          unfold ordinary
          rw [List.filter_cons_of_pos (by simp [hpersistent]), List.map_cons]
        rw [more] at order
        simp only [Bool.false_eq_true, if_false]
        exact (holds.perm (order.append_right _)).freed
    · refine numbered.used (fun a => ?_)
      split <;> simp

omit [DecidableEq H] in
theorem Kept.finalize (h : self.Kept) {entries saved : List (H × Grouped)}
    (hentries : entries.Perm self.pending) (hsaved : saved.Perm self.persistent) :
    (self.finalize entries saved).Kept := by
  refine ⟨Custody.Holds.allFreed (h.holds.perm ?_), h.numbered.allFreed _, fun e he => (nomatch he),
    Nat.zero_le _, Nat.zero_le _⟩
  show (ordinary self.pending ++ groupsOf self.persistent).Perm (_ ++ [])
  rw [List.append_nil]
  exact ((ordinary_perm hentries).append (groupsOf_perm hsaved)).symm

end kept

end GroupTable

namespace Groups

open Requests

section runs

variable (H : Type)

/-- A process with one thread: its requests, the tables, and what the wrapper call it is in still
has to do to them. -/
structure State where
  table : GroupTable H
  live : List (Instance H)
  active : List (Instance H)
  created : Nat
  todo : List (Update H)
  finalized : Bool

variable {H} [DecidableEq H]

def State.apply (s : State H) : Update H → State H
  | .remember i peers peer tag => { s with
      table := (s.table.remember (some i.handle) i.receive peers peer tag i.persistent).1 }
  | .start i => { s with table := s.table.startPersistent (some i.handle) }
  | .complete i status _ => { s with table := s.table.completeRequest i.handle status }
  | .forget i => { s with table := s.table.forgetRequest (some i.handle) }

def State.initial (requestTrackingLimit : Nat) : State H :=
  ⟨⟨[], [], 0, requestTrackingLimit, 0, []⟩, [], [], 0, [], false⟩

/-- An update does to the tables what it does to the table without groups. -/
theorem apply_plain {s : State H} {r : Requests.State H} {u : Update H}
    (h : s.table.plain = r.table) : (s.apply u).table.plain = (r.apply u).table := by
  cases u with
  | remember i peers peer tag =>
    have same := GroupTable.plain_remember s.table i.handle i.receive peers peer tag i.persistent
    rw [h] at same
    exact congrArg Prod.fst same
  | start i =>
    have same := GroupTable.plain_startPersistent s.table i.handle
    rwa [h] at same
  | complete i status now =>
    have same := GroupTable.plain_completeRequest s.table i.handle status
    rw [h] at same
    refine same.trans ?_
    rw [Requests.State.apply]
    cases r.table.takeFront i.handle with
    | none => rfl
    | some found => rfl
  | forget i =>
    have same := GroupTable.plain_forgetRequest s.table i.handle
    rwa [h] at same

/-- The updates of a wrapper refine those of the table without groups. -/
theorem applyAll_plain {s : State H} {r : Requests.State H} (us : List (Update H))
    (h : s.table.plain = r.table) :
    (us.foldl State.apply s).table.plain = (us.foldl Requests.State.apply r).table := by
  induction us generalizing s r with
  | nil => exact h
  | cons u us ih => exact ih (apply_plain h)

/-- A completion call releases the requests that are not persistent, and its wrapper goes through
its updates. -/
def State.answered (s : State H) (updates : List (Update H)) : State H :=
  let done := updates.map Update.request
  { s with
    live := s.live.filter (fun i => i.persistent || !decide (i ∈ done))
    active := s.active.filter (fun i => !decide (i ∈ done))
    todo := updates }

/-- Only requests that were complete from the start share a handle. -/
def MayShare (i j : Instance H) : Prop :=
  i.shared = true ∧ j.shared = true ∧ i.persistent = false ∧ j.persistent = false

def State.Between (s : State H) : Prop := s.todo = [] ∧ s.finalized = false

/-- A step of a legal program: a PMPI call that succeeds, or one update of the tables by its
wrapper. -/
inductive Step : State H → State H → Prop where
  | create {s : State H} (i : Instance H) (peers : Int → Int) (peer tag : Int) (hs : s.Between)
      (hnumber : i.number = s.created)
      (hhandle : ∀ j ∈ s.live, j.handle = i.handle → MayShare j i) : Step s { s with
        live := i :: s.live
        active := if i.persistent then s.active else i :: s.active
        created := s.created + 1
        todo := [.remember i peers peer tag] }
  /-- A call that hands out `MPI_REQUEST_NULL`. -/
  | null {s : State H} (receive : Bool) (peers : Int → Int) (peer tag : Int)
      (persistentRequest : Bool) (hs : s.Between) : Step s { s with
        table := (s.table.remember none receive peers peer tag persistentRequest).1 }
  /-- A nonblocking call that has no wrapper. -/
  | unwrapped {s : State H} (i : Instance H) (hs : s.Between) (hnumber : i.number = s.created)
      (hhandle : ∀ j ∈ s.live, j.handle = i.handle → MayShare j i) : Step s { s with
        live := i :: s.live
        active := if i.persistent then s.active else i :: s.active
        created := s.created + 1 }
  | start {s : State H} (is : List (Instance H)) (hs : s.Between) (hdistinct : is.Nodup)
      (hlegal : ∀ i ∈ is, i ∈ s.live ∧ i.persistent = true ∧ i ∉ s.active) : Step s { s with
        active := is ++ s.active
        todo := is.map .start }
  | complete {s : State H} (call : Completing) (requests : List (Option (Instance H)))
      (r : Returned) (statuses : Nat → MpiStatus) (now : Nat) (hs : s.Between)
      (hsuccess : r.result = .success) (hlegal : ∀ i, some i ∈ requests → i ∈ s.live) :
      Step s (s.answered
        (completions requests (completedItems requests.length r call) statuses now))
  | cancel {s : State H} (i : Instance H) (hs : s.Between) (hactive : i ∈ s.active) : Step s s
  | free {s : State H} (i : Instance H) (hs : s.Between) (hlive : i ∈ s.live) : Step s { s with
        live := s.live.filter (fun j => j ≠ i)
        active := s.active.filter (fun j => j ≠ i)
        todo := [.forget i] }
  | finalize {s : State H} (entries saved : List (H × Grouped)) (hs : s.Between)
      (hentries : entries.Perm s.table.pending) (hsaved : saved.Perm s.table.persistent) :
      Step s { s with
        table := s.table.finalize entries saved
        finalized := true }
  | update {s : State H} {u : Update H} {us : List (Update H)} (h : s.todo = u :: us) :
      Step s { s.apply u with todo := us }

inductive Runs : State H → Prop where
  | start (requestTrackingLimit : Nat) : Runs (.initial requestTrackingLimit)
  | step {s s' : State H} (h : Runs s) (hs : Step s s') : Runs s'

end runs

section invariant

variable {H : Type} [DecidableEq H] {s s' : State H} {i : Instance H} {u : Update H}

/-- The update enters a request of this handle into the saved ones. -/
def Saves (handle : H) : Update H → Prop
  | .remember i _ _ _ => i.persistent = true ∧ i.handle = handle
  | _ => False

def Forgets (handle : H) (u : Update H) : Prop := ∃ i, u = .forget i ∧ i.handle = handle

/-- A saved entry is one of a live request, which nothing else has the handle of. -/
structure Sound (s : State H) : Prop where
  kept : s.table.Kept
  saved : ∀ e ∈ s.table.persistent, (∃ i ∈ s.live, i.persistent = true ∧ i.handle = e.1) ∨
    ∃ u ∈ s.todo, Forgets e.1 u
  fresh : ∀ u ∈ s.todo, ∀ e ∈ s.table.persistent, ¬Saves e.1 u
  rooted : ∀ u ∈ s.todo, ∀ handle, Saves handle u → ∃ i ∈ s.live, i.persistent = true ∧
    i.handle = handle
  single : ∀ u ∈ s.todo, (∃ handle, Saves handle u) → s.todo = [u]
  finished : s.finalized = true → s.todo = [] ∧ s.table.pending = [] ∧ s.table.persistent = []

omit [DecidableEq H] in
theorem sound_initial (requestTrackingLimit : Nat) :
    Sound (.initial requestTrackingLimit : State H) :=
  ⟨⟨holds_nil, numbered_nil, fun _ he => (nomatch he), Nat.zero_le _, Nat.zero_le _⟩,
    fun _ he => (nomatch he), fun _ hu => (nomatch hu), fun _ hu => (nomatch hu),
    fun _ hu => (nomatch hu), fun h => (nomatch h)⟩

omit [DecidableEq H] in
theorem Sound.call (h : Sound s) (hs : s.Between) (htable : s'.table = s.table)
    (hlive : ∀ i ∈ s.live, i.persistent = true →
      i ∈ s'.live ∨ ∃ u ∈ s'.todo, Forgets i.handle u)
    (htodo : ∀ u ∈ s'.todo, ∀ handle, ¬Saves handle u) (hfinalized : s'.finalized = false) :
    Sound s' := by
  refine ⟨htable ▸ h.kept, fun e he => ?_, fun u hu e _ => htodo u hu e.1,
    fun u hu handle hsaves => absurd hsaves (htodo u hu handle),
    fun u hu ⟨handle, hsaves⟩ => absurd hsaves (htodo u hu handle),
    fun hf => absurd hf (by rw [hfinalized]; exact Bool.false_ne_true)⟩
  rw [htable] at he
  obtain ⟨i, hi, hpersistent, hhandle⟩ | ⟨u, hu, -⟩ := h.saved e he
  · obtain hi' | hforgets := hlive i hi hpersistent
    · exact .inl ⟨i, hi', hpersistent, hhandle⟩
    · rw [hhandle] at hforgets
      exact .inr hforgets
  · rw [hs.1] at hu
    exact absurd hu List.not_mem_nil

omit [DecidableEq H] in
theorem Sound.fresh_handle (h : Sound s) (hs : s.Between)
    (hhandle : ∀ j ∈ s.live, j.handle = i.handle → MayShare j i) :
    ∀ e ∈ s.table.persistent, i.persistent = true → e.1 ≠ i.handle := by
  intro e he hpersistent hsame
  obtain ⟨j, hj, -, hj'⟩ | ⟨u, hu, -⟩ := h.saved e he
  · obtain ⟨-, -, -, hnot⟩ := hhandle j hj (hj'.trans hsame)
    exact absurd hpersistent (by rw [hnot]; exact Bool.false_ne_true)
  · rw [hs.1] at hu
    exact absurd hu List.not_mem_nil

theorem apply_persistent {e : H × Grouped} (he : e ∈ (s.apply u).table.persistent) :
    (e ∈ s.table.persistent ∧ ¬Forgets e.1 u) ∨ Saves e.1 u := by
  cases u with
  | remember i peers peer tag =>
    refine or_iff_not_imp_right.mpr (fun hnot => ?_)
    have plain : ¬Forgets e.1 (.remember i peers peer tag) := fun ⟨_, hu, _⟩ => (nomatch hu)
    refine ⟨?_, plain⟩
    have he : e ∈ (s.table.remember (some i.handle) i.receive peers peer tag
      i.persistent).1.persistent := he
    unfold GroupTable.remember at he
    cases hpersistent : i.persistent with
    | true =>
      simp only [hpersistent, if_true] at he
      split at he
      · exact he
      · obtain he | he := List.mem_append.mp he
        · exact List.mem_of_mem_filter he
        · obtain rfl := List.mem_singleton.mp he
          exact absurd ⟨hpersistent, rfl⟩ hnot
    | false =>
      simp only [hpersistent, Bool.false_eq_true, if_false] at he
      split at he
      · exact he
      · exact he
  | start i =>
    refine .inl ⟨?_, fun ⟨_, hu, _⟩ => (nomatch hu)⟩
    have he : e ∈ (s.table.startPersistent (some i.handle)).persistent := he
    unfold GroupTable.startPersistent at he
    dsimp only at he
    split at he
    · exact he
    · split at he
      · exact he
      · exact he
  | complete i status now =>
    refine .inl ⟨?_, fun ⟨_, hu, _⟩ => (nomatch hu)⟩
    have he : e ∈ (s.table.completeRequest i.handle status).persistent := he
    unfold GroupTable.completeRequest at he
    split at he
    · exact he
    · exact he
  | forget i =>
    obtain ⟨hmem, hkey⟩ := List.mem_filter.mp he
    refine .inl ⟨hmem, fun ⟨j, hu, hj⟩ => ?_⟩
    obtain rfl := Update.forget.inj hu
    exact absurd hj.symm (by simpa using hkey)

theorem Sound.update (h : Sound s) {us : List (Update H)} (htodo : s.todo = u :: us) :
    Sound { s.apply u with todo := us } := by
  have head : u ∈ s.todo := htodo ▸ List.mem_cons_self
  have tail : ∀ v ∈ us, v ∈ s.todo := fun v hv => htodo ▸ List.mem_cons_of_mem u hv
  -- an update that saves a request is the only one of its call
  have none : ∀ v ∈ us, ∀ handle, ¬Saves handle v := by
    intro v hv handle hsaves
    have alone := h.single v (tail v hv) ⟨handle, hsaves⟩
    rw [htodo] at alone
    obtain ⟨-, rfl⟩ := List.cons.inj alone
    exact absurd hv List.not_mem_nil
  have live : (s.apply u).live = s.live ∧ (s.apply u).finalized = s.finalized := by
    cases u <;> exact ⟨rfl, rfl⟩
  have kept : (s.apply u).table.Kept := by
    cases u with
    | remember i peers peer tag =>
      refine h.kept.remember (fun hpersistent e he key hkey hsame => ?_)
      obtain rfl := Option.some.inj hkey
      exact h.fresh _ head e he ⟨hpersistent, hsame.symm⟩
    | start i => exact h.kept.startPersistent (some i.handle)
    | complete i status now => exact h.kept.completeRequest i.handle status
    | forget i => exact h.kept.forgetRequest (some i.handle)
  refine ⟨kept, fun e he => ?_, fun v hv e _ => none v hv e.1,
    fun v hv handle hsaves => absurd hsaves (none v hv handle),
    fun v hv ⟨handle, hsaves⟩ => absurd hsaves (none v hv handle), fun hf => ?_⟩
  · show (∃ i ∈ (s.apply u).live, _) ∨ _
    rw [live.1]
    obtain ⟨hmem, hnot⟩ | hsaves := apply_persistent he
    · obtain hlive | ⟨v, hv, hforgets⟩ := h.saved e hmem
      · exact .inl hlive
      · rw [htodo] at hv
        obtain rfl | hv := List.mem_cons.mp hv
        · exact absurd hforgets hnot
        · exact .inr ⟨v, hv, hforgets⟩
    · exact .inl (h.rooted u head e.1 hsaves)
  · have ended : s.finalized = true := live.2.symm.trans hf
    rw [(h.finished ended).1] at htodo
    exact nomatch htodo

theorem Sound.step (h : Sound s) (hs : Step s s') : Sound s' := by
  cases hs with
  | create i peers peer tag hs _ hhandle =>
    have other := h.fresh_handle hs hhandle
    refine ⟨h.kept, fun e he => ?_, fun u hu e he hsaves => ?_, fun u hu handle hsaves => ?_,
      fun u hu _ => ?_, fun hf => absurd hf (by rw [hs.2]; exact Bool.false_ne_true)⟩
    · obtain ⟨j, hj, hsaved⟩ | ⟨u, hu, -⟩ := h.saved e he
      · exact .inl ⟨j, List.mem_cons_of_mem i hj, hsaved⟩
      · rw [hs.1] at hu
        exact absurd hu List.not_mem_nil
    · obtain rfl := List.mem_singleton.mp hu
      exact other e he hsaves.1 hsaves.2.symm
    · obtain rfl := List.mem_singleton.mp hu
      exact ⟨i, List.mem_cons_self, hsaves⟩
    · obtain rfl := List.mem_singleton.mp hu
      rfl
  | null receive peers peer tag persistentRequest hs => exact h
  | unwrapped i hs _ _ =>
    refine h.call hs rfl (fun j hj _ => .inl (List.mem_cons_of_mem i hj)) (fun u hu => ?_) hs.2
    exact absurd (hs.1 ▸ hu) List.not_mem_nil
  | start is hs _ _ =>
    refine h.call hs rfl (fun j hj _ => .inl hj) (fun u hu handle hsaves => ?_) hs.2
    obtain ⟨i, -, rfl⟩ := List.mem_map.mp hu
    exact hsaves
  | complete call requests r statuses now hs _ _ =>
    refine h.call hs rfl (fun j hj hpersistent => .inl ?_) (fun u hu handle hsaves => ?_) hs.2
    · exact List.mem_filter.mpr ⟨hj, by rw [hpersistent]; rfl⟩
    · obtain ⟨i, status, -, rfl⟩ := completion_of_mem hu
      exact hsaves
  | cancel i _ _ => exact h
  | free i hs hlive =>
    refine h.call hs rfl (fun j hj _ => ?_) (fun u hu handle hsaves => ?_) hs.2
    · by_cases hsame : j = i
      · subst hsame
        exact .inr ⟨.forget j, List.mem_singleton_self _, j, rfl, rfl⟩
      · exact .inl (List.mem_filter.mpr ⟨hj, by simpa using hsame⟩)
    · obtain rfl := List.mem_singleton.mp hu
      exact hsaves
  | finalize entries saved hs hentries hsaved =>
    have none : ∀ u, u ∉ s.todo := fun u hu => absurd (hs.1 ▸ hu) List.not_mem_nil
    exact ⟨h.kept.finalize hentries hsaved, fun e he => absurd he List.not_mem_nil,
      fun u hu => absurd hu (none u), fun u hu => absurd hu (none u),
      fun u hu => absurd hu (none u), fun _ => ⟨hs.1, rfl, rfl⟩⟩
  | update htodo => exact h.update htodo

theorem Runs.sound (h : Runs s) : Sound s := by
  induction h with
  | start requestTrackingLimit => exact sound_initial requestTrackingLimit
  | step _ hs ih => exact ih.step hs

/-- No group is freed twice or used after it was freed, none is left once MPI is finalized, and the
tables stay in their limit. -/
structure FreedOnce (s : State H) : Prop where
  bounded : s.table.pending.length ≤ s.table.requestTrackingLimit ∧
    s.table.persistent.length ≤ s.table.requestTrackingLimit
  distinct : ∀ group, s.table.uses.count (.obtain group) ≤ 1
  once : ∀ group, s.table.uses.count (.free group) ≤ s.table.uses.count (.obtain group)
  unused : ∀ before group after, s.table.uses = before ++ .free group :: after →
    .touch group ∉ after ∧ .free group ∉ after
  ended : s.finalized = true → ∀ group, .obtain group ∈ s.table.uses →
    s.table.uses.count (.free group) = 1

/-- In every state of a legal run the groups are freed at most once and not used afterwards, and
`MPI_Finalize` leaves none behind. -/
theorem groups_freed_once (h : Runs s) : FreedOnce s := by
  obtain ⟨kept, -, -, -, -, finished⟩ := h.sound
  refine ⟨⟨kept.pendingBound, kept.persistentBound⟩, kept.numbered.once, fun group => ?_,
    fun before group after hus => kept.holds.unused (kept.numbered.once group) hus,
    fun hf group hmem => ?_⟩
  · exact kept.holds.count_free_le
  · obtain ⟨-, hpending, hpersistent⟩ := finished hf
    have none : s.table.owned = [] := by
      rw [GroupTable.owned, hpending, hpersistent]
      rfl
    have some := List.count_pos_iff.mpr hmem
    rw [Custody.Holds.count_free_eq (none ▸ kept.holds)]
    exact le_antisymm (kept.numbered.once group) some

/-- A persistent receive that is started, waited for and freed before MPI is finalized. -/
theorem groups_freed_once_persistent : ∃ s : State Nat, s.finalized = true ∧
    s.table.uses = [.obtain 0, .obtain 1, .touch 0, .touch 1, .free 1, .free 0] ∧
      FreedOnce s := by
  let saved : Instance Nat := ⟨0, 9, true, true, false⟩
  have created := (Runs.start 8 : Runs (.initial 8 : State Nat)).step
    (.create saved id 0 7 ⟨rfl, rfl⟩ rfl (fun j hj => absurd hj List.not_mem_nil))
  have remembered := created.step (.update rfl)
  have started := remembered.step (.start [saved] ⟨rfl, rfl⟩ (List.nodup_singleton saved)
    (fun i hi => by
      obtain rfl := List.mem_singleton.mp hi
      exact ⟨List.mem_cons_self, rfl, List.not_mem_nil⟩))
  have pushed := started.step (.update rfl)
  have waited := pushed.step (.complete .wait [some saved] ended (fun _ => ⟨0, 7, 4, false⟩) 5
    ⟨rfl, rfl⟩ rfl (fun i hi => by
      obtain rfl := Option.some.inj (List.mem_singleton.mp hi)
      exact List.mem_cons_self))
  have completed := waited.step (.update rfl)
  have freed := completed.step (.free saved ⟨rfl, rfl⟩ List.mem_cons_self)
  have forgotten := freed.step (.update rfl)
  have finalized := forgotten.step (.finalize [] [] ⟨rfl, rfl⟩ .nil .nil)
  exact ⟨_, rfl, rfl, groups_freed_once finalized⟩

end invariant

end Groups

end RankLens
