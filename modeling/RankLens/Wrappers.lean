import RankLens.Snapshots

namespace RankLens

/-- A communicator as the wrappers see it: whether it is `MPI_COMM_WORLD`, its handle in Fortran,
and the ranks its peers have in `MPI_COMM_WORLD`, `MPI_UNDEFINED` outside of it. -/
structure Communicator where
  world : Bool
  c2f : Int
  translateRanks : Int → Int

/-- Communicator-local peers, translated. -/
def worldPeer (communicator : Communicator) (peer : Int) : Int :=
  if peer < 0 ∨ communicator.world = true then peer else communicator.translateRanks peer

/-- What a wrapper hands to the free function `record`. -/
structure WrapperArguments where
  timestampNs : Nat
  durationNs : Nat
  bytes : Int
  peer : Int
  tag : Int
  errorCode : Int
  communicator : Communicator
  requestId : Int

def wrapperRecord (operation : String) (a : WrapperArguments) : RecordCall :=
  ⟨operation, a.timestampNs, a.durationNs, if a.errorCode = 0 then a.bytes else 0,
    if a.errorCode = 0 then worldPeer a.communicator a.peer else a.peer, a.tag, a.errorCode,
    if a.errorCode = 0 then a.communicator.c2f else -1, a.requestId⟩

/-- A send has its payload when it succeeds and is not to `MPI_PROC_NULL`. -/
def sendBytes (procNull : Int) (payloadSize : Nat) (peer errorCode : Int) : Int :=
  if errorCode = 0 ∧ peer ≠ procNull then payloadSize else 0

/-- A call of an instrumented function, as far as it is recorded. `complete_request` records the
completions. -/
inductive WrapperCall where
  | send (operation : String) (h : operation = "MPI_Send" ∨ operation = "MPI_Isend")
      (payloadSize : Nat) (a : WrapperArguments)
  | other (operation : String) (h : operation ∈ kOperationNames)
      (hs : operation ≠ "MPI_Send" ∧ operation ≠ "MPI_Isend") (a : WrapperArguments)
  | completed (receive : Bool) (timestampNs : Nat) (count peer tag requestId : Int)
      (cancelled : Bool)

def WrapperCall.call (procNull : Int) : WrapperCall → RecordCall
  | .send operation _ payloadSize a =>
    wrapperRecord operation { a with bytes := sendBytes procNull payloadSize a.peer a.errorCode }
  | .other operation _ _ a => wrapperRecord operation a
  | .completed receive timestampNs count peer tag requestId cancelled =>
    ⟨if receive then "MPI_Irecv_complete" else "MPI_Isend_complete", timestampNs, 0,
      if cancelled then 0 else max count 0, if cancelled then procNull else peer, tag, 0, 0, requestId⟩

/-- A send that succeeds has its peer in `MPI_COMM_WORLD`. -/
def WrapperCall.Inside (worldSize : Nat) : WrapperCall → Prop
  | .send _ _ _ a => a.errorCode = 0 →
    0 ≤ worldPeer a.communicator a.peer ∧ worldPeer a.communicator a.peer < worldSize
  | _ => True

/-- The numbers of a call fit the types the recorder has for them. -/
structure RecordCall.Fits (c : RecordCall) : Prop where
  times : c.timestampNs < 2 ^ 64 ∧ c.durationNs < 2 ^ 64
  bytes : c.bytes.natAbs < 2 ^ 64
  peer : c.peer.natAbs < 2 ^ 64
  tag : c.tag.natAbs < 2 ^ 64
  errorCode : c.errorCode.natAbs < 2 ^ 64
  communicator : c.communicator.natAbs < 2 ^ 64
  requestId : c.requestId.natAbs < 2 ^ 64

def isSendCall (c : RecordCall) : Bool := c.operation = "MPI_Send" || c.operation = "MPI_Isend"

theorem call_operation (procNull : Int) (w : WrapperCall) :
    (w.call procNull).operation ∈ kOperationNames := by
  cases w with
  | send operation h payloadSize a =>
    show operation ∈ kOperationNames
    obtain rfl | rfl := h <;> decide
  | other operation h hs a => exact h
  | completed receive timestampNs count peer tag requestId cancelled =>
    show (if receive then "MPI_Irecv_complete" else "MPI_Isend_complete") ∈ kOperationNames
    cases receive <;> decide

namespace Recording

/-- The states of a recorder that traces, when the calls that are recorded are legal. -/
inductive Drives (legal : RecordCall → Prop) : State → Prop where
  | start {rank worldSize : Nat} {host : String} {pid maxEvents eventBufferCapacity
      requestTrackingLimit : Nat} (hrank : rank < worldSize) : Drives legal (.initial (.initial rank
        worldSize host pid maxEvents eventBufferCapacity requestTrackingLimit true))
  | record {s : State} (h : Drives legal s) (call : RecordCall) (hc : legal call)
      (hp : s.phase = .running) : Drives legal { s with
        recorder := s.recorder.record call
        calls := s.calls + 1
        refused := s.refused || (s.recorder.traceEvents && s.recorder.full) }
  | other {s s' : State} (h : Drives legal s) (hs : Step s s') (hc : s'.calls = s.calls) :
      Drives legal s'

/-- The event of a call, with its number. -/
def eventOf (p : RecordCall × Nat) : EventRecord :=
  ⟨p.1.operation, p.2, p.1.timestampNs, p.1.durationNs, p.1.bytes.toNat, p.1.peer, p.1.tag,
    p.1.errorCode, p.1.communicator, p.1.requestId⟩

def eventsOf (calls : List RecordCall) : List EventRecord := calls.zipIdx.map eventOf

def sentBytes (c : RecordCall) : Nat :=
  if isSentPayload (operationIndex c.operation) then c.bytes.toNat else 0

/-- How a recorder has come to its state: the calls, of which some are kept as events. -/
structure History (legal : RecordCall → Prop) (s : State) (calls : List RecordCall)
    (kept : List EventRecord) : Prop where
  legal : ∀ c ∈ calls, legal c
  length : s.calls = calls.length
  sequence : s.recorder.eventSequence = calls.length
  inside : s.recorder.rank < s.recorder.worldSize
  sublist : kept.Sublist (eventsOf calls)
  whole : s.recorder.eventsDropped = 0 → kept = eventsOf calls
  sent : s.recorder.bytesSent = (calls.map sentBytes).sum
  sends : (s.recorder.operations 0).calls + (s.recorder.operations 2).calls =
    calls.countP isSendCall

section history

variable {legal : RecordCall → Prop} {s s' : State} {calls : List RecordCall} {call : RecordCall}

theorem eventsOf_append : eventsOf (calls ++ [call]) =
    eventsOf calls ++ [eventOf (call, calls.length)] := by
  rw [eventsOf, List.zipIdx_append, List.map_append, Nat.zero_add]
  rfl

theorem step_quiet (hs : Step s s') (hc : s'.calls = s.calls) :
    s'.recorder.eventSequence = s.recorder.eventSequence ∧
      s'.recorder.rank = s.recorder.rank ∧ s'.recorder.worldSize = s.recorder.worldSize ∧
      s'.recorder.eventsDropped = s.recorder.eventsDropped ∧
      s'.recorder.bytesSent = s.recorder.bytesSent ∧
      s'.recorder.operations = s.recorder.operations := by
  cases hs with
  | record call hp => exact absurd hc (Nat.succ_ne_self _)
  | _ => exact ⟨rfl, rfl, rfl, rfl, rfl, rfl⟩

theorem record_effect (r : Recorder) (call : RecordCall) (ht : r.traceEvents = true) :
    (r.record call).eventSequence = r.eventSequence + 1 ∧
      (r.record call).rank = r.rank ∧ (r.record call).worldSize = r.worldSize ∧
      (r.record call).bytesSent = r.bytesSent + sentBytes call ∧
      (r.record call).operations = (r.account call).operations ∧
      ((r.record call).activeEvents = r.activeEvents ∧ (r.record call).eventsDropped ≠ 0 ∨
        (r.record call).activeEvents = r.activeEvents ++ [eventOf (call, r.eventSequence)] ∧
          (r.record call).eventsDropped = r.eventsDropped) := by
  have same : (r.account call).full = r.full := rfl
  rw [Recorder.record, if_pos ht, Recorder.trace, same]
  cases r.full with
  | true => exact ⟨rfl, rfl, rfl, rfl, rfl, .inl ⟨rfl, Nat.succ_ne_zero _⟩⟩
  | false => exact ⟨rfl, rfl, rfl, rfl, rfl, .inr ⟨rfl, rfl⟩⟩

theorem operationIndex_send (operation : String) :
    (operationIndex operation = 0 ∨ operationIndex operation = 2) ↔
      operation = "MPI_Send" ∨ operation = "MPI_Isend" := by
  constructor
  · intro h
    have short : operationIndex operation < kOperationNames.length := by
      obtain h | h := h <;> rw [h] <;> decide
    have found : kOperationNames[operationIndex operation] = operation :=
      List.getElem_idxOf short
    obtain h | h := h
    · simp only [h] at found
      exact .inl found.symm
    · simp only [h] at found
      exact .inr found.symm
  · rintro (rfl | rfl) <;> decide

theorem account_sends (r : Recorder) (call : RecordCall) :
    ((r.account call).operations 0).calls + ((r.account call).operations 2).calls =
      (r.operations 0).calls + (r.operations 2).calls + if isSendCall call = true then 1 else 0 := by
  have sends : isSendCall call = true ↔
      operationIndex call.operation = 0 ∨ operationIndex call.operation = 2 := by
    rw [operationIndex_send, isSendCall, Bool.or_eq_true, decide_eq_true_iff, decide_eq_true_iff]
  simp only [Recorder.account]
  by_cases h0 : operationIndex call.operation = 0
  · rw [if_pos (sends.mpr (.inl h0)), h0, Function.update_self, Function.update_of_ne (by decide)]
    dsimp only
    omega
  · by_cases h2 : operationIndex call.operation = 2
    · rw [if_pos (sends.mpr (.inr h2)), h2, Function.update_self, Function.update_of_ne (by decide)]
      dsimp only
      omega
    · rw [if_neg (fun h => (sends.mp h).elim h0 h2), Function.update_of_ne (Ne.symm h0),
        Function.update_of_ne (Ne.symm h2), Nat.add_zero]

theorem drives_history (h : Drives legal s) :
    ∃ out calls, Faithful s out ∧ History legal s calls (s.kept out) := by
  induction h with
  | start hrank =>
    exact ⟨[], [], initial_faithful, ⟨(fun _ h => nomatch h), rfl, rfl, hrank, .slnil, fun _ => rfl,
      rfl, rfl⟩⟩
  | @record s h call hc hp ih =>
    obtain ⟨out, calls, hf, hh⟩ := ih
    obtain ⟨sequence, rank, worldSize, sent, operations, events⟩ :=
      record_effect s.recorder call hf.tracing
    refine ⟨out, calls ++ [call], hf.record call hp, ?_⟩
    have kept : ∀ active, s.kept out = out ++ (s.rest ++ s.recorder.activeEvents) →
        out ++ (s.rest ++ (s.recorder.activeEvents ++ active)) = s.kept out ++ active := by
      rintro active he
      rw [he]
      simp only [List.append_assoc]
    refine ⟨?_, ?_, ?_, by rw [rank, worldSize]; exact hh.inside, ?_, ?_, ?_, ?_⟩
    · rw [List.forall_mem_append]
      exact ⟨hh.legal, by simpa using hc⟩
    · rw [List.length_append, ← hh.length]
      rfl
    · rw [sequence, hh.sequence, List.length_append]
      rfl
    · rw [eventsOf_append]
      obtain ⟨same, -⟩ | ⟨more, -⟩ := events
      · show (out ++ (s.rest ++ (s.recorder.record call).activeEvents)).Sublist _
        rw [same]
        exact hh.sublist.trans (List.sublist_append_left _ _)
      · show (out ++ (s.rest ++ (s.recorder.record call).activeEvents)).Sublist _
        rw [more, kept _ rfl, hh.sequence]
        exact hh.sublist.append (.refl _)
    · intro hd
      obtain ⟨-, dropped⟩ | ⟨more, dropped⟩ := events
      · exact absurd hd dropped
      · show out ++ (s.rest ++ (s.recorder.record call).activeEvents) = _
        rw [more, kept _ rfl, hh.sequence, eventsOf_append, hh.whole (dropped.symm.trans hd)]
    · rw [sent, hh.sent, List.map_append, List.sum_append]
      rfl
    · rw [operations, account_sends, hh.sends, List.countP_append, List.countP_singleton]
  | @other s s' h hs hc ih =>
    obtain ⟨out, calls, hf, hh⟩ := ih
    obtain ⟨out', hf', hkept⟩ := step_faithful hs hf
    obtain ⟨sequence, rank, worldSize, dropped, sent, operations⟩ := step_quiet hs hc
    refine ⟨out', calls, hf', ?_⟩
    rw [hkept hc]
    exact ⟨hh.legal, hc.trans hh.length, sequence.trans hh.sequence, by rw [rank, worldSize]; exact hh.inside, hh.sublist,
      fun hd => hh.whole (dropped.symm.trans hd), sent.trans hh.sent, by rw [operations]; exact hh.sends⟩

end history

end Recording

end RankLens
