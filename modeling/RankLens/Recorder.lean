import RankLens.Summaries

namespace RankLens

/-- The names the recorder knows, `kOperationNames`. -/
def kOperationNames : List String :=
  ["MPI_Send", "MPI_Recv", "MPI_Isend", "MPI_Irecv", "MPI_Wait", "MPI_Test",
    "MPI_Waitall", "MPI_Waitany", "MPI_Waitsome", "MPI_Testall", "MPI_Testany",
    "MPI_Testsome", "MPI_Allreduce", "MPI_Bcast", "MPI_Barrier",
    "MPI_Cancel", "MPI_Request_free", "MPI_Send_init", "MPI_Recv_init",
    "MPI_Bsend_init", "MPI_Ssend_init", "MPI_Rsend_init", "MPI_Start",
    "MPI_Startall", "MPI_Psend_init", "MPI_Precv_init", "MPI_Pready",
    "MPI_Pready_range", "MPI_Pready_list", "MPI_Parrived",
    "MPI_Isend_complete", "MPI_Irecv_complete"]

def operationIndex (operation : String) : Nat := kOperationNames.idxOf operation

def isCompletion (index : Nat) : Bool :=
  index = kOperationNames.length - 2 || index = kOperationNames.length - 1

def isSentPayload (index : Nat) : Bool := index = 0 || index = 2

def isReceivedPayload (index : Nat) : Bool := index = 1 || index = kOperationNames.length - 1

structure EventRecord where
  operation : String
  sequence : Nat
  timestampNs : Nat
  durationNs : Nat
  payloadBytes : Nat
  peer : Int
  tag : Int
  errorCode : Int
  communicator : Int
  requestId : Int
deriving DecidableEq, Repr

/-- The arguments of `record`, with the times in nanoseconds since the recorder started. -/
structure RecordCall where
  operation : String
  timestampNs : Nat
  durationNs : Nat
  bytes : Int
  peer : Int
  tag : Int
  errorCode : Int
  communicator : Int
  requestId : Int
deriving DecidableEq, Repr

structure OperationSlot where
  calls : Nat
  durationNs : Nat
  payloadBytes : Nat
deriving DecidableEq, Repr

def OperationSlot.zero : OperationSlot := ⟨0, 0, 0⟩

/-- What `write_snapshot` reads under the mutex. -/
structure RecorderSnapshot where
  operations : Nat → OperationSlot
  mpiTimeNs : Nat
  apiCalls : Nat
  requestCompletions : Nat
  failedCalls : Nat
  bytesSent : Nat
  bytesReceived : Nat
  eventsDropped : Nat
  eventsWritten : Nat
  requestTrackingOverflows : Nat

/-- The fields the mutex protects, and those that do not change. -/
structure Recorder where
  rank : Nat
  worldSize : Nat
  host : String
  pid : Nat
  maxEvents : Nat
  eventBufferCapacity : Nat
  requestTrackingLimit : Nat
  traceEvents : Bool
  operations : Nat → OperationSlot
  activeEvents : List EventRecord
  stagingEvents : List EventRecord
  mpiTimeNs : Nat
  apiCalls : Nat
  requestCompletions : Nat
  failedCalls : Nat
  bytesSent : Nat
  bytesReceived : Nat
  eventsAccepted : Nat
  eventSequence : Nat
  eventsWritten : Nat
  eventsDropped : Nat
  requestTrackingOverflows : Nat
  writerFailed : Bool

namespace Recorder

def initial (rank worldSize : Nat) (host : String) (pid maxEvents eventBufferCapacity
    requestTrackingLimit : Nat) (traceEvents : Bool) : Recorder :=
  ⟨rank, worldSize, host, pid, maxEvents, eventBufferCapacity, requestTrackingLimit, traceEvents,
    fun _ => .zero, [], [], 0, 0, 0, 0, 0, 0, 0, 0, 0, 0, 0, false⟩

/-- The part of `record` that counts the call. -/
def account (self : Recorder) (call : RecordCall) : Recorder :=
  let index := operationIndex call.operation
  let safeBytes := call.bytes.toNat
  { self with
    operations := Function.update self.operations index
      ⟨(self.operations index).calls + 1, (self.operations index).durationNs + call.durationNs,
        (self.operations index).payloadBytes + safeBytes⟩
    mpiTimeNs := self.mpiTimeNs + call.durationNs
    requestCompletions := self.requestCompletions + if isCompletion index then 1 else 0
    apiCalls := self.apiCalls + if isCompletion index then 0 else 1
    failedCalls := self.failedCalls +
      if isCompletion index = false ∧ call.errorCode ≠ 0 then 1 else 0
    bytesSent := self.bytesSent + if isSentPayload index then safeBytes else 0
    bytesReceived := self.bytesReceived + if isReceivedPayload index then safeBytes else 0 }

/-- The limit or the buffer leaves no room for another event. -/
def full (self : Recorder) : Bool :=
  self.maxEvents ≤ self.eventsAccepted || self.eventBufferCapacity ≤ self.activeEvents.length

def event (self : Recorder) (call : RecordCall) : EventRecord :=
  ⟨call.operation, self.eventSequence, call.timestampNs, call.durationNs, call.bytes.toNat,
    call.peer, call.tag, call.errorCode, call.communicator, call.requestId⟩

/-- The part of `record` that keeps the event. -/
def trace (self : Recorder) (call : RecordCall) : Recorder :=
  if self.full = true then
    { self with
      eventSequence := self.eventSequence + 1
      eventsDropped := self.eventsDropped + 1 }
  else
    { self with
      eventSequence := self.eventSequence + 1
      activeEvents := self.activeEvents ++ [self.event call]
      eventsAccepted := self.eventsAccepted + 1 }

/-- `record`, as one step under the mutex. -/
def record (self : Recorder) (call : RecordCall) : Recorder :=
  if self.traceEvents = true then (self.account call).trace call else self.account call

def requestTrackingOverflow (self : Recorder) : Recorder :=
  { self with requestTrackingOverflows := self.requestTrackingOverflows + 1 }

/-- The first step of `drain_events` under the mutex. -/
def swap (self : Recorder) : Recorder :=
  { self with
    activeEvents := self.stagingEvents
    stagingEvents := self.activeEvents }

/-- The last step of `drain_events` under the mutex. -/
def countWritten (self : Recorder) : Recorder :=
  { self with
    eventsWritten := self.eventsWritten + self.stagingEvents.length
    stagingEvents := [] }

def captureSnapshot (self : Recorder) : RecorderSnapshot :=
  ⟨self.operations, self.mpiTimeNs, self.apiCalls, self.requestCompletions, self.failedCalls,
    self.bytesSent, self.bytesReceived, self.eventsDropped, self.eventsWritten,
    self.requestTrackingOverflows⟩

end Recorder

def eventMember (name : String) (value : List Char) : List Char :=
  recorderQuote name ++ ':' :: value

/-- The line `drain_events` writes, without its end. -/
def EventRecord.text (rank : Nat) (e : EventRecord) : List Char :=
  Char.ofNat 123 :: List.intercalate [','] [
    eventMember "schema_version" ['2'],
    eventMember "sequence" (JsonValue.digits e.sequence),
    eventMember "timestamp_ns" (JsonValue.digits e.timestampNs),
    eventMember "rank" (JsonValue.digits rank),
    eventMember "operation" (recorderQuote e.operation),
    eventMember "record_kind" (recorderQuote (if isCompletion (operationIndex e.operation) then
      "request_completion" else "api_call")),
    eventMember "duration_ns" (JsonValue.digits e.durationNs),
    eventMember "payload_bytes" (JsonValue.digits e.payloadBytes),
    eventMember "peer" (JsonValue.digits e.peer),
    eventMember "tag" (JsonValue.digits e.tag),
    eventMember "error_code" (JsonValue.digits e.errorCode),
    eventMember "communicator" (JsonValue.digits e.communicator),
    eventMember "request_id" (JsonValue.digits e.requestId)] ++ [Char.ofNat 125]

def EventRecord.line (rank : Nat) (e : EventRecord) : List Char := e.text rank ++ ['\n']

def eventLines (rank : Nat) (events : List EventRecord) : List Char :=
  events.flatMap (EventRecord.line rank)

/-- An output stream: what has reached the file, and what is still in the buffer. Once a write
has failed it takes nothing more. -/
structure EventStream where
  good : Bool
  buffer : List Char
  file : List Char
deriving DecidableEq, Repr

namespace EventStream

/-- What an insertion can do. A failed one loses the end of what was to be written. -/
inductive Write (text : List Char) : EventStream → EventStream → Prop where
  | ignored {buffer file : List Char} : Write text ⟨false, buffer, file⟩ ⟨false, buffer, file⟩
  | taken {buffer file written buffer' : List Char} (h : written ++ buffer' = buffer ++ text) :
      Write text ⟨true, buffer, file⟩ ⟨true, buffer', file ++ written⟩
  | failed {buffer file written buffer' : List Char} (h : written <+: buffer ++ text)
      (hlost : written ≠ buffer ++ text) :
      Write text ⟨true, buffer, file⟩ ⟨false, buffer', file ++ written⟩

/-- `flush`, which leaves nothing in the buffer of a good stream. -/
def Flush (s s' : EventStream) : Prop :=
  Write [] s s' ∧ (s'.good = true → s'.buffer = [])

theorem flush_empty (file : List Char) : Flush ⟨true, [], file⟩ ⟨true, [], file⟩ := by
  have kept := @Write.taken [] [] file [] [] rfl
  rw [List.append_nil] at kept
  exact ⟨kept, fun _ => rfl⟩

end EventStream

namespace Recording

inductive Phase where
  | running
  | finishing (drained : Bool)
  | published (snapshot : RecorderSnapshot) (writerFailed : Bool)
  | closed (snapshot : RecorderSnapshot) (writerFailed : Bool)

/-- A recorder and its event file. `drain` are the events a drain under way has yet to insert.
`calls` counts the calls of `record`, `failed` says whether a write to the file has failed, and
`refused` whether a call has found no room for its event. -/
structure State where
  recorder : Recorder
  stream : EventStream
  drain : Option (List EventRecord)
  phase : Phase
  calls : Nat
  failed : Bool
  refused : Bool

def State.initial (recorder : Recorder) : State :=
  ⟨recorder, ⟨true, [], []⟩, none, .running, 0, false, false⟩

def State.drains (s : State) : Bool := s.recorder.traceEvents && s.stream.good

/-- The calls of the application, and the writer thread or `finish_finalize`. -/
inductive Step : State → State → Prop where
  | record {s : State} (call : RecordCall) (hp : s.phase = .running) : Step s { s with
      recorder := s.recorder.record call
      calls := s.calls + 1
      refused := s.refused || (s.recorder.traceEvents && s.recorder.full) }
  | overflow {s : State} (hp : s.phase = .running) :
      Step s { s with recorder := s.recorder.requestTrackingOverflow }
  | swap {s : State} (hp : s.phase = .running ∨ s.phase = .finishing false)
      (hi : s.drain = none) (hd : s.drains = true) : Step s { s with
        recorder := s.recorder.swap
        drain := some s.recorder.activeEvents }
  | insert {s : State} {e : EventRecord} {rest : List EventRecord} {stream : EventStream}
      (hd : s.drain = some (e :: rest)) (hw : s.stream.Write (e.line s.recorder.rank) stream) :
      Step s { s with
        stream := stream
        drain := some rest
        failed := s.failed || (s.stream.good && !stream.good) }
  | wrote {s : State} (hd : s.drain = some []) : Step s { s with
      recorder := s.recorder.countWritten
      drain := none
      phase := match s.phase with
        | .finishing _ => .finishing true
        | p => p }
  | snapshot {s : State} {stream : EventStream} (hp : s.phase = .running) (hi : s.drain = none)
      (hf : s.stream.Flush stream) : Step s { s with
        stream := stream
        failed := s.failed || (s.stream.good && !stream.good) }
  | finish {s : State} (hp : s.phase = .running) (hi : s.drain = none) :
      Step s { s with phase := .finishing false }
  | skip {s : State} (hp : s.phase = .finishing false) (hi : s.drain = none)
      (hd : s.drains = false) : Step s { s with phase := .finishing true }
  | publish {s : State} {stream : EventStream} (hp : s.phase = .finishing true)
      (hf : s.stream.Flush stream) : Step s { s with
        stream := stream
        phase := .published s.recorder.captureSnapshot s.recorder.writerFailed
        failed := s.failed || (s.stream.good && !stream.good) }
  | close {s : State} {stream : EventStream} {snapshot : RecorderSnapshot} {writerFailed : Bool}
      (hp : s.phase = .published snapshot writerFailed) (hf : s.stream.Flush stream) :
      Step s { s with
        stream := stream
        phase := .closed snapshot writerFailed
        failed := s.failed || (s.stream.good && !stream.good) }

/-- The states of the runs of a recorder that traces. -/
inductive Reachable : State → Prop where
  | start {rank worldSize : Nat} {host : String} {pid maxEvents eventBufferCapacity
      requestTrackingLimit : Nat} : Reachable (.initial (.initial rank worldSize host pid maxEvents
        eventBufferCapacity requestTrackingLimit true))
  | step {s s' : State} (h : Reachable s) (hs : Step s s') : Reachable s'

def State.rest (s : State) : List EventRecord := s.drain.getD []

/-- The events kept, when `out` have been inserted: those, and the ones that are still to be. -/
def State.kept (s : State) (out : List EventRecord) : List EventRecord :=
  out ++ (s.rest ++ s.recorder.activeEvents)

/-- What the stream holds of the events inserted: all of them, or less than all of them once a
write has failed. -/
def Holding (rank : Nat) (out : List EventRecord) (stream : EventStream) : Prop :=
  if stream.good = true then stream.file ++ stream.buffer = eventLines rank out
  else stream.file <+: eventLines rank out ∧ stream.file ≠ eventLines rank out

def Phase.drained : Phase → Bool
  | .running => false
  | .finishing drained => drained
  | .published _ _ => true
  | .closed _ _ => true

def Phase.summary? : Phase → Option (RecorderSnapshot × Bool)
  | .published snapshot writerFailed => some (snapshot, writerFailed)
  | .closed snapshot writerFailed => some (snapshot, writerFailed)
  | _ => none

def Phase.isClosed : Phase → Bool
  | .closed _ _ => true
  | _ => false

/-- The invariant of a recorder and its event file, `out` being the events inserted so far. -/
structure Faithful (s : State) (out : List EventRecord) : Prop where
  tracing : s.recorder.traceEvents = true
  healthy : s.recorder.writerFailed = false
  counted : s.recorder.eventSequence = s.calls
  refused : s.refused = true ↔ s.recorder.eventsDropped ≠ 0
  numbered : s.recorder.eventsDropped = 0 →
    (out ++ (s.rest ++ s.recorder.activeEvents)).map EventRecord.sequence = List.range s.calls
  staging : s.drain = none → s.recorder.stagingEvents = []
  written : s.recorder.eventsWritten + s.recorder.stagingEvents.length =
    out.length + s.rest.length
  lost : s.failed = !s.stream.good
  holding : Holding s.recorder.rank out s.stream
  last : s.phase = .finishing false → s.drain ≠ none → s.recorder.activeEvents = []
  drained : s.phase.drained = true → s.drain = none ∧
    (s.stream.good = true → s.recorder.activeEvents = [])
  summary : ∀ summary, s.phase.summary? = some summary →
    summary = (s.recorder.captureSnapshot, s.recorder.writerFailed)
  closed : s.phase.isClosed = true → s.stream.good = true → s.stream.buffer = []

section stream

variable {rank : Nat} {out : List EventRecord} {e : EventRecord} {text : List Char}
  {stream stream' : EventStream}

theorem eventLines_append {es es' : List EventRecord} :
    eventLines rank (es ++ es') = eventLines rank es ++ eventLines rank es' := List.flatMap_append

theorem Holding.write (h : Holding rank out stream)
    (hw : stream.Write text stream') {out' : List EventRecord}
    (hout : eventLines rank out' = eventLines rank out ++ text) : Holding rank out' stream' := by
  cases hw with
  | ignored =>
    obtain ⟨hpre, hne⟩ := h
    obtain ⟨tail, htail⟩ := hpre
    refine ⟨⟨tail ++ text, ?_⟩, fun he => ?_⟩
    · rw [hout, ← htail, List.append_assoc]
    · rw [hout, ← htail, List.append_assoc] at he
      have none := List.append_eq_nil_iff.mp (List.self_eq_append_right.mp he)
      exact hne (by rw [← htail, none.1, List.append_nil])
  | @taken buffer file written buffer' hkept =>
    have held : file ++ buffer = eventLines rank out := h
    show file ++ written ++ buffer' = eventLines rank out'
    rw [List.append_assoc, hkept, ← List.append_assoc, held, hout]
  | @failed buffer file written buffer' hpre hlost =>
    have held : file ++ buffer = eventLines rank out := h
    show file ++ written <+: eventLines rank out' ∧ file ++ written ≠ eventLines rank out'
    rw [hout, ← held, List.append_assoc, List.prefix_append_right_inj, Ne,
      List.append_right_inj]
    exact ⟨hpre, hlost⟩

theorem write_lost (hw : stream.Write text stream') :
    (!stream'.good) = ((!stream.good) || (stream.good && !stream'.good)) := by
  cases hw <;> rfl

theorem write_good (hw : stream.Write text stream') (h : stream'.good = true) :
    stream.good = true := by
  cases hw with
  | taken => rfl
  | _ => cases h

end stream

section step

variable {s s' : State} {out : List EventRecord}

theorem initial_faithful {rank worldSize : Nat} {host : String} {pid maxEvents
    eventBufferCapacity requestTrackingLimit : Nat} : Faithful (.initial (.initial rank worldSize
      host pid maxEvents eventBufferCapacity requestTrackingLimit true)) [] where
  tracing := rfl
  healthy := rfl
  counted := rfl
  refused := by simp [State.initial, Recorder.initial]
  numbered := fun _ => rfl
  staging := fun _ => rfl
  written := rfl
  lost := rfl
  holding := rfl
  last := fun _ h => absurd rfl h
  drained := fun h => nomatch h
  summary := fun _ h => nomatch h
  closed := fun h => nomatch h

theorem record_cases (r : Recorder) (call : RecordCall) (ht : r.traceEvents = true) :
    (r.full = true ∧ r.record call = { r.account call with
      eventSequence := r.eventSequence + 1
      eventsDropped := r.eventsDropped + 1 }) ∨
    (r.full = false ∧ ∃ e : EventRecord, e.sequence = r.eventSequence ∧
      r.record call = { r.account call with
        eventSequence := r.eventSequence + 1
        activeEvents := r.activeEvents ++ [e]
        eventsAccepted := r.eventsAccepted + 1 }) := by
  have same : (r.account call).full = r.full := rfl
  rw [Recorder.record, if_pos ht, Recorder.trace, same]
  cases hf : r.full with
  | true => exact .inl ⟨rfl, rfl⟩
  | false => exact .inr ⟨rfl, (r.account call).event call, rfl, rfl⟩

theorem Faithful.record (h : Faithful s out) (call : RecordCall) (hp : s.phase = .running) :
    Faithful { s with
      recorder := s.recorder.record call
      calls := s.calls + 1
      refused := s.refused || (s.recorder.traceEvents && s.recorder.full) } out := by
  have running : s.phase.drained = false := by rw [hp]; rfl
  obtain ⟨hfull, he⟩ | ⟨hroom, e, hseq, he⟩ := record_cases s.recorder call h.tracing
  · rw [he]
    exact {
      tracing := h.tracing
      healthy := h.healthy
      counted := congrArg (· + 1) h.counted
      refused := by simp [h.tracing, hfull]
      numbered := fun hd => nomatch hd
      staging := h.staging
      written := h.written
      lost := h.lost
      holding := h.holding
      last := fun hf => by simp [hp] at hf
      drained := fun hd => absurd (running.symm.trans hd) Bool.false_ne_true
      summary := fun summary hs => by simp [hp, Phase.summary?] at hs
      closed := h.closed }
  · rw [he]
    exact {
      tracing := h.tracing
      healthy := h.healthy
      counted := congrArg (· + 1) h.counted
      refused := by
        rw [hroom, Bool.and_false, Bool.or_false]
        exact h.refused
      numbered := fun hd => by
        have before := h.numbered hd
        simp only [State.rest, List.map_append, List.range_succ] at before ⊢
        rw [← before, ← h.counted, ← hseq]
        simp
      staging := h.staging
      written := h.written
      lost := h.lost
      holding := h.holding
      last := fun hf => by simp [hp] at hf
      drained := fun hd => absurd (running.symm.trans hd) Bool.false_ne_true
      summary := fun summary hs => by simp [hp, Phase.summary?] at hs
      closed := h.closed }

theorem Faithful.flush (h : Faithful s out) {stream : EventStream} (hf : s.stream.Flush stream)
    (phase : Phase) (hdrained : phase.drained = true → s.phase.drained = true)
    (hlast : phase = .finishing false → s.phase = .finishing false)
    (hsummary : ∀ summary, phase.summary? = some summary →
      summary = (s.recorder.captureSnapshot, s.recorder.writerFailed)) :
    Faithful { s with
      stream := stream
      phase := phase
      failed := s.failed || (s.stream.good && !stream.good) } out where
  tracing := h.tracing
  healthy := h.healthy
  counted := h.counted
  refused := h.refused
  numbered := h.numbered
  staging := h.staging
  written := h.written
  lost := by rw [h.lost]; exact (write_lost hf.1).symm
  holding := h.holding.write hf.1 (List.append_nil _).symm
  last := fun hp => h.last (hlast hp)
  drained := fun hd => ⟨(h.drained (hdrained hd)).1,
    fun hg => (h.drained (hdrained hd)).2 (write_good hf.1 hg)⟩
  summary := hsummary
  closed := fun _ hg => hf.2 hg

theorem Faithful.swap (h : Faithful s out)
    (hp : s.phase = .running ∨ s.phase = .finishing false) (hi : s.drain = none) :
    Faithful { s with
      recorder := s.recorder.swap
      drain := some s.recorder.activeEvents } out := by
  have idle : s.rest = [] := by rw [State.rest, hi]; rfl
  have empty := h.staging hi
  refine { h with
    numbered := fun hd => ?_
    staging := fun hd => absurd hd (Option.some_ne_none _)
    written := ?_
    last := fun _ _ => empty
    drained := fun hd => ?_
    summary := fun summary hs => ?_ }
  · have before := h.numbered hd
    rw [idle] at before
    simpa [State.rest, Recorder.swap, empty] using before
  · have before : s.recorder.eventsWritten = out.length := by
      have sum := h.written
      rwa [idle, empty] at sum
    exact congrArg (· + s.recorder.activeEvents.length) before
  · obtain hp | hp := hp <;> simp [hp, Phase.drained] at hd
  · obtain hp | hp := hp <;> simp [hp, Phase.summary?] at hs

theorem Faithful.undrained {es : List EventRecord} (h : Faithful s out) (hd : s.drain = some es) :
    s.phase.drained = false := by
  refine Bool.eq_false_iff.mpr (fun hdr => ?_)
  have idle := (h.drained hdr).1
  rw [hd] at idle
  cases idle

theorem Faithful.insert {e : EventRecord} {rest : List EventRecord} {stream : EventStream}
    (h : Faithful s out) (hd : s.drain = some (e :: rest))
    (hw : s.stream.Write (e.line s.recorder.rank) stream) :
    Faithful { s with
      stream := stream
      drain := some rest
      failed := s.failed || (s.stream.good && !stream.good) } (out ++ [e]) := by
  have busy : s.rest = e :: rest := by rw [State.rest, hd]; rfl
  have undrained := h.undrained hd
  refine { h with
    numbered := fun hz => ?_
    staging := fun hz => absurd hz (Option.some_ne_none _)
    written := ?_
    lost := ?_
    holding := h.holding.write hw ?_
    last := fun hp _ => h.last hp (by rw [hd]; exact Option.some_ne_none _)
    drained := fun hz => absurd (undrained.symm.trans hz) Bool.false_ne_true
    closed := fun hz => ?_ }
  · have before := h.numbered hz
    rw [busy] at before
    simpa [State.rest] using before
  · have before := h.written
    rw [busy] at before
    simp only [State.rest, Option.getD_some, List.length_append, List.length_cons,
      List.length_nil] at before ⊢
    omega
  · show (s.failed || (s.stream.good && !stream.good)) = !stream.good
    rw [h.lost]
    exact (write_lost hw).symm
  · rw [eventLines_append]
    simp [eventLines]
  · cases hp : s.phase <;> simp [hp, Phase.drained, Phase.isClosed] at hz undrained

theorem step_faithful (hs : Step s s') (h : Faithful s out) :
    ∃ out', Faithful s' out' ∧ (s'.calls = s.calls → s'.kept out' = s.kept out) := by
  cases hs with
  | record call hp => exact ⟨out, h.record call hp, fun hc => absurd hc (Nat.succ_ne_self _)⟩
  | overflow hp =>
    exact ⟨out, { h with
      summary := fun summary hs => by simp [hp, Phase.summary?] at hs }, fun _ => rfl⟩
  | swap hp hi hd =>
    refine ⟨out, h.swap hp hi, fun _ => ?_⟩
    simp [State.kept, State.rest, Recorder.swap, h.staging hi, hi]
  | @insert e rest stream hd hw =>
    refine ⟨out ++ [e], h.insert hd hw, fun _ => ?_⟩
    simp [State.kept, State.rest, hd]
  | wrote hd =>
    have busy : s.rest = [] := by rw [State.rest, hd]; rfl
    have undrained := h.undrained hd
    refine ⟨out, { h with
      numbered := fun hz => ?_
      staging := fun _ => rfl
      written := ?_
      last := fun _ hz => absurd rfl hz
      drained := fun hz => ⟨rfl, fun _ => ?_⟩
      summary := fun summary hz => ?_
      closed := fun hz => ?_ }, fun _ => ?_⟩
    · have before := h.numbered hz
      rwa [busy] at before
    · have before := h.written
      rwa [busy] at before
    · cases hp : s.phase with
      | finishing drained =>
        rw [hp] at undrained
        obtain rfl : drained = false := undrained
        exact h.last hp (by rw [hd]; exact Option.some_ne_none _)
      | _ => simp [hp, Phase.drained] at hz undrained
    · cases hp : s.phase <;> simp [hp, Phase.drained, Phase.summary?] at hz undrained
    · cases hp : s.phase <;> simp [hp, Phase.drained, Phase.isClosed] at hz undrained
    · rw [State.kept, State.kept, busy]
      rfl
  | snapshot hp hi hf =>
    refine ⟨out, h.flush hf s.phase id id (fun summary hs => ?_), fun _ => rfl⟩
    simp [hp, Phase.summary?] at hs
  | finish hp hi =>
    exact ⟨out, { h with
      last := fun _ hd => absurd hi hd
      drained := fun hd => nomatch hd
      summary := fun _ hs => nomatch hs
      closed := fun hd => nomatch hd }, fun _ => rfl⟩
  | skip hp hi hd =>
    refine ⟨out, { h with
      last := fun hf => nomatch hf
      drained := fun _ => ⟨hi, fun hg => ?_⟩
      summary := fun _ hs => nomatch hs
      closed := fun hd => nomatch hd }, fun _ => rfl⟩
    rw [State.drains, h.tracing, show s.stream.good = true from hg] at hd
    cases hd
  | publish hp hf =>
    refine ⟨out, h.flush hf _ (fun _ => by rw [hp]; rfl) (fun hf => nomatch hf)
      (fun summary hs => ?_), fun _ => rfl⟩
    exact (Option.some.inj hs).symm
  | close hp hf =>
    refine ⟨out, h.flush hf _ (fun _ => by rw [hp]; rfl) (fun hf => nomatch hf)
      (fun summary hs => ?_), fun _ => rfl⟩
    exact h.summary summary (by rw [hp]; exact hs)

end step

theorem reachable_faithful {s : State} (h : Reachable s) : ∃ out, Faithful s out := by
  induction h with
  | start => exact ⟨[], initial_faithful⟩
  | step _ hs ih =>
    obtain ⟨out, h⟩ := ih
    obtain ⟨out', h', -⟩ := step_faithful hs h
    exact ⟨out', h'⟩

section lines

open JsonValue (Printable)

theorem recorderQuote_printable (t : String) : ∀ x ∈ recorderQuote t, Printable x := by
  intro x hx
  rw [recorderQuote, List.cons_append, List.mem_cons, List.mem_append, List.mem_flatMap,
    List.mem_singleton] at hx
  obtain rfl | ⟨c, -, hc⟩ | rfl := hx
  · decide
  · split at hc
    · exact JsonValue.escape_printable c x hc
    · next hplain =>
      obtain rfl := List.mem_singleton.mp hc
      exact Nat.le_of_not_lt (fun hlt => hplain (.inl hlt))
  · decide

theorem eventMember_printable {name : String} {value : List Char}
    (h : ∀ x ∈ value, Printable x) : ∀ x ∈ eventMember name value, Printable x := by
  intro x hx
  rw [eventMember, List.mem_append, List.mem_cons] at hx
  obtain hx | rfl | hx := hx
  · exact recorderQuote_printable name x hx
  · decide
  · exact h x hx

theorem intercalate_printable {sep : List Char} {parts : List (List Char)}
    (hsep : ∀ x ∈ sep, Printable x) (h : ∀ part ∈ parts, ∀ x ∈ part, Printable x) :
    ∀ x ∈ List.intercalate sep parts, Printable x := by
  induction parts with
  | nil => exact fun _ hx => nomatch hx
  | cons part rest ih =>
    rw [List.forall_mem_cons] at h
    cases rest with
    | nil => simpa [List.intercalate] using h.1
    | cons next rest =>
      intro x hx
      rw [List.intercalate_cons_cons, List.mem_append, List.mem_append] at hx
      obtain (hx | hx) | hx := hx
      · exact h.1 x hx
      · exact hsep x hx
      · exact ih h.2 x hx

theorem text_printable (rank : Nat) (e : EventRecord) : ∀ x ∈ e.text rank, Printable x := by
  intro x hx
  rw [EventRecord.text, List.cons_append, List.mem_cons, List.mem_append, List.mem_singleton] at hx
  obtain rfl | hx | rfl := hx
  · decide
  · refine intercalate_printable (List.forall_mem_singleton.mpr (by decide)) ?_ x hx
    simp only [List.forall_mem_cons]
    refine ⟨eventMember_printable (JsonValue.digits_printable 2), ?_⟩
    have digits : ∀ name n, ∀ x ∈ eventMember name (JsonValue.digits n), Printable x :=
      fun name n => eventMember_printable (JsonValue.digits_printable n)
    have quoted : ∀ name t, ∀ x ∈ eventMember name (recorderQuote t), Printable x :=
      fun name t => eventMember_printable (recorderQuote_printable t)
    exact ⟨digits _ _, digits _ _, digits _ _, quoted _ _, quoted _ _, digits _ _, digits _ _,
      digits _ _, digits _ _, digits _ _, digits _ _, digits _ _, fun _ h => nomatch h⟩
  · decide

theorem count_line (rank : Nat) (e : EventRecord) : (e.line rank).count '\n' = 1 := by
  have none : (e.text rank).count '\n' = 0 := by
    rw [List.count_eq_zero]
    exact fun hm => absurd (text_printable rank e _ hm) (by decide)
  rw [EventRecord.line, List.count_append, none]
  rfl

theorem count_eventLines (rank : Nat) (events : List EventRecord) :
    (eventLines rank events).count '\n' = events.length := by
  induction events with
  | nil => rfl
  | cons e events ih =>
    have split : eventLines rank (e :: events) = e.line rank ++ eventLines rank events :=
      List.flatMap_cons
    rw [split, List.count_append, count_line, ih, List.length_cons, Nat.add_comm]

theorem count_strict_prefix {rank : Nat} {events : List EventRecord} {file : List Char}
    (h : file <+: eventLines rank events) (hne : file ≠ eventLines rank events) :
    file.count '\n' < events.length := by
  obtain ⟨tail, htail⟩ := h
  have missing : tail ≠ [] := by
    rintro rfl
    exact hne (by rw [← htail, List.append_nil])
  have ends : '\n' ∈ tail := by
    obtain rfl | ⟨before, e, rfl⟩ := List.eq_nil_or_concat events
    · exact absurd (List.append_eq_nil_iff.mp htail).2 missing
    · have last : (eventLines rank (before ++ [e])).getLast? = some '\n' := by
        rw [eventLines_append]
        simp [eventLines, EventRecord.line]
      rw [← List.concat_eq_append, ← htail, List.getLast?_append,
        List.getLast?_eq_some_getLast missing] at last
      exact List.mem_of_getLast? (List.getLast?_eq_some_getLast missing |>.trans last)
  have positive := List.count_pos_iff.mpr ends
  have total := count_eventLines rank events
  rw [← htail, List.count_append] at total
  omega

end lines

/-- The file has one complete line for each call, in order, and the summary says so. -/
def Complete (s : State) (snapshot : RecorderSnapshot) : Prop :=
  (∃ events, s.stream.file = eventLines s.recorder.rank events ∧
    events.map EventRecord.sequence = List.range s.calls) ∧ snapshot.eventsWritten = s.calls

section final

variable {s : State} {out : List EventRecord} {snapshot : RecorderSnapshot} {writerFailed : Bool}

theorem Faithful.closed_facts (h : Faithful s out) (hp : s.phase = .closed snapshot writerFailed) :
    snapshot = s.recorder.captureSnapshot ∧ writerFailed = false ∧ s.rest = [] ∧
      s.recorder.eventsWritten = out.length := by
  have summary := h.summary (snapshot, writerFailed) (by rw [hp]; rfl)
  obtain ⟨rfl, rfl⟩ := Prod.mk.inj summary
  obtain ⟨idle, -⟩ := h.drained (by rw [hp]; rfl)
  have rest : s.rest = [] := by rw [State.rest, idle]; rfl
  have written := h.written
  rw [rest, h.staging idle] at written
  exact ⟨rfl, h.healthy, rest, written⟩

/-- Nothing failed: the file holds what was inserted, and that is every call. -/
theorem Faithful.complete (h : Faithful s out) (hp : s.phase = .closed snapshot writerFailed)
    (hfailed : s.failed = false) (hdropped : s.recorder.eventsDropped = 0) :
    Complete s snapshot := by
  obtain ⟨rfl, -, rest, written⟩ := h.closed_facts hp
  have good : s.stream.good = true := by
    have lost := h.lost
    rw [hfailed] at lost
    simpa using lost.symm
  obtain ⟨-, drained⟩ := h.drained (by rw [hp]; rfl)
  have numbered := h.numbered hdropped
  rw [rest, drained good, List.append_nil, List.append_nil] at numbered
  have held : s.stream.file ++ s.stream.buffer = eventLines s.recorder.rank out := by
    have holding := h.holding
    rwa [Holding, if_pos good] at holding
  rw [h.closed (by rw [hp]; rfl) good, List.append_nil] at held
  refine ⟨⟨out, held, numbered⟩, ?_⟩
  have count := congrArg List.length numbered
  rw [List.length_map, List.length_range] at count
  exact written.trans count

/-- A write failed and no call was refused: the file is short of some line. -/
theorem Faithful.incomplete (h : Faithful s out)
    (hfailed : s.failed = true) (hdropped : s.recorder.eventsDropped = 0) :
    ¬Complete s snapshot := by
  rintro ⟨⟨events, hfile, hevents⟩, -⟩
  have bad : ¬s.stream.good = true := by
    have lost := h.lost
    rw [hfailed] at lost
    simpa using lost.symm
  obtain ⟨hpre, hne⟩ : _ ∧ _ := by
    have holding := h.holding
    rwa [Holding, if_neg bad] at holding
  have short := count_strict_prefix hpre hne
  rw [hfile, count_eventLines] at short
  have every := congrArg List.length hevents
  have logged := congrArg List.length (h.numbered hdropped)
  simp only [List.length_map, List.length_range, List.length_append] at every logged
  omega

/-- The final summary of a run hides no loss exactly when no write to the event file failed in it,
or some call found the event limit or the buffer exhausted. -/
theorem loss_reported_iff (h : Reachable s) (hp : s.phase = .closed snapshot writerFailed) :
    (snapshot.eventsDropped = 0 ∧ writerFailed = false → Complete s snapshot) ↔
      (s.failed = false ∨ s.refused = true) := by
  obtain ⟨out, h⟩ := reachable_faithful h
  obtain ⟨rfl, healthy, -, -⟩ := h.closed_facts hp
  constructor
  · intro reported
    by_contra hidden
    obtain ⟨hfailed, hrefused⟩ := not_or.mp hidden
    have dropped : s.recorder.eventsDropped = 0 := by
      by_contra hd
      exact hrefused (h.refused.mpr hd)
    exact h.incomplete (by simpa using hfailed) dropped (reported ⟨dropped, healthy⟩)
  · rintro condition ⟨dropped, -⟩
    obtain hfailed | hrefused := condition
    · exact h.complete hp hfailed dropped
    · exact absurd dropped (h.refused.mp hrefused)

end final

/-- One call, whose line the last flush cannot write. -/
def barrier : RecordCall := ⟨"MPI_Barrier", 0, 0, 0, -1, -1, 0, 0, -1⟩

def defaults : Recorder := .initial 0 1 "node" 7 100000 1024 65536 true

def lostRecorder : Recorder := (defaults.record barrier).swap.countWritten

def lost : State where
  recorder := lostRecorder
  stream := ⟨false, eventLines 0 [defaults.event barrier], []⟩
  drain := none
  phase := .closed lostRecorder.captureSnapshot false
  calls := 1
  failed := true
  refused := false

theorem lost_reachable : Reachable lost := by
  have start : Reachable (.initial defaults) := .start
  have recorded := start.step (.record barrier rfl)
  have finishing := recorded.step (.finish rfl rfl)
  have swapped := finishing.step (.swap (.inr rfl) rfl rfl)
  have taken : EventStream.Write ((defaults.event barrier).line 0) ⟨true, [], []⟩
      ⟨true, eventLines 0 [defaults.event barrier], []⟩ :=
    @EventStream.Write.taken _ [] [] [] _ (List.append_nil _)
  have inserted := swapped.step (.insert rfl taken)
  have wrote := inserted.step (.wrote rfl)
  have failed : EventStream.Flush ⟨true, eventLines 0 [defaults.event barrier], []⟩
      ⟨false, eventLines 0 [defaults.event barrier], []⟩ :=
    ⟨@EventStream.Write.failed [] _ [] [] _ List.nil_prefix (List.cons_ne_nil _ _).symm,
      fun h => nomatch h⟩
  have published := wrote.step (.publish rfl failed)
  have ignored : EventStream.Flush ⟨false, eventLines 0 [defaults.event barrier], []⟩
      ⟨false, eventLines 0 [defaults.event barrier], []⟩ := ⟨.ignored, fun h => nomatch h⟩
  have closed := published.step (.close rfl ignored)
  exact closed

theorem lost_line_unreported : ¬∀ s snapshot writerFailed, Reachable s →
    s.phase = .closed snapshot writerFailed →
    snapshot.eventsDropped = 0 ∧ writerFailed = false → Complete s snapshot := by
  intro claim
  obtain ⟨⟨events, hfile, hevents⟩, -⟩ :=
    claim lost _ _ lost_reachable rfl ⟨rfl, rfl⟩
  have lines := congrArg (List.count '\n') hfile
  rw [count_eventLines] at lines
  have every := congrArg List.length hevents
  rw [List.length_map, ← lines] at every
  exact absurd every (by decide)

theorem lost_line_iff :
    (lostRecorder.captureSnapshot.eventsDropped = 0 ∧ false = false →
      Complete lost lostRecorder.captureSnapshot) ↔ (lost.failed = false ∨ lost.refused = true) :=
  loss_reported_iff lost_reachable rfl

end Recording

end RankLens
