import RankLens.Envelope
import RankLens.Spooling

namespace RankLens

namespace Agent

structure CaptureFile where
  name : String
  content : Bytes

abbrev Capture := Table CaptureFile.name

namespace Capture

def content (c : Capture) (name : String) : Bytes := ((c.get name).map CaptureFile.content).getD []

def append (c : Capture) (name : String) (bytes : Bytes) : Capture :=
  if (c.get name).isSome then
    c.modify name (fun f => { f with content := f.content ++ bytes }) (fun _ => rfl)
  else c.insert ⟨name, bytes⟩

def publish (c : Capture) (name : String) (bytes : Bytes) : Capture :=
  (c.deleteWhere (fun f => f.name = name)).insert ⟨name, bytes⟩

/-- `os.ReadDir` and the sort after it. -/
def readDir (c : Capture) : List String := (c.rows.map CaptureFile.name).mergeSort (fun a b => a ≤ b)

variable {c : Capture} {name other : String} {bytes : Bytes}

theorem content_append : (c.append name bytes).content other =
    if other = name then c.content name ++ bytes else c.content other := by
  unfold content append
  cases hg : c.get name with
  | some f =>
    rw [Option.isSome_some, if_pos rfl, Table.get_modify]
    by_cases he : other = name
    · rw [if_pos he, if_pos he, he, hg]
      rfl
    · rw [if_neg he, if_neg he]
  | none =>
    have hget : (c.insert (⟨name, bytes⟩ : CaptureFile)).get other =
        if name = other then some ⟨name, bytes⟩ else c.get other := Table.get_insert hg
    rw [Option.isSome_none, if_neg Bool.false_ne_true, hget]
    by_cases he : other = name
    · rw [if_pos he.symm, if_pos he]
      rfl
    · rw [if_neg (Ne.symm he), if_neg he]

theorem content_publish (h : other ≠ name) :
    (c.publish name bytes).content other = c.content other := by
  have hnone : (c.deleteWhere (fun f => f.name = name)).get name = none := by
    refine Table.get_eq_none.mpr (fun f hf hname => ?_)
    have hkept := (Table.mem_deleteWhere.mp hf).2
    simp [hname] at hkept
  have hget : ((c.deleteWhere (fun f => f.name = name)).insert
      (⟨name, bytes⟩ : CaptureFile)).get other = if name = other then some ⟨name, bytes⟩
        else (c.deleteWhere (fun f => f.name = name)).get other := Table.get_insert hnone
  unfold content publish
  rw [hget, if_neg (Ne.symm h), Table.get_deleteWhere]
  cases hg : c.get other with
  | none => rfl
  | some f =>
    have hkey : f.name = other := Table.key_of_get hg
    have hkept : (!decide (f.name = name)) = true := by simp [hkey, h]
    simp only [Option.filter, hkept, if_true]

end Capture

/-- The machine of one agent: the capture directory, the spool directory, the state in
memory while the agent runs, and the entries the running collect has before it. -/
structure Node where
  capture : Capture
  spool : Spool
  memory : Option State
  work : List String

def Node.initial (capture : Capture) : Node := ⟨capture, ⟨.empty, 0, .empty, none⟩, none, []⟩

/-- What happens on the machine. The recorder appends to its event files and replaces its
summaries; an agent starts, begins to collect, works on the next entry, or dies. -/
inductive Event where
  | append (name : String) (bytes : Bytes)
  | publish (name : String) (bytes : Bytes)
  | start (epoch : String) (outcome : WriteOutcome)
  | list
  | visit (w : Weather)
  | crash

variable (env : Env) (go : Go) (config : Config)

def start (epoch : String) (outcome : WriteOutcome) (n : Node) : Option Node :=
  match n.spool.saved with
  | some st => if st.transportEpoch = "" then none else some { n with memory := some st, work := [] }
  | none =>
    if epoch = "" then none
    else
      match saveState outcome ⟨epoch, fun _ => 0, fun _ => ⟨0, ""⟩⟩ n.spool with
      | (spool, st, .ok) => some { n with spool := spool, memory := some st, work := [] }
      | (spool, _, _) => some { n with spool := spool, memory := none, work := [] }

/-- The next round of the loop of `collect`. An error ends the loop, and a crash the agent. -/
def visit (w : Weather) (n : Node) (st : State) (name : String) (rest : List String) : Node :=
  match collectEntry env go config w name (n.capture.content name) st n.spool with
  | (spool, st, .ok) => ⟨n.capture, spool, some st, rest⟩
  | (spool, st, .failed _) => ⟨n.capture, spool, some st, []⟩
  | (spool, _, .crashed) => ⟨n.capture, spool, none, []⟩

def step (e : Event) (n : Node) : Option Node :=
  match e, n.memory, n.work with
  | .append name bytes, _, _ => some { n with capture := n.capture.append name bytes }
  | .publish name bytes, _, _ =>
    if hasSuffix name "-summary.json" then
      some { n with capture := n.capture.publish name bytes }
    else none
  | .start epoch outcome, none, _ => start epoch outcome n
  | .list, some _, [] => some { n with work := n.capture.readDir }
  | .visit w, some st, name :: rest => some (visit env go config w n st name rest)
  | .crash, _, _ => some { n with memory := none, work := [] }
  | _, _, _ => none

def runEvents : List Event → Node → Option Node
  | [], n => some n
  | e :: es, n => (step env go config e n).bind (runEvents es)

section Segments

def segmentsOf (streamId : String) (spool : Spool) : List SegmentUpload :=
  (spool.pending.rows.map PendingFile.upload).filter (fun u => u.streamId = streamId)

/-- Segments one after the other, the first at `first` and the last before `next`. -/
def Consecutive : Nat → List SegmentUpload → Nat → Prop
  | first, [], next => first = next
  | first, u :: us, next => u.firstSequence = first ∧ first ≤ u.lastSequence ∧
      Consecutive (u.lastSequence + 1) us next

variable {us vs : List SegmentUpload} {u : SegmentUpload} {first next : Nat}

theorem consecutive_append : Consecutive first (us ++ vs) next ↔
    ∃ middle, Consecutive first us middle ∧ Consecutive middle vs next := by
  induction us generalizing first with
  | nil =>
    constructor
    · intro h
      exact ⟨first, rfl, h⟩
    · intro ⟨middle, he, h⟩
      exact (show first = middle from he) ▸ h
  | cons u us ih =>
    constructor
    · intro ⟨hf, hl, h⟩
      obtain ⟨middle, hus, hvs⟩ := ih.mp h
      exact ⟨middle, ⟨hf, hl, hus⟩, hvs⟩
    · intro ⟨middle, ⟨hf, hl, hus⟩, hvs⟩
      exact ⟨hf, hl, ih.mpr ⟨middle, hus, hvs⟩⟩

theorem Consecutive.le (h : Consecutive first us next) : first ≤ next := by
  induction us generalizing first with
  | nil => exact Nat.le_of_eq h
  | cons u us ih =>
    have hrest := ih h.2.2
    have hfirst := h.2.1
    omega

theorem Consecutive.mem (h : Consecutive first us next) (hu : u ∈ us) :
    first ≤ u.firstSequence ∧ u.firstSequence ≤ u.lastSequence ∧ u.lastSequence < next := by
  induction us generalizing first with
  | nil => cases hu
  | cons v us ih =>
    obtain ⟨hf, hl, hrest⟩ := h
    obtain rfl | hu := List.mem_cons.mp hu
    · have hle := hrest.le
      omega
    · have hmem := ih hrest hu
      omega

theorem Consecutive.head (h : Consecutive first us next) (hu : u ∈ us)
    (hfirst : u.firstSequence = first) : ∃ vs, us = u :: vs := by
  cases us with
  | nil => cases hu
  | cons v vs =>
    obtain rfl | hv := List.mem_cons.mp hu
    · exact ⟨vs, rfl⟩
    · have hmem := h.2.2.mem hv
      have hle := h.2.1
      omega

theorem Consecutive.le_sum {f : SegmentUpload → Nat} (h : Consecutive first us next)
    (hf : ∀ u ∈ us, u.lastSequence + 1 ≤ u.firstSequence + f u) :
    next ≤ first + (us.map f).sum := by
  induction us generalizing first with
  | nil => exact Nat.le_of_eq (Eq.symm h)
  | cons u us ih =>
    obtain ⟨hfirst, _, hrest⟩ := h
    have hu := hf u List.mem_cons_self
    have hsum := ih hrest (fun v hv => hf v (List.mem_cons_of_mem u hv))
    rw [List.map_cons, List.sum_cons]
    omega

theorem mem_segmentsOf {streamId : String} {spool : Spool} :
    u ∈ segmentsOf streamId spool ↔ u.streamId = streamId ∧
      ∃ p ∈ spool.pending, p.upload = u := by
  rw [segmentsOf, List.mem_filter, List.mem_map, decide_eq_true_eq, and_comm]
  rfl

theorem sum_segmentsOf (streamId : String) (spool : Spool) :
    ((segmentsOf streamId spool).map (fun u => u.encoded.length)).sum ≤ sizes spool.pending := by
  have hsub : (segmentsOf streamId spool).Sublist (spool.pending.rows.map PendingFile.upload) :=
    List.filter_sublist
  have hsum := (hsub.map (fun u => u.encoded.length)).sum_le_sum (fun _ _ => Nat.zero_le _)
  rw [List.map_map] at hsum
  exact hsum

theorem rows_store {spool : Spool} (h : spool.pending.get (segmentName env u) = none) :
    (store env spool u).pending.rows = spool.pending.rows ++ [⟨segmentName env u, u⟩] := by
  have hn : segmentName env u ∉ spool.pending.rows.map PendingFile.name := by
    intro hm
    obtain ⟨p, hp, hk⟩ := List.mem_map.mp hm
    exact Table.get_eq_none.mp h p hp hk
  unfold store Table.insert
  rw [dif_neg hn]

theorem segmentsOf_store {streamId : String} {spool : Spool}
    (h : spool.pending.get (segmentName env u) = none) :
    segmentsOf streamId (store env spool u) =
      segmentsOf streamId spool ++ (if u.streamId = streamId then [u] else []) := by
  unfold segmentsOf
  rw [rows_store env h, List.map_append, List.filter_append, List.map_singleton,
    List.filter_singleton]
  by_cases he : u.streamId = streamId <;> simp [he]

theorem sizes_store {spool : Spool} (h : spool.pending.get (segmentName env u) = none) :
    sizes (store env spool u).pending = sizes spool.pending + u.encoded.length := by
  unfold sizes
  rw [rows_store env h, List.map_append, List.sum_append, List.map_singleton, List.sum_singleton]

end Segments

/-- A segment the agent built in a transport epoch, its numbers not wrapped around. -/
def Built (epoch : String) (u : SegmentUpload) : Prop :=
  ∃ st payload records budget, st.transportEpoch = epoch ∧
    u = segmentUpload env config st u.streamId payload records budget ∧
    recordsOf go u.streamId payload = some records ∧ 0 < records ∧
    records ≤ payload.length + 1 ∧ u.lastSequence + 1 = u.firstSequence + records

/-- The pending segments of each stream follow one another from zero on. -/
structure Written (epoch : String) (spool : Spool) : Prop where
  named : ∀ p ∈ spool.pending, p.name = segmentName env p.upload
  built : ∀ p ∈ spool.pending, Built env go config epoch p.upload
  ranges : ∀ streamId, ∃ next, Consecutive 0 (segmentsOf streamId spool) next
  fits : sizes spool.pending ≤ config.maxSpoolBytes

/-- A piece of a capture file that went into one segment. -/
structure Chunk where
  name : String
  payload : Bytes

def Seals (c : Chunk) (u : SegmentUpload) : Prop :=
  u.payloadBase64 = String.ofList (b64encode c.payload)

/-- The segments of a stream before `next` hold the chunks of the log, one each. -/
def Covers (spool : Spool) (streamId : String) (log : List Chunk) (next : Nat) : Prop :=
  ∃ taken ahead, segmentsOf streamId spool = taken ++ ahead ∧ Consecutive 0 taken next ∧
    List.Forall₂ Seals log taken

def chunksOf (name : String) (log : List Chunk) : List Chunk := log.filter (fun c => c.name = name)

/-- The log accounts for the state: it stands in the segments the state counts, and its
chunks of a file are what the state has consumed of it. -/
structure Accounts (capture : Capture) (spool : Spool) (st : State) (log : String → List Chunk) :
    Prop where
  covers : ∀ streamId, Covers spool streamId (log streamId) (st.nextSequence streamId)
  bounded : ∀ name, (st.files name).offset ≤ (capture.content name).length
  consumed : ∀ name, (chunksOf name (log "mpi-events")).flatMap Chunk.payload =
    (capture.content name).take (st.files name).offset
  terminated : ∀ c ∈ log "mpi-events", Terminated c.payload
  idle : ∀ name, hasSuffix name "-summary.json" → (st.files name).offset = 0

def Tracked (capture : Capture) (spool : Spool) (epoch : String) (st : State) : Prop :=
  st.transportEpoch = epoch ∧ ∃ log, Accounts capture spool st log

structure Consistent (epoch : String) (n : Node) : Prop where
  written : Written env go config epoch n.spool
  memory : ∀ st, n.memory = some st → Tracked n.capture n.spool epoch st
  saved : ∀ st, n.spool.saved = some st → Tracked n.capture n.spool epoch st
  fresh : n.spool.saved = none → n.memory = none ∧ n.spool.pending.rows = []

/-- A segment that is pending where the offer would go is made of the same payload under the
same budgets, and the files of dead writes are not what fills the spool. -/
structure Repeatable (st : State) (spool : Spool) (o : Offer) (budget : NodeBudgetSnapshot) :
    Prop where
  same : ∀ p ∈ spool.pending, p.upload.streamId = o.streamId →
    p.upload.firstSequence = st.nextSequence o.streamId →
      p.upload.payloadBase64 = String.ofList (b64encode o.payload) ∧ p.upload.nodeBudget = budget
  room : sizes spool.pending + spool.strays +
      (segmentUpload env config st o.streamId o.payload o.records budget).encoded.length ≤
        config.maxSpoolBytes ∨
    config.maxSpoolBytes < sizes spool.pending +
      (segmentUpload env config st o.streamId o.payload o.records budget).encoded.length

/-- An event that works on an entry finds its offer repeatable. -/
def Repeats (n : Node) (e : Event) : Prop :=
  ∀ w st name rest o budget, e = .visit w → n.memory = some st → n.work = name :: rest →
    offered env go name (n.capture.content name) st = some o →
      enforceNodeBudgets config w = .ok budget → Repeatable env config st n.spool o budget

/-- The spool refuses what it would take without the trace of an earlier crash: it holds
another segment for the range, or dead files fill it. -/
def Refused (w : Weather) (n : Node) : Prop :=
  ∃ st name rest spool' st' e, n.memory = some st ∧ n.work = name :: rest ∧
    collectEntry env go config w name (n.capture.content name) st n.spool =
      (spool', st', .failed e) ∧
    (e = .different ∨ ∃ used limit o budget, e = .quota used limit ∧
      offered env go name (n.capture.content name) st = some o ∧
      enforceNodeBudgets config w = .ok budget ∧ sizes n.spool.pending +
        (segmentUpload env config st o.streamId o.payload o.records budget).encoded.length ≤
          config.maxSpoolBytes)

section Covering

variable {env go config}
variable {epoch : String} {spool spool' : Spool} {st : State} {streamId : String}
variable {u : SegmentUpload} {log : List Chunk} {next : Nat}

theorem Consecutive.unique {us : List SegmentUpload} {first m : Nat}
    (h : Consecutive first us next) (h' : Consecutive first us m) : next = m := by
  induction us generalizing first with
  | nil => exact (Eq.symm h).trans h'
  | cons u us ih => exact ih h.2.2 h'.2.2

theorem Covers.snoc {m : Nat} {c : Chunk} (h : Covers spool streamId log next)
    (hranges : Consecutive 0 (segmentsOf streamId spool) m) (hu : u ∈ segmentsOf streamId spool)
    (hfirst : u.firstSequence = next) (hc : Seals c u) :
    Covers spool streamId (log ++ [c]) (u.lastSequence + 1) := by
  obtain ⟨taken, ahead, hsplit, htaken, hlog⟩ := h
  rw [hsplit] at hranges hu
  obtain ⟨b, hb, hahead⟩ := consecutive_append.mp hranges
  obtain rfl := htaken.unique hb
  have hmem : u ∈ ahead := by
    obtain hin | hin := List.mem_append.mp hu
    · have hbefore := htaken.mem hin
      omega
    · exact hin
  obtain ⟨rest, rfl⟩ := hahead.head hmem hfirst
  obtain ⟨_, hle, _⟩ := hahead
  refine ⟨taken ++ [u], rest, ?_, ?_, ?_⟩
  · rw [hsplit, List.append_assoc, List.singleton_append]
  · exact consecutive_append.mpr ⟨next, htaken, hfirst, hle, rfl⟩
  · exact List.rel_append hlog (List.Forall₂.cons hc List.Forall₂.nil)

theorem Covers.mono (h : Covers spool streamId log next)
    (hext : segmentsOf streamId spool <+: segmentsOf streamId spool') :
    Covers spool' streamId log next := by
  obtain ⟨taken, ahead, hsplit, htaken, hlog⟩ := h
  obtain ⟨extra, hextra⟩ := hext
  exact ⟨taken, ahead ++ extra, by rw [← hextra, hsplit, List.append_assoc], htaken, hlog⟩

theorem Covers.end {m : Nat} (h : Covers spool streamId log next)
    (hranges : Consecutive 0 (segmentsOf streamId spool) m)
    (hnone : ∀ v ∈ segmentsOf streamId spool, v.firstSequence ≠ next) : m = next := by
  obtain ⟨taken, ahead, hsplit, htaken, _⟩ := h
  rw [hsplit] at hranges hnone
  obtain ⟨b, hb, hahead⟩ := consecutive_append.mp hranges
  obtain rfl := htaken.unique hb
  cases ahead with
  | nil => exact Eq.symm hahead
  | cons v ahead => exact absurd hahead.1 (hnone v (List.mem_append_right _ List.mem_cons_self))

theorem Built.size (h : Built env go config epoch u) :
    u.lastSequence + 1 ≤ u.firstSequence + u.encoded.length := by
  obtain ⟨st, payload, records, budget, _, hu, _, _, hle, hlast⟩ := h
  have hlen : payload.length + 1 ≤ u.encoded.length := by
    refine length_encoded (u := u) ?_
    rw [hu]
    rfl
  omega

theorem Covers.next_le (h : Covers spool streamId log next)
    (hw : Written env go config epoch spool) : next ≤ config.maxSpoolBytes := by
  obtain ⟨m, hranges⟩ := hw.ranges streamId
  have hsum := hranges.le_sum (f := fun u => u.encoded.length) (fun u hu => by
    obtain ⟨_, p, hp, rfl⟩ := mem_segmentsOf.mp hu
    exact (hw.built p hp).size)
  have hsizes := sum_segmentsOf streamId spool
  have hfits := hw.fits
  obtain ⟨taken, ahead, hsplit, htaken, _⟩ := h
  rw [hsplit] at hranges
  obtain ⟨b, hb, hahead⟩ := consecutive_append.mp hranges
  obtain rfl := htaken.unique hb
  have hle := hahead.le
  omega

theorem Built.eq {o : Offer} {budget : NodeBudgetSnapshot} (h : Built env go config epoch u)
    (hepoch : st.transportEpoch = epoch) (hrecords : recordsOf go o.streamId o.payload = some o.records)
    (hstream : u.streamId = o.streamId) (hfirst : u.firstSequence = st.nextSequence o.streamId)
    (hpayload : u.payloadBase64 = String.ofList (b64encode o.payload))
    (hbudget : u.nodeBudget = budget) :
    u = segmentUpload env config st o.streamId o.payload o.records budget := by
  obtain ⟨st', payload, records, budget', hepoch', hu, hrec, _⟩ := h
  have hb64 : String.ofList (b64encode payload) = String.ofList (b64encode o.payload) := by
    rw [hu] at hpayload
    exact hpayload
  obtain rfl := b64encode_injective (String.ofList_injective hb64)
  rw [hstream, hrecords] at hrec
  obtain rfl := Option.some.inj hrec
  have hnext : st'.nextSequence o.streamId = st.nextSequence o.streamId := by
    rw [hu, hstream] at hfirst
    exact hfirst
  have hbudget' : budget' = budget := by
    rw [hu] at hbudget
    exact hbudget
  rw [hu, hstream]
  unfold segmentUpload
  rw [hnext, hbudget', hepoch', hepoch]

end Covering

section Spooling

variable {env go config}
variable {epoch name : String} {spool : Spool} {st : State} {o : Offer} {w : Weather}

/-- The chunks an offer adds to the log of a stream. -/
def added (name : String) (o : Offer) (streamId : String) : List Chunk :=
  if streamId = o.streamId ∧ o.payload ≠ [] then [⟨name, o.payload⟩] else []

structure Spooled (env : Env) (go : Go) (config : Config) (epoch name : String) (o : Offer)
    (st : State) (spool : Spool) (r : Spool × State × Ended) : Prop where
  written : Written env go config epoch r.1
  extends' : ∀ streamId, segmentsOf streamId spool <+: segmentsOf streamId r.1
  saved : r.1.saved = spool.saved
  failed : r.2.2 ≠ .ok → r.2.1 = st
  kept : r.2.1.files = st.files ∧ r.2.1.transportEpoch = st.transportEpoch
  covers : r.2.2 = .ok → ∀ streamId log, Covers spool streamId log (st.nextSequence streamId) →
    Covers r.1 streamId (log ++ added name o streamId) (r.2.1.nextSequence streamId)

theorem Spooled.unchanged {ended : Ended} (hw : Written env go config epoch spool)
    (h : ended = .ok → o.payload = []) :
    Spooled env go config epoch name o st spool (spool, st, ended) where
  written := hw
  extends' _ := List.prefix_rfl
  saved := rfl
  failed _ := rfl
  kept := ⟨rfl, rfl⟩
  covers he streamId log hc := by
    have hnone : added name o streamId = [] := if_neg (fun ha => ha.2 (h he))
    rw [hnone, List.append_nil]
    exact hc

theorem segmentUpload_last {budget : NodeBudgetSnapshot} (hpos : 0 < o.records)
    (hlt : st.nextSequence o.streamId + o.records < 2 ^ 64) :
    (segmentUpload env config st o.streamId o.payload o.records budget).lastSequence + 1 =
      st.nextSequence o.streamId + o.records := by
  have hmod : (st.nextSequence o.streamId + o.records - 1) % 2 ^ 64 =
      st.nextSequence o.streamId + o.records - 1 := Nat.mod_eq_of_lt (by omega)
  show (st.nextSequence o.streamId + o.records - 1) % 2 ^ 64 + 1 = _
  rw [hmod]
  omega

variable {budget : NodeBudgetSnapshot} {u : SegmentUpload}

structure Building (env : Env) (go : Go) (config : Config) (epoch : String) (st : State)
    (o : Offer) (budget : NodeBudgetSnapshot) (u : SegmentUpload) : Prop where
  eq : u = segmentUpload env config st o.streamId o.payload o.records budget
  built : Built env go config epoch u
  last : u.lastSequence + 1 = st.nextSequence o.streamId + o.records
  positive : 0 < o.records
  bounded : st.nextSequence o.streamId + o.records < 2 ^ 64

theorem Building.next (h : Building env go config epoch st o budget u) (streamId : String) :
    (advance st u).nextSequence streamId =
      if streamId = o.streamId then u.lastSequence + 1 else st.nextSequence streamId := by
  have hstream : u.streamId = o.streamId := by
    rw [h.eq]
    rfl
  have hmod : (u.lastSequence + 1) % 2 ^ 64 = u.lastSequence + 1 := by
    refine Nat.mod_eq_of_lt ?_
    rw [h.last]
    exact h.bounded
  show Function.update st.nextSequence u.streamId _ streamId = _
  rw [Function.update_apply, hstream, hmod]

theorem Building.covers {spool' : Spool} (h : Building env go config epoch st o budget u)
    (hw : Written env go config epoch spool')
    (hext : ∀ streamId, segmentsOf streamId spool <+: segmentsOf streamId spool')
    (hu : u ∈ segmentsOf o.streamId spool') (hne : o.payload ≠ []) {streamId : String}
    {log : List Chunk} (hc : Covers spool streamId log (st.nextSequence streamId)) :
    Covers spool' streamId (log ++ added name o streamId)
      ((advance st u).nextSequence streamId) := by
  rw [h.next]
  by_cases hs : streamId = o.streamId
  · subst hs
    obtain ⟨m, hranges⟩ := hw.ranges o.streamId
    have hfirst : u.firstSequence = st.nextSequence o.streamId := by
      rw [h.eq]
      rfl
    have hadded : added name o o.streamId = [⟨name, o.payload⟩] := if_pos ⟨rfl, hne⟩
    rw [if_pos rfl, hadded]
    refine (hc.mono (hext _)).snoc hranges hu hfirst ?_
    rw [Seals, h.eq]
    rfl
  · have hnone : added name o streamId = [] := if_neg (fun ha => hs ha.1)
    rw [if_neg hs, hnone, List.append_nil]
    exact hc.mono (hext _)

theorem Written.strays {strays : Nat} (hw : Written env go config epoch spool) :
    Written env go config epoch { spool with strays := strays } :=
  ⟨hw.named, hw.built, hw.ranges, hw.fits⟩

theorem Written.store {log : List Chunk} (hw : Written env go config epoch spool)
    (h : Building env go config epoch st o budget u)
    (hc : Covers spool o.streamId log (st.nextSequence o.streamId))
    (hnone : spool.pending.get (segmentName env u) = none)
    (hfree : ∀ v ∈ segmentsOf o.streamId spool, v.firstSequence ≠ st.nextSequence o.streamId)
    (hroom : sizes spool.pending + u.encoded.length ≤ config.maxSpoolBytes) :
    Written env go config epoch (store env spool u) where
  named p hp := by
    obtain hp | rfl := (Table.mem_insert hnone).mp hp
    · exact hw.named p hp
    · rfl
  built p hp := by
    obtain hp | rfl := (Table.mem_insert hnone).mp hp
    · exact hw.built p hp
    · exact h.built
  ranges streamId := by
    obtain ⟨m, hranges⟩ := hw.ranges streamId
    have hstream : u.streamId = o.streamId := by
      rw [h.eq]
      rfl
    rw [segmentsOf_store env hnone, hstream]
    by_cases hs : o.streamId = streamId
    · subst hs
      obtain rfl := hc.end hranges hfree
      have hfirst : u.firstSequence = st.nextSequence o.streamId := by
        rw [h.eq]
        rfl
      have hlast := h.last
      have hpos := h.positive
      refine ⟨u.lastSequence + 1, ?_⟩
      rw [if_pos rfl]
      exact consecutive_append.mpr ⟨_, hranges, hfirst, by omega, rfl⟩
    · refine ⟨m, ?_⟩
      rw [if_neg hs, List.append_nil]
      exact hranges
  fits := by
    rw [sizes_store env hnone]
    exact hroom

theorem recordsOf_stream {streamId : String} {payload : Bytes} {records : Nat}
    (h : recordsOf go streamId payload = some records) :
    streamId = "mpi-events" ∨ streamId = "rank-summary" := by
  unfold recordsOf at h
  split_ifs at h with hevents hsummary
  · exact Or.inl hevents
  · exact Or.inr hsummary

/-- The two streams have names of their own among the pending segments. -/
def Apart (env : Env) : Prop := streamDigest env "rank-summary" ≠ streamDigest env "mpi-events"

theorem stream_of_digest (hstreams : Apart env) {s s' : String}
    (hs : s = "mpi-events" ∨ s = "rank-summary") (hs' : s' = "mpi-events" ∨ s' = "rank-summary")
    (h : streamDigest env s = streamDigest env s') : s = s' := by
  obtain rfl | rfl := hs
  · obtain rfl | rfl := hs'
    · rfl
    · exact absurd h.symm hstreams
  · obtain rfl | rfl := hs'
    · exact absurd h hstreams
    · rfl

theorem Building.of_offer {log : List Chunk} {content : Bytes}
    (hw : Written env go config epoch spool) (hepoch : st.transportEpoch = epoch)
    (hc : Covers spool o.streamId log (st.nextSequence o.streamId))
    (ho : Offered go name content st o) (hsize : o.payload.length ≤ maxSegmentBytes) :
    Building env go config epoch st o budget
      (segmentUpload env config st o.streamId o.payload o.records budget) := by
  have hnext := hc.next_le hw
  have hmax := config.budget.2
  have hbounded := ho.bounded
  have hsegment : maxSegmentBytes = 8388608 := by decide
  have hlt : st.nextSequence o.streamId + o.records < 2 ^ 64 := by omega
  have hlast := @segmentUpload_last env config _ _ budget ho.positive hlt
  exact ⟨rfl, ⟨st, o.payload, o.records, budget, hepoch, rfl, ho.records, ho.positive, hbounded,
    hlast⟩, hlast, ho.positive, hlt⟩

theorem pending_same (hw : Written env go config epoch spool) (hepoch : st.transportEpoch = epoch)
    {content : Bytes} (ho : Offered go name content st o)
    (hrep : Repeatable env config st spool o budget) {p : PendingFile} (hp : p ∈ spool.pending)
    (hstream : p.upload.streamId = o.streamId)
    (hfirst : p.upload.firstSequence = st.nextSequence o.streamId) :
    p.upload = segmentUpload env config st o.streamId o.payload o.records budget := by
  obtain ⟨hpayload, hbudget⟩ := hrep.same p hp hstream hfirst
  exact (hw.built p hp).eq hepoch ho.records hstream hfirst hpayload hbudget

theorem pending_of_name (hstreams : Apart env) (hw : Written env go config epoch spool)
    (hepoch : st.transportEpoch = epoch) {content : Bytes} (ho : Offered go name content st o)
    (hrep : Repeatable env config st spool o budget) {p : PendingFile}
    (hp : spool.pending.get (segmentName env
      (segmentUpload env config st o.streamId o.payload o.records budget)) = some p) :
    p.upload = segmentUpload env config st o.streamId o.payload o.records budget := by
  have hmem := Table.mem_of_get hp
  have hname : segmentName env p.upload = segmentName env
      (segmentUpload env config st o.streamId o.payload o.records budget) :=
    (hw.named p hmem).symm.trans (Table.key_of_get hp)
  obtain ⟨_, _, _, _, _, _, hrec, _⟩ := hw.built p hmem
  have hdigest := congrArg SegmentName.streamDigest hname
  have hstream : p.upload.streamId = o.streamId :=
    stream_of_digest hstreams (recordsOf_stream hrec) (recordsOf_stream ho.records) hdigest
  exact pending_same hw hepoch ho hrep hmem hstream (congrArg SegmentName.first hname)

theorem enforceNodeBudgets_foreign {e : Error} (h : enforceNodeBudgets config w = .error e) :
    Foreign e := by
  unfold enforceNodeBudgets measureNodeBudgets at h
  cases hfree : w.free with
  | error m =>
    rw [hfree] at h
    cases h
    exact ⟨Error.noConfusion, fun _ _ => Error.noConfusion⟩
  | ok free =>
    rw [hfree] at h
    dsimp only at h
    split_ifs at h
    · cases h
      exact ⟨Error.noConfusion, fun _ _ => Error.noConfusion⟩
    · cases h
      exact ⟨Error.noConfusion, fun _ _ => Error.noConfusion⟩

theorem spoolSegment_keeps (hstreams : Apart env) (hw : Written env go config epoch spool)
    (hepoch : st.transportEpoch = epoch) {content : Bytes} (ho : Offered go name content st o)
    (hsize : o.payload.length ≤ maxSegmentBytes) (hne : o.payload ≠ [])
    (hcovers : ∃ log, Covers spool o.streamId log (st.nextSequence o.streamId))
    (hrep : Repeatable env config st spool o budget) {r : Spool × State × Ended}
    (hr : Sealing env config
      (segmentUpload env config st o.streamId o.payload o.records budget) st spool r) :
    Spooled env go config epoch name o st spool r ∧ ∀ e, r.2.2 = .failed e → e ≠ .different ∧
      ((∃ used limit, e = .quota used limit) → config.maxSpoolBytes < sizes spool.pending +
        (segmentUpload env config st o.streamId o.payload o.records budget).encoded.length) := by
  obtain ⟨log, hc⟩ := hcovers
  have hbuild : Building env go config epoch st o budget
      (segmentUpload env config st o.streamId o.payload o.records budget) :=
    Building.of_offer hw hepoch hc ho hsize
  have hown : (segmentUpload env config st o.streamId o.payload o.records budget).streamId =
      o.streamId := rfl
  generalize hu : segmentUpload env config st o.streamId o.payload o.records budget = u at *
  have hfree : spool.pending.get (segmentName env u) = none →
      ∀ v ∈ segmentsOf o.streamId spool, v.firstSequence ≠ st.nextSequence o.streamId := by
    intro hnone v hv hfirst
    obtain ⟨hstream, p, hp, rfl⟩ := mem_segmentsOf.mp hv
    have hsame := pending_same hw hepoch ho hrep hp hstream hfirst
    rw [hu] at hsame
    exact Table.get_eq_none.mp hnone p hp ((hw.named p hp).trans (by rw [hsame]))
  have hin : spool.pending.get (segmentName env u) = none →
      u ∈ segmentsOf o.streamId (store env spool u) := by
    intro hnone
    exact mem_segmentsOf.mpr ⟨hown, _, (Table.mem_insert hnone).mpr (Or.inr rfl), rfl⟩
  have hext : spool.pending.get (segmentName env u) = none → ∀ streamId,
      segmentsOf streamId spool <+: segmentsOf streamId (store env spool u) := by
    intro hnone streamId
    rw [segmentsOf_store env hnone]
    exact List.prefix_append _ _
  cases hr with
  | different hp hne' =>
    have hsame := pending_of_name hstreams hw hepoch ho hrep (hu ▸ hp)
    rw [hu] at hsame
    exact absurd (by rw [hsame]) hne'
  | again hp _ =>
    have hsame := pending_of_name hstreams hw hepoch ho hrep (hu ▸ hp)
    rw [hu] at hsame
    have hmem : u ∈ segmentsOf o.streamId spool :=
      mem_segmentsOf.mpr ⟨hown, _, Table.mem_of_get hp, hsame⟩
    exact ⟨⟨hw, fun _ => List.prefix_rfl, rfl, fun h => absurd rfl h, ⟨rfl, rfl⟩,
      fun _ _ _ hlog => hbuild.covers hw (fun _ => List.prefix_rfl) hmem hne hlog⟩,
      fun _ he => nomatch he⟩
  | full hnone hfull =>
    refine ⟨Spooled.unchanged hw (fun he => nomatch he), fun e he => ?_⟩
    cases he
    refine ⟨Error.noConfusion, fun _ => ?_⟩
    have hroom := hrep.room
    rw [hu] at hroom
    omega
  | stored hnone hroom =>
    have hw' := hw.store hbuild hc hnone (hfree hnone) (by omega)
    exact ⟨⟨hw', hext hnone, rfl, fun h => absurd rfl h, ⟨rfl, rfl⟩,
      fun _ _ _ hlog => hbuild.covers hw' (hext hnone) (hin hnone) hne hlog⟩,
      fun _ he => nomatch he⟩
  | @interrupted strays ended hnone hroom hended landed =>
    have hnotok : ended ≠ .ok := by
      obtain rfl | ⟨m, rfl⟩ := hended <;> exact Ended.noConfusion
    have hforeign : ∀ e, ended = .failed e → e ≠ .different ∧
        ((∃ used limit, e = .quota used limit) → config.maxSpoolBytes <
          sizes spool.pending + u.encoded.length) := by
      intro e he
      obtain rfl | ⟨m, rfl⟩ := hended
      · cases he
      · cases he
        exact ⟨Error.noConfusion, fun ⟨_, _, hq⟩ => nomatch hq⟩
    refine ⟨?_, hforeign⟩
    cases landed with
    | true =>
      have hw' := hw.store hbuild hc hnone (hfree hnone) (by omega)
      exact ⟨hw'.strays, hext hnone, rfl, fun _ => rfl, ⟨rfl, rfl⟩, fun he => absurd he hnotok⟩
    | false =>
      exact ⟨hw.strays, fun _ => List.prefix_rfl, rfl, fun _ => rfl, ⟨rfl, rfl⟩,
        fun he => absurd he hnotok⟩

theorem spoolPayload_keeps (hstreams : Apart env) (hw : Written env go config epoch spool)
    (hepoch : st.transportEpoch = epoch) {content : Bytes} (ho : Offered go name content st o)
    (hcovers : ∃ log, Covers spool o.streamId log (st.nextSequence o.streamId))
    (hrep : ∀ budget, enforceNodeBudgets config w = .ok budget →
      Repeatable env config st spool o budget) {r : Spool × State × Ended}
    (hr : spoolPayload env config w o.streamId o.payload o.records st spool = r) :
    Spooled env go config epoch name o st spool r ∧ ∀ e, r.2.2 = .failed e → e ≠ .different ∧
      ∀ budget, enforceNodeBudgets config w = .ok budget → (∃ used limit, e = .quota used limit) →
        config.maxSpoolBytes < sizes spool.pending +
          (segmentUpload env config st o.streamId o.payload o.records budget).encoded.length := by
  have hidle : ∀ e, Foreign e → r = (spool, st, .failed e) →
      Spooled env go config epoch name o st spool r ∧ ∀ e, r.2.2 = .failed e → e ≠ .different ∧
        ∀ budget, enforceNodeBudgets config w = .ok budget →
          (∃ used limit, e = .quota used limit) → config.maxSpoolBytes < sizes spool.pending +
            (segmentUpload env config st o.streamId o.payload o.records budget).encoded.length := by
    intro e he hr'
    subst hr'
    refine ⟨Spooled.unchanged hw (fun hok => nomatch hok), fun e' he' => ?_⟩
    cases he'
    exact ⟨he.1, fun _ _ ⟨used, limit, hq⟩ => absurd hq (he.2 used limit)⟩
  unfold spoolPayload at hr
  by_cases hempty : o.records = 0 ∨ o.payload = []
  · rw [if_pos hempty] at hr
    obtain hzero | hnil := hempty
    · exact absurd hzero (Nat.ne_of_gt ho.positive)
    · subst hr
      exact ⟨Spooled.unchanged hw (fun _ => hnil), fun e he => nomatch he⟩
  · rw [if_neg hempty] at hr
    by_cases hbig : maxSegmentBytes < o.payload.length
    · rw [if_pos hbig] at hr
      exact hidle .oversized ⟨Error.noConfusion, fun _ _ => Error.noConfusion⟩ hr.symm
    · rw [if_neg hbig] at hr
      cases hb : enforceNodeBudgets config w with
      | error e =>
        rw [hb] at hr
        rw [← hb]
        exact hidle e (enforceNodeBudgets_foreign hb) hr.symm
      | ok budget =>
        rw [hb] at hr
        cases hs : w.spool with
        | some m =>
          rw [hs] at hr
          rw [← hb]
          exact hidle (.os m) ⟨Error.noConfusion, fun _ _ => Error.noConfusion⟩ hr.symm
        | none =>
          rw [hs] at hr
          have hr : spoolSegment env config w (segmentUpload env config st o.streamId o.payload
              o.records budget) st spool = r := hr
          have hspec : Sealing env config (segmentUpload env config st o.streamId o.payload
              o.records budget) st spool r := by
            rw [← hr]
            exact spoolSegment_spec
          obtain ⟨hspooled, hforeign⟩ := spoolSegment_keeps hstreams hw hepoch ho
            (Nat.le_of_not_lt hbig) (fun hnil => hempty (Or.inr hnil)) hcovers (hrep budget hb) hspec
          refine ⟨hspooled, fun e he => ⟨(hforeign e he).1, fun b hbudget hq => ?_⟩⟩
          obtain rfl := Except.ok.inj hbudget
          exact (hforeign e he).2 hq

end Spooling

section Collecting

variable {env go config}
variable {epoch name : String} {spool spool' : Spool} {st : State} {o : Offer} {w : Weather}
variable {capture capture' : Capture}

/-- The log of a state after an offer of a file. -/
def extended (name : String) (o : Offer) (log : String → List Chunk) (streamId : String) :
    List Chunk :=
  log streamId ++ added name o streamId

theorem Accounts.mono {log : String → List Chunk} (h : Accounts capture spool st log)
    (hext : ∀ streamId, segmentsOf streamId spool <+: segmentsOf streamId spool') :
    Accounts capture spool' st log :=
  ⟨fun streamId => (h.covers streamId).mono (hext streamId), h.bounded, h.consumed, h.terminated,
    h.idle⟩

theorem Tracked.mono (h : Tracked capture spool epoch st)
    (hext : ∀ streamId, segmentsOf streamId spool <+: segmentsOf streamId spool') :
    Tracked capture spool' epoch st := by
  obtain ⟨hepoch, log, hlog⟩ := h
  exact ⟨hepoch, log, hlog.mono hext⟩

theorem Tracked.grow (h : Tracked capture spool epoch st)
    (hgrow : ∀ name, ¬ hasSuffix name "-summary.json" →
      capture.content name <+: capture'.content name) :
    Tracked capture' spool epoch st := by
  obtain ⟨hepoch, log, hcovers, hbounded, hconsumed, hterminated, hidle⟩ := h
  refine ⟨hepoch, log, hcovers, fun name => ?_, fun name => ?_, hterminated, hidle⟩
  · by_cases hname : hasSuffix name "-summary.json" = true
    · rw [hidle name hname]
      exact Nat.zero_le _
    · exact (hbounded name).trans (hgrow name hname).length_le
  · rw [hconsumed name]
    by_cases hname : hasSuffix name "-summary.json" = true
    · rw [hidle name hname, List.take_zero, List.take_zero]
    · obtain ⟨more, hmore⟩ := hgrow name hname
      rw [← hmore, List.take_append_of_le_length (hbounded name)]

theorem files_setCursor {st' : State} {cursor : FileCursor} (other : String)
    (hfiles : st'.files = st.files) : (setCursor st' name cursor).files other =
      if other = name then cursor else st.files other := by
  show Function.update st'.files name cursor other = _
  rw [Function.update_apply, hfiles]

theorem cursorAfter_offset {content : Bytes} (ho : Offered go name content st o) :
    (cursorAfter env name content st o).offset =
      if o.streamId = "mpi-events" then (st.files name).offset + o.payload.length
      else (st.files name).offset := by
  unfold cursorAfter
  by_cases hs : o.streamId = "mpi-events"
  · rw [if_neg (ho.events hs).1, if_pos hs]
  · rw [if_pos (ho.summary hs), if_neg hs]

theorem added_payload (hs : o.streamId = "mpi-events") :
    (chunksOf name (added name o "mpi-events")).flatMap Chunk.payload = o.payload := by
  unfold added
  by_cases hne : o.payload = []
  · rw [if_neg (fun ha => ha.2 hne), hne]
    rfl
  · rw [if_pos ⟨hs.symm, hne⟩, chunksOf, List.filter_singleton]
    simp

theorem chunksOf_extended {log : String → List Chunk} (other : String) :
    (chunksOf other (extended name o log "mpi-events")).flatMap Chunk.payload =
      (chunksOf other (log "mpi-events")).flatMap Chunk.payload ++
        if other = name ∧ o.streamId = "mpi-events" then o.payload else [] := by
  have hsplit : chunksOf other (extended name o log "mpi-events") =
      chunksOf other (log "mpi-events") ++ chunksOf other (added name o "mpi-events") :=
    List.filter_append _ _
  rw [hsplit, List.flatMap_append]
  congr 1
  by_cases hs : o.streamId = "mpi-events"
  · by_cases hname : other = name
    · rw [if_pos ⟨hname, hs⟩, hname]
      exact added_payload hs
    · rw [if_neg (fun h => hname h.1)]
      unfold added
      split_ifs
      · rw [chunksOf, List.filter_singleton]
        simp [Ne.symm hname]
      · rfl
  · have hnone : added name o "mpi-events" = [] := if_neg (fun ha => hs ha.1.symm)
    rw [if_neg (fun h => hs h.2), hnone]
    rfl

theorem Accounts.moved {log : String → List Chunk} {st' : State}
    (h : Accounts capture spool st log) (ho : Offered go name (capture.content name) st o)
    (hcovers : ∀ streamId, Covers spool' streamId (extended name o log streamId)
      (st'.nextSequence streamId)) (hfiles : st'.files = st.files) :
    Accounts capture spool' (setCursor st' name (cursorAfter env name (capture.content name) st o))
      (extended name o log) where
  covers := hcovers
  bounded other := by
    rw [files_setCursor other hfiles]
    by_cases he : other = name
    · rw [if_pos he, cursorAfter_offset ho, he]
      split_ifs with hs
      · obtain ⟨_, hle, hpre⟩ := ho.events hs
        have hlen := hpre.length_le
        rw [List.length_drop] at hlen
        omega
      · exact h.bounded name
    · rw [if_neg he]
      exact h.bounded other
  consumed other := by
    rw [files_setCursor other hfiles, chunksOf_extended, h.consumed other]
    by_cases he : other = name
    · subst he
      rw [if_pos rfl, cursorAfter_offset ho]
      by_cases hs : o.streamId = "mpi-events"
      · obtain ⟨_, _, hpre⟩ := ho.events hs
        have htake := List.prefix_iff_eq_take.mp hpre
        rw [if_pos ⟨rfl, hs⟩, if_pos hs, List.take_add, ← htake]
      · rw [if_neg (fun ha => hs ha.2), if_neg hs, List.append_nil]
    · rw [if_neg (fun ha => he ha.1), if_neg he, List.append_nil]
  terminated c hc := by
    obtain hold | hnew := List.mem_append.mp hc
    · exact h.terminated c hold
    · unfold added at hnew
      split_ifs at hnew
      · rw [List.mem_singleton] at hnew
        subst hnew
        exact ho.terminated
      · cases hnew
  idle other hother := by
    rw [files_setCursor other hfiles]
    by_cases he : other = name
    · rw [if_pos he, cursorAfter_offset ho,
        if_neg (fun hs => (ho.events hs).1 (he ▸ hother)), ← he]
      exact h.idle other hother
    · rw [if_neg he]
      exact h.idle other hother

structure Visited (env : Env) (go : Go) (config : Config) (epoch : String) (capture : Capture)
    (spool : Spool) (r : Spool × State × Ended) : Prop where
  written : Written env go config epoch r.1
  extends' : ∀ streamId, segmentsOf streamId spool <+: segmentsOf streamId r.1
  tracked : Tracked capture r.1 epoch r.2.1
  saved : r.1.saved = spool.saved ∨ r.1.saved = some r.2.1

theorem saveState_keeps {outcome : WriteOutcome} (hw : Written env go config epoch spool')
    (hext : ∀ streamId, segmentsOf streamId spool <+: segmentsOf streamId spool')
    (ht : Tracked capture spool' epoch st) (hsaved : spool'.saved = spool.saved) :
    Visited env go config epoch capture spool (saveState outcome st spool') ∧
      ∀ e, (saveState outcome st spool').2.2 = .failed e → Foreign e := by
  have hdone : Visited env go config epoch capture spool
      ({ spool' with saved := some st }, st, Ended.ok) :=
    ⟨⟨hw.named, hw.built, hw.ranges, hw.fits⟩, hext, ht.mono (fun _ => List.prefix_rfl),
      Or.inr rfl⟩
  have hleft : Visited env go config epoch capture spool (spool', st, Ended.ok) :=
    ⟨hw, hext, ht, Or.inl hsaved⟩
  cases outcome with
  | done => exact ⟨⟨hdone.1, hdone.2, hdone.3, hdone.4⟩, fun _ he => nomatch he⟩
  | error m landed =>
    refine ⟨?_, fun e he => ?_⟩
    · cases landed with
      | true => exact ⟨hdone.1, hdone.2, hdone.3, hdone.4⟩
      | false => exact ⟨hleft.1, hleft.2, hleft.3, hleft.4⟩
    · cases he
      exact ⟨Error.noConfusion, fun _ _ => Error.noConfusion⟩
  | crash landed stray =>
    refine ⟨?_, fun e he => nomatch he⟩
    cases landed with
    | true => exact ⟨hdone.1, hdone.2, hdone.3, hdone.4⟩
    | false => exact ⟨hleft.1, hleft.2, hleft.3, hleft.4⟩

theorem saveState_saved {outcome : WriteOutcome} (h : (saveState outcome st spool).2.2 = .ok) :
    (saveState outcome st spool).1.saved = some st := by
  cases outcome with
  | done => rfl
  | error m landed => cases h
  | crash landed stray => cases h

theorem collectEntry_keeps (hstreams : Apart env) (hw : Written env go config epoch spool)
    (ht : Tracked capture spool epoch st)
    (hrep : ∀ o budget, offered env go name (capture.content name) st = some o →
      enforceNodeBudgets config w = .ok budget → Repeatable env config st spool o budget)
    {r : Spool × State × Ended}
    (hr : collectEntry env go config w name (capture.content name) st spool = r) :
    Visited env go config epoch capture spool r ∧ ∀ e, r.2.2 = .failed e → e ≠ .different ∧
      ∀ o budget, offered env go name (capture.content name) st = some o →
        enforceNodeBudgets config w = .ok budget → (∃ used limit, e = .quota used limit) →
          config.maxSpoolBytes < sizes spool.pending +
            (segmentUpload env config st o.streamId o.payload o.records budget).encoded.length := by
  by_cases hidle : w.source = none ∧ ∃ o, offered env go name (capture.content name) st = some o
  · obtain ⟨hsource, o, ho⟩ := hidle
    have hoffered := offered_spec ho
    obtain ⟨hepoch, log, hlog⟩ := ht
    rw [collectEntry_offered hsource ho] at hr
    unfold spoolEntry at hr
    obtain ⟨hspooled, hforeign⟩ := spoolPayload_keeps hstreams hw hepoch hoffered
      ⟨_, hlog.covers o.streamId⟩ (fun budget => hrep o budget ho) rfl (w := w)
    generalize hp : spoolPayload env config w o.streamId o.payload o.records st spool = p at *
    obtain ⟨spool', st', ended⟩ := p
    obtain ⟨hw', hext, hsaved, hsame, ⟨hfiles, hepoch'⟩, hcovers⟩ := hspooled
    cases ended with
    | ok =>
      have hmoved : Accounts capture spool'
          (setCursor st' name (cursorAfter env name (capture.content name) st o))
          (extended name o log) := hlog.moved hoffered
        (fun streamId => hcovers rfl streamId _ (hlog.covers streamId)) hfiles
      have ht : Tracked capture spool' epoch
          (setCursor st' name (cursorAfter env name (capture.content name) st o)) :=
        ⟨hepoch'.trans hepoch, _, hmoved⟩
      obtain ⟨hvisited, hsave⟩ := saveState_keeps hw' hext ht hsaved
      subst hr
      exact ⟨hvisited, fun e he => ⟨(hsave e he).1,
        fun _ _ _ _ ⟨used, limit, hq⟩ => absurd hq ((hsave e he).2 used limit)⟩⟩
    | failed e =>
      obtain rfl := hsame Ended.noConfusion
      subst hr
      refine ⟨⟨hw', hext, ⟨hepoch, log, hlog.mono hext⟩, Or.inl hsaved⟩, fun e' he' => ?_⟩
      refine ⟨(hforeign e' he').1, fun o' budget ho' hbudget hq => ?_⟩
      rw [ho] at ho'
      obtain rfl := Option.some.inj ho'
      exact (hforeign e' he').2 budget hbudget hq
    | crashed =>
      obtain rfl := hsame Ended.noConfusion
      subst hr
      exact ⟨⟨hw', hext, ⟨hepoch, log, hlog.mono hext⟩, Or.inl hsaved⟩, fun e he => nomatch he⟩
  · obtain ⟨ended, hentry, _, hforeign⟩ := @collectEntry_idle env go config w name
      (capture.content name) st spool
      (fun hsource => Option.eq_none_iff_forall_ne_some.mpr (fun o ho => hidle ⟨hsource, o, ho⟩))
    rw [hentry] at hr
    subst hr
    exact ⟨⟨hw, fun _ => List.prefix_rfl, ht, Or.inl rfl⟩, fun e he => ⟨(hforeign e he).1,
      fun _ _ _ _ ⟨used, limit, hq⟩ => absurd hq ((hforeign e he).2 used limit)⟩⟩

end Collecting

section Runs

variable {env go config}
variable {epoch : String} {n n' : Node} {capture : Capture}

/-- A run whose events all find their offers repeatable. -/
def Run (env : Env) (go : Go) (config : Config) (capture : Capture) (n : Node) : Prop :=
  Relation.ReflTransGen (fun n n' => ∃ e, Repeats env go config n e ∧
    step env go config e n = some n') (Node.initial capture) n

theorem Consistent.initial : Consistent env go config epoch (Node.initial capture) where
  written := ⟨fun _ hp => (nomatch hp), fun _ hp => (nomatch hp), fun _ => ⟨0, rfl⟩,
    Nat.zero_le _⟩
  memory _ h := nomatch h
  saved _ h := nomatch h
  fresh _ := ⟨rfl, rfl⟩

theorem Consistent.grow (h : Consistent env go config epoch n)
    (hgrow : ∀ name, ¬ hasSuffix name "-summary.json" →
      n.capture.content name <+: capture.content name) :
    Consistent env go config epoch { n with capture := capture } where
  written := h.written
  memory st hst := (h.memory st hst).grow hgrow
  saved st hst := (h.saved st hst).grow hgrow
  fresh := h.fresh

theorem tracked_fresh {spool : Spool} (hrows : spool.pending.rows = []) :
    Tracked capture spool epoch ⟨epoch, fun _ => 0, fun _ => ⟨0, ""⟩⟩ := by
  refine ⟨rfl, fun _ => [], fun streamId => ⟨[], [], ?_, rfl, List.Forall₂.nil⟩,
    fun _ => Nat.zero_le _, fun _ => rfl, fun _ hc => (nomatch hc), fun _ _ => rfl⟩
  rw [segmentsOf, hrows]
  rfl

theorem Consistent.start {outcome : WriteOutcome} {drawn : String}
    (h : Consistent env go config epoch n) (hs : start drawn outcome n = some n') : ∃ epoch', Consistent env go config epoch' n' := by
  unfold Agent.start at hs
  cases hsaved : n.spool.saved with
  | some st =>
    rw [hsaved] at hs
    dsimp only at hs
    split_ifs at hs
    obtain rfl := Option.some.inj hs
    refine ⟨epoch, h.written, fun st' hst' => ?_, h.saved, fun hnone => ?_⟩
    · obtain rfl := Option.some.inj hst'
      exact h.saved st hsaved
    · rw [hsaved] at hnone
      cases hnone
  | none =>
    rw [hsaved] at hs
    dsimp only at hs
    split_ifs at hs
    have hrows := (h.fresh hsaved).2
    have hpending : ∀ p, p ∉ n.spool.pending := by
      intro p hp
      have hmem : p ∈ n.spool.pending.rows := hp
      rw [hrows] at hmem
      cases hmem
    have hw : Written env go config drawn n.spool :=
      ⟨fun p hp => absurd hp (hpending p), fun p hp => absurd hp (hpending p), h.written.ranges,
        h.written.fits⟩
    have hfresh : Tracked n.capture n.spool drawn ⟨drawn, fun _ => 0, fun _ => ⟨0, ""⟩⟩ :=
      tracked_fresh hrows
    obtain ⟨hvisited, _⟩ := @saveState_keeps env go config drawn n.spool n.spool _ n.capture outcome
      hw (fun _ => List.prefix_rfl) hfresh rfl
    have hrows' : (saveState outcome ⟨drawn, fun _ => 0, fun _ => ⟨0, ""⟩⟩ n.spool).1.pending.rows =
        [] := by
      cases outcome with
      | done => exact hrows
      | error m landed => cases landed <;> exact hrows
      | crash landed stray => cases landed <;> exact hrows
    have hdone := @saveState_saved n.spool ⟨drawn, fun _ => 0, fun _ => ⟨0, ""⟩⟩ outcome
    generalize saveState outcome ⟨drawn, fun _ => 0, fun _ => ⟨0, ""⟩⟩ n.spool = r at *
    obtain ⟨spool', st', ended⟩ := r
    obtain ⟨hw', hext, ht, hsaved'⟩ := hvisited
    have hsaved'' : ∀ st, spool'.saved = some st → Tracked n.capture spool' drawn st := by
      intro st hst
      obtain he | he := hsaved'
      · rw [he, hsaved] at hst
        cases hst
      · rw [he] at hst
        obtain rfl := Option.some.inj hst
        exact ht
    cases ended with
    | ok =>
      obtain rfl := Option.some.inj hs
      refine ⟨drawn, hw', fun st hst => ?_, hsaved'', fun hnone => ?_⟩
      · obtain rfl := Option.some.inj hst
        exact ht
      · rw [hdone rfl] at hnone
        cases hnone
    | failed e =>
      obtain rfl := Option.some.inj hs
      exact ⟨drawn, hw', fun st hst => (nomatch hst), hsaved'', fun _ => ⟨rfl, hrows'⟩⟩
    | crashed =>
      obtain rfl := Option.some.inj hs
      exact ⟨drawn, hw', fun st hst => (nomatch hst), hsaved'', fun _ => ⟨rfl, hrows'⟩⟩

theorem Consistent.visit {w : Weather} {st : State} {name : String} {rest : List String}
    (hstreams : Apart env) (h : Consistent env go config epoch n)
    (hrep : Repeats env go config n (.visit w)) (hmemory : n.memory = some st)
    (hwork : n.work = name :: rest) :
    Consistent env go config epoch (visit env go config w n st name rest) := by
  obtain ⟨hvisited, _⟩ := collectEntry_keeps hstreams h.written (h.memory st hmemory)
    (fun o budget => hrep w st name rest o budget rfl hmemory hwork) rfl
  unfold Agent.visit
  generalize collectEntry env go config w name (n.capture.content name) st n.spool = r at *
  obtain ⟨spool', st', ended⟩ := r
  obtain ⟨hw', hext, ht, hsaved'⟩ := hvisited
  have hsaved : ∀ st, spool'.saved = some st → Tracked n.capture spool' epoch st := by
    intro st'' hst
    obtain he | he := hsaved'
    · exact (h.saved st'' (he ▸ hst)).mono hext
    · rw [he] at hst
      obtain rfl := Option.some.inj hst
      exact ht
  have hfresh : spool'.saved ≠ none := by
    intro hnone
    obtain he | he := hsaved'
    · rw [he] at hnone
      rw [(h.fresh hnone).1] at hmemory
      cases hmemory
    · rw [he] at hnone
      cases hnone
  have hmem : ∀ s, some st' = some s → Tracked n.capture spool' epoch s := by
    intro s hs
    obtain rfl := Option.some.inj hs
    exact ht
  cases ended with
  | ok => exact ⟨hw', hmem, hsaved, fun hnone => absurd hnone hfresh⟩
  | failed e => exact ⟨hw', hmem, hsaved, fun hnone => absurd hnone hfresh⟩
  | crashed =>
    exact ⟨hw', fun _ hs => (nomatch hs), hsaved, fun hnone => absurd hnone hfresh⟩

theorem Consistent.step {e : Event} (hstreams : Apart env) (h : Consistent env go config epoch n)
    (hrep : Repeats env go config n e) (hs : step env go config e n = some n') :
    ∃ epoch', Consistent env go config epoch' n' := by
  unfold Agent.step at hs
  split at hs
  · obtain rfl := Option.some.inj hs
    refine ⟨epoch, h.grow (fun name _ => ?_)⟩
    rw [Capture.content_append]
    split_ifs with he
    · rw [he]
      exact List.prefix_append _ _
    · exact List.prefix_rfl
  · split_ifs at hs with hname
    obtain rfl := Option.some.inj hs
    refine ⟨epoch, h.grow (fun name hother => ?_)⟩
    refine ⟨[], ?_⟩
    rw [List.append_nil, Capture.content_publish (fun he => hother (by rw [he]; exact hname))]
  · exact h.start hs
  · obtain rfl := Option.some.inj hs
    exact ⟨epoch, h.written, h.memory, h.saved, h.fresh⟩
  · next hmemory hwork =>
    obtain rfl := Option.some.inj hs
    exact ⟨epoch, h.visit hstreams hrep hmemory hwork⟩
  · obtain rfl := Option.some.inj hs
    exact ⟨epoch, h.written, fun _ hst => (nomatch hst), h.saved, fun hnone =>
      ⟨rfl, (h.fresh hnone).2⟩⟩
  · cases hs

theorem consistent_of_run (hstreams : Apart env) (hrun : Run env go config capture n) :
    ∃ epoch, Consistent env go config epoch n := by
  induction hrun with
  | refl => exact ⟨"", Consistent.initial⟩
  | tail _ hstep ih =>
    obtain ⟨e, hrep, hs⟩ := hstep
    obtain ⟨epoch, hc⟩ := ih
    exact hc.step hstreams hrep hs

/-- Every complete line a state has consumed of its files stands in the one segment its chunk
went into. -/
def OncePerLine (capture : Capture) (spool : Spool) (st : State) : Prop :=
  ∃ log, Covers spool "mpi-events" log (st.nextSequence "mpi-events") ∧ ∀ name,
    (chunksOf name log).flatMap (fun c => eventLines c.payload) =
      eventLines ((capture.content name).take (st.files name).offset)

theorem eventLines_flatMap {chunks : List Chunk} (h : ∀ c ∈ chunks, Terminated c.payload) :
    chunks.flatMap (fun c => eventLines c.payload) =
      eventLines (chunks.flatMap Chunk.payload) := by
  induction chunks with
  | nil => rfl
  | cons c chunks ih =>
    rw [List.flatMap_cons, List.flatMap_cons, eventLines_append (h c List.mem_cons_self),
      ih (fun c' hc' => h c' (List.mem_cons_of_mem c hc'))]

theorem Tracked.once {spool : Spool} {st : State} (h : Tracked capture spool epoch st) :
    OncePerLine capture spool st := by
  obtain ⟨_, log, hlog⟩ := h
  refine ⟨log "mpi-events", hlog.covers "mpi-events", fun name => ?_⟩
  have hterminated : ∀ c ∈ chunksOf name (log "mpi-events"), Terminated c.payload :=
    fun c hc => hlog.terminated c (List.mem_of_mem_filter hc)
  rw [eventLines_flatMap hterminated, hlog.consumed name]

/-- What a crash must not break: the pending segments of a stream follow one another, what
was consumed stands in them once, and the spool takes what is collected next. -/
structure Resumes (env : Env) (go : Go) (config : Config) (n : Node) : Prop where
  ranges : ∀ streamId, ∃ next, Consecutive 0 (segmentsOf streamId n.spool) next
  once : ∀ st, (n.memory = some st ∨ n.spool.saved = some st) →
    OncePerLine n.capture n.spool st
  accepted : ∀ w, Repeats env go config n (.visit w) → ¬ Refused env go config w n

/-- A run whose retries find the payload and the budgets of the first try, and whose dead
files do not fill the spool, resumes after every crash. -/
theorem collect_resumes (hstreams : Apart env) (hrun : Run env go config capture n) :
    Resumes env go config n := by
  obtain ⟨epoch, hc⟩ := consistent_of_run hstreams hrun
  refine ⟨hc.written.ranges, fun st hst => ?_, fun w hrep hrefused => ?_⟩
  · obtain hmemory | hsaved := hst
    · exact (hc.memory st hmemory).once
    · exact (hc.saved st hsaved).once
  · obtain ⟨st, name, rest, spool', st', e, hmemory, hwork, hentry, hown⟩ := hrefused
    obtain ⟨_, hforeign⟩ := collectEntry_keeps hstreams hc.written (hc.memory st hmemory)
      (fun o budget => hrep w st name rest o budget rfl hmemory hwork) hentry
    obtain hdifferent | ⟨used, limit, o, budget, hquota, ho, hbudget, hroom⟩ := hown
    · exact (hforeign e rfl).1 hdifferent
    · have hfull := (hforeign e rfl).2 o budget ho hbudget ⟨used, limit, hquota⟩
      omega

section Checking

variable (env go config)

def repeats (n : Node) : Event → Bool
  | .visit w =>
    match n.memory, n.work with
    | some st, name :: _ =>
      match offered env go name (n.capture.content name) st, enforceNodeBudgets config w with
      | some o, .ok budget =>
        n.spool.pending.rows.all (fun p => !(p.upload.streamId = o.streamId &&
          p.upload.firstSequence = st.nextSequence o.streamId) ||
            (p.upload.payloadBase64 = String.ofList (b64encode o.payload) &&
              p.upload.nodeBudget = budget)) &&
        (sizes n.spool.pending + n.spool.strays + (segmentUpload env config st o.streamId o.payload
            o.records budget).encoded.length ≤ config.maxSpoolBytes)
      | _, _ => true
    | _, _ => true
  | _ => true

def runRepeated : List Event → Node → Option Node
  | [], n => some n
  | e :: es, n =>
    if repeats env go config n e then (step env go config e n).bind (runRepeated es) else none

theorem repeats_sound {e : Event} (h : repeats env go config n e = true) :
    Repeats env go config n e := by
  intro w st name rest o budget he hmemory hwork ho hbudget
  subst he
  simp only [repeats, hmemory, hwork, ho, hbudget, Bool.and_eq_true, decide_eq_true_eq,
    List.all_eq_true] at h
  obtain ⟨hsame, hroom⟩ := h
  refine ⟨fun p hp hstream hfirst => ?_, Or.inl hroom⟩
  have hp' := hsame p hp
  simp only [hstream, hfirst, decide_true, Bool.and_self, Bool.not_true, Bool.false_or,
    Bool.and_eq_true, decide_eq_true_eq] at hp'
  exact hp'

theorem run_of_runRepeated {es : List Event} {m : Node} (hrun : Run env go config capture m)
    (h : runRepeated env go config es m = some n) : Run env go config capture n := by
  induction es generalizing m with
  | nil =>
    obtain rfl := Option.some.inj h
    exact hrun
  | cons e es ih =>
    unfold runRepeated at h
    split_ifs at h with hrep
    obtain ⟨m', hstep, hrest⟩ := Option.bind_eq_some_iff.mp h
    exact ih (hrun.tail ⟨e, repeats_sound env go config hrep, hstep⟩) hrest

/-- The next round ends because the pending range holds other bytes. -/
def differs (w : Weather) (n : Node) : Bool :=
  match n.memory, n.work with
  | some st, name :: _ =>
    (collectEntry env go config w name (n.capture.content name) st n.spool).2.2 =
      .failed .different
  | _, _ => false

theorem refused_of_differs {w : Weather} (h : differs env go config w n = true) :
    Refused env go config w n := by
  unfold differs at h
  split at h
  · next st name rest hmemory hwork =>
    have he := of_decide_eq_true h
    generalize hr : collectEntry env go config w name (n.capture.content name) st n.spool = r at he
    obtain ⟨spool', st', ended⟩ := r
    dsimp only at he
    subst he
    exact ⟨st, name, rest, spool', st', .different, hmemory, hwork, hr, Or.inl rfl⟩
  · cases h

end Checking

end Runs

end Agent

namespace Sample

/-- `\x7b\x7d` on every line, and blanks. -/
def lineGo : Go where
  blank line := line.all (fun b => b = 32)
  unmarshal line := if line = [123, 125] then some [] else none

def eventFile : String := "rank-00000-events.jsonl"

def emptyCapture : Agent.Capture := .empty

def weather (free : Nat) : Agent.Weather := .calm 8000000 free

/-- The agent dies after the segment is pending and before its state is saved. -/
def crashing : List Agent.Event :=
  [.append eventFile [123, 125, 10], .start "b6f1c0de" .done, .list,
    .visit { weather 50000000 with save := .crash false 0 }, .start "" .done]

def resumed (grown : List Agent.Event) (free : Nat) : List Agent.Event :=
  crashing ++ grown ++ [.list, .visit (weather free)]

def ranges (n : Agent.Node) : List (Nat × Nat) :=
  (Agent.segmentsOf "mpi-events" n.spool).map (fun u => (u.firstSequence, u.lastSequence))

end Sample

namespace Agent

theorem collect_resumes_sample : ∃ n,
    runRepeated Sample.spoolEnv Sample.lineGo Sample.config
      (Sample.resumed [] 50000000) (Node.initial Sample.emptyCapture) = some n ∧
    Sample.ranges n = [(0, 0)] ∧ Resumes Sample.spoolEnv Sample.lineGo Sample.config n := by
  have h : (runRepeated Sample.spoolEnv Sample.lineGo Sample.config (Sample.resumed [] 50000000)
      (Node.initial Sample.emptyCapture)).map Sample.ranges = some [(0, 0)] := by decide +kernel
  obtain ⟨n, hn, hranges⟩ := Option.map_eq_some_iff.mp h
  have hstreams : Apart Sample.spoolEnv :=
    show streamDigest Sample.spoolEnv "rank-summary" ≠ streamDigest Sample.spoolEnv "mpi-events" by
      decide +kernel
  exact ⟨n, hn, hranges, collect_resumes hstreams
    (run_of_runRepeated _ _ _ Relation.ReflTransGen.refl hn)⟩

/-- After the same crash, a file that has grown is sealed again from its start, over the range
that is pending; one that has not grown is refused as soon as other budgets are measured. -/
theorem crash_not_resumed :
    (∃ n, runEvents Sample.spoolEnv Sample.lineGo Sample.config
      (Sample.resumed [.append Sample.eventFile [123, 125, 10]] 50000000)
      (Node.initial Sample.emptyCapture) = some n ∧
      ¬ ∃ next, Consecutive 0 (segmentsOf "mpi-events" n.spool) next) ∧
    ∃ n, runEvents Sample.spoolEnv Sample.lineGo Sample.config (Sample.crashing ++ [.list])
      (Node.initial Sample.emptyCapture) = some n ∧
      Refused Sample.spoolEnv Sample.lineGo Sample.config (Sample.weather 49995904) n := by
  constructor
  · have h : (runEvents Sample.spoolEnv Sample.lineGo Sample.config
        (Sample.resumed [.append Sample.eventFile [123, 125, 10]] 50000000)
        (Node.initial Sample.emptyCapture)).map Sample.ranges = some [(0, 0), (0, 1)] := by
      decide +kernel
    obtain ⟨n, hn, hranges⟩ := Option.map_eq_some_iff.mp h
    refine ⟨n, hn, fun ⟨next, hnext⟩ => ?_⟩
    obtain ⟨u, us, hsegments, hu, hus⟩ := List.map_eq_cons_iff.mp hranges
    obtain ⟨v, vs, rfl, hv, _⟩ := List.map_eq_cons_iff.mp hus
    rw [hsegments] at hnext
    have hfirst := hnext.2.2.1
    rw [Prod.mk.injEq] at hu hv
    omega
  · have h : (runEvents Sample.spoolEnv Sample.lineGo Sample.config (Sample.crashing ++ [.list])
        (Node.initial Sample.emptyCapture)).map (differs Sample.spoolEnv Sample.lineGo
          Sample.config (Sample.weather 49995904)) = some true := by decide +kernel
    obtain ⟨n, hn, hdiffers⟩ := Option.map_eq_some_iff.mp h
    exact ⟨n, hn, refused_of_differs _ _ _ hdiffers⟩

end Agent

end RankLens
