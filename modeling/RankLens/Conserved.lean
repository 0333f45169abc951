import RankLens.Accepting
import RankLens.Skipping

namespace RankLens

namespace Analyzer

section totals

variable {py : Interpreter} {worldSize : Nat}

/-- The edge an event adds to, and its bytes. -/
def eventEdge (py : Interpreter) (worldSize : Nat) (event : Dict) : Option ((Nat × Nat) × Nat) :=
  if failed py event = false ∧ isSend event = true then edgeOf worldSize event else none

/-- What an event adds, when its bytes count as `gain`. -/
def eventGain (py : Interpreter) (worldSize : Nat) (gain : Nat → Nat) (event : Dict) : Nat :=
  ((eventEdge py worldSize event).map (fun p => gain p.2)).getD 0

theorem addSend_edge (edges : List ((Nat × Nat) × (Nat × Nat))) (event : Dict) :
    addSend py worldSize edges event = match eventEdge py worldSize event with
      | some (key, bytes) => addEdge edges key bytes
      | none => edges := by
  unfold addSend eventEdge
  split
  · rfl
  · rfl

/-- A part of the totals of an edge that grows with every send over it. -/
structure Gains (part : Nat × Nat → Nat) (gain : Nat → Nat) : Prop where
  more : ∀ bytes messages x, part (bytes + x, messages + 1) = part (bytes, messages) + gain x
  new : ∀ x, part (x, 1) = gain x

theorem gains_bytes : Gains Prod.fst id := ⟨fun _ _ _ => rfl, fun _ => rfl⟩

theorem gains_messages : Gains Prod.snd (fun _ => 1) := ⟨fun _ _ _ => rfl, fun _ => rfl⟩

variable {part : Nat × Nat → Nat} {gain : Nat → Nat} {edges : List ((Nat × Nat) × (Nat × Nat))}

theorem sum_edit (hgains : Gains part gain) (hnodup : (edges.map Prod.fst).Nodup)
    {key : Nat × Nat} (hkey : key ∈ edges.map Prod.fst) (bytes : Nat) :
    ((edges.map (fun e => if e.1 = key then (key, (e.2.1 + bytes, e.2.2 + 1)) else e)).map
      (fun e => part e.2)).sum = (edges.map (fun e => part e.2)).sum + gain bytes := by
  induction edges with
  | nil => cases hkey
  | cons e edges ih =>
    obtain ⟨fresh, hnodup⟩ := List.nodup_cons.mp hnodup
    simp only [List.map_cons, List.sum_cons]
    by_cases he : e.1 = key
    · have same : edges.map (fun e => if e.1 = key then (key, (e.2.1 + bytes, e.2.2 + 1)) else e) =
          edges := by
        refine (List.map_congr_left (fun f hf => ?_)).trans (List.map_id edges)
        refine if_neg (fun hk => fresh ?_)
        rw [he, ← hk]
        exact List.mem_map_of_mem hf
      have grown : part (e.2.1 + bytes, e.2.2 + 1) = part e.2 + gain bytes :=
        hgains.more e.2.1 e.2.2 bytes
      rw [if_pos he, same, grown]
      omega
    · obtain rfl | hkey := List.mem_cons.mp hkey
      · exact absurd rfl he
      · rw [if_neg he, ih hnodup hkey, Nat.add_assoc]

theorem sum_addEdge (hgains : Gains part gain) (hnodup : (edges.map Prod.fst).Nodup)
    (key : Nat × Nat) (bytes : Nat) : ((addEdge edges key bytes).map (fun e => part e.2)).sum =
      (edges.map (fun e => part e.2)).sum + gain bytes := by
  unfold addEdge
  split
  · next hl =>
    obtain ⟨e, he, hk⟩ := List.lookup_isSome_iff.mp hl
    refine sum_edit hgains hnodup ?_ bytes
    rw [eq_of_beq hk]
    exact List.mem_map_of_mem he
  · rw [List.map_append, List.sum_append, List.map_singleton, List.sum_singleton, hgains.new]

theorem sum_edges (hgains : Gains part gain) (events : List Dict)
    (hnodup : (edges.map Prod.fst).Nodup) :
    ((events.foldl (addSend py worldSize) edges).map (fun e => part e.2)).sum =
      (edges.map (fun e => part e.2)).sum + (events.map (eventGain py worldSize gain)).sum := by
  induction events generalizing edges with
  | nil => rfl
  | cons event events ih =>
    have kept : ((addSend py worldSize edges event).map Prod.fst).Nodup :=
      addSend_nodup [event] hnodup
    rw [List.foldl_cons, ih kept, List.map_cons, List.sum_cons, ← Nat.add_assoc]
    congr 1
    rw [addSend_edge, eventGain]
    cases eventEdge py worldSize event with
    | none => rfl
    | some edge => exact sum_addEdge hgains hnodup edge.1 edge.2

theorem trueDiv_value {a b : Nat} {x : ℚ} (h : trueDiv a b = .ok x) : x = float ((a : ℚ) / b) := by
  rw [trueDiv] at h
  split_ifs at h
  exact (Except.ok.inj h).symm

theorem orOne_pos (n : Nat) : 0 < orOne n := by
  unfold orOne
  split <;> omega

theorem le_orOne (n : Nat) : n ≤ orOne n := by
  unfold orOne
  split <;> omega

theorem sum_shares (edges : List CommunicationEdge) (total : Nat) :
    (edges.map (fun e => (e.bytes : ℚ) / orOne total)).sum =
      ((edges.map CommunicationEdge.bytes).sum : ℚ) / orOne total := by
  induction edges with
  | nil => simp
  | cons e edges ih =>
    rw [List.map_cons, List.map_cons, List.sum_cons, List.sum_cons, ih, Nat.cast_add, add_div]

theorem edgeShare_parts {edges : List ((Nat × Nat) × (Nat × Nat))} {total : Nat}
    {out : List CommunicationEdge} (h : edges.mapM (edgeShare total) = .ok out) :
    out.map CommunicationEdge.bytes = edges.map (fun e => e.2.1) ∧
      out.map CommunicationEdge.messages = edges.map (fun e => e.2.2) ∧
      ∀ e ∈ out, e.trafficShare = float ((e.bytes : ℚ) / orOne total) := by
  induction edges generalizing out with
  | nil =>
    obtain rfl : [] = out := Except.ok.inj h
    exact ⟨rfl, rfl, fun e he => nomatch he⟩
  | cons e edges ih =>
    rw [List.mapM_cons] at h
    obtain ⟨edge, hedge, h⟩ := bind_ok_iff.mp h
    obtain ⟨rest, hrest, h⟩ := bind_ok_iff.mp h
    obtain rfl := Except.ok.inj h
    obtain ⟨share, hshare, hedge⟩ := bind_ok_iff.mp hedge
    obtain rfl := Except.ok.inj hedge
    obtain ⟨bytes, messages, shares⟩ := ih hrest
    refine ⟨congrArg _ bytes, congrArg _ messages, List.forall_mem_cons.mpr ⟨?_, shares⟩⟩
    exact trueDiv_value hshare

theorem result_total {capture : Capture} {threshold : ℚ} {result : AnalysisResult}
    (h : analyze py capture threshold = .ok result) :
    ∃ o, overview py capture threshold = .ok o ∧
      (result.communicationEdges.map CommunicationEdge.bytes).sum =
        ((capture.events.flatMap (fileEvents py)).map (eventGain py o.worldSize id)).sum ∧
      (result.communicationEdges.map CommunicationEdge.messages).sum =
        ((capture.events.flatMap (fileEvents py)).map
          (eventGain py o.worldSize (fun _ => 1))).sum ∧
      ∀ e ∈ result.communicationEdges,
        e.trafficShare = float ((e.bytes : ℚ) / orOne o.totalBytesSent) := by
  obtain ⟨o, s, unsorted, ho, hs, hshares, hresult⟩ := analyze_ok h
  obtain ⟨-, e, herr⟩ | ⟨-, s', hok, grown⟩ := @loadFiles_cases py o.worldSize
    o.maximumRuntime capture.events (o.evidence py capture)
  · exact nomatch hs.symm.trans herr
  obtain rfl := Except.ok.inj (hs.symm.trans hok)
  obtain ⟨bytes, messages, shares⟩ := edgeShare_parts hshares
  have sorted := List.mergeSort_perm unsorted (fun a b => b.bytes ≤ a.bytes)
  rw [← hresult.communicationEdges] at sorted
  refine ⟨o, ho, ?_, ?_, fun e he => shares e (sorted.subset he)⟩
  · rw [(sorted.map _).sum_eq, bytes, grown.edges]
    exact (@sum_edges py o.worldSize _ _ [] gains_bytes _ List.nodup_nil).trans (Nat.zero_add _)
  · rw [(sorted.map _).sum_eq, messages, grown.edges]
    exact (@sum_edges py o.worldSize _ _ [] gains_messages _ List.nodup_nil).trans (Nat.zero_add _)

end totals

end Analyzer

namespace Recording

open Analyzer (textLines linesFrom passes advance accepted Interpreter eventGain)
open JsonText

section files

/-- `json.loads` takes no text for an object that a last brace is missing from. -/
def RejectsCut (py : Interpreter) : Prop := ∀ text tail cut v event,
  parse (text ++ '\x7d' :: tail) = some v → cut <+: text →
    py.loads (cut.map Char.toNat) ≠ .ok (.dict event)

variable {py : Interpreter} {rank worldSize : Nat} {last : Int} {out events : List EventRecord}
  {e : EventRecord} {file part : List Char}

theorem file_prefix (h : file <+: eventLines rank out) :
    ∃ events part, file = eventLines rank events ++ part ∧ events <+: out ∧
      (part = [] ∨ ∃ e, events ++ [e] <+: out ∧ part <+: e.text rank) := by
  induction out generalizing file with
  | nil =>
    obtain rfl := List.prefix_nil.mp h
    exact ⟨[], [], rfl, List.prefix_refl _, .inl rfl⟩
  | cons e out ih =>
    have lines : eventLines rank (e :: out) = e.text rank ++ ('\n' :: eventLines rank out) := by
      simp [eventLines, EventRecord.line]
    rw [lines] at h
    obtain hpart | ⟨tail, rfl⟩ := List.prefix_or_prefix_of_prefix h (List.prefix_append _ _)
    · exact ⟨[], file, rfl, List.nil_prefix, .inr ⟨e, ⟨out, rfl⟩, hpart⟩⟩
    · rw [List.prefix_append_right_inj] at h
      cases tail with
      | nil =>
        refine ⟨[], e.text rank, by simp [eventLines], List.nil_prefix, .inr ⟨e, ⟨out, rfl⟩, ?_⟩⟩
        exact List.prefix_refl _
      | cons c tail =>
        obtain ⟨rfl, htail⟩ := List.cons_prefix_cons.mp h
        obtain ⟨events, part, rfl, hevents, hpart⟩ := ih htail
        refine ⟨e :: events, part, ?_, List.cons_prefix_cons.mpr ⟨rfl, hevents⟩, ?_⟩
        · simp [eventLines, EventRecord.line]
        · refine hpart.imp id ?_
          rintro ⟨f, hf, hpart⟩
          exact ⟨f, List.cons_prefix_cons.mpr ⟨rfl, hf⟩, hpart⟩

theorem linesFrom_part {cs acc : PyStr} (h : ∀ c ∈ cs, 32 ≤ c) (hne : acc ++ cs ≠ []) :
    linesFrom acc cs = [acc ++ cs] := by
  induction cs generalizing acc with
  | nil =>
    rw [List.append_nil] at hne ⊢
    rw [linesFrom, if_neg hne]
  | cons c cs ih =>
    obtain ⟨hc, h⟩ := List.forall_mem_cons.mp h
    rw [linesFrom_plain hc, ih h (by simp)]
    simp

theorem textLines_part (hpart : ∀ c ∈ part, JsonValue.Printable c) (hne : part ≠ []) :
    textLines ((eventLines rank events ++ part).map Char.toNat) =
      events.map (lineOf rank) ++ [part.map Char.toNat] := by
  have printable : ∀ c ∈ part.map Char.toNat, 32 ≤ c := by
    intro c hc
    obtain ⟨x, hx, rfl⟩ := List.mem_map.mp hc
    exact hpart x hx
  rw [List.map_append, textLines_append]
  congr 1
  exact linesFrom_part printable (by simpa using hne)

theorem accepted_lines (hpy : ReadsJson py) (hfits : ∀ e ∈ events, e.Fits) (hrank : rank < 2 ^ 64)
    (hnames : ∀ e ∈ events, e.operation ∈ kOperationNames) (hl : ∀ e ∈ events, last < e.sequence)
    (hsorted : events.Pairwise (fun e f => e.sequence < f.sequence)) (rest : List PyStr) :
    ∃ last', accepted py rank last (events.map (lineOf rank) ++ rest) =
      events.map (EventRecord.dict rank) ++ accepted py rank last' rest ∧
      ∀ f : EventRecord, (∀ e ∈ events, e.sequence < f.sequence) → last < f.sequence →
        last' < f.sequence := by
  induction events generalizing last with
  | nil => exact ⟨last, rfl, fun _ _ h => h⟩
  | cons e events ih =>
    obtain ⟨he, hfits⟩ := List.forall_mem_cons.mp hfits
    obtain ⟨hname, hnames⟩ := List.forall_mem_cons.mp hnames
    obtain ⟨hle, -⟩ := List.forall_mem_cons.mp hl
    obtain ⟨above, hsorted⟩ := List.pairwise_cons.mp hsorted
    obtain ⟨hpass, hadvance⟩ := passes_dict (loads_line hpy he hrank) hname hle
    obtain ⟨last', hrest, hlast⟩ := ih hfits hnames
      (fun f hf => by exact_mod_cast above f hf : ∀ f ∈ events, (e.sequence : Int) < f.sequence)
      hsorted
    refine ⟨last', ?_, fun f hf _ => ?_⟩
    · rw [List.map_cons, List.cons_append, accepted, hpass, hadvance, hrest]
      rfl
    · obtain ⟨hf, hrest⟩ := List.forall_mem_cons.mp hf
      exact hlast f hrest (by exact_mod_cast hf)

theorem fileEvents_prefix (hpy : ReadsJson py) (hcut : RejectsCut py) (hint : ReadsRank py)
    (hfits : ∀ e ∈ out, e.Fits) (hrank : rank < 2 ^ 64)
    (hnames : ∀ e ∈ out, e.operation ∈ kOperationNames)
    (hsorted : out.Pairwise (fun e f => e.sequence < f.sequence))
    (hfile : file <+: eventLines rank out) :
    ∃ events, events <+: out ∧ (file = eventLines rank out → events = out) ∧
      Analyzer.fileEvents py (eventsFile rank file) = events.map (EventRecord.dict rank) := by
  have counted : Analyzer.fileEvents py (eventsFile rank file) =
      accepted py rank (-1) (textLines (file.map Char.toNat)) := by
    rw [Analyzer.fileEvents, eventsFile, expectedRank_path hint hrank]
    rfl
  rw [counted]
  obtain ⟨events, part, rfl, hevents, hpart⟩ := file_prefix hfile
  have fits : ∀ e ∈ events, e.Fits := fun e he => hfits e (hevents.subset he)
  have names : ∀ e ∈ events, e.operation ∈ kOperationNames :=
    fun e he => hnames e (hevents.subset he)
  have sorted := hsorted.sublist hevents.sublist
  have start : ∀ e ∈ events, (-1 : Int) < e.sequence := fun e _ => by omega
  by_cases hempty : part = []
  · subst hempty
    obtain ⟨last', hlines, -⟩ := accepted_lines hpy fits hrank names start sorted []
    refine ⟨events, hevents, fun hwhole => ?_, ?_⟩
    · have lengths := congrArg (List.count '\n') hwhole
      rw [List.append_nil, count_eventLines, count_eventLines] at lengths
      exact hevents.eq_of_length lengths
    · rw [List.append_nil, textLines_eventLines]
      rw [List.append_nil] at hlines
      rw [hlines]
      exact List.append_nil _
  · obtain rfl | ⟨e, he, hpart⟩ := hpart
    · exact absurd rfl hempty
    have printable : ∀ c ∈ part, JsonValue.Printable c :=
      fun c hc => text_printable rank e c (hpart.subset hc)
    have hmem : e ∈ out := he.subset (by simp)
    obtain ⟨last', hlines, hlast⟩ :=
      accepted_lines hpy fits hrank names start sorted [part.map Char.toNat]
    have above : last' < e.sequence := by
      refine hlast e (fun f hf => ?_) (by omega)
      have pairs := hsorted.sublist he.sublist
      exact (List.pairwise_append.mp pairs).2.2 f hf e (List.mem_singleton_self _)
    have short : eventLines rank events ++ part ≠ eventLines rank out := by
      intro hwhole
      have lengths := congrArg (List.count '\n') hwhole
      have none : part.count '\n' = 0 :=
        List.count_eq_zero.mpr (fun hm => absurd (printable _ hm) (by decide))
      rw [List.count_append, count_eventLines, count_eventLines, none, Nat.add_zero] at lengths
      have longer := he.length_le
      rw [List.length_append, List.length_singleton] at longer
      omega
    rw [textLines_part printable hempty, hlines]
    by_cases hcomplete : part = e.text rank
    · subst hcomplete
      have hload : py.loads ((e.text rank).map Char.toNat) = .ok (.dict (e.dict rank)) :=
        hpy _ _ (parse_bare (EventRecord.reads_text (hfits e hmem) hrank))
      have hpass := (passes_dict hload (hnames e hmem) above).1
      refine ⟨events ++ [e], he, fun hwhole => absurd hwhole short, ?_⟩
      rw [accepted, hpass, List.map_append]
      rfl
    · obtain ⟨body, hbody⟩ : ∃ body, e.text rank = body ++ ['\x7d'] := ⟨_, rfl⟩
      have cut : part <+: body := by
        rw [hbody, List.prefix_concat_iff, ← hbody] at hpart
        exact hpart.resolve_left hcomplete
      have parsed := parse_bare (EventRecord.reads_text (hfits e hmem) hrank)
      rw [hbody] at parsed
      have rejected : passes py rank last' (part.map Char.toNat) = none := by
        have unread : Analyzer.admitted py rank (part.map Char.toNat) = none := by
          unfold Analyzer.admitted
          split
          · next event hload => exact absurd hload (hcut body [] part _ event parsed cut)
          · rfl
        rw [passes, unread]
      refine ⟨events, hevents, fun hwhole => absurd hwhole short, ?_⟩
      rw [accepted, rejected]
      exact List.append_nil _

end files

section accounting

/-- A legal call, of which a send that succeeds with a payload has its peer in the world. -/
def LegalSending (procNull : Int) (worldSize : Nat) (c : RecordCall) : Prop :=
  Legal procNull c ∧ (c.errorCode = 0 → isSendCall c = true → c.bytes ≠ 0 →
    0 ≤ c.peer ∧ c.peer < worldSize)

variable {py : Interpreter} {rank worldSize i : Nat} {procNull : Int} {e : EventRecord}
  {c : RecordCall} {calls : List RecordCall} {gain : Nat → Nat}

theorem eventGain_dict (hrank : rank < worldSize) (gain : Nat → Nat) :
    eventGain py worldSize gain (e.dict rank) =
      if e.errorCode = 0 ∧ IsSend e ∧ 0 ≤ e.peer ∧ e.peer < worldSize then gain e.payloadBytes
      else 0 := by
  simp only [eventGain, Analyzer.eventEdge, failed_dict, isSend_dict, edgeOf_dict hrank]
  by_cases hcode : e.errorCode = 0
  · by_cases hsend : IsSend e
    · by_cases hpeer : 0 ≤ e.peer ∧ e.peer < worldSize
      · simp [hcode, hsend, hpeer]
      · simp [hcode, hsend, hpeer]
    · simp [hsend]
  · simp [hcode]

theorem isSend_call : IsSend (eventOf (c, i)) ↔ isSendCall c = true := by
  show (c.operation = "MPI_Send" ∨ c.operation = "MPI_Isend") ↔ _
  simp [isSendCall]

theorem sentBytes_send : sentBytes c = if isSendCall c = true then c.bytes.toNat else 0 := by
  have index : isSentPayload (operationIndex c.operation) = true ↔ isSendCall c = true := by
    rw [isSentPayload, Bool.or_eq_true, decide_eq_true_iff, decide_eq_true_iff,
      operationIndex_send, isSendCall, Bool.or_eq_true, decide_eq_true_iff, decide_eq_true_iff]
  unfold sentBytes
  by_cases h : isSendCall c = true
  · rw [if_pos (index.mpr h), if_pos h]
  · rw [if_neg (fun hi => h (index.mp hi)), if_neg h]

theorem gain_bytes_le (hrank : rank < worldSize) :
    eventGain py worldSize id ((eventOf (c, i)).dict rank) ≤ sentBytes c := by
  rw [eventGain_dict hrank, sentBytes_send]
  split
  · next h =>
    rw [if_pos (isSend_call.mp h.2.1)]
    exact le_rfl
  · exact Nat.zero_le _

theorem gain_messages_le (hrank : rank < worldSize) :
    eventGain py worldSize (fun _ => 1) ((eventOf (c, i)).dict rank) ≤
      if isSendCall c = true then 1 else 0 := by
  rw [eventGain_dict hrank]
  split
  · next h =>
    rw [if_pos (isSend_call.mp h.2.1)]
  · exact Nat.zero_le _

theorem Legal.failed (h : Legal procNull c) (hcode : c.errorCode ≠ 0) : c.bytes = 0 := by
  obtain ⟨-, w, rfl⟩ := h
  cases w with
  | send operation hs payloadSize a => exact if_neg hcode
  | other operation hn hs a => exact if_neg hcode
  | completed receive timestampNs count peer tag requestId cancelled => exact absurd rfl hcode

theorem gain_bytes_eq (hrank : rank < worldSize) (h : LegalSending procNull worldSize c) :
    eventGain py worldSize id ((eventOf (c, i)).dict rank) = sentBytes c := by
  rw [eventGain_dict hrank, sentBytes_send]
  by_cases hsend : isSendCall c = true
  · rw [if_pos hsend]
    by_cases hzero : c.bytes = 0
    · have payload : (eventOf (c, i)).payloadBytes = 0 := by
        show c.bytes.toNat = 0
        rw [hzero]
        rfl
      rw [payload, hzero]
      split <;> rfl
    · have hcode : c.errorCode = 0 := by
        by_contra hcode
        exact hzero (h.1.failed hcode)
      exact if_pos ⟨hcode, isSend_call.mpr hsend, h.2 hcode hsend hzero⟩
  · rw [if_neg hsend, if_neg (fun hc => hsend (isSend_call.mp hc.2.1))]

theorem countP_sends (calls : List RecordCall) :
    calls.countP isSendCall = (calls.map (fun c => if isSendCall c = true then 1 else 0)).sum := by
  induction calls with
  | nil => rfl
  | cons c calls ih => rw [List.countP_cons, List.map_cons, List.sum_cons, ih, Nat.add_comm]

theorem sum_zipIdx {g : RecordCall → Nat} :
    (calls.zipIdx.map (fun p => g p.1)).sum = (calls.map g).sum := by
  conv_rhs => rw [← List.zipIdx_map_fst 0 calls, List.map_map]
  rfl

theorem sum_eventsOf_le {f : EventRecord → Nat} {g : RecordCall → Nat}
    (h : ∀ c i, f (eventOf (c, i)) ≤ g c) : ((eventsOf calls).map f).sum ≤ (calls.map g).sum := by
  rw [eventsOf, List.map_map, ← sum_zipIdx]
  exact List.sum_le_sum (fun p _ => h p.1 p.2)

theorem sum_eventsOf_eq {f : EventRecord → Nat} {g : RecordCall → Nat}
    (h : ∀ c ∈ calls, ∀ i, f (eventOf (c, i)) = g c) :
    ((eventsOf calls).map f).sum = (calls.map g).sum := by
  rw [eventsOf, List.map_map, ← sum_zipIdx]
  congr 1
  refine List.map_congr_left (fun p hp => h p.1 ?_ p.2)
  rw [← List.zipIdx_map_fst 0 calls]
  exact List.mem_map_of_mem hp

variable {legal : RecordCall → Prop} {s : State}

theorem rank_total (hpy : ReadsJson py) (hcut : RejectsCut py) (hint : ReadsRank py)
    (hsize : worldSize < 2 ^ 31) (h : Drives legal s) (hlegal : ∀ c, legal c → Legal procNull c)
    (hworld : s.recorder.worldSize = worldSize) (hclosed : s.phase.isClosed = true)
    (hcalls : s.calls ≤ 2 ^ 64) :
    let events := Analyzer.fileEvents py (eventsFile s.recorder.rank s.stream.file)
    (events.map (eventGain py worldSize id)).sum ≤ s.recorder.bytesSent ∧
      (events.map (eventGain py worldSize (fun _ => 1))).sum ≤
        (s.recorder.operations 0).calls + (s.recorder.operations 2).calls ∧
      ((∀ c, legal c → LegalSending procNull worldSize c) → s.recorder.eventsDropped = 0 →
        s.stream.good = true →
        (events.map (eventGain py worldSize id)).sum = s.recorder.bytesSent) := by
  obtain ⟨out, calls, hf, hh⟩ := drives_history h
  have hrank := hh.inside
  rw [hworld] at hrank
  have hrank64 : s.recorder.rank < 2 ^ 64 := hrank.trans (hsize.trans (by decide))
  obtain ⟨fits, names, sorted⟩ := hh.kept_legal hlegal hcalls
  have outKept : out.Sublist (s.kept out) := List.sublist_append_left out _
  have hfile : s.stream.file <+: eventLines s.recorder.rank out := by
    have held := hf.holding
    unfold Holding at held
    split at held
    · next hg =>
      rw [hf.closed hclosed hg, List.append_nil] at held
      rw [held]
    · exact held.1
  obtain ⟨events, hevents, hwhole, hread⟩ := fileEvents_prefix hpy hcut hint
    (fun e he => fits e (outKept.subset he)) hrank64 (fun e he => names e (outKept.subset he))
    (sorted.sublist outKept) hfile
  have sublist : events.Sublist (eventsOf calls) :=
    hevents.sublist.trans (outKept.trans hh.sublist)
  have bound : ∀ {gain : Nat → Nat} {g : RecordCall → Nat}, (∀ c i,
      eventGain py worldSize gain ((eventOf (c, i)).dict s.recorder.rank) ≤ g c) →
      ((events.map (EventRecord.dict s.recorder.rank)).map (eventGain py worldSize gain)).sum ≤
        (calls.map g).sum := by
    intro gain g hg
    rw [List.map_map]
    exact ((sublist.map _).sum_le_sum (fun _ _ => Nat.zero_le _)).trans (sum_eventsOf_le hg)
  intro read
  have hr : read = events.map (EventRecord.dict s.recorder.rank) := hread
  rw [hr]
  refine ⟨?_, ?_, fun hsending hdropped hgood => ?_⟩
  · rw [hh.sent]
    exact bound (fun c i => gain_bytes_le hrank)
  · rw [hh.sends, countP_sends]
    exact bound (fun c i => gain_messages_le hrank)
  · obtain ⟨hkept, hall⟩ := closed_file hf hclosed hgood
    rw [hwhole hall, ← hkept, hh.whole hdropped, hh.sent, List.map_map]
    exact sum_eventsOf_eq (fun c hc i => gain_bytes_eq hrank (hsending c (hh.legal c hc)))

end accounting

section captures

open Analyzer (AnalysisResult CommunicationEdge analyze fileEvents orOne le_orOne orOne_pos
  sum_shares)

/-- A recorder that has reached `finalized`, with its last summary, tracing or not. -/
structure Finalized (procNull : Int) (worldSize : Nat) (r : State × Publishing) : Prop where
  reaches : Reaches r.1
  drives : r.1.recorder.traceEvents = true → Drives (Legal procNull) r.1
  worldSize : r.1.recorder.worldSize = worldSize
  closed : r.1.phase.isClosed = true
  few : r.1.calls ≤ 2 ^ 64
  state : r.2.captureState = .finalized
  complete : r.2.complete = true
  code : r.2.finalizeReturnCode = 0
  range : (r.1.recorder.document r.2).InRange

/-- A rank that has traced every send, with its peer in the world. -/
structure TracedWhole (procNull : Int) (worldSize : Nat) (s : State) : Prop where
  tracing : s.recorder.traceEvents = true
  sending : Drives (LegalSending procNull worldSize) s
  dropped : s.recorder.eventsDropped = 0
  good : s.stream.good = true

/-- The calls of `MPI_Send` and `MPI_Isend`, as the summary of a rank counts them. -/
def sendCalls (r : Recorder) : Nat :=
  (r.operations (operationIndex "MPI_Send")).calls +
    (r.operations (operationIndex "MPI_Isend")).calls

variable {py : Interpreter} {worldSize : Nat} {procNull : Int} {directory : String}
  {manifest : Option Analyzer.Content} {ranks : List (State × Publishing)} {threshold : ℚ}
  {result : AnalysisResult}

theorem sum_capture (f : Analyzer.Dict → Nat) :
    (((captureOf directory manifest ranks).events.flatMap (fileEvents py)).map f).sum =
      (ranks.map (fun r => if r.1.recorder.traceEvents = true then
        ((fileEvents py (eventsFile r.1.recorder.rank r.1.stream.file)).map f).sum
      else 0)).sum := by
  induction ranks with
  | nil => rfl
  | cons r ranks ih =>
    rw [List.map_cons, List.sum_cons, ← ih]
    by_cases ht : r.1.recorder.traceEvents = true
    · simp [captureOf, ht]
    · simp [captureOf, ht]

/-- Over all recorders that have reached `finalized`, the edges have no more bytes than the
summaries, and as many where nothing is missing. -/
theorem edges_conserved (hpy : ReadsJson py) (hcut : RejectsCut py) (hint : ReadsRank py)
    (hsize : worldSize < 2 ^ 31) (hranks : ∀ r ∈ ranks, Finalized procNull worldSize r)
    (h : analyze py (captureOf directory manifest ranks) threshold = .ok result) :
    let sent := (ranks.map (fun r => (r.1.recorder.document r.2).bytesSent)).sum
    let edges := result.communicationEdges
    (edges.map CommunicationEdge.bytes).sum ≤ sent ∧
      ((∀ r ∈ ranks, TracedWhole procNull worldSize r.1) →
        (edges.map CommunicationEdge.bytes).sum = sent) ∧
      (edges.map CommunicationEdge.messages).sum ≤
        (ranks.map (fun r => sendCalls r.1.recorder)).sum ∧
      (∀ e ∈ edges, e.trafficShare = Analyzer.float ((e.bytes : ℚ) / orOne sent)) ∧
      (edges.map (fun e => (e.bytes : ℚ) / orOne sent)).sum ≤ 1 := by
  intro sent edges
  obtain ⟨o, ho, bytes, messages, shares⟩ := Analyzer.result_total h
  have loads : ∀ r ∈ ranks, ∀ name, Analyzer.loadSummary py directory
      ⟨name, .text ((r.1.recorder.document r.2).text.map Char.toNat)⟩ =
        .ok (r.1.recorder.document r.2).read := fun r hr name =>
    (snapshot_loads hpy (hranks r hr).reaches (hranks r hr).code.ge (hranks r hr).range
      directory name).2
  obtain ⟨-, world, total⟩ := overview_summaries loads ho
  have hsent : o.totalBytesSent = sent := total
  have whole : ∀ r ∈ ranks, o.worldSize = worldSize := by
    intro r hr
    obtain ⟨first, rest, rfl⟩ := List.exists_cons_of_ne_nil (List.ne_nil_of_mem hr)
    exact world.trans (hranks first List.mem_cons_self).worldSize
  have counted : ∀ r ∈ ranks, ∀ legal, (∀ c, legal c → Legal procNull c) → Drives legal r.1 → _ :=
    fun r hr legal hlegal hdrives => @rank_total py worldSize procNull legal r.1 hpy hcut hint hsize
      hdrives hlegal (hranks r hr).worldSize (hranks r hr).closed (hranks r hr).few
  have most : (edges.map CommunicationEdge.bytes).sum ≤ sent := by
    rw [show (edges.map CommunicationEdge.bytes).sum = _ from bytes, sum_capture]
    refine List.sum_le_sum (fun r hr => ?_)
    split
    · next ht =>
      rw [whole r hr]
      exact (counted r hr _ (fun _ hc => hc) ((hranks r hr).drives ht)).1
    · exact Nat.zero_le _
  refine ⟨most, fun htraced => ?_, ?_, fun e he => ?_, ?_⟩
  · rw [show (edges.map CommunicationEdge.bytes).sum = _ from bytes, sum_capture]
    refine congrArg List.sum (List.map_congr_left (fun r hr => ?_))
    have traced := htraced r hr
    rw [if_pos traced.tracing, whole r hr]
    exact (counted r hr _ (fun _ hc => hc.1) traced.sending).2.2 (fun _ hc => hc) traced.dropped
      traced.good
  · rw [show (edges.map CommunicationEdge.messages).sum = _ from messages, sum_capture]
    refine List.sum_le_sum (fun r hr => ?_)
    split
    · next ht =>
      rw [whole r hr]
      exact (counted r hr _ (fun _ hc => hc) ((hranks r hr).drives ht)).2.1
    · exact Nat.zero_le _
  · rw [← hsent]
    exact shares e he
  · rw [sum_shares, div_le_one (by exact_mod_cast orOne_pos sent)]
    exact_mod_cast most.trans (le_orOne sent)

theorem jsonReader_cut : RejectsCut jsonReader := by
  intro text tail cut v event h hcut hload
  have back : (cut.map Char.toNat).map Char.ofNat = cut := by
    rw [List.map_map]
    exact (List.map_congr_left (fun c _ => Char.ofNat_toNat c)).trans (List.map_id cut)
  have read : (JsonText.parse ((cut.map Char.toNat).map Char.ofNat)).elim
    (Except.error (Analyzer.JsonError.decode "Expecting value")) .ok = .ok (.dict event) := hload
  rw [back] at read
  cases hp : JsonText.parse cut with
  | none =>
    rw [hp] at read
    exact nomatch read
  | some w =>
    rw [hp] at read
    obtain rfl : w = .dict event := Except.ok.inj read
    exact JsonText.parse_cut h hcut hp

/-- The only rank has sent to itself once, and has finished. -/
def selfSent : Recorder :=
  ((Recorder.initial 0 1 "n1" 7 100 10 10 true).record ((sendTo 0).call (-2))).swap.countWritten

def sentAndClosed : State where
  recorder := selfSent
  stream := ⟨true, [], (sendEvent 0).line 0⟩
  drain := none
  phase := .closed selfSent.captureSnapshot false
  calls := 1
  failed := false
  refused := false

theorem sentAndClosed_drives {legal : RecordCall → Prop} (h : legal ((sendTo 0).call (-2))) :
    Drives legal sentAndClosed := by
  have started : Drives legal (.initial (.initial 0 1 "n1" 7 100 10 10 true)) := .start (by decide)
  have recorded := started.record _ h rfl
  have finishing := recorded.other (.finish rfl rfl) rfl
  have swapped := finishing.other (.swap (.inr rfl) rfl rfl) rfl
  have taken : EventStream.Write ((sendEvent 0).line 0) ⟨true, [], []⟩
      ⟨true, [], (sendEvent 0).line 0⟩ :=
    @EventStream.Write.taken _ [] [] _ [] (List.append_nil _)
  have inserted := swapped.other (.insert rfl taken) rfl
  have wrote := inserted.other (.wrote rfl) rfl
  have flushed : EventStream.Flush ⟨true, [], (sendEvent 0).line 0⟩
      ⟨true, [], (sendEvent 0).line 0⟩ := EventStream.flush_empty _
  have published := wrote.other (.publish rfl flushed) rfl
  exact published.other (.close rfl flushed) rfl

theorem sentAndClosed_legal : Legal (-2) ((sendTo 0).call (-2)) := ⟨sendTo_fits (by decide), _, rfl⟩

theorem sentAndClosed_sending : LegalSending (-2) 1 ((sendTo 0).call (-2)) :=
  ⟨sentAndClosed_legal, fun _ _ _ => by decide⟩

theorem sentAndClosed_finalized : Finalized (-2) 1 (sentAndClosed, finalSnapshot) where
  reaches := drives_reaches (@sentAndClosed_drives (Legal (-2)) sentAndClosed_legal)
  drives _ := sentAndClosed_drives sentAndClosed_legal
  worldSize := rfl
  closed := rfl
  few := show 1 ≤ 2 ^ 64 by decide
  state := rfl
  complete := rfl
  code := rfl
  range := ⟨by decide, by decide +kernel, by decide +kernel⟩

theorem selfSent_analyzed : ∃ result, analyze jsonReader
    (captureOf "capture" none [(sentAndClosed, finalSnapshot)]) (3 / 2) = .ok result := by
  have analyzed : (analyze jsonReader (captureOf "capture" none
      [(sentAndClosed, finalSnapshot)]) (3 / 2)).toOption.isSome = true := by
    decide +kernel
  revert analyzed
  generalize analyze jsonReader _ _ = outcome
  cases outcome with
  | error e => exact fun h => nomatch h
  | ok result => exact fun _ => ⟨result, rfl⟩

/-- All the bytes of a send of a rank to itself are on its edge. -/
theorem edges_conserved_sent : ∃ result, analyze jsonReader
    (captureOf "capture" none [(sentAndClosed, finalSnapshot)]) (3 / 2) = .ok result ∧
      (result.communicationEdges.map Analyzer.CommunicationEdge.bytes).sum = 64 := by
  obtain ⟨result, h⟩ := selfSent_analyzed
  refine ⟨result, h, ?_⟩
  have conserved := @edges_conserved _ _ (-2) _ _ _ _ _ jsonReader_reads jsonReader_cut
    jsonReader_rank (by decide) (List.forall_mem_singleton.mpr sentAndClosed_finalized) h
  have traced : ∀ r ∈ [(sentAndClosed, finalSnapshot)], TracedWhole (-2) 1 r.1 :=
    List.forall_mem_singleton.mpr ⟨rfl, sentAndClosed_drives sentAndClosed_sending, rfl, rfl⟩
  exact (conserved.2.1 traced).trans (by decide +kernel)

end captures

end Recording

end RankLens
