import RankLens.Wrappers

namespace RankLens

open JsonText

namespace EventRecord

section text

/-- The numbers of an event fit the types the recorder has for them. -/
structure Fits (e : EventRecord) : Prop where
  naturals : ∀ n ∈ [e.sequence, e.timestampNs, e.durationNs, e.payloadBytes], n < 2 ^ 64
  integers : ∀ n ∈ [e.peer, e.tag, e.errorCode, e.communicator, e.requestId], n.natAbs < 2 ^ 64

def kind (e : EventRecord) : String :=
  if isCompletion (operationIndex e.operation) then "request_completion" else "api_call"

def entries (rank : Nat) (e : EventRecord) : List Entry :=
  [⟨"schema_version", JsonValue.digits 2, .int 2⟩,
    ⟨"sequence", JsonValue.digits e.sequence, .int e.sequence⟩,
    ⟨"timestamp_ns", JsonValue.digits e.timestampNs, .int e.timestampNs⟩,
    ⟨"rank", JsonValue.digits rank, .int rank⟩,
    ⟨"operation", recorderQuote e.operation, .str (PyStr.ofString e.operation)⟩,
    ⟨"record_kind", recorderQuote e.kind, .str (PyStr.ofString e.kind)⟩,
    ⟨"duration_ns", JsonValue.digits e.durationNs, .int e.durationNs⟩,
    ⟨"payload_bytes", JsonValue.digits e.payloadBytes, .int e.payloadBytes⟩,
    ⟨"peer", JsonValue.digits e.peer, .int e.peer⟩,
    ⟨"tag", JsonValue.digits e.tag, .int e.tag⟩,
    ⟨"error_code", JsonValue.digits e.errorCode, .int e.errorCode⟩,
    ⟨"communicator", JsonValue.digits e.communicator, .int e.communicator⟩,
    ⟨"request_id", JsonValue.digits e.requestId, .int e.requestId⟩]

/-- The event on the line, as the analyzer has it. -/
def dict (rank : Nat) (e : EventRecord) : Analyzer.Dict := (e.entries rank).map Entry.entry

variable {rank : Nat} {e : EventRecord}

theorem text_entries : e.text rank = '\x7b' :: ([] ++
    (List.intercalate (',' :: []) ((e.entries rank).map (Entry.member [])) ++ ([] ++ ['\x7d']))) := by
  rfl

theorem reads_text (he : e.Fits) (hrank : rank < 2 ^ 64) :
    Reads (value 3) (e.text rank) (.dict (e.dict rank)) := by
  have keys : ((e.entries rank).map Entry.key).Nodup := by
    show ["schema_version", "sequence", "timestamp_ns", "rank", "operation", "record_kind",
      "duration_ns", "payload_bytes", "peer", "tag", "error_code", "communicator",
      "request_id"].Nodup
    decide
  obtain ⟨naturals, integers⟩ := he
  simp only [List.forall_mem_cons] at naturals integers
  obtain ⟨sequence, timestamp, duration, payload, -⟩ := naturals
  obtain ⟨peer, tag, errorCode, communicator, requestId, -⟩ := integers
  rw [text_entries]
  refine reads_object (List.cons_ne_nil _ _) keys (List.all_eq_true.mp (by decide)) (List.all_eq_true.mp (by decide))
    (List.all_eq_true.mp (by decide)) (.inl rfl) (List.all_eq_true.mp (by decide)) (fun f hf => ?_)
  simp only [entries, List.mem_cons, List.not_mem_nil, or_false] at hf
  obtain rfl | rfl | rfl | rfl | rfl | rfl | rfl | rfl | rfl | rfl | rfl | rfl | rfl := hf
  · exact @reads_digits 2 2 (digits_short (by decide))
  · exact RankSummary.reads_natural sequence
  · exact RankSummary.reads_natural timestamp
  · exact RankSummary.reads_natural hrank
  · exact reads_quote _
  · exact reads_quote _
  · exact RankSummary.reads_natural duration
  · exact RankSummary.reads_natural payload
  · exact reads_digits (digits_short peer)
  · exact reads_digits (digits_short tag)
  · exact reads_digits (digits_short errorCode)
  · exact reads_digits (digits_short communicator)
  · exact reads_digits (digits_short requestId)

theorem parse_line (he : e.Fits) (hrank : rank < 2 ^ 64) :
    parse (e.line rank) = some (.dict (e.dict rank)) := parse_reads (reads_text he hrank)

end text

end EventRecord

namespace Recording

open Analyzer (get textLines linesFrom passes advance admitted accepted Harmless Clean Placed
  Interpreter)

section lines

/-- A send that succeeded has its peer in the world. -/
def Inside (worldSize : Nat) (e : EventRecord) : Prop :=
  e.errorCode = 0 → (e.operation = "MPI_Send" ∨ e.operation = "MPI_Isend") →
    0 ≤ e.peer ∧ e.peer < worldSize

def lineOf (rank : Nat) (e : EventRecord) : PyStr := (e.line rank).map Char.toNat

variable {py : Interpreter} {rank worldSize : Nat} {last : Int} {e : EventRecord}
  {events : List EventRecord}

theorem linesFrom_plain {c : Nat} {cs acc : PyStr} (hc : 32 ≤ c) :
    linesFrom acc (c :: cs) = linesFrom (acc ++ [c]) cs := by
  rw [Analyzer.linesFrom.eq_def]
  split
  · next heq => cases heq
  · next heq => simp only [List.cons.injEq] at heq; omega
  · next heq => simp only [List.cons.injEq] at heq; omega
  · next heq => simp only [List.cons.injEq] at heq; omega
  · next heq =>
    obtain ⟨rfl, rfl⟩ := List.cons.inj heq
    rfl

theorem linesFrom_line {cs rest acc : PyStr} (h : ∀ c ∈ cs, 32 ≤ c) :
    linesFrom acc (cs ++ 10 :: rest) = (acc ++ cs ++ [10]) :: linesFrom [] rest := by
  induction cs generalizing acc with
  | nil =>
    rw [List.nil_append, List.append_nil]
    simp [linesFrom]
  | cons c cs ih =>
    obtain ⟨hc, h⟩ := List.forall_mem_cons.mp h
    rw [List.cons_append, linesFrom_plain hc, ih h]
    simp only [List.append_assoc, List.cons_append, List.nil_append]

theorem textLines_append {rest : PyStr} :
    textLines ((eventLines rank events).map Char.toNat ++ rest) =
      events.map (lineOf rank) ++ textLines rest := by
  induction events with
  | nil => rfl
  | cons e events ih =>
    have printable : ∀ c ∈ (e.text rank).map Char.toNat, 32 ≤ c := by
      intro c hc
      obtain ⟨x, hx, rfl⟩ := List.mem_map.mp hc
      exact text_printable rank e x hx
    have text : (eventLines rank (e :: events)).map Char.toNat ++ rest =
        (e.text rank).map Char.toNat ++ 10 :: ((eventLines rank events).map Char.toNat ++ rest) := by
      simp [eventLines, EventRecord.line]
    rw [text, textLines, linesFrom_line printable, List.map_cons, List.cons_append, ← ih]
    simp [lineOf, EventRecord.line, textLines]

theorem textLines_eventLines :
    textLines ((eventLines rank events).map Char.toNat) = events.map (lineOf rank) := by
  have lines := @textLines_append rank events []
  rw [List.append_nil] at lines
  rw [lines]
  exact List.append_nil _

theorem get_dict (key : String) : get (e.dict rank) key =
    ((e.entries rank).find? (fun f => key == f.key)).map Entry.value :=
  RankSummary.get_entries _ _

/-- The operations of which the name ends in `_complete` are those that complete a request. -/
theorem completion_names : ∀ operation ∈ kOperationNames,
    Analyzer.completeSuffix.isSuffixOf (PyStr.ofString operation) =
      isCompletion (operationIndex operation) := by
  decide +kernel

theorem admitted_dict {line : PyStr} (hload : py.loads line = .ok (.dict (e.dict rank))) :
    admitted py rank line = some (e.dict rank, 2) := by
  have schema : get (e.dict rank) "schema_version" = some (.int 2) := by rw [get_dict]; rfl
  have ranked : get (e.dict rank) "rank" = some (.int rank) := by rw [get_dict]; rfl
  rw [admitted, hload]
  simp only [schema, ranked, Analyzer.supported, Analyzer.equalsInt]
  simp

theorem sequenceOf_dict : Analyzer.sequenceOf (e.dict rank) = some (e.sequence : Int) := by
  have sequence : get (e.dict rank) "sequence" = some (.int e.sequence) := by rw [get_dict]; rfl
  rw [Analyzer.sequenceOf, sequence]
  exact if_pos (Int.natCast_nonneg _)

theorem operation_dict : get (e.dict rank) "operation" =
    some (.str (PyStr.ofString e.operation)) := by rw [get_dict]; rfl

theorem kindMatches_dict (hname : e.operation ∈ kOperationNames) :
    Analyzer.kindMatches py (e.dict rank) = true := by
  have kind : get (e.dict rank) "record_kind" = some (.str (PyStr.ofString e.kind)) := by
    rw [get_dict]; rfl
  rw [Analyzer.kindMatches, operation_dict, kind]
  show Analyzer.hasKind (Analyzer.completeSuffix.isSuffixOf _) _ = true
  rw [completion_names _ hname]
  exact decide_eq_true rfl

theorem passes_dict {line : PyStr} (hload : py.loads line = .ok (.dict (e.dict rank)))
    (hname : e.operation ∈ kOperationNames) (hl : last < e.sequence) :
    passes py rank last line = some (e.dict rank) ∧ advance py rank last line = e.sequence := by
  have ha := admitted_dict hload
  constructor
  · rw [passes, ha]
    simp only [sequenceOf_dict, kindMatches_dict hname, hl]
    rfl
  · rw [advance, Analyzer.candidate, ha]
    simp only [sequenceOf_dict]
    exact max_eq_right hl.le

def IsSend (e : EventRecord) : Prop := e.operation = "MPI_Send" ∨ e.operation = "MPI_Isend"

instance (e : EventRecord) : Decidable (IsSend e) := inferInstanceAs (Decidable (_ ∨ _))

theorem failed_dict : Analyzer.failed py (e.dict rank) = !decide (e.errorCode = 0) := by
  have code : get (e.dict rank) "error_code" = some (.int e.errorCode) := by rw [get_dict]; rfl
  rw [Analyzer.failed, code]
  rfl

theorem isSend_dict : Analyzer.isSend (e.dict rank) = true ↔ IsSend e := by
  rw [Analyzer.isSend, operation_dict, RankSummary.isOneOf_ofString]
  simp [IsSend]

theorem edgeOf_dict (hrank : rank < worldSize) : Analyzer.edgeOf worldSize (e.dict rank) =
    if 0 ≤ e.peer ∧ e.peer < worldSize then some ((rank, e.peer.toNat), e.payloadBytes)
    else none := by
  have ranked : get (e.dict rank) "rank" = some (.int rank) := by rw [get_dict]; rfl
  have peer : get (e.dict rank) "peer" = some (.int e.peer) := by rw [get_dict]; rfl
  have payload : get (e.dict rank) "payload_bytes" = some (.int e.payloadBytes) := by
    rw [get_dict]; rfl
  have source : (0 : Int) ≤ rank ∧ (rank : Int) < worldSize :=
    ⟨Int.natCast_nonneg _, by exact_mod_cast hrank⟩
  rw [Analyzer.edgeOf, ranked, peer, payload]
  simp [source]

theorem placed_dict (hrank : rank < worldSize) :
    Placed py worldSize (e.dict rank) ↔ Inside worldSize e := by
  rw [Placed, failed_dict, isSend_dict, edgeOf_dict hrank, Inside, IsSend]
  simp

theorem loads_line (hpy : ReadsJson py) (he : e.Fits) (hrank : rank < 2 ^ 64) :
    py.loads (lineOf rank e) = .ok (.dict (e.dict rank)) :=
  hpy _ _ (EventRecord.parse_line he hrank)

theorem lines_clean (hpy : ReadsJson py) (hfits : ∀ e ∈ events, e.Fits) (hrank : rank < worldSize)
    (hworld : worldSize < 2 ^ 64) (hnames : ∀ e ∈ events, e.operation ∈ kOperationNames)
    (hl : ∀ e ∈ events, last < e.sequence)
    (hsorted : events.Pairwise (fun e f => e.sequence < f.sequence)) :
    Harmless py rank last (events.map (lineOf rank)) ∧
      (Clean py rank worldSize last (events.map (lineOf rank)) ↔
        ∀ e ∈ events, Inside worldSize e) := by
  induction events generalizing last with
  | nil => exact ⟨trivial, fun _ _ h => (nomatch h), fun _ => trivial⟩
  | cons e events ih =>
    obtain ⟨he, hfits⟩ := List.forall_mem_cons.mp hfits
    obtain ⟨hname, hnames⟩ := List.forall_mem_cons.mp hnames
    obtain ⟨hle, -⟩ := List.forall_mem_cons.mp hl
    obtain ⟨above, hsorted⟩ := List.pairwise_cons.mp hsorted
    have hrank64 : rank < 2 ^ 64 := hrank.trans hworld
    have hload := loads_line hpy he hrank64
    obtain ⟨hpass, hadvance⟩ := passes_dict hload hname hle
    obtain ⟨harmless, clean⟩ := ih hfits hnames
      (fun f hf => by exact_mod_cast above f hf : ∀ f ∈ events, (e.sequence : Int) < f.sequence) hsorted
    rw [List.map_cons, List.forall_mem_cons, ← @placed_dict py rank worldSize e hrank, ← clean]
    refine ⟨⟨?_, ?_, by rw [hadvance]; exact harmless⟩, ?_⟩
    · rintro (⟨message, h⟩ | h | ⟨ha, -, -, ⟨x, hx⟩⟩)
      · rw [hload] at h
        cases h
      · rw [hload] at h
        cases h
      · rw [admitted_dict hload] at ha
        obtain ⟨rfl, -⟩ := Prod.mk.inj (Option.some.inj ha)
        rw [operation_dict] at hx
        cases hx
    · rw [hpass]
      rintro _ ⟨⟩
      exact .inr (by rw [operation_dict]; rfl)
    · show ((∃ event, passes py rank last (lineOf rank e) = some event ∧ _) ∧ Clean py rank worldSize
        (advance py rank last (lineOf rank e)) (events.map (lineOf rank))) ↔ _
      rw [hpass, hadvance]
      simp

end lines

section files

/-- `setw(5) << setfill('0') << rank`. -/
def paddedRank (rank : Nat) : List Char :=
  List.replicate (5 - (Nat.toDigits 10 rank).length) '0' ++ Nat.toDigits 10 rank

def rankPath (rank : Nat) (suffix : String) : String :=
  String.ofList ("rank".toList ++ '-' :: (paddedRank rank ++ '-' :: suffix.toList))

def eventsFile (rank : Nat) (text : List Char) : Analyzer.File :=
  ⟨rankPath rank "events.jsonl", .text (text.map Char.toNat)⟩

/-- `int` reads decimal numbers, with leading zeros too. -/
def ReadsRank (py : Interpreter) : Prop := ∀ zeros n : Nat,
  zeros + (Nat.toDigits 10 n).length ≤ 4300 →
    py.int (String.ofList (List.replicate zeros '0' ++ Nat.toDigits 10 n)) = some (n : Int)

/-- The file is processed without a warning. -/
def Quiet (py : Interpreter) (worldSize : Nat) (file : Analyzer.File) : Prop :=
  ∀ runtimeMaxNs s, ∃ s', Analyzer.loadFile py worldSize runtimeMaxNs s file = .ok s' ∧
    s'.warnings = s.warnings

variable {py : Interpreter} {rank worldSize : Nat} {events : List EventRecord} {file : Analyzer.File}

theorem paddedRank_digits (rank : Nat) : ∀ c ∈ paddedRank rank, c.isDigit = true := by
  rw [paddedRank, List.forall_mem_append]
  exact ⟨fun c hc => by rw [List.eq_of_mem_replicate hc]; rfl,
    fun c hc => Nat.isDigit_of_mem_toDigits (by decide) (by decide) hc⟩

theorem rankField_path (rank : Nat) (suffix : String) :
    Analyzer.rankField (rankPath rank suffix) = some (String.ofList (paddedRank rank)) := by
  have dash : '-' ∉ paddedRank rank := fun hc => absurd (paddedRank_digits rank _ hc) (by decide)
  rw [Analyzer.rankField, rankPath, String.toList_ofList, List.splitOn_append_cons_self,
    List.splitOn_append_cons_self, List.splitOn_eq_singleton dash, List.splitOn_eq_singleton
      (by decide : '-' ∉ "rank".toList)]
  rfl

theorem expectedRank_path (hint : ReadsRank py) (hrank : rank < 2 ^ 64) (suffix : String)
    (content : Analyzer.Content) :
    Analyzer.expectedRank py ⟨rankPath rank suffix, content⟩ = some (rank : Int) := by
  have short : 5 - (Nat.toDigits 10 rank).length + (Nat.toDigits 10 rank).length ≤ 4300 := by
    have twenty : (Nat.toDigits 10 rank).length ≤ 20 :=
      (Nat.length_toDigits_le_iff (by decide) (by decide)).mpr (hrank.trans (by decide))
    omega
  rw [Analyzer.expectedRank, rankField_path, Option.bind_some]
  exact hint _ _ short

theorem quiet_iff : Quiet py worldSize file ↔
    Analyzer.FileHarmless py file ∧ Analyzer.FileClean py worldSize file := by
  constructor
  · intro quiet
    obtain ⟨s', hs', hw⟩ := quiet 0 ⟨[], [], []⟩
    obtain ⟨-, e, herr⟩ | ⟨harmless, s, hok, grown⟩ :=
      @Analyzer.loadFile_cases py worldSize 0 file ⟨[], [], []⟩
    · exact nomatch hs'.symm.trans herr
    · obtain rfl := Except.ok.inj (hs'.symm.trans hok)
      refine ⟨harmless, ?_⟩
      by_contra unclean
      have louder := grown.loud (Nat.zero_lt_succ 99) (by simpa using unclean)
      rw [hw] at louder
      exact absurd louder (Nat.lt_irrefl _)
  · rintro ⟨harmless, clean⟩ runtimeMaxNs s
    obtain ⟨unharmless, -⟩ | ⟨-, s', hok, grown⟩ :=
      @Analyzer.loadFile_cases py worldSize runtimeMaxNs file s
    · exact absurd harmless unharmless
    · exact ⟨s', hok, grown.silent (by simpa using clean)⟩

/-- The file of some events is processed without a warning exactly when no send that succeeded has
its peer outside the world. -/
theorem eventsFile_quiet_iff (hpy : ReadsJson py) (hint : ReadsRank py)
    (hfits : ∀ e ∈ events, e.Fits) (hrank : rank < worldSize) (hworld : worldSize < 2 ^ 64)
    (hnames : ∀ e ∈ events, e.operation ∈ kOperationNames)
    (hsorted : events.Pairwise (fun e f => e.sequence < f.sequence)) :
    Quiet py worldSize (eventsFile rank (eventLines rank events)) ↔
      ∀ e ∈ events, Inside worldSize e := by
  have ranked := expectedRank_path hint (hrank.trans hworld) "events.jsonl"
    (.text ((eventLines rank events).map Char.toNat))
  obtain ⟨harmless, clean⟩ := @lines_clean py rank worldSize (-1) events hpy hfits hrank hworld
    hnames (fun e _ => by omega) hsorted
  rw [← textLines_eventLines] at harmless clean
  have quiet : Analyzer.FileHarmless py (eventsFile rank (eventLines rank events)) := by
    intro rank' hr
    obtain rfl := Option.some.inj (ranked.symm.trans hr)
    exact ⟨Analyzer.Content.noConfusion, harmless⟩
  rw [quiet_iff, and_iff_right quiet, ← clean]
  constructor
  · rintro ⟨rank', text, hr, hc, h⟩
    obtain rfl := Option.some.inj (ranked.symm.trans hr)
    obtain rfl := Analyzer.Content.text.inj hc
    exact h
  · exact fun h => ⟨rank, _, ranked, rfl, h⟩

end files

section runs

/-- A call a wrapper records, the numbers of which fit. -/
def Legal (procNull : Int) (c : RecordCall) : Prop := c.Fits ∧ ∃ w : WrapperCall, c = w.call procNull

/-- A call of which a send that succeeded has its peer in `MPI_COMM_WORLD`. -/
def LegalInside (procNull : Int) (worldSize : Nat) (c : RecordCall) : Prop :=
  c.Fits ∧ ∃ w : WrapperCall, w.Inside worldSize ∧ c = w.call procNull

variable {py : Interpreter} {worldSize : Nat} {procNull : Int} {s : State}
  {calls : List RecordCall} {e : EventRecord} {kept : List EventRecord}

theorem LegalInside.legal {c : RecordCall} (h : LegalInside procNull worldSize c) :
    Legal procNull c := by
  obtain ⟨fits, w, -, rfl⟩ := h
  exact ⟨fits, w, rfl⟩

theorem mem_eventsOf (h : e ∈ eventsOf calls) : ∃ c ∈ calls, ∃ i < calls.length, e = eventOf (c, i) := by
  obtain ⟨⟨c, i⟩, hm, rfl⟩ := List.mem_map.mp h
  obtain ⟨-, hi, hc⟩ := List.mem_zipIdx hm
  exact ⟨c, by rw [hc]; exact List.getElem_mem _, i, by simpa using hi, rfl⟩

theorem eventsOf_sorted : (eventsOf calls).Pairwise (fun e f => e.sequence < f.sequence) := by
  induction calls using List.reverseRecOn with
  | nil => exact .nil
  | append_singleton calls call ih =>
    rw [eventsOf_append, List.pairwise_append]
    refine ⟨ih, List.pairwise_singleton _ _, fun e he f hf => ?_⟩
    obtain rfl := List.mem_singleton.mp hf
    obtain ⟨c, -, i, hi, rfl⟩ := mem_eventsOf he
    exact hi

theorem eventOf_fits {c : RecordCall} {i : Nat} (h : c.Fits) (hi : i < 2 ^ 64) :
    (eventOf (c, i)).Fits := by
  refine ⟨?_, ?_⟩
  · simp only [List.forall_mem_cons]
    have bytes : c.bytes.toNat < 2 ^ 64 := by
      have := h.bytes
      omega
    exact ⟨hi, h.times.1, h.times.2, bytes, fun _ h => nomatch h⟩
  · simp only [List.forall_mem_cons]
    exact ⟨h.peer, h.tag, h.errorCode, h.communicator, h.requestId, fun _ h => nomatch h⟩

theorem History.kept_legal {legal : RecordCall → Prop} (h : History legal s calls kept)
    (hlegal : ∀ c, legal c → Legal procNull c) (hcalls : s.calls ≤ 2 ^ 64) :
    (∀ e ∈ kept, e.Fits) ∧ (∀ e ∈ kept, e.operation ∈ kOperationNames) ∧
      kept.Pairwise (fun e f => e.sequence < f.sequence) := by
  refine ⟨fun e he => ?_, fun e he => ?_, eventsOf_sorted.sublist h.sublist⟩
  · obtain ⟨c, hc, i, hi, rfl⟩ := mem_eventsOf (h.sublist.subset he)
    have total := h.length
    exact eventOf_fits (hlegal c (h.legal c hc)).1 (by omega)
  · obtain ⟨c, hc, i, -, rfl⟩ := mem_eventsOf (h.sublist.subset he)
    obtain ⟨-, w, rfl⟩ := hlegal c (h.legal c hc)
    exact call_operation procNull w

theorem inside_call {w : WrapperCall} {i : Nat} (h : w.Inside worldSize) :
    Inside worldSize (eventOf (w.call procNull, i)) := by
  intro hcode hname
  cases w with
  | send operation hs payloadSize a =>
    have code : a.errorCode = 0 := hcode
    have inside := h code
    show 0 ≤ (if a.errorCode = 0 then worldPeer a.communicator a.peer else a.peer) ∧
      (if a.errorCode = 0 then worldPeer a.communicator a.peer else a.peer) < worldSize
    rwa [if_pos code]
  | other operation hn hs a =>
    obtain hname | hname := hname
    · exact absurd hname hs.1
    · exact absurd hname hs.2
  | completed receive timestampNs count peer tag requestId cancelled =>
    have named : (if receive = true then "MPI_Irecv_complete" else "MPI_Isend_complete") = "MPI_Send" ∨
        (if receive = true then "MPI_Irecv_complete" else "MPI_Isend_complete") = "MPI_Isend" := hname
    cases receive <;> simp at named

theorem History.kept_inside (h : History (LegalInside procNull worldSize) s calls kept) :
    ∀ e ∈ kept, Inside worldSize e := by
  intro e he
  obtain ⟨c, hc, i, -, rfl⟩ := mem_eventsOf (h.sublist.subset he)
  obtain ⟨-, w, hw, rfl⟩ := h.legal c hc
  exact inside_call hw

/-- The lines written in a run in which every send that succeeds stays in the world are all
processed without a warning. -/
theorem lines_quiet (hpy : ReadsJson py) (hint : ReadsRank py)
    (h : Drives (LegalInside procNull worldSize) s) (hworld : s.recorder.worldSize = worldSize)
    (hsize : worldSize < 2 ^ 31) (hcalls : s.calls ≤ 2 ^ 64) :
    ∃ events, Faithful s events ∧ ∀ written, written <+: events →
      Quiet py worldSize (eventsFile s.recorder.rank (eventLines s.recorder.rank written)) := by
  obtain ⟨out, calls, hf, hh⟩ := drives_history h
  obtain ⟨fits, names, sorted⟩ := hh.kept_legal (fun c hc => hc.legal) hcalls
  refine ⟨out, hf, fun written hw => ?_⟩
  have kept : written.Sublist (s.kept out) :=
    hw.sublist.trans (List.sublist_append_left out _)
  have inside := hh.inside
  rw [hworld] at inside
  exact (eventsFile_quiet_iff hpy hint (fun e he => fits e (kept.subset he)) inside
    (hsize.trans (by decide)) (fun e he => names e (kept.subset he)) (sorted.sublist kept)).mpr
      (fun e he => hh.kept_inside e (kept.subset he))

end runs

section captures

open Analyzer (AnalysisResult analyze)

/-- What the recorders of a run leave in the capture directory. -/
def captureOf (directory : String) (manifest : Option Analyzer.Content)
    (ranks : List (State × Publishing)) : Analyzer.Capture where
  directory := directory
  summaries := ranks.map (fun r => ⟨rankPath r.1.recorder.rank "summary.json",
    .text ((r.1.recorder.document r.2).text.map Char.toNat)⟩)
  manifest := manifest
  events := (ranks.filter (fun r => r.1.recorder.traceEvents)).map (fun r =>
    eventsFile r.1.recorder.rank r.1.stream.file)

/-- A recorder that has finished, with its last summary. -/
structure Finished (legal : RecordCall → Prop) (worldSize : Nat) (r : State × Publishing) : Prop where
  drives : Drives legal r.1
  worldSize : r.1.recorder.worldSize = worldSize
  closed : r.1.phase.isClosed = true
  few : r.1.calls ≤ 2 ^ 64
  state : r.2.captureState = .finalized
  complete : r.2.complete = true
  code : r.2.finalizeReturnCode = 0
  range : (r.1.recorder.document r.2).InRange

/-- Nothing was dropped, and the writer has not failed. -/
def Undamaged (r : State × Publishing) : Prop :=
  r.1.recorder.eventsDropped = 0 ∧ r.2.writerFailed = false ∧ r.1.stream.good = true

variable {py : Interpreter} {worldSize : Nat} {procNull : Int} {legal : RecordCall → Prop}
  {directory : String} {manifest : Option Analyzer.Content} {ranks : List (State × Publishing)}
  {threshold : ℚ} {result : AnalysisResult}

theorem drives_reaches {s : State} (h : Drives legal s) : Reaches s := by
  induction h with
  | start hrank => exact .start hrank
  | record h call hc hp ih => exact ih.step (.record call hp)
  | other h hs hc ih => exact ih.step hs

theorem Finished.loads {r : State × Publishing} (h : Finished legal worldSize r)
    (hpy : ReadsJson py) (directory name : String) :
    Analyzer.loadSummary py directory
      ⟨name, .text ((r.1.recorder.document r.2).text.map Char.toNat)⟩ =
        .ok (r.1.recorder.document r.2).read :=
  (snapshot_loads hpy (drives_reaches h.drives) h.code.ge h.range directory name).2

theorem closed_file {s : State} {out : List EventRecord} (h : Faithful s out)
    (hp : s.phase.isClosed = true) (hg : s.stream.good = true) :
    s.kept out = out ∧ s.stream.file = eventLines s.recorder.rank out := by
  have drained : s.phase.drained = true := by
    revert hp
    cases s.phase <;> simp [Phase.isClosed, Phase.drained]
  obtain ⟨idle, empty⟩ := h.drained drained
  have held := h.holding
  rw [Holding, if_pos hg, h.closed hp hg, List.append_nil] at held
  refine ⟨?_, held⟩
  rw [State.kept, State.rest, idle, empty hg]
  exact List.append_nil out

theorem mapM_map_ok {α β γ ε : Type} {f : β → Except ε γ} {g : α → β} {k : α → γ} {xs : List α}
    (h : ∀ x ∈ xs, f (g x) = .ok (k x)) : (xs.map g).mapM f = .ok (xs.map k) := by
  induction xs with
  | nil => rfl
  | cons x xs ih =>
    obtain ⟨hx, h⟩ := List.forall_mem_cons.mp h
    rw [List.map_cons, List.mapM_cons, hx, ih h]
    rfl

theorem overview_summaries {o : Analyzer.Overview}
    (hloads : ∀ r ∈ ranks, ∀ name, Analyzer.loadSummary py directory
      ⟨name, .text ((r.1.recorder.document r.2).text.map Char.toNat)⟩ =
        .ok (r.1.recorder.document r.2).read)
    (ho : Analyzer.overview py (captureOf directory manifest ranks) threshold = .ok o) :
    o.summaries = ranks.map (fun r => (r.1.recorder.document r.2).read) ∧
      o.worldSize = (ranks.head?.map (fun r => r.1.recorder.worldSize)).getD 0 ∧
      o.totalBytesSent = (ranks.map (fun r => r.1.recorder.bytesSent)).sum := by
  unfold Analyzer.overview at ho
  obtain ⟨-, -, ho⟩ := Analyzer.bind_ok_iff.mp ho
  obtain ⟨summaries, hsummaries, ho⟩ := Analyzer.bind_ok_iff.mp ho
  obtain ⟨medianRuntime, -, ho⟩ := Analyzer.bind_ok_iff.mp ho
  obtain ⟨late, -, ho⟩ := Analyzer.bind_ok_iff.mp ho
  obtain ⟨metadata, -, ho⟩ := Analyzer.bind_ok_iff.mp ho
  obtain ⟨-, -, ho⟩ := Analyzer.bind_ok_iff.mp ho
  unfold Analyzer.loadSummaries at hsummaries
  obtain ⟨-, -, hsummaries⟩ := Analyzer.bind_ok_iff.mp hsummaries
  obtain ⟨loaded, hloaded, hsummaries⟩ := Analyzer.bind_ok_iff.mp hsummaries
  obtain ⟨-, -, hsummaries⟩ := Analyzer.bind_ok_iff.mp hsummaries
  obtain ⟨-, -, hsummaries⟩ := Analyzer.bind_ok_iff.mp hsummaries
  have read : (captureOf directory manifest ranks).summaries.mapM
      (Analyzer.loadSummary py directory) =
        .ok (ranks.map (fun r => (r.1.recorder.document r.2).read)) :=
    mapM_map_ok (fun r hr => hloads r hr _)
  obtain rfl := Except.ok.inj (read.symm.trans hloaded)
  obtain rfl := Except.ok.inj hsummaries
  obtain rfl := Except.ok.inj ho
  refine ⟨rfl, ?_, ?_⟩
  · rw [List.head?_map, Option.map_map]
    rfl
  · show ((ranks.map (fun r => (r.1.recorder.document r.2).read)).map
      Analyzer.RankSummary.bytesSent).sum = _
    rw [List.map_map]
    rfl

theorem lookup_ofString (ms : List (String × String)) (key : String) :
    (ms.map (fun m => (PyStr.ofString m.1, PyStr.ofString m.2))).lookup (PyStr.ofString key) =
      (ms.lookup key).map PyStr.ofString := by
  induction ms with
  | nil => rfl
  | cons m ms ih =>
    rw [List.map_cons, List.lookup_cons, List.lookup_cons, ih]
    by_cases h : key = m.1
    · rw [h, beq_self_eq_true, beq_self_eq_true]
      rfl
    · have other : ¬PyStr.ofString key = PyStr.ofString m.1 := fun he => h (ofString_injective he)
      rw [show (PyStr.ofString key == PyStr.ofString m.1) = false from by simpa using other,
        show (key == m.1) = false from by simpa using h]

theorem contextGet_read (d : RankSummary) (key default : String) :
    Analyzer.contextGet d.read key default =
      PyStr.ofString ((d.context.lookup key).getD default) := by
  rw [Analyzer.contextGet]
  show ((d.context.map (fun m => (PyStr.ofString m.1, PyStr.ofString m.2))).lookup
    (PyStr.ofString key)).getD _ = _
  rw [lookup_ofString]
  cases d.context.lookup key <;> rfl

theorem Undamaged.reports {r : State × Publishing} (h : Undamaged r) :
    Analyzer.contextGet (r.1.recorder.document r.2).read "events_dropped" "0" =
        PyStr.ofString "0" ∧
      Analyzer.contextGet (r.1.recorder.document r.2).read "writer_failed" "" =
        PyStr.ofString "false" := by
  obtain ⟨dropped, failed, -⟩ := h
  have first : (r.1.recorder.document r.2).context.lookup "events_dropped" =
      some (toString r.1.recorder.eventsDropped) := rfl
  have second : (r.1.recorder.document r.2).context.lookup "writer_failed" =
      some (if r.2.writerFailed then "true" else "false") := rfl
  rw [contextGet_read, contextGet_read, first, second, dropped, failed]
  exact ⟨rfl, rfl⟩

/-- The event detail of a finished run without damage is called observed exactly when every file is
quiet. -/
theorem observed_quiet (hpy : ReadsJson py) (hranks : ∀ r ∈ ranks, Finished legal worldSize r)
    (hne : ranks ≠ []) (hundamaged : ∀ r ∈ ranks, Undamaged r)
    (h : analyze py (captureOf directory manifest ranks) threshold = .ok result) :
    result.coverage.eventDetail = "observed" ↔ ∀ r ∈ ranks,
      Analyzer.FileClean py worldSize (eventsFile r.1.recorder.rank r.1.stream.file) := by
  obtain ⟨o, s, unsorted, ho, hs, -, hresult⟩ := Analyzer.analyze_ok h
  obtain ⟨hsummaries, hworld, -⟩ :=
    overview_summaries (fun r hr name => (hranks r hr).loads hpy directory name) ho
  obtain ⟨first, rest, rfl⟩ := List.exists_cons_of_ne_nil hne
  have world : o.worldSize = worldSize := hworld.trans (hranks first List.mem_cons_self).worldSize
  have kept : Analyzer.lost o.summaries "events_dropped" = false := by
    rw [Analyzer.lost, hsummaries, List.any_eq_false]
    rw [List.forall_mem_map]
    exact fun r hr => by simp [(hundamaged r hr).reports.1]
  have sound : Analyzer.writerFailed o.summaries = false := by
    rw [Analyzer.writerFailed, hsummaries, List.any_eq_false]
    rw [List.forall_mem_map]
    intro r hr
    rw [(hundamaged r hr).reports.2]
    decide
  obtain ⟨-, e, herr⟩ | ⟨-, s', hok, grown⟩ := @Analyzer.loadFiles_cases py o.worldSize
    o.maximumRuntime (captureOf directory manifest (first :: rest)).events (o.evidence py _)
  · exact nomatch hs.symm.trans herr
  obtain rfl := Except.ok.inj (hs.symm.trans hok)
  have traced : (first :: rest).filter (fun r => r.1.recorder.traceEvents) = first :: rest :=
    List.filter_eq_self.mpr (fun r hr => by
      obtain ⟨out, -, hf, -⟩ := drives_history (hranks r hr).drives
      exact hf.tracing)
  have files : (∀ r ∈ first :: rest, Analyzer.FileClean py worldSize
      (eventsFile r.1.recorder.rank r.1.stream.file)) ↔
      ∀ file ∈ (captureOf directory manifest (first :: rest)).events,
        Analyzer.FileClean py o.worldSize file := by
    rw [world, captureOf, traced, List.forall_mem_map]
  have few : (o.evidence py (captureOf directory manifest (first :: rest))).warnings.length < 100 :=
    (Analyzer.captureWarnings_length _ _ _ _ _).trans_lt (by decide)
  have same : (o.evidence py (captureOf directory manifest (first :: rest))).warnings =
    o.warnings py (captureOf directory manifest (first :: rest)) := rfl
  rw [files, hresult.coverage, Analyzer.coverageOf, kept, sound]
  constructor
  · intro hobserved
    by_contra unclean
    have rejected := grown.loud few unclean
    rw [same] at rejected
    simp only [decide_eq_true rejected, Bool.or_true, if_true] at hobserved
    split at hobserved <;> exact absurd hobserved (by decide)
  · intro clean
    have silent := grown.silent clean
    rw [same] at silent
    rw [silent]
    simp [captureOf, traced]

/-- In a run in which every send that succeeds stays in the world, each line that is written is
processed without a warning, and without damage the event detail of the capture is observed. -/
theorem events_accepted (hpy : ReadsJson py) (hint : ReadsRank py) (hsize : worldSize < 2 ^ 31) :
    (∀ s, Drives (LegalInside procNull worldSize) s → s.recorder.worldSize = worldSize →
      s.calls ≤ 2 ^ 64 → ∃ events, Faithful s events ∧ ∀ written, written <+: events →
        Quiet py worldSize (eventsFile s.recorder.rank (eventLines s.recorder.rank written))) ∧
    ∀ ranks : List (State × Publishing), ranks ≠ [] →
      (∀ r ∈ ranks, Finished (LegalInside procNull worldSize) worldSize r) →
      (∀ r ∈ ranks, Undamaged r) → ∀ directory manifest threshold result,
        analyze py (captureOf directory manifest ranks) threshold = .ok result →
          result.coverage.eventDetail = "observed" := by
  have lines : ∀ s, Drives (LegalInside procNull worldSize) s → s.recorder.worldSize = worldSize →
      s.calls ≤ 2 ^ 64 → ∃ events, Faithful s events ∧ ∀ written, written <+: events →
        Quiet py worldSize (eventsFile s.recorder.rank (eventLines s.recorder.rank written)) :=
    fun s h hworld hcalls => lines_quiet hpy hint h hworld hsize hcalls
  refine ⟨lines, fun ranks hne hranks hundamaged directory manifest threshold result h => ?_⟩
  refine (observed_quiet hpy hranks hne hundamaged h).mpr (fun r hr => ?_)
  have finished := hranks r hr
  obtain ⟨events, hf, quiet⟩ := lines r.1 finished.drives finished.worldSize finished.few
  rw [(closed_file hf finished.closed (hundamaged r hr).2.2).2]
  exact (quiet_iff.mp (quiet events (List.prefix_refl _))).2

theorem ofDigitChars_zeros (zeros : Nat) (cs : List Char) :
    Nat.ofDigitChars 10 (List.replicate zeros '0' ++ cs) 0 = Nat.ofDigitChars 10 cs 0 := by
  induction zeros with
  | zero => rfl
  | succ zeros ih =>
    rw [List.replicate_succ, List.cons_append]
    exact ih

theorem jsonReader_rank : ReadsRank jsonReader := by
  intro zeros n _
  have digits : (List.replicate zeros '0' ++ Nat.toDigits 10 n).all Char.isDigit = true := by
    rw [List.all_append, Bool.and_eq_true, List.all_eq_true, List.all_eq_true]
    exact ⟨fun c hc => by rw [List.eq_of_mem_replicate hc]; rfl,
      fun c hc => Nat.isDigit_of_mem_toDigits (by decide) (by decide) hc⟩
  have some : List.replicate zeros '0' ++ Nat.toDigits 10 n ≠ [] := by
    simp [Nat.toDigits_ne_nil]
  show (if (String.ofList _).toList ≠ [] ∧ (String.ofList _).toList.all Char.isDigit = true then _
    else _) = _
  rw [String.toList_ofList, if_pos ⟨some, digits⟩, ofDigitChars_zeros, Nat.ofDigitChars_ten_toDigits]

def worldCommunicator : Communicator := ⟨true, 0, fun peer => peer⟩

/-- A send of 64 bytes to a peer, where `MPI_PROC_NULL` is -2. -/
def sendTo (peer : Int) : WrapperCall :=
  .send "MPI_Send" (.inl rfl) 64 ⟨10, 5, 0, peer, 3, 0, worldCommunicator, -1⟩

def sendEvent (peer : Int) : EventRecord := eventOf ((sendTo peer).call (-2), 0)

/-- Rank 0 of two has sent once, and the line has reached its file. -/
def sent (peer : Int) : State where
  recorder := ((Recorder.initial 0 2 "n1" 7 100 10 10 true).record ((sendTo peer).call (-2))).swap
  stream := ⟨true, [], (sendEvent peer).line 0⟩
  drain := some []
  phase := .running
  calls := 1
  failed := false
  refused := false

theorem sent_drives {legal : RecordCall → Prop} {peer : Int} (h : legal ((sendTo peer).call (-2))) :
    Drives legal (sent peer) := by
  have started : Drives legal (.initial (.initial 0 2 "n1" 7 100 10 10 true)) := .start (by decide)
  have recorded := started.record _ h rfl
  have swapped := recorded.other (.swap (.inl rfl) rfl rfl) rfl
  have taken : EventStream.Write ((sendEvent peer).line 0) ⟨true, [], []⟩
      ⟨true, [], (sendEvent peer).line 0⟩ :=
    @EventStream.Write.taken _ [] [] _ [] (List.append_nil _)
  exact swapped.other (.insert rfl taken) rfl

theorem sendTo_fits {peer : Int} (h : peer.natAbs < 2 ^ 64) : ((sendTo peer).call (-2)).Fits := by
  refine ⟨⟨show 10 < 2 ^ 64 by decide, show 5 < 2 ^ 64 by decide⟩, ?_, ?_,
    show (3 : Int).natAbs < 2 ^ 64 by decide, show (0 : Int).natAbs < 2 ^ 64 by decide,
    show (0 : Int).natAbs < 2 ^ 64 by decide, show (-1 : Int).natAbs < 2 ^ 64 by decide⟩
  · show (if (0 : Int) = 0 then if (0 : Int) = 0 ∧ peer ≠ -2 then (64 : Int) else 0 else 0).natAbs < _
    split_ifs <;> decide
  · show (if (0 : Int) = 0 then worldPeer worldCommunicator peer else peer).natAbs < _
    rwa [if_pos rfl, worldPeer, if_pos (.inr rfl)]

theorem events_accepted_sent : ∃ events, Faithful (sent 1) events ∧ ∀ written, written <+: events →
    Quiet jsonReader 2 (eventsFile 0 (eventLines 0 written)) :=
  (@events_accepted jsonReader 2 (-2) jsonReader_reads jsonReader_rank (by decide)).1 (sent 1)
    (sent_drives ⟨sendTo_fits (by decide), sendTo 1, fun _ => by decide, rfl⟩) rfl (by decide)

/-- The analyzer warns of a send to `MPI_PROC_NULL` that has succeeded. -/
theorem null_send_ignored : ¬∀ (py : Interpreter) (worldSize : Nat) (procNull : Int) (s : State),
    ReadsJson py → ReadsRank py → worldSize < 2 ^ 31 → Drives (Legal procNull) s →
      s.recorder.worldSize = worldSize → s.calls ≤ 2 ^ 64 →
      ∃ events, Faithful s events ∧ ∀ written, written <+: events →
        Quiet py worldSize (eventsFile s.recorder.rank (eventLines s.recorder.rank written)) := by
  intro claimed
  have fits := @sendTo_fits (-2) (by decide)
  obtain ⟨events, hf, quiet⟩ := claimed jsonReader 2 (-2) (sent (-2)) jsonReader_reads jsonReader_rank
    (by decide) (sent_drives ⟨fits, sendTo (-2), rfl⟩) rfl (by decide)
  have whole := quiet events (List.prefix_refl _)
  have held := hf.holding
  rw [Holding, if_pos (show (sent (-2)).stream.good = true from rfl)] at held
  have one : eventLines 0 events = eventLines 0 [sendEvent (-2)] := by
    refine held.symm.trans ?_
    simp [sent, eventLines]
  have quietOne : Quiet jsonReader 2 (eventsFile 0 (eventLines 0 [sendEvent (-2)])) := one ▸ whole
  have inside := (eventsFile_quiet_iff jsonReader_reads jsonReader_rank
    (List.forall_mem_singleton.mpr (eventOf_fits fits (by decide))) (by decide) (by decide)
    (List.forall_mem_singleton.mpr (call_operation (-2) (sendTo (-2))))
    (List.pairwise_singleton _ _)).mp quietOne
  exact absurd (inside _ (List.mem_singleton_self _) rfl (.inl rfl)).1 (by decide)

end captures

end Recording

end RankLens
