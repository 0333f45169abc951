import RankLens.Observed

namespace RankLens

namespace Analyzer

section except

variable {ε α β : Type} {x : Except ε α} {f : α → Except ε β}

theorem exists_bind_ok : (∃ b, x >>= f = .ok b) ↔ ∃ a, x = .ok a ∧ ∃ b, f a = .ok b := by
  constructor
  · rintro ⟨b, h⟩
    obtain ⟨a, ha, h⟩ := bind_ok_iff.mp h
    exact ⟨a, ha, b, h⟩
  · rintro ⟨a, ha, b, h⟩
    exact ⟨b, bind_ok_iff.mpr ⟨a, ha, h⟩⟩

theorem exists_pure_ok (a : α) : ∃ b, (pure a : Except ε α) = .ok b := ⟨a, rfl⟩

theorem exists_bind_pure_ok {g : α → β} :
    (∃ b, (x >>= fun a => pure (g a)) = .ok b) ↔ ∃ a, x = .ok a := by
  rw [exists_bind_ok]
  exact ⟨fun ⟨a, ha, _⟩ => ⟨a, ha⟩, fun ⟨a, ha⟩ => ⟨a, ha, exists_pure_ok _⟩⟩

theorem exists_mapM_ok (xs : List α) :
    (∃ ys, xs.mapM f = .ok ys) ↔ ∀ x ∈ xs, ∃ y, f x = .ok y := by
  induction xs with
  | nil => exact ⟨fun _ _ h => (nomatch h), fun _ => ⟨[], rfl⟩⟩
  | cons x xs ih =>
    rw [List.mapM_cons, exists_bind_ok, List.forall_mem_cons, ← ih]
    constructor
    · rintro ⟨y, hy, h⟩
      exact ⟨⟨y, hy⟩, exists_bind_pure_ok.mp h⟩
    · rintro ⟨⟨y, hy⟩, h⟩
      exact ⟨y, hy, exists_bind_pure_ok.mpr h⟩

end except

section fits

/-- The quotient of two integers is in the range of floats. -/
def Fits (a b : Nat) : Prop := a < (2 ^ 1024 - 2 ^ 970) * b

def orOne (n : Nat) : Nat := if n = 0 then 1 else n

/-- The quotients of the summaries' numbers are in the range of floats. -/
structure Overview.RatiosFit (o : Overview) : Prop where
  mpi : o.aggregateRuntime = 0 ∨ Fits o.mpiTime o.aggregateRuntime
  imbalance : o.medianRuntime = 0 ∨ Fits o.maximumRuntime o.medianRuntime
  shares : ∀ name ∈ ["MPI_Allreduce", "MPI_Barrier"], ∀ stats,
    (aggregateOperations o.summaries).lookup (PyStr.ofString name) = some stats →
      Fits stats.durationNs (orOne o.aggregateRuntime)

variable {a b : Nat} {py : Interpreter} {capture : Capture} {threshold : ℚ} {o : Overview}

theorem trueDiv_ok : (∃ x, trueDiv a b = .ok x) ↔ Fits a b := by
  unfold trueDiv Fits
  split
  · next h => exact ⟨(fun ⟨_, hx⟩ => nomatch hx), fun hlt => absurd hlt (not_lt.mpr h)⟩
  · next h => exact ⟨fun _ => not_le.mp h, fun _ => ⟨_, rfl⟩⟩

theorem ratio_ok : (∃ x, ratio a b = .ok x) ↔ b = 0 ∨ Fits a b := by
  unfold ratio
  split
  · next h => exact ⟨fun _ => .inl h, fun _ => ⟨_, rfl⟩⟩
  · next h => rw [trueDiv_ok, or_iff_right h]

theorem pow_gap {m n : Nat} (h : m < n) : 0 < 2 ^ n - 2 ^ m :=
  Nat.sub_pos_of_lt (Nat.pow_lt_pow_right Nat.one_lt_two h)

theorem fits_zero (n : Nat) : Fits 0 (orOne n) := by
  unfold Fits orOne
  refine Nat.mul_pos (@pow_gap 970 1024 (by decide)) ?_
  split
  · exact Nat.one_pos
  · next h => exact Nat.pos_of_ne_zero h

theorem operationFinding_ok {result : AnalysisResult} {name : String} {limit : ℚ}
    {finding : String → Finding} :
    (∃ fs, operationFinding py result name limit finding = .ok fs) ↔ ∀ stats,
      result.operations.lookup (PyStr.ofString name) = some stats →
        Fits stats.durationNs (orOne result.aggregateRuntimeNs) := by
  unfold operationFinding
  cases hl : result.operations.lookup (PyStr.ofString name) with
  | none => exact ⟨(fun _ _ h => nomatch h), fun _ => ⟨[], rfl⟩⟩
  | some stats =>
    have quotient : (∃ share, trueDiv stats.durationNs
        (if result.aggregateRuntimeNs = 0 then 1 else result.aggregateRuntimeNs) = .ok share) ↔
        Fits stats.durationNs (orOne result.aggregateRuntimeNs) := trueDiv_ok
    constructor
    · intro h stats' hs
      obtain rfl := Option.some.inj hs
      exact quotient.mp (exists_bind_pure_ok.mp h)
    · exact fun h => exists_bind_pure_ok.mpr (quotient.mpr (h stats rfl))

theorem makeFindings_ok {result : AnalysisResult} :
    (∃ fs, makeFindings py result = .ok fs) ↔ ∀ name ∈ ["MPI_Allreduce", "MPI_Barrier"], ∀ stats,
      result.operations.lookup (PyStr.ofString name) = some stats →
        Fits stats.durationNs (orOne result.aggregateRuntimeNs) := by
  unfold makeFindings
  rw [List.forall_mem_cons, List.forall_mem_singleton]
  constructor
  · intro h
    obtain ⟨fs, hfs, h⟩ := exists_bind_ok.mp h
    exact ⟨operationFinding_ok.mp ⟨fs, hfs⟩, operationFinding_ok.mp (exists_bind_pure_ok.mp h)⟩
  · rintro ⟨allreduce, barrier⟩
    obtain ⟨fs, hfs⟩ := operationFinding_ok.mpr allreduce
    exact exists_bind_ok.mpr ⟨fs, hfs, exists_bind_pure_ok.mpr (operationFinding_ok.mpr barrier)⟩

/-- Whether the last part of an analysis succeeds is no matter of the event files. -/
theorem exists_assemble_ok (s : Evidence) (edges : List CommunicationEdge) :
    (∃ result, assemble py capture threshold o s edges = .ok result) ↔ o.RatiosFit := by
  unfold assemble
  constructor
  · intro h
    obtain ⟨mpiFraction, hm, h⟩ := exists_bind_ok.mp h
    obtain ⟨imbalanceRatio, hi, h⟩ := exists_bind_ok.mp h
    exact ⟨ratio_ok.mp ⟨_, hm⟩, ratio_ok.mp ⟨_, hi⟩, makeFindings_ok.mp (exists_bind_pure_ok.mp h)⟩
  · intro h
    obtain ⟨mpiFraction, hm⟩ := ratio_ok.mpr h.mpi
    obtain ⟨imbalanceRatio, hi⟩ := ratio_ok.mpr h.imbalance
    refine exists_bind_ok.mpr ⟨mpiFraction, hm, exists_bind_ok.mpr ⟨imbalanceRatio, hi, ?_⟩⟩
    exact exists_bind_pure_ok.mpr (makeFindings_ok.mpr h.shares)

end fits

section shares

variable {edges : List ((Nat × Nat) × (Nat × Nat))} {shared : List CommunicationEdge} {total : Nat}

theorem totalOf_mem (hnodup : (edges.map Prod.fst).Nodup) {e : (Nat × Nat) × (Nat × Nat)}
    (he : e ∈ edges) : totalOf edges e.1 = e.2 := by
  induction edges with
  | nil => cases he
  | cons x xs ih =>
    obtain ⟨fresh, hnodup⟩ := List.nodup_cons.mp hnodup
    obtain rfl | he := List.mem_cons.mp he
    · rw [totalOf, List.lookup_cons, beq_self_eq_true]
      rfl
    · have other : ¬e.1 = x.1 := fun h => fresh (h ▸ List.mem_map_of_mem he)
      rw [← ih hnodup he, totalOf, totalOf, List.lookup_cons,
        show (e.1 == x.1) = false from by simpa using other]

theorem totalOf_fresh {key : Nat × Nat} (h : key ∉ edges.map Prod.fst) :
    totalOf edges key = (0, 0) := by
  unfold totalOf
  cases hl : edges.lookup key with
  | none => rfl
  | some e => exact absurd (List.mem_map_of_mem (mem_of_lookup hl)) h

theorem exists_edgeShare_ok (hnodup : (edges.map Prod.fst).Nodup) :
    (∃ out, edges.mapM (edgeShare total) = .ok out) ↔
      ∀ key, Fits (totalOf edges key).1 (orOne total) := by
  have each : ∀ e, (∃ edge, edgeShare total e = .ok edge) ↔ Fits e.2.1 (orOne total) := by
    intro e
    have quotient : (∃ share, trueDiv e.2.1 (if total = 0 then 1 else total) = .ok share) ↔
        Fits e.2.1 (orOne total) := trueDiv_ok
    rw [← quotient, edgeShare]
    exact exists_bind_pure_ok
  rw [exists_mapM_ok]
  simp only [each]
  constructor
  · intro h key
    by_cases hk : key ∈ edges.map Prod.fst
    · obtain ⟨e, he, rfl⟩ := List.mem_map.mp hk
      rw [totalOf_mem hnodup he]
      exact h e he
    · rw [totalOf_fresh hk]
      exact fits_zero total
  · intro h e he
    rw [← totalOf_mem hnodup he]
    exact h e.1

theorem edges_sum (hnodup : (edges.map Prod.fst).Nodup)
    (hshared : edges.mapM (edgeShare total) = .ok shared) (key : Nat × Nat)
    (part : CommunicationEdge → Nat) (whole : Nat × Nat → Nat) (zero : whole (0, 0) = 0)
    (same : ∀ e edge, edgeShare total e = .ok edge → part edge = whole e.2) :
    ((shared.filter (fun e => decide ((e.source, e.destination) = key))).map part).sum =
      whole (totalOf edges key) := by
  induction edges generalizing shared with
  | nil =>
    obtain rfl : [] = shared := Except.ok.inj hshared
    exact zero.symm
  | cons e edges ih =>
    obtain ⟨fresh, hnodup⟩ := List.nodup_cons.mp hnodup
    rw [List.mapM_cons] at hshared
    obtain ⟨edge, hedge, hshared⟩ := bind_ok_iff.mp hshared
    obtain ⟨rest, hrest, hshared⟩ := bind_ok_iff.mp hshared
    obtain rfl := Except.ok.inj hshared
    have ends : (edge.source, edge.destination) = e.1 := by
      obtain ⟨share, -, h⟩ := bind_ok_iff.mp hedge
      obtain rfl := Except.ok.inj h
      rfl
    have sum := ih hnodup hrest
    by_cases hk : e.1 = key
    · rw [List.filter_cons_of_pos (by simp [ends, hk]), List.map_cons, List.sum_cons, sum,
        totalOf_fresh (hk ▸ fresh), zero, Nat.add_zero, same e edge hedge,
        ← @totalOf_mem (e :: edges) (List.nodup_cons.mpr ⟨fresh, hnodup⟩) e List.mem_cons_self, hk]
    · rw [List.filter_cons_of_neg (by simp [ends, hk]), sum, totalOf, totalOf, List.lookup_cons,
        show (key == e.1) = false from by simpa using fun h => hk h.symm]

end shares

section success

variable {py : Interpreter} {capture : Capture} {threshold : ℚ}

theorem exists_analyze_ok : (∃ result, analyze py capture threshold = .ok result) ↔
    ∃ o, overview py capture threshold = .ok o ∧ o.RatiosFit ∧
      (∀ file ∈ capture.events, FileHarmless py file) ∧
      ∀ key, Fits (payloadOver py o.worldSize key (capture.events.flatMap (fileEvents py)))
        (orOne o.totalBytesSent) := by
  have traffic : ∀ {o : Overview} {s : Evidence}, FilesGrown py o.worldSize o.maximumRuntime
      capture.events (o.evidence py capture) s → (s.edges.map Prod.fst).Nodup ∧
      ∀ key, (totalOf s.edges key).1 =
        payloadOver py o.worldSize key (capture.events.flatMap (fileEvents py)) := by
    intro o s grown
    rw [grown.edges]
    refine ⟨addSend_nodup _ List.nodup_nil, fun key => ?_⟩
    rw [totals_fold]
    exact Nat.zero_add _
  constructor
  · rintro ⟨result, h⟩
    unfold analyze at h
    obtain ⟨o, ho, h⟩ := bind_ok_iff.mp h
    obtain ⟨⟨s, edges⟩, hload, h⟩ := bind_ok_iff.mp h
    obtain ⟨s', hs, hload⟩ := bind_ok_iff.mp hload
    obtain ⟨unsorted, hu, -⟩ := bind_ok_iff.mp hload
    obtain ⟨-, e, herr⟩ | ⟨harmless, s'', hok, grown⟩ := @loadFiles_cases py o.worldSize
      o.maximumRuntime capture.events (o.evidence py capture)
    · exact nomatch hs.symm.trans herr
    · obtain rfl := Except.ok.inj (hs.symm.trans hok)
      obtain ⟨hnodup, sent⟩ := traffic grown
      refine ⟨o, ho, (exists_assemble_ok _ _).mp ⟨result, h⟩, harmless, fun key => ?_⟩
      rw [← sent]
      exact (exists_edgeShare_ok hnodup).mp ⟨unsorted, hu⟩ key
  · rintro ⟨o, ho, hratios, harmless, hfits⟩
    obtain ⟨unharmless, -⟩ | ⟨-, s, hs, grown⟩ := @loadFiles_cases py o.worldSize
      o.maximumRuntime capture.events (o.evidence py capture)
    · exact absurd harmless unharmless
    · obtain ⟨hnodup, sent⟩ := traffic grown
      obtain ⟨unsorted, hu⟩ := (exists_edgeShare_ok hnodup).mpr (fun key => sent key ▸ hfits key)
      unfold analyze loadCommunicationEdges
      refine exists_bind_ok.mpr ⟨o, ho, exists_bind_ok.mpr
        ⟨_, bind_ok_iff.mpr ⟨s, hs, bind_ok_iff.mpr ⟨unsorted, hu, rfl⟩⟩, ?_⟩⟩
      exact (exists_assemble_ok _ _).mpr hratios

end success

section skipped

variable (py : Interpreter) (rank : Int)

/-- The line is an event of the file's rank, whose fields have the types and the values they need,
whatever the lines before it. -/
def wellFormed (line : PyStr) : Bool :=
  match admitted py rank line with
  | some (event, version) =>
    (failed py event || hashable (get event "operation")) &&
      (decide (version ≠ 2) || ((sequenceOf event).isSome && kindMatches py event))
  | none => false

/-- The events that pass in the file without its malformed lines, and do not pass in the file: a
malformed line before them had a sequence that is not lower. -/
def shadowed : Int → Int → List PyStr → List Dict
  | _, _, [] => []
  | last, sound, line :: rest =>
    if wellFormed py rank line = true then
      (if (passes py rank last line).isNone then (passes py rank sound line).toList else []) ++
        shadowed (advance py rank last line) (advance py rank sound line) rest
    else shadowed (advance py rank last line) sound rest

variable {py rank} {last sound : Int} {line : PyStr} {lines : List PyStr} {event : Dict}

theorem advance_le (h : sound ≤ last) : advance py rank sound line ≤ advance py rank last line := by
  unfold advance
  split
  · exact max_le_max h le_rfl
  · exact h

theorem le_advance : last ≤ advance py rank last line := by
  unfold advance
  split
  · exact le_max_left _ _
  · exact le_rfl

theorem passes_sound (hp : passes py rank last line = some event) (hc : Countable py event)
    (h : sound ≤ last) :
    wellFormed py rank line = true ∧ passes py rank sound line = some event := by
  unfold passes at hp ⊢
  unfold wellFormed
  cases ha : admitted py rank line with
  | none => simp [ha] at hp
  | some pair =>
    obtain ⟨e, version⟩ := pair
    have countable : Countable py e → (failed py e || hashable (get e "operation")) = true := by
      rintro (hf | hh)
      · rw [hf, Bool.true_or]
      · rw [hh, Bool.or_true]
    simp only [ha] at hp ⊢
    by_cases h2 : version = 2
    · rw [if_pos h2] at hp ⊢
      cases hs : sequenceOf e with
      | none => simp [hs] at hp
      | some n =>
        simp only [hs] at hp ⊢
        split at hp
        · next hok =>
          obtain rfl := Option.some.inj hp
          rw [countable hc, if_pos ⟨h.trans_lt hok.1, hok.2⟩, hok.2]
          exact ⟨by simp, rfl⟩
        · cases hp
    · rw [if_neg h2] at hp ⊢
      obtain rfl := Option.some.inj hp
      exact ⟨by simp [countable hc, h2], rfl⟩

/-- What passes and what is shadowed is together what passes without the malformed lines. -/
theorem accepted_shadowed (harmless : Harmless py rank last lines) (h : sound ≤ last) :
    (accepted py rank last lines ++ shadowed py rank last sound lines).Perm
      (accepted py rank sound (lines.filter (wellFormed py rank))) := by
  induction lines generalizing last sound with
  | nil => exact .refl _
  | cons line rest ih =>
    obtain ⟨-, countable, harmless⟩ := harmless
    rw [accepted, shadowed]
    cases hw : wellFormed py rank line with
    | true =>
      rw [List.filter_cons_of_pos hw, accepted, if_pos rfl]
      have rest := ih harmless (advance_le h)
      cases hp : passes py rank last line with
      | none =>
        rw [if_pos Option.isNone_none]
        exact (List.perm_append_comm_assoc _ _ _).trans (rest.append_left _)
      | some event =>
        rw [(passes_sound hp (countable event hp) h).2]
        exact rest.cons event
    | false =>
      have blocked : passes py rank last line = none := by
        cases hp : passes py rank last line with
        | none => rfl
        | some event => exact absurd (hw.symm.trans (passes_sound hp (countable event hp) h).1) Bool.false_ne_true
      rw [List.filter_cons_of_neg (by simp [hw]), blocked, if_neg (by simp)]
      exact ih harmless (h.trans le_advance)

section files

variable (py) (worldSize : Nat)

/-- The events of a file that is left without its malformed lines. -/
def soundEvents (file : File) : List Dict :=
  match expectedRank py file with
  | some rank => accepted py rank (-1) (file.lines.filter (wellFormed py rank))
  | none => []

def shadowedEvents (file : File) : List Dict :=
  match expectedRank py file with
  | some rank => shadowed py rank (-1) (-1) file.lines
  | none => []

/-- The event counts in the timeline or as part of an edge. -/
def Traced (event : Dict) : Prop :=
  failed py event = false ∧ (Timed event ∨ ∃ key, sendsOver worldSize key event = true)

/-- The analysis counts what it counts without the malformed lines, with few warnings. -/
structure Skipped (capture : Capture) (result : AnalysisResult) : Prop where
  warnings : result.warnings.length ≤ 100 + capture.events.length
  counted : ∀ i < 50, (result.timeline[i]?).map Bucket.calls =
    some (((capture.events.flatMap (soundEvents py)).filter (fun e => !failed py e)).countP
      (fallsInto result.runtimeMaxNs i))
  sent : ∀ key, ((result.communicationEdges.filter
      (fun e => decide ((e.source, e.destination) = key))).map CommunicationEdge.messages).sum =
    ((capture.events.flatMap (soundEvents py)).filter (fun e => !failed py e)).countP
      (sendsOver result.worldSize key)

/-- The event files do no harm: no line raises, none that counts is shadowed, and the payload of no
edge is too much for a float. -/
structure Benign (capture : Capture) (o : Overview) : Prop where
  harmless : ∀ file ∈ capture.events, FileHarmless py file
  untraced : ∀ file ∈ capture.events, ∀ event ∈ shadowedEvents py file,
    ¬Traced py o.worldSize event
  fits : ∀ key, Fits (payloadOver py o.worldSize key (capture.events.flatMap (soundEvents py)))
    (orOne o.totalBytesSent)

variable {py worldSize} {file : File} {files : List File}

theorem fileEvents_shadowed (harmless : FileHarmless py file) :
    (fileEvents py file ++ shadowedEvents py file).Perm (soundEvents py file) := by
  unfold fileEvents shadowedEvents soundEvents
  cases hr : expectedRank py file with
  | none => exact .refl _
  | some rank => exact accepted_shadowed (harmless rank hr).2 le_rfl

theorem files_shadowed (harmless : ∀ file ∈ files, FileHarmless py file) :
    (files.flatMap (fileEvents py) ++ files.flatMap (shadowedEvents py)).Perm
      (files.flatMap (soundEvents py)) := by
  induction files with
  | nil => exact .refl _
  | cons file files ih =>
    rw [List.forall_mem_cons] at harmless
    simp only [List.flatMap_cons]
    have each := (fileEvents_shadowed harmless.1).append (ih harmless.2)
    refine List.Perm.trans ?_ each
    rw [List.append_assoc, List.append_assoc]
    exact (List.perm_append_comm_assoc _ _ _).append_left _

end files

section counts

variable {capture : Capture} {threshold : ℚ} {result : AnalysisResult} {o : Overview}

theorem analyze_counts (h : analyze py capture threshold = .ok result) :
    ∃ o, overview py capture threshold = .ok o ∧ result.worldSize = o.worldSize ∧
      result.warnings.length ≤ 100 + capture.events.length ∧
      (∀ i < 50, (result.timeline[i]?).map Bucket.calls =
        some (((capture.events.flatMap (fileEvents py)).filter (fun e => !failed py e)).countP
          (fallsInto result.runtimeMaxNs i))) ∧
      ∀ key, ((result.communicationEdges.filter
        (fun e => decide ((e.source, e.destination) = key))).map CommunicationEdge.messages).sum =
        ((capture.events.flatMap (fileEvents py)).filter (fun e => !failed py e)).countP
          (sendsOver result.worldSize key) := by
  obtain ⟨o, s, unsorted, ho, hs, hshares, hresult⟩ := analyze_ok h
  obtain ⟨-, e, herr⟩ | ⟨-, s', hok, grown⟩ := @loadFiles_cases py o.worldSize
    o.maximumRuntime capture.events (o.evidence py capture)
  · exact nomatch hs.symm.trans herr
  · obtain rfl := Except.ok.inj (hs.symm.trans hok)
    refine ⟨o, ho, hresult.worldSize, ?_, fun i hi => ?_, fun key => ?_⟩
    · have few : (o.evidence py capture).warnings.length ≤ 8 := captureWarnings_length _ _ _ _ _
      have bounded := grown.bounded
      rw [hresult.warnings]
      omega
    · obtain ⟨b, hb, hzero⟩ := Option.map_eq_some_iff.mp (empty_calls o.maximumRuntime i hi)
      rw [hresult.timeline, hresult.runtimeMaxNs, grown.timeline, calls_fold]
      show ((emptyTimeline o.maximumRuntime)[i]?).map _ = _
      rw [hb, Option.map_some, hzero, Nat.zero_add]
    · have hnodup : (s.edges.map Prod.fst).Nodup := by
        rw [grown.edges]
        exact addSend_nodup _ List.nodup_nil
      have sum := edges_sum hnodup hshares key CommunicationEdge.messages Prod.snd rfl (by
        intro e edge hedge
        obtain ⟨share, -, hedge⟩ := bind_ok_iff.mp hedge
        obtain rfl := Except.ok.inj hedge
        rfl)
      rw [hresult.communicationEdges, hresult.worldSize,
        (((List.mergeSort_perm unsorted _).filter _).map _).sum_eq, sum, grown.edges, totals_fold]
      exact Nat.zero_add _

theorem countP_sound (harmless : ∀ file ∈ capture.events, FileHarmless py file) (p : Dict → Bool) :
    ((capture.events.flatMap (soundEvents py)).filter (fun e => !failed py e)).countP p =
      ((capture.events.flatMap (fileEvents py)).filter (fun e => !failed py e)).countP p +
        ((capture.events.flatMap (shadowedEvents py)).filter (fun e => !failed py e)).countP p := by
  rw [← ((files_shadowed harmless).filter _).countP_eq, List.filter_append, List.countP_append]

theorem payloadOver_sound (harmless : ∀ file ∈ capture.events, FileHarmless py file)
    (worldSize : Nat) (key : Nat × Nat) :
    payloadOver py worldSize key (capture.events.flatMap (soundEvents py)) =
      payloadOver py worldSize key (capture.events.flatMap (fileEvents py)) +
        payloadOver py worldSize key (capture.events.flatMap (shadowedEvents py)) := by
  unfold payloadOver
  rw [← (((files_shadowed harmless).filter _).map _).sum_eq, List.filter_append, List.map_append,
    List.sum_append]

theorem bucketOf_lt {runtimeMaxNs i d : Nat} (h : bucketOf runtimeMaxNs event = some (i, d)) :
    i < 50 := by
  unfold bucketOf at h
  split at h
  · split at h
    · obtain ⟨rfl, -⟩ := Prod.mk.inj (Option.some.inj h)
      omega
    · cases h
  · cases h

theorem fallsInto_timed {runtimeMaxNs i : Nat} (h : fallsInto runtimeMaxNs i event = true) :
    Timed event := by
  have some : (bucketOf runtimeMaxNs event).map Prod.fst = some i := by simpa [fallsInto] using h
  obtain ⟨b, hb, -⟩ := Option.map_eq_some_iff.mp some
  exact bucketOf_isSome.mp (Option.isSome_of_eq_some hb)

theorem untraced_iff {worldSize runtimeMaxNs : Nat} :
    (∀ file ∈ capture.events, ∀ event ∈ shadowedEvents py file, ¬Traced py worldSize event) ↔
      (∀ i < 50, ((capture.events.flatMap (shadowedEvents py)).filter
        (fun e => !failed py e)).countP (fallsInto runtimeMaxNs i) = 0) ∧
      ∀ key, ((capture.events.flatMap (shadowedEvents py)).filter
        (fun e => !failed py e)).countP (sendsOver worldSize key) = 0 := by
  constructor
  · intro h
    have untraced : ∀ event ∈ (capture.events.flatMap (shadowedEvents py)).filter
        (fun e => !failed py e), ¬(Timed event ∨ ∃ key, sendsOver worldSize key event = true) := by
      intro event hm traced
      obtain ⟨hm, hsuccess⟩ := List.mem_filter.mp hm
      obtain ⟨file, hfile, hm⟩ := List.mem_flatMap.mp hm
      exact h file hfile event hm ⟨by simpa using hsuccess, traced⟩
    exact ⟨fun i _ => List.countP_eq_zero.mpr (fun event hm hf =>
        untraced event hm (.inl (fallsInto_timed hf))),
      fun key => List.countP_eq_zero.mpr (fun event hm hs => untraced event hm (.inr ⟨key, hs⟩))⟩
  · rintro ⟨untimed, unsent⟩ file hfile event hm ⟨hsuccess, traced⟩
    have mem : event ∈ (capture.events.flatMap (shadowedEvents py)).filter
        (fun e => !failed py e) :=
      List.mem_filter.mpr ⟨List.mem_flatMap.mpr ⟨file, hfile, hm⟩, by simp [hsuccess]⟩
    obtain timed | ⟨key, hs⟩ := traced
    · obtain ⟨⟨i, d⟩, hb⟩ := Option.isSome_iff_exists.mp
        ((@bucketOf_isSome event runtimeMaxNs).mpr timed)
      exact List.countP_eq_zero.mp (untimed i (bucketOf_lt hb)) event mem (by simp [fallsInto, hb])
    · exact List.countP_eq_zero.mp (unsent key) event mem hs

theorem payloadOver_untraced {worldSize : Nat} (h : ∀ file ∈ capture.events,
    ∀ event ∈ shadowedEvents py file, ¬Traced py worldSize event) (key : Nat × Nat) :
    payloadOver py worldSize key (capture.events.flatMap (shadowedEvents py)) = 0 := by
  refine List.sum_eq_zero (fun n hn => ?_)
  obtain ⟨event, hm, rfl⟩ := List.mem_map.mp hn
  have unsent := List.countP_eq_zero.mp ((@untraced_iff py capture worldSize 0).mp h |>.2 key) event hm
  exact if_neg unsent

/-- An analysis succeeds and skips the malformed lines exactly when the rest of the capture can be
analyzed and the event files do no harm. -/
theorem events_skipped_iff : (∃ result, analyze py capture threshold = .ok result ∧
      Skipped py capture result) ↔
    ∃ o, overview py capture threshold = .ok o ∧ o.RatiosFit ∧ Benign py capture o := by
  constructor
  · rintro ⟨result, h, skipped⟩
    obtain ⟨o, ho, hratios, harmless, hfits⟩ := exists_analyze_ok.mp ⟨result, h⟩
    obtain ⟨o', ho', hworld, -, counted, sent⟩ := analyze_counts h
    obtain rfl := Except.ok.inj (ho.symm.trans ho')
    have untraced := (@untraced_iff py capture result.worldSize result.runtimeMaxNs).mpr
      ⟨fun i hi => ?_, fun key => ?_⟩
    · rw [hworld] at untraced
      refine ⟨o, ho, hratios, harmless, untraced, fun key => ?_⟩
      rw [payloadOver_sound harmless, payloadOver_untraced untraced]
      exact hfits key
    · have same := Option.some.inj ((counted i hi).symm.trans (skipped.counted i hi))
      rw [countP_sound harmless] at same
      omega
    · have same := (sent key).symm.trans (skipped.sent key)
      rw [countP_sound harmless] at same
      omega
  · rintro ⟨o, ho, hratios, benign⟩
    have hfits : ∀ key, Fits (payloadOver py o.worldSize key
        (capture.events.flatMap (fileEvents py))) (orOne o.totalBytesSent) := by
      intro key
      have fits := benign.fits key
      rwa [payloadOver_sound benign.harmless, payloadOver_untraced benign.untraced] at fits
    obtain ⟨result, h⟩ := exists_analyze_ok.mpr ⟨o, ho, hratios, benign.harmless, hfits⟩
    obtain ⟨o', ho', hworld, few, counted, sent⟩ := analyze_counts h
    obtain rfl := Except.ok.inj (ho.symm.trans ho')
    have untraced := benign.untraced
    rw [← hworld] at untraced
    obtain ⟨untimed, unsent⟩ := (@untraced_iff py capture _ result.runtimeMaxNs).mp untraced
    exact ⟨result, h, few,
      fun i hi => by rw [counted i hi, countP_sound benign.harmless, untimed i hi, Nat.add_zero],
      fun key => by rw [sent key, countP_sound benign.harmless, unsent key, Nat.add_zero]⟩

def undecodableFile : Capture :=
  { oneFile [] with events := [⟨"rank-00000-events.jsonl", .undecodable⟩] }

/-- A byte that is no UTF-8 in an event file ends the analysis. -/
theorem events_undecodable : ¬∀ (py : Interpreter) (capture : Capture) (threshold : ℚ)
    (summaries : List RankSummary) (metadata : Dict), 1 < threshold →
      loadSummaries py capture = .ok summaries → loadMetadata py capture.manifest = .ok metadata →
      ∃ result, analyze py capture threshold = .ok result ∧ Skipped py capture result := by
  intro claimed
  have loads : ((loadSummaries sampleReader undecodableFile).toOption).isSome = true := by
    decide +kernel
  have fails : ((analyze sampleReader undecodableFile 2).toOption).isSome = false := by
    decide +kernel
  cases hs : loadSummaries sampleReader undecodableFile with
  | error e => simp [hs, Except.toOption] at loads
  | ok summaries =>
    obtain ⟨result, h, -⟩ := claimed _ _ 2 summaries [] (by decide) hs rfl
    simp [h, Except.toOption] at fails

end counts

end skipped

end Analyzer

end RankLens
