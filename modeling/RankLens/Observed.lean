import RankLens.EventFiles

namespace RankLens

namespace Analyzer

section except

variable {ε α β : Type} {x : Except ε α} {f : α → Except ε β} {b : β}

theorem bind_ok_iff : x >>= f = .ok b ↔ ∃ a, x = .ok a ∧ f a = .ok b := by
  cases x with
  | error e => exact ⟨(fun h => nomatch h), (fun ⟨_, h, _⟩ => nomatch h)⟩
  | ok a =>
    constructor
    · exact fun h => ⟨a, rfl, h⟩
    · rintro ⟨a', ha, h⟩
      obtain rfl := Except.ok.inj ha
      exact h

end except

section result

variable {py : Interpreter} {capture : Capture} {threshold : ℚ} {result : AnalysisResult}
  {o : Overview} {s : Evidence} {edges : List CommunicationEdge}

theorem captureWarnings_length (summaries : List RankSummary)
    (worldSize mpiTime aggregateRuntime : Nat) (metadata : Dict) :
    (captureWarnings py capture summaries worldSize mpiTime aggregateRuntime metadata).length
      ≤ 8 := by
  have left : ∀ (p : Prop) [Decidable p] (w : String), (if p then [] else [w]).length ≤ 1 := by
    intro p _ w
    split
    · exact Nat.zero_le 1
    · exact le_rfl
  have right : ∀ (p : Prop) [Decidable p] (w : String), (if p then [w] else []).length ≤ 1 := by
    intro p _ w
    split
    · exact le_rfl
    · exact Nat.zero_le 1
  unfold captureWarnings
  simp only [List.length_append]
  show _ ≤ 1 + 1 + 1 + 1 + 1 + 1 + 1 + 1
  refine Nat.add_le_add ?_ (right _ _)
  refine Nat.add_le_add ?_ (right _ _)
  refine Nat.add_le_add ?_ (right _ _)
  refine Nat.add_le_add ?_ (right _ _)
  refine Nat.add_le_add ?_ (right _ _)
  refine Nat.add_le_add ?_ (right _ _)
  exact Nat.add_le_add (left _ _) (left _ _)

/-- What a result says of the event files. -/
structure Assembled (py : Interpreter) (capture : Capture) (o : Overview) (s : Evidence)
    (edges : List CommunicationEdge) (result : AnalysisResult) : Prop where
  worldSize : result.worldSize = o.worldSize
  runtimeMaxNs : result.runtimeMaxNs = o.maximumRuntime
  communicationEdges : result.communicationEdges = edges
  warnings : result.warnings = s.warnings
  timeline : result.timeline = s.timeline
  coverage : result.coverage = coverageOf capture o.summaries (o.complete py)
    (decide ((o.warnings py capture).length < s.warnings.length))

theorem assemble_ok (h : assemble py capture threshold o s edges = .ok result) :
    Assembled py capture o s edges result := by
  unfold assemble at h
  obtain ⟨mpiFraction, -, h⟩ := bind_ok_iff.mp h
  obtain ⟨imbalanceRatio, -, h⟩ := bind_ok_iff.mp h
  obtain ⟨findings, -, h⟩ := bind_ok_iff.mp h
  obtain rfl := Except.ok.inj h
  exact ⟨rfl, rfl, rfl, rfl, rfl, rfl⟩

theorem analyze_ok (h : analyze py capture threshold = .ok result) :
    ∃ o s unsorted, overview py capture threshold = .ok o ∧
      capture.events.foldlM (loadFile py o.worldSize o.maximumRuntime) (o.evidence py capture) =
        .ok s ∧ s.edges.mapM (edgeShare o.totalBytesSent) = .ok unsorted ∧
      Assembled py capture o s (unsorted.mergeSort (fun a b => b.bytes ≤ a.bytes)) result := by
  unfold analyze at h
  obtain ⟨o, ho, h⟩ := bind_ok_iff.mp h
  obtain ⟨⟨s, edges⟩, hload, h⟩ := bind_ok_iff.mp h
  unfold loadCommunicationEdges at hload
  obtain ⟨s', hs, hload⟩ := bind_ok_iff.mp hload
  obtain ⟨unsorted, hu, hload⟩ := bind_ok_iff.mp hload
  obtain ⟨rfl, rfl⟩ := Prod.mk.inj (Except.ok.inj hload)
  exact ⟨o, s', unsorted, ho, hs, hu, assemble_ok h⟩

end result

section histogram

variable {py : Interpreter} {runtimeMaxNs worldSize : Nat}

def fallsInto (runtimeMaxNs i : Nat) (event : Dict) : Bool :=
  (bucketOf runtimeMaxNs event).map Prod.fst = some i

theorem calls_count (t : List Bucket) (event : Dict) (i : Nat) :
    ((count t (bucketOf runtimeMaxNs event))[i]?).map Bucket.calls = (t[i]?).map
      (fun b => b.calls + if fallsInto runtimeMaxNs i event = true then 1 else 0) := by
  unfold fallsInto
  cases hb : bucketOf runtimeMaxNs event with
  | none => simp [count]
  | some p =>
    obtain ⟨bucket, duration⟩ := p
    rw [count, List.getElem?_modify]
    by_cases he : bucket = i
    · cases t[i]? <;> simp [he]
    · cases t[i]? <;> simp [he]

theorem calls_fold (events : List Dict) (t : List Bucket) (i : Nat) :
    ((events.foldl (addTime py runtimeMaxNs) t)[i]?).map Bucket.calls = (t[i]?).map
      (fun b => b.calls + (events.filter (fun e => !failed py e)).countP
        (fallsInto runtimeMaxNs i)) := by
  induction events generalizing t with
  | nil => simp
  | cons e events ih =>
    rw [List.foldl_cons, ih, addTime]
    cases hf : failed py e with
    | true => simp [hf]
    | false =>
      rw [if_neg (by simp), List.filter_cons_of_pos (by simp [hf]), List.countP_cons]
      have step := @calls_count runtimeMaxNs t e i
      cases ht : t[i]? with
      | none =>
        rw [ht] at step
        rw [Option.map_none, Option.map_eq_none_iff] at step
        rw [step]
        rfl
      | some b =>
        rw [ht, Option.map_some, Option.map_eq_some_iff] at step
        obtain ⟨b', hb', hcalls⟩ := step
        rw [hb', Option.map_some, Option.map_some, hcalls]
        congr 1
        omega

def sendsOver (worldSize : Nat) (key : Nat × Nat) (event : Dict) : Bool :=
  isSend event && decide ((edgeOf worldSize event).map Prod.fst = some key)

theorem lookup_map_same {α : Type} (edges : List ((Nat × Nat) × α)) (key k : Nat × Nat)
    (f : α → α) : (edges.map (fun e => if e.1 = key then (key, f e.2) else e)).lookup k =
      if k = key then (edges.lookup k).map f else edges.lookup k := by
  induction edges with
  | nil => simp
  | cons e edges ih =>
    obtain ⟨x, a⟩ := e
    rw [List.map_cons]
    by_cases hx : x = key
    · subst hx
      by_cases hk : k = x
      · subst hk
        simp
      · simp [List.lookup_cons, hk, ih, show (k == x) = false from by simpa using hk]
    · by_cases hk : k = x
      · subst hk
        simp [hx]
      · simp only [hx, if_false, List.lookup_cons, show (k == x) = false from by simpa using hk, ih]

/-- The totals of an edge, zero when there is none. -/
def totalOf (edges : List ((Nat × Nat) × (Nat × Nat))) (key : Nat × Nat) : Nat × Nat :=
  (edges.lookup key).getD (0, 0)

theorem lookup_addEdge (edges : List ((Nat × Nat) × (Nat × Nat))) (key k : Nat × Nat)
    (bytes : Nat) : (addEdge edges key bytes).lookup k =
      if k = key then some (totalOf edges key + (bytes, 1)) else edges.lookup k := by
  unfold addEdge totalOf
  cases hl : edges.lookup key with
  | some e =>
    rw [if_pos Option.isSome_some]
    have mapped := lookup_map_same edges key k (fun e => (e.1 + bytes, e.2 + 1))
    rw [mapped]
    by_cases hk : k = key
    · subst hk
      simp [hl, Prod.ext_iff]
    · simp [hk]
  | none =>
    rw [if_neg (by simp), List.lookup_append]
    by_cases hk : k = key
    · subst hk
      simp [hl]
    · simp [hk, List.lookup_cons, show (k == key) = false from by simpa using hk]

/-- The payload of an event that is a send over an edge. -/
def sentOver (worldSize : Nat) (key : Nat × Nat) (event : Dict) : Nat :=
  if sendsOver worldSize key event = true then ((edgeOf worldSize event).map Prod.snd).getD 0
  else 0

/-- The payload of the sends over an edge that did not fail. -/
def payloadOver (py : Interpreter) (worldSize : Nat) (key : Nat × Nat) (events : List Dict) : Nat :=
  ((events.filter (fun e => !failed py e)).map (sentOver worldSize key)).sum

theorem totalOf_addSend (edges : List ((Nat × Nat) × (Nat × Nat))) (event : Dict) (k : Nat × Nat) :
    totalOf (addSend py worldSize edges event) k = totalOf edges k +
      if failed py event = true then (0, 0)
      else (sentOver worldSize k event, if sendsOver worldSize k event = true then 1 else 0) := by
  unfold addSend sentOver
  cases hf : failed py event with
  | true => rfl
  | false =>
    cases hs : isSend event with
    | false =>
      rw [if_neg (by simp)]
      simp only [sendsOver, hs, Bool.false_and]
      rfl
    | true =>
      rw [if_pos ⟨rfl, rfl⟩]
      cases he : edgeOf worldSize event with
      | none =>
        simp only [sendsOver, he, Option.map_none, reduceCtorEq, decide_false, Bool.and_false]
        rfl
      | some edge =>
        obtain ⟨key, bytes⟩ := edge
        have looked := lookup_addEdge edges key k bytes
        by_cases hk : k = key
        · subst hk
          simp only [totalOf, looked, sendsOver, hs, he]
          simp
        · have other : ¬key = k := fun h => hk h.symm
          simp only [totalOf, looked, sendsOver, hs, he, if_neg hk, Option.map_some,
            Option.some.injEq, other, decide_false, Bool.and_false]
          rfl

theorem totals_fold (events : List Dict) (edges : List ((Nat × Nat) × (Nat × Nat)))
    (k : Nat × Nat) : totalOf (events.foldl (addSend py worldSize) edges) k =
      totalOf edges k + (payloadOver py worldSize k events,
        (events.filter (fun e => !failed py e)).countP (sendsOver worldSize k)) := by
  induction events generalizing edges with
  | nil => rfl
  | cons e events ih =>
    rw [List.foldl_cons, ih, totalOf_addSend, payloadOver, payloadOver]
    cases hf : failed py e with
    | true =>
      rw [if_pos rfl, List.filter_cons_of_neg (by simp [hf])]
      rfl
    | false =>
      rw [List.filter_cons_of_pos (by simp [hf]), List.countP_cons, List.map_cons, List.sum_cons]
      rw [if_neg (by simp)]
      exact Prod.ext (Nat.add_assoc _ _ _)
        ((Nat.add_assoc _ _ _).trans (congrArg _ (Nat.add_comm _ _)))

theorem addEdge_nodup {edges : List ((Nat × Nat) × (Nat × Nat))}
    (h : (edges.map Prod.fst).Nodup) (key : Nat × Nat) (bytes : Nat) :
    ((addEdge edges key bytes).map Prod.fst).Nodup := by
  unfold addEdge
  split
  · have same : (edges.map (fun e => if e.1 = key then (key, (e.2.1 + bytes, e.2.2 + 1)) else e)).map
        Prod.fst = edges.map Prod.fst := by
      rw [List.map_map]
      refine List.map_congr_left (fun e _ => ?_)
      by_cases he : e.1 = key <;> simp [he]
    rwa [same]
  · next hl =>
    rw [List.map_append, List.nodup_append]
    refine ⟨h, by simp, fun a ha b hb => ?_⟩
    obtain rfl := List.mem_singleton.mp hb
    rintro rfl
    refine hl (List.lookup_isSome_iff.mpr ?_)
    obtain ⟨e, he, rfl⟩ := List.mem_map.mp ha
    exact ⟨e, he, by simp⟩

theorem addSend_nodup (events : List Dict) {edges : List ((Nat × Nat) × (Nat × Nat))}
    (h : (edges.map Prod.fst).Nodup) :
    ((events.foldl (addSend py worldSize) edges).map Prod.fst).Nodup := by
  induction events generalizing edges with
  | nil => exact h
  | cons e events ih =>
    refine ih ?_
    unfold addSend
    split
    · split
      · exact addEdge_nodup h _ _
      · exact h
    · exact h

end histogram


section observed

variable (py : Interpreter)

def lineEvent (line : PyStr) : Option Dict :=
  match py.loads line with
  | .ok (.dict event) => some event
  | _ => none

/-- The events on the lines of a capture that report no error. -/
def successes (capture : Capture) : List Dict :=
  (capture.events.flatMap (fun file => file.lines.filterMap (lineEvent py))).filter
    (fun e => !failed py e)

def versionSequence (event : Dict) : Option Int :=
  if supported (get event "schema_version") = some 2 then sequenceOf event else none

/-- The sequences of the events of version 2 in a file that report no error. -/
def fileSequences (file : File) : List Int :=
  ((file.lines.filterMap (lineEvent py)).filter (fun e => !failed py e)).filterMap versionSequence

/-- The rank and the sequence of each event of version 2 that reports no error. -/
def sequences (capture : Capture) : List (Option Int × Int) :=
  capture.events.flatMap (fun file =>
    (fileSequences py file).map (fun n => (expectedRank py file, n)))

/-- A timestamp and a duration that are integers and not negative. -/
def Timed (event : Dict) : Prop :=
  (∃ n : Int, get event "timestamp_ns" = some (.int n) ∧ 0 ≤ n) ∧
    ∃ n : Int, get event "duration_ns" = some (.int n) ∧ 0 ≤ n

/-- Every line reports an error or is counted once; every send that is counted is part of an edge;
no two events of version 2 that are counted have the same rank and sequence. -/
structure Faultless (capture : Capture) (result : AnalysisResult) : Prop where
  counted : ∀ file ∈ capture.events, ∀ line ∈ file.lines, ∃ event, lineEvent py line = some event ∧
    (failed py event = true ∨ (bucketOf result.runtimeMaxNs event).isSome = true)
  once : ∀ i < 50, (result.timeline[i]?).map Bucket.calls =
    some ((successes py capture).countP (fallsInto result.runtimeMaxNs i))
  edges : ∀ event ∈ successes py capture, isSend event = true →
    ∃ key bytes, edgeOf result.worldSize event = some (key, bytes) ∧
      ∃ edge ∈ result.communicationEdges, (edge.source, edge.destination) = key ∧
        edge.messages = (successes py capture).countP (sendsOver result.worldSize key)
  distinct : (sequences py capture).Nodup

variable {py} {rank last : Int} {worldSize : Nat} {line : PyStr} {lines : List PyStr}
  {event : Dict} {capture : Capture} {threshold : ℚ} {result : AnalysisResult}

theorem bucketOf_isSome {runtimeMaxNs : Nat} :
    (bucketOf runtimeMaxNs event).isSome = true ↔ Timed event := by
  unfold bucketOf
  constructor
  · intro h
    split at h
    · next t d ht hd =>
      split at h
      · next hpos => exact ⟨⟨t, ht, hpos.1⟩, d, hd, hpos.2⟩
      · cases h
    · cases h
  · rintro ⟨⟨t, ht, hpos⟩, d, hd, hpos'⟩
    rw [ht, hd]
    simp [hpos, hpos']

theorem admitted_event {version : Int} (h : admitted py rank line = some (event, version)) :
    lineEvent py line = some event ∧ supported (get event "schema_version") = some version := by
  unfold admitted at h
  split at h
  · next hload =>
    split at h
    · next hv =>
      split at h
      · obtain ⟨rfl, rfl⟩ := Prod.mk.inj (Option.some.inj h)
        exact ⟨by rw [lineEvent, hload], hv⟩
      · cases h
    · cases h
  · cases h

theorem passes_event (h : passes py rank last line = some event) :
    lineEvent py line = some event ∧
      ∀ n, versionSequence event = some n → last < n ∧ advance py rank last line = n := by
  unfold passes at h
  cases ha : admitted py rank line with
  | none => simp [ha] at h
  | some pair =>
    obtain ⟨e, version⟩ := pair
    obtain ⟨hline, hversion⟩ := admitted_event ha
    simp only [ha] at h
    split at h
    · next h2 =>
      subst h2
      split at h
      · next n hs =>
        split at h
        · next hok =>
          obtain rfl := Option.some.inj h
          refine ⟨hline, fun m hm => ?_⟩
          rw [versionSequence, if_pos hversion, hs] at hm
          obtain rfl := Option.some.inj hm
          exact ⟨hok.1, by simp [advance, candidate, ha, hs, hok.1.le]⟩
        · cases h
      · cases h
    · next h2 =>
      obtain rfl := Option.some.inj h
      refine ⟨hline, fun m hm => ?_⟩
      rw [versionSequence, hversion, if_neg (by simpa using h2)] at hm
      cases hm

theorem Clean.accepted (h : Clean py rank worldSize last lines) :
    accepted py rank last lines = lines.filterMap (lineEvent py) := by
  induction lines generalizing last with
  | nil => rfl
  | cons line rest ih =>
    obtain ⟨⟨event, hpass, -⟩, hrest⟩ := h
    rw [Analyzer.accepted, hpass, ih hrest, List.filterMap_cons, (passes_event hpass).1]
    rfl

theorem Clean.placed (h : Clean py rank worldSize last lines) :
    ∀ line ∈ lines, ∃ event, lineEvent py line = some event ∧ Placed py worldSize event := by
  induction lines generalizing last with
  | nil => exact fun _ h => nomatch h
  | cons line rest ih =>
    obtain ⟨⟨event, hpass, hplaced⟩, hrest⟩ := h
    rw [List.forall_mem_cons]
    exact ⟨⟨event, (passes_event hpass).1, hplaced⟩, ih hrest⟩

theorem Clean.increasing (h : Clean py rank worldSize last lines) :
    (∀ n ∈ (lines.filterMap (lineEvent py)).filterMap versionSequence, last < n) ∧
      ((lines.filterMap (lineEvent py)).filterMap versionSequence).Pairwise (· < ·) := by
  induction lines generalizing last with
  | nil => exact ⟨(fun _ h => nomatch h), .nil⟩
  | cons line rest ih =>
    obtain ⟨⟨event, hpass, -⟩, hrest⟩ := h
    obtain ⟨hline, hseq⟩ := passes_event hpass
    obtain ⟨above, sorted⟩ := ih hrest
    rw [List.filterMap_cons, hline, List.filterMap_cons]
    have ahead : last ≤ advance py rank last line := by
      unfold advance
      split
      · exact le_max_left _ _
      · exact le_rfl
    cases hv : versionSequence event with
    | none => exact ⟨fun n hn => ahead.trans_lt (above n hn), sorted⟩
    | some n =>
      obtain ⟨hl, hadv⟩ := hseq n hv
      rw [hadv] at above
      refine ⟨?_, List.pairwise_cons.mpr ⟨above, sorted⟩⟩
      rw [List.forall_mem_cons]
      exact ⟨hl, fun m hm => hl.trans (above m hm)⟩

theorem FileClean.events {file : File} (h : FileClean py worldSize file) :
    fileEvents py file = file.lines.filterMap (lineEvent py) ∧
      (∀ line ∈ file.lines, ∃ event, lineEvent py line = some event ∧
        Placed py worldSize event) ∧ (fileSequences py file).Nodup := by
  obtain ⟨rank, text, hr, hc, hclean⟩ := h
  have hlines : file.lines = textLines text := by rw [File.lines, hc]
  have sorted : (fileSequences py file).Pairwise (· < ·) := by
    rw [fileSequences, hlines]
    exact hclean.increasing.2.sublist (List.filter_sublist.filterMap versionSequence)
  rw [fileEvents, hr, hlines]
  exact ⟨hclean.accepted, hclean.placed, sorted.imp (fun h => h.ne)⟩

theorem mem_of_lookup {α β : Type} [BEq α] [LawfulBEq α] {xs : List (α × β)} {k : α} {b : β}
    (h : xs.lookup k = some b) : (k, b) ∈ xs := by
  obtain ⟨before, after, rfl, -⟩ := List.lookup_eq_some_iff.mp h
  exact List.mem_append_right _ List.mem_cons_self

theorem mapM_mem {α β ε : Type} {f : α → Except ε β} {xs : List α} {ys : List β}
    (h : xs.mapM f = .ok ys) {x : α} (hx : x ∈ xs) : ∃ y ∈ ys, f x = .ok y := by
  induction xs generalizing ys with
  | nil => cases hx
  | cons a xs ih =>
    rw [List.mapM_cons] at h
    obtain ⟨b, hb, h⟩ := bind_ok_iff.mp h
    obtain ⟨bs, hbs, h⟩ := bind_ok_iff.mp h
    obtain rfl := Except.ok.inj h
    obtain rfl | hx := List.mem_cons.mp hx
    · exact ⟨b, List.mem_cons_self, hb⟩
    · obtain ⟨y, hy, hf⟩ := ih hbs hx
      exact ⟨y, List.mem_cons_of_mem _ hy, hf⟩

/-- An analysis that calls its event detail observed has met only clean files. -/
theorem observed_clean {o : Overview} {s : Evidence} {edges : List CommunicationEdge}
    (hs : capture.events.foldlM (loadFile py o.worldSize o.maximumRuntime)
      (o.evidence py capture) = .ok s)
    (hresult : Assembled py capture o s edges result)
    (hobserved : result.coverage.eventDetail = "observed") :
    (∀ file ∈ capture.events, FileClean py o.worldSize file) ∧
      FilesGrown py o.worldSize o.maximumRuntime capture.events (o.evidence py capture) s := by
  obtain ⟨-, e, herr⟩ | ⟨-, s', hok, grown⟩ := @loadFiles_cases py o.worldSize
    o.maximumRuntime capture.events (o.evidence py capture)
  · rw [hs] at herr
    cases herr
  · obtain rfl := Except.ok.inj (hs.symm.trans hok)
    refine ⟨?_, grown⟩
    by_contra unclean
    have room : (o.evidence py capture).warnings.length < 100 :=
      (captureWarnings_length _ _ _ _ _).trans_lt (by decide)
    have rejected := grown.loud room unclean
    have same : (o.evidence py capture).warnings = o.warnings py capture := rfl
    rw [same] at rejected
    rw [hresult.coverage, coverageOf] at hobserved
    simp only [decide_eq_true rejected, Bool.or_true, if_true] at hobserved
    split at hobserved <;> exact absurd hobserved (by decide)

theorem empty_calls (maximumRuntime i : Nat) (hi : i < 50) :
    ((emptyTimeline maximumRuntime)[i]?).map Bucket.calls = some 0 := by
  rw [emptyTimeline, List.getElem?_map, List.getElem?_range hi]
  rfl

theorem disjoint_tagged {r r' : Option Int} {xs ys : List Int} :
    List.Disjoint (xs.map (fun n => (r, n))) (ys.map (fun n => (r', n))) ↔
      (r = r' → List.Disjoint xs ys) := by
  constructor
  · rintro h rfl n hx hy
    exact h (List.mem_map_of_mem hx) (List.mem_map_of_mem hy)
  · intro h p hx hy
    obtain ⟨n, hn, rfl⟩ := List.mem_map.mp hx
    obtain ⟨m, hm, hp⟩ := List.mem_map.mp hy
    obtain ⟨hr, rfl⟩ := Prod.mk.inj hp
    exact h hr.symm hn hm

/-- When the event detail of an analysis is called observed, it leaves nothing out exactly when the
lines without an error all have their times, and no two files of one rank share a sequence. -/
theorem observed_faultless_iff (h : analyze py capture threshold = .ok result)
    (hobserved : result.coverage.eventDetail = "observed") :
    Faultless py capture result ↔ (∀ event ∈ successes py capture, Timed event) ∧
      capture.events.Pairwise (fun f g => expectedRank py f = expectedRank py g →
        List.Disjoint (fileSequences py f) (fileSequences py g)) := by
  obtain ⟨o, s, unsorted, ho, hs, hshares, hresult⟩ := analyze_ok h
  obtain ⟨clean, grown⟩ := observed_clean hs hresult hobserved
  have events : capture.events.flatMap (fileEvents py) =
      capture.events.flatMap (fun file => file.lines.filterMap (lineEvent py)) :=
    List.flatMap_congr (fun file hf => (clean file hf).events.1)
  have distinct : (sequences py capture).Nodup ↔ capture.events.Pairwise (fun f g =>
      expectedRank py f = expectedRank py g →
        List.Disjoint (fileSequences py f) (fileSequences py g)) := by
    rw [sequences, List.nodup_flatMap]
    have each : ∀ file ∈ capture.events,
        ((fileSequences py file).map (fun n => (expectedRank py file, n))).Nodup :=
      fun file hf => (clean file hf).events.2.2.map (fun _ _ he => (Prod.mk.inj he).2)
    rw [and_iff_right each]
    exact ⟨fun h => h.imp (fun hd => disjoint_tagged.mp hd),
      fun h => h.imp (fun hd => disjoint_tagged.mpr hd)⟩
  constructor
  · intro faultless
    refine ⟨fun event hm => ?_, distinct.mp faultless.distinct⟩
    obtain ⟨hm, hsuccess⟩ := List.mem_filter.mp hm
    obtain ⟨file, hfile, hm⟩ := List.mem_flatMap.mp hm
    obtain ⟨line, hline, hevent⟩ := List.mem_filterMap.mp hm
    obtain ⟨event', hevent', hcount⟩ := faultless.counted file hfile line hline
    obtain rfl := Option.some.inj (hevent.symm.trans hevent')
    obtain hfailed | hbucket := hcount
    · simp [hfailed] at hsuccess
    · exact bucketOf_isSome.mp hbucket
  · rintro ⟨timed, apart⟩
    exact {
      counted := by
        intro file hfile line hline
        obtain ⟨event, hevent, -⟩ := (clean file hfile).events.2.1 line hline
        refine ⟨event, hevent, ?_⟩
        cases hf : failed py event with
        | true => exact .inl rfl
        | false =>
          refine .inr (bucketOf_isSome.mpr (timed event (List.mem_filter.mpr ⟨?_, by simp [hf]⟩)))
          exact List.mem_flatMap.mpr ⟨file, hfile, List.mem_filterMap.mpr ⟨line, hline, hevent⟩⟩
      once := by
        intro i hi
        rw [hresult.timeline, hresult.runtimeMaxNs, grown.timeline, calls_fold, events]
        have empty := empty_calls o.maximumRuntime i hi
        obtain ⟨b, hb, hzero⟩ := Option.map_eq_some_iff.mp empty
        show ((emptyTimeline o.maximumRuntime)[i]?).map _ = _
        rw [hb, Option.map_some, hzero, Nat.zero_add]
        rfl
      edges := by
        intro event hm hsend
        obtain ⟨hm', hsuccess⟩ := List.mem_filter.mp hm
        obtain ⟨file, hfile, hm'⟩ := List.mem_flatMap.mp hm'
        obtain ⟨line, hline, hevent⟩ := List.mem_filterMap.mp hm'
        obtain ⟨event', hevent', hplaced⟩ := (clean file hfile).events.2.1 line hline
        obtain rfl := Option.some.inj (hevent.symm.trans hevent')
        have edge := hplaced (by simpa using hsuccess) hsend
        obtain ⟨⟨key, bytes⟩, hedge⟩ := Option.isSome_iff_exists.mp edge
        rw [hresult.worldSize]
        refine ⟨key, bytes, hedge, ?_⟩
        have hedges : s.edges = (capture.events.flatMap
            (fun file => file.lines.filterMap (lineEvent py))).foldl (addSend py o.worldSize) [] := by
          rw [← events]
          exact grown.edges
        have total : (totalOf s.edges key).2 =
            (successes py capture).countP (sendsOver o.worldSize key) := by
          rw [hedges, totals_fold]
          exact Nat.zero_add _
        have positive : 0 < (successes py capture).countP (sendsOver o.worldSize key) :=
          List.countP_pos_iff.mpr ⟨event, hm, by simp [sendsOver, hsend, hedge]⟩
        rw [totalOf] at total
        cases hl : s.edges.lookup key with
        | none =>
          rw [hl] at total
          exact absurd total (Nat.ne_of_lt positive)
        | some e =>
          rw [hl] at total
          obtain ⟨edge, hmem, hshare⟩ := mapM_mem hshares (mem_of_lookup hl)
          obtain ⟨share, -, hedge'⟩ := bind_ok_iff.mp hshare
          obtain rfl := Except.ok.inj hedge'
          rw [hresult.communicationEdges]
          exact ⟨_, List.mem_mergeSort.mpr hmem, rfl, total⟩
      distinct := distinct.mpr apart }

end observed

section samples

def object (members : List (String × PyValue)) : PyValue :=
  .dict (members.map (fun m => (PyStr.ofString m.1, m.2)))

/-- An interpreter, as far as these texts and the names of the files of rank 0 ask for one. -/
def reader (texts : List (PyStr × PyValue)) : Interpreter where
  loads s := (texts.lookup s).elim (.error (.decode "Expecting value")) .ok
  int s := if s = "0" ∨ s = "00000" then some 0 else none
  floatValue _ := 0
  room := 1000
  repr _ := ""
  fixed _ := ""
  percent _ := ""

def written (pieces : List String) : PyStr := pieces.flatMap PyStr.ofString

def summaryText : PyStr := written
  ["\x7b\"schema_version\": 1, ", "\"rank\": 0, ", "\"world_size\": 1, ",
    "\"hostname\": \"n1\", ", "\"pid\": 7, ", "\"runtime_ns\": 0, ", "\"mpi_time_ns\": 0, ",
    "\"mpi_calls\": 0, ", "\"bytes_sent\": 0, ", "\"bytes_received\": 0, ",
    "\"operations\": \x7b\x7d\x7d"]

def summaryValue : PyValue := object [("schema_version", .int 1), ("rank", .int 0),
  ("world_size", .int 1), ("hostname", .str (PyStr.ofString "n1")), ("pid", .int 7),
  ("runtime_ns", .int 0), ("mpi_time_ns", .int 0), ("mpi_calls", .int 0), ("bytes_sent", .int 0),
  ("bytes_received", .int 0), ("operations", .dict [])]

def eventFile (lines : PyStr) : File := ⟨"rank-00000-events.jsonl", .text lines⟩

/-- A capture of one rank with one event file. -/
def oneFile (lines : PyStr) : Capture where
  directory := "capture"
  summaries := [⟨"rank-00000-summary.json", .text summaryText⟩]
  manifest := none
  events := [eventFile lines]

def timedLine : PyStr := written ["\x7b\"schema_version\": 1, ", "\"rank\": 0, ",
  "\"operation\": ", "\"MPI_Barrier\", ", "\"timestamp_ns\": 3, ", "\"duration_ns\": 2\x7d\n"]

def timedValue : PyValue := object [("schema_version", .int 1), ("rank", .int 0),
  ("operation", .str (PyStr.ofString "MPI_Barrier")), ("timestamp_ns", .int 3),
  ("duration_ns", .int 2)]

def untimedLine : PyStr := written ["\x7b\"schema_version\": 1, ", "\"rank\": 0, ",
  "\"operation\": ", "\"MPI_Barrier\"\x7d\n"]

def untimedValue : PyValue := object [("schema_version", .int 1), ("rank", .int 0),
  ("operation", .str (PyStr.ofString "MPI_Barrier"))]

def sampleReader : Interpreter :=
  reader [(untimedLine, untimedValue), (timedLine, timedValue), (summaryText, summaryValue)]

def saysObserved : Except Escape AnalysisResult → Bool
  | .ok result => result.coverage.eventDetail = "observed"
  | .error _ => false

theorem saysObserved_iff {outcome : Except Escape AnalysisResult} :
    saysObserved outcome = true ↔
      ∃ result, outcome = .ok result ∧ result.coverage.eventDetail = "observed" := by
  cases outcome with
  | ok result => simp [saysObserved]
  | error e => simp [saysObserved]

theorem timed_observed : saysObserved (analyze sampleReader (oneFile timedLine) 2) = true := by
  decide +kernel

theorem untimed_observed :
    saysObserved (analyze sampleReader (oneFile untimedLine) 2) = true := by
  decide +kernel

theorem observed_faultless_timed : ∃ result,
    analyze sampleReader (oneFile timedLine) 2 = .ok result ∧
      result.coverage.eventDetail = "observed" ∧
      (Faultless sampleReader (oneFile timedLine) result ↔
        (∀ event ∈ successes sampleReader (oneFile timedLine), Timed event) ∧
          (oneFile timedLine).events.Pairwise (fun f g =>
            expectedRank sampleReader f = expectedRank sampleReader g →
              List.Disjoint (fileSequences sampleReader f) (fileSequences sampleReader g))) := by
  obtain ⟨result, h, hobserved⟩ := saysObserved_iff.mp timed_observed
  exact ⟨result, h, hobserved, observed_faultless_iff h hobserved⟩

/-- A line without times is counted nowhere, and the event detail is called observed. -/
theorem observed_uncounted : ¬∀ (py : Interpreter) (capture : Capture) (threshold : ℚ)
    (result : AnalysisResult), analyze py capture threshold = .ok result →
      result.coverage.eventDetail = "observed" → Faultless py capture result := by
  intro claimed
  obtain ⟨result, h, hobserved⟩ := saysObserved_iff.mp untimed_observed
  have faultless := claimed _ _ _ result h hobserved
  obtain ⟨event, hevent, hcount⟩ := faultless.counted (eventFile untimedLine)
    (List.mem_singleton_self _) untimedLine (by decide +kernel)
  have held : (lineEvent sampleReader untimedLine).all (fun event =>
      !failed sampleReader event && (get event "timestamp_ns").isNone) = true := by
    decide +kernel
  rw [hevent, Option.all_some, Bool.and_eq_true] at held
  obtain hfailed | hbucket := hcount
  · simp [hfailed] at held
  · obtain ⟨⟨n, hn, -⟩, -⟩ := bucketOf_isSome.mp hbucket
    rw [hn] at held
    exact absurd held.2 (by simp)

end samples

end Analyzer

end RankLens
