import RankLens.Browser
import RankLens.Conserved

namespace RankLens

namespace Analyzer

section ranks

variable {py : Interpreter} {path directory : String} {data : Dict} {s : RankSummary} {file : File}
  {capture : Capture} {summaries : List RankSummary}

theorem raiseUnless_ok {p : Prop} [Decidable p] {e : Escape} {u : Unit}
    (h : raiseUnless p e = .ok u) : p := by
  unfold raiseUnless at h
  split at h
  · assumption
  · exact nomatch h

theorem checked_ok {β : Type} {c : Prop} [Decidable c] {x : Except Escape Unit}
    {f : Unit → Except Escape β} {b : β} (h : (if c then x >>= f else f ()) = .ok b) :
    f () = .ok b := by
  split at h
  · exact (bind_ok_iff.mp h).choose_spec.2
  · exact h

theorem parseSummary_rank (h : parseSummary py path data = .ok s) : s.rank < s.worldSize := by
  unfold parseSummary at h
  split at h
  · exact nomatch h
  · have h := checked_ok h
    split at h
    · obtain ⟨t, -, h⟩ := bind_ok_iff.mp h
      have h := checked_ok h
      split at h
      · obtain ⟨rank, -, h⟩ := bind_ok_iff.mp h
        obtain ⟨worldSize, -, h⟩ := bind_ok_iff.mp h
        obtain ⟨_, within, h⟩ := bind_ok_iff.mp h
        obtain ⟨-, -, h⟩ := bind_ok_iff.mp h
        obtain ⟨-, -, h⟩ := bind_ok_iff.mp h
        split at h
        · exact nomatch h
        · obtain ⟨pid, -, h⟩ := bind_ok_iff.mp h
          obtain ⟨runtimeNs, -, h⟩ := bind_ok_iff.mp h
          obtain ⟨mpiTimeNs, -, h⟩ := bind_ok_iff.mp h
          obtain ⟨mpiCalls, -, h⟩ := bind_ok_iff.mp h
          obtain ⟨bytesSent, -, h⟩ := bind_ok_iff.mp h
          obtain ⟨bytesReceived, -, h⟩ := bind_ok_iff.mp h
          obtain rfl := Except.ok.inj h
          exact (raiseUnless_ok within).2
      · exact nomatch h
    · exact nomatch h

theorem loadSummary_rank (h : loadSummary py directory file = .ok s) : s.rank < s.worldSize := by
  unfold loadSummary at h
  split at h
  · exact nomatch h
  · exact nomatch h
  · split at h
    · exact nomatch h
    · exact nomatch h
    · exact nomatch h
    · exact parseSummary_rank h
    · exact nomatch h

theorem mapM_forall {α β ε : Type} {f : α → Except ε β} {xs : List α} {ys : List β} {p : β → Prop}
    (h : xs.mapM f = .ok ys) (hp : ∀ x ∈ xs, ∀ y, f x = .ok y → p y) : ∀ y ∈ ys, p y := by
  induction xs generalizing ys with
  | nil =>
    obtain rfl : [] = ys := Except.ok.inj h
    exact fun y hy => nomatch hy
  | cons x xs ih =>
    rw [List.mapM_cons] at h
    obtain ⟨first, hfirst, h⟩ := bind_ok_iff.mp h
    obtain ⟨rest, hrest, h⟩ := bind_ok_iff.mp h
    obtain rfl := Except.ok.inj h
    obtain ⟨hx, hp⟩ := List.forall_mem_cons.mp hp
    exact List.forall_mem_cons.mpr ⟨hx first hfirst, ih hrest hp⟩

/-- The summaries of a capture: each rank once, and inside of one world. -/
structure Ranked (summaries : List RankSummary) (worldSize : Nat) : Prop where
  some : summaries ≠ []
  distinct : (summaries.map RankSummary.rank).Nodup
  within : ∀ s ∈ summaries, s.rank < worldSize

theorem loadSummaries_ranked (h : loadSummaries py capture = .ok summaries) :
    Ranked summaries ((summaries.head?.map RankSummary.worldSize).getD 0) := by
  unfold loadSummaries at h
  obtain ⟨-, -, h⟩ := bind_ok_iff.mp h
  obtain ⟨loaded, hloaded, h⟩ := bind_ok_iff.mp h
  obtain ⟨_, distinct, h⟩ := bind_ok_iff.mp h
  obtain ⟨_, worlds, h⟩ := bind_ok_iff.mp h
  obtain rfl := Except.ok.inj h
  have each := mapM_forall hloaded (fun file _ s hs => loadSummary_rank hs)
  have world := List.length_eq_one_iff.mp (raiseUnless_ok worlds)
  obtain ⟨worldSize, hworld⟩ := world
  have same : ∀ s ∈ loaded, s.worldSize = worldSize := by
    intro s hs
    have mem : s.worldSize ∈ (loaded.map RankSummary.worldSize).dedup :=
      List.mem_dedup.mpr (List.mem_map_of_mem hs)
    rw [hworld] at mem
    exact List.mem_singleton.mp mem
  cases loaded with
  | nil => exact nomatch hworld
  | cons first rest =>
    refine ⟨List.cons_ne_nil _ _, raiseUnless_ok distinct, fun s hs => ?_⟩
    have here : first.worldSize = worldSize := same first List.mem_cons_self
    show s.rank < first.worldSize
    rw [here, ← same s hs]
    exact each s hs

theorem Ranked.length_le {worldSize : Nat} (h : Ranked summaries worldSize) :
    summaries.length ≤ worldSize := by
  have inside : summaries.map RankSummary.rank ⊆ List.range worldSize := by
    intro rank hrank
    obtain ⟨s, hs, rfl⟩ := List.mem_map.mp hrank
    exact List.mem_range.mpr (h.within s hs)
  have fewer := (List.subperm_of_subset h.distinct inside).length_le
  rwa [List.length_map, List.length_range] at fewer

theorem stragglers_mem {threshold : ℚ} {medianRuntime : Nat} {late : List Nat}
    (h : stragglers threshold medianRuntime summaries = .ok late) :
    ∀ rank ∈ late, rank ∈ summaries.map RankSummary.rank := by
  induction summaries generalizing late with
  | nil =>
    obtain rfl : [] = late := Except.ok.inj h
    exact fun rank hrank => nomatch hrank
  | cons s summaries ih =>
    have after : ∀ slow : Bool, (do
        let ranks ← stragglers threshold medianRuntime summaries
        pure (if slow = true then s.rank :: ranks else ranks)) = Except.ok late →
        ∀ rank ∈ late, rank ∈ (s :: summaries).map RankSummary.rank := by
      intro slow h
      obtain ⟨ranks, hranks, h⟩ := bind_ok_iff.mp h
      obtain rfl := Except.ok.inj h
      have rest : ∀ rank ∈ ranks, rank ∈ (s :: summaries).map RankSummary.rank :=
        fun rank hrank => List.mem_cons_of_mem _ (ih hranks rank hrank)
      split
      · exact List.forall_mem_cons.mpr ⟨List.mem_cons_self, rest⟩
      · exact rest
    rw [stragglers] at h
    split at h
    · obtain ⟨ratio, -, h⟩ := bind_ok_iff.mp h
      obtain ⟨slow, -, h⟩ := bind_ok_iff.mp h
      exact after slow h
    · obtain ⟨slow, -, h⟩ := bind_ok_iff.mp h
      exact after slow h

end ranks

section rounded

variable {n : Nat} {x : ℚ}

/-- Rounding does not pass a natural number below 2^53. -/
theorem float_le (hx : 0 ≤ x) (h : x ≤ n) (hn : n < 2 ^ 53) : float x ≤ n :=
  (Doubles.float_mono hx h).trans_eq (float_natural hn)

theorem median_le {runtimes : List Nat} {m : Nat} (h : median runtimes = .ok m)
    (hall : ∀ r ∈ runtimes, r ≤ n) (hn : n < 2 ^ 53) : m ≤ n := by
  have entry : ∀ i, (runtimes.insertionSort (· ≤ ·)).getD i 0 ≤ n := by
    intro i
    rw [List.getD_eq_getElem?_getD]
    cases hi : (runtimes.insertionSort (· ≤ ·))[i]? with
    | none => exact Nat.zero_le n
    | some r =>
      have mem := List.mem_of_getElem? hi
      rw [List.mem_insertionSort] at mem
      exact hall r mem
  simp only [median] at h
  split at h
  · obtain rfl := Except.ok.inj h
    exact entry _
  · obtain ⟨middle, hmiddle, h⟩ := bind_ok_iff.mp h
    obtain rfl := Except.ok.inj h
    rw [trueDiv_value hmiddle]
    generalize hsum : (runtimes.insertionSort (· ≤ ·)).getD _ 0 + _ = total
    have most : total ≤ n + n := hsum ▸ Nat.add_le_add (entry _) (entry _)
    obtain rfl | positive := Nat.eq_zero_or_pos total
    · simp [float, halfEven]
    · have half : ((total : ℚ) / (2 : Nat)) ≤ n := by
        rw [div_le_iff₀ (by norm_num)]
        push_cast
        have : (total : ℚ) ≤ n + n := by exact_mod_cast most
        linarith
      have low := float_le (div_pos (by exact_mod_cast positive) (by norm_num)).le half hn
      rw [Int.toNat_le]
      exact_mod_cast (Int.floor_le _).trans low

end rounded

section totals

variable {py : Interpreter} {worldSize runtimeMaxNs : Nat} {entries : List (PyStr × OperationStats)}

def operationTotal (part : OperationStats → Nat) (name : PyStr)
    (entries : List (PyStr × OperationStats)) : Nat :=
  ((entries.filter (fun e => e.1 = name)).map (fun e => part e.2)).sum

theorem operationTotal_append (part : OperationStats → Nat) (name : PyStr)
    (entry : PyStr × OperationStats) : operationTotal part name (entries ++ [entry]) =
      operationTotal part name entries + if entry.1 = name then part entry.2 else 0 := by
  unfold operationTotal
  rw [List.filter_append, List.map_append, List.sum_append]
  by_cases h : entry.1 = name
  · simp [h]
  · simp [h]

/-- The totals of some entries: one for each of their names. -/
structure Summed (entries totals : List (PyStr × OperationStats)) : Prop where
  names : ∀ name, name ∈ totals.map Prod.fst ↔ name ∈ entries.map Prod.fst
  sums : ∀ m ∈ totals, m.2 = ⟨operationTotal OperationStats.calls m.1 entries,
    operationTotal OperationStats.durationNs m.1 entries,
    operationTotal OperationStats.payloadBytes m.1 entries⟩

theorem operationTotal_fresh (part : OperationStats → Nat) {name : PyStr}
    (h : name ∉ entries.map Prod.fst) : operationTotal part name entries = 0 := by
  have none : entries.filter (fun e => e.1 = name) = [] := by
    rw [List.filter_eq_nil_iff]
    intro e he hname
    exact h (of_decide_eq_true hname ▸ List.mem_map_of_mem he)
  rw [operationTotal, none]
  rfl

theorem fresh_of_lookup {α : Type} {xs : List (PyStr × α)} {key : PyStr}
    (h : xs.lookup key = none) : key ∉ xs.map Prod.fst := by
  intro hk
  obtain ⟨m, hm, rfl⟩ := List.mem_map.mp hk
  have differs := List.lookup_eq_none_iff.mp h m hm
  simp at differs

theorem setItem_names {α : Type} (xs : List (PyStr × α)) (key : PyStr) (x : α) (name : PyStr) :
    name ∈ (setItem xs key x).map Prod.fst ↔ name ∈ xs.map Prod.fst ∨ name = key := by
  unfold setItem
  split
  · next found =>
    obtain ⟨old, hl⟩ := Option.isSome_iff_exists.mp found
    have present : key ∈ xs.map Prod.fst := List.mem_map.mpr ⟨(key, old), mem_of_lookup hl, rfl⟩
    have same : (xs.map (fun m => if m.1 = key then (key, x) else m)).map Prod.fst =
        xs.map Prod.fst := by
      rw [List.map_map]
      refine List.map_congr_left (fun m _ => ?_)
      by_cases hm : m.1 = key
      · simp [hm]
      · simp [hm]
    rw [same]
    exact ⟨.inl, fun h => h.elim id (fun hk => hk ▸ present)⟩
  · rw [List.map_append, List.mem_append]
    exact or_congr Iff.rfl List.mem_singleton

theorem addStats_summed {totals : List (PyStr × OperationStats)} (h : Summed entries totals)
    (entry : PyStr × OperationStats) :
    Summed (entries ++ [entry]) (addStats totals entry) := by
  have old : (totals.lookup entry.1).getD ⟨0, 0, 0⟩ =
      ⟨operationTotal OperationStats.calls entry.1 entries,
        operationTotal OperationStats.durationNs entry.1 entries,
        operationTotal OperationStats.payloadBytes entry.1 entries⟩ := by
    cases hl : totals.lookup entry.1 with
    | some stats => exact h.sums _ (mem_of_lookup hl)
    | none =>
      have fresh : entry.1 ∉ entries.map Prod.fst := by
        rw [← h.names]
        exact fresh_of_lookup hl
      rw [operationTotal_fresh _ fresh, operationTotal_fresh _ fresh, operationTotal_fresh _ fresh]
      rfl
  have kept : ∀ m ∈ totals, m.1 ≠ entry.1 →
      m.2 = ⟨operationTotal OperationStats.calls m.1 (entries ++ [entry]),
        operationTotal OperationStats.durationNs m.1 (entries ++ [entry]),
        operationTotal OperationStats.payloadBytes m.1 (entries ++ [entry])⟩ := by
    intro m hm other
    have other' : ¬entry.1 = m.1 := fun he => other he.symm
    simp only [operationTotal_append, if_neg other', Nat.add_zero]
    exact h.sums m hm
  unfold addStats
  simp only [old]
  constructor
  · intro name
    rw [setItem_names, h.names, List.map_append, List.mem_append]
    exact or_congr Iff.rfl List.mem_singleton.symm
  · have new : ∀ m : PyStr × OperationStats, m = (entry.1,
        ⟨operationTotal OperationStats.calls entry.1 entries + entry.2.calls,
          operationTotal OperationStats.durationNs entry.1 entries + entry.2.durationNs,
          operationTotal OperationStats.payloadBytes entry.1 entries + entry.2.payloadBytes⟩) →
        m.2 = ⟨operationTotal OperationStats.calls m.1 (entries ++ [entry]),
          operationTotal OperationStats.durationNs m.1 (entries ++ [entry]),
          operationTotal OperationStats.payloadBytes m.1 (entries ++ [entry])⟩ := by
      rintro m rfl
      simp [operationTotal_append]
    unfold setItem
    split
    · rw [List.forall_mem_map]
      intro m hm
      by_cases he : m.1 = entry.1
      · rw [if_pos he]
        exact new _ rfl
      · rw [if_neg he]
        exact kept m hm he
    · next missing =>
      have hl : totals.lookup entry.1 = none := Option.not_isSome_iff_eq_none.mp missing
      intro m hm
      obtain hm | hm := List.mem_append.mp hm
      · exact kept m hm (fun he => fresh_of_lookup hl (he ▸ List.mem_map_of_mem hm))
      · exact new m (List.mem_singleton.mp hm)

theorem aggregateOperations_summed (summaries : List RankSummary) :
    Summed (summaries.flatMap RankSummary.operations) (aggregateOperations summaries) := by
  have folded : ∀ entries : List (PyStr × OperationStats),
      Summed entries (entries.foldl addStats []) := by
    intro entries
    induction entries using List.reverseRecOn with
    | nil => exact ⟨fun _ => Iff.rfl, fun m hm => nomatch hm⟩
    | append_singleton entries entry ih =>
      rw [List.foldl_append]
      exact addStats_summed ih entry
  have sorted : (aggregateOperations summaries).Perm
      ((summaries.flatMap RankSummary.operations).foldl addStats []) := List.perm_insertionSort _ _
  obtain ⟨names, sums⟩ := folded (summaries.flatMap RankSummary.operations)
  exact ⟨fun name => ((sorted.map Prod.fst).mem_iff).trans (names name),
    fun m hm => sums m (sorted.subset hm)⟩

/-- The duration an event adds to a bucket. -/
def durationIn (runtimeMaxNs i : Nat) (event : Dict) : Nat :=
  match bucketOf runtimeMaxNs event with
  | some (bucket, duration) => if bucket = i then duration else 0
  | none => 0

theorem bucket_addTime (t : List Bucket) (event : Dict) (i : Nat) :
    (addTime py runtimeMaxNs t event)[i]? = (t[i]?).map (fun b =>
      if failed py event = true then b
      else ⟨b.timestampNs, b.calls + if fallsInto runtimeMaxNs i event = true then 1 else 0,
        b.durationNs + durationIn runtimeMaxNs i event⟩) := by
  unfold addTime fallsInto durationIn
  cases hf : failed py event with
  | true => simp
  | false =>
    cases hb : bucketOf runtimeMaxNs event with
    | none => simp [count]
    | some p =>
      obtain ⟨bucket, duration⟩ := p
      rw [if_neg (by simp), count, List.getElem?_modify]
      by_cases he : bucket = i
      · cases t[i]? <;> simp [he]
      · cases t[i]? <;> simp [he]

theorem bucket_fold (events : List Dict) (t : List Bucket) (i : Nat) :
    (events.foldl (addTime py runtimeMaxNs) t)[i]? = (t[i]?).map (fun b =>
      ⟨b.timestampNs,
        b.calls + (events.filter (fun e => !failed py e)).countP (fallsInto runtimeMaxNs i),
        b.durationNs + ((events.filter (fun e => !failed py e)).map
          (durationIn runtimeMaxNs i)).sum⟩) := by
  induction events generalizing t with
  | nil => simp
  | cons e events ih =>
    rw [List.foldl_cons, ih, bucket_addTime, Option.map_map]
    congr 1
    funext b
    cases hf : failed py e with
    | true => simp [hf]
    | false =>
      simp only [Function.comp_apply, Bool.false_eq_true, if_false]
      rw [List.filter_cons_of_pos (by simp [hf]), List.countP_cons, List.map_cons, List.sum_cons,
        Bucket.mk.injEq]
      exact ⟨rfl, by omega, by omega⟩

end totals

section reported

variable {py : Interpreter} {capture : Capture} {threshold : ℚ} {o : Overview} {s : Evidence}
  {edges : List CommunicationEdge} {result : AnalysisResult} {worldSize : Nat}

theorem ratio_nonneg {a b : Nat} {x : ℚ} (h : ratio a b = .ok x) : 0 ≤ x := by
  unfold ratio at h
  split at h
  · obtain rfl := Except.ok.inj h
    exact le_rfl
  · rw [trueDiv_value h]
    exact float_nonneg (div_nonneg (Nat.cast_nonneg a) (Nat.cast_nonneg b))

theorem operationFinding_severity {name : String} {limit : ℚ} {finding : String → Finding}
    {findings : List Finding} (h : operationFinding py result name limit finding = .ok findings)
    (hwarning : ∀ share, (finding share).severity = "warning") :
    ∀ f ∈ findings, f.severity ∈ ["warning", "info", "ok"] := by
  unfold operationFinding at h
  split at h
  · obtain rfl : [] = findings := Except.ok.inj h
    exact fun f hf => nomatch hf
  · obtain ⟨share, -, h⟩ := bind_ok_iff.mp h
    obtain rfl := Except.ok.inj h
    split
    · rw [List.forall_mem_singleton, hwarning]
      exact List.mem_cons_self
    · exact fun f hf => nomatch hf

theorem makeFindings_severity {findings : List Finding}
    (h : makeFindings py result = .ok findings) :
    ∀ f ∈ findings, f.severity ∈ ["warning", "info", "ok"] := by
  unfold makeFindings at h
  obtain ⟨allreduce, hallreduce, h⟩ := bind_ok_iff.mp h
  obtain ⟨barrier, hbarrier, h⟩ := bind_ok_iff.mp h
  obtain rfl := Except.ok.inj h
  have straggler : ∀ f ∈ stragglerFinding py result, f.severity ∈ ["warning", "info", "ok"] := by
    unfold stragglerFinding
    split
    · exact fun f hf => nomatch hf
    · exact List.forall_mem_singleton.mpr List.mem_cons_self
  have scaling : ∀ f ∈ scalingFinding py result, f.severity ∈ ["warning", "info", "ok"] := by
    unfold scalingFinding
    split
    · exact List.forall_mem_singleton.mpr (List.mem_cons_of_mem _ List.mem_cons_self)
    · exact fun f hf => nomatch hf
  have hotspot : ∀ f ∈ hotspotFinding py result, f.severity ∈ ["warning", "info", "ok"] := by
    unfold hotspotFinding
    split
    · exact fun f hf => nomatch hf
    · split
      · exact List.forall_mem_singleton.mpr List.mem_cons_self
      · exact fun f hf => nomatch hf
  split
  · rw [List.forall_mem_singleton]
    decide
  · simp only [List.forall_mem_append]
    exact ⟨⟨⟨⟨straggler, operationFinding_severity hallreduce (fun _ => rfl)⟩,
      operationFinding_severity hbarrier (fun _ => rfl)⟩, scaling⟩, hotspot⟩

structure Reported (threshold : ℚ) (o : Overview) (result : AnalysisResult) : Prop where
  ranksObserved : result.ranksObserved = o.summaries.length
  runtimeMedianNs : result.runtimeMedianNs = o.medianRuntime
  mpiTimeNs : result.mpiTimeNs = o.mpiTime
  aggregateRuntimeNs : result.aggregateRuntimeNs = o.aggregateRuntime
  fractions : 0 ≤ result.mpiFraction ∧ 0 ≤ result.imbalanceRatio
  stragglerThreshold : result.stragglerThreshold = threshold
  stragglerRanks : result.stragglerRanks = o.stragglers
  operations : result.operations = aggregateOperations o.summaries
  rankRuntimes : result.rankRuntimes.Perm (o.summaries.map (fun s => (s.rank, s.runtimeNs)))
  findings : ∀ f ∈ result.findings, f.severity ∈ ["warning", "info", "ok"]
  metadata : result.metadata = o.metadata
  ranks : result.ranks.Perm (o.summaries.map rankRow)

theorem assemble_reported (h : assemble py capture threshold o s edges = .ok result) :
    Reported threshold o result := by
  unfold assemble at h
  obtain ⟨mpiFraction, hmpi, h⟩ := bind_ok_iff.mp h
  obtain ⟨imbalanceRatio, himbalance, h⟩ := bind_ok_iff.mp h
  obtain ⟨findings, hfindings, h⟩ := bind_ok_iff.mp h
  obtain rfl := Except.ok.inj h
  exact ⟨rfl, rfl, rfl, rfl, ⟨ratio_nonneg hmpi, ratio_nonneg himbalance⟩, rfl, rfl, rfl,
    List.mergeSort_perm _ _, makeFindings_severity hfindings, rfl,
    (List.mergeSort_perm _ _).map rankRow⟩

theorem analyze_reported (h : analyze py capture threshold = .ok result) :
    ∃ o, overview py capture threshold = .ok o ∧ Reported threshold o result := by
  unfold analyze at h
  obtain ⟨o, ho, h⟩ := bind_ok_iff.mp h
  obtain ⟨⟨s, edges⟩, -, h⟩ := bind_ok_iff.mp h
  exact ⟨o, ho, assemble_reported h⟩

structure Overviewed (py : Interpreter) (capture : Capture) (threshold : ℚ) (o : Overview) :
    Prop where
  threshold : 1 < threshold
  summaries : loadSummaries py capture = .ok o.summaries
  metadata : loadMetadata py capture.manifest = .ok o.metadata
  worldSize : o.worldSize = (o.summaries.head?.map RankSummary.worldSize).getD 0
  ranked : Ranked o.summaries o.worldSize
  median : median (o.summaries.map RankSummary.runtimeNs) = .ok o.medianRuntime
  maximum : o.maximumRuntime = (o.summaries.map RankSummary.runtimeNs).foldr max 0
  aggregate : o.aggregateRuntime = (o.summaries.map RankSummary.runtimeNs).sum
  mpiTime : o.mpiTime = (o.summaries.map RankSummary.mpiTimeNs).sum
  stragglers : ∀ rank ∈ o.stragglers, rank ∈ o.summaries.map RankSummary.rank

theorem overview_overviewed (h : overview py capture threshold = .ok o) :
    Overviewed py capture threshold o := by
  unfold overview at h
  obtain ⟨_, hthreshold, h⟩ := bind_ok_iff.mp h
  obtain ⟨summaries, hsummaries, h⟩ := bind_ok_iff.mp h
  obtain ⟨medianRuntime, hmedian, h⟩ := bind_ok_iff.mp h
  obtain ⟨late, hlate, h⟩ := bind_ok_iff.mp h
  obtain ⟨metadata, hmetadata, h⟩ := bind_ok_iff.mp h
  obtain ⟨-, -, h⟩ := bind_ok_iff.mp h
  obtain rfl := Except.ok.inj h
  exact ⟨raiseUnless_ok hthreshold, hsummaries, hmetadata, rfl,
    loadSummaries_ranked hsummaries, hmedian, rfl, rfl, rfl,
    fun rank hrank => stragglers_mem hlate rank (List.mem_mergeSort.mp hrank)⟩

theorem edgeOf_within {event : Dict} {edge : (Nat × Nat) × Nat}
    (h : edgeOf worldSize event = some edge) : edge.1.1 < worldSize ∧ edge.1.2 < worldSize := by
  unfold edgeOf at h
  split at h
  · split at h
    · next inside =>
      obtain rfl := Option.some.inj h
      obtain ⟨⟨hs, hs'⟩, ⟨hd, hd'⟩, -⟩ := inside
      refine ⟨?_, ?_⟩ <;> dsimp only <;> omega
    · exact nomatch h
  · exact nomatch h

theorem addEdge_within {totals : List ((Nat × Nat) × (Nat × Nat))} {key : Nat × Nat} {bytes : Nat}
    (h : ∀ e ∈ totals, e.1.1 < worldSize ∧ e.1.2 < worldSize)
    (hkey : key.1 < worldSize ∧ key.2 < worldSize) :
    ∀ e ∈ addEdge totals key bytes, e.1.1 < worldSize ∧ e.1.2 < worldSize := by
  unfold addEdge
  split
  · rw [List.forall_mem_map]
    intro e he
    split
    · exact hkey
    · exact h e he
  · rw [List.forall_mem_append]
    exact ⟨h, List.forall_mem_singleton.mpr hkey⟩

theorem addSend_within (events : List Dict) {totals : List ((Nat × Nat) × (Nat × Nat))}
    (h : ∀ e ∈ totals, e.1.1 < worldSize ∧ e.1.2 < worldSize) :
    ∀ e ∈ events.foldl (addSend py worldSize) totals, e.1.1 < worldSize ∧ e.1.2 < worldSize := by
  induction events generalizing totals with
  | nil => exact h
  | cons event events ih =>
    refine ih ?_
    rw [addSend_edge]
    cases he : eventEdge py worldSize event with
    | none => exact h
    | some edge =>
      unfold eventEdge at he
      split at he
      · exact addEdge_within h (edgeOf_within he)
      · exact nomatch he

theorem all_le_of_map {α β : Type} {f : α → Nat} {g : β → Nat} {xs : List α} {ys : List β}
    {bound : Nat} (h : xs.map f = ys.map g) :
    (∀ x ∈ xs, f x ≤ bound) ↔ ∀ y ∈ ys, g y ≤ bound := by
  have same : (∀ n ∈ xs.map f, n ≤ bound) ↔ ∀ n ∈ ys.map g, n ≤ bound := by rw [h]
  rwa [List.forall_mem_map, List.forall_mem_map] at same

theorem edges_bounded (h : analyze py capture threshold = .ok result)
    (ho : overview py capture threshold = .ok o) (bound : Nat) :
    (∀ e ∈ result.communicationEdges, e.bytes ≤ bound ∧ e.messages ≤ bound) ↔
      ∀ key, payloadOver py o.worldSize key (capture.events.flatMap (fileEvents py)) ≤ bound ∧
        ((capture.events.flatMap (fileEvents py)).filter (fun e => !failed py e)).countP
          (sendsOver o.worldSize key) ≤ bound := by
  obtain ⟨o', s, unsorted, ho', hs, hshares, hresult⟩ := analyze_ok h
  obtain rfl := Except.ok.inj (ho.symm.trans ho')
  obtain ⟨-, e, herr⟩ | ⟨-, s', hok, grown⟩ := @loadFiles_cases py o.worldSize
    o.maximumRuntime capture.events (o.evidence py capture)
  · exact nomatch hs.symm.trans herr
  obtain rfl := Except.ok.inj (hs.symm.trans hok)
  have distinct : (s.edges.map Prod.fst).Nodup := by
    rw [grown.edges]
    exact addSend_nodup _ List.nodup_nil
  have summed : ∀ key, totalOf s.edges key =
      (payloadOver py o.worldSize key (capture.events.flatMap (fileEvents py)),
        ((capture.events.flatMap (fileEvents py)).filter (fun e => !failed py e)).countP
          (sendsOver o.worldSize key)) := by
    intro key
    rw [grown.edges, totals_fold]
    exact Prod.ext (Nat.zero_add _) (Nat.zero_add _)
  have listed : (∀ e ∈ result.communicationEdges, e.bytes ≤ bound ∧ e.messages ≤ bound) ↔
      ∀ e ∈ s.edges, e.2.1 ≤ bound ∧ e.2.2 ≤ bound := by
    obtain ⟨bytes, messages, -⟩ := edgeShare_parts hshares
    simp only [hresult.communicationEdges, List.mem_mergeSort, forall_and]
    refine and_congr ?_ ?_
    · exact all_le_of_map bytes
    · exact all_le_of_map messages
  rw [listed]
  constructor
  · intro hall key
    have total : (totalOf s.edges key).1 ≤ bound ∧ (totalOf s.edges key).2 ≤ bound := by
      by_cases hkey : key ∈ s.edges.map Prod.fst
      · obtain ⟨e, he, rfl⟩ := List.mem_map.mp hkey
        rw [totalOf_mem distinct he]
        exact hall e he
      · rw [totalOf_fresh hkey]
        exact ⟨Nat.zero_le _, Nat.zero_le _⟩
    rwa [summed] at total
  · intro hall e he
    have total := totalOf_mem distinct he
    rw [summed] at total
    rw [← total]
    exact hall e.1

theorem timeline_bounded (h : analyze py capture threshold = .ok result)
    (ho : overview py capture threshold = .ok o) {bound : Nat} (hmax : o.maximumRuntime ≤ bound) :
    (∀ b ∈ result.timeline, b.timestampNs ≤ bound ∧ b.calls ≤ bound ∧ b.durationNs ≤ bound) ↔
      ∀ i < 50, ((capture.events.flatMap (fileEvents py)).filter (fun e => !failed py e)).countP
          (fallsInto o.maximumRuntime i) ≤ bound ∧
        (((capture.events.flatMap (fileEvents py)).filter (fun e => !failed py e)).map
          (durationIn o.maximumRuntime i)).sum ≤ bound := by
  obtain ⟨o', s, unsorted, ho', hs, hshares, hresult⟩ := analyze_ok h
  obtain rfl := Except.ok.inj (ho.symm.trans ho')
  obtain ⟨-, e, herr⟩ | ⟨-, s', hok, grown⟩ := @loadFiles_cases py o.worldSize
    o.maximumRuntime capture.events (o.evidence py capture)
  · cases hs.symm.trans herr
  obtain rfl := Except.ok.inj (hs.symm.trans hok)
  have timeline : ∀ i, result.timeline[i]? = ((emptyTimeline o.maximumRuntime)[i]?).map (fun b =>
      Bucket.mk b.timestampNs (b.calls + ((capture.events.flatMap (fileEvents py)).filter
        (fun e => !failed py e)).countP (fallsInto o.maximumRuntime i))
        (b.durationNs + (((capture.events.flatMap (fileEvents py)).filter
          (fun e => !failed py e)).map (durationIn o.maximumRuntime i)).sum)) := by
    intro i
    rw [hresult.timeline, grown.timeline, bucket_fold]
    rfl
  have start : ∀ i < 50, (emptyTimeline o.maximumRuntime)[i]? =
      some (Bucket.mk (o.maximumRuntime * i / 50) 0 0) := by
    intro i hi
    rw [emptyTimeline, List.getElem?_map, List.getElem?_range hi]
    rfl
  constructor
  · intro hall i hi
    have here := timeline i
    rw [start i hi] at here
    have counted := (hall _ (List.mem_of_getElem? here)).2
    simpa only [Nat.zero_add] using counted
  · intro hall b hb
    obtain ⟨i, hi⟩ := List.mem_iff_getElem?.mp hb
    rw [timeline] at hi
    by_cases hlt : i < 50
    · rw [start i hlt] at hi
      obtain rfl := Option.some.inj hi
      simp only [Nat.zero_add]
      refine ⟨?_, hall i hlt⟩
      have scaled : o.maximumRuntime * i / 50 ≤ o.maximumRuntime :=
        Nat.div_le_of_le_mul (by rw [Nat.mul_comm]; exact Nat.mul_le_mul_right _ hlt.le)
      exact scaled.trans hmax
    · have none : (emptyTimeline o.maximumRuntime)[i]? = none := by
        rw [List.getElem?_eq_none_iff]
        show ((List.range 50).map _).length ≤ i
        rw [List.length_map, List.length_range]
        omega
      rw [none] at hi
      cases hi

end reported

end Analyzer

end RankLens
