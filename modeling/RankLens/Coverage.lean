import RankLens.Summaries

namespace RankLens

namespace Parquet

variable {python : Python} {k : AttemptKey} {segment : ParquetSegment} {rows : List NormalizedRow}
  {r : NormalizedRow}

/-- A row of a projection is the row of some record. -/
def Projected (k : AttemptKey) (r : NormalizedRow) : Prop :=
  ∃ segment index value canonical, r = row k segment index value canonical

theorem projected_of_segmentRows {room index : Nat} {lines : List Bytes}
    (h : segmentRows python k segment room index lines = .ok rows) (hr : r ∈ rows) :
    Projected k r := by
  induction lines generalizing room index rows with
  | nil =>
    cases h
    cases hr
  | cons line lines ih =>
    rw [segmentRows] at h
    split at h
    · exact ih h hr
    · obtain ⟨value, -, h⟩ := except_bind_ok h
      cases value with
      | object value =>
        obtain ⟨canonical, -, h⟩ := except_bind_ok h
        cases room with
        | zero => cases h
        | succ room =>
          obtain ⟨rest, hrest, h⟩ := except_bind_ok h
          cases h
          obtain rfl | hr := List.mem_cons.mp hr
          · exact ⟨_, _, _, _, rfl⟩
          · exact ih hrest hr
      | _ => cases h

theorem projected_of_segmentsRows {room : Nat} {segments : List ParquetSegment}
    (h : segmentsRows python k room segments = .ok rows) (hr : r ∈ rows) : Projected k r := by
  induction segments generalizing room rows with
  | nil =>
    cases h
    cases hr
  | cons segment segments ih =>
    rw [segmentsRows] at h
    obtain ⟨own, hown, h⟩ := except_bind_ok h
    split at h
    · cases h
    · obtain ⟨more, hmore, h⟩ := except_bind_ok h
      cases h
      obtain hr | hr := List.mem_append.mp hr
      · exact projected_of_segmentRows hown hr
      · exact ih hmore hr

theorem count_nonneg {value : Option JsonValue} {n : Int} (h : count value = some n) : 0 ≤ n := by
  unfold count integer at h
  split at h
  · split at h
    · cases h
    · next hrange =>
      cases h
      exact (not_or.mp hrange).1 |> Int.not_lt.mp
  · cases h

theorem Projected.rank (h : Projected k r) (hs : r.recordType = "rank_summary") :
    ∃ n, r.rank = some n ∧ 0 ≤ n := by
  obtain ⟨segment, index, value, canonical, rfl⟩ := h
  have hrecord : recordType value = "rank_summary" := hs
  unfold recordType at hrecord
  dsimp only at hrecord
  split at hrecord
  · next hsummary =>
    obtain ⟨n, hn⟩ := Option.isSome_iff_exists.mp hsummary.2.1
    exact ⟨n, hn, count_nonneg hn⟩
  · split at hrecord <;> exact absurd hrecord (by decide)

end Parquet

namespace Analytics

variable {rows : List NormalizedRow} {agg : RankAggregate} {maxSourceRows : Nat}

def rankSummaries (rows : List NormalizedRow) : List NormalizedRow :=
  rows.filter (fun r => r.recordType = "rank_summary")

/-- The rank summaries all have a rank, as those of a projection do. -/
def Ranked (rows : List NormalizedRow) : Prop :=
  ∀ r ∈ rows, r.recordType = "rank_summary" → ∃ n, r.rank = some n ∧ 0 ≤ n

def finalized (r : NormalizedRow) : Prop :=
  r.complete = some true ∧ r.captureState = some "finalized"

/-- Every rank of the run has one summary, a final one, and the aggregate is that of these. -/
structure Covered (rows : List NormalizedRow) (agg : RankAggregate) (worldSize : Nat) : Prop where
  sizes : ∀ r ∈ rankSummaries rows, r.worldSize = some (worldSize : Int)
  ranks : ∀ n : Int, (∃ r ∈ rankSummaries rows, r.rank = some n ∧ finalized r) ↔
    0 ≤ n ∧ n < worldSize
  single : ((rankSummaries rows).map NormalizedRow.rank).Nodup
  mpiTime : agg.mpiTimeTotalNs = total NormalizedRow.mpiTimeNs (rankSummaries rows)
  mpiCalls : agg.mpiCallsTotal = total NormalizedRow.mpiCalls (rankSummaries rows)
  completions : agg.requestCompletionsTotal =
    total NormalizedRow.requestCompletions (rankSummaries rows)
  failed : agg.failedCallsTotal = total NormalizedRow.failedCalls (rankSummaries rows)
  least : agg.runtimeMinNs = ((rankSummaries rows).filterMap NormalizedRow.runtimeNs).min?
  median : agg.runtimeMedianNs =
    Analytics.median ((rankSummaries rows).filterMap NormalizedRow.runtimeNs)
  greatest : agg.runtimeMaxNs = ((rankSummaries rows).filterMap NormalizedRow.runtimeNs).max?

/-- Final summaries of different ranks, whose world sizes are their number where they have one. -/
structure Apparent (summaries : List NormalizedRow) : Prop where
  nonempty : summaries ≠ []
  single : (summaries.map NormalizedRow.rank).Nodup
  finalized : ∀ r ∈ summaries, finalized r
  sizes : ∀ r ∈ summaries, ∀ n ∈ r.worldSize, n = (summaries.length : Int)

/-- The summary has a world size, and its rank is one of so many. -/
def Placed (worldSize : Nat) (r : NormalizedRow) : Prop :=
  r.worldSize.isSome ∧ ∀ n ∈ r.rank, n < (worldSize : Int)

theorem summaries_eq (h : Ranked rows) : summaries rows = rankSummaries rows := by
  refine List.filter_congr (fun r hr => ?_)
  by_cases hs : r.recordType = "rank_summary"
  · obtain ⟨n, hn, -⟩ := h r hr hs
    simp [hs, hn]
  · simp [hs]

theorem latestByRank_eq (h : ((summaries rows).map NormalizedRow.rank).Nodup) :
    latestByRank rows = summaries rows := by
  have hfind : ∀ r ∈ summaries rows,
      (summaries rows).reverse.find? (fun x => x.rank = r.rank) = some r := by
    intro r hr
    have hsome : ((summaries rows).reverse.find? (fun x => x.rank = r.rank)).isSome := by
      rw [List.find?_isSome]
      exact ⟨r, List.mem_reverse.mpr hr, by simp⟩
    obtain ⟨x, hx⟩ := Option.isSome_iff_exists.mp hsome
    have hmem := List.mem_reverse.mp (List.mem_of_find?_eq_some hx)
    have hrank : x.rank = r.rank := by simpa using List.find?_some hx
    rw [hx, List.inj_on_of_nodup_map h hmem hr hrank]
  unfold latestByRank
  dsimp only
  rw [List.dedup_eq_self.mpr (List.nodup_reverse.mpr h), List.reverse_reverse, List.filterMap_map]
  exact (List.filterMap_congr hfind).trans List.filterMap_some

theorem latestByRank_length_le : (latestByRank rows).length ≤
    ((summaries rows).map NormalizedRow.rank).reverse.dedup.length := by
  unfold latestByRank
  dsimp only
  refine (List.length_filterMap_le _ _).trans ?_
  rw [List.length_reverse]

theorem nodup_of_length_le (h : (summaries rows).length ≤ (latestByRank rows).length) :
    ((summaries rows).map NormalizedRow.rank).Nodup := by
  have hlength : ((summaries rows).map NormalizedRow.rank).reverse.length ≤
      ((summaries rows).map NormalizedRow.rank).reverse.dedup.length := by
    rw [List.length_reverse, List.length_map]
    exact h.trans latestByRank_length_le
  have hsame := (List.dedup_sublist _).eq_of_length_le hlength
  exact List.nodup_reverse.mp (List.dedup_eq_self.mp hsame)

theorem sizes_iff {sizes : List Int} {number : Nat} :
    ¬1 < sizes.dedup.length ∧ ¬(if sizes.dedup.length = 1 then sizes.dedup.head? else none).any
        (fun n => decide ((number : Int) ≠ n)) = true ↔ ∀ n ∈ sizes, n = (number : Int) := by
  constructor
  · rintro ⟨hone, hsame⟩ n hn
    obtain ⟨m, hm⟩ : ∃ m, sizes.dedup = [m] := by
      have hpos : 0 < sizes.dedup.length := List.length_pos_of_mem (List.mem_dedup.mpr hn)
      exact List.length_eq_one_iff.mp (by omega)
    rw [hm] at hsame
    have hn := List.mem_dedup.mpr hn
    rw [hm, List.mem_singleton] at hn
    rw [hn]
    have hnumber : (number : Int) = m := by simpa using hsame
    exact hnumber.symm
  · intro h
    have hdedup : ∀ n ∈ sizes.dedup, n = (number : Int) := fun n hn => h n (List.mem_dedup.mp hn)
    have hlength : sizes.dedup.length ≤ 1 := by
      have hnodup := List.nodup_dedup sizes
      generalize sizes.dedup = distinct at hdedup hnodup
      cases distinct with
      | nil => exact Nat.zero_le _
      | cons m rest =>
        cases rest with
        | nil => exact le_rfl
        | cons m' rest =>
          have hm := hdedup m List.mem_cons_self
          have hm' := hdedup m' (List.mem_cons_of_mem _ List.mem_cons_self)
          have hne := List.ne_of_not_mem_cons (List.nodup_cons.mp hnodup).1
          exact absurd (hm.trans hm'.symm) hne
    refine ⟨Nat.not_lt.mpr hlength, ?_⟩
    rw [Bool.not_eq_true, Option.any_eq_false]
    intro n hn
    split at hn
    · rw [hdedup n (List.mem_of_head? hn)]
      simp
    · cases hn

theorem finalized_all {summaries : List NormalizedRow} (h : Apparent summaries) :
    ∀ r ∈ summaries,
      (decide (r.complete = some true) && decide (r.captureState = some "finalized")) = true := by
  intro r hr
  simpa [finalized] using h.finalized r hr

theorem complete_iff (h : aggregateRankSummaries maxSourceRows rows = .ok agg) :
    agg.coverageStatus = "complete" ↔ Apparent (summaries rows) := by
  unfold aggregateRankSummaries at h
  split_ifs at h
  obtain rfl := Except.ok.inj h
  dsimp only
  have hstatus : ∀ (reasons : List String) [Decidable (reasons = [])],
      (if reasons = [] then "complete" else "partial") = "complete" ↔ reasons = [] := by
    intro reasons _
    split
    · next hnil => simp [hnil]
    · next hsome => simp [hsome]
  refine (hstatus _).trans ?_
  simp only [List.append_eq_nil_iff, ite_eq_right_iff, List.cons_ne_nil, imp_false]
  clear * -
  constructor
  · rintro ⟨⟨⟨⟨⟨hsome, hlength⟩, hone⟩, hfinal⟩, -⟩, hsame⟩
    have hnodup := nodup_of_length_le (Nat.not_lt.mp hlength)
    rw [latestByRank_eq hnodup] at hsome hone hfinal hsame
    have hall := List.length_filter_eq_length_iff.mp
      (not_not.mp (fun hne => hfinal ⟨hsome, hne⟩))
    rw [List.filter_eq_self.mpr hall] at hsame
    have hsizes := sizes_iff.mp ⟨hone, hsame⟩
    refine ⟨hsome, hnodup, fun r hr => by simpa [finalized] using hall r hr, fun r hr n hn => ?_⟩
    exact hsizes n (List.mem_filterMap.mpr ⟨r, hr, hn⟩)
  · intro h
    rw [latestByRank_eq h.single, List.filter_eq_self.mpr (finalized_all h)]
    have hsame : ∀ n ∈ (summaries rows).filterMap NormalizedRow.worldSize,
        n = ((summaries rows).length : Int) := by
      intro n hn
      obtain ⟨r, hr, hn⟩ := List.mem_filterMap.mp hn
      exact h.sizes r hr n hn
    have hsizes := sizes_iff.mpr hsame
    exact ⟨⟨⟨⟨⟨h.nonempty, lt_irrefl _⟩, hsizes.1⟩, fun hne => hne.2 rfl⟩,
      fun hnil => h.nonempty hnil.2⟩, hsizes.2⟩

theorem aggregate_of_apparent (h : aggregateRankSummaries maxSourceRows rows = .ok agg)
    (ha : Apparent (summaries rows)) :
    agg.mpiTimeTotalNs = total NormalizedRow.mpiTimeNs (summaries rows) ∧
      agg.mpiCallsTotal = total NormalizedRow.mpiCalls (summaries rows) ∧
      agg.requestCompletionsTotal = total NormalizedRow.requestCompletions (summaries rows) ∧
      agg.failedCallsTotal = total NormalizedRow.failedCalls (summaries rows) ∧
      agg.runtimeMinNs = ((summaries rows).filterMap NormalizedRow.runtimeNs).min? ∧
      agg.runtimeMedianNs = median ((summaries rows).filterMap NormalizedRow.runtimeNs) ∧
      agg.runtimeMaxNs = ((summaries rows).filterMap NormalizedRow.runtimeNs).max? := by
  unfold aggregateRankSummaries at h
  split_ifs at h
  obtain rfl := Except.ok.inj h
  dsimp only
  rw [latestByRank_eq ha.single, List.filter_eq_self.mpr (finalized_all ha)]
  exact ⟨rfl, rfl, rfl, rfl, rfl, rfl, rfl⟩

theorem mem_of_nodup {ranks : List Int} {n : Int} (hnodup : ranks.Nodup)
    (hrange : ∀ m ∈ ranks, 0 ≤ m ∧ m < (ranks.length : Int)) (hn : 0 ≤ n ∧ n < (ranks.length : Int)) :
    n ∈ ranks := by
  have hsubset : ranks.toFinset ⊆ Finset.Ico 0 (ranks.length : Int) := by
    intro m hm
    exact Finset.mem_Ico.mpr (hrange m (List.mem_toFinset.mp hm))
  have hcard : (Finset.Ico 0 (ranks.length : Int)).card ≤ ranks.toFinset.card := by
    rw [List.toFinset_card_of_nodup hnodup, Int.card_Ico]
    omega
  have hsame := Finset.eq_of_subset_of_card_le hsubset hcard
  exact List.mem_toFinset.mp (hsame ▸ Finset.mem_Ico.mpr hn)

/-- The aggregate of a projection is sound about a complete run, if it says so, exactly when the
summaries that look complete have a world size and ranks below their number. -/
theorem covered_iff (hranked : Ranked rows)
    (h : aggregateRankSummaries maxSourceRows rows = .ok agg) :
    (agg.coverageStatus = "complete" → ∃ worldSize, Covered rows agg worldSize) ↔
      (Apparent (rankSummaries rows) →
        ∀ r ∈ rankSummaries rows, Placed (rankSummaries rows).length r) := by
  have hcomplete := complete_iff h
  have hstats := aggregate_of_apparent h
  rw [summaries_eq hranked] at hcomplete hstats
  rw [hcomplete]
  refine forall_congr' (fun ha => ⟨?_, fun hplaced => ?_⟩)
  · rintro ⟨worldSize, hc⟩ r hr
    have hsize := ha.sizes r hr _ (hc.sizes r hr)
    refine ⟨by rw [hc.sizes r hr]; rfl, fun n hn => ?_⟩
    rw [← hsize]
    exact ((hc.ranks n).mp ⟨r, hr, hn, ha.finalized r hr⟩).2
  · have hsizes : ∀ r ∈ rankSummaries rows,
        r.worldSize = some ((rankSummaries rows).length : Int) := by
      intro r hr
      obtain ⟨n, hn⟩ := Option.isSome_iff_exists.mp (hplaced r hr).1
      rw [hn, ha.sizes r hr n hn]
    obtain ⟨htime, hcalls, hcompletions, hfailed, hmin, hmedian, hmax⟩ := hstats ha
    refine ⟨_, hsizes, fun n => ⟨?_, fun hn => ?_⟩, ha.single, htime, hcalls, hcompletions, hfailed,
      hmin, hmedian, hmax⟩
    · rintro ⟨r, hr, hrank, -⟩
      obtain ⟨m, hm, hpos⟩ := hranked r (List.mem_filter.mp hr).1 (by simpa using (List.mem_filter.mp hr).2)
      obtain rfl := Option.some.inj (hrank.symm.trans hm)
      exact ⟨hpos, (hplaced r hr).2 n hrank⟩
    · have hrank : ∀ r ∈ rankSummaries rows, ∃ m, r.rank = some m ∧ 0 ≤ m := fun r hr =>
        hranked r (List.mem_filter.mp hr).1 (by simpa using (List.mem_filter.mp hr).2)
      have hmem : n ∈ (rankSummaries rows).map (fun r => r.rank.getD 0) := by
        refine mem_of_nodup ?_ ?_ (by simpa using hn)
        · refine List.Nodup.of_map some ?_
          rw [List.map_map]
          refine (List.map_congr_left (fun r hr => ?_)) ▸ ha.single
          obtain ⟨m, hm, -⟩ := hrank r hr
          simp [hm]
        · intro m hm
          obtain ⟨r, hr, rfl⟩ := List.mem_map.mp hm
          obtain ⟨m, hm, hpos⟩ := hrank r hr
          simp only [hm, Option.getD_some, List.length_map]
          exact ⟨hpos, (hplaced r hr).2 m hm⟩
      obtain ⟨r, hr, hn⟩ := List.mem_map.mp hmem
      obtain ⟨m, hm, -⟩ := hrank r hr
      rw [hm, Option.getD_some] at hn
      exact ⟨r, hr, hn ▸ hm, ha.finalized r hr⟩

end Analytics

namespace Parquet

open Analytics

variable {python : Python} {k : AttemptKey} {segments : List ParquetSegment}
  {maxSegments maxRecords maxInputBytes maxSourceRows : Nat} {rows : List NormalizedRow}
  {agg : RankAggregate}

/-- The aggregate of any projection tells the truth when it says complete exactly when the summaries
that look complete have a world size and ranks below their number. -/
theorem complete_coverage_iff
    (hrows : buildNormalizedRows python k segments maxSegments maxRecords maxInputBytes = .ok rows)
    (hagg : aggregateRankSummaries maxSourceRows rows = .ok agg) :
    (agg.coverageStatus = "complete" → ∃ worldSize, Covered rows agg worldSize) ↔
      (Apparent (rankSummaries rows) →
        ∀ r ∈ rankSummaries rows, Placed (rankSummaries rows).length r) :=
  covered_iff (fun _ hr hs =>
    (projected_of_segmentsRows (buildNormalizedRows_ok hrows) hr).rank hs) hagg

/-- A final summary of one rank, with the world size it names. -/
def finalSummary (rank : Int) (worldSize : List (String × JsonValue)) :
    List (String × JsonValue) :=
  worldSize ++ [("schema_version", .number 2), ("rank", .number rank), ("hostname", .string "node"),
    ("runtime_ns", .number 100), ("mpi_time_ns", .number 30), ("complete", .bool true),
    ("capture_state", .string "finalized")]

def pythonOf (document : List (String × JsonValue)) : Python where
  loads := fun line =>
    if line = (JsonValue.object document).encode then .ok (.object document)
    else .error "Expecting value"
  dumps := fun value => .ok (JsonValue.object value).encode

def segmentOf (document : List (String × JsonValue)) : ParquetSegment :=
  ⟨7, "", 1, (JsonValue.object document).encode ++ [10]⟩

def attempt : AttemptKey := ⟨"acme", "cluster-a", "attempt-1"⟩

def rowsOf (document : List (String × JsonValue)) : List NormalizedRow :=
  [row attempt (segmentOf document) 0 document (JsonValue.object document).encode]

theorem complete_coverage_iff_single : ∃ rows agg, aggregateRankSummaries 100000 rows = .ok agg ∧
    agg.coverageStatus = "complete" ∧ ∃ worldSize, Covered rows agg worldSize := by
  have hrows : buildNormalizedRows (pythonOf (finalSummary 0 [("world_size", .number 1)])) attempt
      [segmentOf (finalSummary 0 [("world_size", .number 1)])] 10000 10000000 67108864 =
        .ok (rowsOf (finalSummary 0 [("world_size", .number 1)])) := by
    decide +kernel
  have hagg : ∃ agg, aggregateRankSummaries 100000 (rowsOf (finalSummary 0
      [("world_size", .number 1)])) = .ok agg ∧ agg.coverageStatus = "complete" :=
    ⟨_, rfl, by decide +kernel⟩
  obtain ⟨agg, hagg, hcomplete⟩ := hagg
  refine ⟨_, agg, hagg, hcomplete, (complete_coverage_iff hrows hagg).mpr ?_ hcomplete⟩
  intro _ r hr
  obtain rfl := List.mem_singleton.mp (List.mem_filter.mp hr).1
  refine ⟨rfl, fun n hn => ?_⟩
  have hn : some (0 : Int) = some n := hn
  obtain rfl := Option.some.inj hn
  decide +kernel

/-- One final summary, of rank 7 and no world size, makes a projection complete. -/
theorem stray_rank_complete : ¬∀ (python : Python) (k : AttemptKey) (segments : List ParquetSegment)
    (maxSegments maxRecords maxInputBytes maxSourceRows : Nat) (rows : List NormalizedRow)
    (agg : RankAggregate),
    buildNormalizedRows python k segments maxSegments maxRecords maxInputBytes = .ok rows →
      aggregateRankSummaries maxSourceRows rows = .ok agg → agg.coverageStatus = "complete" →
        ∃ worldSize, Covered rows agg worldSize := by
  intro h
  have hrows : buildNormalizedRows (pythonOf (finalSummary 7 [])) attempt
      [segmentOf (finalSummary 7 [])] 10000 10000000 67108864 =
        .ok (rowsOf (finalSummary 7 [])) := by
    decide +kernel
  have hagg : ∃ agg, aggregateRankSummaries 100000 (rowsOf (finalSummary 7 [])) = .ok agg ∧
      agg.coverageStatus = "complete" :=
    ⟨_, rfl, by decide +kernel⟩
  obtain ⟨agg, hagg, hcomplete⟩ := hagg
  obtain ⟨worldSize, hc⟩ := h _ _ _ _ _ _ _ _ _ hrows hagg hcomplete
  have hsize := hc.sizes _ (List.mem_filter.mpr ⟨List.mem_singleton.mpr rfl, by decide +kernel⟩)
  cases hsize

end Parquet

end RankLens
