import RankLens.Bootstrap
import RankLens.Comparison

namespace RankLens

namespace Benchmark

open Bootstrap (estimates getElem_mapM item item_mem item_some length_mapM mem_mapM truncate)
open Comparison (Number rounded rounded_mono rounded_nonneg rounded_rounded rounded_twice)

section numbers

/-- A finite float. The counts here have 63 bits, so that no sum or quotient of them overflows. -/
structure Binary64 where
  value : ℚ
  exact : rounded value = value

def Binary64.of (x : ℚ) : Binary64 := ⟨rounded x, rounded_rounded x⟩

/-- A number of a report, an integer or a float. -/
inductive Value where
  | int (n : ℤ)
  | float (x : Binary64)

def Value.exact : Value → ℚ
  | .int n => n
  | .float x => x.value

def Value.toFloat : Value → ℚ
  | .int n => rounded n
  | .float x => x.value

def Value.add : Value → Value → Value
  | .int a, .int b => .int (a + b)
  | a, b => .float (.of (a.toFloat + b.toFloat))

def Value.sub : Value → Value → Value
  | .int a, .int b => .int (a - b)
  | a, b => .float (.of (a.toFloat - b.toFloat))

def Value.times (v : Value) (x : ℚ) : Value := .float (.of (v.toFloat * x))

def Value.half (v : Value) : Value := .float (.of (v.exact / 2))

/-- `low + (high - low) * part`. -/
def between (low high : Value) (part : ℚ) : Value := low.add ((high.sub low).times part)

def middle (low high : Value) : Value := (low.add high).half

def sorted (values : List Value) : List Value :=
  values.insertionSort (fun a b => a.exact ≤ b.exact)

def percentile (values : List Value) (p : ℚ) : Option Value :=
  if values = [] then some (.float (.of 0))
  else
    let ordered := sorted values
    if ordered.length = 1 then item ordered 0
    else
      let rank := rounded ((ordered.length - 1 : ℕ) * p)
      let lower := ⌊rank⌋
      let upper := ⌈rank⌉
      if lower = upper then item ordered (truncate rank)
      else do
        let low ← item ordered lower
        let high ← item ordered upper
        some (between low high (rounded (rank - lower)))

def median (values : List Value) : Option Value :=
  let data := sorted values
  let half := data.length / 2
  if data.length = 0 then none
  else if data.length % 2 = 1 then item data half
  else do
    let low ← item data (half - 1 : ℕ)
    let high ← item data half
    some (middle low high)

def confidence : ℚ := rounded (95 / 100)

def p95 (sample : List Value) : Option Value := percentile sample confidence

/-- What `random.Random(0).randrange(n)` draws for position `k` of sample `s`. -/
abbrev Draws := ℕ → ℕ → ℕ → ℕ

def bootstrapSamples : ℕ := 5000

def bootstrapInterval (draws : Draws) (values : List Value)
    (statistic : List Value → Option Value) : Option (Value × Value) :=
  if values = [] then some (.float (.of 0), .float (.of 0))
  else do
    let estimates ← estimates values statistic (draws values.length) bootstrapSamples
    let tail := rounded (rounded (1 - confidence) / 2)
    let low ← percentile estimates tail
    let high ← percentile estimates (rounded (1 - tail))
    some (low, high)

end numbers

def negative : Number → Bool
  | .finite q => q < 0
  | .nonfinite => true

def positive : Number → Bool
  | .finite q => 0 < q
  | .nonfinite => false

structure Parameters where
  command : List String
  output : String
  repeats : ℤ
  timeout : Number
  warmups : ℤ
  mode : String
  requireOutputMatch : Bool
  maxMedianOverheadPercent : Option Number
  maxP95OverheadPercent : Option Number
  maxMedianAddedTimeMs : Option Number
  maxP95AddedTimeMs : Option Number

def Parameters.budgets (p : Parameters) : List (Option Number) :=
  [p.maxMedianOverheadPercent, p.maxP95OverheadPercent, p.maxMedianAddedTimeMs,
    p.maxP95AddedTimeMs]

def invalidParameters : String :=
  "provide a command, 2–100 repeats, 0–20 warmups, positive finite timeout, and valid mode"

def validate (p : Parameters) : Except String Unit :=
  if p.command = [] ∨ p.repeats < 2 ∨ 100 < p.repeats ∨ p.warmups < 0 ∨ 20 < p.warmups ∨
      positive p.timeout = false ∨ p.mode ∉ ["summary", "detail"] then
    .error invalidParameters
  else if p.budgets.any (fun budget => budget.any negative) then
    .error "overhead budgets must be finite non-negative percentages"
  else .ok ()

/-- A difference of `perf_counter_ns`, which counts in 63 bits. -/
abbrev Nanoseconds := Fin (2 ^ 63)

/-- What came of one launch of the command: its outputs by their digests, and
whether the capture of an instrumented one is complete. -/
structure Launch where
  returncode : ℤ
  elapsedNs : Nanoseconds
  stdoutSha256 : String
  stderrSha256 : String
  complete : Bool

structure Trial where
  trial : ℕ
  instrumented : Bool
  elapsedNs : Nanoseconds
  stdoutSha256 : String
  stderrSha256 : String
deriving DecidableEq, Repr

def directory (output kind : String) (index : ℕ) (instrumented : Bool) : String :=
  output ++ "/" ++ kind ++ "-" ++ toString index ++ "-" ++
    (if instrumented then "instrumented" else "baseline")

/-- How `subprocess.run` ends, by kind, index and whether it is instrumented. -/
abbrev Launcher := String → ℕ → Bool → Except String Launch

def runSample (output : String) (launch : Launcher) (kind : String) (index : ℕ)
    (instrumented : Bool) : Except String Trial :=
  match launch kind index instrumented with
  | .error e => .error e
  | .ok completed =>
    if completed.returncode ≠ 0 then
      .error ("benchmark " ++ kind ++ " failed (" ++ toString completed.returncode ++
        "); inspect " ++ directory output kind index instrumented)
    else if instrumented = true ∧ completed.complete = false then
      .error ("benchmark capture incomplete: " ++ directory output kind index instrumented)
    else
      .ok ⟨index, instrumented, completed.elapsedNs, completed.stdoutSha256,
        completed.stderrSha256⟩

def order (index : ℕ) : List Bool := if index % 2 = 0 then [false, true] else [true, false]

/-- The launches of `count` pairs, in their order. -/
def schedule (count : ℕ) : List (ℕ × Bool) :=
  (List.range count).flatMap (fun index => (order index).map (fun b => (index, b)))

def runSamples (output : String) (launch : Launcher) (kind : String) :
    List (ℕ × Bool) → Except String (List Trial)
  | [] => .ok []
  | (index, instrumented) :: rest =>
    match runSample output launch kind index instrumented with
    | .error e => .error e
    | .ok sample =>
      match runSamples output launch kind rest with
      | .error e => .error e
      | .ok samples => .ok (sample :: samples)

/-- `next(...)` over the trials. -/
def sampleOf (trials : List Trial) (trial : ℕ) (instrumented : Bool) : Option Trial :=
  trials.find? (fun t => t.trial == trial && t.instrumented == instrumented)

def overheadPercent (baseline measured : ℕ) : Value :=
  .float (.of (rounded (rounded ((measured : ℚ) / baseline) - 1) * 100))

/-- The overhead of a pair, and none when the baseline took no time. -/
def pairedOverhead (trials : List Trial) (trial : ℕ) : Option Value := do
  let baseline ← sampleOf trials trial false
  let measured ← sampleOf trials trial true
  if baseline.elapsedNs = 0 then none
  else some (overheadPercent baseline.elapsedNs measured.elapsedNs)

def pairedAddedTime (trials : List Trial) (trial : ℕ) : Option Value := do
  let baseline ← sampleOf trials trial false
  let measured ← sampleOf trials trial true
  some (.int ((measured.elapsedNs : ℕ) - (baseline.elapsedNs : ℕ)))

def pairedOutputMatch (trials : List Trial) (trial : ℕ) : Option Bool := do
  let baseline ← sampleOf trials trial false
  let measured ← sampleOf trials trial true
  some (baseline.stdoutSha256 == measured.stdoutSha256 &&
    baseline.stderrSha256 == measured.stderrSha256)

structure Report where
  warmups : List Trial
  trials : List Trial
  pairedOverheadPercent : List Value
  pairedAddedTimeNs : List Value
  medianInterval : Value × Value
  p95Interval : Value × Value
  medianAddedInterval : Value × Value
  p95AddedInterval : Value × Value
  pairedOutputMatch : List Bool

def report (draws : Draws) (repeats : ℕ) (warmups trials : List Trial) : Option Report := do
  let overheads ← (List.range repeats).mapM (pairedOverhead trials)
  let added ← (List.range repeats).mapM (pairedAddedTime trials)
  let medianInterval ← bootstrapInterval draws overheads median
  let p95Interval ← bootstrapInterval draws overheads p95
  let medianAddedInterval ← bootstrapInterval draws added median
  let p95AddedInterval ← bootstrapInterval draws added p95
  let outputMatch ← (List.range repeats).mapM (pairedOutputMatch trials)
  some ⟨warmups, trials, overheads, added, medianInterval, p95Interval, medianAddedInterval,
    p95AddedInterval, outputMatch⟩

/-- `limit * 1_000_000`, which may be infinite. -/
def nanoseconds : Number → Number
  | .finite limit => (Comparison.finite (limit * 1000000)).elim .nonfinite .finite
  | .nonfinite => .nonfinite

/-- The upper end of an interval is within a budget, when there is one. -/
def within (budget : Option Number) (interval : Value × Value) : Bool :=
  match budget with
  | some (.finite limit) => interval.2.exact ≤ limit
  -- `validate` leaves no other budget that is not finite than a product that is infinite
  | _ => true

def minimumBudgetRepeats : ℤ := 5

def passed (p : Parameters) (r : Report) : Bool :=
  (!p.budgets.any Option.isSome || minimumBudgetRepeats ≤ p.repeats) &&
    (!p.requireOutputMatch || r.pairedOutputMatch.all id) &&
    within p.maxMedianOverheadPercent r.medianInterval &&
    within p.maxP95OverheadPercent r.p95Interval &&
    within (p.maxMedianAddedTimeMs.map nanoseconds) r.medianAddedInterval &&
    within (p.maxP95AddedTimeMs.map nanoseconds) r.p95AddedInterval

def benchmark (draws : Draws) (p : Parameters) (launch : Launcher) : Except String Report :=
  match validate p with
  | .error e => .error e
  | .ok () =>
    match runSamples p.output launch "warmup" (schedule p.warmups.toNat) with
    | .error e => .error e
    | .ok warmups =>
      match runSamples p.output launch "trial" (schedule p.repeats.toNat) with
      | .error e => .error e
      | .ok trials =>
        match report draws p.repeats.toNat warmups trials with
        | none => .error "division by zero"
        | some r =>
          if passed p r = true then .ok r
          else
            .error ("benchmark acceptance gate failed or evidence was inconclusive; inspect " ++
              p.output ++ "/benchmark.json")

section statistics

variable {values : List Value} {x low high : Value} {p : ℚ}

theorem toFloat_eq (v : Value) : v.toFloat = rounded v.exact := by
  cases v with
  | int n => rfl
  | float x => exact x.exact.symm

/-- A statistic of some values is one of them, or lies on the way from one to a higher one. -/
inductive Reads (values : List Value) : Value → Prop where
  | item {x : Value} : x ∈ values → Reads values x
  | middle {low high : Value} : low ∈ values → high ∈ values → Reads values (middle low high)
  | between {low high : Value} {part : ℚ} : low ∈ values → high ∈ values →
      low.exact ≤ high.exact → 0 ≤ part → Reads values (between low high part)

/-- Of any number of values that an interval is taken of, there is such a statistic. -/
def Reading (statistic : List Value → Option Value) : Prop :=
  ∀ values, values ≠ [] → values.length ≤ 5000 →
    ∃ x, statistic values = some x ∧ Reads values x

theorem sorted_perm (values : List Value) : (sorted values).Perm values :=
  List.perm_insertionSort _ values

theorem sorted_pairwise (values : List Value) :
    (sorted values).Pairwise (fun a b => a.exact ≤ b.exact) := by
  have total : Std.Total (fun a b : Value => a.exact ≤ b.exact) := ⟨fun a b => le_total _ _⟩
  have transitive : IsTrans Value (fun a b => a.exact ≤ b.exact) := ⟨fun _ _ _ => le_trans⟩
  exact List.pairwise_insertionSort _ values

theorem item_sorted {i : ℤ} (h : item (sorted values) i = some x) : x ∈ values :=
  (sorted_perm values).subset (item_mem h)

/-- Of two items of the sorted values, the later one is not lower. -/
theorem item_le {i j : ℤ} (hi : 0 ≤ i) (hij : i ≤ j) (hlow : item (sorted values) i = some low)
    (hhigh : item (sorted values) j = some high) : low.exact ≤ high.exact := by
  rw [item, if_pos hi] at hlow
  rw [item, if_pos (hi.trans hij)] at hhigh
  obtain ⟨ilt, rfl⟩ := List.getElem?_eq_some_iff.mp hlow
  obtain ⟨jlt, rfl⟩ := List.getElem?_eq_some_iff.mp hhigh
  obtain same | less := (Int.toNat_le_toNat hij).eq_or_lt
  · simp only [same, le_refl]
  · exact List.pairwise_iff_getElem.mp (sorted_pairwise values) _ _ ilt jlt less

theorem percentile_reading (hlow : 0 ≤ p) (hhigh : p ≤ 1) : Reading (percentile · p) := by
  intro values hne hlength
  have positive := List.length_pos_of_ne_nil hne
  have long := (sorted_perm values).length_eq
  change ∃ x, percentile values p = some x ∧ Reads values x
  unfold percentile
  rw [if_neg hne]
  dsimp only
  rw [long]
  generalize hrank : rounded ((values.length - 1 : ℕ) * p) = rank
  have wide : (0 : ℚ) ≤ (values.length - 1 : ℕ) := Nat.cast_nonneg _
  have first : 0 ≤ rank := hrank ▸ rounded_nonneg (mul_nonneg wide hlow)
  have last : rank ≤ (values.length - 1 : ℕ) :=
    hrank ▸ Comparison.rounded_le_natural (by omega) (mul_nonneg wide hlow)
      (mul_le_of_le_one_right wide hhigh)
  have bottom : 0 ≤ ⌊rank⌋ := Int.floor_nonneg.mpr first
  have top : ⌈rank⌉ ≤ (values.length - 1 : ℕ) := Int.ceil_le.mpr (by exact_mod_cast last)
  have order := Int.floor_le_ceil rank
  split_ifs with single same
  · obtain ⟨x, hx, -⟩ := @item_some 0 Value (sorted values) le_rfl (by omega)
    exact ⟨x, hx, .item (item_sorted hx)⟩
  · have whole : truncate rank = ⌊rank⌋ := if_pos first
    rw [whole]
    obtain ⟨x, hx, -⟩ := @item_some ⌊rank⌋ Value (sorted values) bottom (by omega)
    exact ⟨x, hx, .item (item_sorted hx)⟩
  · obtain ⟨low, hl, -⟩ := @item_some ⌊rank⌋ Value (sorted values) bottom (by omega)
    obtain ⟨high, hh, -⟩ := @item_some ⌈rank⌉ Value (sorted values) (by omega) (by omega)
    refine ⟨between low high _, ?_, .between (item_sorted hl) (item_sorted hh)
      (item_le bottom order hl hh) (rounded_nonneg (sub_nonneg.mpr (Int.floor_le rank)))⟩
    rw [hl, hh]
    rfl

theorem median_reading : Reading median := by
  intro values hne _
  have positive := List.length_pos_of_ne_nil hne
  have long := (sorted_perm values).length_eq
  unfold median
  simp only [long, Nat.ne_of_gt positive, if_false]
  split_ifs with odd
  · obtain ⟨x, hx, -⟩ := @item_some ((values.length / 2 : ℕ) : ℤ) Value (sorted values)
      (by omega) (by omega)
    exact ⟨x, hx, .item (item_sorted hx)⟩
  · obtain ⟨low, hl, -⟩ := @item_some ((values.length / 2 - 1 : ℕ) : ℤ) Value (sorted values)
      (by omega) (by omega)
    obtain ⟨high, hh, -⟩ := @item_some ((values.length / 2 : ℕ) : ℤ) Value (sorted values)
      (by omega) (by omega)
    refine ⟨middle low high, ?_, .middle (item_sorted hl) (item_sorted hh)⟩
    rw [hl, hh]
    rfl

theorem rounded_le_one {x : ℚ} (hx : 0 ≤ x) (h : x ≤ 1) : rounded x ≤ 1 := by
  have whole : ((1 : ℕ) : ℚ) = 1 := Nat.cast_one
  have bounded := @Comparison.rounded_le_natural x 1 (by norm_num) hx (by rw [whole]; exact h)
  rwa [whole] at bounded

theorem confidence_inside : 0 ≤ confidence ∧ confidence ≤ 1 :=
  ⟨rounded_nonneg (by norm_num), rounded_le_one (by norm_num) (by norm_num)⟩

theorem p95_reading : Reading p95 :=
  percentile_reading confidence_inside.1 confidence_inside.2

/-- What is true of some values is true of what a statistic reads of them. -/
def Closed (P : Value → Prop) : Prop :=
  ∀ values, (∀ v ∈ values, P v) → ∀ x, Reads values x → P x

theorem exact_add_float (v : Value) (x : Binary64) :
    (v.add (.float x)).exact = rounded (rounded v.exact + x.value) := by
  rw [← toFloat_eq]
  cases v <;> rfl

theorem toFloat_sub (v w : Value) : (v.sub w).toFloat = rounded (v.toFloat - w.toFloat) ∨
    (v.sub w).toFloat = rounded (v.exact - w.exact) := by
  cases v with
  | float x => exact .inl rfl
  | int a =>
    cases w with
    | float y => exact .inl rfl
    | int b =>
      refine .inr ?_
      change rounded ((a - b : ℤ) : ℚ) = rounded ((a : ℚ) - b)
      rw [Int.cast_sub]

theorem exact_add (v w : Value) : (v.add w).exact = rounded (v.toFloat + w.toFloat) ∨
    (v.add w).exact = v.exact + w.exact := by
  cases v with
  | float x => exact .inl rfl
  | int a =>
    cases w with
    | float y => exact .inl rfl
    | int b => exact .inr (Int.cast_add a b)

theorem above_closed {m : ℚ} (hm : rounded m = m) : Closed (fun v => m ≤ rounded v.exact) := by
  intro values habove x hx
  cases hx with
  | item h => exact habove _ h
  | @middle low high hl hh =>
    have hlow := habove low hl
    have hhigh := habove high hh
    change m ≤ rounded (rounded ((low.add high).exact / 2))
    rw [rounded_rounded]
    obtain h | h := exact_add low high
    · have floats : m + m ≤ rounded (low.toFloat + high.toFloat) := by
        rw [toFloat_eq, toFloat_eq, ← rounded_twice hm]
        exact rounded_mono (add_le_add hlow hhigh)
      rw [h, ← hm]
      exact rounded_mono (by linarith)
    · -- the mean of two integers is not below the lower of them
      rw [h]
      obtain horder | horder := le_total low.exact high.exact
      · exact hlow.trans (rounded_mono (by linarith))
      · exact hhigh.trans (rounded_mono (by linarith))
  | @between low high part hl hh horder hpart =>
    have difference : 0 ≤ (high.sub low).toFloat := by
      obtain h | h := toFloat_sub high low
      · rw [h, toFloat_eq, toFloat_eq]
        exact rounded_nonneg (sub_nonneg.mpr (rounded_mono horder))
      · rw [h]
        exact rounded_nonneg (sub_nonneg.mpr horder)
    have step : 0 ≤ rounded ((high.sub low).toFloat * part) :=
      rounded_nonneg (mul_nonneg difference hpart)
    rw [between, Value.times, exact_add_float, rounded_rounded]
    refine (habove low hl).trans ?_
    rw [← rounded_rounded low.exact]
    refine rounded_mono ?_
    rw [rounded_rounded]
    exact le_add_of_nonneg_right step

def IsFloat (v : Value) : Prop := ∃ x, v = .float x

theorem isFloat_closed : Closed IsFloat := by
  intro values hfloats x hx
  cases hx with
  | item h => exact hfloats _ h
  | middle => exact ⟨_, rfl⟩
  | @between low high part hl =>
    obtain ⟨x, rfl⟩ := hfloats low hl
    exact ⟨_, rfl⟩

theorem same_closed {q : ℚ} (hq : rounded q = q) : Closed (fun v => v.exact = q) := by
  intro values hsame x hx
  cases hx with
  | item h => exact hsame _ h
  | @middle low high hl hh =>
    have sum : (low.add high).exact = q + q := by
      obtain h | h := exact_add low high
      · rw [h, toFloat_eq, toFloat_eq, hsame low hl, hsame high hh, hq, rounded_twice hq]
      · rw [h, hsame low hl, hsame high hh]
    change rounded ((low.add high).exact / 2) = q
    rw [sum, add_self_div_two, hq]
  | @between low high part hl hh =>
    have difference : (high.sub low).toFloat = 0 := by
      obtain h | h := toFloat_sub high low
      · rw [h, toFloat_eq, toFloat_eq, hsame low hl, hsame high hh, sub_self,
          Comparison.rounded_zero]
      · rw [h, hsame low hl, hsame high hh, sub_self, Comparison.rounded_zero]
    rw [between, Value.times, exact_add_float, hsame low hl, hq, difference]
    change rounded (q + rounded (0 * part)) = q
    rw [zero_mul, Comparison.rounded_zero, add_zero, hq]

end statistics

section interval

variable {draws : Draws} {values : List Value} {statistic : List Value → Option Value}
  {interval : Value × Value} {P : Value → Prop}

theorem tail_inside : (0 ≤ rounded (rounded (1 - confidence) / 2) ∧
    rounded (rounded (1 - confidence) / 2) ≤ 1) ∧
    0 ≤ rounded (1 - rounded (rounded (1 - confidence) / 2)) ∧
    rounded (1 - rounded (rounded (1 - confidence) / 2)) ≤ 1 := by
  obtain ⟨low, high⟩ := confidence_inside
  have rest := rounded_nonneg (sub_nonneg.mpr high)
  have rest' := rounded_le_one (sub_nonneg.mpr high) (by linarith)
  have tail := rounded_nonneg (div_nonneg rest zero_le_two)
  have tail' := rounded_le_one (div_nonneg rest zero_le_two) (by linarith)
  exact ⟨⟨tail, tail'⟩, rounded_nonneg (sub_nonneg.mpr tail'),
    rounded_le_one (sub_nonneg.mpr tail') (by linarith)⟩

theorem interval_closed (hstatistic : Reading statistic) (hclosed : Closed P)
    (hlength : values.length ≤ 5000) (hne : values ≠ []) (hvalues : ∀ v ∈ values, P v)
    (h : bootstrapInterval draws values statistic = some interval) :
    P interval.1 ∧ P interval.2 := by
  rw [bootstrapInterval, if_neg hne] at h
  obtain ⟨es, hes, h⟩ := Option.bind_eq_some_iff.mp h
  obtain ⟨low, hlow, h⟩ := Option.bind_eq_some_iff.mp h
  obtain ⟨high, hhigh, h⟩ := Option.bind_eq_some_iff.mp h
  obtain rfl := Option.some.inj h
  have count : es.length = 5000 := by
    rw [length_mapM hes, List.length_range]
    rfl
  have some : es ≠ [] := by
    rw [← List.length_pos_iff]
    omega
  have estimated : ∀ e ∈ es, P e := by
    intro e he
    obtain ⟨s, -, hs⟩ := mem_mapM hes he
    obtain ⟨sample, hsample, hs⟩ := Option.bind_eq_some_iff.mp hs
    have size : sample.length = values.length := by rw [length_mapM hsample, List.length_range]
    have drawn : ∀ v ∈ sample, P v := by
      intro v hv
      obtain ⟨k, -, hk⟩ := mem_mapM hsample hv
      exact hvalues v (item_mem hk)
    have filled : sample ≠ [] := by
      rw [← List.length_pos_iff, size]
      exact List.length_pos_of_ne_nil hne
    obtain ⟨x, hx, reads⟩ := hstatistic sample filled (size.trans_le hlength)
    obtain rfl := Option.some.inj (hx.symm.trans hs)
    exact hclosed sample drawn x reads
  obtain ⟨⟨tail, tail'⟩, rest, rest'⟩ := tail_inside
  obtain ⟨x, hx, reads⟩ := percentile_reading tail tail' es some count.le
  obtain ⟨y, hy, reads'⟩ := percentile_reading rest rest' es some count.le
  obtain rfl := Option.some.inj (hx.symm.trans hlow)
  obtain rfl := Option.some.inj (hy.symm.trans hhigh)
  exact ⟨hclosed es estimated x reads, hclosed es estimated y reads'⟩

def Drawn (draws : Draws) : Prop := ∀ n s k, k < n → draws n s k < n

theorem interval_some (hdraws : Drawn draws) (hstatistic : Reading statistic)
    (hlength : values.length ≤ 5000) (hne : values ≠ []) :
    ∃ interval, bootstrapInterval draws values statistic = some interval := by
  have estimated : ∀ ys : List Value, ys.length = values.length → (∀ y ∈ ys, y ∈ values) →
      ∃ e, statistic ys = some e ∧ True := by
    intro ys size _
    have filled : ys ≠ [] := by
      rw [← List.length_pos_iff, size]
      exact List.length_pos_of_ne_nil hne
    obtain ⟨e, he, -⟩ := hstatistic ys filled (size.trans_le hlength)
    exact ⟨e, he, trivial⟩
  obtain ⟨es, hes, count, -⟩ := @Bootstrap.estimates_some (draws values.length) Value values
    statistic (fun _ => True) bootstrapSamples estimated
    (fun s _ k hk => hdraws values.length s k hk)
  have count' : es.length = 5000 := count
  have some : es ≠ [] := by
    rw [← List.length_pos_iff]
    omega
  obtain ⟨⟨tail, tail'⟩, rest, rest'⟩ := tail_inside
  obtain ⟨x, hx, -⟩ := percentile_reading tail tail' es some count'.le
  obtain ⟨y, hy, -⟩ := percentile_reading rest rest' es some count'.le
  refine ⟨(x, y), ?_⟩
  rw [bootstrapInterval, if_neg hne]
  simp only [hes, hx, hy, Option.bind_eq_bind, Option.bind_some]

theorem exists_below (hstatistic : Reading statistic) (hlength : values.length ≤ 5000)
    (hne : values ≠ []) (h : bootstrapInterval draws values statistic = some interval) :
    ∃ v ∈ values, rounded v.exact ≤ rounded interval.2.exact := by
  obtain ⟨v, hv, least⟩ := Set.exists_min_image {v | v ∈ values} Value.exact
    values.finite_toSet (List.exists_mem_of_ne_nil values hne)
  refine ⟨v, hv, ?_⟩
  exact (interval_closed hstatistic (above_closed (rounded_rounded v.exact)) hlength hne
    (fun w hw => rounded_mono (least w hw)) h).2

end interval

section launches

variable {output kind : String} {launch : Launcher} {trials : List Trial} {t : Trial}

/-- A trial of a launch that succeeded, with a complete capture if it was instrumented. -/
structure Ran (launch : Launcher) (kind : String) (t : Trial) (l : Launch) : Prop where
  launched : launch kind t.trial t.instrumented = .ok l
  returncode : l.returncode = 0
  complete : t.instrumented = true → l.complete = true
  elapsed : t.elapsedNs = l.elapsedNs
  outputs : t.stdoutSha256 = l.stdoutSha256 ∧ t.stderrSha256 = l.stderrSha256

theorem runSample_ran {index : ℕ} {instrumented : Bool}
    (h : runSample output launch kind index instrumented = .ok t) :
    t.trial = index ∧ t.instrumented = instrumented ∧ ∃ l, Ran launch kind t l := by
  unfold runSample at h
  split at h
  · cases h
  next l hl =>
    split at h
    · cases h
    next hcode =>
      split at h
      · cases h
      next hcomplete =>
        obtain rfl := Except.ok.inj h
        refine ⟨rfl, rfl, l, hl, not_not.mp hcode, fun hinstrumented => ?_, rfl, rfl, rfl⟩
        by_contra hpartial
        exact hcomplete ⟨hinstrumented, Bool.eq_false_iff.mpr hpartial⟩

theorem runSamples_ran {pairs : List (ℕ × Bool)}
    (h : runSamples output launch kind pairs = .ok trials) :
    trials.map (fun t => (t.trial, t.instrumented)) = pairs ∧
      ∀ t ∈ trials, ∃ l, Ran launch kind t l := by
  induction pairs generalizing trials with
  | nil =>
    obtain rfl := Except.ok.inj h
    exact ⟨rfl, fun t ht => absurd ht List.not_mem_nil⟩
  | cons pair rest ih =>
    rw [runSamples] at h
    split at h
    · cases h
    next sample hsample =>
      split at h
      · cases h
      next samples hsamples =>
        obtain rfl := Except.ok.inj h
        obtain ⟨htrial, hinstrumented, hran⟩ := runSample_ran hsample
        obtain ⟨hpairs, hall⟩ := ih hsamples
        refine ⟨?_, List.forall_mem_cons.mpr ⟨hran, hall⟩⟩
        rw [List.map_cons, hpairs, htrial, hinstrumented]

theorem sampleOf_some {index : ℕ} {instrumented : Bool}
    (h : sampleOf trials index instrumented = some t) :
    t ∈ trials ∧ t.trial = index ∧ t.instrumented = instrumented := by
  have found := List.find?_some h
  rw [Bool.and_eq_true, beq_iff_eq, beq_iff_eq] at found
  exact ⟨List.mem_of_find?_eq_some h, found⟩

end launches

section gate

variable {draws : Draws} {p : Parameters} {launch : Launcher} {r : Report}

/-- The values of a report are those of its trials, and its intervals are theirs. -/
structure Reported (draws : Draws) (repeats : ℕ) (trials : List Trial) (r : Report) : Prop where
  overheads : (List.range repeats).mapM (pairedOverhead trials) = some r.pairedOverheadPercent
  added : (List.range repeats).mapM (pairedAddedTime trials) = some r.pairedAddedTimeNs
  medianInterval : bootstrapInterval draws r.pairedOverheadPercent median = some r.medianInterval
  p95Interval : bootstrapInterval draws r.pairedOverheadPercent p95 = some r.p95Interval
  medianAdded : bootstrapInterval draws r.pairedAddedTimeNs median = some r.medianAddedInterval
  p95Added : bootstrapInterval draws r.pairedAddedTimeNs p95 = some r.p95AddedInterval
  outputs : (List.range repeats).mapM (pairedOutputMatch trials) = some r.pairedOutputMatch

theorem report_iff {repeats : ℕ} {warmups trials : List Trial} :
    report draws repeats warmups trials = some r ↔
      r.warmups = warmups ∧ r.trials = trials ∧ Reported draws repeats trials r := by
  constructor
  · intro h
    obtain ⟨overheads, ho, h⟩ := Option.bind_eq_some_iff.mp h
    obtain ⟨added, ha, h⟩ := Option.bind_eq_some_iff.mp h
    obtain ⟨iv₁, h₁, h⟩ := Option.bind_eq_some_iff.mp h
    obtain ⟨iv₂, h₂, h⟩ := Option.bind_eq_some_iff.mp h
    obtain ⟨iv₃, h₃, h⟩ := Option.bind_eq_some_iff.mp h
    obtain ⟨iv₄, h₄, h⟩ := Option.bind_eq_some_iff.mp h
    obtain ⟨outputs, hm, h⟩ := Option.bind_eq_some_iff.mp h
    obtain rfl := Option.some.inj h
    exact ⟨rfl, rfl, ho, ha, h₁, h₂, h₃, h₄, hm⟩
  · rintro ⟨rfl, rfl, h⟩
    simp only [report, h.overheads, h.added, h.medianInterval, h.p95Interval, h.medianAdded,
      h.p95Added, h.outputs, Option.bind_eq_bind, Option.bind_some]

/-- What an accepted benchmark went through. -/
structure Accepted (draws : Draws) (p : Parameters) (launch : Launcher) (r : Report) : Prop where
  valid : validate p = .ok ()
  warmups : runSamples p.output launch "warmup" (schedule p.warmups.toNat) = .ok r.warmups
  trials : runSamples p.output launch "trial" (schedule p.repeats.toNat) = .ok r.trials
  report : report draws p.repeats.toNat r.warmups r.trials = some r
  passed : passed p r = true

theorem benchmark_iff : benchmark draws p launch = .ok r ↔ Accepted draws p launch r := by
  constructor
  · intro h
    unfold benchmark at h
    split at h
    · cases h
    split at h
    · cases h
    split at h
    · cases h
    split at h
    · cases h
    split at h
    next hvalid _ warmups hwarmups _ trials htrials _ r' hreport hpassed =>
      obtain rfl := Except.ok.inj h
      obtain ⟨rfl, rfl, -⟩ := report_iff.mp hreport
      exact ⟨hvalid, hwarmups, htrials, hreport, hpassed⟩
    · cases h
  · intro h
    simp only [benchmark, h.valid, h.warmups, h.trials, h.report, h.passed, if_true]

theorem repeats_between (h : validate p = .ok ()) :
    2 ≤ p.repeats.toNat ∧ p.repeats.toNat ≤ 100 := by
  unfold validate at h
  split at h
  · cases h
  · next hnot =>
    have hlow : ¬p.repeats < 2 := fun hlt => hnot (Or.inr (Or.inl hlt))
    have hhigh : ¬100 < p.repeats := fun hlt => hnot (Or.inr (Or.inr (Or.inl hlt)))
    omega

/-- The numbers of a pair of launches in the report. -/
structure Paired (r : Report) (i : ℕ) (baseline measured : Launch) : Prop where
  timed : baseline.elapsedNs ≠ 0
  overhead : r.pairedOverheadPercent[i]? =
    some (overheadPercent baseline.elapsedNs measured.elapsedNs)
  added : r.pairedAddedTimeNs[i]? =
    some (.int ((measured.elapsedNs : ℕ) - (baseline.elapsedNs : ℕ)))
  outputs : r.pairedOutputMatch[i]? = some (baseline.stdoutSha256 == measured.stdoutSha256 &&
    baseline.stderrSha256 == measured.stderrSha256)

/-- What an accepted benchmark vouches for. -/
structure Vouched (launch : Launcher) (p : Parameters) (r : Report) : Prop where
  warmups : r.warmups.map (fun t => (t.trial, t.instrumented)) = schedule p.warmups.toNat ∧
    ∀ t ∈ r.warmups, ∃ l, Ran launch "warmup" t l
  trials : r.trials.map (fun t => (t.trial, t.instrumented)) = schedule p.repeats.toNat ∧
    ∀ t ∈ r.trials, ∃ l, Ran launch "trial" t l
  pairs : ∀ i < p.repeats.toNat, ∃ baseline measured, launch "trial" i false = .ok baseline ∧
    launch "trial" i true = .ok measured ∧ Paired r i baseline measured
  lengths : r.pairedOverheadPercent.length = p.repeats.toNat ∧
    r.pairedAddedTimeNs.length = p.repeats.toNat ∧
    r.pairedOutputMatch.length = p.repeats.toNat
  conclusive : p.budgets.any Option.isSome = true → 5 ≤ p.repeats
  outputs : p.requireOutputMatch = true → ∀ b ∈ r.pairedOutputMatch, b = true
  overhead : ∀ limit, p.maxMedianOverheadPercent = some (.finite limit) ∨
    p.maxP95OverheadPercent = some (.finite limit) →
    ∃ v ∈ r.pairedOverheadPercent, v.exact ≤ limit
  added : ∀ limit, p.maxMedianAddedTimeMs = some limit ∨ p.maxP95AddedTimeMs = some limit →
    ∀ most, nanoseconds limit = .finite most →
      ∃ v ∈ r.pairedAddedTimeNs, rounded v.exact ≤ most

theorem paired_of_reported {trials : List Trial} {n : ℕ} (h : Reported draws n trials r)
    (hran : ∀ t ∈ trials, ∃ l, Ran launch "trial" t l) {i : ℕ} (hi : i < n) :
    ∃ baseline measured, launch "trial" i false = .ok baseline ∧
      launch "trial" i true = .ok measured ∧ Paired r i baseline measured := by
  have inside : (List.range n)[i]? = some i := by
    rw [List.getElem?_range hi]
  have overhead := getElem_mapM h.overheads i
  have added := getElem_mapM h.added i
  have outputs := getElem_mapM h.outputs i
  rw [inside, Option.bind_some] at overhead added outputs
  have present : i < r.pairedOverheadPercent.length := by
    rw [length_mapM h.overheads, List.length_range]
    exact hi
  obtain ⟨v, hv⟩ : ∃ v, r.pairedOverheadPercent[i]? = some v :=
    ⟨_, List.getElem?_eq_getElem present⟩
  obtain ⟨b, hb, hrest⟩ := Option.bind_eq_some_iff.mp (overhead.symm.trans hv)
  obtain ⟨m, hm, hrest⟩ := Option.bind_eq_some_iff.mp hrest
  split at hrest
  · cases hrest
  next htimed =>
    obtain ⟨hbmem, rfl, hplain⟩ := sampleOf_some hb
    obtain ⟨hmmem, hsame, htraced⟩ := sampleOf_some hm
    obtain ⟨baseline, hbaseline⟩ := hran b hbmem
    obtain ⟨measured, hmeasured⟩ := hran m hmmem
    have hlaunch := hbaseline.launched
    have hlaunch' := hmeasured.launched
    rw [hplain] at hlaunch
    rw [hsame, htraced] at hlaunch'
    refine ⟨baseline, measured, hlaunch, hlaunch', ?_, ?_, ?_, ?_⟩
    · rw [← hbaseline.elapsed]
      exact htimed
    · rw [overhead, ← hbaseline.elapsed, ← hmeasured.elapsed]
      simp only [pairedOverhead, hb, hm, Option.bind_eq_bind, Option.bind_some, if_neg htimed]
    · rw [added, ← hbaseline.elapsed, ← hmeasured.elapsed]
      simp only [pairedAddedTime, hb, hm, Option.bind_eq_bind, Option.bind_some]
    · rw [outputs, ← hbaseline.outputs.1, ← hbaseline.outputs.2, ← hmeasured.outputs.1,
        ← hmeasured.outputs.2]
      simp only [pairedOutputMatch, hb, hm, Option.bind_eq_bind, Option.bind_some]

theorem pairedOverhead_float {trials : List Trial} {n : ℕ} {values : List Value}
    (h : (List.range n).mapM (pairedOverhead trials) = some values) : ∀ v ∈ values, IsFloat v := by
  intro v hv
  obtain ⟨i, -, hi⟩ := mem_mapM h hv
  obtain ⟨b, -, hi⟩ := Option.bind_eq_some_iff.mp hi
  obtain ⟨m, -, hi⟩ := Option.bind_eq_some_iff.mp hi
  split at hi
  · cases hi
  · exact ⟨_, (Option.some.inj hi).symm⟩

theorem nanoseconds_float {limit : Number} {most : ℚ} (h : nanoseconds limit = .finite most) :
    rounded most = most := by
  cases limit with
  | nonfinite => cases h
  | finite q =>
    rw [nanoseconds, Comparison.finite] at h
    split at h
    · cases h
    · obtain rfl := Number.finite.inj h
      exact rounded_rounded _

section budgets

variable {values : List Value} {statistic : List Value → Option Value} {interval : Value × Value}

theorem overhead_within (hstatistic : Reading statistic) (hlength : values.length ≤ 5000)
    (hne : values ≠ []) (hfloats : ∀ v ∈ values, IsFloat v)
    (hiv : bootstrapInterval draws values statistic = some interval) {limit : ℚ}
    (hw : within (some (.finite limit)) interval = true) : ∃ v ∈ values, v.exact ≤ limit := by
  obtain ⟨v, hv, hle⟩ := exists_below hstatistic hlength hne hiv
  obtain ⟨-, y, hy⟩ := interval_closed hstatistic isFloat_closed hlength hne hfloats hiv
  obtain ⟨x, rfl⟩ := hfloats v hv
  rw [hy] at hle
  have order : x.value ≤ y.value := by
    rw [← x.exact, ← y.exact]
    exact hle
  have bounded : interval.2.exact ≤ limit := of_decide_eq_true hw
  rw [hy] at bounded
  exact ⟨_, hv, order.trans bounded⟩

theorem added_within (hstatistic : Reading statistic) (hlength : values.length ≤ 5000)
    (hne : values ≠ []) (hiv : bootstrapInterval draws values statistic = some interval)
    {budget : Option Number} {limit : Number} (hbudget : budget = some limit)
    (hw : within (budget.map nanoseconds) interval = true) {most : ℚ}
    (hmost : nanoseconds limit = .finite most) : ∃ v ∈ values, rounded v.exact ≤ most := by
  obtain ⟨v, hv, hle⟩ := exists_below hstatistic hlength hne hiv
  rw [hbudget, Option.map_some, hmost] at hw
  have bounded : interval.2.exact ≤ most := of_decide_eq_true hw
  refine ⟨v, hv, hle.trans ?_⟩
  rw [← nanoseconds_float hmost]
  exact rounded_mono bounded

end budgets

/-- An accepted benchmark ran every launch it is made of, has the outputs it promises, and none of
its budgets is exceeded by every pair. -/
theorem benchmark_vouches (hr : benchmark draws p launch = .ok r) : Vouched launch p r := by
  have ha := benchmark_iff.mp hr
  obtain ⟨-, -, hreport⟩ := report_iff.mp ha.report
  obtain ⟨hfew, hmany⟩ := repeats_between ha.valid
  have trials := runSamples_ran ha.trials
  have counts : r.pairedOverheadPercent.length = p.repeats.toNat := by
    rw [length_mapM hreport.overheads, List.length_range]
  have counts' : r.pairedAddedTimeNs.length = p.repeats.toNat := by
    rw [length_mapM hreport.added, List.length_range]
  have hne : r.pairedOverheadPercent ≠ [] := List.ne_nil_of_length_pos (by omega)
  have hne' : r.pairedAddedTimeNs ≠ [] := List.ne_nil_of_length_pos (by omega)
  have hpassed := ha.passed
  simp only [passed, Bool.and_eq_true] at hpassed
  obtain ⟨⟨⟨⟨⟨hrepeats, houtputs⟩, hb₁⟩, hb₂⟩, hb₃⟩, hb₄⟩ := hpassed
  refine ⟨runSamples_ran ha.warmups, trials, fun i hi => paired_of_reported hreport trials.2 hi,
    ⟨counts, counts', ?_⟩, fun hany => ?_, fun hrequired b hb => ?_, ?_, ?_⟩
  · rw [length_mapM hreport.outputs, List.length_range]
  · rw [hany] at hrepeats
    exact of_decide_eq_true hrepeats
  · rw [hrequired] at houtputs
    exact List.all_eq_true.mp houtputs b hb
  · have hfloats := pairedOverhead_float hreport.overheads
    rintro limit (hlimit | hlimit)
    · rw [hlimit] at hb₁
      exact overhead_within median_reading (by omega) hne hfloats hreport.medianInterval hb₁
    · rw [hlimit] at hb₂
      exact overhead_within p95_reading (by omega) hne hfloats hreport.p95Interval hb₂
  · rintro limit (hlimit | hlimit) most hmost
    · exact added_within median_reading (by omega) hne' hreport.medianAdded hlimit hb₃ hmost
    · exact added_within p95_reading (by omega) hne' hreport.p95Added hlimit hb₄ hmost

end gate

namespace Sample

/-- Five pairs behind a budget of 25 percent for the median, and one of 1 ms. -/
def parameters : Parameters :=
  ⟨["solver", "input.json"], "benchmark", 5, .finite 300, 1, "summary", true,
    some (.finite 25), none, some (.finite 1), none⟩

/-- The command takes 100 ns, and 115 under the collector. -/
def launch : Launcher := fun _ _ instrumented =>
  .ok ⟨0, if instrumented then 115 else 100, "out", "err", true⟩

def draws : Draws := fun n s k => (s + k) % n

theorem drawn : Drawn draws := fun _ _ _ hk => Nat.mod_lt _ (Nat.zero_lt_of_lt hk)

def trials (pairs : ℕ) : List Trial :=
  (schedule pairs).map (fun pair => ⟨pair.1, pair.2, if pair.2 then 115 else 100, "out", "err"⟩)

theorem overhead_small : (overheadPercent 100 115).exact ≤ 25 := by decide +kernel

theorem accepted : ∃ r, benchmark draws parameters launch = .ok r := by
  generalize hoverhead : overheadPercent 100 115 = overhead
  have ho : (List.range 5).mapM (pairedOverhead (trials 5)) =
      some [overhead, overhead, overhead, overhead, overhead] := by
    rw [← hoverhead]
    rfl
  have ha : (List.range 5).mapM (pairedAddedTime (trials 5)) =
      some [.int 15, .int 15, .int 15, .int 15, .int 15] := rfl
  have hm : (List.range 5).mapM (pairedOutputMatch (trials 5)) =
      some [true, true, true, true, true] := by
    decide +kernel
  have many : ∀ v : Value, [v, v, v, v, v].length ≤ 5000 := fun v => by simp
  have all : ∀ v : Value, ∀ w ∈ [v, v, v, v, v], w.exact = v.exact := by
    intro v w hw
    simp only [List.mem_cons, List.not_mem_nil, or_false, or_self] at hw
    rw [hw]
  have hne : ∀ v : Value, [v, v, v, v, v] ≠ [] := fun v => List.cons_ne_nil _ _
  obtain ⟨iv₁, h₁⟩ := interval_some drawn median_reading (many overhead) (hne overhead)
  obtain ⟨iv₂, h₂⟩ := interval_some drawn p95_reading (many overhead) (hne overhead)
  obtain ⟨iv₃, h₃⟩ := interval_some drawn median_reading (many (.int 15)) (hne (.int 15))
  obtain ⟨iv₄, h₄⟩ := interval_some drawn p95_reading (many (.int 15)) (hne (.int 15))
  have hfloat : rounded overhead.exact = overhead.exact := by
    rw [← hoverhead]
    exact rounded_rounded _
  have hwhole : rounded 15 = 15 := by decide +kernel
  have same := (interval_closed median_reading (same_closed hfloat) (many overhead)
    (hne overhead) (all overhead) h₁).2
  have same' := (interval_closed median_reading (same_closed hwhole) (many (.int 15))
    (hne (.int 15)) (all (.int 15)) h₃).2
  have hbudget : within parameters.maxMedianOverheadPercent iv₁ = true := by
    refine decide_eq_true ?_
    rw [same, ← hoverhead]
    exact overhead_small
  have hbudget' : within (parameters.maxMedianAddedTimeMs.map nanoseconds) iv₃ = true := by
    have product : nanoseconds (.finite 1) = .finite (rounded (1 * 1000000)) := by
      rw [nanoseconds, Comparison.finite_small (by norm_num)]
      rfl
    rw [parameters, Option.map_some, product]
    refine decide_eq_true ?_
    rw [same', ← hwhole]
    exact rounded_mono (by norm_num)
  refine ⟨⟨trials 1, trials 5, _, _, iv₁, iv₂, iv₃, iv₄, _⟩,
    benchmark_iff.mpr ⟨rfl, rfl, rfl, report_iff.mpr ⟨rfl, rfl, ho, ha, h₁, h₂, h₃, h₄, hm⟩, ?_⟩⟩
  rw [passed, hbudget, hbudget']
  rfl

end Sample

theorem benchmark_vouches_sample : ∃ r,
    benchmark Sample.draws Sample.parameters Sample.launch = .ok r ∧
      Vouched Sample.launch Sample.parameters r := by
  obtain ⟨r, hr⟩ := Sample.accepted
  exact ⟨r, hr, benchmark_vouches hr⟩

end Benchmark

end RankLens
