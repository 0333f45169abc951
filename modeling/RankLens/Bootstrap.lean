import RankLens.Interpolation

namespace RankLens

namespace Bootstrap

open Interpolation

def sorted (values : List ℚ) : List ℚ := values.insertionSort (· ≤ ·)

/-- `xs[i]`, from the end when `i` is negative, if there is such an item. -/
def item {α : Type} (xs : List α) (i : ℤ) : Option α :=
  if 0 ≤ i then xs[i.toNat]?
  else if 0 ≤ i + xs.length then xs[(i + xs.length).toNat]? else none

def truncate (x : ℚ) : ℤ := if 0 ≤ x then ⌊x⌋ else ⌈x⌉

def percentile (values : List ℚ) (p : ℚ) : Option ℚ :=
  if values = [] then some 0
  else
    let ordered := sorted values
    if ordered.length = 1 then item ordered 0
    else
      let rank := ((ordered.length : ℚ) - 1) * p
      let lower := ⌊rank⌋
      let upper := ⌈rank⌉
      if lower = upper then item ordered (truncate rank)
      else do
        let low ← item ordered lower
        let high ← item ordered upper
        some (low + (high - low) * (rank - lower))

/-- One resample of the values, at the indices that were drawn for it. -/
def resample {α : Type} (values : List α) (draw : ℕ → ℕ) : Option (List α) :=
  (List.range values.length).mapM (fun k => item values (draw k))

/-- The statistic of every resample. The generator draws `draws s k` at position `k` of sample
`s`. -/
def estimates {α : Type} (values : List α) (statistic : List α → Option α) (draws : ℕ → ℕ → ℕ)
    (samples : ℕ) : Option (List α) :=
  (List.range samples).mapM (fun s => (resample values (draws s)).bind statistic)

def bootstrapInterval (values : List ℚ) (statistic : List ℚ → Option ℚ) (draws : ℕ → ℕ → ℕ)
    (confidence : ℚ) (samples : ℕ) : Option (List ℚ) :=
  if values = [] then some [0, 0]
  else do
    let estimates ← estimates values statistic draws samples
    let tail := (1 - confidence) / 2
    let low ← percentile estimates tail
    let high ← percentile estimates (1 - tail)
    some [low, high]

def mean (xs : List ℚ) : Option ℚ := if xs = [] then none else some (xs.sum / xs.length)

def median (xs : List ℚ) : Option ℚ :=
  let data := sorted xs
  let half := data.length / 2
  if data.length = 0 then none
  else if data.length % 2 = 1 then item data half
  else do
    let low ← item data (half - 1 : ℕ)
    let high ← item data half
    some ((low + high) / 2)

/-- The value is between the smallest and the largest. -/
def Between (xs : List ℚ) (x : ℚ) : Prop :=
  ∃ h : xs ≠ [], xs.min h ≤ x ∧ x ≤ xs.max h

/-- The statistic of a list that is not empty is between its extremes. -/
def Averaging (statistic : List ℚ → Option ℚ) : Prop :=
  ∀ xs, xs ≠ [] → ∃ x, statistic xs = some x ∧ Between xs x

section extremes

variable {xs ys : List ℚ} {x y z : ℚ}

theorem between_of_bounds (hx : x ∈ xs) (hy : y ∈ xs) (hlow : x ≤ z) (hhigh : z ≤ y) :
    Between xs z :=
  ⟨List.ne_nil_of_mem hx, (List.min_le_of_mem hx).trans hlow, hhigh.trans (List.le_max_of_mem hy)⟩

theorem between_of_mem (hx : x ∈ xs) : Between xs x := between_of_bounds hx hx le_rfl le_rfl

theorem Between.trans (h : ∀ y ∈ ys, Between xs y) (hx : Between ys x) : Between xs x := by
  obtain ⟨hne, hlow, hhigh⟩ := hx
  obtain ⟨hxs, low, _⟩ := h _ (List.min_mem hne)
  obtain ⟨_, _, high⟩ := h _ (List.max_mem hne)
  exact ⟨hxs, low.trans hlow, hhigh.trans high⟩

theorem Between.of_subset (h : ∀ y ∈ ys, y ∈ xs) (hx : Between ys x) : Between xs x :=
  Between.trans (fun y hy => between_of_mem (h y hy)) hx

end extremes

section ranks

variable {values : List ℚ} {p q : ℚ} {i j : ℤ}

theorem sorted_perm (values : List ℚ) : (sorted values).Perm values :=
  List.perm_insertionSort (· ≤ ·) values

theorem length_sorted (values : List ℚ) : (sorted values).length = values.length :=
  (sorted_perm values).length_eq

/-- The item at an index, which stays at the ends of the list. -/
def knot (values : List ℚ) (i : ℤ) : ℚ :=
  (sorted values).getD (min i.toNat ((sorted values).length - 1)) 0

theorem knot_mem (h : values ≠ []) (i : ℤ) : knot values i ∈ values := by
  have long : 0 < (sorted values).length := by
    rw [length_sorted]
    exact List.length_pos_of_ne_nil h
  have inside : min i.toNat ((sorted values).length - 1) < (sorted values).length := by omega
  rw [knot, List.getD_eq_getElem _ _ inside]
  exact (sorted_perm values).subset (List.getElem_mem inside)

theorem knot_mono (h : values ≠ []) : Monotone (knot values) := by
  intro i j hij
  have long : 0 < (sorted values).length := by
    rw [length_sorted]
    exact List.length_pos_of_ne_nil h
  have inside : ∀ k : ℤ, min k.toNat ((sorted values).length - 1) < (sorted values).length :=
    fun k => by omega
  have order : (sorted values).SortedLE :=
    List.sortedLE_iff_pairwise.mpr (List.pairwise_insertionSort (· ≤ ·) values)
  rw [knot, knot, List.getD_eq_getElem _ _ (inside i), List.getD_eq_getElem _ _ (inside j)]
  exact order.getElem_le_getElem_of_le (by omega)

theorem item_some {α : Type} {xs : List α} (hlow : 0 ≤ i) (hhigh : i < xs.length) :
    ∃ x, item xs i = some x ∧ x ∈ xs := by
  have inside : i.toNat < xs.length := by omega
  refine ⟨xs.get ⟨i.toNat, inside⟩, ?_, List.get_mem _ _⟩
  rw [item, if_pos hlow, List.getElem?_eq_getElem inside, List.get_eq_getElem]

theorem item_mem {α : Type} {xs : List α} {x : α} (h : item xs i = some x) : x ∈ xs := by
  unfold item at h
  split_ifs at h with _ _
  · exact List.mem_of_getElem? h
  · exact List.mem_of_getElem? h

theorem item_knot (hlow : 0 ≤ i) (hhigh : i < values.length) :
    item (sorted values) i = some (knot values i) := by
  have inside : i.toNat < (sorted values).length := by
    rw [length_sorted]
    omega
  rw [item, if_pos hlow, List.getElem?_eq_getElem inside, knot, min_eq_left (by omega),
    List.getD_eq_getElem _ _ inside]

theorem rank_inside (h : values ≠ []) (hlow : 0 ≤ p) (hhigh : p ≤ 1) :
    0 ≤ ⌊((values.length : ℚ) - 1) * p⌋ ∧ ⌈((values.length : ℚ) - 1) * p⌉ < values.length := by
  have long : (1 : ℚ) ≤ values.length := by
    exact_mod_cast List.length_pos_of_ne_nil h
  have wide : 0 ≤ (values.length : ℚ) - 1 := sub_nonneg.mpr long
  refine ⟨Int.floor_nonneg.mpr (mul_nonneg wide hlow), ?_⟩
  have last : ⌈((values.length : ℚ) - 1) * p⌉ ≤ (values.length : ℤ) - 1 := by
    refine Int.ceil_le.mpr ?_
    push_cast
    exact mul_le_of_le_one_right wide hhigh
  omega

theorem percentile_eq (h : values ≠ []) (hlow : 0 ≤ p) (hhigh : p ≤ 1) :
    percentile values p =
      some (interpolate (knot values) (((values.length : ℚ) - 1) * p)) := by
  obtain ⟨first, last⟩ := rank_inside h hlow hhigh
  have middle := Int.floor_le_ceil (((values.length : ℚ) - 1) * p)
  unfold percentile
  rw [if_neg h]
  dsimp only
  rw [length_sorted]
  split_ifs with single same
  · have zero : ((values.length : ℚ) - 1) * p = 0 := by rw [single]; norm_num
    rw [zero, interpolate_knot (by rw [Int.floor_zero, Int.ceil_zero]), Int.floor_zero,
      item_knot le_rfl (by omega)]
  · have rank : truncate (((values.length : ℚ) - 1) * p) = ⌊((values.length : ℚ) - 1) * p⌋ :=
      if_pos (Int.floor_nonneg.mp first)
    rw [rank, item_knot first (by omega), interpolate_knot same]
  · rw [item_knot first (by omega), item_knot (by omega) last]
    rfl

example : percentile [40, 10, 20, 30] (1 / 2) = some 25 := by decide +kernel

/-- What the interval rests on: a percentile is monotone, between the extremes, looked up inside the
list, and the same for any order of the values. -/
structure PercentileLaws (values : List ℚ) : Prop where
  inside : ∀ p, 0 ≤ p → p ≤ 1 →
    0 ≤ ⌊((values.length : ℚ) - 1) * p⌋ ∧ ⌈((values.length : ℚ) - 1) * p⌉ < values.length
  between : ∀ p, 0 ≤ p → p ≤ 1 → ∃ x, percentile values p = some x ∧ Between values x
  monotone : ∀ p q, 0 ≤ p → p ≤ q → q ≤ 1 → ∀ x y, percentile values p = some x →
    percentile values q = some y → x ≤ y
  permuted : ∀ others, others.Perm values → ∀ p, percentile others p = percentile values p

theorem percentile_between (h : values ≠ []) (hlow : 0 ≤ p) (hhigh : p ≤ 1) :
    ∃ x, percentile values p = some x ∧ Between values x := by
  refine ⟨_, percentile_eq h hlow hhigh, between_of_bounds (knot_mem h _) (knot_mem h _)
    (floor_le_interpolate (knot_mono h)) (interpolate_le_ceil (knot_mono h))⟩

theorem percentile_mono (h : values ≠ []) (hlow : 0 ≤ p) (hpq : p ≤ q) (hhigh : q ≤ 1) {x y : ℚ}
    (hx : percentile values p = some x) (hy : percentile values q = some y) : x ≤ y := by
  rw [percentile_eq h hlow (hpq.trans hhigh)] at hx
  rw [percentile_eq h (hlow.trans hpq) hhigh] at hy
  obtain rfl := Option.some.inj hx
  obtain rfl := Option.some.inj hy
  have long : (1 : ℚ) ≤ values.length := by
    exact_mod_cast List.length_pos_of_ne_nil h
  exact interpolate_mono (knot_mono h) (mul_le_mul_of_nonneg_left hpq (sub_nonneg.mpr long))

theorem sorted_congr {others : List ℚ} (h : others.Perm values) : sorted others = sorted values :=
  (((sorted_perm others).trans h).trans (sorted_perm values).symm).eq_of_pairwise'
    (List.pairwise_insertionSort (· ≤ ·) others) (List.pairwise_insertionSort (· ≤ ·) values)

theorem percentile_perm {others : List ℚ} (h : others.Perm values) (p : ℚ) :
    percentile others p = percentile values p := by
  have empty : others = [] ↔ values = [] := by
    rw [← List.length_eq_zero_iff, ← List.length_eq_zero_iff, h.length_eq]
  unfold percentile
  simp only [sorted_congr h, empty]

theorem percentile_laws (h : values ≠ []) : PercentileLaws values where
  inside _ hlow hhigh := rank_inside h hlow hhigh
  between _ hlow hhigh := percentile_between h hlow hhigh
  monotone _ _ hlow hpq hhigh _ _ hx hy := percentile_mono h hlow hpq hhigh hx hy
  permuted _ hperm p := percentile_perm hperm p

end ranks

section statistics

theorem mean_averaging : Averaging mean := by
  intro xs h
  have long : (0 : ℚ) < xs.length := by exact_mod_cast List.length_pos_of_ne_nil h
  refine ⟨_, if_neg h, h, ?_, ?_⟩
  · rw [le_div_iff₀ long, mul_comm, ← nsmul_eq_mul]
    exact List.card_nsmul_le_sum _ _ (fun x hx => List.min_le_of_mem hx)
  · rw [div_le_iff₀ long, mul_comm, ← nsmul_eq_mul]
    exact List.sum_le_card_nsmul _ _ (fun x hx => List.le_max_of_mem hx)

theorem median_averaging : Averaging median := by
  intro xs h
  have long := List.length_pos_of_ne_nil h
  unfold median
  simp only [length_sorted, Nat.ne_of_gt long, if_false]
  split_ifs with odd
  · rw [item_knot (by omega) (by omega)]
    exact ⟨_, rfl, between_of_mem (knot_mem h _)⟩
  · rw [item_knot (by omega) (by omega), item_knot (by omega) (by omega)]
    have order : knot xs ((xs.length / 2 - 1 : ℕ) : ℤ) ≤ knot xs ((xs.length / 2 : ℕ) : ℤ) :=
      knot_mono h (by omega)
    exact ⟨_, rfl, between_of_bounds (knot_mem h ((xs.length / 2 - 1 : ℕ) : ℤ))
      (knot_mem h ((xs.length / 2 : ℕ) : ℤ)) (by linarith) (by linarith)⟩

end statistics

section interval

variable {values : List ℚ} {statistic : List ℚ → Option ℚ} {draws : ℕ → ℕ → ℕ}

theorem mapM_some {β : Type} {f : ℕ → Option β} {P : β → Prop} {ks : List ℕ}
    (h : ∀ k ∈ ks, ∃ y, f k = some y ∧ P y) :
    ∃ ys, ks.mapM f = some ys ∧ ys.length = ks.length ∧ ∀ y ∈ ys, P y := by
  induction ks with
  | nil => exact ⟨[], rfl, rfl, nofun⟩
  | cons k ks ih =>
    obtain ⟨⟨y, hy, hP⟩, hks⟩ := List.forall_mem_cons.mp h
    obtain ⟨ys, hys, hlength, hall⟩ := ih hks
    refine ⟨y :: ys, ?_, by rw [List.length_cons, hlength, List.length_cons],
      List.forall_mem_cons.mpr ⟨hP, hall⟩⟩
    rw [List.mapM_cons, hy, hys]
    rfl

theorem length_mapM {α β : Type} {f : α → Option β} {xs : List α} {ys : List β}
    (h : xs.mapM f = some ys) : ys.length = xs.length := by
  induction xs generalizing ys with
  | nil =>
    obtain rfl := Option.some.inj h
    rfl
  | cons x xs ih =>
    rw [List.mapM_cons] at h
    obtain ⟨y, -, h⟩ := Option.bind_eq_some_iff.mp h
    obtain ⟨ys', hys, h⟩ := Option.bind_eq_some_iff.mp h
    obtain rfl := Option.some.inj h
    rw [List.length_cons, ih hys, List.length_cons]

theorem getElem_mapM {α β : Type} {f : α → Option β} {xs : List α} {ys : List β}
    (h : xs.mapM f = some ys) (i : ℕ) : ys[i]? = xs[i]?.bind f := by
  induction xs generalizing ys i with
  | nil =>
    obtain rfl := Option.some.inj h
    rfl
  | cons x xs ih =>
    rw [List.mapM_cons] at h
    obtain ⟨y, hy, h⟩ := Option.bind_eq_some_iff.mp h
    obtain ⟨ys', hys, h⟩ := Option.bind_eq_some_iff.mp h
    obtain rfl := Option.some.inj h
    cases i with
    | zero => exact hy.symm
    | succ i => exact ih hys i

theorem mem_mapM {α β : Type} {f : α → Option β} {xs : List α} {ys : List β} {y : β}
    (h : xs.mapM f = some ys) (hy : y ∈ ys) : ∃ x ∈ xs, f x = some y := by
  obtain ⟨i, hi⟩ := List.mem_iff_getElem?.mp hy
  rw [getElem_mapM h] at hi
  obtain ⟨x, hx, hf⟩ := Option.bind_eq_some_iff.mp hi
  exact ⟨x, List.mem_of_getElem? hx, hf⟩

theorem resample_mem {α : Type} {values : List α} {draw : ℕ → ℕ}
    (h : ∀ k < values.length, draw k < values.length) :
    ∃ ys, resample values draw = some ys ∧ ys.length = values.length ∧ ∀ y ∈ ys, y ∈ values := by
  have drawn : ∀ k ∈ List.range values.length,
      ∃ y, item values (draw k) = some y ∧ y ∈ values := by
    intro k hk
    have inside := h k (List.mem_range.mp hk)
    exact item_some (by omega) (by omega)
  obtain ⟨ys, hys, hlength, hall⟩ := mapM_some drawn
  exact ⟨ys, hys, by rw [hlength, List.length_range], hall⟩

theorem estimates_some {α : Type} {values : List α} {statistic : List α → Option α}
    {P : α → Prop} {samples : ℕ}
    (hstatistic : ∀ ys, ys.length = values.length → (∀ y ∈ ys, y ∈ values) →
      ∃ e, statistic ys = some e ∧ P e)
    (h : ∀ s < samples, ∀ k < values.length, draws s k < values.length) :
    ∃ es, estimates values statistic draws samples = some es ∧ es.length = samples ∧
      ∀ e ∈ es, P e := by
  have estimated : ∀ s ∈ List.range samples,
      ∃ e, (resample values (draws s)).bind statistic = some e ∧ P e := by
    intro s hs
    obtain ⟨ys, hys, hlength, hall⟩ := resample_mem (h s (List.mem_range.mp hs))
    rw [hys]
    exact hstatistic ys hlength hall
  obtain ⟨es, hes, hlength, hall⟩ := mapM_some estimated
  exact ⟨es, hes, by rw [hlength, List.length_range], hall⟩

theorem estimates_between (hne : values ≠ []) (hstatistic : Averaging statistic) {samples : ℕ}
    (h : ∀ s < samples, ∀ k < values.length, draws s k < values.length) :
    ∃ es, estimates values statistic draws samples = some es ∧ es.length = samples ∧
      ∀ e ∈ es, Between values e := by
  refine estimates_some (fun ys hlength hall => ?_) h
  have some : ys ≠ [] := by
    rw [← List.length_pos_iff, hlength]
    exact List.length_pos_of_ne_nil hne
  obtain ⟨e, he, between⟩ := hstatistic ys some
  exact ⟨e, he, between.of_subset hall⟩

theorem bootstrapInterval_between (hne : values ≠ []) (hstatistic : Averaging statistic)
    {samples : ℕ} (hsamples : 1 ≤ samples) {confidence : ℚ} (hlow : 0 < confidence)
    (hhigh : confidence < 1)
    (h : ∀ s < samples, ∀ k < values.length, draws s k < values.length) :
    ∃ low high, bootstrapInterval values statistic draws confidence samples = some [low, high] ∧
      values.min hne ≤ low ∧ low ≤ high ∧ high ≤ values.max hne := by
  obtain ⟨es, hes, hlength, hall⟩ := estimates_between hne hstatistic h
  have some : es ≠ [] := by
    rw [← List.length_pos_iff]
    omega
  have bottom : 0 ≤ (1 - confidence) / 2 := by linarith
  have middle : (1 - confidence) / 2 ≤ 1 - (1 - confidence) / 2 := by linarith
  have top : 1 - (1 - confidence) / 2 ≤ 1 := by linarith
  obtain ⟨low, hpercentile, between⟩ := percentile_between some bottom (middle.trans top)
  obtain ⟨high, hpercentile', between'⟩ := percentile_between some (bottom.trans middle) top
  obtain ⟨_, hmin, _⟩ := Between.trans hall between
  obtain ⟨_, _, hmax⟩ := Between.trans hall between'
  refine ⟨low, high, ?_, hmin,
    percentile_mono some bottom middle top hpercentile hpercentile', hmax⟩
  rw [bootstrapInterval, if_neg hne, hes]
  simp only [Option.bind_eq_bind, Option.bind_some, hpercentile, hpercentile']

/-- The interval is ordered and lies within the observed values, for the mean, the median and any
other statistic that stays between the extremes. -/
theorem interval_bounded (hne : values ≠ []) :
    PercentileLaws values ∧ Averaging mean ∧ Averaging median ∧
      ∀ statistic, Averaging statistic → ∀ samples : ℕ, 1 ≤ samples → ∀ confidence : ℚ,
        0 < confidence → confidence < 1 → ∀ draws : ℕ → ℕ → ℕ,
        (∀ s < samples, ∀ k < values.length, draws s k < values.length) →
        ∃ low high, bootstrapInterval values statistic draws confidence samples =
            some [low, high] ∧
          values.min hne ≤ low ∧ low ≤ high ∧ high ≤ values.max hne :=
  ⟨percentile_laws hne, mean_averaging, median_averaging,
    fun _ hstatistic _ hsamples _ hlow hhigh _ h =>
      bootstrapInterval_between hne hstatistic hsamples hlow hhigh h⟩

theorem interval_bounded_trials : ∃ low high, bootstrapInterval [3, 1, 2] mean
    (fun s k => (s + k) % 3) (19 / 20) 4 = some [low, high] ∧ 1 ≤ low ∧ low ≤ high ∧ high ≤ 3 := by
  obtain ⟨low, high, hinterval, hmin, horder, hmax⟩ :=
    (interval_bounded (List.cons_ne_nil 3 [1, 2])).2.2.2 mean mean_averaging 4 (by decide) (19 / 20)
      (by norm_num) (by norm_num) (fun s k => (s + k) % 3) (fun s _ k _ => Nat.mod_lt _ (by decide))
  have least : ([3, 1, 2] : List ℚ).min (List.cons_ne_nil 3 [1, 2]) = 1 := by
    norm_num [List.min]
  have greatest : ([3, 1, 2] : List ℚ).max (List.cons_ne_nil 3 [1, 2]) = 3 := by
    norm_num [List.max]
  rw [least] at hmin
  rw [greatest] at hmax
  exact ⟨low, high, hinterval, hmin, horder, hmax⟩

end interval

end Bootstrap

end RankLens
