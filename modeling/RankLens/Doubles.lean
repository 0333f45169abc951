import RankLens.Analyzer

namespace RankLens

namespace Analyzer

variable {x : ℚ}

theorem floor_le_halfEven (x : ℚ) : ⌊x⌋ ≤ halfEven x := by
  simp only [halfEven]
  split_ifs <;> omega

theorem halfEven_whole (n : Int) : halfEven (n : ℚ) = n := by
  rw [halfEven]
  simp

theorem float_nonneg (h : 0 ≤ x) : 0 ≤ float x := by
  have unit : (0 : ℚ) < 2 ^ (max (Int.log 2 x) (-1022) - 52) := zpow_pos (by norm_num) _
  refine mul_nonneg ?_ unit.le
  have below : 0 ≤ ⌊x / 2 ^ (max (Int.log 2 x) (-1022) - 52)⌋ :=
    Int.floor_nonneg.mpr (div_nonneg h unit.le)
  exact_mod_cast below.trans (floor_le_halfEven _)

theorem halfEven_le {m : Int} (h : x ≤ m) : halfEven x ≤ m := by
  have below : ⌊x⌋ ≤ m := by exact_mod_cast (Int.floor_le x).trans h
  obtain same | less := below.eq_or_lt
  · have whole : x = m := le_antisymm h (same ▸ Int.floor_le x)
    rw [whole, halfEven_whole]
  · simp only [halfEven]
    split_ifs <;> omega

end Analyzer

namespace Doubles

open Analyzer (float halfEven halfEven_le floor_le_halfEven halfEven_whole float_nonneg)

section rounding

variable {x y : ℚ}

/-- A number that a double holds, whatever its size. -/
def Double (x : ℚ) : Prop := ∃ m : Nat, ∃ t : Int, m ≤ 2 ^ 53 ∧ -1074 ≤ t ∧ x = m * 2 ^ t

/-- The exponent of the last bit of a double next to the number. -/
def scale (x : ℚ) : Int := max (Int.log 2 x) (-1022) - 52

theorem float_eq (x : ℚ) : float x = halfEven (x / 2 ^ scale x) * 2 ^ scale x := rfl

theorem scale_ge (x : ℚ) : -1074 ≤ scale x := by
  unfold scale
  omega

theorem unit_pos (t : Int) : (0 : ℚ) < 2 ^ t := zpow_pos (by norm_num) t

theorem lt_scale (x : ℚ) : x < 2 ^ (scale x + 53) := by
  have above : x < (2 : Nat) ^ (Int.log 2 x + 1) := Int.lt_zpow_succ_log_self (by decide) x
  refine above.trans_le ?_
  rw [Nat.cast_ofNat]
  exact zpow_le_zpow_right₀ (by norm_num) (by unfold scale; omega)

theorem scale_le (hx : 0 < x) (h : -1074 < scale x) : 2 ^ (scale x + 52) ≤ x := by
  have below : ((2 : Nat) : ℚ) ^ Int.log 2 x ≤ x := Int.zpow_log_le_self (by decide) hx
  rw [Nat.cast_ofNat] at below
  have same : scale x + 52 = Int.log 2 x := by
    unfold scale at h ⊢
    omega
  rw [same]
  exact below

theorem scale_mono (hx : 0 < x) (h : x ≤ y) : scale x ≤ scale y := by
  have := Int.log_mono_right (b := 2) hx h
  unfold scale
  omega

theorem float_zero : float 0 = 0 := by
  have zero := halfEven_whole 0
  rw [Int.cast_zero] at zero
  rw [float_eq, zero_div, zero, Int.cast_zero, zero_mul]

theorem halfEven_le_top (x : ℚ) : halfEven (x / 2 ^ scale x) ≤ 2 ^ 53 := by
  refine halfEven_le ?_
  rw [div_le_iff₀ (unit_pos _)]
  have power : ((2 ^ 53 : Int) : ℚ) * 2 ^ scale x = 2 ^ (scale x + 53) := by
    rw [zpow_add₀ (by norm_num), mul_comm]
    norm_num
  rw [power]
  exact (lt_scale x).le

theorem halfEven_nonneg (hx : 0 ≤ x) : 0 ≤ halfEven x :=
  (Int.floor_nonneg.mpr hx).trans (floor_le_halfEven x)

theorem float_double (hx : 0 ≤ x) : Double (float x) := by
  have low := halfEven_nonneg (div_nonneg hx (unit_pos (scale x)).le)
  have high := halfEven_le_top x
  refine ⟨(halfEven (x / 2 ^ scale x)).toNat, scale x, by omega, scale_ge x, ?_⟩
  rw [float_eq]
  congr 1
  exact_mod_cast (Int.toNat_of_nonneg low).symm

theorem Double.nonneg (h : Double x) : 0 ≤ x := by
  obtain ⟨m, t, -, -, rfl⟩ := h
  exact mul_nonneg (Nat.cast_nonneg m) (unit_pos t).le

theorem Double.double (h : Double x) : Double (2 * x) := by
  obtain ⟨m, t, hm, ht, rfl⟩ := h
  refine ⟨m, t + 1, hm, by omega, ?_⟩
  rw [zpow_add_one₀ (by norm_num)]
  ring

theorem Double.whole (h : Double x) (hx : 0 < x) : ∃ N : Int, x = N * 2 ^ scale x := by
  obtain ⟨m, t, hm, ht, hval⟩ := h
  by_cases hs : scale x ≤ t
  · obtain ⟨j, hj⟩ : ∃ j : Nat, t = scale x + j := ⟨(t - scale x).toNat, by omega⟩
    refine ⟨m * 2 ^ j, ?_⟩
    calc x = m * 2 ^ (scale x + j) := by rw [← hj]; exact hval
      _ = _ := by
        rw [zpow_add₀ (by norm_num), zpow_natCast]
        push_cast
        ring
  · have lead := scale_le hx (by omega)
    have most : x ≤ 2 ^ (t + 53) := by
      rw [hval, zpow_add₀ (by norm_num), mul_comm]
      refine mul_le_mul_of_nonneg_left ?_ (unit_pos t).le
      exact_mod_cast hm
    have near := (zpow_le_zpow_iff_right₀ (by norm_num)).mp (lead.trans most)
    have same : t + 53 = scale x + 52 := by omega
    rw [same] at most
    refine ⟨2 ^ 52, ?_⟩
    calc x = 2 ^ (scale x + 52) := le_antisymm most lead
      _ = _ := by
        rw [zpow_add₀ (by norm_num), mul_comm]
        norm_num

theorem Double.float (h : Double x) : float x = x := by
  obtain hx | hx := h.nonneg.eq_or_lt
  · rw [← hx, float_zero]
  · obtain ⟨N, hN⟩ := h.whole hx
    have count : x / 2 ^ scale x = N := by
      rw [div_eq_iff (unit_pos _).ne']
      exact hN
    rw [float_eq, count, halfEven_whole, ← hN]

theorem double_natural {n : Nat} (h : n ≤ 2 ^ 53) : Double n :=
  ⟨n, 0, h, by decide, by rw [zpow_zero, mul_one]⟩

theorem halfEven_mono (h : x ≤ y) : halfEven x ≤ halfEven y := by
  obtain same | less := (Int.floor_mono h).eq_or_lt
  · have rest : x - (⌊y⌋ : Int) ≤ y - ⌊y⌋ := by linarith
    simp only [halfEven, same]
    split_ifs
    all_goals
      first
      | omega
      | linarith
  · have up : halfEven x ≤ ⌊x⌋ + 1 := by
      simp only [halfEven]
      split_ifs <;> omega
    exact up.trans (less.trans_le (floor_le_halfEven y))

theorem float_mono (hx : 0 ≤ x) (h : x ≤ y) : float x ≤ float y := by
  obtain rfl | hx := hx.eq_or_lt
  · rw [float_zero]
    exact float_nonneg h
  obtain same | less := (scale_mono hx h).eq_or_lt
  · rw [float_eq, float_eq, same]
    refine mul_le_mul_of_nonneg_right ?_ (unit_pos _).le
    exact_mod_cast halfEven_mono (div_le_div_of_nonneg_right h (unit_pos _).le)
  · -- A power of two stands between them.
    have top : float x ≤ 2 ^ (scale x + 53) := by
      rw [float_eq, zpow_add₀ (by norm_num), mul_comm]
      refine mul_le_mul_of_nonneg_left ?_ (unit_pos _).le
      exact_mod_cast halfEven_le_top x
    have bottom : (2 : ℚ) ^ (scale y + 52) ≤ float y := by
      have count : ((2 ^ 52 : Int) : ℚ) ≤ y / 2 ^ scale y := by
        rw [le_div_iff₀ (unit_pos _)]
        have lead := scale_le (hx.trans_le h) ((scale_ge x).trans_lt less)
        rw [zpow_add₀ (by norm_num), mul_comm] at lead
        exact_mod_cast lead
      have even := halfEven_mono count
      rw [halfEven_whole] at even
      rw [float_eq, zpow_add₀ (by norm_num), mul_comm]
      refine mul_le_mul_of_nonneg_right ?_ (unit_pos _).le
      exact_mod_cast even
    refine top.trans (le_trans ?_ bottom)
    exact zpow_le_zpow_right₀ (by norm_num) (by omega)

theorem float_between {f : ℚ} {z : ℚ} (hx : 0 ≤ x) (hxy : x ≤ y) (hyz : y ≤ z)
    (hfx : float x = f) (hfz : float z = f) : float y = f :=
  le_antisymm (hfz ▸ float_mono (hx.trans hxy) hyz) (hfx ▸ float_mono hx hxy)

end rounding

section shortest

variable {f : ℚ} {k l : Int} {b c d n : Nat}

/-- The decimal is read as the double. -/
def Back (f : ℚ) (k : Int) (d : Nat) : Prop := float (d * 10 ^ k) = f

instance : Decidable (Back f k d) := inferInstanceAs (Decidable (_ = _))

/-- The two multiples of a power of ten around the number, the closer one first. -/
def around (f : ℚ) (k : Int) : Nat × Nat :=
  let below := ⌊f / 10 ^ k⌋₊
  let rest := f / 10 ^ k - below
  if rest < 1 / 2 ∨ (rest = 1 / 2 ∧ below % 2 = 0) then (below, below + 1) else (below + 1, below)

def pick (f : ℚ) (k : Int) : Option Nat :=
  if Back f k (around f k).1 then some (around f k).1
  else if Back f k (around f k).2 then some (around f k).2
  else none

/-- From a power of ten down, the first whose multiples are read as the double. No power is below
the last one that the search comes to: each double is a multiple of it. -/
def search (f : ℚ) : Nat → Int → Nat × Int
  | 0, k => (⌊f / 10 ^ k⌋₊, k)
  | fuel + 1, k =>
    match pick f k with
    | some d => (d, k)
    | none => search f fuel (k - 1)

/-- The digits and the power of ten of the shortest decimal for a double. -/
def shortest (f : ℚ) : Nat × Int := search f (Int.log 10 f + 1075).toNat (Int.log 10 f + 1)

/-- What the shortest decimal is: no decimal of a higher power of ten is read as the double, and of
its own power it is the closest, and the even one of two. -/
structure Short (f : ℚ) (k : Int) (d : Nat) : Prop where
  back : Back f k d
  shortest : ∀ l, k < l → ∀ c, ¬Back f l c
  closest : ∀ c, Back f k c → c ≠ d →
    |d * 10 ^ k - f| < |c * 10 ^ k - f| ∨ (|d * 10 ^ k - f| = |c * 10 ^ k - f| ∧ d % 2 = 0)

theorem ten_pos (k : Int) : (0 : ℚ) < 10 ^ k := zpow_pos (by norm_num) k

theorem gap (f : ℚ) (k : Int) (d : Nat) : |d * 10 ^ k - f| = |d - f / 10 ^ k| * 10 ^ k := by
  have ten := ten_pos k
  have split : (d : ℚ) * 10 ^ k - f = (d - f / 10 ^ k) * 10 ^ k := by
    rw [sub_mul, div_mul_cancel₀ _ ten.ne']
  rw [split, abs_mul, abs_of_pos ten]

theorem gap_lt (h : |(d : ℚ) - f / 10 ^ k| < |(c : ℚ) - f / 10 ^ k|) :
    |d * 10 ^ k - f| < |c * 10 ^ k - f| := by
  rw [gap, gap]
  exact mul_lt_mul_of_pos_right h (ten_pos k)

theorem below_le (hf : 0 ≤ f) : (⌊f / 10 ^ k⌋₊ : ℚ) ≤ f / 10 ^ k :=
  Nat.floor_le (div_nonneg hf (ten_pos k).le)

theorem lt_above : f / 10 ^ k < (⌊f / 10 ^ k⌋₊ : ℚ) + 1 := Nat.lt_floor_add_one _

theorem back_down (hf : Double f) (h : Back f k c) (hcd : c ≤ d) (hd : (d : ℚ) ≤ f / 10 ^ k) :
    Back f k d := by
  have ten := ten_pos k
  refine float_between ?_ ?_ ?_ h hf.float
  · exact mul_nonneg (Nat.cast_nonneg c) ten.le
  · exact mul_le_mul_of_nonneg_right (by exact_mod_cast hcd) ten.le
  · exact (le_div_iff₀ ten).mp hd

theorem back_up (hf : Double f) (h : Back f k c) (hdc : d ≤ c) (hd : f / 10 ^ k ≤ (d : ℚ)) :
    Back f k d := by
  have ten := ten_pos k
  refine float_between hf.nonneg ?_ ?_ hf.float h
  · exact (div_le_iff₀ ten).mp hd
  · exact mul_le_mul_of_nonneg_right (by exact_mod_cast hdc) ten.le

theorem pick_none (hf : Double f) (h : pick f k = none) (c : Nat) : ¬Back f k c := by
  intro hc
  have both : ¬Back f k ⌊f / 10 ^ k⌋₊ ∧ ¬Back f k (⌊f / 10 ^ k⌋₊ + 1) := by
    unfold pick around at h
    dsimp only at h
    split_ifs at h with hnear h₁ h₂ h₁ h₂
    · exact ⟨h₁, h₂⟩
    · exact ⟨h₂, h₁⟩
  obtain hle | hlt := le_or_gt c ⌊f / 10 ^ k⌋₊
  · exact both.1 (back_down hf hc hle (below_le hf.nonneg))
  · refine both.2 (back_up hf hc hlt ?_)
    push_cast
    exact lt_above.le

theorem around_closest (hf : 0 ≤ f) (c : Nat) (hc : c ≠ (around f k).1) :
    |((around f k).1 : ℚ) - f / 10 ^ k| < |(c : ℚ) - f / 10 ^ k| ∨
      (|((around f k).1 : ℚ) - f / 10 ^ k| = |(c : ℚ) - f / 10 ^ k| ∧ (around f k).1 % 2 = 0) := by
  have low := @below_le f k hf
  have high := @lt_above f k
  unfold around at hc ⊢
  dsimp only at hc ⊢
  generalize f / 10 ^ k = t at *
  generalize ⌊t⌋₊ = b at *
  split_ifs at hc ⊢ with hnear
  · dsimp only at hc ⊢
    have own : |(b : ℚ) - t| = t - b := by rw [abs_sub_comm, abs_of_nonneg (by linarith)]
    rw [own]
    obtain hlt | hgt := Nat.lt_or_gt_of_ne hc
    · have far : (c : ℚ) + 1 ≤ b := by exact_mod_cast hlt
      left
      rw [abs_sub_comm, abs_of_nonneg (by linarith)]
      linarith
    · have far : (b : ℚ) + 1 ≤ c := by exact_mod_cast hgt
      rw [abs_of_nonneg (by linarith)]
      obtain less | ⟨half, even⟩ := hnear
      · left
        linarith
      · obtain near | beyond := far.eq_or_lt
        · exact Or.inr ⟨by linarith, even⟩
        · left
          linarith
  · dsimp only at hc ⊢
    obtain ⟨hless, htie⟩ := not_or.mp hnear
    have own : |((b + 1 : Nat) : ℚ) - t| = b + 1 - t := by
      push_cast
      rw [abs_of_nonneg (by linarith)]
    rw [own]
    obtain hlt | hgt := Nat.lt_or_gt_of_ne hc
    · have far : (c : ℚ) ≤ b := by exact_mod_cast Nat.lt_succ_iff.mp hlt
      rw [abs_sub_comm, abs_of_nonneg (by linarith)]
      obtain half | more := (not_lt.mp hless).eq_or_lt
      · have odd : (b + 1) % 2 = 0 := by
          have tie : ¬b % 2 = 0 := fun even => htie ⟨half.symm, even⟩
          omega
        obtain near | beyond := far.eq_or_lt
        · exact Or.inr ⟨by linarith, odd⟩
        · left
          linarith
      · left
        linarith
    · have far : (b : ℚ) + 1 + 1 ≤ c := by exact_mod_cast hgt
      left
      rw [abs_of_nonneg (by linarith)]
      linarith

theorem around_other (hf : Double f) (hnot : ¬Back f k (around f k).1) (hc : Back f k c)
    (hne : c ≠ (around f k).2) :
    |((around f k).2 : ℚ) - f / 10 ^ k| < |(c : ℚ) - f / 10 ^ k| := by
  have low := @below_le f k hf.nonneg
  have high := @lt_above f k
  unfold around at hnot hne ⊢
  dsimp only at hnot hne ⊢
  split_ifs at hnot hne ⊢ with hnear
  · dsimp only at hnot hne ⊢
    obtain hle | hgt := le_or_gt c ⌊f / 10 ^ k⌋₊
    · exact absurd (back_down hf hc hle low) hnot
    · have far : (⌊f / 10 ^ k⌋₊ : ℚ) + 1 + 1 ≤ c := by
        exact_mod_cast Nat.lt_of_le_of_ne hgt (Ne.symm hne)
      push_cast
      rw [abs_of_nonneg (by linarith), abs_of_nonneg (by linarith)]
      linarith
  · dsimp only at hnot hne ⊢
    obtain hge | hlt := le_or_gt (⌊f / 10 ^ k⌋₊ + 1) c
    · refine absurd (back_up hf hc hge ?_) hnot
      push_cast
      exact high.le
    · have far : (c : ℚ) + 1 ≤ ⌊f / 10 ^ k⌋₊ := by
        exact_mod_cast Nat.lt_of_le_of_ne (Nat.lt_succ_iff.mp hlt) hne
      rw [abs_sub_comm, abs_of_nonneg (by linarith), abs_sub_comm, abs_of_nonneg (by linarith)]
      linarith

theorem pick_some (hf : Double f) (h : pick f k = some d) : Back f k d ∧
    ∀ c, Back f k c → c ≠ d →
      |d * 10 ^ k - f| < |c * 10 ^ k - f| ∨
        (|d * 10 ^ k - f| = |c * 10 ^ k - f| ∧ d % 2 = 0) := by
  unfold pick at h
  split_ifs at h with h₁ h₂
  · obtain rfl := Option.some.inj h
    refine ⟨h₁, fun c hc hne => ?_⟩
    obtain less | ⟨same, even⟩ := around_closest hf.nonneg c hne
    · exact Or.inl (gap_lt less)
    · exact Or.inr ⟨by rw [gap, gap, same], even⟩
  · obtain rfl := Option.some.inj h
    exact ⟨h₂, fun c hc hne => Or.inl (gap_lt (around_other hf h₁ hc hne))⟩

theorem Double.decimal (h : Double f) (hk : k ≤ -1074) : ∃ N : Nat, f = N * 10 ^ k := by
  obtain ⟨m, t, -, ht, rfl⟩ := h
  obtain ⟨i, hi⟩ : ∃ i : Nat, t = k + i := ⟨(t - k).toNat, by omega⟩
  obtain ⟨j, hj⟩ : ∃ j : Nat, -k = j := ⟨(-k).toNat, by omega⟩
  refine ⟨m * 2 ^ i * 5 ^ j, ?_⟩
  have ten : (10 : ℚ) ^ k = 2 ^ k * 5 ^ k := by
    rw [← mul_zpow]
    norm_num
  have five : (5 : ℚ) ^ j * 5 ^ k = 1 := by
    rw [← zpow_natCast, ← hj, ← zpow_add₀ (by norm_num), neg_add_cancel, zpow_zero]
  rw [hi, zpow_add₀ (by norm_num), zpow_natCast, ten]
  push_cast
  linear_combination -(m * 2 ^ i * 2 ^ k) * five

theorem search_short (hf : Double f) (fuel : Nat) (hfuel : k - fuel ≤ -1074)
    (htop : ∀ l, k < l → ∀ c, ¬Back f l c) :
    Short f (search f fuel k).2 (search f fuel k).1 := by
  induction fuel generalizing k with
  | zero =>
    obtain ⟨N, hN⟩ := hf.decimal (k := k) (by omega)
    have count : f / 10 ^ k = N := by rw [div_eq_iff (ten_pos k).ne']; exact hN
    have found : search f 0 k = (N, k) := by rw [search, count, Nat.floor_natCast]
    rw [found]
    refine ⟨?_, htop, fun c _ hne => Or.inl (gap_lt ?_)⟩
    · rw [Back, ← hN]
      exact hf.float
    · rw [count, sub_self, abs_zero, abs_pos, sub_ne_zero]
      exact_mod_cast hne
  | succ fuel ih =>
    rw [search]
    cases hp : pick f k with
    | some d =>
      obtain ⟨back, closest⟩ := pick_some hf hp
      exact ⟨back, htop, closest⟩
    | none =>
      refine ih (by push_cast at hfuel; omega) (fun l hl c => ?_)
      obtain rfl | hl := (show k ≤ l by omega).eq_or_lt
      · exact pick_none hf hp c
      · exact htop l hl c

theorem back_top (hf : Double f) (hpos : 0 < f) {l : Int} (hl : Int.log 10 f + 1 < l) (c : Nat) :
    ¬Back f l c := by
  intro hc
  obtain rfl | hc0 := Nat.eq_zero_or_pos c
  · rw [Back, Nat.cast_zero, zero_mul, float_zero] at hc
    exact hpos.ne hc
  · have above : f < ((10 : Nat) : ℚ) ^ (Int.log 10 f + 1) :=
      Int.lt_zpow_succ_log_self (by decide) f
    rw [Nat.cast_ofNat] at above
    have twice : 2 * f ≤ c * 10 ^ l := by
      calc 2 * f ≤ 10 * 10 ^ (Int.log 10 f + 1) := by linarith
        _ = 10 ^ (Int.log 10 f + 2) := by
          rw [← zpow_one_add₀ (by norm_num)]
          congr 1
          omega
        _ ≤ 10 ^ l := zpow_le_zpow_right₀ (by norm_num) (by omega)
        _ ≤ c * 10 ^ l := le_mul_of_one_le_left (ten_pos l).le (by exact_mod_cast hc0)
    have grown := float_mono (by linarith) twice
    rw [hf.double.float] at grown
    have same : float (c * 10 ^ l) = f := hc
    linarith

theorem shortest_short (hf : Double f) (hpos : 0 < f) :
    Short f (shortest f).2 (shortest f).1 :=
  search_short hf _ (by omega) (fun _ hl c => back_top hf hpos hl c)

theorem Short.unique (hf : Double f) (h : Short f k d) (h' : Short f l c) : k = l ∧ d = c := by
  obtain hlt | rfl | hgt := lt_trichotomy k l
  · exact absurd h'.back (h.shortest l hlt c)
  · refine ⟨rfl, ?_⟩
    by_contra hne
    have ten := ten_pos k
    obtain less | ⟨same, even⟩ := h.closest c h'.back (Ne.symm hne)
    · obtain less' | ⟨same', -⟩ := h'.closest d h.back hne
      · exact absurd less less'.not_gt
      · exact absurd same' less.ne'
    obtain less' | ⟨-, even'⟩ := h'.closest d h.back hne
    · exact absurd same less'.ne'
    -- Both are even, and what stands halfway between them is the double.
    obtain ⟨e, he⟩ : ∃ e, d + c = 2 * e := ⟨(d + c) / 2, by omega⟩
    have half : (e : ℚ) * 10 ^ k = f := by
      have sum : (d : ℚ) + c = 2 * e := by exact_mod_cast he
      obtain equal | opposite := abs_eq_abs.mp same
      · have both : (d : ℚ) * 10 ^ k = c * 10 ^ k := by linarith
        exact absurd (by exact_mod_cast mul_right_cancel₀ ten.ne' both) hne
      · linear_combination (1 / 2) * opposite - (1 / 2) * 10 ^ k * sum
    have back : Back f k e := by
      rw [Back, half]
      exact hf.float
    have other : e ≠ d := by omega
    have zero : |(e : ℚ) * 10 ^ k - f| = 0 := by rw [half, sub_self, abs_zero]
    have far : (d : ℚ) * 10 ^ k - f ≠ 0 := by
      rw [← half, sub_ne_zero]
      intro hd
      exact other (by exact_mod_cast (mul_right_cancel₀ ten.ne' hd).symm)
    obtain less | ⟨same, -⟩ := h.closest e back other
    · rw [zero] at less
      exact absurd less (abs_nonneg _).not_gt
    · rw [zero] at same
      exact far (abs_eq_zero.mp same)
  · exact absurd h.back (h'.shortest k hgt d)

example : shortest (2 ^ 60) = (1152921504606847, 3) := by decide +kernel

end shortest

section whole

variable {n j d : Nat}

/-- The number is the shortest decimal of its own double: no multiple of a higher power of ten has
that double, and of the multiples of its power that have it the number is the closest one. -/
def Own (n : Nat) : Prop :=
  ∃ j, 10 ^ j ∣ n ∧ (∀ m : Nat, 10 ^ (j + 1) ∣ m → float m ≠ float n) ∧
    ∀ m : Nat, 10 ^ j ∣ m → float m = float n → m ≠ n →
      |(n : ℚ) - float n| < |m - float n| ∨
        (|(n : ℚ) - float n| = |m - float n| ∧ n / 10 ^ j % 2 = 0)

theorem decimal_cast (d j : Nat) : ((d * 10 ^ j : Nat) : ℚ) = d * 10 ^ (j : Int) := by
  rw [zpow_natCast]
  push_cast
  rfl

theorem own_iff : Own n ↔ ∃ j d : Nat, n = d * 10 ^ j ∧ Short (float n) j d := by
  constructor
  · rintro ⟨j, ⟨d, hd⟩, higher, closest⟩
    have hn : n = d * 10 ^ j := by rw [hd, Nat.mul_comm]
    have value : (n : ℚ) = d * 10 ^ (j : Int) := by
      rw [← decimal_cast, ← hn]
    refine ⟨j, d, hn, ⟨by rw [Back, ← value], ?_, ?_⟩⟩
    · intro l hl c hc
      obtain ⟨i, rfl⟩ : ∃ i : Nat, l = (i : Int) := ⟨l.toNat, by omega⟩
      rw [Back, ← decimal_cast] at hc
      exact higher _ (dvd_mul_of_dvd_right (pow_dvd_pow 10 (by omega)) c) hc
    · intro c hc hne
      rw [Back, ← decimal_cast] at hc
      have other : c * 10 ^ j ≠ n := by
        rw [hn]
        exact fun h => hne (Nat.eq_of_mul_eq_mul_right (Nat.pow_pos (by decide)) h)
      have count : n / 10 ^ j = d := by
        rw [hn, Nat.mul_div_cancel _ (Nat.pow_pos (by decide))]
      have near := closest _ (Nat.dvd_mul_left _ c) hc other
      rw [count, decimal_cast] at near
      rw [← value]
      exact near
  · rintro ⟨j, d, hn, short⟩
    have value : (n : ℚ) = d * 10 ^ (j : Int) := by
      rw [← decimal_cast, ← hn]
    refine ⟨j, hn ▸ Nat.dvd_mul_left _ d, ?_, ?_⟩
    · rintro m ⟨c, rfl⟩ hm
      refine short.shortest (j + 1 : Nat) (by push_cast; omega) c ?_
      rw [Back, ← decimal_cast, Nat.mul_comm]
      exact hm
    · rintro m ⟨c, rfl⟩ hm hne
      have other : c ≠ d := by
        rintro rfl
        exact hne (by rw [hn, Nat.mul_comm])
      rw [Nat.mul_comm, decimal_cast] at hm ⊢
      have count : n / 10 ^ j = d := by
        rw [hn, Nat.mul_div_cancel _ (Nat.pow_pos (by decide))]
      rw [count, value]
      rw [value] at short hm
      exact short.closest c hm other

theorem float_one_le (h : 0 < n) : 1 ≤ float (n : ℚ) := by
  have one : float ((1 : Nat) : ℚ) = (1 : Nat) := (double_natural (by decide)).float
  have grown := float_mono (x := ((1 : Nat) : ℚ)) (y := (n : ℚ)) (by norm_num) (by exact_mod_cast h)
  rw [one] at grown
  exact_mod_cast grown

theorem own_small (hpos : 0 < n) (h : n < 2 ^ 53) : Own n := by
  have exact : float (n : ℚ) = n := (double_natural h.le).float
  have alone : ∀ m : Nat, float (m : ℚ) = float n → m = n := by
    intro m hm
    rw [exact] at hm
    obtain hle | hgt := le_or_gt m (2 ^ 53)
    · rw [(double_natural hle).float] at hm
      exact_mod_cast hm
    · have top := (double_natural (le_refl (2 ^ 53))).float
      have cast : ((2 ^ 53 : Nat) : ℚ) ≤ m := Nat.cast_le.mpr hgt.le
      have order := float_mono (Nat.cast_nonneg (2 ^ 53)) cast
      rw [top, hm, Nat.cast_le] at order
      omega
  obtain ⟨j, m, hm, rfl⟩ := Nat.exists_eq_pow_mul_and_not_dvd hpos.ne' 10 (by decide)
  refine ⟨j, Nat.dvd_mul_right _ m, fun c hc hfloat => ?_, fun c _ hfloat hne => ?_⟩
  · rw [alone c hfloat, pow_succ] at hc
    exact hm (Nat.dvd_of_mul_dvd_mul_left (Nat.pow_pos (by decide)) hc)
  · exact absurd (alone c hfloat) hne

end whole

end Doubles

end RankLens
