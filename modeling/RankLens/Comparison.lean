import RankLens.Importing

namespace RankLens

namespace Comparison

open Analyzer (AnalysisResult Escape Interpreter analyze float get trueDiv truthy)
open Browser (JsValue exported isAnalysisResult maxSafeInteger numberOf property)
open Doubles (Double float_mono)

section python

/-- A float as the checks see it. -/
inductive Number where
  | finite (q : ℚ)
  | nonfinite

/-- The nearest float to a number of either sign. -/
def rounded (x : ℚ) : ℚ := if x < 0 then -float (-x) else float x

/-- A float, none when it is infinite. -/
def finite (x : ℚ) : Option ℚ := if 2 ^ 1024 - 2 ^ 970 ≤ |x| then none else some (rounded x)

/-- The number a value is in a comparison. -/
def number (py : Interpreter) : PyValue → Option ℚ
  | .bool b => some (if b then 1 else 0)
  | .int n => some n
  | .float repr => some (py.floatValue repr)
  | _ => none

mutual

/-- `a == b`, of values that hold no number that is infinite or none. -/
def equals (py : Interpreter) : PyValue → PyValue → Bool
  | .none, .none => true
  | .str s, .str t => s = t
  | .list xs, .list ys => equalsItems py xs ys
  | .dict members, .dict others =>
    members.length = others.length && equalsMembers py members others
  | a, b => match number py a, number py b with
    | some x, some y => x = y
    | _, _ => false

def equalsItems (py : Interpreter) : List PyValue → List PyValue → Bool
  | [], [] => true
  | x :: xs, y :: ys => equals py x y && equalsItems py xs ys
  | _, _ => false

def equalsMembers (py : Interpreter) : List (PyStr × PyValue) → List (PyStr × PyValue) → Bool
  | [], _ => true
  | (key, x) :: members, others => (match others.lookup key with
    | some y => equals py x y
    | none => false) && equalsMembers py members others

end

/-- `bool(workload and workload == other)`. -/
def sameWorkload (py : Interpreter) (workload other : Option PyValue) : Bool :=
  truthy py workload && match workload, other with
    | some v, some w => equals py v w
    | _, _ => false

structure EstimatedCost where
  hourlyRate : ℚ
  baseline : Option ℚ
  candidate : Option ℚ

/-- What `compare` returns, less its two fixed texts. -/
structure Compared where
  baseline : String
  candidate : String
  workload : Option PyValue
  comparable : Bool
  reason : String
  baselineMaxNs : Nat
  candidateMaxNs : Nat
  runtimeChangePercent : Option (Option ℚ)
  speedup : Option ℚ
  rankCount : Nat × Nat
  mpiFraction : ℚ × ℚ
  estimatedCost : Option EstimatedCost

def comparableReason (comparable : Bool) : String :=
  if comparable then "matching declared workload and complete captures"
  else "requires matching nonempty workload identity, complete captures, and nonsynthetic data"

def estimatedCost (base current : Nat) : Option Number → Except Escape (Option EstimatedCost)
  | none => .ok none
  | some .nonfinite => .error (.value "hourly rate must be finite and non-negative")
  | some (.finite rate) =>
    if rate < 0 then .error (.value "hourly rate must be finite and non-negative")
    else do
      let baselineHours ← trueDiv base 3600000000000
      let candidateHours ← trueDiv current 3600000000000
      pure (some ⟨rate, finite (baselineHours * rate), finite (candidateHours * rate)⟩)

def comparable (py : Interpreter) (baseline candidate : AnalysisResult) : Bool :=
  sameWorkload py (get baseline.metadata "workload") (get candidate.metadata "workload") &&
    baseline.complete && candidate.complete && !(baseline.synthetic || candidate.synthetic)

/-- `(current / base - 1) * 100 if base else None`. -/
def runtimeChange (base current : Nat) : Except Escape (Option (Option ℚ)) :=
  if base = 0 then .ok none
  else (trueDiv current base).map (fun ratio => some (finite (rounded (ratio - 1) * 100)))

/-- `base / current if comparable and current else None`. -/
def speedupOf (comparable : Bool) (base current : Nat) : Except Escape (Option ℚ) :=
  if comparable = true ∧ current ≠ 0 then (trueDiv base current).map some else .ok none

def compare (py : Interpreter) (baseline candidate : AnalysisResult) (hourlyRate : Option Number) :
    Except Escape Compared := do
  let comparable := comparable py baseline candidate
  let base := baseline.runtimeMaxNs
  let current := candidate.runtimeMaxNs
  let change ← runtimeChange base current
  let speedup ← speedupOf comparable base current
  let cost ← estimatedCost base current hourlyRate
  pure ⟨baseline.source, candidate.source, get baseline.metadata "workload", comparable,
    comparableReason comparable, base, current, change, speedup,
    (baseline.worldSize, candidate.worldSize), (baseline.mpiFraction, candidate.mpiFraction), cost⟩

end python

section browser

/-- What `comparison` of the workspace returns. -/
structure Shown where
  comparable : Bool
  change : Option (Option ℚ)
  speedup : Option (Option ℚ)
  reason : String

/-- `metadata?.workload`, a string or undefined in what `isAnalysisResult` accepts. -/
def workloadOf (result : JsValue) : Option PyStr :=
  match (property result "metadata").bind (property · "workload") with
  | some (.string s) => some s
  | _ => none

def isFalse (result : JsValue) (key : String) : Bool :=
  match property result key with
  | some (.bool b) => !b
  | _ => false

def isTrue (result : JsValue) (key : String) : Bool :=
  match property result key with
  | some (.bool b) => b
  | _ => false

def comparison (a b : JsValue) : Shown :=
  let workload := workloadOf a
  let comparable := workload.any (· ≠ []) && workload = workloadOf b && isFalse a "synthetic" &&
    isFalse b "synthetic" && isTrue a "complete" && isTrue b "complete"
  let base := numberOf (property a "runtime_max_ns")
  let current := numberOf (property b "runtime_max_ns")
  { comparable
    change := if 0 < base then some ((finite (current / base)).bind fun ratio =>
        finite (rounded (ratio - 1) * 100)) else none
    speedup := if comparable = true ∧ 0 < current then some (finite (base / current)) else none
    reason := if comparable then
        "Matching declared workload; scientific output equivalence still requires verification."
      else "A speedup requires matching workload identities, complete captures, and explicit " ++
        "nonsynthetic provenance." }

end browser

section rounding

variable {x y : ℚ} {n : Int}

theorem lt_halfEven (h : (n : ℚ) + 1 / 2 < x) : n < Analyzer.halfEven x := by
  have low : n ≤ ⌊x⌋ := Int.le_floor.mpr (by linarith)
  obtain same | less := low.eq_or_lt
  · have rest : 1 / 2 < x - ⌊x⌋ := by
      rw [← same]
      linarith
    simp only [Analyzer.halfEven]
    rw [if_neg (not_lt.mpr rest.le), if_pos rest]
    omega
  · exact less.trans_le (Analyzer.floor_le_halfEven x)

theorem rounded_of_nonneg (h : 0 ≤ x) : rounded x = float x := if_neg h.not_gt

theorem rounded_of_neg (h : x < 0) : rounded x = -float (-x) := if_pos h

theorem rounded_nonneg (h : 0 ≤ x) : 0 ≤ rounded x := by
  rw [rounded_of_nonneg h]
  exact Analyzer.float_nonneg h

theorem rounded_zero : rounded 0 = 0 := by
  rw [rounded_of_nonneg le_rfl, Doubles.float_zero]

theorem rounded_mono (h : x ≤ y) : rounded x ≤ rounded y := by
  by_cases hx : x < 0
  · rw [rounded_of_neg hx]
    by_cases hy : y < 0
    · rw [rounded_of_neg hy]
      exact neg_le_neg (float_mono (neg_nonneg.mpr hy.le) (neg_le_neg h))
    · exact (neg_nonpos.mpr (Analyzer.float_nonneg (neg_nonneg.mpr hx.le))).trans
        (rounded_nonneg (not_lt.mp hy))
  · have hx' := not_lt.mp hx
    rw [rounded_of_nonneg hx', rounded_of_nonneg (hx'.trans h)]
    exact float_mono hx' h

theorem rounded_rounded (x : ℚ) : rounded (rounded x) = rounded x := by
  by_cases hx : x < 0
  · have double := Doubles.float_double (neg_nonneg.mpr hx.le)
    rw [rounded_of_neg hx]
    obtain positive | zero := double.nonneg.lt_or_eq
    · rw [rounded_of_neg (neg_lt_zero.mpr positive), neg_neg, double.float]
    · rw [← zero, neg_zero, rounded_zero]
  · have hx' := not_lt.mp hx
    rw [rounded_of_nonneg hx', rounded_of_nonneg (Analyzer.float_nonneg hx'),
      (Doubles.float_double hx').float]

theorem rounded_twice (h : rounded x = x) : rounded (x + x) = x + x := by
  by_cases hx : x < 0
  · have double : Double (-x) := by
      have same : float (-x) = -x := by rw [← neg_eq_iff_eq_neg, ← rounded_of_neg hx, h]
      rw [← same]
      exact Doubles.float_double (neg_nonneg.mpr hx.le)
    have turned : -(x + x) = 2 * -x := by ring
    rw [rounded_of_neg (by linarith), turned, double.double.float]
    ring
  · have hx' := not_lt.mp hx
    have double : Double x := by
      rw [← h, rounded_of_nonneg hx']
      exact Doubles.float_double hx'
    rw [rounded_of_nonneg (by linarith), ← two_mul, double.double.float]

/-- Half the distance from one to the next double. -/
def ulp : ℚ := 2 ^ (-53 : Int)

theorem ulp_pos : 0 < ulp := Doubles.unit_pos _

theorem one_lt_float (h : 1 + ulp < x) : 1 + ulp ≤ float x := by
  rw [ulp] at h ⊢
  have above : 1 < x := lt_trans (by norm_num) h
  by_cases large : 2 ≤ x
  · have two : float 2 = 2 := by
      have := (Doubles.double_natural (n := 2) (by norm_num)).float
      exact_mod_cast this
    have order := float_mono (by norm_num) large
    rw [two] at order
    exact le_trans (by norm_num) order
  · have scale : Doubles.scale x = -52 := by
      have log : Int.log 2 x = 0 := by
        rw [Int.log_of_one_le_right 2 above.le]
        have floor : ⌊x⌋₊ = 1 := by
          rw [Nat.floor_eq_iff (by linarith)]
          constructor <;> push_cast <;> linarith
        rw [floor]
        rfl
      rw [Doubles.scale, log]
      rfl
    have middle : ((2 ^ 52 : Int) : ℚ) + 1 / 2 < x / 2 ^ (-52 : Int) := by
      rw [lt_div_iff₀ (Doubles.unit_pos _)]
      calc _ = 1 + 2 ^ (-53 : Int) := by norm_num
        _ < x := h
    have count : ((2 ^ 52 : Int) + 1 : ℚ) ≤ Analyzer.halfEven (x / 2 ^ (-52 : Int)) := by
      exact_mod_cast lt_halfEven middle
    rw [Doubles.float_eq, scale]
    calc (1 : ℚ) + 2 ^ (-53 : Int) ≤ ((2 ^ 52 : Int) + 1 : ℚ) * 2 ^ (-52 : Int) := by norm_num
      _ ≤ _ := mul_le_mul_of_nonneg_right count (Doubles.unit_pos _).le

theorem rounded_neg (h : 0 < x) : rounded (-x) = -rounded x := by
  rw [rounded, rounded, if_pos (neg_lt_zero.mpr h), if_neg h.le.not_gt, neg_neg]

theorem ulp_le_rounded (h : ulp ≤ x) : ulp ≤ rounded x := by
  have double : Double ulp := ⟨1, -53, by norm_num, by norm_num, by rw [ulp, Nat.cast_one, one_mul]⟩
  have order := float_mono ulp_pos.le h
  rw [double.float] at order
  rwa [rounded, if_neg (ulp_pos.trans_le h).le.not_gt]

theorem rounded_le_natural {k : Nat} (hk : k ≤ 2 ^ 53) (hx : 0 ≤ x) (h : x ≤ k) :
    rounded x ≤ k := by
  have order := float_mono hx h
  rw [(Doubles.double_natural hk).float] at order
  rwa [rounded, if_neg hx.not_gt]

theorem finite_small (h : |x| ≤ 2 ^ 60) : finite x = some (rounded x) := by
  have small : (2 ^ 60 : ℚ) < 2 ^ 1024 - 2 ^ 970 := by
    have gap : (2 : ℚ) ^ 1024 = 2 ^ 970 * 2 ^ 54 := by rw [← pow_add]
    have grows : (2 : ℚ) ^ 60 ≤ 2 ^ 970 := pow_le_pow_right₀ (by norm_num) (by norm_num)
    have factor : (2 : ℚ) ^ 54 = 18014398509481984 := by norm_num
    have low : (0 : ℚ) < 2 ^ 60 := by norm_num
    rw [gap, factor]
    generalize (2 : ℚ) ^ 970 = y at grows ⊢
    linarith only [grows, low]
  rw [finite, if_neg (not_le.mpr (h.trans_lt small))]

end rounding

section quotients

variable {a b : Nat}

theorem quotient_side (ha : 0 < a) (ha' : a ≤ maxSafeInteger) :
    (b < a → float ((b : ℚ) / a) ≤ 1 - ulp) ∧ (b = a → float ((b : ℚ) / a) = 1) ∧
      (a < b → 1 + ulp ≤ float ((b : ℚ) / a)) := by
  have pos : (0 : ℚ) < a := Nat.cast_pos.mpr ha
  have most : (a : ℚ) < 2 ^ 53 := by
    have : a < 2 ^ 53 := ha'.trans_lt (by decide)
    exact_mod_cast this
  have part : ulp * a < 1 := by
    rw [ulp]
    calc (2 ^ (-53 : Int) : ℚ) * a < 2 ^ (-53 : Int) * 2 ^ 53 :=
          mul_lt_mul_of_pos_left most (Doubles.unit_pos _)
      _ = 1 := by norm_num
  refine ⟨fun h => ?_, fun h => ?_, fun h => ?_⟩
  · have double : Double (1 - ulp) :=
      ⟨2 ^ 53 - 1, -53, by norm_num, by norm_num, by rw [ulp]; norm_num⟩
    have below : (b : ℚ) / a ≤ 1 - ulp := by
      have step : (b : ℚ) + 1 ≤ a := by exact_mod_cast h
      rw [div_le_iff₀ pos]
      linarith
    have order := float_mono (div_nonneg (Nat.cast_nonneg b) pos.le) below
    rwa [double.float] at order
  · have one := (Doubles.double_natural (n := 1) (by norm_num)).float
    rw [h, div_self pos.ne']
    exact_mod_cast one
  · have above : 1 + ulp < (b : ℚ) / a := by
      have step : (a : ℚ) + 1 ≤ b := by exact_mod_cast h
      rw [lt_div_iff₀ pos]
      linarith
    exact one_lt_float above

/-- The relative change of two safe counts, in percent. -/
def change (base current : Nat) : Option ℚ :=
  finite (rounded (float ((current : ℚ) / base) - 1) * 100)

theorem change_sign (ha : 0 < a) (ha' : a ≤ maxSafeInteger) (hb : b ≤ maxSafeInteger) :
    ∃ x, change a b = some x ∧ (x < 0 ↔ b < a) ∧ (x = 0 ↔ b = a) ∧ (0 < x ↔ a < b) := by
  obtain ⟨less, same, more⟩ := @quotient_side a b ha ha'
  have pos : (0 : ℚ) < a := Nat.cast_pos.mpr ha
  have low : 0 ≤ float ((b : ℚ) / a) :=
    Analyzer.float_nonneg (div_nonneg (Nat.cast_nonneg b) pos.le)
  have ulp_small : ulp < 1 := by
    rw [ulp]
    norm_num
  unfold change
  obtain h | h | h := lt_trichotomy b a
  · have gap : ulp ≤ 1 - float ((b : ℚ) / a) := by linarith [less h]
    have whole : ((1 : Nat) : ℚ) = 1 := Nat.cast_one
    have bounded := @rounded_le_natural (1 - float ((b : ℚ) / a)) 1 (by norm_num)
      (ulp_pos.le.trans gap) (by rw [whole]; linarith)
    have kept := ulp_le_rounded gap
    rw [whole] at bounded
    have turned : float ((b : ℚ) / a) - 1 = -(1 - float ((b : ℚ) / a)) := by ring
    rw [turned, rounded_neg (ulp_pos.trans_le gap), neg_mul]
    generalize rounded (1 - float ((b : ℚ) / a)) = r at *
    have large : ulp ≤ r * 100 := by linarith [ulp_pos]
    have product := ulp_le_rounded large
    rw [finite_small (by rw [abs_neg, abs_of_pos (ulp_pos.trans_le large)]; linarith),
      rounded_neg (ulp_pos.trans_le large)]
    have neg : -rounded (r * 100) < 0 := neg_lt_zero.mpr (ulp_pos.trans_le product)
    exact ⟨_, rfl, iff_of_true neg h, iff_of_false neg.ne h.ne, iff_of_false neg.not_gt h.not_gt⟩
  · have zero : rounded 0 = 0 := by
      rw [rounded, if_neg (lt_irrefl 0), Doubles.float_zero]
    rw [same h, sub_self, zero, zero_mul, finite_small (by rw [abs_zero]; norm_num), zero]
    exact ⟨0, rfl, by simp [h], by simp [h], by simp [h]⟩
  · have gap : ulp ≤ float ((b : ℚ) / a) - 1 := by linarith [more h]
    have top : (b : ℚ) / a ≤ ((2 ^ 53 : Nat) : ℚ) := by
      have one : (1 : ℚ) ≤ a := by exact_mod_cast ha
      have wide : (b : ℚ) ≤ (2 ^ 53 : Nat) := by
        have : b ≤ 2 ^ 53 := hb.trans (by decide)
        exact_mod_cast this
      exact (div_le_self (Nat.cast_nonneg b) one).trans wide
    have ceiling := float_mono (div_nonneg (Nat.cast_nonneg b) pos.le) top
    rw [(Doubles.double_natural le_rfl).float] at ceiling
    have bounded := rounded_le_natural (le_refl (2 ^ 53)) (ulp_pos.le.trans gap)
      (by linarith)
    have kept := ulp_le_rounded gap
    generalize rounded (float ((b : ℚ) / a) - 1) = r at *
    have large : ulp ≤ r * 100 := by linarith [ulp_pos]
    have product := ulp_le_rounded large
    have width : ((2 ^ 53 : Nat) : ℚ) * 100 ≤ 2 ^ 60 := by norm_num
    rw [finite_small (by rw [abs_of_pos (ulp_pos.trans_le large)]; linarith)]
    have grows := ulp_pos.trans_le product
    exact ⟨_, rfl, iff_of_false grows.not_gt h.not_gt, iff_of_false grows.ne' h.ne',
      iff_of_true grows h⟩

theorem quotient_safe (ha : 0 < a) (hb : b ≤ maxSafeInteger) :
    trueDiv b a = .ok (float ((b : ℚ) / a)) ∧
      finite ((b : ℚ) / a) = some (float ((b : ℚ) / a)) := by
  have one : (1 : ℚ) ≤ a := by exact_mod_cast ha
  have wide : (b : ℚ) ≤ 2 ^ 60 := by
    have : b ≤ 2 ^ 60 := hb.trans (by decide)
    exact_mod_cast this
  have low : (0 : ℚ) ≤ (b : ℚ) / a := div_nonneg (Nat.cast_nonneg b) (by linarith)
  have high : (b : ℚ) / a ≤ 2 ^ 60 := (div_le_self (Nat.cast_nonneg b) one).trans wide
  constructor
  · have gap : 2 ^ 1024 = 2 ^ 970 * 2 ^ 54 := by rw [← pow_add]
    have grows : ∀ k, 53 ≤ k → 2 ^ 53 ≤ 2 ^ k := fun k hk => Nat.pow_le_pow_right (by decide) hk
    have large := grows 970 (by decide)
    have top : maxSafeInteger < 2 ^ 1024 - 2 ^ 970 := by
      have : maxSafeInteger = 2 ^ 53 - 1 := rfl
      rw [gap]
      generalize 2 ^ 970 = y at large ⊢
      omega
    rw [trueDiv, if_neg (not_le.mpr ((hb.trans_lt top).trans_le (Nat.le_mul_of_pos_right _ ha)))]
  · rw [finite_small (by rw [abs_of_nonneg low]; exact high), rounded, if_neg low.not_gt]

end quotients

section outcome

variable (py : Interpreter) (baseline candidate : AnalysisResult)

def compared (cost : Option EstimatedCost) : Compared :=
  ⟨baseline.source, candidate.source, get baseline.metadata "workload",
    comparable py baseline candidate, comparableReason (comparable py baseline candidate),
    baseline.runtimeMaxNs, candidate.runtimeMaxNs,
    if baseline.runtimeMaxNs = 0 then none
      else some (change baseline.runtimeMaxNs candidate.runtimeMaxNs),
    if comparable py baseline candidate = true ∧ candidate.runtimeMaxNs ≠ 0 then
      some (float ((baseline.runtimeMaxNs : ℚ) / candidate.runtimeMaxNs)) else none,
    (baseline.worldSize, candidate.worldSize), (baseline.mpiFraction, candidate.mpiFraction), cost⟩

variable {py baseline candidate}

theorem compare_safe (hb : baseline.runtimeMaxNs ≤ maxSafeInteger)
    (hc : candidate.runtimeMaxNs ≤ maxSafeInteger) (rate : Option Number) :
    compare py baseline candidate rate =
      (estimatedCost baseline.runtimeMaxNs candidate.runtimeMaxNs rate).map
        (compared py baseline candidate) := by
  have changed : runtimeChange baseline.runtimeMaxNs candidate.runtimeMaxNs = .ok
      (if baseline.runtimeMaxNs = 0 then none
        else some (change baseline.runtimeMaxNs candidate.runtimeMaxNs)) := by
    rw [runtimeChange]
    by_cases h : baseline.runtimeMaxNs = 0
    · rw [if_pos h, if_pos h]
    · rw [if_neg h, if_neg h, (quotient_safe (Nat.pos_of_ne_zero h) hc).1]
      rfl
  have sped : ∀ c : Bool, speedupOf c baseline.runtimeMaxNs candidate.runtimeMaxNs = .ok
      (if c = true ∧ candidate.runtimeMaxNs ≠ 0 then
        some (float ((baseline.runtimeMaxNs : ℚ) / candidate.runtimeMaxNs)) else none) := by
    intro c
    rw [speedupOf]
    by_cases h : c = true ∧ candidate.runtimeMaxNs ≠ 0
    · rw [if_pos h, if_pos h, (quotient_safe (Nat.pos_of_ne_zero h.2) hb).1]
      rfl
    · rw [if_neg h, if_neg h]
  rw [compare, changed, sped]
  cases estimatedCost baseline.runtimeMaxNs candidate.runtimeMaxNs rate with
  | error e => rfl
  | ok cost => rfl

end outcome

section agreement

variable {py : Interpreter} {a b result : AnalysisResult} {ja jb j : JsValue}

theorem readBack_lookup {room : Nat} {members : List (PyStr × PyValue)}
    {js : List (PyStr × JsValue)} (h : members.mapM (fun m =>
      (Browser.readBack py room m.2).map (fun v => (m.1, v))) = some js) (key : PyStr) :
    js.lookup key = (members.lookup key).bind (Browser.readBack py room) := by
  induction members generalizing js with
  | nil =>
    obtain rfl : [] = js := Option.some.inj h
    rfl
  | cons m members ih =>
    rw [List.mapM_cons] at h
    obtain ⟨first, hfirst, h⟩ := Option.bind_eq_some_iff.mp h
    obtain ⟨rest, hrest, h⟩ := Option.bind_eq_some_iff.mp h
    obtain rfl := Option.some.inj h
    obtain ⟨v, hv, rfl⟩ := Option.map_eq_some_iff.mp hfirst
    rw [List.lookup_cons, List.lookup_cons]
    cases key == m.1 with
    | true => exact hv.symm
    | false => exact ih hrest

/-- What the workspace reads of an analysis it has imported. -/
structure Imported (result : AnalysisResult) (j : JsValue) : Prop where
  workload : get result.metadata "workload" = (workloadOf j).map PyValue.str
  runtime : numberOf (property j "runtime_max_ns") = result.runtimeMaxNs
  safe : result.runtimeMaxNs ≤ maxSafeInteger
  synthetic : isFalse j "synthetic" = !result.synthetic
  complete : isTrue j "complete" = result.complete

theorem imported (h : exported py result = some j) (valid : isAnalysisResult j = true) :
    Imported result j := by
  obtain ⟨metadata, read, rfl⟩ := Option.map_eq_some_iff.mp h
  have parts := valid
  rw [Browser.isAnalysisResult_parts] at parts
  simp only [Bool.and_eq_true] at parts
  obtain ⟨⟨⟨⟨⟨⟨⟨⟨shape, -⟩, -⟩, -⟩, -⟩, -⟩, hmetadata⟩, -⟩, -⟩ := parts
  have safe : result.runtimeMaxNs ≤ maxSafeInteger := (Browser.validShape_iff.mp shape).1.2.2.2.1
  have shaped := Browser.validMetadata_iff.mp ⟨metadata, read, hmetadata⟩
  refine ⟨?_, ?_, safe, rfl, rfl⟩
  · cases hroom : py.room with
    | zero =>
      rw [hroom] at read
      exact absurd read (by rw [Browser.readBack]; rintro ⟨⟩)
    | succ room =>
      rw [hroom, Browser.readBack, Option.map_eq_some_iff] at read
      obtain ⟨js, members, rfl⟩ := read
      have same : workloadOf (Browser.jsResult result (.object js)) =
        (match js.lookup (PyStr.ofString "workload") with
          | some (.string s) => some s
          | _ => none) := rfl
      rw [same, readBack_lookup members, Analyzer.get]
      cases hv : result.metadata.lookup (PyStr.ofString "workload") with
      | none => rfl
      | some v =>
        obtain ⟨s, rfl⟩ := shaped.workload v hv
        have text : Browser.readBack py room (.str s) = some (.string s) := by cases room <;> rfl
        rw [Option.bind_some, text]
        rfl
  · have number : property (Browser.jsResult result metadata) "runtime_max_ns" =
      some (Browser.jsNumber result.runtimeMaxNs) := rfl
    rw [number, Browser.jsNumber_small safe]
    rfl

theorem sameWorkload_texts (v w : Option PyStr) :
    sameWorkload py (v.map PyValue.str) (w.map PyValue.str) =
      (v.any (· ≠ []) && decide (v = w)) := by
  cases v with
  | none => rfl
  | some s =>
    cases w with
    | none => simp [sameWorkload]
    | some t => simp [sameWorkload, truthy, equals]

/-- The command line and the workspace come to the same comparison. -/
structure Agreed (c : Compared) (shown : Shown) : Prop where
  comparable : c.comparable = shown.comparable
  change : c.runtimeChangePercent = shown.change
  speedup : c.speedup.map some = shown.speedup

/-- For analyses that the workspace imports, `compare` does not raise, and `comparison` shows what
it returns. -/
theorem comparisons_agree (ha : exported py a = some ja) (hb : exported py b = some jb)
    (va : isAnalysisResult ja = true) (vb : isAnalysisResult jb = true) :
    ∃ c, compare py a b none = .ok c ∧ Agreed c (comparison ja jb) := by
  have ia := imported ha va
  have ib := imported hb vb
  have same : comparable py a b = (comparison ja jb).comparable := by
    rw [comparable, ia.workload, ib.workload, sameWorkload_texts]
    simp only [comparison, ia.synthetic, ib.synthetic, ia.complete, ib.complete]
    cases (workloadOf ja).any (· ≠ []) <;> cases decide (workloadOf ja = workloadOf jb) <;>
      cases a.complete <;> cases b.complete <;> cases a.synthetic <;> cases b.synthetic <;> rfl
  have positive : ∀ n : Nat, (0 : ℚ) < n ↔ n ≠ 0 := by
    intro n
    rw [Nat.cast_pos, Nat.pos_iff_ne_zero]
  refine ⟨compared py a b none, compare_safe ia.safe ib.safe none, same, ?_, ?_⟩
  · simp only [comparison, compared, ia.runtime, ib.runtime, positive]
    by_cases h : a.runtimeMaxNs = 0
    · rw [if_pos h, if_neg (fun hn => hn h)]
    · rw [if_neg h, if_pos h, (quotient_safe (Nat.pos_of_ne_zero h) ib.safe).2]
      rfl
  · show Option.map some (if comparable py a b = true ∧ b.runtimeMaxNs ≠ 0 then _ else _) =
      if (comparison ja jb).comparable = true ∧ 0 < numberOf (property jb "runtime_max_ns") then
        some (finite (numberOf (property ja "runtime_max_ns") /
          numberOf (property jb "runtime_max_ns"))) else none
    rw [same, ia.runtime, ib.runtime]
    simp only [positive]
    by_cases h : (comparison ja jb).comparable = true ∧ b.runtimeMaxNs ≠ 0
    · rw [if_pos h, if_pos h, (quotient_safe (Nat.pos_of_ne_zero h.2) ia.safe).2]
      rfl
    · rw [if_neg h, if_neg h]
      rfl

def heatRun (runtimeNs : Nat) : AnalysisResult where
  source := "run"
  worldSize := 1
  ranksObserved := 1
  runtimeMedianNs := runtimeNs
  runtimeMaxNs := runtimeNs
  mpiTimeNs := 0
  aggregateRuntimeNs := runtimeNs
  mpiFraction := 0
  imbalanceRatio := 1
  stragglerThreshold := 2
  stragglerRanks := []
  operations := []
  communicationEdges := []
  rankRuntimes := [(0, runtimeNs)]
  findings := []
  warnings := []
  coverage := ⟨"complete", "unavailable", "unknown", PyStr.ofString "unknown", []⟩
  synthetic := false
  complete := true
  metadata := [(PyStr.ofString "workload", .str (PyStr.ofString "heat"))]
  ranks := [⟨0, PyStr.ofString "n1", runtimeNs, 0, [], true⟩]
  timeline := []

def importedRun (runtimeNs : Nat) : JsValue :=
  Browser.jsResult (heatRun runtimeNs)
    (.object [(PyStr.ofString "workload", .string (PyStr.ofString "heat"))])

theorem comparisons_agree_sample :
    ∃ c, compare (Browser.runReader 1000) (heatRun 2000) (heatRun 1000) none = .ok c ∧
      Agreed c (comparison (importedRun 2000) (importedRun 1000)) :=
  comparisons_agree rfl rfl (by decide +kernel) (by decide +kernel)

end agreement

section verdict

variable {py : Interpreter} {baseline candidate : AnalysisResult} {rate : Option Number}
  {c : Compared}

/-- A speedup is reported of comparable runs only, the change has the sign of the difference of the
runtimes, and the speedup is on the same side of one. -/
structure Verdict (py : Interpreter) (baseline candidate : AnalysisResult) (c : Compared) :
    Prop where
  comparable : c.comparable = true ↔
    sameWorkload py (get baseline.metadata "workload") (get candidate.metadata "workload") = true ∧
      (baseline.complete = true ∧ candidate.complete = true) ∧
      baseline.synthetic = false ∧ candidate.synthetic = false
  change : ∀ x, c.runtimeChangePercent = some x → baseline.runtimeMaxNs ≠ 0 ∧ ∃ y, x = some y ∧
    (y < 0 ↔ candidate.runtimeMaxNs < baseline.runtimeMaxNs) ∧
    (y = 0 ↔ candidate.runtimeMaxNs = baseline.runtimeMaxNs) ∧
    (0 < y ↔ baseline.runtimeMaxNs < candidate.runtimeMaxNs)
  unchanged : c.runtimeChangePercent = none → baseline.runtimeMaxNs = 0
  speedup : ∀ x, c.speedup = some x → c.comparable = true ∧
    (1 < x ↔ candidate.runtimeMaxNs < baseline.runtimeMaxNs) ∧
    (x = 1 ↔ candidate.runtimeMaxNs = baseline.runtimeMaxNs) ∧
    (x < 1 ↔ baseline.runtimeMaxNs < candidate.runtimeMaxNs)
  reported : c.speedup = none → c.comparable = true → candidate.runtimeMaxNs = 0

/-- No rounding turns a faster run into a slower one, or into an equal one. -/
theorem comparison_verdict (h : compare py baseline candidate rate = .ok c)
    (hb : baseline.runtimeMaxNs ≤ maxSafeInteger) (hc : candidate.runtimeMaxNs ≤ maxSafeInteger) :
    Verdict py baseline candidate c := by
  have shape : ∃ cost, c = compared py baseline candidate cost := by
    rw [compare_safe hb hc] at h
    cases hcost : estimatedCost baseline.runtimeMaxNs candidate.runtimeMaxNs rate with
    | error e =>
      rw [hcost] at h
      exact absurd h (by rintro ⟨⟩)
    | ok cost =>
      rw [hcost] at h
      exact ⟨cost, (Except.ok.inj h).symm⟩
  obtain ⟨cost, rfl⟩ := shape
  have changed : (compared py baseline candidate cost).runtimeChangePercent =
      if baseline.runtimeMaxNs = 0 then none
      else some (change baseline.runtimeMaxNs candidate.runtimeMaxNs) := rfl
  have sped : (compared py baseline candidate cost).speedup =
      if comparable py baseline candidate = true ∧ candidate.runtimeMaxNs ≠ 0 then
        some (float ((baseline.runtimeMaxNs : ℚ) / candidate.runtimeMaxNs)) else none := rfl
  refine ⟨?_, ?_, ?_, ?_, ?_⟩
  · show comparable py baseline candidate = true ↔ _
    rw [comparable, Bool.and_eq_true, Bool.and_eq_true, Bool.and_eq_true, Bool.not_eq_true',
      Bool.or_eq_false_iff, and_assoc, and_assoc, and_assoc]
  · intro x hx
    rw [changed] at hx
    by_cases zero : baseline.runtimeMaxNs = 0
    · rw [if_pos zero] at hx
      exact absurd hx (by rintro ⟨⟩)
    · rw [if_neg zero] at hx
      obtain ⟨y, hy, sign⟩ := change_sign (Nat.pos_of_ne_zero zero) hb hc
      exact ⟨zero, y, (Option.some.inj hx).symm.trans hy, sign⟩
  · intro hx
    rw [changed] at hx
    by_contra zero
    rw [if_neg zero] at hx
    exact absurd hx (by rintro ⟨⟩)
  · intro x hx
    rw [sped] at hx
    by_cases h : comparable py baseline candidate = true ∧ candidate.runtimeMaxNs ≠ 0
    · rw [if_pos h] at hx
      obtain rfl := Option.some.inj hx
      obtain ⟨less, same, more⟩ :=
        @quotient_side candidate.runtimeMaxNs baseline.runtimeMaxNs (Nat.pos_of_ne_zero h.2) hc
      refine ⟨h.1, ?_⟩
      obtain hlt | heq | hgt := lt_trichotomy baseline.runtimeMaxNs candidate.runtimeMaxNs
      · have below : float ((baseline.runtimeMaxNs : ℚ) / candidate.runtimeMaxNs) < 1 :=
          (less hlt).trans_lt (sub_lt_self 1 ulp_pos)
        exact ⟨iff_of_false below.not_gt hlt.not_gt, iff_of_false below.ne hlt.ne',
          iff_of_true below hlt⟩
      · have one := same heq
        exact ⟨iff_of_false one.not_gt heq.not_gt, iff_of_true one heq.symm,
          iff_of_false one.not_lt heq.not_lt⟩
      · have above : 1 < float ((baseline.runtimeMaxNs : ℚ) / candidate.runtimeMaxNs) :=
          (lt_add_of_pos_right 1 ulp_pos).trans_le (more hgt)
        exact ⟨iff_of_true above hgt, iff_of_false above.ne' hgt.ne, iff_of_false above.not_gt
          hgt.not_gt⟩
    · rw [if_neg h] at hx
      exact absurd hx (by rintro ⟨⟩)
  · intro hx hcomparable
    rw [sped] at hx
    by_contra zero
    rw [if_pos ⟨hcomparable, zero⟩] at hx
    exact absurd hx (by rintro ⟨⟩)

theorem comparison_verdict_sample : ∃ c,
    compare (Browser.runReader 1000) (heatRun 2000) (heatRun 1000) none = .ok c ∧
      Verdict (Browser.runReader 1000) (heatRun 2000) (heatRun 1000) c := by
  have h : compare (Browser.runReader 1000) (heatRun 2000) (heatRun 1000) none =
      .ok (compared (Browser.runReader 1000) (heatRun 2000) (heatRun 1000) none) :=
    compare_safe (by decide) (by decide) none
  exact ⟨_, h, comparison_verdict h (by decide) (by decide)⟩

end verdict

end Comparison

end RankLens
