import RankLens.Agent
import RankLens.Doubles
import RankLens.JsonReader

namespace RankLens

namespace Literal

/-- The number is written without a fraction and without an exponent. -/
def plain (a : Literal) : Bool := decide (a.fraction = [] ∧ a.exponent = none)

def power : Option (Bool × List Char) → Int
  | none => 0
  | some (negative, ds) =>
    if negative then -(Nat.ofDigitChars 10 ds 0 : Int) else Nat.ofDigitChars 10 ds 0

def magnitude (a : Literal) : ℚ :=
  (Nat.ofDigitChars 10 a.whole 0 + Nat.ofDigitChars 10 a.fraction 0 / 10 ^ a.fraction.length) *
    10 ^ power a.exponent

end Literal

namespace Compact

open JsonReader (Scalar)
open Doubles
open Analyzer (float)

section summary

/-- What `json.Unmarshal` makes of a string: a code point that is no character is replaced. -/
def replaced (t : List Nat) : List Nat :=
  t.map (fun n => if n.isValidChar then n else 0xFFFD)

def float64 (a : Literal) : Bool × ℚ := (a.negative, float a.magnitude)

/-- A number with a larger one is refused. -/
def overflows (a : Literal) : Bool := decide (2 ^ 1024 - 2 ^ 970 ≤ a.magnitude)

def maxNesting : Nat := 10000

/-- `json.Unmarshal` into a map, which also accepts `null`. -/
def unmarshal (text : List Char) : Option (Tree (List Nat) (Bool × ℚ)) :=
  match JsonReader.read text with
  | none => none
  | some t =>
    if maxNesting < t.nesting ∨ t.numbers.any overflows then none
    else
      match t with
      | .object _ => some (t.build replaced float64)
      | .null => some (t.build replaced float64)
      | _ => none

def pad : Nat → Nat → List Char
  | 0, _ => []
  | j + 1, d => pad j (d / 10) ++ [Nat.digitChar (d % 10)]

/-- A number whose last digits stand after the point. -/
def decimal (negative : Bool) (d j : Nat) (exponent : Option Int) : Literal where
  negative := negative
  whole := Nat.toDigits 10 (d / 10 ^ j)
  fraction := pad j d
  exponent := exponent.map (fun e => (decide (e < 0), Nat.toDigits 10 e.natAbs))

/-- The double 1e-6. -/
def micro : ℚ := float (1 / 10 ^ 6)

/-- A float as `json.Marshal` writes it: its shortest decimal, with an exponent only when it is very
small or very large. -/
def formatFloat (x : Bool × ℚ) : Literal :=
  if x.2 = 0 then decimal x.1 0 0 none
  else
    let (d, k) := shortest x.2
    if x.2 < micro ∨ 10 ^ 21 ≤ x.2 then decimal x.1 d (Nat.log 10 d) (some (k + Nat.log 10 d))
    else if 0 ≤ k then decimal x.1 (d * 10 ^ k.toNat) 0 none
    else decimal x.1 d (-k).toNat none

def record (file : String) (summary : Tree (List Nat) Literal) : Tree (List Nat) Literal :=
  .object [(PyStr.ofString "payload", summary),
    (PyStr.ofString "record_kind", .string (PyStr.ofString "rank_summary_file")),
    (PyStr.ofString "source_file", .string (PyStr.ofString file))]

/-- The line of a rank summary file, with what `json.Unmarshal` and `json.Marshal` do to its
text. -/
def compactSummary (file : String) (text : List Char) : Except Agent.Error (List Char) :=
  match unmarshal text with
  | none => .error (.invalidSummary file)
  | some summary =>
    .ok (JsonReader.write (record file (summary.map formatFloat)) ++ ['\n'])

end summary

section documents

/-- The value of a text, with its numbers as they are written. -/
def document (text : List Char) : Option (Tree (List Nat) Literal) :=
  (JsonReader.read text).map (fun t => t.build id id)

def signed (negative : Bool) (x : ℚ) : ℚ := if negative then -x else x

def exact (a : Literal) : ℚ := signed a.negative a.magnitude

def double (a : Literal) : ℚ := signed a.negative (float a.magnitude)

/-- The second number stands for the first: an integer is the same integer, and any other number
has the same double, or is written as the integer that its double is. -/
def Same (a b : Literal) : Prop :=
  if a.plain then b.plain = true ∧ exact b = exact a
  else if b.plain then exact b = double a
  else double b = double a

/-- The line is one record, and its payload is the document. -/
def Preserved (text line : List Char) : Prop :=
  ∃ body members doc payload, line = body ++ ['\n'] ∧ '\n' ∉ body ∧
    document text = some doc ∧ document body = some (.object members) ∧
    members.lookup (PyStr.ofString "payload") = some payload ∧ doc.Rel Same payload

/-- An integer is kept when it is the shortest decimal of its double, and below 10^21. Any other
number is kept unless its double is an integer that is written by other digits. -/
def KeptNumber (a : Literal) : Prop :=
  if a.plain then
    Nat.ofDigitChars 10 a.whole 0 = 0 ∨
      (Nat.ofDigitChars 10 a.whole 0 < 10 ^ 21 ∧ Own (Nat.ofDigitChars 10 a.whole 0))
  else ∀ n : Nat, n < 10 ^ 21 → Own n → float n = float a.magnitude → (n : ℚ) = float a.magnitude

/-- Each string and key is made of characters, and each number is kept. -/
def Kept (doc : Tree (List Nat) Literal) : Prop := doc.All Scalar KeptNumber

end documents

section numbers

variable {negative : Bool} {d j : Nat} {exponent : Option Int} {a : Literal}

theorem pad_length (j d : Nat) : (pad j d).length = j := by
  induction j generalizing d with
  | zero => rfl
  | succ j ih => rw [pad, List.length_append, ih, List.length_singleton]

theorem pad_value (j d : Nat) : Nat.ofDigitChars 10 (pad j d) 0 = d % 10 ^ j := by
  induction j generalizing d with
  | zero => rw [pad, Nat.ofDigitChars_nil, pow_zero, Nat.mod_one]
  | succ j ih =>
    rw [pad, Nat.ofDigitChars_append, ih,
      Nat.ofDigitChars_cons_digitChar_of_lt_ten (Nat.mod_lt d (by decide)), Nat.ofDigitChars_nil,
      pow_succ', Nat.mod_mul]
    omega

theorem pad_digits (j d : Nat) : ∀ c ∈ pad j d, c.isDigit = true := by
  induction j generalizing d with
  | zero => exact fun c hc => nomatch hc
  | succ j ih =>
    intro c hc
    rw [pad, List.mem_append, List.mem_singleton] at hc
    obtain hc | rfl := hc
    · exact ih _ c hc
    · rw [Nat.isDigit_digitChar, decide_eq_true_eq]
      exact Nat.mod_lt d (by decide)

theorem toDigits_head (n : Nat) (h : (Nat.toDigits 10 n).head? = some '0') :
    Nat.toDigits 10 n = ['0'] := by
  have positive : ∀ n, 0 < n → (Nat.toDigits 10 n).head? ≠ some '0' := by
    intro n
    induction n using Nat.strong_induction_on with
    | _ n ih =>
      intro hpos hn
      obtain hlt | hge := lt_or_ge n 10
      · rw [Nat.toDigits_of_lt_base hlt, List.head?_cons, Option.some.injEq,
          Nat.digitChar_eq_zero] at hn
        omega
      · rw [Nat.toDigits_of_base_le (by decide) hge,
          List.head?_append_of_ne_nil _ Nat.toDigits_ne_nil] at hn
        exact ih (n / 10) (by omega) (by omega) hn
  obtain rfl | hpos := Nat.eq_zero_or_pos n
  · exact Nat.toDigits_zero 10
  · exact absurd h (positive n hpos)

theorem toDigits_digits (n : Nat) : ∀ c ∈ Nat.toDigits 10 n, c.isDigit = true :=
  fun _ hc => Nat.isDigit_of_mem_toDigits (by decide) (by decide) hc

theorem decimal_wellFormed : (decimal negative d j exponent).WellFormed where
  nonempty := Nat.toDigits_ne_nil
  whole := toDigits_digits _
  leading := toDigits_head _
  fraction := pad_digits j d
  exponent p hp := by
    obtain ⟨e, _, rfl⟩ := Option.map_eq_some_iff.mp hp
    exact ⟨Nat.toDigits_ne_nil, toDigits_digits _⟩

theorem formatFloat_wellFormed (x : Bool × ℚ) : (formatFloat x).WellFormed := by
  unfold formatFloat
  dsimp only
  split_ifs
  all_goals exact decimal_wellFormed

theorem formatFloat_negative (x : Bool × ℚ) : (formatFloat x).negative = x.1 := by
  unfold formatFloat
  dsimp only
  split_ifs
  all_goals rfl

theorem power_map (exponent : Option Int) : Literal.power
    (exponent.map (fun e => (decide (e < 0), Nat.toDigits 10 e.natAbs))) = exponent.getD 0 := by
  cases exponent with
  | none => rfl
  | some e =>
    rw [Option.map_some, Literal.power, Nat.ofDigitChars_ten_toDigits, Option.getD_some]
    split_ifs with h
    · rw [decide_eq_true_eq] at h
      omega
    · rw [decide_eq_true_eq] at h
      omega

theorem decimal_magnitude :
    (decimal negative d j exponent).magnitude = d / 10 ^ j * 10 ^ exponent.getD 0 := by
  have parts : (d : ℚ) = 10 ^ j * (d / 10 ^ j : Nat) + (d % 10 ^ j : Nat) := by
    exact_mod_cast (Nat.div_add_mod d (10 ^ j)).symm
  have ten : (10 : ℚ) ^ j ≠ 0 := pow_ne_zero j (by norm_num)
  rw [Literal.magnitude]
  simp only [decimal, power_map, Nat.ofDigitChars_ten_toDigits, pad_value, pad_length]
  congr 1
  rw [eq_div_iff ten, add_mul, div_mul_cancel₀ _ ten]
  rw [parts]
  ring_nf

theorem decimal_plain : (decimal negative d j exponent).plain = true ↔ j = 0 ∧ exponent = none := by
  have empty : pad j d = [] ↔ j = 0 := by
    rw [← List.length_eq_zero_iff, pad_length]
  simp only [Literal.plain, decimal, decide_eq_true_eq, empty, Option.map_eq_none_iff]

theorem plain_magnitude (h : a.plain = true) :
    a.magnitude = (Nat.ofDigitChars 10 a.whole 0 : ℚ) := by
  rw [Literal.plain, decide_eq_true_eq] at h
  rw [Literal.magnitude, h.1, h.2, Nat.ofDigitChars_nil, Literal.power]
  simp

theorem magnitude_nonneg (a : Literal) : 0 ≤ a.magnitude := by
  refine mul_nonneg (add_nonneg (Nat.cast_nonneg _) ?_) (ten_pos _).le
  exact div_nonneg (Nat.cast_nonneg _) (pow_nonneg (by norm_num) _)

end numbers

section kept

variable {a : Literal} {f x y : ℚ} {n : Nat} {negative : Bool}

theorem signed_inj : signed negative x = signed negative y ↔ x = y := by
  cases negative with
  | true => exact neg_inj
  | false => exact Iff.rfl

theorem formatFloat_spec (hpos : 0 < f) :
    (formatFloat (negative, f)).magnitude = (shortest f).1 * 10 ^ (shortest f).2 ∧
      ((formatFloat (negative, f)).plain = true ↔
        (micro ≤ f ∧ f < 10 ^ 21) ∧ 0 ≤ (shortest f).2) := by
  unfold formatFloat
  rw [if_neg hpos.ne']
  obtain ⟨d, k⟩ := shortest f
  dsimp only
  split_ifs with hsize hk
  · constructor
    · rw [decimal_magnitude, Option.getD_some, zpow_add₀ (by norm_num), zpow_natCast]
      field_simp
    · rw [decimal_plain]
      refine ⟨fun h => (nomatch h.2), fun h => ?_⟩
      exact absurd hsize (not_or.mpr ⟨not_lt.mpr h.1.1, not_le.mpr h.1.2⟩)
  · obtain ⟨hlow, hhigh⟩ := not_or.mp hsize
    obtain ⟨j, rfl⟩ : ∃ j : Nat, k = j := ⟨k.toNat, by omega⟩
    constructor
    · rw [decimal_magnitude, Int.toNat_natCast, decimal_cast, pow_zero, Option.getD_none, zpow_zero,
        div_one, mul_one]
    · rw [decimal_plain]
      exact ⟨fun _ => ⟨⟨not_lt.mp hlow, not_le.mp hhigh⟩, hk⟩, fun _ => ⟨rfl, rfl⟩⟩
  · obtain ⟨j, rfl⟩ : ∃ j : Nat, k = -j := ⟨(-k).toNat, by omega⟩
    constructor
    · rw [decimal_magnitude, neg_neg, Int.toNat_natCast, Option.getD_none, zpow_zero, mul_one,
        zpow_neg, zpow_natCast, div_eq_mul_inv]
    · rw [decimal_plain]
      refine ⟨fun h => ?_, fun h => absurd h.2 hk⟩
      omega

theorem micro_le_one : micro ≤ 1 := by
  have one := (double_natural (n := 1) (by norm_num)).float
  rw [Nat.cast_one] at one
  rw [← one]
  exact float_mono (by norm_num) (by norm_num)

theorem float_top : float (10 ^ 21 : ℚ) = 10 ^ 21 :=
  Double.float ⟨5 ^ 21, 21, by norm_num, by norm_num, by norm_num⟩

theorem own_shortest (hn : 0 < n) (hf : float (n : ℚ) = f) : n < 10 ^ 21 ∧ Own n ↔
    f < 10 ^ 21 ∧ 0 ≤ (shortest f).2 ∧ (n : ℚ) = (shortest f).1 * 10 ^ (shortest f).2 := by
  have hdouble : Double f := hf ▸ float_double (Nat.cast_nonneg n)
  have hpos : 0 < f := by
    have := float_one_le hn
    linarith
  have short := shortest_short hdouble hpos
  constructor
  · rintro ⟨hlt, hown⟩
    obtain ⟨j, d, hval, own⟩ := own_iff.mp hown
    rw [hf] at own
    obtain ⟨hk, hd⟩ := own.unique hdouble short
    refine ⟨?_, by omega, ?_⟩
    · have most : f ≤ 10 ^ 21 := by
        have grown := float_mono (x := (n : ℚ)) (y := 10 ^ 21) (Nat.cast_nonneg n)
          (by exact_mod_cast hlt.le)
        rwa [hf, float_top] at grown
      refine lt_of_le_of_ne most (fun htop => ?_)
      -- Then 10^21 itself is shorter.
      have high : ¬(j : Int) < 21 := by
        intro hj
        refine own.shortest 21 hj 1 ?_
        rw [Back, Nat.cast_one, one_mul, htop]
        exact float_top
      have large : 10 ^ 21 ≤ 10 ^ j := Nat.pow_le_pow_right (by decide) (by omega)
      have some : 0 < d := Nat.pos_of_ne_zero (fun h => by rw [h] at hval; omega)
      have := Nat.le_mul_of_pos_left (10 ^ j) some
      omega
    · rw [← hk, ← hd, ← decimal_cast, ← hval]
  · rintro ⟨hlt, hk, hval⟩
    obtain ⟨j, hj⟩ : ∃ j : Nat, (shortest f).2 = j := ⟨(shortest f).2.toNat, by omega⟩
    rw [hj] at hval short
    rw [← decimal_cast] at hval
    refine ⟨?_, own_iff.mpr ⟨j, (shortest f).1, by exact_mod_cast hval, hf ▸ short⟩⟩
    by_contra hge
    have grown := float_mono (x := 10 ^ 21) (y := (n : ℚ)) (by norm_num)
      (by exact_mod_cast not_lt.mp hge)
    rw [hf, float_top] at grown
    linarith

theorem same_zero (hzero : float a.magnitude = 0) :
    Same a (formatFloat (float64 a)) ↔ KeptNumber a := by
  have text : formatFloat (float64 a) = decimal a.negative 0 0 none := if_pos hzero
  have plain : (decimal a.negative 0 0 none).plain = true := decimal_plain.mpr ⟨rfl, rfl⟩
  have written : exact (decimal a.negative 0 0 none) = signed a.negative 0 := by
    rw [exact, decimal_magnitude, Nat.cast_zero, zero_div, zero_mul]
    rfl
  have none : ∀ n : Nat, float (n : ℚ) = 0 → n = 0 := by
    intro n hn
    by_contra hne
    have := float_one_le (Nat.pos_of_ne_zero hne)
    rw [hn] at this
    linarith
  rw [text]
  by_cases ha : a.plain = true
  · have whole := none _ (plain_magnitude ha ▸ hzero)
    rw [Same, if_pos ha, KeptNumber, if_pos ha]
    refine ⟨fun _ => Or.inl whole, fun _ => ⟨plain, ?_⟩⟩
    rw [written, exact, plain_magnitude ha, whole, Nat.cast_zero]
  · rw [Same, if_neg ha, KeptNumber, if_neg ha, if_pos plain, written, double, hzero]
    refine ⟨fun _ n _ _ hn => ?_, fun _ => rfl⟩
    rw [none n hn, Nat.cast_zero]

theorem same_positive (hpos : 0 < float a.magnitude) :
    Same a (formatFloat (float64 a)) ↔ KeptNumber a := by
  obtain ⟨value, plain⟩ := @formatFloat_spec (float a.magnitude) a.negative hpos
  have sign : (formatFloat (float64 a)).negative = a.negative := formatFloat_negative _
  have hdouble := float_double (magnitude_nonneg a)
  have short := shortest_short hdouble hpos
  have small : ∀ n : Nat, float (n : ℚ) = float a.magnitude → 0 < n ∧
      micro ≤ float a.magnitude := by
    intro n hn
    have some : 0 < n := by
      by_contra hzero
      rw [Nat.eq_zero_of_not_pos hzero, Nat.cast_zero, float_zero] at hn
      linarith
    have := float_one_le some
    rw [hn] at this
    exact ⟨some, micro_le_one.trans this⟩
  change (formatFloat (float64 a)).magnitude = _ at value
  change (formatFloat (float64 a)).plain = true ↔ _ at plain
  by_cases ha : a.plain = true
  · have whole := plain_magnitude ha
    obtain ⟨some, low⟩ := small _ (by rw [whole])
    have own := own_shortest some (f := float a.magnitude) (by rw [whole])
    rw [Same, if_pos ha, KeptNumber, if_pos ha, exact, exact, sign, signed_inj, plain, value,
      or_iff_right some.ne', own, whole]
    rw [whole] at low
    exact ⟨fun h => ⟨h.1.1.2, h.1.2, h.2.symm⟩, fun h => ⟨⟨⟨low, h.1⟩, h.2.1⟩, h.2.2.symm⟩⟩
  · rw [Same, if_neg ha, KeptNumber, if_neg ha]
    split_ifs with hb
    · obtain ⟨⟨low, high⟩, hk⟩ := plain.mp hb
      rw [exact, double, sign, signed_inj, value]
      constructor
      · intro heq n hlt hown hn
        rw [← heq]
        exact ((own_shortest (small n hn).1 hn).mp ⟨hlt, hown⟩).2.2
      · intro hall
        obtain ⟨j, hj⟩ : ∃ j : Nat, (shortest (float a.magnitude)).2 = j :=
          ⟨(shortest (float a.magnitude)).2.toNat, by omega⟩
        have back := short.back
        rw [Back, hj, ← decimal_cast] at back
        obtain ⟨hlt, hown⟩ := (own_shortest (small _ back).1 back).mpr
          ⟨high, hk, by rw [decimal_cast, hj]⟩
        rw [hj, ← decimal_cast]
        exact hall _ hlt hown back
    · refine ⟨fun _ n hlt hown hn => ?_, fun _ => ?_⟩
      · obtain ⟨some, low⟩ := small n hn
        obtain ⟨high, hk, -⟩ := (own_shortest some hn).mp ⟨hlt, hown⟩
        exact absurd (plain.mpr ⟨⟨low, high⟩, hk⟩) hb
      · rw [double, double, sign, signed_inj, value]
        exact short.back

/-- A number stands for itself after the summary is decoded and encoded exactly when it is kept. -/
theorem same_iff (a : Literal) : Same a (formatFloat (float64 a)) ↔ KeptNumber a := by
  obtain hzero | hpos := (float_double (magnitude_nonneg a)).nonneg.eq_or_lt
  · exact same_zero hzero.symm
  · exact same_positive hpos

example : (formatFloat (false, micro)).text = "0.000001".toList := by decide +kernel

example : (formatFloat (true, 2 ^ 60)).text = "-1152921504606847000".toList := by decide +kernel

theorem kept_small (ha : a.plain = true) (h : Nat.ofDigitChars 10 a.whole 0 < 2 ^ 53) :
    KeptNumber a := by
  rw [KeptNumber, if_pos ha]
  obtain hzero | hpos := Nat.eq_zero_or_pos (Nat.ofDigitChars 10 a.whole 0)
  · exact Or.inl hzero
  · exact Or.inr ⟨h.trans (by norm_num), own_small hpos h⟩

end kept

section lines

variable {file : String} {text line : List Char} {t doc summary : Tree (List Nat) Literal}

theorem scalar_replaced (t : List Nat) : Scalar (replaced t) := by
  intro n hn
  obtain ⟨m, _, rfl⟩ := List.mem_map.mp hn
  split_ifs with h
  · exact h
  · decide

theorem replaced_scalar {t : List Nat} (h : Scalar t) : replaced t = t :=
  (List.map_congr_left (fun n hn => if_pos (h n hn))).trans (List.map_id t)

theorem scalar_ofString (s : String) : Scalar (PyStr.ofString s) := by
  intro n hn
  obtain ⟨c, _, rfl⟩ := List.mem_map.mp hn
  exact c.valid

theorem compactSummary_cases (h : compactSummary file text = .ok line) :
    ∃ t, JsonReader.read text = some t ∧
      line = JsonReader.write (record file ((t.build replaced float64).map formatFloat)) ++
        ['\n'] := by
  unfold compactSummary unmarshal at h
  cases ht : JsonReader.read text with
  | none =>
    rw [ht] at h
    cases h
  | some t =>
    rw [ht] at h
    refine ⟨t, rfl, ?_⟩
    dsimp only at h
    split_ifs at h
    cases t with
    | null | object ms => exact (Except.ok.inj h).symm
    | bool b | number x | string s | array xs => cases h

theorem written_all (t : Tree (List Nat) Literal) :
    ((t.build replaced float64).map formatFloat).All Scalar Literal.WellFormed :=
  Tree.all_map _ formatFloat_wellFormed (Tree.build_texts scalar_replaced t)

theorem record_all (h : summary.All Scalar Literal.WellFormed) :
    (record file summary).All Scalar Literal.WellFormed := by
  simp only [record, Tree.All, Tree.AllMembers, and_true]
  exact ⟨⟨scalar_ofString _, h⟩, ⟨scalar_ofString _, scalar_ofString _⟩, scalar_ofString _,
    scalar_ofString _⟩

theorem record_normal (h : summary.Normal) : (record file summary).Normal := by
  have keys : [PyStr.ofString "payload", PyStr.ofString "record_kind",
      PyStr.ofString "source_file"].Pairwise (· < ·) := by decide
  simp only [record, Tree.Normal, Tree.NormalMembers, and_true]
  exact ⟨keys, h⟩

theorem document_record (t : Tree (List Nat) Literal) :
    document (JsonReader.write (record file ((t.build replaced float64).map formatFloat))) =
      some (record file ((t.build replaced float64).map formatFloat)) := by
  rw [document, JsonReader.read_write (record_all (written_all t)), Option.map_some,
    Tree.build_of_normal _ (record_normal (Tree.map_normal _ (Tree.build_normal t)))]

theorem newline_free (h : summary.All Scalar Literal.WellFormed) :
    '\n' ∉ JsonReader.write (record file summary) :=
  fun hmem => absurd (JsonReader.write_printable _ (record_all h) _ hmem) (by decide)

theorem preserved_rel (ht : JsonReader.read text = some t)
    (hline : line = JsonReader.write (record file ((t.build replaced float64).map formatFloat)) ++
      ['\n']) : Preserved text line ↔
        (t.build id id).Rel Same ((t.build replaced float64).map formatFloat) := by
  have hdoc : document text = some (t.build id id) := by rw [document, ht, Option.map_some]
  constructor
  · rintro ⟨body, members, doc, payload, hbody, -, hdoc', hmembers, hpayload, hrel⟩
    obtain rfl := List.append_cancel_right (hline.symm.trans hbody)
    rw [document_record, record, Option.some.injEq, Tree.object.injEq] at hmembers
    rw [← hmembers, List.lookup_cons_self, Option.some.injEq] at hpayload
    rw [hdoc, Option.some.injEq] at hdoc'
    rwa [hdoc', hpayload]
  · intro hrel
    exact ⟨_, _, _, _, hline, newline_free (written_all t), hdoc, document_record t,
      List.lookup_cons_self, hrel⟩

theorem rel_iff_kept (t : Tree (List Nat) Literal) :
    (t.build id id).Rel Same ((t.build replaced float64).map formatFloat) ↔
      Kept (t.build id id) := by
  have numbers : (fun a => Same a (formatFloat (float64 a))) = KeptNumber :=
    funext (fun a => propext (same_iff a))
  have image : (t.build id id).All Scalar (fun _ => True) →
      (t.build replaced float64).map formatFloat =
        (t.build id id).map (fun a => formatFloat (float64 a)) := by
    intro htexts
    rw [Tree.build_map (fun _ => replaced_scalar) t htexts, Tree.map_map]
  rw [Kept, Tree.all_and, ← numbers]
  constructor
  · intro hrel
    have texts : (t.build id id).All Scalar (fun _ => True) :=
      Tree.Rel.texts _ _ hrel ((Tree.all_and _).mp (written_all t)).1
    rw [image texts] at hrel
    exact ⟨texts, (Tree.rel_map_iff _).mp hrel⟩
  · rintro ⟨texts, hnumbers⟩
    rw [image texts]
    exact (Tree.rel_map_iff _).mpr hnumbers

theorem preserved_iff_kept (h : compactSummary file text = .ok line)
    (hdoc : document text = some doc) : Preserved text line ↔ Kept doc := by
  obtain ⟨t, ht, hline⟩ := compactSummary_cases h
  rw [document, ht, Option.map_some, Option.some.injEq] at hdoc
  rw [preserved_rel ht hline, rel_iff_kept, hdoc]

theorem compactSummary_write {ms : List (List Nat × Tree (List Nat) Literal)}
    (h : (Tree.object ms).All Scalar Literal.WellFormed)
    (hnesting : (Tree.object ms).nesting ≤ maxNesting)
    (hnumbers : (Tree.object ms).numbers.any overflows = false) :
    compactSummary file (JsonReader.write (.object ms)) =
      .ok (JsonReader.write (record file (((Tree.object ms).build replaced float64).map
        formatFloat)) ++ ['\n']) := by
  have none : ¬(maxNesting < (Tree.object ms).nesting ∨
      (Tree.object ms).numbers.any overflows = true) := by
    rw [hnumbers]
    exact not_or.mpr ⟨not_lt.mpr hnesting, Bool.false_ne_true⟩
  rw [compactSummary, unmarshal, JsonReader.read_write h]
  dsimp only
  rw [if_neg none]

def counted (n : Nat) : Tree (List Nat) Literal :=
  .object [(PyStr.ofString "bytes_sent", .number (decimal false n 0 none))]

theorem counted_all (n : Nat) : (counted n).All Scalar Literal.WellFormed := by
  simp only [counted, Tree.All, Tree.AllMembers, and_true]
  exact ⟨scalar_ofString _, decimal_wellFormed⟩

theorem counted_numbers {n : Nat} (h : n < 2 ^ 64) :
    (counted n).numbers.any overflows = false := by
  have numbers : (counted n).numbers = [decimal false n 0 none] := rfl
  rw [numbers, List.any_cons, List.any_nil, Bool.or_false, overflows, decide_eq_false_iff_not,
    decimal_magnitude, Option.getD_none, zpow_zero, pow_zero, div_one, mul_one, not_le]
  have small : (n : ℚ) < 2 ^ 64 := by exact_mod_cast h
  have high : (2 : ℚ) ^ 64 ≤ 2 ^ 970 := pow_le_pow_right₀ (by norm_num) (by norm_num)
  have top : (2 : ℚ) ^ 970 * 2 ≤ 2 ^ 1024 := by
    rw [← pow_succ]
    exact pow_le_pow_right₀ (by norm_num) (by norm_num)
  calc (n : ℚ) < 2 ^ 64 := small
    _ ≤ 2 ^ 970 := high
    _ = 2 ^ 970 * 2 - 2 ^ 970 := by rw [mul_two, add_sub_cancel_right]
    _ ≤ 2 ^ 1024 - 2 ^ 970 := sub_le_sub_right top _

/-- Every counter of 64 bits is accepted, and it is kept when it is its own shortest decimal. -/
theorem counted_preserved {n : Nat} (h : n < 2 ^ 64) : ∃ line,
    compactSummary file (JsonReader.write (counted n)) = .ok line ∧
      (Preserved (JsonReader.write (counted n)) line ↔ n = 0 ∨ Own n) := by
  have accepted := @compactSummary_write file _ (counted_all n)
    (show 1 ≤ maxNesting by decide) (counted_numbers h)
  have normal : (counted n).Normal := by
    simp only [counted, Tree.Normal, Tree.NormalMembers, and_true]
    exact List.pairwise_singleton _ _
  have hdoc : document (JsonReader.write (counted n)) = some (counted n) := by
    rw [document, JsonReader.read_write (counted_all n), Option.map_some,
      Tree.build_of_normal _ normal]
  have plain : (decimal false n 0 none).plain = true := decimal_plain.mpr ⟨rfl, rfl⟩
  have whole : Nat.ofDigitChars 10 (decimal false n 0 none).whole 0 = n := by
    simp only [decimal, Nat.ofDigitChars_ten_toDigits, pow_zero, Nat.div_one]
  have below : n < 10 ^ 21 := h.trans (by norm_num)
  refine ⟨_, accepted, (preserved_iff_kept accepted hdoc).trans ?_⟩
  simp only [Kept, counted, Tree.All, Tree.AllMembers, and_true, scalar_ofString, true_and]
  rw [KeptNumber, if_pos plain, whole, and_iff_right below]

/-- Every accepted summary becomes one record, whose payload is the document exactly when each
number of the document is kept and each of its texts is made of characters. -/
theorem summary_preserved (h : compactSummary file text = .ok line)
    (hdoc : document text = some doc) :
    (∃ body, line = body ++ ['\n'] ∧ '\n' ∉ body) ∧ (Preserved text line ↔ Kept doc) := by
  obtain ⟨t, ht, hline⟩ := compactSummary_cases h
  exact ⟨⟨_, hline, newline_free (written_all t)⟩, preserved_iff_kept h hdoc⟩

example : compactSummary "rank-0.json" "\x7b\"b\": 1e21, \"a\": -0.0, \"b\": 2 \x7d".toList =
    .ok ("\x7b\"payload\":\x7b\"a\":-0,\"b\":2\x7d,\"record_kind\":\"rank_summary_file\",".toList ++
      "\"source_file\":\"rank-0.json\"\x7d\n".toList) := by decide +kernel

theorem summary_preserved_count : ∃ line,
    compactSummary "rank-0.json" (JsonReader.write (counted 4096)) = .ok line ∧
      Preserved (JsonReader.write (counted 4096)) line := by
  have accepted := @compactSummary_write "rank-0.json" _ (counted_all 4096)
    (show 1 ≤ maxNesting by decide) (counted_numbers (by norm_num))
  have hdoc : document (JsonReader.write (counted 4096)) = some (counted 4096) := by
    rw [document, JsonReader.read_write (counted_all 4096)]
    rfl
  refine ⟨_, accepted, (summary_preserved accepted hdoc).2.mpr ?_⟩
  simp only [Kept, counted, Tree.All, Tree.AllMembers, and_true]
  exact ⟨scalar_ofString _, kept_small rfl (by decide)⟩

theorem float_odd : float (9007199254740993 : Nat) = 9007199254740992 := by
  have log : Int.log 2 ((9007199254740993 : Nat) : ℚ) = 53 := by
    have scale : Int.log 2 ((9007199254740993 : Nat) : ℚ) = (Nat.log 2 9007199254740993 : Int) :=
      Int.log_natCast 2 _
    have value : Nat.log 2 9007199254740993 = 53 :=
      (Nat.log_eq_iff (Or.inl (by decide))).mpr (by norm_num)
    rw [scale, value]
    rfl
  have floor : ⌊(9007199254740993 / 2 : ℚ)⌋ = 4503599627370496 := by
    rw [Int.floor_eq_iff]
    norm_num
  rw [float_eq, scale, log]
  norm_num [Analyzer.halfEven, floor]

theorem odd_not_own : ¬Own 9007199254740993 := by
  rintro ⟨j, hj, -, hclose⟩
  obtain _ | j := j
  · have even : float ((9007199254740992 : Nat) : ℚ) = 9007199254740992 := by
      exact_mod_cast Double.float ⟨2 ^ 53, 0, le_rfl, by decide, by norm_num⟩
    have near := hclose 9007199254740992 (by decide) (even.trans float_odd.symm) (by decide)
    rw [float_odd] at near
    norm_num at near
  · have ten : 10 ∣ 9007199254740993 := (Dvd.intro_left (10 ^ j) (pow_succ 10 j).symm).trans hj
    revert ten
    decide

/-- A counter that no double holds comes out as another one. -/
theorem summary_rounds : ∃ line, compactSummary "rank-0.json"
    "\x7b\"bytes_sent\":9007199254740993\x7d".toList = .ok line ∧
      ¬Preserved "\x7b\"bytes_sent\":9007199254740993\x7d".toList line := by
  have text : JsonReader.write (counted 9007199254740993) =
      "\x7b\"bytes_sent\":9007199254740993\x7d".toList := by decide +kernel
  obtain ⟨line, accepted, iff⟩ :=
    @counted_preserved "rank-0.json" 9007199254740993 (by norm_num)
  rw [text] at accepted iff
  refine ⟨line, accepted, fun h => ?_⟩
  obtain zero | own := iff.mp h
  · cases zero
  · exact odd_not_own own

end lines

end Compact

end RankLens
