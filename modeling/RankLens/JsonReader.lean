import RankLens.JsonText
import RankLens.JsonTree

namespace RankLens

/-- A number as it is written. -/
structure Literal where
  negative : Bool
  whole : List Char
  fraction : List Char
  exponent : Option (Bool × List Char)

namespace Literal

def sign (negative : Bool) : List Char := if negative then ['-'] else []

def fractionText (fraction : List Char) : List Char :=
  if fraction = [] then [] else '.' :: fraction

def exponentText : Option (Bool × List Char) → List Char
  | none => []
  | some (negative, ds) => 'e' :: (if negative then '-' else '+') :: ds

def text (a : Literal) : List Char :=
  sign a.negative ++ (a.whole ++ (fractionText a.fraction ++ exponentText a.exponent))

structure WellFormed (a : Literal) : Prop where
  nonempty : a.whole ≠ []
  whole : ∀ c ∈ a.whole, c.isDigit = true
  leading : a.whole.head? = some '0' → a.whole = ['0']
  fraction : ∀ c ∈ a.fraction, c.isDigit = true
  exponent : ∀ p ∈ a.exponent, p.2 ≠ [] ∧ ∀ c ∈ p.2, c.isDigit = true

end Literal

namespace JsonReader

open JsonText (skip isBlank Stops takeWhile_stops skip_start)

variable {α : Type}

section reader

def hexValue (c : Char) : Option Nat :=
  if '0' ≤ c ∧ c ≤ '9' then some (c.toNat - 48)
  else if 'a' ≤ c ∧ c ≤ 'f' then some (c.toNat - 87)
  else if 'A' ≤ c ∧ c ≤ 'F' then some (c.toNat - 55)
  else none

def unit (a b c d : Char) : Option Nat := do
  let a ← hexValue a
  let b ← hexValue b
  let c ← hexValue c
  let d ← hexValue d
  pure (4096 * a + 256 * b + 16 * c + d)

def escaped (c : Char) : Option Nat :=
  if c = '"' then some 34
  else if c = '\\' then some 92
  else if c = '/' then some 47
  else if c = 'n' then some 10
  else if c = 'r' then some 13
  else if c = 't' then some 9
  else if c = 'b' then some 8
  else if c = 'f' then some 12
  else none

def push (c : Option Nat) (p : Option (List Nat × List Char)) : Option (List Nat × List Char) :=
  match c, p with
  | some c, some (s, rest) => some (c :: s, rest)
  | _, _ => none

/-- The code units of a string, after its opening quote. -/
def units : List Char → Option (List Nat × List Char)
  | [] => none
  | '"' :: rest => some ([], rest)
  | '\\' :: 'u' :: a :: b :: c :: d :: rest => push (unit a b c d) (units rest)
  | '\\' :: c :: rest => push (escaped c) (units rest)
  | c :: rest => if c.toNat < 32 then none else push (some c.toNat) (units rest)

/-- Two escapes that stand for one code point are joined. Any other surrogate stays. -/
def join : List Nat → List Nat
  | a :: b :: rest =>
    if (0xD800 ≤ a ∧ a < 0xDC00) ∧ 0xDC00 ≤ b ∧ b < 0xE000 then
      (0x10000 + 1024 * (a - 0xD800) + (b - 0xDC00)) :: join rest
    else a :: join (b :: rest)
  | s => s

def string (s : List Char) : Option (List Nat × List Char) :=
  (units s).map (fun p => (join p.1, p.2))

def digits (s : List Char) : Option (List Char × List Char) :=
  if s.takeWhile Char.isDigit = [] then none
  else some (s.takeWhile Char.isDigit, s.dropWhile Char.isDigit)

/-- The digits before the point, without leading zeros. -/
def whole (s : List Char) : Option (List Char × List Char) :=
  (digits s).bind (fun p => if p.1.head? = some '0' ∧ p.1 ≠ ['0'] then none else some p)

def fraction : List Char → Option (List Char × List Char)
  | '.' :: s => digits s
  | s => some ([], s)

def signed : List Char → Bool × List Char
  | '+' :: s => (false, s)
  | '-' :: s => (true, s)
  | s => (false, s)

def exponent : List Char → Option (Option (Bool × List Char) × List Char)
  | c :: s =>
    if c = 'e' ∨ c = 'E' then
      (digits (signed s).2).map (fun p => (some ((signed s).1, p.1), p.2))
    else some (none, c :: s)
  | [] => some (none, [])

def number (s : List Char) : Option (Literal × List Char) :=
  let negative := s.head? = some '-'
  (whole (if negative then s.tail else s)).bind fun w =>
    (fraction w.2).bind fun f =>
      (exponent f.2).map fun e => (⟨decide negative, w.1, f.1, e.1⟩, e.2)

/-- Entries with commas between them, up to the closing bracket. -/
def entries (entry : List Char → Option (α × List Char)) (close : Char) :
    Nat → List Char → Option (List α × List Char)
  | 0, _ => none
  | fuel + 1, s =>
    match entry (skip s) with
    | none => none
    | some (x, s) =>
      match skip s with
      | [] => none
      | c :: s =>
        if c = ',' then (entries entry close fuel s).map (fun p => (x :: p.1, p.2))
        else if c = close then some ([x], s)
        else none

def sequence (entry : List Char → Option (α × List Char)) (close : Char) (s : List Char) :
    Option (List α × List Char) :=
  if (skip s).head? = some close then some ([], (skip s).tail) else entries entry close s.length s

def member (value : List Char → Option (α × List Char)) :
    List Char → Option ((List Nat × α) × List Char)
  | '"' :: s =>
    (string s).bind fun key =>
      if (skip key.2).head? = some ':' then
        (value (skip (skip key.2).tail)).map (fun p => ((key.1, p.1), p.2))
      else none
  | _ => none

/-- A value that nests less deep than `depth`. -/
def value : Nat → List Char → Option (Tree (List Nat) Literal × List Char)
  | 0, _ => none
  | depth + 1, s =>
    match s with
    | 'n' :: 'u' :: 'l' :: 'l' :: s => some (.null, s)
    | 't' :: 'r' :: 'u' :: 'e' :: s => some (.bool true, s)
    | 'f' :: 'a' :: 'l' :: 's' :: 'e' :: s => some (.bool false, s)
    | '"' :: s => (string s).map (fun p => (.string p.1, p.2))
    | '[' :: s => (sequence (value depth) ']' s).map (fun p => (.array p.1, p.2))
    | '\x7b' :: s => (sequence (member (value depth)) '\x7d' s).map (fun p => (.object p.1, p.2))
    | s => (number s).map (fun p => (.number p.1, p.2))

def read (s : List Char) : Option (Tree (List Nat) Literal) :=
  match value s.length (skip s) with
  | some (t, rest) => if skip rest = [] then some t else none
  | none => none

end reader

section writer

def quote (s : List Nat) : List Char :=
  '"' :: (s.map Char.ofNat).flatMap JsonValue.escape ++ ['"']

def joined : List (List Char) → List Char
  | [] => []
  | [x] => x
  | x :: y :: xs => x ++ ',' :: joined (y :: xs)

-- The text of a tree, on one line and without blanks.
mutual

def write : Tree (List Nat) Literal → List Char
  | .null => ['n', 'u', 'l', 'l']
  | .bool true => ['t', 'r', 'u', 'e']
  | .bool false => ['f', 'a', 'l', 's', 'e']
  | .number a => a.text
  | .string s => quote s
  | .array xs => '[' :: (joined (writeItems xs) ++ [']'])
  | .object ms => '\x7b' :: (joined (writeMembers ms) ++ ['\x7d'])

def writeItems : List (Tree (List Nat) Literal) → List (List Char)
  | [] => []
  | x :: xs => write x :: writeItems xs

def writeMembers : List (List Nat × Tree (List Nat) Literal) → List (List Char)
  | [] => []
  | (key, x) :: ms => (quote key ++ ':' :: write x) :: writeMembers ms

end

end writer

section strings

variable {s rest : List Char} {c : Char}

theorem hexValue_digit {n : Nat} (h : n < 16) : hexValue (JsonValue.hexDigit n) = some n := by
  interval_cases n <;> decide

theorem units_plain (hlow : 32 ≤ c.toNat) (hquote : c ≠ '"') (hslash : c ≠ '\\') :
    units (c :: rest) = push (some c.toNat) (units rest) := by
  rw [units.eq_def]
  split
  · next heq => cases heq
  · next heq => exact absurd (List.cons.inj heq).1 hquote
  · next heq => exact absurd (List.cons.inj heq).1 hslash
  · next heq => exact absurd (List.cons.inj heq).1 hslash
  · next heq =>
    obtain ⟨rfl, rfl⟩ := List.cons.inj heq
    rw [if_neg (not_lt.mpr hlow)]

theorem units_short {d : Char} {n : Nat} (h : escaped d = some n) :
    units ('\\' :: d :: rest) = push (some n) (units rest) := by
  have long : d ≠ 'u' := by
    rintro rfl
    have none : escaped 'u' = none := by decide
    rw [none] at h
    cases h
  rw [units.eq_def]
  split
  · next heq => cases heq
  · next heq => exact absurd (List.cons.inj heq).1 (by decide)
  · next heq => exact absurd (List.cons.inj (List.cons.inj heq).2).1 long
  · next heq =>
    obtain ⟨rfl, rfl⟩ := List.cons.inj (List.cons.inj heq).2
    rw [h]
  · next hslash heq =>
    obtain ⟨rfl, rfl⟩ := List.cons.inj heq
    exact absurd rfl (hslash _ _ rfl)

theorem unit_digits (n : Nat) (h : n < 65536) :
    unit (JsonValue.hexDigit (n / 4096 % 16)) (JsonValue.hexDigit (n / 256 % 16))
      (JsonValue.hexDigit (n / 16 % 16)) (JsonValue.hexDigit (n % 16)) = some n := by
  have digit : ∀ k : Nat, hexValue (JsonValue.hexDigit (k % 16)) = some (k % 16) :=
    fun k => hexValue_digit (Nat.mod_lt k (by decide))
  unfold unit
  simp only [digit, Option.bind_eq_bind, Option.bind_some, Option.pure_def, Option.some.injEq]
  omega

theorem units_escape (c : Char) (rest : List Char) :
    units (JsonValue.escape c ++ rest) = push (some c.toNat) (units rest) := by
  unfold JsonValue.escape
  split_ifs with h1 h2 h3 h4 h5 h6 h7 h8
  · subst h1
    exact units_short rfl
  · subst h2
    exact units_short rfl
  · subst h3
    exact units_short rfl
  · subst h4
    exact units_short rfl
  · subst h5
    exact units_short rfl
  · rw [h6]
    exact units_short rfl
  · rw [h7]
    exact units_short rfl
  · have low : c.toNat < 65536 := by
      obtain h | h | h | h := h8
      · exact h.trans (by decide)
      · simp only [List.mem_cons, List.not_mem_nil, or_false] at h
        obtain rfl | rfl | rfl := h <;> decide
      · rw [h]
        decide
      · rw [h]
        decide
    have read := unit_digits c.toNat low
    show units ('\\' :: 'u' :: _ :: _ :: _ :: _ :: rest) = _
    rw [units, read]
  · exact units_plain (Nat.le_of_not_lt (not_or.mp h8).1) h1 h2

theorem units_quote (cs rest : List Char) :
    units (cs.flatMap JsonValue.escape ++ '"' :: rest) = some (cs.map Char.toNat, rest) := by
  induction cs with
  | nil => rw [List.flatMap_nil, List.nil_append, units, List.map_nil]
  | cons c cs ih => rw [List.flatMap_cons, List.append_assoc, units_escape, ih, push, List.map_cons]

/-- No code point of the text is a surrogate. -/
def Scalar (t : List Nat) : Prop := ∀ n ∈ t, n.isValidChar

theorem join_scalar {t : List Nat} (h : Scalar t) : join t = t := by
  fun_induction join t with
  | case1 a b rest hpair ih =>
    have valid := h a List.mem_cons_self
    rw [Nat.isValidChar] at valid
    omega
  | case2 a b rest hpair ih => rw [ih (fun n hn => h n (List.mem_cons_of_mem a hn))]
  | case3 => rfl

theorem toNat_ofNat {n : Nat} (h : n.isValidChar) : (Char.ofNat n).toNat = n := by
  rw [Char.ofNat, dif_pos h]
  rfl

theorem string_quote {t : List Nat} (h : Scalar t) (rest : List Char) :
    string ((t.map Char.ofNat).flatMap JsonValue.escape ++ '"' :: rest) = some (t, rest) := by
  have same : (t.map Char.ofNat).map Char.toNat = t := by
    rw [List.map_map]
    exact (List.map_congr_left (fun n hn => toNat_ofNat (h n hn))).trans (List.map_id t)
  rw [string, units_quote, same, Option.map_some, join_scalar h]

end strings

section numbers

variable {rest : List Char} {ds : List Char} {a : Literal}

theorem digits_reads (hne : ds ≠ []) (hds : ∀ c ∈ ds, c.isDigit = true)
    (hrest : ∀ c ∈ rest.head?, c.isDigit = false) : digits (ds ++ rest) = some (ds, rest) := by
  obtain ⟨htake, hdrop⟩ := takeWhile_stops hrest
  unfold digits
  rw [List.takeWhile_append_of_pos hds, List.dropWhile_append_of_pos hds, htake, hdrop,
    List.append_nil, if_neg hne]

theorem exponent_reads (hexp : ∀ p ∈ a.exponent, p.2 ≠ [] ∧ ∀ c ∈ p.2, c.isDigit = true)
    (hrest : Stops rest) :
    exponent (Literal.exponentText a.exponent ++ rest) = some (a.exponent, rest) := by
  cases he : a.exponent with
  | none =>
    cases rest with
    | nil => rfl
    | cons c s =>
      obtain ⟨-, -, hsmall, hbig⟩ := hrest c rfl
      exact if_neg (not_or.mpr ⟨hsmall, hbig⟩)
  | some p =>
    obtain ⟨negative, ds⟩ := p
    obtain ⟨hne, hds⟩ := hexp _ he
    have read := digits_reads hne hds (fun c hc => (hrest c hc).1)
    cases negative with
    | false =>
      show (digits (ds ++ rest)).map _ = _
      rw [read]
      rfl
    | true =>
      show (digits (ds ++ rest)).map _ = _
      rw [read]
      rfl

/-- What stands after the fraction does not go on with it. -/
theorem exponentText_head (hrest : Stops rest) :
    ∀ c ∈ (Literal.exponentText a.exponent ++ rest).head?, c.isDigit = false ∧ c ≠ '.' := by
  intro c hc
  cases he : a.exponent with
  | none =>
    rw [he] at hc
    exact ⟨(hrest c hc).1, (hrest c hc).2.1⟩
  | some p =>
    rw [he] at hc
    obtain rfl := Option.some.inj hc
    decide

theorem fraction_reads (ha : a.WellFormed) (hrest : Stops rest) :
    fraction (Literal.fractionText a.fraction ++ (Literal.exponentText a.exponent ++ rest)) =
      some (a.fraction, Literal.exponentText a.exponent ++ rest) := by
  have head := @exponentText_head rest a hrest
  unfold Literal.fractionText
  split_ifs with hnil
  · rw [hnil, List.nil_append, fraction.eq_def]
    split
    · next heq => exact absurd rfl (head '.' (by rw [heq]; rfl)).2
    · rfl
  · rw [List.cons_append, fraction]
    exact digits_reads hnil ha.fraction (fun c hc => (head c hc).1)

theorem whole_reads (ha : a.WellFormed) (hrest : ∀ c ∈ rest.head?, c.isDigit = false) :
    whole (a.whole ++ rest) = some (a.whole, rest) := by
  rw [whole, digits_reads ha.nonempty ha.whole hrest, Option.bind_some]
  exact if_neg (fun h => h.2 (ha.leading h.1))

theorem other_digit {c d : Char} (hc : c.isDigit = true) (hd : d.isDigit = false) : c ≠ d := by
  rintro rfl
  exact nomatch hc.symm.trans hd

theorem number_reads (ha : a.WellFormed) (hrest : Stops rest) :
    number (a.text ++ rest) = some (a, rest) := by
  obtain ⟨c, cs, hcs⟩ := List.exists_cons_of_ne_nil ha.nonempty
  have digit : c.isDigit = true := ha.whole c (hcs ▸ List.mem_cons_self)
  have stop : ∀ d ∈ (Literal.fractionText a.fraction ++ (Literal.exponentText a.exponent ++
      rest)).head?, d.isDigit = false := by
    unfold Literal.fractionText
    split_ifs
    · exact fun d hd => (exponentText_head hrest d hd).1
    · intro d hd
      obtain rfl := Option.some.inj hd
      decide
  have parts : (whole (a.whole ++ (Literal.fractionText a.fraction ++
      (Literal.exponentText a.exponent ++ rest)))).bind (fun w => (fraction w.2).bind fun f =>
        (exponent f.2).map fun e => ((⟨a.negative, w.1, f.1, e.1⟩ : Literal), e.2)) =
      some (a, rest) := by
    rw [whole_reads ha stop, Option.bind_some, fraction_reads ha hrest, Option.bind_some,
      exponent_reads ha.exponent hrest, Option.map_some]
  unfold number Literal.text Literal.sign
  simp only [List.append_assoc]
  cases hneg : a.negative with
  | true =>
    rw [hneg] at parts
    exact parts
  | false =>
    rw [hneg] at parts
    have head : (a.whole ++ (Literal.fractionText a.fraction ++ (Literal.exponentText a.exponent ++
        rest))).head? ≠ some '-' := by
      rw [hcs]
      exact fun h => other_digit digit (by decide) (Option.some.inj h)
    simp only [Bool.false_eq_true, if_false, List.nil_append, head, decide_false]
    exact parts

theorem text_starts (ha : a.WellFormed) :
    ∃ c cs, a.text = c :: cs ∧ (c = '-' ∨ c.isDigit = true) := by
  obtain ⟨c, cs, hcs⟩ := List.exists_cons_of_ne_nil ha.nonempty
  cases hneg : a.negative with
  | true =>
    refine ⟨'-', a.whole ++ (Literal.fractionText a.fraction ++ Literal.exponentText a.exponent),
      ?_, Or.inl rfl⟩
    rw [Literal.text, Literal.sign, hneg]
    rfl
  | false =>
    refine ⟨c, cs ++ (Literal.fractionText a.fraction ++ Literal.exponentText a.exponent), ?_,
      Or.inr (ha.whole c (hcs ▸ List.mem_cons_self))⟩
    rw [Literal.text, Literal.sign, hneg, hcs]
    rfl

end numbers

section values

variable {s rest text : List Char} {c : Char} {x : α} {close : Char} {depth : Nat}
  {entry : List Char → Option (α × List Char)}

/-- The text is read as the value, whatever stands after it. -/
structure Reads (entry : List Char → Option (α × List Char)) (text : List Char) (x : α) :
    Prop where
  starts : ∃ c cs, text = c :: cs ∧ isBlank c = false ∧ c ≠ ']' ∧ c ≠ '\x7d'
  reads : ∀ rest, Stops rest → entry (text ++ rest) = some (x, rest)

theorem Reads.skip (h : Reads entry text x) : skip (text ++ rest) = text ++ rest := by
  obtain ⟨c, cs, rfl, hc, -⟩ := h.starts
  exact skip_start hc

theorem stops_cons (h : c ∈ [',', ':', ']', '\x7d', '\n']) : Stops (c :: s) := by
  intro d hd
  obtain rfl := Option.some.inj hd
  simp only [List.mem_cons, List.not_mem_nil, or_false] at h
  obtain rfl | rfl | rfl | rfl | rfl := h <;> decide

theorem close_cases (h : close ∈ [']', '\x7d']) :
    (∀ t, Stops (close :: t)) ∧ isBlank close = false ∧ close ≠ ',' := by
  simp only [List.mem_cons, List.not_mem_nil, or_false] at h
  obtain rfl | rfl := h
  · exact ⟨fun t => stops_cons (by decide), by decide, by decide⟩
  · exact ⟨fun t => stops_cons (by decide), by decide, by decide⟩

theorem joined_length (texts : List (List Char)) :
    ∀ t ∈ texts, t.length ≤ (joined texts).length := by
  fun_induction joined texts with
  | case1 => exact fun t ht => nomatch ht
  | case2 x =>
    intro t ht
    rw [List.mem_singleton.mp ht]
  | case3 x y xs ih =>
    intro t ht
    rw [List.length_append, List.length_cons]
    obtain rfl | ht := List.mem_cons.mp ht
    · exact Nat.le_add_right _ _
    · have := ih t ht
      omega

theorem entries_reads (hclose : close ∈ [']', '\x7d']) {texts : List (List Char)} {xs : List α}
    (h : List.Forall₂ (Reads entry) texts xs) (hne : texts ≠ []) {fuel : Nat}
    (hfuel : (joined texts).length ≤ fuel) :
    entries entry close fuel (joined texts ++ close :: rest) = some (xs, rest) := by
  obtain ⟨ends, blank, comma⟩ := close_cases hclose
  induction h generalizing fuel with
  | nil => exact absurd rfl hne
  | @cons text x texts xs hx hxs ih =>
    obtain ⟨c, cs, hcs, -⟩ := hx.starts
    obtain _ | fuel := fuel
    · have := joined_length (text :: texts) text List.mem_cons_self
      rw [hcs, List.length_cons] at this
      rw [hcs] at hfuel
      omega
    cases hxs with
    | nil =>
      rw [joined, entries, hx.skip, hx.reads _ (ends rest)]
      simp only [skip_start blank, if_neg comma, if_true]
    | @cons text' x' texts' xs' hx' hxs' =>
      rw [joined, List.length_append, List.length_cons] at hfuel
      have positive : 0 < text.length := by rw [hcs]; exact Nat.succ_pos _
      have others := ih (List.cons_ne_nil _ _)
        (show (joined (text' :: texts')).length ≤ fuel by omega)
      rw [joined, List.append_assoc, List.cons_append, entries, hx.skip,
        hx.reads _ (stops_cons (by decide))]
      simp only [skip_start (show isBlank ',' = false by decide), if_true, others, Option.map_some]

theorem sequence_reads (hclose : close ∈ [']', '\x7d']) {texts : List (List Char)} {xs : List α}
    (h : List.Forall₂ (Reads entry) texts xs) :
    sequence entry close (joined texts ++ close :: rest) = some (xs, rest) := by
  have blank := (close_cases hclose).2.1
  cases h with
  | nil =>
    rw [joined, List.nil_append, sequence, skip_start blank, if_pos List.head?_cons, List.tail_cons]
  | @cons text x texts xs hx hxs =>
    obtain ⟨c, cs, hcs, hblank, hbracket, hbrace⟩ := hx.starts
    have start : ∃ cs', joined (text :: texts) ++ close :: rest = c :: cs' := by
      cases texts with
      | nil => exact ⟨_, by rw [joined, hcs, List.cons_append]⟩
      | cons y ys => exact ⟨_, by rw [joined, hcs, List.cons_append, List.cons_append]⟩
    obtain ⟨cs', hcs'⟩ := start
    have other : c ≠ close := by
      rintro rfl
      simp only [List.mem_cons, List.not_mem_nil, or_false] at hclose
      exact hclose.elim hbracket hbrace
    unfold sequence
    rw [if_neg]
    · refine entries_reads hclose (List.Forall₂.cons hx hxs) (List.cons_ne_nil _ _) ?_
      rw [List.length_append]
      exact Nat.le_add_right _ _
    · rw [hcs', skip_start hblank]
      exact fun h => other (Option.some.inj h)

theorem member_reads {key : List Nat} (hkey : Scalar key) (h : Reads entry text x) :
    Reads (member entry) (quote key ++ ':' :: text) (key, x) where
  starts := ⟨'"', _, rfl, by decide, by decide, by decide⟩
  reads rest hrest := by
    show (string ((key.map Char.ofNat).flatMap JsonValue.escape ++ ['"'] ++ ':' :: text ++
      rest)).bind _ = _
    rw [List.append_assoc, List.append_assoc, List.cons_append, List.nil_append, string_quote hkey,
      Option.bind_some, List.cons_append, skip_start (show isBlank ':' = false by decide)]
    rw [if_pos List.head?_cons, List.tail_cons, h.skip, h.reads rest hrest]
    rfl

theorem value_number (h : c = '-' ∨ c.isDigit = true) :
    value (depth + 1) (c :: s) = (number (c :: s)).map (fun p => (.number p.1, p.2)) := by
  have other : ∀ d : Char, d.isDigit = false → d ≠ '-' → c ≠ d := by
    rintro d hd hminus rfl
    exact h.elim hminus (fun hc => nomatch hc.symm.trans hd)
  rw [value.eq_def]
  dsimp only
  split
  · next heq => exact absurd (List.cons.inj heq).1 (other _ (by decide) (by decide))
  · next heq => exact absurd (List.cons.inj heq).1 (other _ (by decide) (by decide))
  · next heq => exact absurd (List.cons.inj heq).1 (other _ (by decide) (by decide))
  · next heq => exact absurd (List.cons.inj heq).1 (other _ (by decide) (by decide))
  · next heq => exact absurd (List.cons.inj heq).1 (other _ (by decide) (by decide))
  · next heq => exact absurd (List.cons.inj heq).1 (other _ (by decide) (by decide))
  · rfl

theorem reads_number {a : Literal} (ha : a.WellFormed) :
    Reads (value (depth + 1)) a.text (.number a) := by
  obtain ⟨c, cs, hcs, hc⟩ := text_starts ha
  have other : ∀ d : Char, d.isDigit = false → d ≠ '-' → c ≠ d := by
    rintro d hd hminus rfl
    exact hc.elim hminus (fun hc => nomatch hc.symm.trans hd)
  refine ⟨⟨c, cs, hcs, ?_, other _ (by decide) (by decide), other _ (by decide) (by decide)⟩,
    fun rest hrest => ?_⟩
  · simp only [isBlank, other ' ' (by decide) (by decide), other '\n' (by decide) (by decide),
      other '\r' (by decide) (by decide), other '\t' (by decide) (by decide), decide_false,
      Bool.or_false]
  · have read := number_reads ha hrest
    rw [hcs, List.cons_append] at read ⊢
    rw [value_number hc, read]
    rfl

-- A tree is read back from its text: its numbers and texts by the lemmas above, and what nests
-- is shorter than what it nests in.
mutual

theorem write_reads : (t : Tree (List Nat) Literal) → t.All Scalar Literal.WellFormed →
    (depth : Nat) → (write t).length ≤ depth → Reads (value depth) (write t) t
  | .null, _, depth, hdepth => by
    obtain ⟨depth, rfl⟩ := Nat.exists_eq_add_of_lt (Nat.lt_of_lt_of_le (Nat.zero_lt_succ 3) hdepth)
    exact ⟨⟨'n', _, rfl, by decide, by decide, by decide⟩, fun rest _ => rfl⟩
  | .bool true, _, depth, hdepth => by
    obtain ⟨depth, rfl⟩ := Nat.exists_eq_add_of_lt (Nat.lt_of_lt_of_le (Nat.zero_lt_succ 3) hdepth)
    exact ⟨⟨'t', _, rfl, by decide, by decide, by decide⟩, fun rest _ => rfl⟩
  | .bool false, _, depth, hdepth => by
    obtain ⟨depth, rfl⟩ := Nat.exists_eq_add_of_lt (Nat.lt_of_lt_of_le (Nat.zero_lt_succ 4) hdepth)
    exact ⟨⟨'f', _, rfl, by decide, by decide, by decide⟩, fun rest _ => rfl⟩
  | .number a, h, depth, hdepth => by
    rw [Tree.All] at h
    rw [write] at hdepth ⊢
    obtain ⟨c, cs, hcs, -⟩ := text_starts h
    obtain _ | depth := depth
    · rw [hcs] at hdepth
      cases hdepth
    · exact reads_number h
  | .string t, h, depth, hdepth => by
    rw [Tree.All] at h
    rw [write] at hdepth ⊢
    obtain _ | depth := depth
    · cases hdepth
    refine ⟨⟨'"', _, rfl, by decide, by decide, by decide⟩, fun rest _ => ?_⟩
    show (string ((t.map Char.ofNat).flatMap JsonValue.escape ++ ['"'] ++ rest)).map _ = _
    rw [List.append_assoc, List.cons_append, List.nil_append, string_quote h]
    rfl
  | .array xs, h, depth, hdepth => by
    rw [Tree.All] at h
    rw [write] at hdepth ⊢
    obtain _ | depth := depth
    · cases hdepth
    rw [List.length_cons, List.length_append] at hdepth
    have items := writeItems_reads xs h depth (fun t ht =>
      (joined_length _ t ht).trans (by omega))
    refine ⟨⟨'[', _, rfl, by decide, by decide, by decide⟩, fun rest _ => ?_⟩
    show (sequence (value depth) ']' (joined (writeItems xs) ++ [']'] ++ rest)).map _ = _
    rw [List.append_assoc, List.cons_append, List.nil_append, sequence_reads (by decide) items]
    rfl
  | .object ms, h, depth, hdepth => by
    rw [Tree.All] at h
    rw [write] at hdepth ⊢
    obtain _ | depth := depth
    · cases hdepth
    rw [List.length_cons, List.length_append] at hdepth
    have members := writeMembers_reads ms h depth (fun t ht =>
      (joined_length _ t ht).trans (by omega))
    refine ⟨⟨'\x7b', _, rfl, by decide, by decide, by decide⟩, fun rest _ => ?_⟩
    show (sequence (member (value depth)) '\x7d' (joined (writeMembers ms) ++ ['\x7d'] ++ rest)).map
      _ = _
    rw [List.append_assoc, List.cons_append, List.nil_append, sequence_reads (by decide) members]
    rfl

theorem writeItems_reads : (xs : List (Tree (List Nat) Literal)) →
    Tree.AllItems Scalar Literal.WellFormed xs → (depth : Nat) →
    (∀ t ∈ writeItems xs, t.length ≤ depth) →
    List.Forall₂ (Reads (value depth)) (writeItems xs) xs
  | [], _, _, _ => List.Forall₂.nil
  | x :: xs, h, depth, hdepth => by
    rw [Tree.AllItems] at h
    rw [writeItems, List.forall_mem_cons] at hdepth
    rw [writeItems]
    exact List.Forall₂.cons (write_reads x h.1 depth hdepth.1)
      (writeItems_reads xs h.2 depth hdepth.2)

theorem writeMembers_reads : (ms : List (List Nat × Tree (List Nat) Literal)) →
    Tree.AllMembers Scalar Literal.WellFormed ms → (depth : Nat) →
    (∀ t ∈ writeMembers ms, t.length ≤ depth) →
    List.Forall₂ (Reads (member (value depth))) (writeMembers ms) ms
  | [], _, _, _ => List.Forall₂.nil
  | (key, x) :: ms, h, depth, hdepth => by
    rw [Tree.AllMembers] at h
    rw [writeMembers, List.forall_mem_cons, List.length_append, List.length_cons] at hdepth
    rw [writeMembers]
    exact List.Forall₂.cons (member_reads h.1.1 (write_reads x h.1.2 depth (by omega)))
      (writeMembers_reads ms h.2 depth hdepth.2)

end

theorem read_write {t : Tree (List Nat) Literal} (h : t.All Scalar Literal.WellFormed) :
    read (write t) = some t := by
  have reads := write_reads t h (write t).length le_rfl
  have start := @Reads.skip _ [] _ _ _ reads
  have whole := reads.reads [] (fun _ hc => nomatch hc)
  rw [List.append_nil] at start whole
  rw [read, start, whole]
  rfl

example : (read "[1.50E3, \"\\ud83d\\ude00\", null ]".toList).map write =
    some ("[1.50e+3,\"".toList ++ [Char.ofNat 0x1F600] ++ "\",null]".toList) := by decide +kernel

end values

section printable

open JsonValue (Printable printable_of_all escape_printable)

theorem isDigit_printable {c : Char} (h : c.isDigit = true) : Printable c := by
  rw [Char.isDigit, Bool.and_eq_true, decide_eq_true_eq] at h
  have hle : '0'.toNat ≤ c.toNat := h.1
  exact le_trans (by decide) hle

theorem quote_printable (t : List Nat) : ∀ x ∈ quote t, Printable x := by
  intro x hx
  rw [quote, List.cons_append, List.mem_cons, List.mem_append, List.mem_flatMap,
    List.mem_singleton] at hx
  obtain rfl | ⟨c, _, hc⟩ | rfl := hx
  · decide
  · exact escape_printable c x hc
  · decide

theorem text_printable {a : Literal} (ha : a.WellFormed) : ∀ x ∈ a.text, Printable x := by
  intro x hx
  simp only [Literal.text, List.mem_append] at hx
  obtain hx | hx | hx | hx := hx
  · unfold Literal.sign at hx
    split_ifs at hx
    · rw [List.mem_singleton.mp hx]
      decide
    · cases hx
  · exact isDigit_printable (ha.whole x hx)
  · unfold Literal.fractionText at hx
    split_ifs at hx
    · cases hx
    · obtain rfl | hx := List.mem_cons.mp hx
      · decide
      · exact isDigit_printable (ha.fraction x hx)
  · cases he : a.exponent with
    | none =>
      rw [he] at hx
      cases hx
    | some p =>
      obtain ⟨negative, ds⟩ := p
      rw [he, Literal.exponentText, List.mem_cons, List.mem_cons] at hx
      obtain rfl | rfl | hx := hx
      · decide
      · cases negative <;> decide
      · exact isDigit_printable ((ha.exponent _ he).2 x hx)

theorem joined_printable (texts : List (List Char)) (h : ∀ t ∈ texts, ∀ x ∈ t, Printable x) :
    ∀ x ∈ joined texts, Printable x := by
  fun_induction joined texts with
  | case1 => exact fun x hx => nomatch hx
  | case2 t => exact h t List.mem_cons_self
  | case3 t t' ts ih =>
    intro x hx
    rw [List.forall_mem_cons] at h
    rw [List.mem_append, List.mem_cons] at hx
    obtain hx | rfl | hx := hx
    · exact h.1 x hx
    · decide
    · exact ih h.2 x hx

theorem bracketed_printable {left right : Char} {inner : List Char} (hleft : Printable left)
    (hright : Printable right) (h : ∀ x ∈ inner, Printable x) :
    ∀ x ∈ left :: (inner ++ [right]), Printable x := by
  intro x hx
  rw [List.mem_cons, List.mem_append, List.mem_singleton] at hx
  obtain rfl | hx | rfl := hx
  · exact hleft
  · exact h x hx
  · exact hright

mutual

theorem write_printable : (t : Tree (List Nat) Literal) → t.All Scalar Literal.WellFormed →
    ∀ x ∈ write t, Printable x
  | .null, _ => by rw [write]; exact printable_of_all (by decide)
  | .bool true, _ => by rw [write]; exact printable_of_all (by decide)
  | .bool false, _ => by rw [write]; exact printable_of_all (by decide)
  | .number a, h => by rw [Tree.All] at h; rw [write]; exact text_printable h
  | .string t, _ => by rw [write]; exact quote_printable t
  | .array xs, h => by
    rw [Tree.All] at h
    rw [write]
    exact bracketed_printable (by decide) (by decide)
      (joined_printable _ (writeItems_printable xs h))
  | .object ms, h => by
    rw [Tree.All] at h
    rw [write]
    exact bracketed_printable (by decide) (by decide)
      (joined_printable _ (writeMembers_printable ms h))

theorem writeItems_printable : (xs : List (Tree (List Nat) Literal)) →
    Tree.AllItems Scalar Literal.WellFormed xs → ∀ t ∈ writeItems xs, ∀ x ∈ t, Printable x
  | [], _ => fun _ ht => nomatch ht
  | x :: xs, h => by
    rw [Tree.AllItems] at h
    rw [writeItems, List.forall_mem_cons]
    exact ⟨write_printable x h.1, writeItems_printable xs h.2⟩

theorem writeMembers_printable : (ms : List (List Nat × Tree (List Nat) Literal)) →
    Tree.AllMembers Scalar Literal.WellFormed ms → ∀ t ∈ writeMembers ms, ∀ x ∈ t, Printable x
  | [], _ => fun _ ht => nomatch ht
  | (key, x) :: ms, h => by
    rw [Tree.AllMembers] at h
    rw [writeMembers, List.forall_mem_cons]
    refine ⟨fun c hc => ?_, writeMembers_printable ms h.2⟩
    rw [List.mem_append, List.mem_cons] at hc
    obtain hc | rfl | hc := hc
    · exact quote_printable key c hc
    · decide
    · exact write_printable x h.1.2 c hc

end

end printable

end JsonReader

end RankLens
