import RankLens.Canonical
import RankLens.Summaries

namespace RankLens

namespace JsonText

section reader

def isBlank (c : Char) : Bool := c = ' ' || c = '\n' || c = '\r' || c = '\t'

def skip (s : List Char) : List Char := s.dropWhile isBlank

def hexValue (c : Char) : Option Nat :=
  if '0' ≤ c ∧ c ≤ '9' then some (c.toNat - 48)
  else if 'a' ≤ c ∧ c ≤ 'f' then some (c.toNat - 87)
  else none

def escaped (c : Char) : Option Char :=
  if c = '"' then some '"'
  else if c = '\\' then some '\\'
  else if c = 'n' then some '\n'
  else if c = 'r' then some '\r'
  else if c = 't' then some '\t'
  else if c = 'b' then some (Char.ofNat 8)
  else if c = 'f' then some (Char.ofNat 12)
  else none

def push (c : Option Char) (p : Option (List Char × List Char)) : Option (List Char × List Char) :=
  match c, p with
  | some c, some (s, rest) => some (c :: s, rest)
  | _, _ => none

/-- A string, after its opening quote. Of the long escapes only those of the first 256 code points
are read. -/
def string : List Char → Option (List Char × List Char)
  | [] => none
  | '"' :: rest => some ([], rest)
  | '\\' :: 'u' :: '0' :: '0' :: x :: y :: rest =>
    push ((hexValue x).bind (fun m => (hexValue y).map (fun n => Char.ofNat (16 * m + n))))
      (string rest)
  | '\\' :: c :: rest => push (escaped c) (string rest)
  | c :: rest => if c.toNat < 32 then none else push (some c) (string rest)

/-- The digits of an integer, without leading zeros and not too many for `int`. -/
def natural (s : List Char) : Option (Nat × List Char) :=
  let digits := s.takeWhile Char.isDigit
  let n := Nat.ofDigitChars 10 digits 0
  let rest := s.dropWhile Char.isDigit
  if digits = Nat.toDigits 10 n ∧ digits.length ≤ 4300 ∧
      rest.head?.any (fun c => c = '.' || c = 'e' || c = 'E') = false then
    some (n, rest)
  else none

def atom : List Char → Option (PyValue × List Char)
  | '"' :: rest => (string rest).map (fun p => (.str (p.1.map Char.toNat), p.2))
  | 't' :: 'r' :: 'u' :: 'e' :: rest => some (.bool true, rest)
  | 'f' :: 'a' :: 'l' :: 's' :: 'e' :: rest => some (.bool false, rest)
  | '-' :: rest => (natural rest).map (fun p => (.int (-p.1), p.2))
  | s => (natural s).map (fun p => (.int p.1, p.2))

/-- The members of an object from its first key on, at most `fuel`. -/
def members (value : List Char → Option (PyValue × List Char)) :
    Nat → List Char → Option (List (PyStr × PyValue) × List Char)
  | fuel + 1, '"' :: s => do
    let (key, s) ← string s
    match skip s with
    | ':' :: s => do
      let (v, s) ← value (skip s)
      match skip s with
      | ',' :: s => do
        let (ms, s) ← members value fuel (skip s)
        pure ((key.map Char.toNat, v) :: ms, s)
      | '\x7d' :: s => some ([(key.map Char.toNat, v)], s)
      | _ => none
    | _ => none
  | _, _ => none

/-- An object after its opening brace, with no key twice. -/
def object (value : List Char → Option (PyValue × List Char)) (s : List Char) :
    Option (PyValue × List Char) :=
  if (skip s).head? = some '\x7d' then some (.dict [], (skip s).tail)
  else do
    let (ms, rest) ← members value (skip s).length (skip s)
    if (ms.map Prod.fst).Nodup then some (.dict ms, rest) else none

/-- A value that nests at most so many objects. -/
def value : Nat → List Char → Option (PyValue × List Char)
  | depth + 1, '\x7b' :: s => object (value depth) s
  | _, s => atom s

/-- The value of a text, if it is one of the JSON texts that are read here. -/
def parse (s : List Char) : Option PyValue :=
  match value 3 (skip s) with
  | some (v, rest) => if skip rest = [] then some v else none
  | none => none

end reader

section strings

variable {s rest : List Char} {c : Char}

/-- A character of a string as the recorder writes it. -/
def quoted (c : Char) : List Char :=
  if c.toNat < 32 ∨ c ∈ ['"', '\\'] then JsonValue.escape c else [c]

theorem hexValue_digit {n : Nat} (h : n < 16) : hexValue (JsonValue.hexDigit n) = some n := by
  interval_cases n <;> decide

theorem string_plain (hlow : 32 ≤ c.toNat) (hquote : c ≠ '"') (hslash : c ≠ '\\') :
    string (c :: rest) = push (some c) (string rest) := by
  rw [string.eq_def]
  split
  · simp_all
  · simp_all
  · simp_all
  · simp_all
  · next heq =>
    obtain ⟨rfl, rfl⟩ := List.cons.inj heq
    rw [if_neg (not_lt.mpr hlow)]

theorem string_short {d : Char} (h : escaped d = some c) :
    string ('\\' :: d :: rest) = push (some c) (string rest) := by
  rw [string.eq_def]
  have long : d ≠ 'u' := by
    rintro rfl
    exact absurd h (by simp [escaped])
  split
  · simp_all
  · simp_all
  · simp_all
  · next heq =>
    simp only [List.cons.injEq, true_and] at heq
    obtain ⟨rfl, rfl⟩ := heq
    rw [h]
  · next hslash heq =>
    obtain ⟨rfl, rfl⟩ := List.cons.inj heq
    exact absurd rfl (hslash _ _ rfl)

theorem string_long {x y : Char} {m n : Nat} (hx : hexValue x = some m) (hy : hexValue y = some n) :
    string ('\\' :: 'u' :: '0' :: '0' :: x :: y :: rest) =
      push (some (Char.ofNat (16 * m + n))) (string rest) := by
  rw [string, hx, hy]
  rfl

theorem string_quoted (c : Char) (rest : List Char) :
    string (quoted c ++ rest) = push (some c) (string rest) := by
  unfold quoted
  split
  · next h =>
    have short : ∀ d, escaped d = some c → JsonValue.escape c = ['\\', d] →
        string (JsonValue.escape c ++ rest) = push (some c) (string rest) := by
      intro d hd he
      rw [he]
      exact string_short hd
    unfold JsonValue.escape at short ⊢
    split_ifs with h1 h2 h3 h4 h5 h6 h7 h8
    · subst h1
      exact short '"' rfl rfl
    · subst h2
      exact short '\\' rfl rfl
    · subst h3
      exact short 'n' rfl rfl
    · subst h4
      exact short 'r' rfl rfl
    · subst h5
      exact short 't' rfl rfl
    · rw [← Char.ofNat_toNat c, h6] at short ⊢
      exact short 'b' rfl rfl
    · rw [← Char.ofNat_toNat c, h7] at short ⊢
      exact short 'f' rfl rfl
    · have low : c.toNat < 32 := h.resolve_right (by simp [h1, h2])
      have same : Char.ofNat (16 * (c.toNat / 16 % 16) + c.toNat % 16) = c := by
        have whole : 16 * (c.toNat / 16 % 16) + c.toNat % 16 = c.toNat := by omega
        rw [whole, Char.ofNat_toNat]
      have high : c.toNat / 4096 % 16 = 0 := by omega
      have next : c.toNat / 256 % 16 = 0 := by omega
      rw [high, next]
      have read := @string_long rest _ _ _ _ (hexValue_digit (Nat.mod_lt (c.toNat / 16) (by decide)))
        (hexValue_digit (Nat.mod_lt c.toNat (by decide)))
      rw [same] at read
      exact read
    · exact absurd h (by simp [h1, h2, not_or.mp h8])
  · next h =>
    obtain ⟨hlow, hmem⟩ := not_or.mp h
    refine string_plain (not_lt.mp hlow) ?_ ?_
    · rintro rfl
      exact hmem (by decide)
    · rintro rfl
      exact hmem (by decide)

theorem string_quote (s rest : List Char) :
    string (s.flatMap quoted ++ '"' :: rest) = some (s, rest) := by
  induction s with
  | nil => rw [List.flatMap_nil, List.nil_append, string]
  | cons c s ih => rw [List.flatMap_cons, List.append_assoc, string_quoted, ih, push]

end strings

section atoms

variable {s rest : List Char} {depth : Nat}

/-- A number ends before this. -/
def Stops (rest : List Char) : Prop :=
  ∀ c ∈ rest.head?, c.isDigit = false ∧ c ≠ '.' ∧ c ≠ 'e' ∧ c ≠ 'E'

/-- The text is read as the value, whatever is after it. -/
structure Reads (read : List Char → Option (PyValue × List Char)) (text : List Char)
    (v : PyValue) : Prop where
  starts : ∃ c cs, text = c :: cs ∧ isBlank c = false
  reads : ∀ rest, Stops rest → read (text ++ rest) = some (v, rest)

theorem takeWhile_stops {p : Char → Bool} (h : ∀ c ∈ rest.head?, p c = false) :
    rest.takeWhile p = [] ∧ rest.dropWhile p = rest := by
  cases rest with
  | nil => exact ⟨rfl, rfl⟩
  | cons c cs =>
    have hc := h c rfl
    exact ⟨List.takeWhile_cons_of_neg (by simp [hc]), List.dropWhile_cons_of_neg (by simp [hc])⟩

theorem natural_digits {n : Nat} (hn : (Nat.toDigits 10 n).length ≤ 4300) (h : Stops rest) :
    natural (Nat.toDigits 10 n ++ rest) = some (n, rest) := by
  have digits : ∀ c ∈ Nat.toDigits 10 n, c.isDigit = true :=
    fun c hc => Nat.isDigit_of_mem_toDigits (by decide) (by decide) hc
  obtain ⟨htake, hdrop⟩ := takeWhile_stops (fun c hc => (h c hc).1)
  unfold natural
  simp only [List.takeWhile_append_of_pos digits, List.dropWhile_append_of_pos digits, htake, hdrop,
    List.append_nil, Nat.ofDigitChars_ten_toDigits]
  refine if_pos ⟨trivial, hn, ?_⟩
  cases rest with
  | nil => rfl
  | cons c cs =>
    obtain ⟨-, hdot, hsmall, hbig⟩ := h c rfl
    simp [hdot, hsmall, hbig]

theorem value_atom {c : Char} (h : c ≠ '\x7b') : value depth (c :: s) = atom (c :: s) := by
  rw [value.eq_def]
  split
  · next heq => exact absurd (List.cons.inj heq).1 h
  · rfl

theorem reads_quote (s : String) : Reads (value depth) (recorderQuote s)
    (.str (PyStr.ofString s)) where
  starts := ⟨'"', _, rfl, rfl⟩
  reads rest _ := by
    have text : recorderQuote s ++ rest = '"' :: (s.toList.flatMap quoted ++ '"' :: rest) := by
      rw [recorderQuote, List.cons_append, List.cons_append, List.append_assoc]
      rfl
    rw [text, value_atom (by decide), atom, string_quote]
    rfl

theorem reads_bool (b : Bool) : Reads (value depth) (JsonValue.marshal (.bool b)) (.bool b) := by
  cases b with
  | true =>
    refine ⟨⟨'t', _, rfl, rfl⟩, fun rest _ => ?_⟩
    show value depth ('t' :: 'r' :: 'u' :: 'e' :: rest) = _
    rw [value_atom (by decide), atom]
  | false =>
    refine ⟨⟨'f', _, rfl, rfl⟩, fun rest _ => ?_⟩
    show value depth ('f' :: 'a' :: 'l' :: 's' :: 'e' :: rest) = _
    rw [value_atom (by decide), atom]

theorem atom_digit {c : Char} (h : c.isDigit = true) :
    atom (c :: s) = (natural (c :: s)).map (fun p => (.int p.1, p.2)) := by
  have other : ∀ d : Char, d.isDigit = false → c ≠ d := by
    rintro d hd rfl
    exact nomatch h.symm.trans hd
  rw [atom.eq_def]
  split
  · next heq => exact absurd (List.cons.inj heq).1 (other _ (by decide))
  · next heq => exact absurd (List.cons.inj heq).1 (other _ (by decide))
  · next heq => exact absurd (List.cons.inj heq).1 (other _ (by decide))
  · next heq => exact absurd (List.cons.inj heq).1 (other _ (by decide))
  · rfl

theorem reads_digits {n : Int} (hn : (Nat.toDigits 10 n.natAbs).length ≤ 4300) :
    Reads (value depth) (JsonValue.digits n) (.int n) := by
  obtain ⟨c, cs, hcs⟩ := List.exists_cons_of_ne_nil (@Nat.toDigits_ne_nil n.natAbs 10)
  have digit : c.isDigit = true := Nat.isDigit_of_mem_toDigits (by decide) (by decide)
    (hcs ▸ List.mem_cons_self)
  have other : ∀ d : Char, d.isDigit = false → c ≠ d := by
    rintro d hd rfl
    exact nomatch digit.symm.trans hd
  unfold JsonValue.digits
  split
  · next hneg =>
    refine ⟨⟨'-', _, rfl, rfl⟩, fun rest hrest => ?_⟩
    rw [List.cons_append, value_atom (by decide), atom, natural_digits hn hrest]
    have same : -(n.natAbs : Int) = n := by omega
    rw [Option.map_some, same]
  · next hpos =>
    refine ⟨⟨c, cs, hcs, ?_⟩, fun rest hrest => ?_⟩
    · simp only [isBlank, decide_eq_false (other ' ' rfl), decide_eq_false (other '\n' rfl),
        decide_eq_false (other '\r' rfl), decide_eq_false (other '\t' rfl), Bool.or_false]
    · have read := natural_digits hn hrest
      rw [hcs, List.cons_append] at read ⊢
      rw [value_atom (other _ (by decide)), atom_digit digit, read]
      have same : (n.natAbs : Int) = n := by omega
      rw [Option.map_some, same]

theorem digits_short {n : Nat} (h : n < 2 ^ 64) : (Nat.toDigits 10 n).length ≤ 4300 := by
  have twenty : (Nat.toDigits 10 n).length ≤ 20 :=
    (Nat.length_toDigits_le_iff (by decide) (by decide)).mpr (h.trans (by decide))
  exact twenty.trans (by decide)

end atoms

section objects

variable {read : List Char → Option (PyValue × List Char)} {s rest gap blanks tail : List Char}
  {depth : Nat}

theorem skip_start {c : Char} (hc : isBlank c = false) : skip (c :: s) = c :: s :=
  List.dropWhile_cons_of_neg (by simp [hc])

theorem skip_blanks {c : Char} (h : ∀ b ∈ blanks, isBlank b = true) (hc : isBlank c = false) :
    skip (blanks ++ c :: s) = c :: s := by
  rw [skip, List.dropWhile_append_of_pos h]
  exact skip_start hc

theorem stops_cons {c : Char} (h : c ∈ [',', '\x7d', ' ', '\n']) : Stops (c :: s) := by
  intro d hd
  obtain rfl := Option.some.inj hd
  simp only [List.mem_cons, List.not_mem_nil, or_false] at h
  obtain rfl | rfl | rfl | rfl := h <;> decide

/-- A member of an object: its key, its text and its value. -/
structure Entry where
  key : String
  text : List Char
  value : PyValue

def Entry.member (gap : List Char) (e : Entry) : List Char :=
  recorderQuote e.key ++ ':' :: (gap ++ e.text)

def Entry.entry (e : Entry) : PyStr × PyValue := (PyStr.ofString e.key, e.value)

theorem members_step {e : Entry} {fuel : Nat} (hgap : ∀ b ∈ gap, isBlank b = true)
    (he : Reads read e.text e.value) (hs : Stops s) :
    members read (fuel + 1) (e.member gap ++ s) = match skip s with
      | ',' :: s => do
        let (ms, s) ← members read fuel (skip s)
        pure (e.entry :: ms, s)
      | '\x7d' :: s => some ([e.entry], s)
      | _ => none := by
  have text : e.member gap ++ s =
      '"' :: (e.key.toList.flatMap quoted ++ '"' :: ':' :: (gap ++ (e.text ++ s))) := by
    simp only [Entry.member, recorderQuote, List.cons_append, List.append_assoc,
      List.nil_append]
    rfl
  have ahead : skip (gap ++ (e.text ++ s)) = e.text ++ s := by
    obtain ⟨c, cs, hcs, hc⟩ := he.starts
    rw [hcs, List.cons_append]
    exact skip_blanks hgap hc
  have colon : ∀ t, skip (':' :: t) = ':' :: t := fun t => skip_start rfl
  rw [text, members, string_quote]
  simp only [Option.bind_eq_bind, Option.bind_some, colon, ahead, he.reads s hs]
  rfl

theorem entries_quote {separator : List Char} {e : Entry} {es : List Entry} :
    ∃ s, List.intercalate separator ((e :: es).map (Entry.member gap)) = '"' :: s := by
  cases es with
  | nil =>
    rw [List.map_singleton, List.intercalate_singleton]
    exact ⟨_, rfl⟩
  | cons e' es =>
    rw [List.map_cons, List.map_cons, List.intercalate_cons_cons]
    exact ⟨_, rfl⟩

theorem members_entries {es : List Entry} (hne : es ≠ []) {fuel : Nat} (hfuel : es.length ≤ fuel)
    (hgap : ∀ b ∈ gap, isBlank b = true) (hblanks : ∀ b ∈ blanks, isBlank b = true)
    (htail : tail = [] ∨ ∃ t, tail = '\n' :: t) (hspace : ∀ b ∈ tail, isBlank b = true)
    (hes : ∀ e ∈ es, Reads read e.text e.value) :
    members read fuel (List.intercalate (',' :: blanks) (es.map (Entry.member gap)) ++
      (tail ++ '\x7d' :: rest)) = some (es.map Entry.entry, rest) := by
  induction es generalizing fuel with
  | nil => exact absurd rfl hne
  | cons e es ih =>
    obtain _ | fuel := fuel
    · exact absurd hfuel (Nat.not_succ_le_zero _)
    obtain ⟨he, hes⟩ := List.forall_mem_cons.mp hes
    cases es with
    | nil =>
      have stops : Stops (tail ++ '\x7d' :: rest) := by
        obtain rfl | ⟨t, rfl⟩ := htail
        · exact stops_cons (by decide)
        · exact stops_cons (by decide)
      rw [List.map_singleton, List.intercalate_singleton, members_step hgap he stops,
        skip_blanks hspace rfl]
      rfl
    | cons e' es =>
      have next := ih (List.cons_ne_nil _ _) (Nat.le_of_succ_le_succ hfuel) hes
      rw [List.map_cons, List.map_cons, List.intercalate_cons_cons, ← List.map_cons,
        List.append_assoc, List.append_assoc, List.cons_append,
        members_step hgap he (@stops_cons _ ',' (by decide))]
      have comma : ∀ t, skip (',' :: t) = ',' :: t := fun t => skip_start rfl
      have ahead : ∀ t, skip (blanks ++ (List.intercalate (',' :: blanks)
          ((e' :: es).map (Entry.member gap)) ++ t)) =
          List.intercalate (',' :: blanks) ((e' :: es).map (Entry.member gap)) ++ t := by
        intro t
        obtain ⟨s, hs⟩ := @entries_quote gap (',' :: blanks) e' es
        rw [hs, List.cons_append]
        exact skip_blanks hblanks rfl
      rw [comma]
      simp only [ahead, next]
      rfl

theorem entries_length {separator : List Char} (es : List Entry) :
    es.length ≤ (List.intercalate separator (es.map (Entry.member gap))).length := by
  induction es with
  | nil => exact Nat.zero_le _
  | cons e es ih =>
    have one : 1 ≤ (e.member gap).length := Nat.succ_le_succ (Nat.zero_le _)
    cases es with
    | nil =>
      rw [List.map_singleton, List.intercalate_singleton]
      exact one
    | cons e' es =>
      rw [List.map_cons] at ih ⊢
      rw [List.map_cons, List.intercalate_cons_cons, List.length_append, List.length_append,
        List.length_cons]
      omega

theorem ofString_injective : Function.Injective PyStr.ofString := by
  intro s t h
  have codes : Function.Injective Char.toNat := fun c d hcd => by
    rw [← Char.ofNat_toNat c, hcd, Char.ofNat_toNat]
  exact String.ext (List.map_injective_iff.mpr codes h)

theorem reads_object {es : List Entry} {lead : List Char} (hne : es ≠ [])
    (hdistinct : (es.map Entry.key).Nodup) (hlead : ∀ b ∈ lead, isBlank b = true)
    (hgap : ∀ b ∈ gap, isBlank b = true) (hblanks : ∀ b ∈ blanks, isBlank b = true)
    (htail : tail = [] ∨ ∃ t, tail = '\n' :: t) (hspace : ∀ b ∈ tail, isBlank b = true)
    (hes : ∀ e ∈ es, Reads (value depth) e.text e.value) :
    Reads (value (depth + 1)) ('\x7b' :: (lead ++
      (List.intercalate (',' :: blanks) (es.map (Entry.member gap)) ++ (tail ++ ['\x7d']))))
      (.dict (es.map Entry.entry)) := by
  refine ⟨⟨_, _, rfl, rfl⟩, fun rest _ => ?_⟩
  obtain ⟨e, es, rfl⟩ := List.exists_cons_of_ne_nil hne
  obtain ⟨s, hs⟩ := @entries_quote gap (',' :: blanks) e es
  have long := @entries_length gap (',' :: blanks) (e :: es)
  have fuel : (e :: es).length ≤ (List.intercalate (',' :: blanks)
      ((e :: es).map (Entry.member gap)) ++ (tail ++ '\x7d' :: rest)).length :=
    long.trans (by rw [List.length_append]; exact Nat.le_add_right _ _)
  have read := @members_entries _ rest gap blanks tail _ hne _ fuel hgap hblanks htail hspace hes
  have keys : (((e :: es).map Entry.entry).map Prod.fst).Nodup := by
    rw [List.map_map]
    have mapped := hdistinct.map ofString_injective
    rwa [List.map_map] at mapped
  have text : '\x7b' :: (lead ++ (List.intercalate (',' :: blanks)
      ((e :: es).map (Entry.member gap)) ++ (tail ++ ['\x7d']))) ++ rest =
      '\x7b' :: (lead ++ (List.intercalate (',' :: blanks)
        ((e :: es).map (Entry.member gap)) ++ (tail ++ '\x7d' :: rest))) := by
    simp only [List.cons_append, List.append_assoc, List.nil_append]
  have start : skip (lead ++ (List.intercalate (',' :: blanks)
      ((e :: es).map (Entry.member gap)) ++ (tail ++ '\x7d' :: rest))) =
      List.intercalate (',' :: blanks) ((e :: es).map (Entry.member gap)) ++
        (tail ++ '\x7d' :: rest) := by
    rw [hs, List.cons_append]
    exact skip_blanks hlead rfl
  rw [text, value, object, start]
  have first : (List.intercalate (',' :: blanks) ((e :: es).map (Entry.member gap)) ++
      (tail ++ '\x7d' :: rest)).head? ≠ some '\x7d' := by
    rw [hs]
    exact fun h => absurd (Option.some.inj h) (by decide)
  rw [if_neg first, read]
  exact if_pos keys

theorem reads_empty {lead : List Char} (hlead : ∀ b ∈ lead, isBlank b = true) :
    Reads (value (depth + 1)) ('\x7b' :: (lead ++ ['\x7d'])) (.dict []) := by
  refine ⟨⟨_, _, rfl, rfl⟩, fun rest _ => ?_⟩
  have text : '\x7b' :: (lead ++ ['\x7d']) ++ rest = '\x7b' :: (lead ++ '\x7d' :: rest) := by
    simp only [List.cons_append, List.append_assoc, List.nil_append]
  rw [text, value, object, skip_blanks hlead rfl, if_pos List.head?_cons, List.tail_cons]

theorem parse_reads {text : List Char} {v : PyValue} (h : Reads (value 3) text v) :
    parse (text ++ ['\n']) = some v := by
  obtain ⟨c, cs, hcs, hc⟩ := h.starts
  have start : skip (text ++ ['\n']) = text ++ ['\n'] := by
    rw [hcs, List.cons_append]
    exact skip_start hc
  rw [parse, start, h.reads _ (@stops_cons _ '\n' (by decide))]
  rfl

theorem parse_bare {text : List Char} {v : PyValue} (h : Reads (value 3) text v) :
    parse text = some v := by
  obtain ⟨c, cs, hcs, hc⟩ := h.starts
  have start : skip text = text := by
    rw [hcs]
    exact skip_start hc
  have read := h.reads [] (fun _ hc => nomatch hc)
  rw [List.append_nil] at read
  rw [parse, start, read]
  rfl

end objects

section cut

variable {s rest more : List Char} {read : List Char → Option (PyValue × List Char)} {depth : Nat}

theorem push_some {c : Option Char} {p : Option (List Char × List Char)} {t : List Char}
    (h : push c p = some (t, rest)) : ∃ d t', c = some d ∧ p = some (t', rest) ∧ t = d :: t' := by
  unfold push at h
  split at h
  · next d t' rest' =>
    obtain ⟨rfl, rfl⟩ := Prod.mk.inj (Option.some.inj h)
    exact ⟨d, t', rfl, rfl, rfl⟩
  · cases h

theorem string_more {t : List Char} (h : string s = some (t, rest)) :
    string (s ++ more) = some (t, rest ++ more) := by
  fun_induction string s generalizing t with
  | case1 => cases h
  | case2 rest' =>
    obtain ⟨rfl, rfl⟩ := Prod.mk.inj (Option.some.inj h)
    rw [List.cons_append, string]
  | case3 x y rest' ih =>
    obtain ⟨d, t', hd, hp, rfl⟩ := push_some h
    simp only [List.cons_append]
    rw [string, hd, ih hp]
    rfl
  | case4 c rest' hlong ih =>
    obtain ⟨d, t', hd, hp, rfl⟩ := push_some h
    rw [List.cons_append, List.cons_append, string_short hd, ih hp]
    rfl
  | case5 c rest' hquote hlong hslash hlow => cases h
  | case6 c rest' hquote hlong hslash hlow ih =>
    obtain ⟨d, t', hd, hp, rfl⟩ := push_some h
    obtain rfl := Option.some.inj hd
    have plain : c ≠ '\\' := by
      rintro rfl
      cases rest' with
      | nil => simp [string] at hp
      | cons x xs => exact hslash _ _ rfl rfl
    rw [List.cons_append, string_plain (not_lt.mp hlow) hquote plain, ih hp]
    rfl

theorem skip_more {c : Char} (h : skip s = c :: rest) : skip (s ++ more) = c :: (rest ++ more) := by
  have kept : skip s ≠ [] := by rw [h]; exact List.cons_ne_nil _ _
  unfold skip at h kept ⊢
  rw [List.dropWhile_append, if_neg (by simpa using kept), h, List.cons_append]

theorem natural_start {n : Nat} (h : natural s = some (n, rest)) :
    ∃ c cs, c.isDigit = true ∧ s = c :: cs := by
  unfold natural at h
  dsimp only at h
  split at h
  · next hok =>
    have some : s.takeWhile Char.isDigit ≠ [] := by
      rw [hok.1]
      exact Nat.toDigits_ne_nil
    cases s with
    | nil => exact absurd rfl some
    | cons c cs =>
      refine ⟨c, cs, ?_, rfl⟩
      by_contra hc
      exact some (List.takeWhile_cons_of_neg hc)
  · cases h

theorem natural_more {n : Nat} (h : natural s = some (n, rest)) (hne : rest ≠ []) :
    natural (s ++ more) = some (n, rest ++ more) := by
  unfold natural at h ⊢
  dsimp only at h
  split at h
  · next hok =>
    obtain ⟨rfl, rfl⟩ := Prod.mk.inj (Option.some.inj h)
    have drop : (s ++ more).dropWhile Char.isDigit = s.dropWhile Char.isDigit ++ more := by
      rw [List.dropWhile_append, if_neg (by simpa using hne)]
    have take : (s ++ more).takeWhile Char.isDigit = s.takeWhile Char.isDigit := by
      rw [List.takeWhile_append, if_neg]
      intro hlen
      have whole := congrArg List.length (@List.takeWhile_append_dropWhile _ Char.isDigit s)
      rw [List.length_append, hlen] at whole
      exact hne (List.length_eq_zero_iff.mp (by omega))
    obtain ⟨c, cs, hcs⟩ := List.exists_cons_of_ne_nil hne
    simp only [take, drop, hcs, List.cons_append, List.head?_cons] at hok ⊢
    exact if_pos hok
  · cases h

theorem atom_more {v : PyValue} (h : atom s = some (v, rest)) (hne : rest ≠ []) :
    atom (s ++ more) = some (v, rest ++ more) := by
  rw [atom.eq_def] at h
  split at h
  · obtain ⟨⟨t, rest'⟩, hs, he⟩ := Option.map_eq_some_iff.mp h
    obtain ⟨rfl, rfl⟩ := Prod.mk.inj he
    rw [List.cons_append, atom, string_more hs]
    rfl
  · obtain ⟨rfl, rfl⟩ := Prod.mk.inj (Option.some.inj h)
    rfl
  · obtain ⟨rfl, rfl⟩ := Prod.mk.inj (Option.some.inj h)
    rfl
  · obtain ⟨⟨n, rest'⟩, hs, he⟩ := Option.map_eq_some_iff.mp h
    obtain ⟨rfl, rfl⟩ := Prod.mk.inj he
    rw [List.cons_append, atom, natural_more hs hne]
    rfl
  · obtain ⟨⟨n, rest'⟩, hs, he⟩ := Option.map_eq_some_iff.mp h
    obtain ⟨rfl, rfl⟩ := Prod.mk.inj he
    obtain ⟨c, cs, hc, rfl⟩ := natural_start hs
    rw [List.cons_append, atom_digit hc, ← List.cons_append, natural_more hs hne]
    rfl

/-- A reader whose result does not change when more follows what it has left. -/
structure Steady (read : List Char → Option (PyValue × List Char)) : Prop where
  nil : read [] = none
  more : ∀ s v rest more, read s = some (v, rest) → rest ≠ [] →
    read (s ++ more) = some (v, rest ++ more)

theorem Steady.skip (hread : Steady read) {v : PyValue} (h : read (skip s) = some (v, rest))
    (hne : rest ≠ []) : read (skip (s ++ more)) = some (v, rest ++ more) := by
  cases hs : JsonText.skip s with
  | nil =>
    rw [hs, hread.nil] at h
    cases h
  | cons c t =>
    rw [skip_more hs, ← List.cons_append, ← hs]
    exact hread.more _ _ _ _ h hne

theorem members_more (hread : Steady read) {fuel fuel' : Nat} (hfuel : fuel ≤ fuel')
    {ms : List (PyStr × PyValue)} (h : members read fuel s = some (ms, rest)) :
    members read fuel' (s ++ more) = some (ms, rest ++ more) := by
  induction fuel generalizing fuel' s ms with
  | zero => simp [members] at h
  | succ fuel ih =>
    obtain _ | fuel' := fuel'
    · exact absurd hfuel (Nat.not_succ_le_zero _)
    cases s with
    | nil => simp [members] at h
    | cons c s =>
      by_cases hc : c = '"'
      · subst hc
        rw [members] at h
        obtain ⟨⟨key, s₁⟩, hkey, h⟩ := Option.bind_eq_some_iff.mp h
        dsimp only at h
        split at h
        · next s₂ hcolon =>
          obtain ⟨⟨v, s₃⟩, hv, h⟩ := Option.bind_eq_some_iff.mp h
          dsimp only at h
          have more₁ : JsonText.skip (s₁ ++ more) = ':' :: (s₂ ++ more) := skip_more hcolon
          have left : ∀ {d : Char} {t : List Char}, JsonText.skip s₃ = d :: t → s₃ ≠ [] := by
            rintro d t hd rfl
            cases hd
          split at h
          · next s₄ hcomma =>
            obtain ⟨⟨ms', s₅⟩, hms, h⟩ := Option.bind_eq_some_iff.mp h
            obtain ⟨rfl, rfl⟩ := Prod.mk.inj (Option.some.inj h)
            have more₃ := @Steady.skip _ _ more _ hread _ hv (left hcomma)
            rw [List.cons_append, members, string_more hkey]
            simp only [Option.bind_eq_bind, Option.bind_some, more₁, more₃,
              skip_more hcomma]
            have ahead : JsonText.skip (s₄ ++ more) = JsonText.skip s₄ ++ more := by
              cases hs : JsonText.skip s₄ with
              | nil =>
                rw [hs] at hms
                cases fuel <;> simp [members] at hms
              | cons d t => exact skip_more hs
            rw [ahead, ih (Nat.le_of_succ_le_succ hfuel) hms]
            rfl
          · next s₄ hbrace =>
            obtain ⟨rfl, rfl⟩ := Prod.mk.inj (Option.some.inj h)
            have more₃ := @Steady.skip _ _ more _ hread _ hv (left hbrace)
            rw [List.cons_append, members, string_more hkey]
            simp only [Option.bind_eq_bind, Option.bind_some, more₁, more₃, skip_more hbrace]
          · cases h
        · cases h
      · rw [members.eq_def] at h
        split at h
        · next heq => exact absurd (List.cons.inj heq).1 hc
        · cases h

theorem object_more (hread : Steady read) {v : PyValue} (h : object read s = some (v, rest)) :
    object read (s ++ more) = some (v, rest ++ more) := by
  unfold object at h ⊢
  cases hs : skip s with
  | nil =>
    rw [hs] at h
    simp [members] at h
  | cons c t =>
    rw [skip_more hs]
    rw [hs] at h
    have first : (c :: (t ++ more)).head? = (c :: t).head? := rfl
    rw [first]
    by_cases hc : (c :: t).head? = some '\x7d'
    · rw [if_pos hc] at h ⊢
      obtain ⟨rfl, rfl⟩ := Prod.mk.inj (Option.some.inj h)
      rfl
    · rw [if_neg hc] at h ⊢
      obtain ⟨⟨ms, rest'⟩, hms, h⟩ := Option.bind_eq_some_iff.mp h
      dsimp only at h
      split at h
      · next hkeys =>
        obtain ⟨rfl, rfl⟩ := Prod.mk.inj (Option.some.inj h)
        have longer : (c :: t).length ≤ (c :: (t ++ more)).length := by simp
        have read' := @members_more _ _ more _ hread _ _ longer _ hms
        rw [List.cons_append] at read'
        rw [read']
        exact if_pos hkeys
      · cases h

theorem atom_steady : Steady atom where
  nil := by decide
  more _ _ _ _ h hne := atom_more h hne

theorem value_steady (depth : Nat) : Steady (value depth) := by
  induction depth with
  | zero => exact ⟨by decide, fun s v rest more h hne => by
      rw [value.eq_def] at h ⊢
      exact atom_more h hne⟩
  | succ depth ih =>
    refine ⟨by rw [value.eq_def]; exact atom_steady.nil, fun s v rest more h hne => ?_⟩
    cases s with
    | nil => exact absurd h (by simp [value, atom_steady.nil])
    | cons c s =>
      by_cases hc : c = '\x7b'
      · subst hc
        exact object_more ih h
      · rw [value_atom hc] at h
        rw [List.cons_append, value_atom hc, ← List.cons_append]
        exact atom_more h hne

theorem atom_dict {members : List (PyStr × PyValue)} : atom s ≠ some (.dict members, rest) := by
  intro h
  rw [atom.eq_def] at h
  split at h
  · simp at h
  · simp at h
  · simp at h
  · simp at h
  · simp at h

/-- A text that is cut short of its last brace is no object. -/
theorem parse_cut {text cut tail : List Char} {v : PyValue} {members : List (PyStr × PyValue)}
    (h : parse (text ++ '\x7d' :: tail) = some v) (hcut : cut <+: text) :
    parse cut ≠ some (.dict members) := by
  intro hp
  obtain ⟨lost, rfl⟩ := hcut
  unfold parse at hp h
  cases hs : skip cut with
  | nil =>
    rw [hs, (value_steady 3).nil] at hp
    cases hp
  | cons c t =>
    rw [List.append_assoc, skip_more hs] at h
    rw [hs] at hp
    cases hv : value 3 (c :: t) with
    | none => simp [hv] at hp
    | some pair =>
      obtain ⟨w, rest⟩ := pair
      simp only [hv] at hp
      split at hp
      · next hblank =>
        obtain rfl := Option.some.inj hp
        by_cases hc : c = '\x7b'
        · subst hc
          have longer := @object_more _ _ (lost ++ '\x7d' :: tail) _ (value_steady 2) _ hv
          have longer' : value 3 ('\x7b' :: (t ++ (lost ++ '\x7d' :: tail))) =
            some (.dict members, rest ++ (lost ++ '\x7d' :: tail)) := longer
          rw [longer'] at h
          simp only at h
          split at h
          · next hempty =>
            have brace : '\x7d' ∈ rest ++ (lost ++ '\x7d' :: tail) := by simp
            have blank := List.dropWhile_eq_nil_iff.mp hempty _ brace
            exact absurd blank (by decide)
          · cases h
        · rw [value_atom hc] at hv
          exact atom_dict hv
      · cases hp

end cut

end JsonText

end RankLens
