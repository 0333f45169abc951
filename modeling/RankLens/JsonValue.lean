import RankLens.Catalog

namespace RankLens

/-- A JSON value. A number that is no integer is kept by its digits. -/
inductive JsonValue where
  | null
  | bool (b : Bool)
  | number (n : Int)
  | decimal (negative : Bool) (whole : Nat) (fraction : List (Fin 10)) (exponent : Option Int)
  | string (s : String)
  | array (xs : List JsonValue)
  | object (members : List (String × JsonValue))

namespace JsonValue

variable {α : Type}

/-- The value of a member. Of a key written twice the last one counts. -/
def member (members : List (String × α)) (key : String) : Option α :=
  members.reverse.lookup key

/-- The keys that none of the names admits. -/
def unknown (names : List String) (members : List (String × α)) : List String :=
  (members.map Prod.fst).filter (fun key => !names.contains key)

theorem unknown_eq_nil {names : List String} {members : List (String × α)} :
    unknown names members = [] ↔ ∀ m ∈ members, m.1 ∈ names := by
  rw [unknown, List.filter_eq_nil_iff]
  constructor
  · intro h m hm
    have hkey := h m.1 (List.mem_map_of_mem hm)
    simpa using hkey
  · intro h key hkey
    obtain ⟨m, hm, rfl⟩ := List.mem_map.mp hkey
    simpa using h m hm

def hexDigit (n : Nat) : Char :=
  if n < 10 then Char.ofNat (48 + n) else Char.ofNat (87 + n)

/-- A character of a string as the encoder of Go writes it. -/
def escape (c : Char) : List Char :=
  if c = '"' then ['\\', '"']
  else if c = '\\' then ['\\', '\\']
  else if c = '\n' then ['\\', 'n']
  else if c = '\r' then ['\\', 'r']
  else if c = '\t' then ['\\', 't']
  else if c.toNat = 8 then ['\\', 'b']
  else if c.toNat = 12 then ['\\', 'f']
  else if c.toNat < 32 ∨ c ∈ ['<', '>', '&'] ∨ c.toNat = 0x2028 ∨ c.toNat = 0x2029 then
    ['\\', 'u', hexDigit (c.toNat / 4096 % 16), hexDigit (c.toNat / 256 % 16),
      hexDigit (c.toNat / 16 % 16), hexDigit (c.toNat % 16)]
  else [c]

def quote (s : String) : List Char :=
  '"' :: s.toList.flatMap escape ++ ['"']

def digits (n : Int) : List Char :=
  if n < 0 then '-' :: Nat.toDigits 10 n.natAbs else Nat.toDigits 10 n.natAbs

def decimalText (negative : Bool) (whole : Nat) (fraction : List (Fin 10))
    (exponent : Option Int) : List Char :=
  (if negative then ['-'] else []) ++ Nat.toDigits 10 whole ++
    (if fraction = [] then [] else '.' :: fraction.map (fun d => hexDigit d.val)) ++
    (match exponent with
    | none => []
    | some e => 'e' :: digits e)

-- `json.Marshal`, on one line and without blanks.
mutual

def marshal : JsonValue → List Char
  | .null => ['n', 'u', 'l', 'l']
  | .bool true => ['t', 'r', 'u', 'e']
  | .bool false => ['f', 'a', 'l', 's', 'e']
  | .number n => digits n
  | .decimal negative whole fraction exponent => decimalText negative whole fraction exponent
  | .string s => quote s
  | .array xs => '[' :: marshalItems xs ++ [']']
  | .object members => Char.ofNat 123 :: marshalMembers members ++ [Char.ofNat 125]

def marshalItems : List JsonValue → List Char
  | [] => []
  | [x] => marshal x
  | x :: xs => marshal x ++ ',' :: marshalItems xs

def marshalMembers : List (String × JsonValue) → List Char
  | [] => []
  | [(key, x)] => quote key ++ ':' :: marshal x
  | (key, x) :: xs => quote key ++ ':' :: marshal x ++ ',' :: marshalMembers xs

end

def encode (j : JsonValue) : Bytes :=
  j.marshal.flatMap String.utf8EncodeChar

/-- A character that is no control character. -/
def Printable (c : Char) : Prop := 32 ≤ c.toNat

instance (c : Char) : Decidable (Printable c) := inferInstanceAs (Decidable (32 ≤ c.toNat))

theorem printable_of_all {xs : List Char} (h : xs.all (fun x => decide (Printable x)) = true) :
    ∀ x ∈ xs, Printable x :=
  fun x hx => of_decide_eq_true (List.all_eq_true.mp h x hx)

theorem hexDigit_printable (n : Nat) (h : n < 16) : Printable (hexDigit n) := by
  revert n
  unfold Printable
  decide

theorem escape_printable (c : Char) : ∀ x ∈ escape c, Printable x := by
  unfold escape
  split_ifs with h₁ h₂ h₃ h₄ h₅ h₆ h₇ h₈
  iterate 7 exact printable_of_all (by decide)
  · intro x hx
    simp only [List.mem_cons, List.not_mem_nil, or_false] at hx
    have hmod : ∀ k : Nat, k % 16 < 16 := fun k => Nat.mod_lt k (by decide)
    obtain rfl | rfl | rfl | rfl | rfl | rfl := hx
    · decide
    · decide
    all_goals exact hexDigit_printable _ (hmod _)
  · intro x hx
    rw [List.mem_singleton] at hx
    subst hx
    exact Nat.le_of_not_lt (not_or.mp h₈).1

theorem quote_printable (s : String) : ∀ x ∈ quote s, Printable x := by
  intro x hx
  rw [quote, List.cons_append, List.mem_cons, List.mem_append, List.mem_flatMap,
    List.mem_singleton] at hx
  obtain rfl | ⟨c, _, hc⟩ | rfl := hx
  · decide
  · exact escape_printable c x hc
  · decide

theorem toDigits_printable (n : Nat) : ∀ x ∈ Nat.toDigits 10 n, Printable x := by
  intro x hx
  have hdigit := Nat.isDigit_of_mem_toDigits (by decide) (by decide) hx
  rw [Char.isDigit, Bool.and_eq_true, decide_eq_true_eq] at hdigit
  have hle : '0'.toNat ≤ x.toNat := hdigit.1
  exact le_trans (by decide) hle

theorem digits_printable (n : Int) : ∀ x ∈ digits n, Printable x := by
  intro x hx
  unfold digits at hx
  split_ifs at hx
  · rw [List.mem_cons] at hx
    obtain rfl | hx := hx
    · decide
    · exact toDigits_printable _ x hx
  · exact toDigits_printable _ x hx

theorem decimalText_printable (negative : Bool) (whole : Nat) (fraction : List (Fin 10))
    (exponent : Option Int) : ∀ x ∈ decimalText negative whole fraction exponent, Printable x := by
  intro x hx
  simp only [decimalText, List.mem_append] at hx
  obtain ((hx | hx) | hx) | hx := hx
  · split_ifs at hx
    · rw [List.mem_singleton] at hx
      subst hx
      decide
    · cases hx
  · exact toDigits_printable _ x hx
  · split_ifs at hx
    · cases hx
    · rw [List.mem_cons, List.mem_map] at hx
      obtain rfl | ⟨d, _, rfl⟩ := hx
      · decide
      · exact hexDigit_printable _ (lt_trans d.isLt (by decide))
  · cases exponent with
    | none => cases hx
    | some e =>
      rw [List.mem_cons] at hx
      obtain rfl | hx := hx
      · decide
      · exact digits_printable e x hx

-- One case for each kind of value: the text is put together from printable texts.
mutual

theorem marshal_printable : (j : JsonValue) → ∀ x ∈ marshal j, Printable x
  | .null => by rw [marshal]; exact printable_of_all (by decide)
  | .bool true => by rw [marshal]; exact printable_of_all (by decide)
  | .bool false => by rw [marshal]; exact printable_of_all (by decide)
  | .number n => by rw [marshal]; exact digits_printable n
  | .decimal negative whole fraction exponent => by
    rw [marshal]
    exact decimalText_printable negative whole fraction exponent
  | .string s => by rw [marshal]; exact quote_printable s
  | .array xs => by
    intro x hx
    rw [marshal, List.cons_append, List.mem_cons, List.mem_append, List.mem_singleton] at hx
    obtain rfl | hx | rfl := hx
    · decide
    · exact marshalItems_printable xs x hx
    · decide
  | .object members => by
    intro x hx
    rw [marshal, List.cons_append, List.mem_cons, List.mem_append, List.mem_singleton] at hx
    obtain rfl | hx | rfl := hx
    · decide
    · exact marshalMembers_printable members x hx
    · decide

theorem marshalItems_printable : (xs : List JsonValue) → ∀ x ∈ marshalItems xs, Printable x
  | [] => fun _ hx => nomatch hx
  | [j] => by rw [marshalItems]; exact marshal_printable j
  | j :: j' :: xs => by
    intro x hx
    rw [marshalItems, List.mem_append, List.mem_cons] at hx
    · obtain hx | rfl | hx := hx
      · exact marshal_printable j x hx
      · decide
      · exact marshalItems_printable (j' :: xs) x hx
    · exact List.cons_ne_nil j' xs

theorem marshalMembers_printable :
    (xs : List (String × JsonValue)) → ∀ x ∈ marshalMembers xs, Printable x
  | [] => fun _ hx => nomatch hx
  | [(key, j)] => by
    intro x hx
    rw [marshalMembers, List.mem_append, List.mem_cons] at hx
    obtain hx | rfl | hx := hx
    · exact quote_printable key x hx
    · decide
    · exact marshal_printable j x hx
  | (key, j) :: m :: xs => by
    intro x hx
    rw [marshalMembers, List.append_assoc, List.mem_append, List.cons_append, List.mem_cons,
      List.mem_append, List.mem_cons] at hx
    · obtain hx | rfl | hx | rfl | hx := hx
      · exact quote_printable key x hx
      · decide
      · exact marshal_printable j x hx
      · decide
      · exact marshalMembers_printable (m :: xs) x hx
    · exact List.cons_ne_nil m xs

end

theorem utf8EncodeChar_printable {c : Char} (h : Printable c) {b : UInt8}
    (hb : b ∈ String.utf8EncodeChar c) : 32 ≤ b.toNat := by
  have hc : 32 ≤ c.val.toNat := h
  simp only [String.utf8EncodeChar] at hb
  split_ifs at hb
  all_goals
    simp only [List.mem_cons, List.not_mem_nil, or_false] at hb
  · subst hb
    rw [UInt8.toNat_ofNat']
    omega
  · obtain rfl | rfl := hb <;> rw [UInt8.toNat_ofNat'] <;> omega
  · obtain rfl | rfl | rfl := hb <;> rw [UInt8.toNat_ofNat'] <;> omega
  · obtain rfl | rfl | rfl | rfl := hb <;> rw [UInt8.toNat_ofNat'] <;> omega

theorem encode_printable (j : JsonValue) {b : UInt8} (hb : b ∈ j.encode) : 32 ≤ b.toNat := by
  obtain ⟨c, hc, hb⟩ := List.mem_flatMap.mp hb
  exact utf8EncodeChar_printable (marshal_printable j c hc) hb

example : (object [("a", number (-12)), ("b", array [null, bool true])]).marshal =
    "\x7b\"a\":-12,\"b\":[null,true]\x7d".toList := by decide +kernel

end JsonValue

end RankLens
