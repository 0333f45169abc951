import RankLens.JsonValue

namespace RankLens

/-- A string as Python holds it, by its code points. An unpaired surrogate is one. -/
abbrev PyStr := List Nat

/-- What `json.loads` returns. `nonfinite` is an infinity or no number at all. -/
inductive PyValue where
  | none
  | bool (b : Bool)
  | int (n : Int)
  | float (repr : List Char)
  | nonfinite
  | str (s : PyStr)
  | list (xs : List PyValue)
  | dict (members : List (PyStr × PyValue))

namespace PyStr

def ofString (s : String) : PyStr := s.toList.map Char.toNat

def surrogate (c : Nat) : Bool := 0xD800 ≤ c && c ≤ 0xDFFF

/-- UTF-8 encodes the string. -/
def clean (s : PyStr) : Bool := s.all (fun c => !surrogate c)

theorem clean_append {s t : PyStr} : clean (s ++ t) = (clean s && clean t) := List.all_append

theorem clean_cons {c : Nat} {s : PyStr} : clean (c :: s) = (!surrogate c && clean s) := rfl

theorem clean_chars (cs : List Char) : clean (cs.map Char.toNat) = true := by
  refine List.all_eq_true.mpr (fun n hn => ?_)
  obtain ⟨c, _, rfl⟩ := List.mem_map.mp hn
  have hvalid := c.valid
  have hrange : c.toNat < 0xD800 ∨ 0xDFFF < c.toNat := by
    obtain h | h := hvalid
    · exact Or.inl h
    · exact Or.inr h.1
  simp only [surrogate, Bool.not_eq_true', Bool.and_eq_false_iff, decide_eq_false_iff_not, not_le]
  exact hrange

theorem clean_ofString (s : String) : clean (ofString s) = true := clean_chars _

/-- A character of a string as `json.dumps` writes it. -/
def escape (c : Nat) : PyStr :=
  if c = 34 then [92, 34]
  else if c = 92 then [92, 92]
  else if c = 10 then [92, 110]
  else if c = 13 then [92, 114]
  else if c = 9 then [92, 116]
  else if c = 8 then [92, 98]
  else if c = 12 then [92, 102]
  else if c < 32 then
    [92, 117, 48, 48, (JsonValue.hexDigit (c / 16)).toNat, (JsonValue.hexDigit (c % 16)).toNat]
  else [c]

theorem clean_escape (c : Nat) : clean (escape c) = !surrogate c := by
  by_cases hc : c < 128
  · revert c
    decide
  · have hlarge : escape c = [c] := by
      unfold escape
      rw [if_neg (by omega), if_neg (by omega), if_neg (by omega), if_neg (by omega),
        if_neg (by omega), if_neg (by omega), if_neg (by omega), if_neg (by omega)]
    rw [hlarge, clean_cons]
    exact Bool.and_true _

def quote (s : PyStr) : PyStr := 34 :: s.flatMap escape ++ [34]

theorem clean_flatMap (s : PyStr) : clean (s.flatMap escape) = clean s := by
  induction s with
  | nil => rfl
  | cons c s ih => rw [List.flatMap_cons, clean_append, clean_escape, ih, clean_cons]

theorem clean_quote (s : PyStr) : clean (quote s) = clean s := by
  rw [quote, List.cons_append, clean_cons, clean_append, clean_flatMap]
  simp [clean, surrogate]

def join : List PyStr → PyStr
  | [] => []
  | [s] => s
  | s :: rest => s ++ 44 :: join rest

theorem clean_join (xs : List PyStr) : clean (join xs) = xs.all clean := by
  induction xs with
  | nil => rfl
  | cons s rest ih =>
    cases rest with
    | nil => simp [join]
    | cons t rest =>
      rw [join, clean_append, clean_cons, ih]
      · rfl
      · exact nofun

end PyStr

namespace PyValue

open PyStr

/-- The values of steps that may raise, or the first exception. -/
def sequence {α : Type} : List (Except String α) → Except String (List α)
  | [] => .ok []
  | x :: xs => do
    let a ← x
    let rest ← sequence xs
    pure (a :: rest)

theorem sequence_iff {α : Type} {P : α → Bool} {xs : List (Except String α)} :
    (∃ as, sequence xs = .ok as ∧ as.all P = true) ↔ ∀ x ∈ xs, ∃ a, x = .ok a ∧ P a = true := by
  induction xs with
  | nil => simp [sequence]
  | cons x xs ih =>
    rw [List.forall_mem_cons, ← ih]
    cases x with
    | error e => simp [sequence, bind, Except.bind]
    | ok a =>
      cases h : sequence xs with
      | error e => simp [sequence, bind, Except.bind, h]
      | ok as => simp [sequence, bind, Except.bind, pure, Except.pure, h]

def notCompliant : String := "Out of range float values are not JSON compliant"

def tooDeep : String := "maximum recursion depth exceeded while encoding a JSON object"

def sorted {α : Type} (members : List (PyStr × α)) : List (PyStr × α) :=
  members.insertionSort (fun a b => a.1 ≤ b.1)

-- `json.dumps` as the projection calls it. The encoder can open `room` more containers.
mutual

def dumps : Nat → PyValue → Except String PyStr
  | _, .none => .ok (ofString "null")
  | _, .bool true => .ok (ofString "true")
  | _, .bool false => .ok (ofString "false")
  | _, .int n => .ok ((JsonValue.digits n).map Char.toNat)
  | _, .float repr => .ok (repr.map Char.toNat)
  | _, .nonfinite => .error notCompliant
  | _, .str s => .ok (quote s)
  | 0, .list _ => .error tooDeep
  | 0, .dict _ => .error tooDeep
  | room + 1, .list xs => (sequence (dumpsItems room xs)).map (fun items => 91 :: join items ++ [93])
  | room + 1, .dict members =>
    (sequence ((sorted (dumpsMembers room members)).map Prod.snd)).map
      (fun items => 123 :: join items ++ [125])

def dumpsItems : Nat → List PyValue → List (Except String PyStr)
  | _, [] => []
  | room, x :: xs => dumps room x :: dumpsItems room xs

/-- The members with their keys, to sort them by. -/
def dumpsMembers : Nat → List (PyStr × PyValue) → List (PyStr × Except String PyStr)
  | _, [] => []
  | room, (key, x) :: rest =>
    (key, (dumps room x).map (fun s => quote key ++ 58 :: s)) :: dumpsMembers room rest

end

-- No number of the value is infinite or missing, and it nests at most `room` deep.
mutual

def finite : Nat → PyValue → Bool
  | _, .nonfinite => false
  | 0, .list _ => false
  | 0, .dict _ => false
  | room + 1, .list xs => finiteItems room xs
  | room + 1, .dict members => finiteMembers room members
  | _, _ => true

def finiteItems : Nat → List PyValue → Bool
  | _, [] => true
  | room, x :: xs => finite room x && finiteItems room xs

def finiteMembers : Nat → List (PyStr × PyValue) → Bool
  | _, [] => true
  | room, (_, x) :: rest => finite room x && finiteMembers room rest

end

-- No string of the value has an unpaired surrogate.
mutual

def paired : PyValue → Bool
  | .str s => clean s
  | .list xs => pairedItems xs
  | .dict members => pairedMembers members
  | _ => true

def pairedItems : List PyValue → Bool
  | [] => true
  | x :: xs => paired x && pairedItems xs

def pairedMembers : List (PyStr × PyValue) → Bool
  | [] => true
  | (key, x) :: rest => clean key && paired x && pairedMembers rest

end

theorem mem_sorted {α : Type} {members : List (PyStr × α)} {m : PyStr × α} :
    m ∈ sorted members ↔ m ∈ members :=
  (List.perm_insertionSort _ _).mem_iff

theorem map_ok {α β : Type} {x : Except String α} {f : α → β} {P : β → Bool} :
    (∃ b, x.map f = .ok b ∧ P b = true) ↔ ∃ a, x = .ok a ∧ P (f a) = true := by
  cases x with
  | error e => simp [Except.map]
  | ok a => simp [Except.map]

/-- What the projection can write of a value. -/
abbrev Written (room : Nat) (x : PyValue) : Prop := ∃ s, dumps room x = .ok s ∧ clean s = true

-- A value is written exactly when it is finite and its surrogates are paired.
mutual

theorem written_iff : ∀ (room : Nat) (x : PyValue),
    Written room x ↔ finite room x = true ∧ paired x = true
  | room, .none => by simp [Written, dumps, finite, paired, clean_ofString]
  | room, .bool true => by simp [Written, dumps, finite, paired, clean_ofString]
  | room, .bool false => by simp [Written, dumps, finite, paired, clean_ofString]
  | room, .int n => by simp [Written, dumps, finite, paired, clean_chars]
  | room, .float repr => by simp [Written, dumps, finite, paired, clean_chars]
  | room, .nonfinite => by simp [Written, dumps, finite]
  | room, .str s => by simp [Written, dumps, finite, paired, clean_quote]
  | 0, .list xs => by simp [Written, dumps, finite]
  | 0, .dict members => by simp [Written, dumps, finite]
  | room + 1, .list xs => by
    have hclean : ∀ items, clean (91 :: join items ++ [93]) = items.all clean := by
      intro items
      rw [List.cons_append, clean_cons, clean_append, clean_join]
      simp [clean, surrogate]
    rw [Written, dumps, map_ok, finite, paired, ← writtenItems_iff room xs]
    simp only [hclean]
    exact sequence_iff
  | room + 1, .dict members => by
    have hclean : ∀ items, clean (123 :: join items ++ [125]) = items.all clean := by
      intro items
      rw [List.cons_append, clean_cons, clean_append, clean_join]
      simp [clean, surrogate]
    rw [Written, dumps, map_ok, finite, paired, ← writtenMembers_iff room members]
    simp only [hclean, sequence_iff, List.forall_mem_map, mem_sorted]

theorem writtenItems_iff : ∀ (room : Nat) (xs : List PyValue),
    (∀ x ∈ dumpsItems room xs, ∃ s, x = .ok s ∧ clean s = true) ↔
      finiteItems room xs = true ∧ pairedItems xs = true
  | room, [] => by simp [dumpsItems, finiteItems, pairedItems]
  | room, x :: xs => by
    rw [dumpsItems, List.forall_mem_cons, writtenItems_iff room xs, finiteItems, pairedItems,
      Bool.and_eq_true, Bool.and_eq_true, and_and_and_comm]
    exact and_congr_left (fun _ => written_iff room x)

theorem writtenMembers_iff : ∀ (room : Nat) (members : List (PyStr × PyValue)),
    (∀ m ∈ dumpsMembers room members, ∃ s, m.2 = .ok s ∧ clean s = true) ↔
      finiteMembers room members = true ∧ pairedMembers members = true
  | room, [] => by simp [dumpsMembers, finiteMembers, pairedMembers]
  | room, (key, x) :: rest => by
    have hhead : (∃ s, (dumps room x).map (fun s => quote key ++ 58 :: s) = .ok s ∧
        clean s = true) ↔ clean key = true ∧ finite room x = true ∧ paired x = true := by
      rw [map_ok, ← written_iff room x]
      simp only [clean_append, clean_quote, clean_cons, Bool.and_eq_true]
      constructor
      · rintro ⟨s, hs, hkey, _, hclean⟩
        exact ⟨hkey, s, hs, hclean⟩
      · rintro ⟨hkey, s, hs, hclean⟩
        exact ⟨s, hs, hkey, by decide, hclean⟩
    rw [dumpsMembers, List.forall_mem_cons, writtenMembers_iff room rest, finiteMembers,
      pairedMembers, hhead]
    simp only [Bool.and_eq_true]
    tauto

end

end PyValue

end RankLens
