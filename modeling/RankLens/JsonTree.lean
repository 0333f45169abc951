import Mathlib

namespace RankLens

/-- A tree of lists and of members under keys, with numbers of a kind `ν` and texts of a kind
`σ`. -/
inductive Tree (σ ν : Type) where
  | null
  | bool (b : Bool)
  | number (x : ν)
  | string (s : σ)
  | array (xs : List (Tree σ ν))
  | object (ms : List (σ × Tree σ ν))

namespace Tree

variable {σ ν μ : Type}

section maps

-- Each number is mapped, and the tree keeps its shape.
mutual

def map (g : ν → μ) : Tree σ ν → Tree σ μ
  | .null => .null
  | .bool b => .bool b
  | .number x => .number (g x)
  | .string t => .string t
  | .array xs => .array (mapItems g xs)
  | .object ms => .object (mapMembers g ms)

def mapItems (g : ν → μ) : List (Tree σ ν) → List (Tree σ μ)
  | [] => []
  | x :: xs => map g x :: mapItems g xs

def mapMembers (g : ν → μ) : List (σ × Tree σ ν) → List (σ × Tree σ μ)
  | [] => []
  | (key, x) :: ms => (key, map g x) :: mapMembers g ms

end

-- What holds of each text and of each number of a tree.
mutual

def All (P : σ → Prop) (Q : ν → Prop) : Tree σ ν → Prop
  | .null => True
  | .bool _ => True
  | .number x => Q x
  | .string t => P t
  | .array xs => AllItems P Q xs
  | .object ms => AllMembers P Q ms

def AllItems (P : σ → Prop) (Q : ν → Prop) : List (Tree σ ν) → Prop
  | [] => True
  | x :: xs => All P Q x ∧ AllItems P Q xs

def AllMembers (P : σ → Prop) (Q : ν → Prop) : List (σ × Tree σ ν) → Prop
  | [] => True
  | (key, x) :: ms => (P key ∧ All P Q x) ∧ AllMembers P Q ms

end

-- Two trees of one shape and with the same texts, whose numbers are related.
mutual

def Rel (R : ν → μ → Prop) : Tree σ ν → Tree σ μ → Prop
  | .null, .null => True
  | .bool a, .bool b => a = b
  | .number x, .number y => R x y
  | .string t, .string u => t = u
  | .array xs, .array ys => RelItems R xs ys
  | .object ms, .object ns => RelMembers R ms ns
  | _, _ => False

def RelItems (R : ν → μ → Prop) : List (Tree σ ν) → List (Tree σ μ) → Prop
  | [], [] => True
  | x :: xs, y :: ys => Rel R x y ∧ RelItems R xs ys
  | _, _ => False

def RelMembers (R : ν → μ → Prop) : List (σ × Tree σ ν) → List (σ × Tree σ μ) → Prop
  | [], [] => True
  | (key, x) :: ms, (key', y) :: ns => (key = key' ∧ Rel R x y) ∧ RelMembers R ms ns
  | _, _ => False

end

-- The numbers of a tree as they stand.
mutual

def numbers : Tree σ ν → List ν
  | .number x => [x]
  | .array xs => numbersItems xs
  | .object ms => numbersMembers ms
  | _ => []

def numbersItems : List (Tree σ ν) → List ν
  | [] => []
  | x :: xs => numbers x ++ numbersItems xs

def numbersMembers : List (σ × Tree σ ν) → List ν
  | [] => []
  | (_, x) :: ms => numbers x ++ numbersMembers ms

end

-- How many arrays and objects are open at once.
mutual

def nesting : Tree σ ν → Nat
  | .array xs => nestingItems xs + 1
  | .object ms => nestingMembers ms + 1
  | _ => 0

def nestingItems : List (Tree σ ν) → Nat
  | [] => 0
  | x :: xs => max (nesting x) (nestingItems xs)

def nestingMembers : List (σ × Tree σ ν) → Nat
  | [] => 0
  | (_, x) :: ms => max (nesting x) (nestingMembers ms)

end

variable {P : σ → Prop} {Q : ν → Prop} {R : ν → μ → Prop} {g : ν → μ}

theorem keys_map (ms : List (σ × Tree σ ν)) :
    (mapMembers g ms).map Prod.fst = ms.map Prod.fst := by
  induction ms with
  | nil => rfl
  | cons m ms ih =>
    obtain ⟨key, x⟩ := m
    rw [mapMembers, List.map_cons, List.map_cons, ih]

theorem allMembers_iff {ms : List (σ × Tree σ ν)} :
    AllMembers P Q ms ↔ ∀ m ∈ ms, P m.1 ∧ m.2.All P Q := by
  induction ms with
  | nil => simp only [AllMembers, List.not_mem_nil, false_imp_iff, implies_true]
  | cons a ms ih =>
    rw [AllMembers, ih, List.forall_mem_cons]

mutual

theorem map_map {κ : Type} {g' : μ → κ} : (t : Tree σ ν) →
    (t.map g).map g' = t.map (fun x => g' (g x))
  | .null => rfl
  | .bool _ => rfl
  | .number _ => rfl
  | .string _ => rfl
  | .array xs => by rw [map, map, map, mapItems_map xs]
  | .object ms => by rw [map, map, map, mapMembers_map ms]

theorem mapItems_map {κ : Type} {g' : μ → κ} : (xs : List (Tree σ ν)) →
    mapItems g' (mapItems g xs) = mapItems (fun x => g' (g x)) xs
  | [] => rfl
  | x :: xs => by rw [mapItems, mapItems, mapItems, map_map x, mapItems_map xs]

theorem mapMembers_map {κ : Type} {g' : μ → κ} : (ms : List (σ × Tree σ ν)) →
    mapMembers g' (mapMembers g ms) = mapMembers (fun x => g' (g x)) ms
  | [] => rfl
  | (key, x) :: ms => by rw [mapMembers, mapMembers, mapMembers, map_map x, mapMembers_map ms]

end

mutual

theorem Rel.texts : (t : Tree σ ν) → (u : Tree σ μ) → Rel R t u →
    u.All P (fun _ => True) → t.All P (fun _ => True)
  | .null, _, _, _ => by rw [All]; trivial
  | .bool _, _, _, _ => by rw [All]; trivial
  | .number _, _, _, _ => by rw [All]; trivial
  | .string t, u, h, hu => by
    cases u <;> simp only [Rel] at h
    subst h
    simpa only [All] using hu
  | .array xs, u, h, hu => by
    cases u <;> simp only [Rel] at h
    rw [All] at hu ⊢
    exact RelItems.texts xs _ h hu
  | .object ms, u, h, hu => by
    cases u <;> simp only [Rel] at h
    rw [All] at hu ⊢
    exact RelMembers.texts ms _ h hu

theorem RelItems.texts : (xs : List (Tree σ ν)) → (ys : List (Tree σ μ)) → RelItems R xs ys →
    AllItems P (fun _ => True) ys → AllItems P (fun _ => True) xs
  | [], _, _, _ => by rw [AllItems]; trivial
  | x :: xs, [], h, _ => by simp only [RelItems] at h
  | x :: xs, y :: ys, h, hy => by
    simp only [RelItems] at h
    simp only [AllItems] at hy ⊢
    exact ⟨Rel.texts x y h.1 hy.1, RelItems.texts xs ys h.2 hy.2⟩

theorem RelMembers.texts : (ms : List (σ × Tree σ ν)) → (ns : List (σ × Tree σ μ)) →
    RelMembers R ms ns → AllMembers P (fun _ => True) ns → AllMembers P (fun _ => True) ms
  | [], _, _, _ => by rw [AllMembers]; trivial
  | (key, x) :: ms, [], h, _ => by simp only [RelMembers] at h
  | (key, x) :: ms, (key', y) :: ns, h, hn => by
    simp only [RelMembers] at h
    simp only [AllMembers] at hn ⊢
    obtain ⟨⟨rfl, hx⟩, hms⟩ := h
    exact ⟨⟨hn.1.1, Rel.texts x y hx hn.1.2⟩, RelMembers.texts ms ns hms hn.2⟩

end

mutual

theorem rel_map_iff : (t : Tree σ ν) → (Rel R t (t.map g) ↔
    t.All (fun _ => True) (fun x => R x (g x)))
  | .null => by rw [map, Rel, All]
  | .bool _ => by rw [map, Rel, All]; exact iff_true_intro rfl
  | .number _ => by rw [map, Rel, All]
  | .string _ => by rw [map, Rel, All]; exact iff_true_intro rfl
  | .array xs => by rw [map, Rel, All]; exact relItems_map_iff xs
  | .object ms => by rw [map, Rel, All]; exact relMembers_map_iff ms

theorem relItems_map_iff : (xs : List (Tree σ ν)) → (RelItems R xs (mapItems g xs) ↔
    AllItems (fun _ => True) (fun x => R x (g x)) xs)
  | [] => by rw [mapItems, RelItems, AllItems]
  | x :: xs => by rw [mapItems, RelItems, AllItems, rel_map_iff x, relItems_map_iff xs]

theorem relMembers_map_iff : (ms : List (σ × Tree σ ν)) → (RelMembers R ms (mapMembers g ms) ↔
    AllMembers (fun _ => True) (fun x => R x (g x)) ms)
  | [] => by rw [mapMembers, RelMembers, AllMembers]
  | (key, x) :: ms => by
    rw [mapMembers, RelMembers, AllMembers, rel_map_iff x, relMembers_map_iff ms]
    simp only [true_and]

end

mutual

theorem all_map : (t : Tree σ ν) → {Q : μ → Prop} → (∀ x, Q (g x)) →
    t.All P (fun _ => True) → (t.map g).All P Q
  | .null, _, _, _ => by rw [map, All]; trivial
  | .bool _, _, _, _ => by rw [map, All]; trivial
  | .number x, _, hg, _ => by rw [map, All]; exact hg x
  | .string t, _, _, h => by rw [All] at h; rw [map, All]; exact h
  | .array xs, _, hg, h => by rw [All] at h; rw [map, All]; exact allItems_map xs hg h
  | .object ms, _, hg, h => by rw [All] at h; rw [map, All]; exact allMembers_map ms hg h

theorem allItems_map : (xs : List (Tree σ ν)) → {Q : μ → Prop} → (∀ x, Q (g x)) →
    AllItems P (fun _ => True) xs → AllItems P Q (mapItems g xs)
  | [], _, _, _ => by rw [mapItems, AllItems]; trivial
  | x :: xs, _, hg, h => by
    rw [AllItems] at h
    rw [mapItems, AllItems]
    exact ⟨all_map x hg h.1, allItems_map xs hg h.2⟩

theorem allMembers_map : (ms : List (σ × Tree σ ν)) → {Q : μ → Prop} → (∀ x, Q (g x)) →
    AllMembers P (fun _ => True) ms → AllMembers P Q (mapMembers g ms)
  | [], _, _, _ => by rw [mapMembers, AllMembers]; trivial
  | (key, x) :: ms, _, hg, h => by
    rw [AllMembers] at h
    rw [mapMembers, AllMembers]
    exact ⟨⟨h.1.1, all_map x hg h.1.2⟩, allMembers_map ms hg h.2⟩

end

mutual

theorem all_and : (t : Tree σ ν) → (t.All P Q ↔
    t.All P (fun _ => True) ∧ t.All (fun _ => True) Q)
  | .null => by simp only [All, and_self]
  | .bool _ => by simp only [All, and_self]
  | .number _ => by simp only [All, true_and]
  | .string _ => by simp only [All, and_true]
  | .array xs => by simp only [All]; exact allItems_and xs
  | .object ms => by simp only [All]; exact allMembers_and ms

theorem allItems_and : (xs : List (Tree σ ν)) → (AllItems P Q xs ↔
    AllItems P (fun _ => True) xs ∧ AllItems (fun _ => True) Q xs)
  | [] => by simp only [AllItems, and_self]
  | x :: xs => by
    rw [AllItems, AllItems, AllItems, all_and x, allItems_and xs]
    exact and_and_and_comm

theorem allMembers_and : (ms : List (σ × Tree σ ν)) → (AllMembers P Q ms ↔
    AllMembers P (fun _ => True) ms ∧ AllMembers (fun _ => True) Q ms)
  | [] => by simp only [AllMembers, and_self]
  | (key, x) :: ms => by
    rw [AllMembers, AllMembers, AllMembers, all_and x, allMembers_and ms]
    tauto

end

end maps

section order

variable [LinearOrder σ]

/-- Puts a member in its place, unless its key is there already. -/
def put (m : σ × Tree σ ν) : List (σ × Tree σ ν) → List (σ × Tree σ ν)
  | [] => [m]
  | n :: ms =>
    if m.1 < n.1 then m :: n :: ms else if m.1 = n.1 then n :: ms else n :: put m ms

-- A tree with its texts and numbers converted and its members in order. Of the members under
-- one key the last one stays.
mutual

def build (s : σ → σ) (g : ν → μ) : Tree σ ν → Tree σ μ
  | .null => .null
  | .bool b => .bool b
  | .number x => .number (g x)
  | .string t => .string (s t)
  | .array xs => .array (buildItems s g xs)
  | .object ms => .object (buildMembers s g ms)

def buildItems (s : σ → σ) (g : ν → μ) : List (Tree σ ν) → List (Tree σ μ)
  | [] => []
  | x :: xs => build s g x :: buildItems s g xs

def buildMembers (s : σ → σ) (g : ν → μ) : List (σ × Tree σ ν) → List (σ × Tree σ μ)
  | [] => []
  | (key, x) :: ms => put (s key, build s g x) (buildMembers s g ms)

end

-- A tree whose members stand in order, under different keys.
mutual

def Normal : Tree σ ν → Prop
  | .null => True
  | .bool _ => True
  | .number _ => True
  | .string _ => True
  | .array xs => NormalItems xs
  | .object ms => (ms.map Prod.fst).Pairwise (· < ·) ∧ NormalMembers ms

def NormalItems : List (Tree σ ν) → Prop
  | [] => True
  | x :: xs => Normal x ∧ NormalItems xs

def NormalMembers : List (σ × Tree σ ν) → Prop
  | [] => True
  | (_, x) :: ms => Normal x ∧ NormalMembers ms

end

variable {P : σ → Prop} {Q : ν → Prop} {g : ν → μ} {s : σ → σ} {m n : σ × Tree σ ν}
  {ms : List (σ × Tree σ ν)}

theorem mem_put (h : n ∈ put m ms) : n = m ∨ n ∈ ms := by
  induction ms with
  | nil => exact Or.inl (List.mem_singleton.mp h)
  | cons a ms ih =>
    rw [put] at h
    split_ifs at h
    · exact List.mem_cons.mp h
    · exact Or.inr h
    · obtain rfl | h := List.mem_cons.mp h
      · exact Or.inr List.mem_cons_self
      · exact (ih h).imp_right (List.mem_cons_of_mem a)

theorem mem_put_of_mem (h : n ∈ ms) : n ∈ put m ms := by
  induction ms with
  | nil => cases h
  | cons a ms ih =>
    rw [put]
    split_ifs
    · exact List.mem_cons_of_mem m h
    · exact h
    · obtain rfl | h := List.mem_cons.mp h
      · exact List.mem_cons_self
      · exact List.mem_cons_of_mem a (ih h)

theorem put_mem (h : m.1 ∉ ms.map Prod.fst) : m ∈ put m ms := by
  induction ms with
  | nil => exact List.mem_cons_self
  | cons a ms ih =>
    rw [List.map_cons, List.mem_cons, not_or] at h
    rw [put, if_neg h.1]
    split_ifs
    · exact List.mem_cons_self
    · exact List.mem_cons_of_mem a (ih h.2)

theorem put_first (h : ∀ n ∈ ms, m.1 < n.1) : put m ms = m :: ms := by
  cases ms with
  | nil => rfl
  | cons a ms => rw [put, if_pos (h a List.mem_cons_self)]

theorem put_present (hms : (ms.map Prod.fst).Pairwise (· < ·)) (h : m.1 ∈ ms.map Prod.fst) :
    put m ms = ms := by
  induction ms with
  | nil => cases h
  | cons a ms ih =>
    rw [List.map_cons, List.pairwise_cons] at hms
    rw [List.map_cons, List.mem_cons] at h
    rw [put]
    obtain h | h := h
    · rw [if_neg (by rw [h]; exact lt_irrefl _), if_pos h]
    · have above := hms.1 _ h
      rw [if_neg above.not_gt, if_neg above.ne', ih hms.2 h]

theorem put_sorted (hms : (ms.map Prod.fst).Pairwise (· < ·)) :
    ((put m ms).map Prod.fst).Pairwise (· < ·) := by
  induction ms with
  | nil => exact List.pairwise_singleton _ _
  | cons a ms ih =>
    rw [List.map_cons, List.pairwise_cons] at hms
    rw [put]
    split_ifs with hlt heq
    · refine List.Pairwise.cons (fun key hkey => ?_) (List.Pairwise.cons hms.1 hms.2)
      obtain rfl | hkey := List.mem_cons.mp hkey
      · exact hlt
      · exact hlt.trans (hms.1 key hkey)
    · exact List.Pairwise.cons hms.1 hms.2
    · refine List.Pairwise.cons (fun key hkey => ?_) (ih hms.2)
      obtain ⟨n, hn, rfl⟩ := List.mem_map.mp hkey
      obtain rfl | hn := mem_put hn
      · exact lt_of_le_of_ne (not_lt.mp hlt) (Ne.symm heq)
      · exact hms.1 _ (List.mem_map_of_mem hn)

theorem map_put : mapMembers g (put m ms) = put (m.1, m.2.map g) (mapMembers g ms) := by
  induction ms with
  | nil => rfl
  | cons a ms ih =>
    rw [put, mapMembers, put]
    split_ifs
    · rfl
    · rfl
    · rw [mapMembers, ih]

theorem buildMembers_sorted (ms : List (σ × Tree σ ν)) :
    ((buildMembers s g ms).map Prod.fst).Pairwise (· < ·) := by
  induction ms with
  | nil => exact List.Pairwise.nil
  | cons a ms ih => rw [buildMembers]; exact put_sorted ih

theorem normalMembers_put (hm : m.2.Normal) (h : NormalMembers ms) :
    NormalMembers (put m ms) := by
  induction ms with
  | nil => rw [put, NormalMembers, NormalMembers]; exact ⟨hm, trivial⟩
  | cons a ms ih =>
    rw [put]
    have parts := h
    rw [NormalMembers] at parts
    split_ifs
    · rw [NormalMembers]
      exact ⟨hm, h⟩
    · exact h
    · rw [NormalMembers]
      exact ⟨parts.1, ih parts.2⟩

mutual

theorem build_normal : (t : Tree σ ν) → (t.build s g).Normal
  | .null => by rw [build, Normal]; trivial
  | .bool _ => by rw [build, Normal]; trivial
  | .number _ => by rw [build, Normal]; trivial
  | .string _ => by rw [build, Normal]; trivial
  | .array xs => by rw [build, Normal]; exact buildItems_normal xs
  | .object ms => by
    rw [build, Normal]
    exact ⟨buildMembers_sorted ms, buildMembers_normal ms⟩

theorem buildItems_normal : (xs : List (Tree σ ν)) → NormalItems (buildItems s g xs)
  | [] => by rw [buildItems, NormalItems]; trivial
  | x :: xs => by rw [buildItems, NormalItems]; exact ⟨build_normal x, buildItems_normal xs⟩

theorem buildMembers_normal : (ms : List (σ × Tree σ ν)) → NormalMembers (buildMembers s g ms)
  | [] => by rw [buildMembers, NormalMembers]; trivial
  | (key, x) :: ms => by
    rw [buildMembers]
    exact normalMembers_put (build_normal x) (buildMembers_normal ms)

end

mutual

theorem map_normal : (t : Tree σ ν) → t.Normal → (t.map g).Normal
  | .null, _ => by rw [map, Normal]; trivial
  | .bool _, _ => by rw [map, Normal]; trivial
  | .number _, _ => by rw [map, Normal]; trivial
  | .string _, _ => by rw [map, Normal]; trivial
  | .array xs, h => by rw [Normal] at h; rw [map, Normal]; exact mapItems_normal xs h
  | .object ms, h => by
    rw [Normal] at h
    rw [map, Normal, keys_map]
    exact ⟨h.1, mapMembers_normal ms h.2⟩

theorem mapItems_normal : (xs : List (Tree σ ν)) → NormalItems xs → NormalItems (mapItems g xs)
  | [], _ => by rw [mapItems, NormalItems]; trivial
  | x :: xs, h => by
    rw [NormalItems] at h
    rw [mapItems, NormalItems]
    exact ⟨map_normal x h.1, mapItems_normal xs h.2⟩

theorem mapMembers_normal : (ms : List (σ × Tree σ ν)) → NormalMembers ms →
    NormalMembers (mapMembers g ms)
  | [], _ => by rw [mapMembers, NormalMembers]; trivial
  | (key, x) :: ms, h => by
    rw [NormalMembers] at h
    rw [mapMembers, NormalMembers]
    exact ⟨map_normal x h.1, mapMembers_normal ms h.2⟩

end

mutual

theorem build_of_normal : (t : Tree σ ν) → t.Normal → t.build id id = t
  | .null, _ => rfl
  | .bool _, _ => rfl
  | .number _, _ => rfl
  | .string _, _ => rfl
  | .array xs, h => by rw [Normal] at h; rw [build, buildItems_of_normal xs h]
  | .object ms, h => by rw [Normal] at h; rw [build, buildMembers_of_normal ms h.1 h.2]

theorem buildItems_of_normal : (xs : List (Tree σ ν)) → NormalItems xs → buildItems id id xs = xs
  | [], _ => rfl
  | x :: xs, h => by
    rw [NormalItems] at h
    rw [buildItems, build_of_normal x h.1, buildItems_of_normal xs h.2]

theorem buildMembers_of_normal : (ms : List (σ × Tree σ ν)) →
    (ms.map Prod.fst).Pairwise (· < ·) → NormalMembers ms → buildMembers id id ms = ms
  | [], _, _ => rfl
  | (key, x) :: ms, hkeys, h => by
    rw [NormalMembers] at h
    rw [List.map_cons, List.pairwise_cons] at hkeys
    rw [buildMembers, build_of_normal x h.1, buildMembers_of_normal ms hkeys.2 h.2]
    exact put_first (fun n hn => hkeys.1 n.1 (List.mem_map_of_mem hn))

end

mutual

theorem build_texts (hs : ∀ t, P (s t)) : (t : Tree σ ν) →
    (t.build s g).All P (fun _ => True)
  | .null => by rw [build, All]; trivial
  | .bool _ => by rw [build, All]; trivial
  | .number _ => by rw [build, All]; trivial
  | .string t => by rw [build, All]; exact hs t
  | .array xs => by rw [build, All]; exact buildItems_texts hs xs
  | .object ms => by rw [build, All]; exact buildMembers_texts hs ms

theorem buildItems_texts (hs : ∀ t, P (s t)) : (xs : List (Tree σ ν)) →
    AllItems P (fun _ => True) (buildItems s g xs)
  | [] => by rw [buildItems, AllItems]; trivial
  | x :: xs => by
    rw [buildItems, AllItems]
    exact ⟨build_texts hs x, buildItems_texts hs xs⟩

theorem buildMembers_texts (hs : ∀ t, P (s t)) : (ms : List (σ × Tree σ ν)) →
    AllMembers P (fun _ => True) (buildMembers s g ms)
  | [] => by rw [buildMembers, AllMembers]; trivial
  | (key, x) :: ms => by
    have rest := allMembers_iff.mp (buildMembers_texts hs ms)
    rw [buildMembers, allMembers_iff]
    intro n hn
    obtain rfl | hn := mem_put hn
    · exact ⟨hs key, build_texts hs x⟩
    · exact rest n hn

end

mutual

/-- Where the conversion of texts changes none of those that stay, the tree that is built is the
image of the tree without conversions. -/
theorem build_map (hs : ∀ t, P t → s t = t) : (t : Tree σ ν) →
    (t.build id id).All P (fun _ => True) → t.build s g = (t.build id id).map g
  | .null, _ => rfl
  | .bool _, _ => rfl
  | .number _, _ => rfl
  | .string t, h => by
    rw [build, All] at h
    have same : s t = t := hs t h
    rw [build, build, map, same]
    rfl
  | .array xs, h => by
    rw [build, All] at h
    rw [build, build, map, buildItems_map hs xs h]
  | .object ms, h => by
    rw [build, All] at h
    rw [build, build, map, buildMembers_map hs ms h]

theorem buildItems_map (hs : ∀ t, P t → s t = t) : (xs : List (Tree σ ν)) →
    AllItems P (fun _ => True) (buildItems id id xs) →
      buildItems s g xs = mapItems g (buildItems id id xs)
  | [], _ => rfl
  | x :: xs, h => by
    rw [buildItems, AllItems] at h
    rw [buildItems, buildItems, mapItems, build_map hs x h.1, buildItems_map hs xs h.2]

theorem buildMembers_map (hs : ∀ t, P t → s t = t) : (ms : List (σ × Tree σ ν)) →
    AllMembers P (fun _ => True) (buildMembers id id ms) →
      buildMembers s g ms = mapMembers g (buildMembers id id ms)
  | [], _ => rfl
  | (key, x) :: ms, h => by
    rw [buildMembers, allMembers_iff] at h
    have rest : AllMembers P (fun _ => True) (buildMembers id id ms) :=
      allMembers_iff.mpr (fun n hn => h n (mem_put_of_mem hn))
    rw [buildMembers, buildMembers, buildMembers_map hs ms rest, map_put]
    by_cases present : key ∈ (buildMembers id id ms).map Prod.fst
    · -- The member is written again further on: it leaves no trace in either tree.
      obtain ⟨n, hn, hkey⟩ := List.mem_map.mp present
      have same : s key = key := hs key (hkey ▸ (allMembers_iff.mp rest n hn).1)
      have sorted : ((mapMembers g (buildMembers id id ms)).map Prod.fst).Pairwise (· < ·) := by
        rw [keys_map]
        exact buildMembers_sorted ms
      rw [put_present sorted (by rw [keys_map, same]; exact present),
        put_present sorted (by rw [keys_map]; exact present)]
    · have own := h _ (put_mem present)
      rw [hs key own.1, build_map hs x own.2]
      rfl

end

end order

end Tree

end RankLens
