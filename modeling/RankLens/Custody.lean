import Mathlib

namespace RankLens

namespace Custody

/-- What is done with handles that a library gives out and takes back. -/
inductive Use (α : Type) where
  | obtain (a : α)
  | touch (a : α)
  | free (a : α)
deriving DecidableEq, Repr

variable {α : Type} [DecidableEq α] {a b : α} {held held' owned : List α} {us vs : List (Use α)}

/-- The handles held after the uses, if none was used that was not held. -/
def settle : List α → List (Use α) → Option (List α)
  | held, [] => some held
  | held, .obtain a :: us => settle (a :: held) us
  | held, .touch a :: us => if a ∈ held then settle held us else none
  | held, .free a :: us => if a ∈ held then settle (held.erase a) us else none

theorem settle_append (held : List α) (us vs : List (Use α)) :
    settle held (us ++ vs) = (settle held us).bind (fun held' => settle held' vs) := by
  induction us generalizing held with
  | nil => rfl
  | cons u us ih =>
    cases u with
    | obtain a => exact ih (a :: held)
    | touch a =>
      rw [List.cons_append, settle, settle]
      split
      · exact ih held
      · rfl
    | free a =>
      rw [List.cons_append, settle, settle]
      split
      · exact ih (held.erase a)
      · rfl

theorem count_obtain_cons (a b : α) (us : List (Use α)) :
    (Use.obtain b :: us).count (.obtain a) = us.count (.obtain a) + if b = a then 1 else 0 := by
  rw [List.count_cons]
  simp only [beq_iff_eq, Use.obtain.injEq]

theorem count_free_cons (a b : α) (us : List (Use α)) :
    (Use.free b :: us).count (.free a) = us.count (.free a) + if b = a then 1 else 0 := by
  rw [List.count_cons]
  simp only [beq_iff_eq, Use.free.injEq]

theorem count_cons_other {u v : Use α} (h : u ≠ v) (us : List (Use α)) :
    (u :: us).count v = us.count v := List.count_cons_of_ne h

theorem settle_count (h : settle held us = some held') (a : α) :
    held.count a + us.count (.obtain a) = held'.count a + us.count (.free a) := by
  induction us generalizing held with
  | nil =>
    obtain rfl := Option.some.inj h
    rfl
  | cons u us ih =>
    cases u with
    | obtain b =>
      have next := ih h
      rw [List.count_cons] at next
      rw [count_obtain_cons, count_cons_other (by simp)]
      simp only [beq_iff_eq] at next
      omega
    | touch b =>
      rw [settle] at h
      split at h
      · rw [count_cons_other (by simp), count_cons_other (by simp)]
        exact ih h
      · exact nomatch h
    | free b =>
      rw [settle] at h
      split at h
      · next hmem =>
        have next := ih h
        rw [count_cons_other (by simp), count_free_cons]
        by_cases hab : b = a
        · subst hab
          have some := List.count_pos_iff.mpr hmem
          rw [List.count_erase_self] at next
          rw [if_pos rfl]
          omega
        · rw [List.count_erase_of_ne (Ne.symm hab)] at next
          rw [if_neg hab]
          exact next
      · exact nomatch h

theorem settle_unused (h : settle held us = some held') (ha : a ∉ held)
    (hus : .obtain a ∉ us) : .touch a ∉ us ∧ .free a ∉ us := by
  induction us generalizing held with
  | nil => exact ⟨List.not_mem_nil, List.not_mem_nil⟩
  | cons u us ih =>
    obtain ⟨hu, hrest⟩ := not_or.mp (fun h => hus (List.mem_cons.mpr h))
    cases u with
    | obtain b =>
      have hab : a ≠ b := fun he => hu (congrArg _ he)
      obtain ⟨htouch, hfree⟩ := ih h (List.not_mem_cons_of_ne_of_not_mem hab ha) hrest
      exact ⟨List.not_mem_cons_of_ne_of_not_mem (by simp) htouch,
        List.not_mem_cons_of_ne_of_not_mem (by simp) hfree⟩
    | touch b =>
      rw [settle] at h
      split at h
      · next hb =>
        obtain ⟨htouch, hfree⟩ := ih h ha hrest
        refine ⟨List.not_mem_cons_of_ne_of_not_mem (fun he => ?_) htouch,
          List.not_mem_cons_of_ne_of_not_mem (by simp) hfree⟩
        obtain rfl := Use.touch.inj he
        exact ha hb
      · exact nomatch h
    | free b =>
      rw [settle] at h
      split at h
      · next hb =>
        obtain ⟨htouch, hfree⟩ := ih h (fun hm => ha (List.mem_of_mem_erase hm)) hrest
        refine ⟨List.not_mem_cons_of_ne_of_not_mem (by simp) htouch,
          List.not_mem_cons_of_ne_of_not_mem (fun he => ?_) hfree⟩
        obtain rfl := Use.free.inj he
        exact ha hb
      · exact nomatch h

/-- The uses are sound, and leave these handles to be freed. -/
def Holds (us : List (Use α)) (owned : List α) : Prop :=
  ∃ held, settle [] us = some held ∧ held.Perm owned

theorem holds_nil : Holds ([] : List (Use α)) [] := ⟨[], rfl, .nil⟩

theorem Holds.perm (h : Holds us held) (hp : held.Perm owned) : Holds us owned := by
  obtain ⟨found, hfound, hperm⟩ := h
  exact ⟨found, hfound, hperm.trans hp⟩

theorem Holds.obtained (h : Holds us owned) (a : α) : Holds (us ++ [.obtain a]) (a :: owned) := by
  obtain ⟨held, hheld, hperm⟩ := h
  refine ⟨a :: held, ?_, hperm.cons a⟩
  rw [settle_append, hheld]
  rfl

theorem Holds.touched (h : Holds us owned) (ha : a ∈ owned) : Holds (us ++ [.touch a]) owned := by
  obtain ⟨held, hheld, hperm⟩ := h
  refine ⟨held, ?_, hperm⟩
  rw [settle_append, hheld]
  exact if_pos (hperm.mem_iff.mpr ha)

theorem Holds.freed (h : Holds us (a :: owned)) : Holds (us ++ [.free a]) owned := by
  obtain ⟨held, hheld, hperm⟩ := h
  refine ⟨held.erase a, ?_, ?_⟩
  · rw [settle_append, hheld]
    exact if_pos (hperm.mem_iff.mpr List.mem_cons_self)
  · have erased := hperm.erase a
    rwa [List.erase_cons_head] at erased

theorem Holds.allFreed {freed : List α} (h : Holds us (freed ++ owned)) :
    Holds (us ++ freed.map .free) owned := by
  induction freed generalizing us with
  | nil =>
    rw [List.map_nil, List.append_nil]
    exact h
  | cons a freed ih =>
    have next := ih (Holds.freed h)
    rwa [List.append_assoc, List.singleton_append, ← List.map_cons] at next

theorem Holds.count_free_le (h : Holds us owned) : us.count (.free a) ≤ us.count (.obtain a) := by
  obtain ⟨held, hheld, -⟩ := h
  have counted := settle_count hheld a
  rw [List.count_nil] at counted
  omega

theorem Holds.count_free_eq (h : Holds us []) : us.count (.free a) = us.count (.obtain a) := by
  obtain ⟨held, hheld, hperm⟩ := h
  obtain rfl := hperm.eq_nil
  have counted := settle_count hheld a
  rw [List.count_nil] at counted
  omega

theorem Holds.unused {before after : List (Use α)} (h : Holds us owned)
    (honce : us.count (.obtain a) ≤ 1) (hus : us = before ++ .free a :: after) :
    .touch a ∉ after ∧ .free a ∉ after := by
  subst hus
  obtain ⟨held, hheld, -⟩ := h
  rw [settle_append] at hheld
  obtain ⟨middle, hmiddle, hheld⟩ := Option.bind_eq_some_iff.mp hheld
  rw [settle] at hheld
  split at hheld
  · next hmem =>
    have counted := settle_count hmiddle a
    have some := List.count_pos_iff.mpr hmem
    rw [List.count_append, count_cons_other (by simp)] at honce
    rw [List.count_nil] at counted
    refine settle_unused hheld ?_ ?_
    · rw [← List.count_eq_zero, List.count_erase_self]
      omega
    · rw [← List.count_eq_zero]
      omega
  · exact nomatch hheld

section numbered

variable {us more : List (Use Nat)} {n a : Nat}

/-- The handles are numbered in the order they are obtained, from zero up to `n`. -/
structure Numbered (n : Nat) (us : List (Use Nat)) : Prop where
  once : ∀ a, us.count (.obtain a) ≤ 1
  below : ∀ a, n ≤ a → .obtain a ∉ us

theorem numbered_nil : Numbered 0 [] := ⟨fun _ => Nat.zero_le _, fun _ _ => List.not_mem_nil⟩

theorem Numbered.obtained (h : Numbered n us) : Numbered (n + 1) (us ++ [.obtain n]) := by
  have new := List.count_eq_zero.mpr (h.below n (Nat.le_refl n))
  refine ⟨fun a => ?_, fun a ha hmem => ?_⟩
  · rw [List.count_append, count_obtain_cons, List.count_nil]
    by_cases hn : n = a
    · subst hn
      have one : us.count (.obtain n) + (0 + if n = n then 1 else 0) = 1 := by
        rw [new, if_pos rfl]
      exact Nat.le_of_eq one
    · rw [if_neg hn]
      exact h.once a
  · obtain hmem | hmem := List.mem_append.mp hmem
    · exact h.below a (by omega) hmem
    · obtain rfl := Use.obtain.inj (List.mem_singleton.mp hmem)
      omega

theorem Numbered.used (h : Numbered n us) (hmore : ∀ a, .obtain a ∉ more) :
    Numbered n (us ++ more) := by
  refine ⟨fun a => ?_, fun a ha hmem => ?_⟩
  · rw [List.count_append, List.count_eq_zero.mpr (hmore a), Nat.add_zero]
    exact h.once a
  · exact (List.mem_append.mp hmem).elim (h.below a ha) (hmore a)

theorem Numbered.allFreed (h : Numbered n us) (freed : List Nat) :
    Numbered n (us ++ freed.map .free) := by
  refine h.used (fun a hmem => ?_)
  obtain ⟨b, -, hb⟩ := List.mem_map.mp hmem
  exact nomatch hb

end numbered

end Custody

end RankLens
