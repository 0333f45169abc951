import Mathlib

namespace RankLens

/-! The newest rows of a table, oldest first: what a query that orders by time, newest first, and
limits the rows gives, once its rows are reversed. -/

namespace Window

variable {α τ : Type*} [LinearOrder τ] {time : α → τ} {n : ℕ} {xs ys ys' rest : List α}

/-- The `n` newest of the rows, or all of them if there are not more, in the order of time. -/
structure Newest (time : α → τ) (n : ℕ) (xs ys : List α) : Prop where
  chronological : ys.Pairwise (fun x y => time x ≤ time y)
  full : ys.length = min n xs.length
  rest : ∃ rest, (rest ++ ys).Perm xs ∧ ∀ x ∈ rest, ∀ y ∈ ys, time x ≤ time y

/-- The rows by time, newest first. -/
def descending (time : α → τ) (xs : List α) : List α :=
  xs.insertionSort (fun x y => time y ≤ time x)

theorem descending_sorted (time : α → τ) (xs : List α) :
    (descending time xs).Pairwise (fun x y => time y ≤ time x) := by
  have total : Std.Total (fun x y : α => time y ≤ time x) := ⟨fun x y => le_total _ _⟩
  have trans : IsTrans α (fun x y => time y ≤ time x) := ⟨fun x y z hxy hyz => hyz.trans hxy⟩
  exact List.pairwise_insertionSort _ xs

theorem descending_perm (time : α → τ) (xs : List α) : (descending time xs).Perm xs :=
  List.perm_insertionSort _ xs

theorem newest_descending (time : α → τ) (n : ℕ) (xs : List α) :
    Newest time n xs ((descending time xs).take n).reverse := by
  have sorted := descending_sorted time xs
  rw [← List.take_append_drop n (descending time xs)] at sorted
  obtain ⟨first, -, across⟩ := List.pairwise_append.mp sorted
  refine ⟨List.pairwise_reverse.mpr first, ?_, ((descending time xs).drop n).reverse, ?_, ?_⟩
  · rw [List.length_reverse, List.length_take, (descending_perm time xs).length_eq]
  · rw [← List.reverse_append, List.take_append_drop]
    exact (List.reverse_perm _).trans (descending_perm time xs)
  · intro x hx y hy
    exact across y (List.mem_reverse.mp hy) x (List.mem_reverse.mp hx)

namespace Newest

theorem subset (h : Newest time n xs ys) : ∀ y ∈ ys, y ∈ xs := by
  intro y hy
  obtain ⟨rest, perm, -⟩ := h.rest
  exact perm.subset (List.mem_append_right rest hy)

theorem getLast (h : Newest time n xs ys) {y : α} (hy : ys.getLast? = some y) :
    ∀ x ∈ xs, time x ≤ time y := by
  intro x hx
  obtain ⟨rest, perm, older⟩ := h.rest
  obtain ⟨init, rfl⟩ := List.getLast?_eq_some_iff.mp hy
  obtain hx | hx := List.mem_append.mp (perm.symm.subset hx)
  · exact older x hx y (List.mem_append_right init (List.mem_singleton_self y))
  · obtain hx | hx := List.mem_append.mp hx
    · exact (List.pairwise_append.mp h.chronological).2.2 x hx y (List.mem_singleton_self y)
    · rw [List.mem_singleton.mp hx]

theorem ne_nil (h : Newest time n xs ys) (hn : 0 < n) {x : α} (hx : x ∈ xs) : ys ≠ [] := by
  apply List.ne_nil_of_length_pos
  rw [h.full]
  exact lt_min hn (List.length_pos_of_mem hx)

/-- Rows of different times have one newest window, however the others are ordered. -/
theorem unique (h : Newest time n xs ys) (h' : Newest time n xs ys')
    (different : ∀ x ∈ xs, ∀ y ∈ xs, time x = time y → x = y) : ys = ys' := by
  have arranged : ∀ {zs : List α}, Newest time n xs zs → ∃ older, (older ++ zs).Perm xs ∧
      (older ++ zs).Pairwise (fun x y => time x ≤ time y) := by
    intro zs hz
    obtain ⟨rest, perm, older⟩ := hz.rest
    have total : Std.Total (fun x y : α => time x ≤ time y) := ⟨fun x y => le_total _ _⟩
    have trans : IsTrans α (fun x y => time x ≤ time y) := ⟨fun x y z hxy hyz => hxy.trans hyz⟩
    have sort := List.perm_insertionSort (fun x y => time x ≤ time y) rest
    refine ⟨rest.insertionSort (fun x y => time x ≤ time y),
      (sort.append_right zs).trans perm, ?_⟩
    refine List.pairwise_append.mpr ⟨List.pairwise_insertionSort _ rest, hz.chronological, ?_⟩
    exact fun x hx y hy => older x (sort.subset hx) y hy
  obtain ⟨older, perm, sorted⟩ := arranged h
  obtain ⟨older', perm', sorted'⟩ := arranged h'
  have same : older ++ ys = older' ++ ys' := by
    refine List.Perm.eq_of_pairwise ?_ sorted sorted' (perm.trans perm'.symm)
    intro x y hx hy hxy hyx
    exact different x (perm.subset hx) y (perm'.subset hy) (le_antisymm hxy hyx)
  exact (List.append_inj' same (h.full.trans h'.full.symm)).2

end Newest

end Window

end RankLens
