import Mathlib

namespace RankLens

/-! Pages of rows in the order of their keys, where a page continues behind the last key of the page
before and the rows may change between two pages. -/

namespace Keyset

variable {κ ρ : Type*} {lt : κ → κ → Prop} {key : ρ → κ} {after : Option κ} {rows : List ρ}
  {present : ρ → Prop} {r : ρ} {n : κ}

def Behind (lt : κ → κ → Prop) (after : Option κ) (k : κ) : Prop := ∀ a ∈ after, lt a k

/-- A page of the rows that are present behind a cursor, and the cursor it leaves: none when no row
is left, and the last key of the page otherwise. -/
structure Page (lt : κ → κ → Prop) (key : ρ → κ) (present : ρ → Prop) (after : Option κ)
    (rows : List ρ) (next : Option κ) : Prop where
  sorted : (rows.map key).Pairwise lt
  sound : ∀ r ∈ rows, present r ∧ Behind lt after (key r)
  last : next = none → ∀ r, present r → Behind lt after (key r) → r ∈ rows
  reached : ∀ n ∈ next, (∃ r ∈ rows, key r = n) ∧ ∀ r ∈ rows, key r = n ∨ lt (key r) n
  rest : ∀ n ∈ next, ∀ r, present r → Behind lt after (key r) → r ∈ rows ∨ lt n (key r)

/-- One row more than the limit is read, to see whether there is a next page. -/
def nextCursor (key : ρ → κ) (limit : ℕ) (rows : List ρ) : Option κ :=
  if limit < rows.length then (rows.take limit).getLast?.map key else none

theorem page_of_take {limit : ℕ} {all : List ρ} (hlimit : 1 ≤ limit)
    (sorted : (all.map key).Pairwise lt)
    (hall : ∀ r, r ∈ all ↔ present r ∧ Behind lt after (key r)) :
    Page lt key present after ((all.take (limit + 1)).take limit)
      (nextCursor key limit (all.take (limit + 1))) := by
  have cut : (all.take (limit + 1)).take limit = all.take limit := by
    rw [List.take_take, min_eq_left (Nat.le_succ limit)]
  have more : limit < (all.take (limit + 1)).length ↔ limit < all.length := by
    rw [List.length_take]
    omega
  rw [nextCursor, cut]
  simp only [more]
  have sorted' : ((all.take limit).map key).Pairwise lt := by
    rw [List.map_take]
    exact sorted.take
  refine ⟨sorted', fun r hr => (hall r).mp (List.mem_of_mem_take hr), fun hnone r hr hb => ?_,
    fun n hn => ?_, fun n hn r hr hb => ?_⟩
  · by_cases hlt : limit < all.length
    · rw [if_pos hlt, Option.map_eq_none_iff, List.getLast?_eq_none_iff, List.take_eq_nil_iff]
        at hnone
      obtain hzero | hnil := hnone
      · omega
      · rw [hnil] at hlt
        exact absurd hlt (Nat.not_lt_zero _)
    · rw [List.take_of_length_le (not_lt.mp hlt)]
      exact (hall r).mpr ⟨hr, hb⟩
  · obtain ⟨-, last, hlast, rfl⟩ := Option.ite_none_right_eq_some.mp hn |>.imp_right
      Option.map_eq_some_iff.mp
    refine ⟨⟨last, List.mem_of_getLast? hlast, rfl⟩, fun r hr => ?_⟩
    obtain ⟨init, hinit⟩ := List.getLast?_eq_some_iff.mp hlast
    rw [hinit, List.map_append, List.pairwise_append] at sorted'
    rw [hinit] at hr
    obtain hr | hr := List.mem_append.mp hr
    · exact .inr (sorted'.2.2 _ (List.mem_map_of_mem hr) _ (by simp))
    · exact .inl (congrArg key (List.mem_singleton.mp hr))
  · obtain ⟨-, last, hlast, rfl⟩ := Option.ite_none_right_eq_some.mp hn |>.imp_right
      Option.map_eq_some_iff.mp
    have hr := (hall r).mpr ⟨hr, hb⟩
    rw [← List.take_append_drop limit all] at hr sorted
    rw [List.map_append, List.pairwise_append] at sorted
    obtain hr | hr := List.mem_append.mp hr
    · exact .inl hr
    · exact .inr (sorted.2.2 _ (List.mem_map_of_mem (List.mem_of_getLast? hlast)) _
        (List.mem_map_of_mem hr))

/-- The pages that are read by following the cursors from one of them on. -/
inductive Follows (read : ℕ → Option κ → List ρ × Option κ) : ℕ → Option κ → List (List ρ) → Prop
    where
  | last {i : ℕ} {after : Option κ} {rows : List ρ} (h : read i after = (rows, none)) :
      Follows read i after [rows]
  | more {i : ℕ} {after : Option κ} {rows : List ρ} {n : κ} {pages : List (List ρ)}
      (h : read i after = (rows, some n)) (hrest : Follows read (i + 1) (some n) pages) :
      Follows read i after (rows :: pages)

variable {read : ℕ → Option κ → List ρ × Option κ} {snapshot : ℕ → ρ → Prop} {i : ℕ}
  {pages : List (List ρ)}

/-- What the pages from a cursor on list: rows in the order of their keys, each present when its
page is read, and one for every key that is present at every page. -/
structure Lists (lt : κ → κ → Prop) (key : ρ → κ) (snapshot : ℕ → ρ → Prop) (i : ℕ)
    (after : Option κ) (pages : List (List ρ)) : Prop where
  sorted : (pages.flatten.map key).Pairwise lt
  behind : ∀ r ∈ pages.flatten, Behind lt after (key r)
  sound : ∀ j, ∀ rows, pages[j]? = some rows → ∀ r ∈ rows, snapshot (i + j) r
  complete : ∀ k, Behind lt after k →
    (∀ j < pages.length, ∃ r, snapshot (i + j) r ∧ key r = k) → ∃ r ∈ pages.flatten, key r = k

/-- Following the cursors lists what stays present, once and in order, whatever comes and goes
between the pages. -/
theorem Follows.lists [IsTrans κ lt]
    (hread : ∀ j a, Page lt key (snapshot j) a (read j a).1 (read j a).2)
    (h : Follows read i after pages) : Lists lt key snapshot i after pages := by
  induction h with
  | @last i after rows h =>
    have page := hread i after
    rw [h] at page
    refine ⟨?_, fun r hr => ?_, fun j rows' hj r hr => ?_, fun k hk hall => ?_⟩
    · rw [List.flatten_singleton]
      exact page.sorted
    · rw [List.flatten_singleton] at hr
      exact (page.sound r hr).2
    · cases j with
      | zero =>
        obtain rfl := Option.some.inj hj
        exact (page.sound r hr).1
      | succ j => cases hj
    · obtain ⟨r, hr, rfl⟩ := hall 0 Nat.zero_lt_one
      exact ⟨r, by simpa using page.last rfl r hr hk, rfl⟩
  | @more i after rows n pages h hrest ih =>
    have page := hread i after
    rw [h] at page
    obtain ⟨⟨end', hend, rfl⟩, hupto⟩ := page.reached n rfl
    have above : ∀ r ∈ rows, ∀ k, lt (key end') k → lt (key r) k := by
      intro r hr k hk
      obtain he | hlt := hupto r hr
      · rwa [he]
      · exact IsTrans.trans _ _ _ hlt hk
    have past : ∀ k, lt (key end') k → Behind lt after k :=
      fun k hk a ha => IsTrans.trans _ _ _ ((page.sound end' hend).2 a ha) hk
    refine ⟨?_, fun r hr => ?_, fun j rows' hj r hr => ?_, fun k hk hall => ?_⟩
    · rw [List.flatten_cons, List.map_append, List.pairwise_append]
      refine ⟨page.sorted, ih.sorted, fun x hx y hy => ?_⟩
      obtain ⟨r, hr, rfl⟩ := List.mem_map.mp hx
      obtain ⟨r', hr', rfl⟩ := List.mem_map.mp hy
      exact above r hr _ (ih.behind r' hr' _ rfl)
    · rw [List.flatten_cons] at hr
      obtain hr | hr := List.mem_append.mp hr
      · exact (page.sound r hr).2
      · exact past _ (ih.behind r hr _ rfl)
    · cases j with
      | zero =>
        obtain rfl := Option.some.inj hj
        exact (page.sound r hr).1
      | succ j =>
        have later := ih.sound j rows' hj r hr
        rwa [Nat.add_right_comm, Nat.add_assoc] at later
    · obtain ⟨r, hr, rfl⟩ := hall 0 (Nat.succ_pos _)
      rw [List.flatten_cons]
      obtain hmem | hlt := page.rest _ rfl r hr hk
      · exact ⟨r, List.mem_append_left _ hmem, rfl⟩
      · obtain ⟨r', hr', he⟩ := ih.complete (key r)
          (fun a ha => (Option.some.inj ha) ▸ hlt) (fun j hj => by
            have later := hall (j + 1) (Nat.succ_lt_succ hj)
            rwa [Nat.add_right_comm, Nat.add_assoc])
        exact ⟨r', List.mem_append_right _ hr', he⟩

/-- Following the cursors ends when there are finitely many keys. -/
theorem follows_exists [IsStrictOrder κ lt] {keys : Set κ} (finite : keys.Finite)
    (hread : ∀ j a, Page lt key (snapshot j) a (read j a).1 (read j a).2)
    (hkeys : ∀ j r, snapshot j r → key r ∈ keys) (i : ℕ) (after : Option κ) :
    ∃ pages, Follows read i after pages := by
  -- The keys that are left behind the cursor become fewer with every page.
  induction hn : {k | k ∈ keys ∧ Behind lt after k}.ncard using Nat.strong_induction_on
    generalizing i after with
  | h n ih =>
    have page := hread i after
    cases hnext : (read i after).2 with
    | none => exact ⟨_, .last (Prod.ext rfl hnext)⟩
    | some k =>
      obtain ⟨⟨r, hr, rfl⟩, -⟩ := page.reached k hnext
      obtain ⟨hpresent, hbehind⟩ := page.sound r hr
      have fewer : {k | k ∈ keys ∧ Behind lt (some (key r)) k} ⊂
          {k | k ∈ keys ∧ Behind lt after k} := by
        refine ⟨fun k hk => ⟨hk.1, fun a ha => IsTrans.trans _ _ _ (hbehind a ha) (hk.2 _ rfl)⟩,
          fun hsub => ?_⟩
        exact irrefl (r := lt) _ ((hsub ⟨hkeys i r hpresent, hbehind⟩).2 _ rfl)
      have left : {k | k ∈ keys ∧ Behind lt after k}.Finite := finite.subset (fun k hk => hk.1)
      obtain ⟨pages, hpages⟩ := ih _ (hn ▸ Set.ncard_lt_ncard fewer left) (i + 1) (some (key r)) rfl
      exact ⟨_, .more (Prod.ext rfl hnext) hpages⟩

end Keyset

end RankLens
