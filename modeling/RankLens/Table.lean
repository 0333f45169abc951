import Mathlib

namespace RankLens

/-- The rows of one relation. No two rows share a primary key. -/
structure Table {κ ρ : Type} (key : ρ → κ) where
  rows : List ρ
  nodup : (rows.map key).Nodup

namespace Table

variable {κ ρ : Type} {key : ρ → κ}

instance : Membership ρ (Table key) := ⟨fun t r => r ∈ t.rows⟩

theorem mem_rows {t : Table key} {r : ρ} : r ∈ t.rows ↔ r ∈ t := Iff.rfl

def empty : Table key := ⟨[], List.nodup_nil⟩

@[simp] theorem not_mem_empty (r : ρ) : r ∉ (empty : Table key) := List.not_mem_nil

theorem eq_of_key {t : Table key} {r r' : ρ} (h : r ∈ t) (h' : r' ∈ t)
    (hk : key r = key r') : r = r' :=
  List.inj_on_of_nodup_map t.nodup h h' hk

/-- The rows satisfying a condition, in the order they were inserted. -/
def select (t : Table key) (p : ρ → Bool) : List ρ := t.rows.filter p

@[simp] theorem mem_select {t : Table key} {p : ρ → Bool} {r : ρ} :
    r ∈ t.select p ↔ r ∈ t ∧ p r = true := List.mem_filter

def deleteWhere (t : Table key) (p : ρ → Bool) : Table key :=
  ⟨t.rows.filter (fun r => !p r), (t.nodup.sublist (List.filter_sublist.map key))⟩

@[simp] theorem mem_deleteWhere {t : Table key} {p : ρ → Bool} {r : ρ} :
    r ∈ t.deleteWhere p ↔ r ∈ t ∧ p r = false := by
  show r ∈ t.rows.filter _ ↔ _
  simp [List.mem_filter, mem_rows]

theorem nodup_select {t : Table key} {p : ρ → Bool} : (t.select p).Nodup :=
  (List.Nodup.of_map key t.nodup).filter p

theorem select_perm {t t' : Table key} {p : ρ → Bool} (h : ∀ x, p x = true → (x ∈ t' ↔ x ∈ t)) :
    (t'.select p).Perm (t.select p) := by
  refine (List.perm_ext_iff_of_nodup nodup_select nodup_select).mpr (fun x => ?_)
  rw [mem_select, mem_select]
  exact and_congr_left (h x)

theorem select_eq_singleton {t : Table key} {p : ρ → Bool} {r : ρ}
    (h : ∀ x, (x ∈ t ∧ p x = true) ↔ x = r) : t.select p = [r] := by
  refine List.perm_singleton.mp
    ((List.perm_ext_iff_of_nodup nodup_select (List.nodup_singleton r)).mpr (fun x => ?_))
  rw [mem_select, h, List.mem_singleton]

variable [DecidableEq κ]

def get (t : Table key) (k : κ) : Option ρ := t.rows.find? (fun r => decide (key r = k))

theorem get_eq_some {t : Table key} {k : κ} {r : ρ} :
    t.get k = some r ↔ r ∈ t ∧ key r = k := by
  constructor
  · intro h
    exact ⟨List.mem_of_find?_eq_some h, by simpa using List.find?_some h⟩
  · rintro ⟨hm, rfl⟩
    cases hg : t.rows.find? (fun r' => decide (key r' = key r)) with
    | none =>
      have hne := List.find?_eq_none.mp hg r hm
      simp at hne
    | some r' =>
      have hk : key r' = key r := by simpa using List.find?_some hg
      rw [get, hg, eq_of_key (List.mem_of_find?_eq_some hg) hm hk]

theorem mem_of_get {t : Table key} {k : κ} {r : ρ} (h : t.get k = some r) : r ∈ t :=
  (get_eq_some.mp h).1

theorem key_of_get {t : Table key} {k : κ} {r : ρ} (h : t.get k = some r) : key r = k :=
  (get_eq_some.mp h).2

theorem get_of_mem {t : Table key} {r : ρ} (h : r ∈ t) : t.get (key r) = some r :=
  get_eq_some.mpr ⟨h, rfl⟩

theorem get_eq_none {t : Table key} {k : κ} : t.get k = none ↔ ∀ r ∈ t, key r ≠ k := by
  simp [get, List.find?_eq_none, mem_rows]

theorem get_congr {t t' : Table key} {k : κ} (h : ∀ r, key r = k → (r ∈ t' ↔ r ∈ t)) :
    t'.get k = t.get k := by
  ext r
  rw [get_eq_some, get_eq_some]
  constructor
  · intro ⟨hr, hk⟩
    exact ⟨(h r hk).mp hr, hk⟩
  · intro ⟨hr, hk⟩
    exact ⟨(h r hk).mpr hr, hk⟩

@[simp] theorem get_empty (k : κ) : (empty : Table key).get k = none := rfl

/-- Append a row. A row whose key is taken leaves the table as it is; the
statements that insert check the key first. -/
def insert (t : Table key) (r : ρ) : Table key :=
  if h : key r ∈ t.rows.map key then t
  else ⟨t.rows ++ [r], by
    rw [List.map_append, List.nodup_append]
    refine ⟨t.nodup, List.nodup_singleton _, ?_⟩
    intro a ha b hb
    rw [List.map_singleton, List.mem_singleton] at hb
    exact fun hab => h (hb ▸ hab ▸ ha)⟩

theorem mem_insert {t : Table key} {r x : ρ} (h : t.get (key r) = none) :
    x ∈ t.insert r ↔ x ∈ t ∨ x = r := by
  have hn : key r ∉ t.rows.map key := by
    intro hm
    obtain ⟨y, hy, hk⟩ := List.mem_map.mp hm
    exact get_eq_none.mp h y hy hk
  show x ∈ (insert t r).rows ↔ _
  simp [insert, hn, mem_rows]

theorem mem_of_mem_insert {t : Table key} {r x : ρ} (h : x ∈ t.insert r) : x ∈ t ∨ x = r := by
  unfold insert at h
  split at h
  · exact Or.inl h
  · simpa [mem_rows] using (show x ∈ t.rows ++ [r] from h)

theorem mem_insert_of_mem {t : Table key} {r x : ρ} (h : x ∈ t) : x ∈ t.insert r := by
  unfold insert
  split
  · exact h
  · exact List.mem_append_left _ h

theorem select_insert {t : Table key} {r : ρ} {p : ρ → Bool} (h : t.get (key r) = none)
    (hp : p r = true) : ((t.insert r).select p).Perm (r :: t.select p) := by
  have hr : r ∉ t.select p := fun hm => get_eq_none.mp h r (mem_select.mp hm).1 rfl
  refine (List.perm_ext_iff_of_nodup nodup_select (List.nodup_cons.mpr ⟨hr, nodup_select⟩)).mpr
    (fun x => ?_)
  rw [mem_select, mem_insert h, List.mem_cons, mem_select]
  constructor
  · rintro ⟨hx | rfl, hpx⟩
    · exact Or.inr ⟨hx, hpx⟩
    · exact Or.inl rfl
  · rintro (rfl | ⟨hx, hpx⟩)
    · exact ⟨Or.inr rfl, hp⟩
    · exact ⟨Or.inl hx, hpx⟩

theorem get_insert {t : Table key} {r : ρ} {k : κ} (h : t.get (key r) = none) :
    (t.insert r).get k = if key r = k then some r else t.get k := by
  split
  · next hk => exact get_eq_some.mpr ⟨(mem_insert h).mpr (Or.inr rfl), hk⟩
  · next hk =>
    ext x
    constructor
    · intro hx
      obtain ⟨hm, rfl⟩ := get_eq_some.mp hx
      rcases (mem_insert h).mp hm with hm | rfl
      · exact get_of_mem hm
      · exact absurd rfl hk
    · intro hx
      obtain ⟨hm, rfl⟩ := get_eq_some.mp hx
      exact get_of_mem ((mem_insert h).mpr (Or.inl hm))

/-- Update the row under `k`. The columns of the key never change. -/
def modify (t : Table key) (k : κ) (f : ρ → ρ) (hf : ∀ r, key (f r) = key r) : Table key :=
  ⟨t.rows.map (fun r => if key r = k then f r else r), by
    have hm : (t.rows.map (fun r => if key r = k then f r else r)).map key = t.rows.map key := by
      rw [List.map_map]
      apply List.map_congr_left
      intro r _
      by_cases hk : key r = k <;> simp [hk, hf]
    rw [hm]
    exact t.nodup⟩

theorem mem_modify {t : Table key} {k : κ} {f : ρ → ρ} {hf : ∀ r, key (f r) = key r} {x : ρ} :
    x ∈ t.modify k f hf ↔ (x ∈ t ∧ key x ≠ k) ∨ ∃ r ∈ t, key r = k ∧ x = f r := by
  show x ∈ t.rows.map _ ↔ _
  rw [List.mem_map]
  constructor
  · rintro ⟨r, hr, rfl⟩
    by_cases hk : key r = k
    · exact Or.inr ⟨r, hr, hk, by simp [hk]⟩
    · simp only [hk, if_false]
      exact Or.inl ⟨hr, hk⟩
  · rintro (⟨hx, hk⟩ | ⟨r, hr, hk, rfl⟩)
    · exact ⟨x, hx, by simp [hk]⟩
    · exact ⟨r, hr, by simp [hk]⟩

theorem mem_modify_of_mem {t : Table key} {r x : ρ} {f : ρ → ρ} {hf : ∀ r, key (f r) = key r}
    (h : r ∈ t) : x ∈ t.modify (key r) f hf ↔ (x ∈ t ∧ x ≠ r) ∨ x = f r := by
  rw [mem_modify]
  constructor
  · rintro (⟨hx, hk⟩ | ⟨y, hy, hk, rfl⟩)
    · exact Or.inl ⟨hx, fun hxr => hk (hxr ▸ rfl)⟩
    · exact Or.inr (by rw [eq_of_key hy h hk])
  · rintro (⟨hx, hne⟩ | rfl)
    · exact Or.inl ⟨hx, fun hk => hne (eq_of_key hx h hk)⟩
    · exact Or.inr ⟨r, h, rfl, rfl⟩

theorem modify_modify {t : Table key} {k : κ} {f g : ρ → ρ} {hf : ∀ r, key (f r) = key r}
    {hg : ∀ r, key (g r) = key r} : (t.modify k f hf).modify k g hg =
      t.modify k (fun r => g (f r)) (fun r => (hg (f r)).trans (hf r)) := by
  simp only [modify, List.map_map, mk.injEq]
  apply List.map_congr_left
  intro r _
  by_cases hk : key r = k
  · simp [hk, hf]
  · simp [hk]

theorem get_modify {t : Table key} {k j : κ} {f : ρ → ρ} {hf : ∀ r, key (f r) = key r} :
    (t.modify k f hf).get j = if j = k then (t.get j).map f else t.get j := by
  ext x
  rw [get_eq_some, mem_modify]
  split
  · next hj =>
    subst hj
    constructor
    · rintro ⟨⟨_, hk⟩ | ⟨r, hr, hk, rfl⟩, hx⟩
      · exact absurd hx hk
      · rw [← hk, get_of_mem hr]
        rfl
    · intro hx
      obtain ⟨r, hr, rfl⟩ := Option.map_eq_some_iff.mp hx
      exact ⟨Or.inr ⟨r, mem_of_get hr, key_of_get hr, rfl⟩, (hf r).trans (key_of_get hr)⟩
  · next hj =>
    constructor
    · rintro ⟨⟨hx, _⟩ | ⟨r, _, hk, rfl⟩, hj'⟩
      · exact get_eq_some.mpr ⟨hx, hj'⟩
      · exact absurd (hj'.symm.trans ((hf r).trans hk)) hj
    · intro hx
      obtain ⟨hm, rfl⟩ := get_eq_some.mp hx
      exact ⟨Or.inl ⟨hm, hj⟩, rfl⟩

theorem get_modify_self {t : Table key} {k : κ} {f : ρ → ρ} {r : ρ} (h : t.get k = some r)
    (hf : ∀ r, key (f r) = key r := by first | assumption | exact fun _ => rfl) :
    (t.modify k f hf).get k = some (f r) := by
  rw [get_modify, if_pos rfl, h, Option.map_some]

theorem get_modify_of_ne {t : Table key} {k j : κ} {f : ρ → ρ} (h : j ≠ k)
    (hf : ∀ r, key (f r) = key r := by first | assumption | exact fun _ => rfl) :
    (t.modify k f hf).get j = t.get j := by
  rw [get_modify, if_neg h]

theorem get_deleteWhere {t : Table key} {p : ρ → Bool} {k : κ} :
    (t.deleteWhere p).get k = (t.get k).filter (fun r => !p r) := by
  ext x
  rw [get_eq_some, mem_deleteWhere, Option.filter_eq_some_iff, get_eq_some]
  constructor
  · rintro ⟨⟨hm, hp⟩, hk⟩
    exact ⟨⟨hm, hk⟩, by simp [hp]⟩
  · rintro ⟨⟨hm, hk⟩, hp⟩
    exact ⟨⟨hm, by simpa using hp⟩, hk⟩

end Table

end RankLens
