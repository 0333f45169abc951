import RankLens.Interleaving
import RankLens.Table

namespace RankLens

/-- One relation of a database: where its table lives, the row-level lock of a
key, and its unique constraints. A constraint maps a row to the lock on the
unique value it holds, or to nothing when the row is exempt. -/
structure Ref (σ L : Type) {κ ρ : Type} (key : ρ → κ) where
  view : σ → Table key
  put : Table key → σ → σ
  view_put : ∀ t s, view (put t s) = t
  row : κ → L
  unique : List (ρ → Option L)

namespace Ref

variable {σ ω L ε κ ρ : Type} {key : ρ → κ}

/-- Two rows hold the same value under some unique constraint. -/
def clashes [DecidableEq L] (T : Ref σ L key) (r r' : ρ) : Bool :=
  T.unique.any (fun u => (u r).isSome && decide (u r = u r'))

def lockAll (ls : List L) : Txn σ ω L ε Unit := Txn.forEach ls Txn.lock

def select (T : Ref σ L key) (p : ρ → Bool) : Txn σ ω L ε (List ρ) :=
  Txn.read (fun s => (T.view s).select p)

variable [DecidableEq κ]

def get (T : Ref σ L key) (k : κ) : Txn σ ω L ε (Option ρ) :=
  Txn.read (fun s => (T.view s).get k)

/-- The key or a unique value of a new row is in use. -/
def taken [DecidableEq L] (T : Ref σ L key) (r : ρ) (s : σ) : Bool :=
  ((T.view s).get (key r)).isSome || (T.view s).rows.any (T.clashes r)

/-- A unique value of the changed row `k` is in use in another row. -/
def takenByOther [DecidableEq L] (T : Ref σ L key) (k : κ) (r : ρ) (s : σ) : Bool :=
  (T.view s).rows.any (fun x => !decide (key x = k) && T.clashes r x)

/-- INSERT waits for the transactions writing the same key or unique value. -/
def insert [DecidableEq L] (T : Ref σ L key) (conflict : ε) (r : ρ) : Txn σ ω L ε Unit := do
  Txn.lock (T.row (key r))
  lockAll (T.unique.filterMap (fun u => u r))
  let found ← Txn.read (T.taken r)
  Txn.raiseIf (found = true) conflict
  Txn.write (fun s => T.put ((T.view s).insert r) s)

/-- UPDATE of one row by its key. A row that has vanished raises. -/
def update (T : Ref σ L key) (stale : ε) (k : κ) (f : ρ → ρ)
    (hf : ∀ r, key (f r) = key r := by intro; exact Eq.trans rfl rfl) : Txn σ ω L ε Unit := do
  Txn.lock (T.row k)
  let row ← T.get k
  Txn.raiseIf (row.isNone = true) stale
  Txn.write (fun s => T.put ((T.view s).modify k f hf) s)

/-- UPDATE that can change a column under a unique constraint. -/
def updateUnique [DecidableEq L] (T : Ref σ L key) (stale conflict : ε) (k : κ) (f : ρ → ρ)
    (hf : ∀ r, key (f r) = key r := by intro; exact Eq.trans rfl rfl) : Txn σ ω L ε Unit := do
  Txn.lock (T.row k)
  let row ← T.get k
  match row with
  | none => Txn.raise stale
  | some row => do
    lockAll (T.unique.filterMap (fun u => u (f row)))
    let found ← Txn.read (T.takenByOther k (f row))
    Txn.raiseIf (found = true) conflict
    Txn.write (fun s => T.put ((T.view s).modify k f hf) s)

/-- DELETE finds its rows, waits for their locks, and removes those that still
match. The value is the row count. -/
def deleteWhere (T : Ref σ L key) (p : ρ → Bool) : Txn σ ω L ε Nat := do
  let keys ← Txn.read (fun s => ((T.view s).select p).map key)
  lockAll (keys.map T.row)
  let count ← Txn.read (fun s =>
    ((T.view s).select (fun r => decide (key r ∈ keys) && p r)).length)
  Txn.write (fun s => T.put ((T.view s).deleteWhere (fun r => decide (key r ∈ keys) && p r)) s)
  pure count

/-- The rows a `FOR UPDATE SKIP LOCKED` query with an order and a limit picks
when `skip` are the keys locked by others. -/
def batch (T : Ref σ L key) (p : ρ → Bool) (le : ρ → ρ → Bool) (limit : Nat) (skip : List κ)
    (s : σ) : List ρ :=
  (((T.view s).select (fun r => p r && !decide (key r ∈ skip))).insertionSort
    (fun a b => le a b = true)).take limit

def selectForUpdate (T : Ref σ L key) (p : ρ → Bool) (le : ρ → ρ → Bool) (limit : Nat)
    (skip : List κ) : Txn σ ω L ε (List ρ) := do
  let rows ← Txn.read (T.batch p le limit skip)
  lockAll (rows.map (fun r => T.row (key r)))
  Txn.read (fun s => rows.filterMap (fun r => ((T.view s).get (key r)).filter p))

theorem mem_batch {T : Ref σ L key} {p : ρ → Bool} {le : ρ → ρ → Bool} {limit : Nat}
    {skip : List κ} {s : σ} {r : ρ} (h : r ∈ T.batch p le limit skip s) :
    r ∈ T.view s ∧ p r = true ∧ key r ∉ skip := by
  have hm := List.mem_of_mem_take h
  rw [List.mem_insertionSort, Table.mem_select, Bool.and_eq_true] at hm
  exact ⟨hm.1, hm.2.1, by simpa using hm.2.2⟩

theorem batch_nodup {T : Ref σ L key} {p : ρ → Bool} {le : ρ → ρ → Bool} {limit : Nat}
    {skip : List κ} {s : σ} : ((T.batch p le limit skip s).map key).Nodup := by
  have hsel : (((T.view s).select (fun r => p r && !decide (key r ∈ skip))).map key).Nodup :=
    (T.view s).nodup.sublist (List.filter_sublist.map key)
  have hsort := ((List.perm_insertionSort (fun a b => le a b = true)
    ((T.view s).select (fun r => p r && !decide (key r ∈ skip)))).map key).nodup_iff.mpr hsel
  exact hsort.sublist ((List.take_sublist limit _).map key)

section taken

variable [DecidableEq L] {T : Ref σ L key} {r : ρ} {s : σ}

theorem taken_eq_false : T.taken r s = false ↔
    (T.view s).get (key r) = none ∧ ∀ x ∈ T.view s, T.clashes r x = false := by
  simp only [taken, Bool.or_eq_false_iff, Option.isSome_eq_false_iff, Option.isNone_iff_eq_none,
    List.any_eq_false, Bool.not_eq_true, Table.mem_rows]

theorem takenByOther_eq_false {k : κ} : T.takenByOther k r s = false ↔
    ∀ x ∈ T.view s, key x ≠ k → T.clashes r x = false := by
  simp only [takenByOther, List.any_eq_false, Bool.not_eq_true, Bool.and_eq_false_imp,
    Bool.not_eq_true', decide_eq_false_iff_not, Table.mem_rows]

end taken

/-- No two rows of the table hold the same value under a unique constraint. -/
def NoClash [DecidableEq L] (T : Ref σ L key) (t : Table key) : Prop :=
  ∀ x ∈ t, ∀ y ∈ t, T.clashes x y = true → x = y

section noClash

variable [DecidableEq L] {T : Ref σ L key} {t : Table key} {s : σ} {r : ρ}

omit [DecidableEq κ] in
theorem clashes_comm {r r' : ρ} : T.clashes r r' = T.clashes r' r := by
  unfold clashes
  congr 1
  funext u
  by_cases h : u r = u r'
  · simp [h]
  · have h' : ¬u r' = u r := fun he => h he.symm
    simp [h, h']

theorem noClash_insert (ht : T.NoClash (T.view s)) (hfree : T.taken r s = false) :
    T.NoClash ((T.view s).insert r) := by
  obtain ⟨hnew, hclash⟩ := taken_eq_false.mp hfree
  intro x hx y hy h
  rcases (Table.mem_insert hnew).mp hx with hx' | hx'
  · rcases (Table.mem_insert hnew).mp hy with hy' | hy'
    · exact ht x hx' y hy' h
    · rw [hy', clashes_comm, hclash x hx'] at h
      cases h
  · rcases (Table.mem_insert hnew).mp hy with hy' | hy'
    · rw [hx', hclash y hy'] at h
      cases h
    · rw [hx', hy']

theorem noClash_modify {f : ρ → ρ} {hf : ∀ r, key (f r) = key r} (hr : r ∈ t)
    (ht : T.NoClash t) (hfree : ∀ x ∈ t, x ≠ r → T.clashes (f r) x = false) :
    T.NoClash (t.modify (key r) f hf) := by
  intro x hx y hy h
  rcases (Table.mem_modify_of_mem hr).mp hx with ⟨hx', hxr⟩ | hx'
  · rcases (Table.mem_modify_of_mem hr).mp hy with ⟨hy', _⟩ | hy'
    · exact ht x hx' y hy' h
    · rw [hy', clashes_comm, hfree x hx' hxr] at h
      cases h
  · rcases (Table.mem_modify_of_mem hr).mp hy with ⟨hy', hyr⟩ | hy'
    · rw [hx', hfree y hy' hyr] at h
      cases h
    · rw [hx', hy']

theorem noClash_modify_other {f : ρ → ρ} {hf : ∀ r, key (f r) = key r} {k : κ}
    (hr : (T.view s).get k = some r) (ht : T.NoClash (T.view s))
    (hfree : T.takenByOther k (f r) s = false) : T.NoClash ((T.view s).modify k f hf) := by
  obtain rfl := Table.key_of_get hr
  refine noClash_modify (Table.mem_of_get hr) ht (fun x hx hne => ?_)
  exact takenByOther_eq_false.mp hfree x hx
    (fun hk => hne (Table.eq_of_key hx (Table.mem_of_get hr) hk))

theorem noClash_modify_same {f : ρ → ρ} {hf : ∀ r, key (f r) = key r} {k : κ}
    (hsame : ∀ u ∈ T.unique, ∀ r, u (f r) = u r) (ht : T.NoClash t) :
    T.NoClash (t.modify k f hf) := by
  have hclash : ∀ r x, T.clashes (f r) x = T.clashes r x := by
    intro r x
    have h : ∀ u ∈ T.unique, ((u (f r)).isSome && decide (u (f r) = u x)) =
        ((u r).isSome && decide (u r = u x)) := fun u hu => by rw [hsame u hu]
    unfold clashes
    rw [Bool.eq_iff_iff, List.any_eq_true, List.any_eq_true]
    exact exists_congr (fun u => and_congr_right (fun hu => by rw [h u hu]))
  cases hg : t.get k with
  | none =>
    have hsame' : ∀ x, x ∈ t.modify k f hf ↔ x ∈ t := by
      intro x
      rw [Table.mem_modify]
      have hne := Table.get_eq_none.mp hg
      exact ⟨fun h => h.elim And.left (fun ⟨r, hr, hk, _⟩ => absurd hk (hne r hr)),
        fun hx => Or.inl ⟨hx, hne x hx⟩⟩
    intro x hx y hy
    exact ht x ((hsame' x).mp hx) y ((hsame' y).mp hy)
  | some r =>
    obtain rfl := Table.key_of_get hg
    refine noClash_modify (Table.mem_of_get hg) ht (fun x hx hne => ?_)
    rw [hclash]
    by_contra hc
    exact hne (ht r (Table.mem_of_get hg) x hx (by simpa using hc)).symm

end noClash

section wp

variable [DecidableEq L] {T : Ref σ L key} {A : ω → Prop} {E : ε → Prop} {s : σ} {w : ω}

omit [DecidableEq κ] [DecidableEq L] in
@[simp] theorem wp_lockAll {ls : List L} {Q : Unit → σ → ω → Prop} :
    (lockAll ls : Txn σ ω L ε Unit).wp A E Q s w ↔ Q () s w := by
  unfold lockAll
  induction ls with
  | nil => exact Iff.rfl
  | cons l ls ih => rw [Txn.forEach, Txn.wp_bind, Txn.wp_lock]; exact ih

omit [DecidableEq L] in
@[simp] theorem wp_get {k : κ} {Q : Option ρ → σ → ω → Prop} :
    (T.get k : Txn σ ω L ε _).wp A E Q s w ↔ Q ((T.view s).get k) s w := Iff.rfl

omit [DecidableEq κ] [DecidableEq L] in
@[simp] theorem wp_select {p : ρ → Bool} {Q : List ρ → σ → ω → Prop} :
    (T.select p : Txn σ ω L ε _).wp A E Q s w ↔ Q ((T.view s).select p) s w := Iff.rfl

@[simp] theorem wp_insert {e : ε} {r : ρ} {Q : Unit → σ → ω → Prop} :
    (T.insert e r : Txn σ ω L ε Unit).wp A E Q s w ↔ (T.taken r s = true → E e) ∧
      (T.taken r s = false → Q () (T.put ((T.view s).insert r) s) w) := by
  simp only [insert, Txn.wp_bind, Txn.wp_lock, wp_lockAll, Txn.wp_read, Txn.wp_raiseIf,
    Txn.wp_write, Bool.not_eq_true]

omit [DecidableEq L] in
@[simp] theorem wp_update {e : ε} {k : κ} {f : ρ → ρ} {hf : ∀ r, key (f r) = key r}
    {Q : Unit → σ → ω → Prop} :
    (T.update e k f hf : Txn σ ω L ε Unit).wp A E Q s w ↔ ((T.view s).get k = none → E e) ∧
      (∀ r, (T.view s).get k = some r → Q () (T.put ((T.view s).modify k f hf) s) w) := by
  simp only [update, Txn.wp_bind, Txn.wp_lock, wp_get, Txn.wp_raiseIf, Txn.wp_write]
  cases (T.view s).get k <;> simp

@[simp] theorem wp_updateUnique {e e' : ε} {k : κ} {f : ρ → ρ} {hf : ∀ r, key (f r) = key r}
    {Q : Unit → σ → ω → Prop} :
    (T.updateUnique e e' k f hf : Txn σ ω L ε Unit).wp A E Q s w ↔
      ((T.view s).get k = none → E e) ∧ (∀ r, (T.view s).get k = some r →
        (T.takenByOther k (f r) s = true → E e') ∧ (T.takenByOther k (f r) s = false →
          Q () (T.put ((T.view s).modify k f hf) s) w)) := by
  simp only [updateUnique, Txn.wp_bind, Txn.wp_lock, wp_get]
  cases (T.view s).get k with
  | none => simp
  | some r =>
    simp only [Txn.wp_bind, wp_lockAll, Txn.wp_read, Txn.wp_raiseIf, Txn.wp_write,
      Bool.not_eq_true, reduceCtorEq, false_implies, true_and, Option.some.injEq, forall_eq']

omit [DecidableEq L] in
theorem deleteWhere_keys (t : Table key) (p : ρ → Bool) :
    t.deleteWhere (fun r => decide (key r ∈ (t.select p).map key) && p r) = t.deleteWhere p := by
  have h : t.rows.filter (fun r => !(decide (key r ∈ (t.select p).map key) && p r)) =
      t.rows.filter (fun r => !p r) := by
    apply List.filter_congr
    intro r hr
    cases hp : p r with
    | false => simp
    | true =>
      have hm : key r ∈ (t.select p).map key :=
        List.mem_map.mpr ⟨r, Table.mem_select.mpr ⟨hr, hp⟩, rfl⟩
      simp [hm]
  simp only [Table.deleteWhere, h]

omit [DecidableEq L] in
@[simp] theorem wp_deleteWhere {p : ρ → Bool} {Q : Nat → σ → ω → Prop} :
    (T.deleteWhere p : Txn σ ω L ε Nat).wp A E Q s w ↔
      Q ((T.view s).select p).length (T.put ((T.view s).deleteWhere p) s) w := by
  have hs : (T.view s).select (fun r => decide (key r ∈ ((T.view s).select p).map key) && p r) =
      (T.view s).select p := by
    apply List.filter_congr
    intro r hr
    cases hp : p r with
    | false => simp
    | true =>
      have hm : key r ∈ ((T.view s).select p).map key :=
        List.mem_map.mpr ⟨r, Table.mem_select.mpr ⟨hr, hp⟩, rfl⟩
      simp [hm]
  simp only [deleteWhere, Txn.wp_bind, Txn.wp_read, wp_lockAll, Txn.wp_write, Txn.wp_pure,
    deleteWhere_keys, hs]

omit [DecidableEq L] in
@[simp] theorem wp_selectForUpdate {p : ρ → Bool} {le : ρ → ρ → Bool} {limit : Nat}
    {skip : List κ} {Q : List ρ → σ → ω → Prop} :
    (T.selectForUpdate p le limit skip : Txn σ ω L ε _).wp A E Q s w ↔
      Q (T.batch p le limit skip s) s w := by
  have h : (T.batch p le limit skip s).filterMap
      (fun r => ((T.view s).get (key r)).filter p) = T.batch p le limit skip s := by
    rw [List.filterMap_congr (g := some), List.filterMap_some]
    intro r hr
    obtain ⟨hm, hp, _⟩ := mem_batch hr
    rw [Table.get_of_mem hm, Option.filter_some, if_pos hp]
  simp only [selectForUpdate, Txn.wp_bind, Txn.wp_read, wp_lockAll, h]

omit [DecidableEq κ] [DecidableEq L] in
/-- A loop over rows of a table, each of which is still there when its turn comes. -/
theorem wp_forEach_rows {R : ρ → σ → σ → Prop} {rows : List ρ}
    {body : ρ → Txn σ ω L ε Unit} (hnodup : (rows.map key).Nodup)
    (hmem : ∀ r ∈ rows, r ∈ T.view s)
    (hR : ∀ r s s', R r s s' → ∀ x ∈ T.view s, key x ≠ key r → x ∈ T.view s')
    (h : ∀ r ∈ rows, ∀ s, r ∈ T.view s →
      (body r).wp A E (fun _ s' w' => R r s s' ∧ w' = w) s w) :
    (Txn.forEach rows body).wp A E
      (fun _ s' w' => Txn.Chain (fun r s s' => r ∈ T.view s ∧ R r s s') rows s s' ∧ w' = w) s w := by
  induction rows generalizing s with
  | nil => exact ⟨.nil, rfl⟩
  | cons r rows ih =>
    rw [List.forall_mem_cons] at h hmem
    rw [List.map_cons, List.nodup_cons] at hnodup
    rw [Txn.forEach, Txn.wp_bind]
    refine Txn.wp_post (h.1 s hmem.1) ?_
    rintro _ s' _ ⟨hr, rfl⟩
    have hkeep : ∀ x ∈ rows, x ∈ T.view s' := fun x hx =>
      hR r s s' hr x (hmem.2 x hx) (fun hk => hnodup.1 (hk ▸ List.mem_map_of_mem hx))
    exact Txn.wp_post (ih hnodup.2 hkeep h.2) (fun _ _ _ hs => ⟨.cons ⟨hmem.1, hr⟩ hs.1, hs.2⟩)

end wp

section changes

variable [DecidableEq L] {T : Ref σ L key} {R : σ → σ → Prop}

omit [DecidableEq κ] [DecidableEq L] in
@[simp] theorem changes_lockAll {ls : List L} {Q : Unit → Prop} :
    (lockAll ls : Txn σ ω L ε Unit).changes R Q ↔ Q () := by
  unfold lockAll
  induction ls with
  | nil => exact Iff.rfl
  | cons l ls ih => rw [Txn.forEach, Txn.changes_bind, Txn.changes_lock, ih]

omit [DecidableEq L] in
@[simp] theorem changes_get {k : κ} {Q : Option ρ → Prop} :
    (T.get k : Txn σ ω L ε _).changes R Q ↔ ∀ s, Q ((T.view s).get k) := Iff.rfl

omit [DecidableEq κ] [DecidableEq L] in
@[simp] theorem changes_select {p : ρ → Bool} {Q : List ρ → Prop} :
    (T.select p : Txn σ ω L ε _).changes R Q ↔ ∀ s, Q ((T.view s).select p) := Iff.rfl

@[simp] theorem changes_insert {e : ε} {r : ρ} {Q : Unit → Prop} :
    (T.insert e r : Txn σ ω L ε Unit).changes R Q ↔ ∀ s, T.taken r s = false →
      (∀ s, R s (T.put ((T.view s).insert r) s)) ∧ Q () := by
  simp only [insert, Txn.changes_bind, Txn.changes_lock, changes_lockAll, Txn.changes_read,
    Txn.changes_raiseIf, Txn.changes_write, Bool.not_eq_true]

omit [DecidableEq L] in
@[simp] theorem changes_update {e : ε} {k : κ} {f : ρ → ρ} {hf : ∀ r, key (f r) = key r}
    {Q : Unit → Prop} :
    (T.update e k f hf : Txn σ ω L ε Unit).changes R Q ↔ ∀ s, ((T.view s).get k).isSome = true →
      (∀ s, R s (T.put ((T.view s).modify k f hf) s)) ∧ Q () := by
  simp only [update, Txn.changes_bind, Txn.changes_lock, changes_get, Txn.changes_raiseIf,
    Txn.changes_write, Option.isNone_iff_eq_none, ← Option.ne_none_iff_isSome, ne_eq]

@[simp] theorem changes_updateUnique {e e' : ε} {k : κ} {f : ρ → ρ}
    {hf : ∀ r, key (f r) = key r} {Q : Unit → Prop} :
    (T.updateUnique e e' k f hf : Txn σ ω L ε Unit).changes R Q ↔ ∀ s r, (T.view s).get k = some r →
      ∀ s, T.takenByOther k (f r) s = false →
        (∀ s, R s (T.put ((T.view s).modify k f hf) s)) ∧ Q () := by
  simp only [updateUnique, Txn.changes_bind, Txn.changes_lock, changes_get]
  refine forall_congr' (fun s => ?_)
  cases (T.view s).get k with
  | none => simp
  | some r =>
    simp only [Txn.changes_bind, changes_lockAll, Txn.changes_read, Txn.changes_raiseIf,
      Txn.changes_write, Bool.not_eq_true, Option.some.injEq, forall_eq']

omit [DecidableEq L] in
@[simp] theorem changes_deleteWhere {p : ρ → Bool} {Q : Nat → Prop} :
    (T.deleteWhere p : Txn σ ω L ε Nat).changes R Q ↔ ∀ s s', (∀ s'', R s''
      (T.put ((T.view s'').deleteWhere
        (fun r => decide (key r ∈ ((T.view s).select p).map key) && p r)) s'')) ∧
      Q ((T.view s').select
        (fun r => decide (key r ∈ ((T.view s).select p).map key) && p r)).length := by
  simp only [deleteWhere, Txn.changes_bind, Txn.changes_read, changes_lockAll, Txn.changes_write,
    Txn.changes_pure]

omit [DecidableEq L] in
@[simp] theorem changes_selectForUpdate {p : ρ → Bool} {le : ρ → ρ → Bool} {limit : Nat}
    {skip : List κ} {Q : List ρ → Prop} :
    (T.selectForUpdate p le limit skip : Txn σ ω L ε _).changes R Q ↔ ∀ s s',
      Q ((T.batch p le limit skip s).filterMap (fun r => ((T.view s').get (key r)).filter p)) := by
  simp only [selectForUpdate, Txn.changes_bind, Txn.changes_read, changes_lockAll]

end changes

section rwp

open Interleaving

variable [DecidableEq L] {τ α : Type} {G : τ → α → Set L → σ → σ → Prop} {T : Ref σ L key} {H : Set L} {s : σ}
  {p : σ → σ}

omit [DecidableEq κ] [DecidableEq L] in
theorem rwp_lockAll {ls : List L} {Q : Unit → Set L → σ → (σ → σ) → Prop}
    (h : ∀ s', Rely G H s s' → Q () (H ∪ {l | l ∈ ls}) s' p) :
    (lockAll ls : Txn σ ω L ε Unit).rwp (Rely G) Q H s p := by
  unfold lockAll
  induction ls generalizing H s with
  | nil =>
    have hH : H ∪ {l | l ∈ ([] : List L)} = H := by simp
    exact hH ▸ h s (Rely.refl s)
  | cons l ls ih =>
    rw [Txn.forEach, Txn.rwp_bind, Txn.rwp_lock]
    intro s' hs
    refine ih (fun s'' hs' => ?_)
    have hH : Insert.insert l H ∪ {l' | l' ∈ ls} = H ∪ {l' | l' ∈ l :: ls} := by
      ext x
      simp [or_assoc, or_left_comm]
    rw [hH]
    exact h s'' (hs.trans (hs'.anti (Set.subset_insert l H)))

omit [DecidableEq L] in
@[simp] theorem rwp_get {k : κ} {Q : Option ρ → Set L → σ → (σ → σ) → Prop} :
    (T.get k : Txn σ ω L ε _).rwp (Rely G) Q H s p ↔
      ∀ s', Rely G H s s' → Q ((T.view (p s')).get k) H s' p := Iff.rfl

omit [DecidableEq κ] [DecidableEq L] in
@[simp] theorem rwp_select {q : ρ → Bool} {Q : List ρ → Set L → σ → (σ → σ) → Prop} :
    (T.select q : Txn σ ω L ε _).rwp (Rely G) Q H s p ↔
      ∀ s', Rely G H s s' → Q ((T.view (p s')).select q) H s' p := Iff.rfl

theorem rwp_insert {e : ε} {r : ρ} {Q : Unit → Set L → σ → (σ → σ) → Prop}
    (h : ∀ H' s', H ⊆ H' → T.row (key r) ∈ H' → Rely G H s s' →
      T.taken r (p s') = false → Q () H' s' (fun s => T.put ((T.view (p s)).insert r) (p s))) :
    (T.insert e r : Txn σ ω L ε Unit).rwp (Rely G) Q H s p := by
  simp only [insert, Txn.rwp_bind, Txn.rwp_lock]
  intro s₁ h₁
  refine rwp_lockAll (fun s₂ h₂ => ?_)
  simp only [Txn.rwp_read, Txn.rwp_raiseIf, Txn.rwp_write]
  intro s₃ h₃ hc
  have hsub : H ⊆ Insert.insert (T.row (key r)) H ∪ {l | l ∈ T.unique.filterMap (fun u => u r)} :=
    fun l hl => Or.inl (Or.inr hl)
  exact h _ s₃ hsub (Or.inl (Or.inl rfl))
    ((h₁.trans (h₂.anti (Set.subset_insert _ _))).trans (h₃.anti hsub)) (by simpa using hc)

omit [DecidableEq L] in
theorem rwp_update {e : ε} {k : κ} {f : ρ → ρ} {hf : ∀ r, key (f r) = key r}
    {Q : Unit → Set L → σ → (σ → σ) → Prop}
    (h : ∀ s' r, Rely G H s s' → (T.view (p s')).get k = some r →
      Q () (Insert.insert (T.row k) H) s' (fun s => T.put ((T.view (p s)).modify k f hf) (p s))) :
    (T.update e k f hf : Txn σ ω L ε Unit).rwp (Rely G) Q H s p := by
  simp only [update, Txn.rwp_bind, Txn.rwp_lock, rwp_get, Txn.rwp_raiseIf, Txn.rwp_write]
  intro s₁ h₁ s₂ h₂ hn
  obtain ⟨r, hr⟩ := Option.ne_none_iff_exists'.mp
    (fun hnone => hn (by rw [hnone]; rfl) : (T.view (p s₂)).get k ≠ none)
  exact h s₂ r (h₁.trans (h₂.anti (Set.subset_insert _ _))) hr

theorem rwp_updateUnique {e e' : ε} {k : κ} {f : ρ → ρ} {hf : ∀ r, key (f r) = key r}
    {Q : Unit → Set L → σ → (σ → σ) → Prop}
    (h : ∀ H' s', H ⊆ H' → T.row k ∈ H' → Rely G H s s' →
      Q () H' s' (fun s => T.put ((T.view (p s)).modify k f hf) (p s))) :
    (T.updateUnique e e' k f hf : Txn σ ω L ε Unit).rwp (Rely G) Q H s p := by
  simp only [updateUnique, Txn.rwp_bind, Txn.rwp_lock, rwp_get]
  intro s₁ h₁ s₂ h₂
  cases (T.view (p s₂)).get k with
  | none => trivial
  | some r =>
    simp only [Txn.rwp_bind]
    refine rwp_lockAll (fun s₃ h₃ => ?_)
    simp only [Txn.rwp_read, Txn.rwp_raiseIf, Txn.rwp_write]
    intro s₄ h₄ _
    have hsub : H ⊆ Insert.insert (T.row k) H ∪ {l | l ∈ T.unique.filterMap (fun u => u (f r))} :=
      fun l hl => Or.inl (Or.inr hl)
    have hs := Set.subset_insert (T.row k) H
    exact h _ s₄ hsub (Or.inl (Or.inl rfl))
      (((h₁.trans (h₂.anti hs)).trans (h₃.anti hs)).trans (h₄.anti hsub))

end rwp

end Ref

end RankLens
