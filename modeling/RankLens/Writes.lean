import RankLens.Deployment

namespace RankLens

namespace Txn

variable {σ ω L ε α β : Type}

/-- Every write of the transaction is in `R`, whatever it does to the external store, and
`Q` holds of what it returns. -/
def writes (R : σ → σ → Prop) : Txn σ ω L ε α → (α → Prop) → Prop
  | .done a, Q => Q a
  | .fail _, _ => True
  | .acquire _ t, Q => writes R t Q
  | .query k, Q => ∀ s, writes R (k s) Q
  | .change f t, Q => (∀ s, R s (f s)) ∧ writes R t Q
  | .effect _ k, Q => ∀ w, writes R (k w) Q

section rules

variable {R : σ → σ → Prop} {Q : α → Prop}

theorem writes_mono {t : Txn σ ω L ε α} {R' : σ → σ → Prop} {Q' : α → Prop}
    (hR : ∀ s s', R s s' → R' s s') (hQ : ∀ a, Q a → Q' a) (h : t.writes R Q) :
    t.writes R' Q' := by
  induction t with
  | done a => exact hQ a h
  | fail e => trivial
  | acquire l t ih => exact ih h
  | query k ih => exact fun s => ih s (h s)
  | change f t ih => exact ⟨fun s => hR s (f s) (h.1 s), ih h.2⟩
  | effect f k ih => exact fun w => ih w (h w)

theorem writes_of_changes {t : Txn σ ω L ε α} (h : t.changes R Q) : t.writes R Q := by
  induction t with
  | done a => exact h
  | fail e => trivial
  | acquire l t ih => exact ih h
  | query k ih => exact fun s => ih s (h s)
  | change f t ih => exact ⟨h.1, ih h.2⟩
  | effect f k ih => exact fun w => ih w (h w).2

@[simp] theorem writes_bind {t : Txn σ ω L ε β} {g : β → Txn σ ω L ε α} :
    (t >>= g).writes R Q ↔ t.writes R (fun b => (g b).writes R Q) := by
  show (bind t g).writes R Q ↔ _
  induction t with
  | done b => exact Iff.rfl
  | fail e => exact Iff.rfl
  | acquire l t ih => exact ih
  | query k ih => exact forall_congr' fun s => ih s
  | change f t ih => exact and_congr_right fun _ => ih
  | effect f k ih => exact forall_congr' fun w => ih w

@[simp] theorem writes_pure {a : α} : (pure a : Txn σ ω L ε α).writes R Q ↔ Q a := Iff.rfl

@[simp] theorem writes_map {t : Txn σ ω L ε β} {g : β → α} :
    (g <$> t).writes R Q ↔ t.writes R (fun b => Q (g b)) := writes_bind

@[simp] theorem writes_raise {e : ε} : (raise e : Txn σ ω L ε α).writes R Q ↔ True := Iff.rfl

@[simp] theorem writes_raiseIf {c : Prop} [Decidable c] {e : ε} {Q : Unit → Prop} :
    (raiseIf c e : Txn σ ω L ε Unit).writes R Q ↔ (¬c → Q ()) := by
  unfold raiseIf
  split
  · next hc => exact ⟨fun _ h => absurd hc h, fun _ => trivial⟩
  · next hc => exact ⟨fun h _ => h, fun h => h hc⟩

@[simp] theorem writes_lock {l : L} {Q : Unit → Prop} :
    (lock l : Txn σ ω L ε Unit).writes R Q ↔ Q () := Iff.rfl

@[simp] theorem writes_read {f : σ → α} :
    (read f : Txn σ ω L ε α).writes R Q ↔ ∀ s, Q (f s) := Iff.rfl

@[simp] theorem writes_write {f : σ → σ} {Q : Unit → Prop} :
    (write f : Txn σ ω L ε Unit).writes R Q ↔ (∀ s, R s (f s)) ∧ Q () := Iff.rfl

@[simp] theorem writes_perform {op : ω → α × ω} :
    (perform op : Txn σ ω L ε α).writes R Q ↔ ∀ w, Q (op w).1 := Iff.rfl

@[simp] theorem writes_ite {c : Prop} [Decidable c] {t u : Txn σ ω L ε α} :
    (if c then t else u).writes R Q ↔ (c → t.writes R Q) ∧ (¬c → u.writes R Q) := by
  split <;> simp_all

theorem writes_forEach {xs : List β} {body : β → Txn σ ω L ε Unit} {Q : Unit → Prop}
    (h : ∀ x ∈ xs, (body x).writes R (fun _ => True)) (hQ : Q ()) :
    (forEach xs body).writes R Q := by
  induction xs with
  | nil => exact hQ
  | cons x xs ih =>
    rw [forEach, writes_bind]
    refine writes_mono (fun _ _ h => h) (fun _ _ => ?_) (h x List.mem_cons_self)
    exact ih (fun y hy => h y (List.mem_cons_of_mem x hy))

/-- What the locks, the commits of the others and every write keep true, holds at the end. -/
theorem rwp_of_writes {J : Set L → σ → (σ → σ) → Prop} {rely : Set L → σ → σ → Prop}
    (hrely : ∀ H s s' p, rely H s s' → J H s p → J H s' p)
    (hlock : ∀ l H s p, J H s p → J (insert l H) s p)
    (hwrite : ∀ H s p f, (∀ s, R s (f s)) → J H s p → J H s (f ∘ p))
    {t : Txn σ ω L ε α} (h : t.writes R Q) {H : Set L} {s : σ} {p : σ → σ} (hJ : J H s p) :
    t.rwp rely (fun a H s p => J H s p ∧ Q a) H s p := by
  induction t generalizing H s p with
  | done a => exact ⟨hJ, h⟩
  | fail e => trivial
  | acquire l t ih => exact fun s' hs => ih h (hlock l H s' p (hrely H s s' p hs hJ))
  | query k ih => exact fun s' hs => ih _ (h _) (hrely H s s' p hs hJ)
  | change f t ih => exact ih h.2 (hwrite H s p f h.1 hJ)
  | effect f k ih => exact fun w => ih w (h w) hJ

end rules

end Txn

namespace Ref

variable {σ ω L ε κ ρ : Type} {key : ρ → κ} [DecidableEq κ] [DecidableEq L] {T : Ref σ L key}
  {R : σ → σ → Prop}

omit [DecidableEq κ] [DecidableEq L] in
@[simp] theorem writes_lockAll {ls : List L} {Q : Unit → Prop} :
    (lockAll ls : Txn σ ω L ε Unit).writes R Q ↔ Q () := by
  unfold lockAll
  induction ls with
  | nil => exact Iff.rfl
  | cons l ls ih => rw [Txn.forEach, Txn.writes_bind, Txn.writes_lock, ih]

omit [DecidableEq L] in
@[simp] theorem writes_get {k : κ} {Q : Option ρ → Prop} :
    (T.get k : Txn σ ω L ε _).writes R Q ↔ ∀ s, Q ((T.view s).get k) := Iff.rfl

omit [DecidableEq κ] [DecidableEq L] in
@[simp] theorem writes_select {p : ρ → Bool} {Q : List ρ → Prop} :
    (T.select p : Txn σ ω L ε _).writes R Q ↔ ∀ s, Q ((T.view s).select p) := Iff.rfl

theorem writes_insert {e : ε} {r : ρ} {Q : Unit → Prop}
    (h : ∀ s, R s (T.put ((T.view s).insert r) s)) (hQ : Q ()) :
    (T.insert e r : Txn σ ω L ε Unit).writes R Q := by
  simp only [insert, Txn.writes_bind, Txn.writes_lock, writes_lockAll, Txn.writes_read,
    Txn.writes_raiseIf, Txn.writes_write]
  exact fun _ _ => ⟨h, hQ⟩

omit [DecidableEq L] in
theorem writes_update {e : ε} {k : κ} {f : ρ → ρ} {hf : ∀ r, key (f r) = key r} {Q : Unit → Prop}
    (h : ∀ s, R s (T.put ((T.view s).modify k f hf) s)) (hQ : Q ()) :
    (T.update e k f hf : Txn σ ω L ε Unit).writes R Q := by
  simp only [update, Txn.writes_bind, Txn.writes_lock, writes_get, Txn.writes_raiseIf,
    Txn.writes_write]
  exact fun _ _ => ⟨h, hQ⟩

theorem writes_updateUnique {e e' : ε} {k : κ} {f : ρ → ρ} {hf : ∀ r, key (f r) = key r}
    {Q : Unit → Prop} (h : ∀ s, R s (T.put ((T.view s).modify k f hf) s)) (hQ : Q ()) :
    (T.updateUnique e e' k f hf : Txn σ ω L ε Unit).writes R Q := by
  simp only [updateUnique, Txn.writes_bind, Txn.writes_lock, writes_get]
  intro s
  cases (T.view s).get k with
  | none => trivial
  | some r =>
    simp only [Txn.writes_bind, writes_lockAll, Txn.writes_read, Txn.writes_raiseIf,
      Txn.writes_write]
    exact fun _ _ => ⟨h, hQ⟩

omit [DecidableEq L] in
theorem writes_deleteWhere {q : ρ → Bool} {Q : Nat → Prop}
    (h : ∀ s (q' : ρ → Bool), R s (T.put ((T.view s).deleteWhere q') s)) (hQ : ∀ n, Q n) :
    (T.deleteWhere q : Txn σ ω L ε Nat).writes R Q := by
  simp only [deleteWhere, Txn.writes_bind, Txn.writes_read, writes_lockAll]
  exact fun _ _ => ⟨fun s => h s _, hQ _⟩

omit [DecidableEq L] in
theorem writes_selectForUpdate {q : ρ → Bool} {le : ρ → ρ → Bool} {limit : Nat} {skip : List κ}
    {Q : List ρ → Prop} (hQ : ∀ rows, Q rows) :
    (T.selectForUpdate q le limit skip : Txn σ ω L ε _).writes R Q := by
  simp only [selectForUpdate, Txn.writes_bind, Txn.writes_read, writes_lockAll]
  exact fun _ _ => hQ _

end Ref

section store

variable {R : Catalog → Catalog → Prop}

@[simp] theorem writes_orRaise {α : Type} {r : Except Failure α} {Q : α → Prop} :
    (orRaise r).writes R Q ↔ ∀ a, r = .ok a → Q a := by
  cases r with
  | ok a =>
    constructor
    · intro h b hb
      cases hb
      exact h
    · intro h
      exact h a rfl
  | error e =>
    constructor
    · intro _ b hb
      cases hb
    · intro _
      trivial

theorem writes_uuid4 {id : Uuid} {Q : Uuid → Prop}
    (h : ∀ s : Catalog, R s { s with issued := id :: s.issued }) (hQ : Q id) :
    (uuid4 id).writes R Q := by
  simp only [uuid4, Txn.writes_bind, Txn.writes_lock, Txn.writes_read, Txn.writes_raiseIf,
    Txn.writes_write, Txn.writes_pure]
  exact fun _ _ => ⟨h, hQ⟩

theorem fence_writes {k : AttemptKey} {o : Option AttemptGeneration} {now : Instant}
    (hR : ∀ (c : Catalog) generations, R c { c with generations := generations }) :
    (IngestionService.fence k o now).writes R (fun _ => True) := by
  unfold IngestionService.fence
  split
  · rw [Txn.writes_bind]
    exact Ref.writes_insert (fun c => hR c _) trivial
  · split
    · rw [Txn.writes_bind]
      exact Ref.writes_update (fun c => hR c _) trivial
    · trivial

theorem requestDeletion_writes {k : AttemptKey} {g : Nat} {requestedAt : Instant}
    (hinsert : ∀ (c : Catalog) row, row.attempt = k →
      R c { c with deletions := c.deletions.insert row })
    (hmodify : ∀ (c : Catalog) f hf, R c { c with deletions := c.deletions.modify k f hf }) :
    (IngestionService.requestDeletion k g requestedAt).writes R (fun _ => True) := by
  simp only [IngestionService.requestDeletion, Txn.writes_bind, Ref.writes_get]
  intro c
  split
  · exact Ref.writes_insert (fun c => hinsert c _ rfl) trivial
  · rw [Txn.writes_ite]
    exact ⟨fun _ => trivial, fun _ => Ref.writes_update (fun c => hmodify c _ _) trivial⟩

theorem blockDeletion_writes {k : AttemptKey} {g : Nat} {now : Instant}
    (hinsert : ∀ (c : Catalog) row, row.attempt = k →
      R c { c with deletions := c.deletions.insert row })
    (hmodify : ∀ (c : Catalog) f hf, R c { c with deletions := c.deletions.modify k f hf }) :
    (IngestionService.blockDeletion k g now).writes R (fun _ => True) := by
  simp only [IngestionService.blockDeletion, Txn.writes_bind, Ref.writes_get]
  intro c
  split
  · exact Ref.writes_insert (fun c => hinsert c _ rfl) trivial
  · rw [Txn.writes_ite]
    exact ⟨fun _ => trivial, fun _ => Ref.writes_update (fun c => hmodify c _ _) trivial⟩

end store

end RankLens
