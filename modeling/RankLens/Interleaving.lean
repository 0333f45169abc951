import RankLens.Transaction

namespace RankLens

namespace Txn

variable {σ ω L ε α β : Type}

/-- Weakest precondition when other transactions commit between two statements.
`rely H` bounds what they can do to the database while the locks `H` are held,
`p` is the effect of the changes not committed yet. Every statement reads the
latest committed rows, with its own changes on top. -/
def rwp (rely : Set L → σ → σ → Prop) :
    Txn σ ω L ε α → (α → Set L → σ → (σ → σ) → Prop) → Set L → σ → (σ → σ) → Prop
  | .done a, Q, H, s, p => Q a H s p
  | .fail _, _, _, _, _ => True
  | .acquire l t, Q, H, s, p => ∀ s', rely H s s' → rwp rely t Q (insert l H) s' p
  | .query k, Q, H, s, p => ∀ s', rely H s s' → rwp rely (k (p s')) Q H s' p
  | .change f t, Q, H, s, p => rwp rely t Q H s (f ∘ p)
  | .effect _ k, Q, H, s, p => ∀ w, rwp rely (k w) Q H s p

section rules

variable {rely : Set L → σ → σ → Prop} {Q : α → Set L → σ → (σ → σ) → Prop}
  {H : Set L} {s : σ} {p : σ → σ}

theorem rwp_mono {t : Txn σ ω L ε α} {Q' : α → Set L → σ → (σ → σ) → Prop}
    (h : t.rwp rely Q H s p) (hQ : ∀ a H s p, Q a H s p → Q' a H s p) : t.rwp rely Q' H s p := by
  induction t generalizing H s p with
  | done a => exact hQ a H s p h
  | fail e => trivial
  | acquire l t ih => exact fun s' hs => ih (h s' hs)
  | query k ih => exact fun s' hs => ih _ (h s' hs)
  | change f t ih => exact ih (p := f ∘ p) h
  | effect f k ih => exact fun w => ih w (h w)

@[simp] theorem rwp_bind {t : Txn σ ω L ε β} {g : β → Txn σ ω L ε α} :
    (t >>= g).rwp rely Q H s p ↔ t.rwp rely (fun b H s p => (g b).rwp rely Q H s p) H s p := by
  show (bind t g).rwp rely Q H s p ↔ _
  induction t generalizing H s p with
  | done b => exact Iff.rfl
  | fail e => exact Iff.rfl
  | acquire l t ih => exact forall_congr' fun s' => forall_congr' fun _ => ih
  | query k ih => exact forall_congr' fun s' => forall_congr' fun _ => ih _
  | change f t ih => exact ih (p := f ∘ p)
  | effect f k ih => exact forall_congr' fun w => ih w

@[simp] theorem rwp_pure {a : α} :
    (pure a : Txn σ ω L ε α).rwp rely Q H s p ↔ Q a H s p := Iff.rfl

@[simp] theorem rwp_map {t : Txn σ ω L ε β} {g : β → α} :
    (g <$> t).rwp rely Q H s p ↔ t.rwp rely (fun b H s p => Q (g b) H s p) H s p := rwp_bind

@[simp] theorem rwp_raise {e : ε} :
    (raise e : Txn σ ω L ε α).rwp rely Q H s p ↔ True := Iff.rfl

@[simp] theorem rwp_raiseIf {c : Prop} [Decidable c] {e : ε}
    {Q : Unit → Set L → σ → (σ → σ) → Prop} :
    (raiseIf c e : Txn σ ω L ε Unit).rwp rely Q H s p ↔ (¬c → Q () H s p) := by
  unfold raiseIf
  split
  · next hc => exact ⟨fun _ h => absurd hc h, fun _ => trivial⟩
  · next hc => exact ⟨fun h _ => h, fun h => h hc⟩

@[simp] theorem rwp_lock {l : L} {Q : Unit → Set L → σ → (σ → σ) → Prop} :
    (lock l : Txn σ ω L ε Unit).rwp rely Q H s p ↔
      ∀ s', rely H s s' → Q () (insert l H) s' p := Iff.rfl

@[simp] theorem rwp_read {f : σ → α} :
    (read f : Txn σ ω L ε α).rwp rely Q H s p ↔
      ∀ s', rely H s s' → Q (f (p s')) H s' p := Iff.rfl

@[simp] theorem rwp_write {f : σ → σ} {Q : Unit → Set L → σ → (σ → σ) → Prop} :
    (write f : Txn σ ω L ε Unit).rwp rely Q H s p ↔ Q () H s (f ∘ p) := Iff.rfl

@[simp] theorem rwp_perform {op : ω → α × ω} :
    (perform op : Txn σ ω L ε α).rwp rely Q H s p ↔ ∀ w, Q (op w).1 H s p := Iff.rfl

@[simp] theorem rwp_ite {c : Prop} [Decidable c] {t u : Txn σ ω L ε α} :
    (if c then t else u).rwp rely Q H s p ↔
      (c → t.rwp rely Q H s p) ∧ (¬c → u.rwp rely Q H s p) := by
  split <;> simp_all

/-- Loop rule of `wp_forEach` for interleaved transactions. -/
theorem rwp_forEach {xs : List β} {body : β → Txn σ ω L ε Unit}
    (I : List β → Set L → σ → (σ → σ) → Prop) (h0 : I [] H s p)
    (hstep : ∀ pre x post H s p, xs = pre ++ x :: post → I pre H s p →
      (body x).rwp rely (fun _ H s p => I (pre ++ [x]) H s p) H s p) :
    (forEach xs body).rwp rely (fun _ H s p => I xs H s p) H s p := by
  suffices key : ∀ rest pre H s p, xs = pre ++ rest → I pre H s p →
      (forEach rest body).rwp rely (fun _ H s p => I xs H s p) H s p from key xs [] H s p rfl h0
  intro rest
  induction rest with
  | nil =>
    intro pre H s p hx hI
    rw [List.append_nil] at hx
    subst hx
    exact hI
  | cons x rest ih =>
    intro pre H s p hx hI
    rw [forEach, rwp_bind]
    refine rwp_mono (hstep pre x rest H s p hx hI) ?_
    intro _ H' s' p' hI'
    exact ih (pre ++ [x]) H' s' p' (by rw [hx, List.append_assoc, List.singleton_append]) hI'

theorem rwp_stable {t : Txn σ ω L ε α} (htrans : ∀ H s s' s'', rely H s s' → rely H s' s'' → rely H s s'')
    (hQ : ∀ a H s s' p, rely H s s' → Q a H s p → Q a H s' p) {s' : σ} (hs : rely H s s')
    (h : t.rwp rely Q H s p) : t.rwp rely Q H s' p := by
  induction t generalizing H s s' p with
  | done a => exact hQ a H s s' p hs h
  | fail e => trivial
  | acquire l t ih => exact fun s'' hs' => h s'' (htrans H s s' s'' hs hs')
  | query k ih => exact fun s'' hs' => h s'' (htrans H s s' s'' hs hs')
  | change f t ih => exact ih (p := f ∘ p) hs h
  | effect f k ih => exact fun w => ih w hs (h w)

end rules

end Txn

namespace Interleaving

variable {σ ω L ε τ α μ : Type}

/-- How a transaction ends: it commits, it raises and rolls back, or it dies. -/
inductive Ending (ε α : Type) where
  | committed (a : α)
  | raised (e : ε)
  | died

/-- The calls that can be made, and what the processes making them remember. -/
structure Workload (σ ω L ε τ α μ : Type) where
  program : μ → τ → Option (Txn σ ω L ε α)
  finish : τ → Ending ε α → μ → μ

structure Session (σ ω L ε τ α : Type) where
  call : τ
  rest : Txn σ ω L ε α
  held : Set L
  pending : σ → σ

structure Config (σ ω L ε τ α μ : Type) where
  db : σ
  external : ω
  memory : μ
  sessions : List (Session σ ω L ε τ α)

/-- One step of one session. A lock is granted when no other session holds it
and is kept until the session ends. Only a commit carries a label. -/
inductive Step (W : Workload σ ω L ε τ α μ) :
    Config σ ω L ε τ α μ → Option (τ × α) → Config σ ω L ε τ α μ → Prop where
  | start {c : Config σ ω L ε τ α μ} {call : τ} {t : Txn σ ω L ε α}
      (h : W.program c.memory call = some t) :
      Step W c none { c with sessions := ⟨call, t, ∅, id⟩ :: c.sessions }
  | acquire {db : σ} {w : ω} {m : μ} {pre post : List (Session σ ω L ε τ α)} {call : τ} {l : L}
      {t : Txn σ ω L ε α} {H : Set L} {p : σ → σ} (h : ∀ x ∈ pre ++ post, l ∉ x.held) :
      Step W ⟨db, w, m, pre ++ ⟨call, .acquire l t, H, p⟩ :: post⟩ none
        ⟨db, w, m, pre ++ ⟨call, t, insert l H, p⟩ :: post⟩
  | query {db : σ} {w : ω} {m : μ} {pre post : List (Session σ ω L ε τ α)} {call : τ}
      {k : σ → Txn σ ω L ε α} {H : Set L} {p : σ → σ} :
      Step W ⟨db, w, m, pre ++ ⟨call, .query k, H, p⟩ :: post⟩ none
        ⟨db, w, m, pre ++ ⟨call, k (p db), H, p⟩ :: post⟩
  | change {db : σ} {w : ω} {m : μ} {pre post : List (Session σ ω L ε τ α)} {call : τ}
      {f : σ → σ} {t : Txn σ ω L ε α} {H : Set L} {p : σ → σ} :
      Step W ⟨db, w, m, pre ++ ⟨call, .change f t, H, p⟩ :: post⟩ none
        ⟨db, w, m, pre ++ ⟨call, t, H, f ∘ p⟩ :: post⟩
  | effect {db : σ} {w : ω} {m : μ} {pre post : List (Session σ ω L ε τ α)} {call : τ}
      {f : ω → ω} {k : ω → Txn σ ω L ε α} {H : Set L} {p : σ → σ} :
      Step W ⟨db, w, m, pre ++ ⟨call, .effect f k, H, p⟩ :: post⟩ none
        ⟨db, f w, m, pre ++ ⟨call, k w, H, p⟩ :: post⟩
  | commit {db : σ} {w : ω} {m : μ} {pre post : List (Session σ ω L ε τ α)} {call : τ} {a : α}
      {H : Set L} {p : σ → σ} :
      Step W ⟨db, w, m, pre ++ ⟨call, .done a, H, p⟩ :: post⟩ (some (call, a))
        ⟨p db, w, W.finish call (.committed a) m, pre ++ post⟩
  | rollback {db : σ} {w : ω} {m : μ} {pre post : List (Session σ ω L ε τ α)} {call : τ} {e : ε}
      {H : Set L} {p : σ → σ} :
      Step W ⟨db, w, m, pre ++ ⟨call, .fail e, H, p⟩ :: post⟩ none
        ⟨db, w, W.finish call (.raised e) m, pre ++ post⟩
  | die {db : σ} {w : ω} {m : μ} {pre post : List (Session σ ω L ε τ α)}
      {x : Session σ ω L ε τ α} :
      Step W ⟨db, w, m, pre ++ x :: post⟩ none
        ⟨db, w, W.finish x.call .died m, pre ++ post⟩

inductive Reach (W : Workload σ ω L ε τ α μ) (c₀ : Config σ ω L ε τ α μ) :
    Config σ ω L ε τ α μ → Prop where
  | init : Reach W c₀ c₀
  | step {c c' : Config σ ω L ε τ α μ} {label : Option (τ × α)} (hr : Reach W c₀ c)
      (hs : Step W c label c') : Reach W c₀ c'

theorem Reach.trans {W : Workload σ ω L ε τ α μ} {c₀ c₁ c₂ : Config σ ω L ε τ α μ}
    (h₁ : Reach W c₀ c₁) (h₂ : Reach W c₁ c₂) : Reach W c₀ c₂ := by
  induction h₂ with
  | init => exact h₁
  | step _ hs ih => exact ih.step hs

/-- What the transactions of the others can do while the locks `H` are held,
when a commit of `call` under the locks `H'` is bounded by `G call a H'`. -/
def Rely (G : τ → α → Set L → σ → σ → Prop) (H : Set L) : σ → σ → Prop :=
  Relation.ReflTransGen (fun s s' => ∃ call a H', Disjoint H' H ∧ G call a H' s s')

section rely

variable {G : τ → α → Set L → σ → σ → Prop} {H : Set L} {s s' : σ}

theorem Rely.refl (s : σ) : Rely G H s s := Relation.ReflTransGen.refl

theorem Rely.trans {s'' : σ} (h : Rely G H s s') (h' : Rely G H s' s'') : Rely G H s s'' :=
  Relation.ReflTransGen.trans h h'

theorem Rely.anti {H' : Set L} (hH : H' ⊆ H) (h : Rely G H s s') : Rely G H' s s' := by
  refine Relation.ReflTransGen.mono ?_ s s' h
  rintro a b ⟨call, x, H'', hd, hG⟩
  exact ⟨call, x, H'', hd.mono_right hH, hG⟩

/-- What every commit of the others preserves holds after any number of them. -/
theorem Rely.preserves {P : σ → Prop}
    (hG : ∀ call a H' s s', Disjoint H' H → G call a H' s s' → P s → P s')
    (h : Rely G H s s') (hs : P s) : P s' := by
  induction h with
  | refl => exact hs
  | tail _ hstep ih =>
    obtain ⟨call, a, H', hd, hg⟩ := hstep
    exact hG call a H' _ _ hd hg ih

end rely

/-- The obligation of a session at its commit. -/
def Commits (G : τ → α → Set L → σ → σ → Prop) (call : τ) (a : α) (H : Set L) (s : σ)
    (p : σ → σ) : Prop :=
  ∀ s', Rely G H s s' → G call a H s' (p s')

theorem Commits.stable {G : τ → α → Set L → σ → σ → Prop} {call : τ} {a : α} {H : Set L}
    {s s' : σ} {p : σ → σ} (hs : Rely G H s s') (h : Commits G call a H s p) :
    Commits G call a H s' p := fun s'' hs' => h s'' (hs.trans hs')

def Session.Safe (G : τ → α → Set L → σ → σ → Prop) (x : Session σ ω L ε τ α) (s : σ) : Prop :=
  x.rest.rwp (Rely G) (Commits G x.call) x.held s x.pending

theorem Session.Safe.stable {G : τ → α → Set L → σ → σ → Prop} {x : Session σ ω L ε τ α} {s s' : σ}
    (h : x.Safe G s) (hs : Rely G x.held s s') : x.Safe G s' := by
  unfold Session.Safe at *
  refine Txn.rwp_stable ?_ ?_ hs h
  · intro H s₁ s₂ s₃ h₁ h₂
    exact h₁.trans h₂
  · intro a H s₁ s₂ p h₁ hQ
    exact hQ.stable h₁

/-- No two sessions hold a common lock. -/
def Exclusive (xs : List (Session σ ω L ε τ α)) : Prop :=
  xs.Pairwise (fun x y => Disjoint x.held y.held)

theorem exclusive_middle {pre post : List (Session σ ω L ε τ α)} {x : Session σ ω L ε τ α} :
    Exclusive (pre ++ x :: post) ↔
      Exclusive (pre ++ post) ∧ ∀ y ∈ pre ++ post, Disjoint x.held y.held := by
  unfold Exclusive
  rw [List.pairwise_middle (fun {a b} hab => Disjoint.symm hab), List.pairwise_cons]
  exact And.comm

/-- The invariant of a pool whose sessions all meet the guarantee. -/
structure Disciplined (I : σ → Prop) (G : τ → α → Set L → σ → σ → Prop)
    (c : Config σ ω L ε τ α μ) : Prop where
  inv : I c.db
  exclusive : Exclusive c.sessions
  safe : ∀ x ∈ c.sessions, x.Safe G c.db

section pool

variable {W : Workload σ ω L ε τ α μ} {I : σ → Prop} {G : τ → α → Set L → σ → σ → Prop}

/-- Every call meets the guarantee, started in any database satisfying `I`. -/
def Meets (W : Workload σ ω L ε τ α μ) (I : σ → Prop) (G : τ → α → Set L → σ → σ → Prop) : Prop :=
  ∀ m call t s, W.program m call = some t → I s → t.rwp (Rely G) (Commits G call) ∅ s id

theorem disciplined_replace {db : σ} {w w' : ω} {m m' : μ} {pre post : List (Session σ ω L ε τ α)}
    {x y : Session σ ω L ε τ α} (h : Disciplined I G ⟨db, w, m, pre ++ x :: post⟩)
    (hheld : ∀ z ∈ pre ++ post, Disjoint y.held z.held) (hy : y.Safe G db) :
    Disciplined I G ⟨db, w', m', pre ++ y :: post⟩ := by
  obtain ⟨hinv, hex, hsafe⟩ := h
  refine ⟨hinv, exclusive_middle.mpr ⟨(exclusive_middle.mp hex).1, hheld⟩, ?_⟩
  intro z hz
  rcases List.mem_append.mp hz with hz | hz
  · exact hsafe z (List.mem_append_left _ hz)
  · rcases List.mem_cons.mp hz with rfl | hz
    · exact hy
    · exact hsafe z (List.mem_append_right _ (List.mem_cons_of_mem _ hz))

theorem disciplined_remove {db : σ} {w w' : ω} {m m' : μ} {pre post : List (Session σ ω L ε τ α)}
    {x : Session σ ω L ε τ α} (h : Disciplined I G ⟨db, w, m, pre ++ x :: post⟩) :
    Disciplined I G ⟨db, w', m', pre ++ post⟩ := by
  obtain ⟨hinv, hex, hsafe⟩ := h
  refine ⟨hinv, (exclusive_middle.mp hex).1, ?_⟩
  intro z hz
  rcases List.mem_append.mp hz with hz | hz
  · exact hsafe z (List.mem_append_left _ hz)
  · exact hsafe z (List.mem_append_right _ (List.mem_cons_of_mem _ hz))

theorem commit_guarantee {c c' : Config σ ω L ε τ α μ} {call : τ} {a : α}
    (h : Disciplined I G c) (hs : Step W c (some (call, a)) c') :
    ∃ H, G call a H c.db c'.db ∧ ∃ x ∈ c.sessions, x.call = call ∧ x.rest = .done a ∧ x.held = H := by
  cases hs with
  | commit =>
    rename_i db w m pre post H p
    have hx := h.safe ⟨call, .done a, H, p⟩ (List.mem_append_right _ List.mem_cons_self)
    exact ⟨H, hx db (Rely.refl db), _, List.mem_append_right _ List.mem_cons_self, rfl, rfl, rfl⟩

theorem step_db {c c' : Config σ ω L ε τ α μ} (hs : Step W c none c') : c'.db = c.db := by
  cases hs <;> rfl

/-- The pool invariant is preserved by every step of every session. -/
theorem disciplined_step (hI : ∀ call a H s s', G call a H s s' → I s → I s')
    (hW : Meets W I G) {c c' : Config σ ω L ε τ α μ} {label : Option (τ × α)}
    (h : Disciplined I G c) (hs : Step W c label c') : Disciplined I G c' := by
  cases hs with
  | start hp =>
    rename_i call t
    refine ⟨h.inv, List.pairwise_cons.mpr ⟨fun y _ => Set.empty_disjoint _, h.exclusive⟩, ?_⟩
    intro x hx
    rcases List.mem_cons.mp hx with rfl | hx
    · exact hW _ call t c.db hp h.inv
    · exact h.safe x hx
  | acquire hl =>
    rename_i db w m pre post call l t H p
    have hx := h.safe ⟨call, .acquire l t, H, p⟩ (List.mem_append_right _ List.mem_cons_self)
    refine disciplined_replace h ?_ (hx db (Rely.refl db))
    intro z hz
    have hd := (exclusive_middle.mp h.exclusive).2 z hz
    exact Set.disjoint_insert_left.mpr ⟨hl z hz, hd⟩
  | query =>
    rename_i db w m pre post call k H p
    have hx := h.safe ⟨call, .query k, H, p⟩ (List.mem_append_right _ List.mem_cons_self)
    exact disciplined_replace h (exclusive_middle.mp h.exclusive).2 (hx db (Rely.refl db))
  | change =>
    rename_i db w m pre post call f t H p
    have hx := h.safe ⟨call, .change f t, H, p⟩ (List.mem_append_right _ List.mem_cons_self)
    exact disciplined_replace h (exclusive_middle.mp h.exclusive).2 hx
  | effect =>
    rename_i db w m pre post call f k H p
    have hx := h.safe ⟨call, .effect f k, H, p⟩ (List.mem_append_right _ List.mem_cons_self)
    exact disciplined_replace h (exclusive_middle.mp h.exclusive).2 (hx w)
  | commit =>
    rename_i db w m pre post call a H p
    have hx := h.safe ⟨call, .done a, H, p⟩ (List.mem_append_right _ List.mem_cons_self)
    have hG : G call a H db (p db) := hx db (Rely.refl db)
    have hr : Disciplined I G ⟨db, w, m, pre ++ post⟩ := disciplined_remove h
    refine ⟨hI call a H db (p db) hG h.inv, hr.exclusive, ?_⟩
    intro z hz
    have hd := (exclusive_middle.mp h.exclusive).2 z hz
    exact (hr.safe z hz).stable (Relation.ReflTransGen.single ⟨call, a, H, hd, hG⟩)
  | rollback => exact disciplined_remove h
  | die => exact disciplined_remove h

/-- Every reachable pool keeps the invariant, so every commit in a run meets
the guarantee of its call. -/
theorem disciplined_reach (hI : ∀ call a H s s', G call a H s s' → I s → I s')
    (hW : Meets W I G) {c₀ c : Config σ ω L ε τ α μ} (h₀ : Disciplined I G c₀)
    (hr : Reach W c₀ c) : Disciplined I G c := by
  induction hr with
  | init => exact h₀
  | step _ hs ih => exact disciplined_step hI hW ih hs

end pool

end Interleaving

end RankLens
