import Mathlib

namespace RankLens

/-- A transaction, one statement at a time: it works on a database `σ` that is
rolled back when it does not commit, and on an external store `ω` that is not. -/
inductive Txn (σ ω L ε α : Type) where
  | done (a : α)
  | fail (e : ε)
  | acquire (l : L) (next : Txn σ ω L ε α)
  | query (next : σ → Txn σ ω L ε α)
  | change (f : σ → σ) (next : Txn σ ω L ε α)
  | effect (f : ω → ω) (next : ω → Txn σ ω L ε α)

namespace Txn

variable {σ ω L ε α β γ : Type}

def bind : Txn σ ω L ε α → (α → Txn σ ω L ε β) → Txn σ ω L ε β
  | .done a, g => g a
  | .fail e, _ => .fail e
  | .acquire l t, g => .acquire l (bind t g)
  | .query k, g => .query (fun s => bind (k s) g)
  | .change f t, g => .change f (bind t g)
  | .effect f k, g => .effect f (fun w => bind (k w) g)

instance : Monad (Txn σ ω L ε) where
  pure := .done
  bind := bind

def raise (e : ε) : Txn σ ω L ε α := .fail e

def raiseIf (c : Prop) [Decidable c] (e : ε) : Txn σ ω L ε Unit := if c then .fail e else .done ()

def lock (l : L) : Txn σ ω L ε Unit := .acquire l (.done ())

def read (f : σ → α) : Txn σ ω L ε α := .query (fun s => .done (f s))

def write (f : σ → σ) : Txn σ ω L ε Unit := .change f (.done ())

def perform (op : ω → α × ω) : Txn σ ω L ε α := .effect (fun w => (op w).2) (fun w => .done (op w).1)

def forEach (xs : List β) (body : β → Txn σ ω L ε Unit) : Txn σ ω L ε Unit :=
  match xs with
  | [] => .done ()
  | x :: xs => do
    body x
    forEach xs body

/-- Run a transaction with nothing else going on. The database of a failed
transaction is discarded by `atomically`, its external effects are kept. -/
def run : Txn σ ω L ε α → σ → ω → Except ε (α × σ) × ω
  | .done a, s, w => (.ok (a, s), w)
  | .fail e, _, w => (.error e, w)
  | .acquire _ t, s, w => run t s w
  | .query k, s, w => run (k s) s w
  | .change f t, s, w => run t (f s) w
  | .effect f k, s, w => run (k w) s (f w)

def atomically (t : Txn σ ω L ε α) (s : σ) (w : ω) : Except ε α × σ × ω :=
  match t.run s w with
  | (.ok (a, s'), w') => (.ok a, s', w')
  | (.error e, w') => (.error e, s, w')

/-- The external store when the transaction dies after `n` statements. -/
def crash : Nat → Txn σ ω L ε α → σ → ω → ω
  | 0, _, _, w => w
  | _ + 1, .done _, _, w => w
  | _ + 1, .fail _, _, w => w
  | n + 1, .acquire _ t, s, w => crash n t s w
  | n + 1, .query k, s, w => crash n (k s) s w
  | n + 1, .change f t, s, w => crash n t (f s) w
  | n + 1, .effect f k, s, w => crash n (k w) s (f w)

/-- Weakest precondition with a crash condition: `Q` holds when the transaction
returns, `E` when it raises, and `A` holds of the external store after every
effect on it. -/
def wp : Txn σ ω L ε α → (ω → Prop) → (ε → Prop) → (α → σ → ω → Prop) → σ → ω → Prop
  | .done a, _, _, Q, s, w => Q a s w
  | .fail e, _, E, _, _, _ => E e
  | .acquire _ t, A, E, Q, s, w => wp t A E Q s w
  | .query k, A, E, Q, s, w => wp (k s) A E Q s w
  | .change f t, A, E, Q, s, w => wp t A E Q (f s) w
  | .effect f k, A, E, Q, s, w => A (f w) ∧ wp (k w) A E Q s (f w)

section rules

variable {A : ω → Prop} {E : ε → Prop} {Q : α → σ → ω → Prop} {s : σ} {w : ω}

theorem wp_mono {t : Txn σ ω L ε α} {A' : ω → Prop} {E' : ε → Prop} {Q' : α → σ → ω → Prop}
    (hA : ∀ w, A w → A' w) (hE : ∀ e, E e → E' e) (hQ : ∀ a s w, Q a s w → Q' a s w)
    (h : t.wp A E Q s w) : t.wp A' E' Q' s w := by
  induction t generalizing s w with
  | done a => exact hQ a s w h
  | fail e => exact hE e h
  | acquire l t ih => exact ih h
  | query k ih => exact ih s h
  | change f t ih => exact ih h
  | effect f k ih => exact ⟨hA _ h.1, ih w h.2⟩

theorem wp_post {t : Txn σ ω L ε α} {Q' : α → σ → ω → Prop} (h : t.wp A E Q s w)
    (hQ : ∀ a s w, Q a s w → Q' a s w) : t.wp A E Q' s w :=
  wp_mono (fun _ h => h) (fun _ h => h) hQ h

@[simp] theorem wp_bind {t : Txn σ ω L ε β} {g : β → Txn σ ω L ε α} :
    (t >>= g).wp A E Q s w ↔ t.wp A E (fun b s w => (g b).wp A E Q s w) s w := by
  show (bind t g).wp A E Q s w ↔ _
  induction t generalizing s w with
  | done b => exact Iff.rfl
  | fail e => exact Iff.rfl
  | acquire l t ih => exact ih
  | query k ih => exact ih s
  | change f t ih => exact ih
  | effect f k ih => exact and_congr Iff.rfl (ih w)

@[simp] theorem wp_pure {a : α} :
    (pure a : Txn σ ω L ε α).wp A E Q s w ↔ Q a s w := Iff.rfl

@[simp] theorem wp_map {t : Txn σ ω L ε β} {g : β → α} :
    (g <$> t).wp A E Q s w ↔ t.wp A E (fun b s w => Q (g b) s w) s w := wp_bind

@[simp] theorem wp_raise {e : ε} : (raise e : Txn σ ω L ε α).wp A E Q s w ↔ E e := Iff.rfl

@[simp] theorem wp_raiseIf {c : Prop} [Decidable c] {e : ε} {Q : Unit → σ → ω → Prop} :
    (raiseIf c e : Txn σ ω L ε Unit).wp A E Q s w ↔ (c → E e) ∧ (¬c → Q () s w) := by
  unfold raiseIf
  split
  · next hc => exact ⟨fun h => ⟨fun _ => h, fun hn => absurd hc hn⟩, fun h => h.1 hc⟩
  · next hc => exact ⟨fun h => ⟨fun hp => absurd hp hc, fun _ => h⟩, fun h => h.2 hc⟩

@[simp] theorem wp_lock {l : L} {Q : Unit → σ → ω → Prop} :
    (lock l : Txn σ ω L ε Unit).wp A E Q s w ↔ Q () s w := Iff.rfl

@[simp] theorem wp_read {f : σ → α} :
    (read f : Txn σ ω L ε α).wp A E Q s w ↔ Q (f s) s w := Iff.rfl

@[simp] theorem wp_write {f : σ → σ} {Q : Unit → σ → ω → Prop} :
    (write f : Txn σ ω L ε Unit).wp A E Q s w ↔ Q () (f s) w := Iff.rfl

@[simp] theorem wp_perform {op : ω → α × ω} :
    (perform op : Txn σ ω L ε α).wp A E Q s w ↔ A (op w).2 ∧ Q (op w).1 s (op w).2 := Iff.rfl

@[simp] theorem wp_ite {c : Prop} [Decidable c] {t u : Txn σ ω L ε α} :
    (if c then t else u).wp A E Q s w ↔ (c → t.wp A E Q s w) ∧ (¬c → u.wp A E Q s w) := by
  split <;> simp_all

/-- Loop rule. The invariant speaks of the elements already processed. -/
theorem wp_forEach {xs : List β} {body : β → Txn σ ω L ε Unit} (I : List β → σ → ω → Prop)
    (h0 : I [] s w)
    (hstep : ∀ pre x post s w, xs = pre ++ x :: post → I pre s w →
      (body x).wp A E (fun _ s w => I (pre ++ [x]) s w) s w) :
    (forEach xs body).wp A E (fun _ s w => I xs s w) s w := by
  suffices H : ∀ rest pre s w, xs = pre ++ rest → I pre s w →
      (forEach rest body).wp A E (fun _ s w => I xs s w) s w from H xs [] s w rfl h0
  intro rest
  induction rest with
  | nil =>
    intro pre s w hx hI
    rw [List.append_nil] at hx
    subst hx
    exact hI
  | cons x rest ih =>
    intro pre s w hx hI
    rw [forEach, wp_bind]
    refine wp_post (hstep pre x rest s w hx hI) ?_
    intro _ s' w' hI'
    exact ih (pre ++ [x]) s' w' (by rw [hx, List.append_assoc, List.singleton_append]) hI'

/-- A loop whose body relates the states before and after it by `R`. -/
inductive Chain (R : β → σ → σ → Prop) : List β → σ → σ → Prop where
  | nil {s : σ} : Chain R [] s s
  | cons {x : β} {xs : List β} {s s' s'' : σ} (h : R x s s') (hs : Chain R xs s' s'') :
      Chain R (x :: xs) s s''

theorem Chain.preserves {R : β → σ → σ → Prop} {P : σ → Prop} {xs : List β} {s s' : σ}
    (h : Chain R xs s s') (hR : ∀ x ∈ xs, ∀ s s', R x s s' → P s → P s') (hs : P s) : P s' := by
  induction h with
  | nil => exact hs
  | cons hx _ ih =>
    rw [List.forall_mem_cons] at hR
    exact ih hR.2 (hR.1 _ _ hx hs)

theorem run_of_wp {t : Txn σ ω L ε α} {a : α} {s' : σ} {w' : ω} (h : t.wp A E Q s w)
    (hr : t.run s w = (.ok (a, s'), w')) : Q a s' w' := by
  induction t generalizing s w with
  | done b =>
    cases hr
    exact h
  | fail e => cases hr
  | acquire l t ih => exact ih h hr
  | query k ih => exact ih s h hr
  | change f t ih => exact ih h hr
  | effect f k ih => exact ih w h.2 hr

theorem run_error_of_wp {t : Txn σ ω L ε α} {e : ε} {w' : ω} (h : t.wp A E Q s w)
    (hr : t.run s w = (.error e, w')) : E e := by
  induction t generalizing s w with
  | done b => cases hr
  | fail e =>
    cases hr
    exact h
  | acquire l t ih => exact ih h hr
  | query k ih => exact ih s h hr
  | change f t ih => exact ih h hr
  | effect f k ih => exact ih w h.2 hr

theorem run_external_of_wp {t : Txn σ ω L ε α} (hA : A w) (h : t.wp A E Q s w) :
    A (t.run s w).2 := by
  induction t generalizing s w with
  | done b => exact hA
  | fail e => exact hA
  | acquire l t ih => exact ih hA h
  | query k ih => exact ih s hA h
  | change f t ih => exact ih hA h
  | effect f k ih => exact ih w h.1 h.2

theorem crash_of_wp {t : Txn σ ω L ε α} (n : Nat) (hA : A w) (h : t.wp A E Q s w) :
    A (t.crash n s w) := by
  induction n generalizing t s w with
  | zero => exact hA
  | succ n ih =>
    cases t with
    | done b => exact hA
    | fail e => exact hA
    | acquire l t => exact ih (t := t) hA h
    | query k => exact ih (t := k s) hA h
    | change f t => exact ih (t := t) hA h
    | effect f k => exact ih (t := k w) h.1 h.2

end rules

/-- Every change of the database a transaction makes lies in `R`, whatever it
reads, the external store is only looked at, and what it returns satisfies `Q`. -/
def changes (R : σ → σ → Prop) : Txn σ ω L ε α → (α → Prop) → Prop
  | .done a, Q => Q a
  | .fail _, _ => True
  | .acquire _ t, Q => changes R t Q
  | .query k, Q => ∀ s, changes R (k s) Q
  | .change f t, Q => (∀ s, R s (f s)) ∧ changes R t Q
  | .effect f k, Q => ∀ w, f w = w ∧ changes R (k w) Q

section changes

variable {R : σ → σ → Prop} {Q : α → Prop}

theorem changes_mono {t : Txn σ ω L ε α} {R' : σ → σ → Prop} {Q' : α → Prop}
    (hR : ∀ s s', R s s' → R' s s') (hQ : ∀ a, Q a → Q' a) (h : t.changes R Q) :
    t.changes R' Q' := by
  induction t with
  | done a => exact hQ a h
  | fail e => trivial
  | acquire l t ih => exact ih h
  | query k ih => exact fun s => ih s (h s)
  | change f t ih => exact ⟨fun s => hR s (f s) (h.1 s), ih h.2⟩
  | effect f k ih => exact fun w => ⟨(h w).1, ih w (h w).2⟩

@[simp] theorem changes_bind {t : Txn σ ω L ε β} {g : β → Txn σ ω L ε α} :
    (t >>= g).changes R Q ↔ t.changes R (fun b => (g b).changes R Q) := by
  show (bind t g).changes R Q ↔ _
  induction t with
  | done b => exact Iff.rfl
  | fail e => exact Iff.rfl
  | acquire l t ih => exact ih
  | query k ih => exact forall_congr' ih
  | change f t ih => exact and_congr Iff.rfl ih
  | effect f k ih => exact forall_congr' (fun w => and_congr Iff.rfl (ih w))

@[simp] theorem changes_pure {a : α} : (pure a : Txn σ ω L ε α).changes R Q ↔ Q a := Iff.rfl

@[simp] theorem changes_map {t : Txn σ ω L ε β} {g : β → α} :
    (g <$> t).changes R Q ↔ t.changes R (fun b => Q (g b)) := changes_bind

@[simp] theorem changes_raise {e : ε} : (raise e : Txn σ ω L ε α).changes R Q ↔ True := Iff.rfl

@[simp] theorem changes_raiseIf {c : Prop} [Decidable c] {e : ε} {Q : Unit → Prop} :
    (raiseIf c e : Txn σ ω L ε Unit).changes R Q ↔ (¬c → Q ()) := by
  unfold raiseIf
  split
  · next hc => exact ⟨fun _ h => absurd hc h, fun _ => trivial⟩
  · next hc => exact ⟨fun h _ => h, fun h => h hc⟩

@[simp] theorem changes_lock {l : L} {Q : Unit → Prop} :
    (lock l : Txn σ ω L ε Unit).changes R Q ↔ Q () := Iff.rfl

@[simp] theorem changes_read {f : σ → α} :
    (read f : Txn σ ω L ε α).changes R Q ↔ ∀ s, Q (f s) := Iff.rfl

@[simp] theorem changes_write {f : σ → σ} {Q : Unit → Prop} :
    (write f : Txn σ ω L ε Unit).changes R Q ↔ (∀ s, R s (f s)) ∧ Q () := Iff.rfl

@[simp] theorem changes_perform {op : ω → α × ω} :
    (perform op : Txn σ ω L ε α).changes R Q ↔ ∀ w, (op w).2 = w ∧ Q (op w).1 := Iff.rfl

@[simp] theorem changes_ite {c : Prop} [Decidable c] {t u : Txn σ ω L ε α} :
    (if c then t else u).changes R Q ↔ (c → t.changes R Q) ∧ (¬c → u.changes R Q) := by
  split <;> simp_all

theorem changes_forEach {xs : List β} {body : β → Txn σ ω L ε Unit} {Q : Unit → Prop}
    (h : ∀ x ∈ xs, (body x).changes R (fun _ => True)) (hQ : Q ()) :
    (forEach xs body).changes R Q := by
  induction xs with
  | nil => exact hQ
  | cons x xs ih =>
    rw [List.forall_mem_cons] at h
    rw [forEach, changes_bind]
    exact changes_mono (fun _ _ h => h) (fun _ _ => ih h.2) h.1

/-- The changes of a transaction compose to one in `R`. -/
theorem wp_of_changes {t : Txn σ ω L ε α} (h : t.changes R Q) {A : ω → Prop} {E : ε → Prop}
    {s₀ s : σ} {w : ω} (htrans : ∀ s s' s'', R s s' → R s' s'' → R s s'') (hs : R s₀ s)
    (hA : A w) (hE : ∀ e, E e) :
    t.wp A E (fun a s' w' => R s₀ s' ∧ w' = w ∧ Q a) s w := by
  induction t generalizing s with
  | done a => exact ⟨hs, rfl, h⟩
  | fail e => exact hE e
  | acquire l t ih => exact ih h hs
  | query k ih => exact ih s (h s) hs
  | change f t ih => exact ih h.2 (htrans s₀ s (f s) hs (h.1 s))
  | effect f k ih =>
    obtain ⟨hf, hk⟩ := h w
    show A (f w) ∧ (k w).wp A E _ s (f w)
    rw [hf]
    exact ⟨hA, ih w hk hs⟩

end changes

end Txn

end RankLens
