import RankLens.Punctual

namespace RankLens

open Interleaving (Workload Config Session Reach Ending)
open IngestionService (Flight addManifest)
open RetentionSweeper (due scan)

namespace Deployment

/-- Every record stays, with its deadline. -/
structure Lasting (c c' : Catalog) : Prop where
  records : ∀ k r, c.records.get k = some r →
    ∃ r', c'.records.get k = some r' ∧ r'.retentionExpiresAt = r.retentionExpiresAt

/-- The calls of sweeps, of admissions, and on policies. -/
def concerns : Call → Bool
  | .admitReserve .. | .admitPut .. | .admitCommit .. | .admitCrash .. => true
  | .createRetentionPolicyRevision .. | .cancelRetentionPolicyRevision .. => true
  | .applyRetentionPolicyBackfill .. | .retentionScan .. | .retentionDelete .. => true
  | _ => false

def sweepWorkload (env : Env) (settings : IngestionSettings) :
    Workload Catalog ObjectStore Lock Failure Call Reply Memory :=
  ⟨fun m call => if concerns call then program env settings m call else none, finish⟩

abbrev Pool := Config Catalog ObjectStore Lock Failure Call Reply Memory

abbrev PoolSession := Session Catalog ObjectStore Lock Failure Call Reply

/-- The attempt has a record whose deadline has passed by the clock. -/
def DueAt (now : Instant) (k : AttemptKey) (c : Catalog) : Prop :=
  ∃ r, c.records.get k = some r ∧ due now r = true

def sweepOf : Call → Option Nat
  | .retentionScan sweep _ _ => some sweep
  | .retentionDelete sweep _ _ => some sweep
  | _ => none

def backfills : Call → Bool
  | .applyRetentionPolicyBackfill .. => true
  | _ => false

/-- A sweep with this clock has found the attempt, or its scan is under way. -/
def Found (now : Instant) (k : AttemptKey) (c : Pool) : Prop :=
  (∃ x ∈ c.sessions, ∃ sweep batchSize, x.call = .retentionScan sweep batchSize now) ∨
    ∃ e ∈ c.memory.sweeps, e.2.1 = now ∧ k ∈ e.2.2

/-- A backfill that commits takes nothing out of due that a sweep has found and not yet
deleted. -/
def Spares (label : Option (Call × Reply)) (c c' : Pool) : Prop :=
  ∀ x ∈ label, backfills x.1 = true → ∀ now k, Found now k c → DueAt now k c.db → DueAt now k c'.db

/-- The runs in which a sweep runs its transactions one after the other, and no backfill
interferes with it. -/
inductive SweepRun (env : Env) (settings : IngestionSettings) (c₀ : Pool) : Pool → Prop where
  | start : SweepRun env settings c₀ c₀
  | step {c c' : Pool} {label : Option (Call × Reply)} (hr : SweepRun env settings c₀ c)
      (hs : Interleaving.Step (sweepWorkload env settings) c label c')
      (hseq : (c'.sessions.filterMap (fun x => sweepOf x.call)).Nodup) (hp : Spares label c c') :
      SweepRun env settings c₀ c'

section lasting

variable {env : Env} {settings : IngestionSettings} {c c' c'' : Catalog} {now : Instant}
  {k : AttemptKey}

theorem Lasting.refl (c : Catalog) : Lasting c c := ⟨fun _ r h => ⟨r, h, rfl⟩⟩

theorem Lasting.trans (h : Lasting c c') (h' : Lasting c' c'') : Lasting c c'' := by
  refine ⟨fun k r hr => ?_⟩
  obtain ⟨r', hr', he⟩ := h.records k r hr
  obtain ⟨r'', hr'', he'⟩ := h'.records k r' hr'
  exact ⟨r'', hr'', he'.trans he⟩

theorem Lasting.of_same (h : c'.records = c.records) : Lasting c c' :=
  ⟨fun _ r hr => ⟨r, h.symm ▸ hr, rfl⟩⟩

theorem Lasting.modify {a : AttemptKey} {f : AttemptRecord → AttemptRecord}
    {hf : ∀ r, (f r).attempt = r.attempt}
    (h : ∀ r, (f r).retentionExpiresAt = r.retentionExpiresAt) :
    Lasting c { c with records := c.records.modify a f hf } := by
  refine ⟨fun k r hr => ?_⟩
  have hget : (c.records.modify a f hf).get k =
      if k = a then (c.records.get k).map f else c.records.get k := Table.get_modify
  by_cases hk : k = a
  · rw [if_pos hk, hr, Option.map_some] at hget
    exact ⟨f r, hget, h r⟩
  · rw [if_neg hk, hr] at hget
    exact ⟨r, hget, rfl⟩

theorem DueAt.lasting (h : DueAt now k c) (hc : Lasting c c') : DueAt now k c' := by
  obtain ⟨r, hr, hdue⟩ := h
  obtain ⟨r', hr', he⟩ := hc.records k r hr
  refine ⟨r', hr', ?_⟩
  rw [due, he]
  exact hdue

theorem recordAdmission_lasting {tenantId : String} {segment : SegmentUpload}
    {committedAt : Instant} :
    (IngestionService.recordAdmission settings tenantId segment committedAt).writes Lasting
      (fun _ => True) := by
  simp only [IngestionService.recordAdmission, IngestionService.bindField, Txn.writes_bind,
    Ref.writes_get]
  intro c
  split
  · simp only [Txn.writes_bind, Txn.writes_read]
    refine fun _ => Ref.writes_insert (fun x => ⟨fun k r hr => ?_⟩) trivial
    exact ⟨r, Table.get_eq_some.mpr ⟨Table.mem_insert_of_mem (Table.mem_of_get hr),
      Table.key_of_get hr⟩, rfl⟩
  · next record _ =>
    simp only [Txn.writes_bind, Txn.writes_raiseIf]
    exact fun _ _ _ => Ref.writes_updateUnique (fun _ => Lasting.modify (fun _ => rfl)) trivial

theorem writes_lasting {α : Type} {t : Tx α} (h : t.writes Keeps (fun _ => True)) :
    t.writes Lasting (fun _ => True) :=
  Txn.writes_mono (fun _ _ hc => .of_same hc.records) (fun _ _ => trivial) h

theorem admitCommit_lasting {faults : Faults} {f : Flight} {freshReceipt freshOutbox : Uuid}
    {committedAt : Instant} :
    (IngestionService.admitCommit env settings faults f freshReceipt freshOutbox committedAt).writes
      Lasting (fun _ => True) := by
  rw [IngestionService.admitCommit_eq, Txn.writes_bind]
  refine Txn.writes_mono (fun _ _ h => h) (fun opened _ => ?_) (writes_lasting openRange_keeps)
  cases opened with
  | inl receipt => trivial
  | inr x =>
    simp only [addManifest, Txn.writes_bind]
    refine writes_uuid4 (fun _ => .of_same rfl) (Ref.writes_insert (fun _ => .of_same rfl) ?_)
    refine Txn.writes_mono (fun _ _ h => h) (fun _ _ => ?_) recordAdmission_lasting
    refine writes_uuid4 (fun _ => .of_same rfl) (Ref.writes_insert (fun _ => .of_same rfl) ?_)
    exact Ref.writes_update (fun _ => .of_same rfl) trivial

theorem deleteAttempt_keeps :
    (IngestionService.deleteAttempt k now).writes Keeps (fun _ => True) := by
  simp only [IngestionService.deleteAttempt, IngestionService.activeHoldIds, Txn.writes_bind,
    Txn.writes_lock, Ref.writes_get, Txn.writes_read, Txn.writes_ite]
  refine fun c _ => ⟨fun _ => ?_, fun _ => ?_⟩
  · refine Txn.writes_mono (fun _ _ h => h) (fun g _ => ?_)
      (fence_writes (fun _ _ => ⟨rfl, rfl, rfl⟩))
    exact requestDeletion_writes (fun _ _ _ => ⟨rfl, rfl, rfl⟩) (fun _ _ _ => ⟨rfl, rfl, rfl⟩)
  · have hadd : (IngestionService.addUnfenced k (c.generations.get k)).writes Keeps
        (fun _ => True) := by
      unfold IngestionService.addUnfenced
      split
      · exact Ref.writes_insert (fun _ => ⟨rfl, rfl, rfl⟩) trivial
      · trivial
    refine Txn.writes_mono (fun _ _ h => h) (fun _ _ => ?_) hadd
    exact blockDeletion_writes (fun _ _ _ => ⟨rfl, rfl, rfl⟩) (fun _ _ _ => ⟨rfl, rfl, rfl⟩)

theorem cancelRetentionPolicyRevision_lasting {key : PolicyKey} {reason credentialId : String} :
    (IngestionService.cancelRetentionPolicyRevision key reason credentialId now).writes Lasting
      (fun _ => True) := by
  simp only [IngestionService.cancelRetentionPolicyRevision, Txn.writes_bind, Txn.writes_raiseIf,
    Txn.writes_lock, Ref.writes_get]
  intro _ _ c
  split
  · trivial
  · simp only [Txn.writes_bind, Ref.writes_get]
    intro c
    split
    · simp
    · simp only [Txn.writes_bind, Txn.writes_raiseIf]
      exact fun _ => Ref.writes_insert (fun _ => .of_same rfl) trivial

theorem program_lasting {m : Memory} {call : Call} {t : Tx Reply}
    (h : program env settings m call = some t) (hc : concerns call = true)
    (hb : backfills call = false) : t.writes Lasting (fun _ => True) := by
  cases call with
  | admitReserve ticket principal segment fresh now =>
    simp only [program] at h
    split at h
    · cases h
    · obtain rfl := Option.some.inj h
      exact Txn.writes_map.mpr (writes_lasting admitReserve_keeps)
  | admitPut ticket faults =>
    obtain ⟨f, _, rfl⟩ := Option.map_eq_some_iff.mp h
    exact Txn.writes_map.mpr (writes_lasting admitPut_writes)
  | admitCommit ticket faults freshReceipt freshOutbox committedAt =>
    obtain ⟨f, _, rfl⟩ := Option.map_eq_some_iff.mp h
    exact Txn.writes_map.mpr admitCommit_lasting
  | admitCrash ticket =>
    obtain rfl := Option.some.inj h
    exact Txn.writes_pure.mpr trivial
  | createRetentionPolicyRevision tenantId clusterId seconds credentialId effectiveAt case now =>
    obtain rfl := Option.some.inj h
    exact Txn.writes_map.mpr (Txn.writes_mono (fun _ _ hc => .of_same hc.records)
      (fun _ _ => trivial) createRetentionPolicyRevision_founds)
  | cancelRetentionPolicyRevision key reason credentialId now =>
    obtain rfl := Option.some.inj h
    exact Txn.writes_map.mpr cancelRetentionPolicyRevision_lasting
  | applyRetentionPolicyBackfill => cases hb
  | retentionScan sweep batchSize now =>
    simp only [program] at h
    split at h
    · cases h
    · obtain rfl := Option.some.inj h
      exact Txn.writes_map.mpr (fun _ => trivial)
  | retentionDelete sweep k now =>
    simp only [program] at h
    split at h
    · split at h
      · obtain rfl := Option.some.inj h
        exact Txn.writes_map.mpr (writes_lasting deleteAttempt_keeps)
      · cases h
    · cases h
  | _ => cases hc

end lasting

section memory

variable {α : Type} {xs : List (Nat × α)} {ticket other : Nat} {a : α} {m : Memory} {call : Call}
  {e : Ending Failure Reply}

theorem lookup_forget (h : other ≠ ticket) : lookup (forget xs ticket) other = lookup xs other := by
  have hfind : (forget xs ticket).find? (fun x => x.1 = other) = xs.find? (fun x => x.1 = other) := by
    induction xs with
    | nil => rfl
    | cons x xs ih =>
      by_cases hx : x.1 = ticket
      · have hne : ¬x.1 = other := fun ho => h (ho.symm.trans hx)
        simpa [forget, hx, hne, List.find?_cons, h.symm] using ih
      · by_cases ho : x.1 = other
        · simp [forget, ho, h]
        · simpa [forget, hx, ho] using ih
  rw [lookup, hfind, lookup]

theorem lookup_remember (h : other ≠ ticket) :
    lookup (remember xs ticket a) other = lookup xs other := by
  have hcons : lookup (remember xs ticket a) other = lookup (forget xs ticket) other := by
    simp [lookup, remember, h.symm]
  rw [hcons, lookup_forget h]

theorem finish_other {sweep : Nat} (h : sweepOf call ≠ some sweep) :
    lookup (finish call e m).sweeps sweep = lookup m.sweeps sweep := by
  unfold finish
  split
  case h_8 sweep' _ now attempts =>
    exact lookup_remember (fun he => h (congrArg some he.symm))
  case h_9 sweep' _ _ _ =>
    split
    · exact lookup_remember (fun he => h (congrArg some he.symm))
    · rfl
  case h_10 sweep' _ _ _ _ =>
    exact lookup_forget (fun he => h (congrArg some he.symm))
  all_goals first
    | rfl
    | (split <;> rfl)

theorem finish_found {x : Nat × Instant × List AttemptKey} (hx : x ∈ (finish call e m).sweeps) :
    (∃ y ∈ m.sweeps, y.2.1 = x.2.1 ∧ ∀ k ∈ x.2.2, k ∈ y.2.2) ∨
      ∃ batchSize, call = .retentionScan x.1 batchSize x.2.1 ∧ e = .committed (.due x.2.2) := by
  have hold : ∀ y ∈ m.sweeps, y = x → ∃ y ∈ m.sweeps, y.2.1 = x.2.1 ∧ ∀ k ∈ x.2.2, k ∈ y.2.2 :=
    fun y hy he => ⟨y, hy, he ▸ rfl, fun k hk => he ▸ hk⟩
  unfold finish at hx
  split at hx
  case h_8 =>
    obtain rfl | hx := mem_remember hx
    · exact Or.inr ⟨_, rfl, rfl⟩
    · exact Or.inl (hold x hx rfl)
  case h_9 =>
    split at hx
    · next hlookup =>
      obtain rfl | hx := mem_remember hx
      · exact Or.inl ⟨_, mem_of_lookup hlookup, rfl, fun k hk => List.mem_cons_of_mem _ hk⟩
      · exact Or.inl (hold x hx rfl)
    · exact Or.inl (hold x hx rfl)
  case h_10 => exact Or.inl (hold x (mem_forget hx) rfl)
  all_goals left
  all_goals first
    | exact hold x hx rfl
    | (split at hx <;> exact hold x hx rfl)

end memory

/-- A scan has not read yet, or has found attempts that are due. -/
def Scanning (now : Instant) (batchSize : Nat) (x : PoolSession) (c : Catalog) : Prop :=
  x.pending = id ∧ (x.rest = .due <$> scan batchSize now ∨
    ∃ ks, x.rest = .done (.due ks) ∧ ∀ k ∈ ks, DueAt now k c)

/-- What holds of a transaction under way. -/
structure Fits (c : Catalog) (m : Memory) (x : PoolSession) : Prop where
  steady : backfills x.call = false → x.rest.writes Lasting (fun _ => True) ∧
    ∀ y, Lasting y (x.pending y)
  scans : ∀ sweep batchSize now, x.call = .retentionScan sweep batchSize now →
    Scanning now batchSize x c
  deletes : ∀ sweep k now, x.call = .retentionDelete sweep k now →
    ∃ since rest, lookup m.sweeps sweep = some (since, k :: rest)

/-- What a sweep has found is due until it is deleted. -/
structure Sweeping (c : Pool) : Prop where
  sessions : ∀ x ∈ c.sessions, Fits c.db c.memory x
  found : ∀ e ∈ c.memory.sweeps, ∀ k ∈ e.2.2, DueAt e.2.1 k c.db
  sequential : (c.sessions.filterMap (fun x => sweepOf x.call)).Nodup

section sweeping

variable {env : Env} {settings : IngestionSettings} {c c' : Pool} {label : Option (Call × Reply)}
  {db : Catalog} {w w' : ObjectStore} {m : Memory} {pre post : List PoolSession}
  {x y : PoolSession}

theorem scan_due {batchSize : Nat} {now : Instant} {k : AttemptKey}
    (h : k ∈ (((db.records.select (fun r =>
      due now r && (db.deletions.get r.attempt).isNone)).insertionSort
        (fun a b => RetentionSweeper.before a b = true)).take batchSize).map AttemptRecord.attempt) :
    DueAt now k db := by
  obtain ⟨r, hr, rfl⟩ := List.mem_map.mp h
  have hmem := (List.perm_insertionSort _ _).mem_iff.mp (List.mem_of_mem_take hr)
  obtain ⟨hr, hdue⟩ := Table.mem_select.mp hmem
  exact ⟨r, Table.get_of_mem hr, (Bool.and_eq_true _ _ ▸ hdue).1⟩

theorem fits_start {call : Call} {t : Tx Reply} (hc : concerns call = true)
    (h : program env settings m call = some t) : Fits db m ⟨call, t, ∅, id⟩ := by
  refine ⟨fun hb => ⟨program_lasting h hc hb, .refl⟩, ?_, ?_⟩
  · rintro sweep batchSize now rfl
    refine ⟨rfl, Or.inl ?_⟩
    simp only [program] at h
    split at h
    · cases h
    · exact (Option.some.inj h).symm
  · rintro sweep k now rfl
    simp only [program] at h
    split at h
    · next since k' rest hlookup =>
      split at h
      · next hk => exact ⟨since, rest, hk ▸ hlookup⟩
      · cases h
    · cases h

theorem sequential_call (h : y.call = x.call) :
    ((pre ++ y :: post).filterMap (fun x => sweepOf x.call)) =
      ((pre ++ x :: post).filterMap (fun x => sweepOf x.call)) := by
  simp [List.filterMap_append, List.filterMap_cons, h]

theorem Sweeping.replace (h : Sweeping ⟨db, w, m, pre ++ x :: post⟩)
    (hy : Fits db m x → Fits db m y) (hcall : y.call = x.call) :
    Sweeping ⟨db, w', m, pre ++ y :: post⟩ := by
  refine ⟨fun z hz => ?_, h.found, (sequential_call hcall).symm ▸ h.sequential⟩
  obtain hz | hz := List.mem_append.mp hz
  · exact h.sessions z (List.mem_append_left _ hz)
  · obtain rfl | hz := List.mem_cons.mp hz
    · exact hy (h.sessions x (List.mem_append_right _ List.mem_cons_self))
    · exact h.sessions z (List.mem_append_right _ (List.mem_cons_of_mem _ hz))

theorem mem_middle (h : y ∈ pre ++ post) : y ∈ pre ++ x :: post := by
  obtain h | h := List.mem_append.mp h
  · exact List.mem_append_left _ h
  · exact List.mem_append_right _ (List.mem_cons_of_mem _ h)

theorem other_sweep {sweep : Nat}
    (h : ((pre ++ x :: post).filterMap (fun x => sweepOf x.call)).Nodup) (hy : y ∈ pre ++ post)
    (hsweep : sweepOf y.call = some sweep) : sweepOf x.call ≠ some sweep := by
  intro hx
  have hperm : (pre ++ x :: post).Perm (x :: (pre ++ post)) := List.perm_middle
  rw [(hperm.filterMap _).nodup_iff,
    List.filterMap_cons_some (f := fun x : PoolSession => sweepOf x.call) hx, List.nodup_cons] at h
  exact h.1 (List.mem_filterMap.mpr ⟨y, hy, hsweep⟩)

theorem Sweeping.ends {e : Ending Failure Reply} {db' : Catalog}
    (h : Sweeping ⟨db, w, m, pre ++ x :: post⟩)
    (hdue : ∀ now k, Found now k ⟨db, w, m, pre ++ x :: post⟩ → DueAt now k db → DueAt now k db')
    (hscan : ∀ sweep batchSize now ks, x.call = .retentionScan sweep batchSize now →
      e = .committed (.due ks) → ∀ k ∈ ks, DueAt now k db') :
    Sweeping ⟨db', w', finish x.call e m, pre ++ post⟩ := by
  refine ⟨fun z hz => ?_, fun entry hentry k hk => ?_, ?_⟩
  · have hfits := h.sessions z (mem_middle hz)
    refine ⟨hfits.steady, fun sweep batchSize now hcall => ?_, fun sweep k now hcall => ?_⟩
    · obtain ⟨hp, hrest | ⟨ks, hrest, hks⟩⟩ := hfits.scans sweep batchSize now hcall
      · exact ⟨hp, Or.inl hrest⟩
      · refine ⟨hp, Or.inr ⟨ks, hrest, fun k hk => hdue now k (Or.inl ?_) (hks k hk)⟩⟩
        exact ⟨z, mem_middle hz, sweep, batchSize, hcall⟩
    · have hother : sweepOf x.call ≠ some sweep :=
        other_sweep h.sequential hz (by rw [hcall]; rfl)
      rw [finish_other hother]
      exact hfits.deletes sweep k now hcall
  · obtain ⟨y, hy, hsince, hsub⟩ | ⟨batchSize, hcall, he⟩ := finish_found hentry
    · exact hdue _ k (Or.inr ⟨y, hy, hsince, hsub k hk⟩) (hsince ▸ h.found y hy k (hsub k hk))
    · exact hscan _ batchSize _ _ hcall he k hk
  · have hsub : (pre ++ post).Sublist (pre ++ x :: post) :=
      (List.Sublist.refl pre).append (List.sublist_cons_self x post)
    exact h.sequential.sublist (hsub.filterMap _)

theorem Fits.step {t t' : Tx Reply} {call : Call} {H H' : Set Lock} {p p' : Catalog → Catalog}
    (h : Fits db m ⟨call, t, H, p⟩)
    (hsteady : t.writes Lasting (fun _ => True) ∧ (∀ y, Lasting y (p y)) →
      t'.writes Lasting (fun _ => True) ∧ ∀ y, Lasting y (p' y))
    (hscan : ∀ batchSize now, Scanning now batchSize ⟨call, t, H, p⟩ db →
      Scanning now batchSize ⟨call, t', H', p'⟩ db) :
    Fits db m ⟨call, t', H', p'⟩ :=
  ⟨fun hb => hsteady (h.steady hb), fun sweep batchSize now hcall =>
    hscan batchSize now (h.scans sweep batchSize now hcall), h.deletes⟩

theorem scan_eq {batchSize : Nat} {now : Instant} : (.due <$> scan batchSize now : Tx Reply) =
    .query (fun c => .done (.due ((((c.records.select (fun r =>
      due now r && (c.deletions.get r.attempt).isNone)).insertionSort
        (fun a b => RetentionSweeper.before a b = true)).take batchSize).map
          AttemptRecord.attempt))) := rfl

theorem Sweeping.step (h : Sweeping c)
    (hs : Interleaving.Step (sweepWorkload env settings) c label c')
    (hseq : (c'.sessions.filterMap (fun x => sweepOf x.call)).Nodup) (hp : Spares label c c') :
    Sweeping c' := by
  cases hs with
  | @start _ call t ht =>
    refine ⟨fun x hx => ?_, h.found, hseq⟩
    obtain rfl | hx := List.mem_cons.mp hx
    · have hprogram : (if concerns call then program env settings c.memory call else none) =
          some t := ht
      split at hprogram
      · next hc => exact fits_start hc hprogram
      · cases hprogram
    · exact h.sessions x hx
  | acquire hfree =>
    refine h.replace (fun hx => hx.step (fun ht => ht) ?_) rfl
    rintro batchSize now ⟨_, hrest | ⟨ks, hrest, _⟩⟩
    · rw [scan_eq] at hrest
      cases hrest
    · cases hrest
  | @query db w m pre post call k H p =>
    refine h.replace (fun hx => hx.step (fun ht => ⟨ht.1 _, ht.2⟩) ?_) rfl
    rintro batchSize now ⟨hid, hrest | ⟨ks, hrest, _⟩⟩
    · rw [scan_eq] at hrest
      obtain rfl := Txn.query.inj hrest
      obtain rfl : p = id := hid
      exact ⟨rfl, Or.inr ⟨_, rfl, fun k hk => scan_due hk⟩⟩
    · cases hrest
  | change =>
    refine h.replace (fun hx => hx.step (fun ht => ⟨ht.1.2, fun y => ?_⟩) ?_) rfl
    · exact (ht.2 y).trans (ht.1.1 _)
    · rintro batchSize now ⟨_, hrest | ⟨ks, hrest, _⟩⟩
      · rw [scan_eq] at hrest
        cases hrest
      · cases hrest
  | effect =>
    refine h.replace (fun hx => hx.step (fun ht => ⟨ht.1 _, ht.2⟩) ?_) rfl
    rintro batchSize now ⟨_, hrest | ⟨ks, hrest, _⟩⟩
    · rw [scan_eq] at hrest
      cases hrest
    · cases hrest
  | @commit db w m pre post call a H p =>
    have hx := h.sessions ⟨call, .done a, H, p⟩ (List.mem_append_right _ List.mem_cons_self)
    refine h.ends (fun now k hfound hdue => ?_) ?_
    · cases hb : backfills call with
      | true => exact hp _ rfl hb now k hfound hdue
      | false => exact hdue.lasting ((hx.steady hb).2 db)
    · intro sweep batchSize now ks hcall he k hk
      obtain ⟨hid, hrest | ⟨ks', hrest, hks⟩⟩ := hx.scans sweep batchSize now hcall
      · rw [scan_eq] at hrest
        cases hrest
      · obtain rfl : p = id := hid
        cases he
        cases hrest
        exact hks k hk
  | rollback =>
    refine h.ends (fun _ _ _ hdue => hdue) (fun _ _ _ _ _ he => ?_)
    cases he
  | die =>
    refine h.ends (fun _ _ _ hdue => hdue) (fun _ _ _ _ _ he => ?_)
    cases he

theorem sweeping_initial : Sweeping (pool .initial) :=
  ⟨fun _ hx => absurd hx List.not_mem_nil, fun _ hx => absurd hx List.not_mem_nil, List.nodup_nil⟩

theorem SweepRun.sweeping (h : SweepRun env settings (pool .initial) c) : Sweeping c := by
  induction h with
  | start => exact sweeping_initial
  | step _ hs hseq hp ih => exact ih.step hs hseq hp

/-- When no backfill takes an attempt out of due that a sweep has found, a sweep deletes only what
is due by its clock. -/
theorem sweep_deletes_due {sweep : Nat} {k : AttemptKey} {now : Instant} {a : Reply}
    (h : SweepRun env settings (pool .initial) c)
    (hs : Interleaving.Step (sweepWorkload env settings) c (some (.retentionDelete sweep k now, a))
      c') :
    ∃ since rest r, lookup c.memory.sweeps sweep = some (since, k :: rest) ∧
      c.db.records.get k = some r ∧ ∃ t, r.retentionExpiresAt = some t ∧ t ≤ since := by
  have hsweeping := h.sweeping
  cases hs with
  | @commit db w m pre post _ _ H p =>
    obtain ⟨since, rest, hlookup⟩ := (hsweeping.sessions
      ⟨.retentionDelete sweep k now, .done a, H, p⟩
      (List.mem_append_right _ List.mem_cons_self)).deletes sweep k now rfl
    obtain ⟨r, hr, hdue⟩ := hsweeping.found _ (mem_of_lookup hlookup) k List.mem_cons_self
    rw [due] at hdue
    cases ht : r.retentionExpiresAt with
    | none =>
      rw [ht] at hdue
      cases hdue
    | some t =>
      rw [ht] at hdue
      exact ⟨since, rest, r, hlookup, hr, t, ht, of_decide_eq_true hdue⟩

end sweeping

section sweeping

variable {env : Env} {settings : IngestionSettings} {s s' : State} {c c' : Pool} {call : Call}
  {a : Reply}

theorem quiet_of_answer (hc : concerns call = true) (h : answer env settings s call = some (a, s')) :
    ∃ c₁ c₂, Interleaving.Step (sweepWorkload env settings) (pool s) none c₁ ∧
      c₁.sessions.map Session.call = [call] ∧
      Interleaving.Quiet (sweepWorkload env settings) c₁ c₂ ∧ c₂.db = s.catalog ∧
      c₂.memory = s.memory ∧
      Interleaving.Step (sweepWorkload env settings) c₂ (some (call, a)) (pool s') := by
  obtain ⟨t, ht⟩ := program_of_answer h
  have ht' : (sweepWorkload env settings).program s.memory call = some t := by
    rw [← ht]
    exact if_pos hc
  obtain ⟨c, hquiet, hdb, hmemory, hstep⟩ :=
    quiet_of_run (W := sweepWorkload env settings) rfl ht h
  exact ⟨_, c, .start ht', rfl, hquiet, hdb, hmemory, hstep⟩

theorem reach_of_answer (hc : concerns call = true)
    (h : answer env settings s call = some (a, s')) : ∃ c, c.db = s.catalog ∧ c.memory = s.memory ∧
      Reach (sweepWorkload env settings) (pool s) c ∧
      Interleaving.Step (sweepWorkload env settings) c (some (call, a)) (pool s') := by
  obtain ⟨c₁, c₂, hstart, _, hquiet, hdb, hm, hcommit⟩ := quiet_of_answer hc h
  exact ⟨c₂, hdb, hm, Reach.trans (.step .init hstart) (Interleaving.reach_of_quiet hquiet), hcommit⟩

theorem sequential_single (h : c.sessions.map Session.call = [call]) :
    (c.sessions.filterMap (fun x => sweepOf x.call)).Nodup := by
  have hcalls : c.sessions.filterMap (fun x => sweepOf x.call) =
      (c.sessions.map Session.call).filterMap sweepOf := by
    rw [List.filterMap_map]
    rfl
  rw [hcalls, h]
  cases hs : sweepOf call <;> simp [hs]

theorem sweepRun_of_quiet {c₀ : Pool} (h₀ : SweepRun env settings c₀ c)
    (hcalls : c.sessions.map Session.call = [call])
    (h : Interleaving.Quiet (sweepWorkload env settings) c c') : SweepRun env settings c₀ c' ∧
      c'.sessions.map Session.call = [call] := by
  induction h with
  | refl => exact ⟨h₀, hcalls⟩
  | tail _ hs ih =>
    have hnext := hs.2.trans ih.2
    refine ⟨ih.1.step hs.1 ?_ (fun _ hx => absurd hx (Option.not_mem_none _)), hnext⟩
    exact sequential_single hnext

theorem sweepRun_of_answer {c₀ : Pool} (h₀ : SweepRun env settings c₀ (pool s))
    (hc : concerns call = true) (h : answer env settings s call = some (a, s')) : ∃ c,
      c.db = s.catalog ∧ c.memory = s.memory ∧ SweepRun env settings c₀ c ∧
      Interleaving.Step (sweepWorkload env settings) c (some (call, a)) (pool s') := by
  obtain ⟨c₁, c₂, hstart, hcalls, hquiet, hdb, hm, hcommit⟩ := quiet_of_answer hc h
  have hstarted : SweepRun env settings c₀ c₁ :=
    h₀.step hstart (sequential_single hcalls) (fun _ hx => absurd hx (Option.not_mem_none _))
  exact ⟨c₂, hdb, hm, (sweepRun_of_quiet hstarted hcalls hquiet).1, hcommit⟩

def sweepCalls (env : Env) (settings : IngestionSettings) (check : Call → Bool) :
    List Call → State → Option State
  | [], s => some s
  | call :: calls, s =>
    if concerns call && check call then
      (answer env settings s call).bind (fun r => sweepCalls env settings check calls r.2)
    else none

theorem sweepCalls_cons {check : Call → Bool} {calls : List Call}
    (h : sweepCalls env settings check (call :: calls) s = some s') : concerns call = true ∧
      check call = true ∧ ∃ a s₁, answer env settings s call = some (a, s₁) ∧
        sweepCalls env settings check calls s₁ = some s' := by
  rw [sweepCalls] at h
  split at h
  · next hcheck =>
    obtain ⟨⟨a, s₁⟩, hs, hrest⟩ := Option.bind_eq_some_iff.mp h
    rw [Bool.and_eq_true] at hcheck
    exact ⟨hcheck.1, hcheck.2, a, s₁, hs, hrest⟩
  · cases h

theorem reach_of_sweepCalls {check : Call → Bool} {calls : List Call}
    (h : sweepCalls env settings check calls s = some s') :
    Reach (sweepWorkload env settings) (pool s) (pool s') := by
  induction calls generalizing s with
  | nil =>
    obtain rfl := Option.some.inj h
    exact .init
  | cons call calls ih =>
    obtain ⟨hc, _, a, s₁, hs, hrest⟩ := sweepCalls_cons h
    obtain ⟨c, _, _, hreach, hcommit⟩ := reach_of_answer hc hs
    exact Reach.trans (hreach.step hcommit) (ih hrest)

theorem sweepRun_of_sweepCalls {c₀ : Pool} {calls : List Call}
    (h₀ : SweepRun env settings c₀ (pool s))
    (h : sweepCalls env settings (fun call => !backfills call) calls s = some s') :
    SweepRun env settings c₀ (pool s') := by
  induction calls generalizing s with
  | nil =>
    obtain rfl := Option.some.inj h
    exact h₀
  | cons call calls ih =>
    obtain ⟨hc, hcheck, a, s₁, hs, hrest⟩ := sweepCalls_cons h
    obtain ⟨c, _, _, hrun, hcommit⟩ := sweepRun_of_answer h₀ hc hs
    refine ih (hrun.step hcommit List.nodup_nil ?_) hrest
    intro x hx hb
    obtain rfl := Option.some.inj hx
    rw [Bool.not_eq_true'] at hcheck
    rw [hcheck] at hb
    cases hb

end sweeping

end Deployment

-- An attempt that expires after an hour, and a later revision without a deadline.
namespace Sample

/-- The site, with texts for the digests of backfills. -/
def sweptEnv : Env := { env with dumps := fun _ => payload }

def hour : Instant := 3600000005

/-- The attempt is admitted under a revision of one hour, and expires before the sweep. -/
def expiring : List Call :=
  .createRetentionPolicyRevision "acme" "c1" 3600 "admin" none none 0 :: admission ++
    [.createRetentionPolicyRevision "acme" "c1" 0 "admin" none none 5, .retentionScan 0 10 hour]

/-- The migration of the attempt to the revision without a deadline. -/
def prolonging : Call :=
  .applyRetentionPolicyBackfill ⟨"acme", "c1", 2, 10, some 1, some "keep"⟩ 1 0 digest "admin" 9 hour

end Sample

namespace Deployment

/-- The sweep deletes the attempt, which has expired. -/
theorem sweep_deletes_due_sample : ∃ (c c' : Pool) (a : Reply),
    SweepRun Sample.sweptEnv Sample.settings (pool .initial) c ∧
    Interleaving.Step (sweepWorkload Sample.sweptEnv Sample.settings) c
      (some (.retentionDelete 0 Sample.attempt₁ Sample.hour, a)) c' ∧
    a = .deleted (.generation 1) ∧
    ∃ since rest r, lookup c.memory.sweeps 0 = some (since, Sample.attempt₁ :: rest) ∧
      c.db.records.get Sample.attempt₁ = some r ∧ ∃ t, r.retentionExpiresAt = some t ∧ t ≤ since := by
  have h : ((sweepCalls Sample.sweptEnv Sample.settings (fun call => !backfills call)
      Sample.expiring .initial).bind (fun s => answer Sample.sweptEnv Sample.settings s
        (.retentionDelete 0 Sample.attempt₁ Sample.hour))).map Prod.fst =
      some (.deleted (.generation 1)) := by decide +kernel
  obtain ⟨⟨a, s'⟩, h, ha⟩ := Option.map_eq_some_iff.mp h
  obtain ⟨s, hs, hs'⟩ := Option.bind_eq_some_iff.mp h
  have hrun := sweepRun_of_sweepCalls .start hs
  obtain ⟨c, _, _, hrun', hcommit⟩ := sweepRun_of_answer hrun rfl hs'
  exact ⟨c, pool s', a, hrun', hcommit, ha, sweep_deletes_due hrun' hcommit⟩

/-- A migration between the scan and the deletion takes the deadline away, and the attempt is
deleted. -/
theorem prolonged_attempt_deleted : ∃ (c c' : Pool) (r : AttemptRecord),
    Reach (sweepWorkload Sample.sweptEnv Sample.settings) (pool .initial) c ∧
    Interleaving.Step (sweepWorkload Sample.sweptEnv Sample.settings) c
      (some (.retentionDelete 0 Sample.attempt₁ Sample.hour, .deleted (.generation 1))) c' ∧
    c.db.records.get Sample.attempt₁ = some r ∧ r.retentionExpiresAt = none := by
  have h : (sweepCalls Sample.sweptEnv Sample.settings (fun _ => true)
      (Sample.expiring ++ [Sample.prolonging]) .initial).bind (fun s =>
        (answer Sample.sweptEnv Sample.settings s
          (.retentionDelete 0 Sample.attempt₁ Sample.hour)).map (fun r =>
          (r.1, (s.catalog.records.get Sample.attempt₁).map AttemptRecord.retentionExpiresAt))) =
      some (.deleted (.generation 1), some none) := by decide +kernel
  obtain ⟨s, hs, h⟩ := Option.bind_eq_some_iff.mp h
  obtain ⟨⟨a, s'⟩, hs', h⟩ := Option.map_eq_some_iff.mp h
  obtain ⟨rfl, hr⟩ := Prod.mk.inj h
  obtain ⟨r, hr, hexpires⟩ := Option.map_eq_some_iff.mp hr
  obtain ⟨c, hdb, _, hreach, hcommit⟩ := reach_of_answer rfl hs'
  exact ⟨c, pool s', r, (reach_of_sweepCalls hs).trans hreach, hcommit, hdb ▸ hr, hexpires⟩

end Deployment

end RankLens
