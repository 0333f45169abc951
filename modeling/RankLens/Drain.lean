import RankLens.Delivery
import RankLens.Envelope

namespace RankLens

open Interleaving (Ending)
open Agent (ReceiptFile SegmentName WriteOutcome)
open Deployment (Acceptable Answers Carries Fenced Owned Served Unmoved)
open IngestionService (Flight receipt)

namespace Drain

/-- A sealed segment in the pending directory. Its body parses as the upload. -/
structure PendingFile (pydantic : Pydantic) where
  name : SegmentName
  body : JsonValue
  segment : SegmentUpload
  parsed : SegmentUpload.modelValidate pydantic body = .ok segment

variable {pydantic : Pydantic}

/-- Where the loop of `drain` stands with the file it works on. -/
inductive Phase (pydantic : Pydantic) where
  | idle
  | sent (f : PendingFile pydantic)
  | received (f : PendingFile pydantic) (r : DurableReceipt)
  | written (f : PendingFile pydantic) (r : DurableReceipt)

/-- The spool of one agent and the server it sends to. `spooled` has every file that was
ever pending, `committed` every manifest that a commit added, the last one first. -/
structure State (pydantic : Pydantic) where
  pending : Table (@PendingFile.name pydantic)
  receipts : Table ReceiptFile.receiptId
  phase : Phase pydantic
  server : Deployment.State
  spooled : List (PendingFile pydantic)
  committed : List SegmentManifest

def State.initial : State pydantic := ⟨.empty, .empty, .idle, .initial, [], []⟩

/-- The manifests a step of the server adds. -/
def added (s s' : Deployment.State) : List SegmentManifest :=
  s'.catalog.manifests.rows.filter (fun x => decide (x ∉ s.catalog.manifests.rows))

def storeReceipt (r : DurableReceipt) (t : Table ReceiptFile.receiptId) :
    Table ReceiptFile.receiptId :=
  (t.deleteWhere (fun x => x.receiptId = r.receiptId)).insert ⟨r.receiptId, r⟩

/-- `writeAtomic` of the receipt. An error or a crash leaves the old file or the new one. -/
def writeReceipt (outcome : WriteOutcome) (f : PendingFile pydantic) (r : DurableReceipt)
    (σ : State pydantic) : State pydantic :=
  match outcome with
  | .done => { σ with receipts := storeReceipt r σ.receipts, phase := .written f r }
  | .error _ landed =>
    { σ with receipts := if landed then storeReceipt r σ.receipts else σ.receipts, phase := .idle }
  | .crash landed _ =>
    { σ with receipts := if landed then storeReceipt r σ.receipts else σ.receipts, phase := .idle }

/-- `os.Remove` of the pending file, which can fail. -/
def removeFile (removed : Bool) (f : PendingFile pydantic) (σ : State pydantic) :
    State pydantic :=
  { σ with
    pending := if removed then σ.pending.deleteWhere (fun g => g.name = f.name) else σ.pending
    phase := .idle }

variable (env : Env) (settings : IngestionSettings) (principal : MachinePrincipal)
  (t : StreamKey) (k : AttemptKey)

/-- A step of the server, or of the agent. The segments of the stream `t` belong to the
attempt `k`, which lives. The server takes any step: what it received twice, late or without
ever answering is among them. -/
inductive Step (σ : State pydantic) : State pydantic → Prop where
  | serve {call : Call} {e : Ending Failure Reply} {s' : Deployment.State}
      (h : Deployment.Step env settings σ.server call e s') (hown : Owned t k call)
      (hlive : ¬Fenced k s'.catalog) :
      Step σ { σ with server := s', committed := added σ.server s' ++ σ.committed }
  | spool {f : PendingFile pydantic} (h : σ.pending.get f.name = none) :
      Step σ { σ with pending := σ.pending.insert f, spooled := f :: σ.spooled }
  | send {f : PendingFile pydantic} (hidle : σ.phase = .idle) (hf : f ∈ σ.pending) :
      Step σ { σ with phase := .sent f }
  | receive {f : PendingFile pydantic} {r : DurableReceipt} (hsent : σ.phase = .sent f)
      (hr : (principal, f.segment, r) ∈ σ.server.memory.receipts) :
      Step σ { σ with phase := .received f r }
  | write {f : PendingFile pydantic} {r : DurableReceipt} {outcome : WriteOutcome}
      (hreceived : σ.phase = .received f r) : Step σ (writeReceipt outcome f r σ)
  | remove {f : PendingFile pydantic} {r : DurableReceipt} {removed : Bool}
      (hwritten : σ.phase = .written f r) : Step σ (removeFile removed f σ)
  | fail : Step σ { σ with phase := .idle }

/-- The runs from an empty spool and an empty site. -/
inductive Reachable : State pydantic → Prop where
  | start : Reachable .initial
  | step {σ σ' : State pydantic} (hr : Reachable σ) (hs : Step env settings principal t k σ σ') :
      Reachable σ'

variable {env settings principal t k}
variable {σ σ' : State pydantic} {f : PendingFile pydantic} {r : DurableReceipt}
  {s s' : Deployment.State}

/-- The file has been answered, and its receipt is written. -/
def Filed (principal : MachinePrincipal) (σ : State pydantic) (f : PendingFile pydantic) : Prop :=
  ∃ r, (principal, f.segment, r) ∈ σ.server.memory.receipts ∧
    ∃ file ∈ σ.receipts, file.receiptId = r.receiptId

/-- What the loop knows of the file it works on. -/
def Working (principal : MachinePrincipal) (σ : State pydantic) : Phase pydantic → Prop
  | .idle => True
  | .sent f => f ∈ σ.pending
  | .received f r => f ∈ σ.pending ∧ (principal, f.segment, r) ∈ σ.server.memory.receipts
  | .written f r => f ∈ σ.pending ∧ (principal, f.segment, r) ∈ σ.server.memory.receipts ∧
      σ.receipts.get r.receiptId = some ⟨r.receiptId, r⟩

structure Consistent (env : Env) (settings : IngestionSettings) (principal : MachinePrincipal)
    (t : StreamKey) (k : AttemptKey) (σ : State pydantic) : Prop where
  server : Deployment.Reachable env settings σ.server
  served : Served env settings t k σ.server
  working : Working principal σ σ.phase
  spooled : ∀ f ∈ σ.spooled, f ∈ σ.pending ∨ Filed principal σ f
  standing : ∀ x ∈ σ.committed, x.stream = t → x ∈ σ.server.catalog.manifests
  once : (σ.committed.filter (fun x => decide (x.stream = t))).Nodup

theorem mem_added {x : SegmentManifest} :
    x ∈ added s s' ↔ x ∈ s'.catalog.manifests ∧ x ∉ s.catalog.manifests := by
  rw [added, List.mem_filter, decide_eq_true_eq]
  rfl

theorem get_storeReceipt {receipts : Table ReceiptFile.receiptId} :
    (storeReceipt r receipts).get r.receiptId = some ⟨r.receiptId, r⟩ := by
  have hnone : (receipts.deleteWhere (fun x => x.receiptId = r.receiptId)).get r.receiptId =
      none := by
    refine Table.get_eq_none.mpr (fun y hy hid => ?_)
    have hkept := (Table.mem_deleteWhere.mp hy).2
    simp [hid] at hkept
  have hget : (storeReceipt r receipts).get r.receiptId =
      if r.receiptId = r.receiptId then some ⟨r.receiptId, r⟩
      else (receipts.deleteWhere (fun x => x.receiptId = r.receiptId)).get r.receiptId :=
    Table.get_insert hnone
  rw [hget, if_pos rfl]

theorem storeReceipt_keeps {receipts : Table ReceiptFile.receiptId} {id : Uuid}
    (h : ∃ file ∈ receipts, file.receiptId = id) :
    ∃ file ∈ storeReceipt r receipts, file.receiptId = id := by
  obtain ⟨file, hfile, rfl⟩ := h
  by_cases hid : file.receiptId = r.receiptId
  · exact ⟨_, Table.mem_of_get get_storeReceipt, hid.symm⟩
  · refine ⟨file, Table.mem_insert_of_mem (Table.mem_deleteWhere.mpr ⟨hfile, ?_⟩), rfl⟩
    simpa using hid

theorem landed_keeps {receipts : Table ReceiptFile.receiptId} {landed : Bool} {id : Uuid}
    (h : ∃ file ∈ receipts, file.receiptId = id) :
    ∃ file ∈ (if landed then storeReceipt r receipts else receipts), file.receiptId = id := by
  cases landed with
  | true => exact storeReceipt_keeps h
  | false => exact h

theorem mem_removeFile {g : PendingFile pydantic} (hf : f ∈ σ.pending) (hg : g ∈ σ.pending)
    (hgone : g ∉ (removeFile true f σ).pending) : g = f := by
  by_contra hne
  refine hgone (Table.mem_deleteWhere.mpr ⟨hg, ?_⟩)
  simpa using fun hname => hne (Table.eq_of_key hg hf hname)

theorem ledger_step {e : Ending Failure Reply} {call : Call}
    (h : Deployment.Step env settings s call e s') (hi : Served env settings t k s)
    {committed : List SegmentManifest}
    (hstanding : ∀ x ∈ committed, x.stream = t → x ∈ s.catalog.manifests)
    (honce : (committed.filter (fun x => decide (x.stream = t))).Nodup) :
    (∀ x ∈ added s s' ++ committed, x.stream = t → x ∈ s'.catalog.manifests) ∧
      ((added s s' ++ committed).filter (fun x => decide (x.stream = t))).Nodup := by
  constructor
  · intro x hx hstream
    obtain hx | hx := List.mem_append.mp hx
    · exact (mem_added.mp hx).1
    · have hold := hstanding x hx hstream
      exact Deployment.manifest_kept h hi.live hold (hi.manifests x hold hstream)
  · rw [List.filter_append, List.nodup_append]
    have hrows : s'.catalog.manifests.rows.Nodup :=
      List.Nodup.of_map _ s'.catalog.manifests.nodup
    refine ⟨(hrows.filter _).filter _, honce, fun x hx y hy he => ?_⟩
    obtain ⟨hx, _⟩ := List.mem_filter.mp hx
    obtain ⟨hy, hstream⟩ := List.mem_filter.mp hy
    rw [decide_eq_true_eq] at hstream
    exact (mem_added.mp hx).2 (he ▸ hstanding y hy hstream)

theorem consistent_initial :
    Consistent env settings principal t k (.initial : State pydantic) where
  server := .start
  served := Deployment.served_initial
  working := trivial
  spooled := fun _ hf => nomatch hf
  standing := fun _ hx => nomatch hx
  once := List.nodup_nil

theorem consistent_step (h : Step env settings principal t k σ σ')
    (hc : Consistent env settings principal t k σ) :
    Consistent env settings principal t k σ' := by
  have hidle : ∀ {receipts : Table ReceiptFile.receiptId},
      (∀ id, (∃ file ∈ σ.receipts, file.receiptId = id) →
        ∃ file ∈ receipts, file.receiptId = id) →
      ∀ {phase : Phase pydantic}, Working principal { σ with receipts := receipts } phase →
      Consistent env settings principal t k { σ with receipts := receipts, phase := phase } := by
    intro receipts hkeeps phase hworking
    refine ⟨hc.server, hc.served, ?_, fun f hf => ?_, hc.standing, hc.once⟩
    · cases phase <;> exact hworking
    · obtain hp | ⟨r, hr, hfile⟩ := hc.spooled f hf
      · exact Or.inl hp
      · exact Or.inr ⟨r, hr, hkeeps _ hfile⟩
  cases h with
  | @serve call e s' h hown hlive =>
    have hs := Deployment.sound_of_reachable hc.server
    have hmemory := (Deployment.step_cases h).1
    have hkept : ∀ {y}, y ∈ σ.server.memory.receipts → y ∈ s'.memory.receipts := by
      intro y hy
      rw [hmemory]
      exact Deployment.receipts_kept hy
    obtain ⟨hstanding, honce⟩ := ledger_step h hc.served hc.standing hc.once
    refine ⟨hc.server.step h trivial, Deployment.served_step hs h hown hlive hc.served, ?_,
      fun f hf => ?_, hstanding, honce⟩
    · have hworking := hc.working
      show Working principal _ σ.phase
      cases hphase : σ.phase with
      | idle => trivial
      | sent f =>
        rw [hphase] at hworking
        exact hworking
      | received f r =>
        rw [hphase] at hworking
        exact ⟨hworking.1, hkept hworking.2⟩
      | written f r =>
        rw [hphase] at hworking
        exact ⟨hworking.1, hkept hworking.2.1, hworking.2.2⟩
    · obtain hp | ⟨r, hr, hfile⟩ := hc.spooled f hf
      · exact Or.inl hp
      · exact Or.inr ⟨r, hkept hr, hfile⟩
  | @spool f hfree =>
    have hmem : ∀ {g}, g ∈ σ.pending → g ∈ σ.pending.insert f := Table.mem_insert_of_mem
    refine ⟨hc.server, hc.served, ?_, fun g hg => ?_, hc.standing, hc.once⟩
    · have hworking := hc.working
      show Working principal _ σ.phase
      cases hphase : σ.phase with
      | idle => trivial
      | sent g =>
        rw [hphase] at hworking
        exact hmem hworking
      | received g r =>
        rw [hphase] at hworking
        exact ⟨hmem hworking.1, hworking.2⟩
      | written g r =>
        rw [hphase] at hworking
        exact ⟨hmem hworking.1, hworking.2⟩
    · obtain rfl | hg := List.mem_cons.mp hg
      · exact Or.inl ((Table.mem_insert hfree).mpr (Or.inr rfl))
      · exact (hc.spooled g hg).imp_left hmem
  | send _ hf => exact hidle (fun _ h => h) hf
  | @receive f r hsent hr =>
    have hworking := hc.working
    rw [hsent] at hworking
    exact hidle (fun _ h => h) ⟨hworking, hr⟩
  | @write f r outcome hreceived =>
    have hworking := hc.working
    rw [hreceived] at hworking
    cases outcome with
    | done =>
      exact hidle (fun _ h => storeReceipt_keeps h) ⟨hworking.1, hworking.2, get_storeReceipt⟩
    | error _ landed => exact hidle (fun _ h => landed_keeps h) trivial
    | crash landed _ => exact hidle (fun _ h => landed_keeps h) trivial
  | @remove f r removed hwritten =>
    have hworking := hc.working
    rw [hwritten] at hworking
    obtain ⟨hf, hr, hget⟩ := hworking
    refine ⟨hc.server, hc.served, trivial, fun g hg => ?_, hc.standing, hc.once⟩
    obtain hp | hfiled := hc.spooled g hg
    · cases removed with
      | false => exact Or.inl hp
      | true =>
        by_cases hgone : g ∈ (removeFile true f σ).pending
        · exact Or.inl hgone
        · obtain rfl := mem_removeFile hf hp hgone
          exact Or.inr ⟨r, hr, _, Table.mem_of_get hget, rfl⟩
    · exact Or.inr hfiled
  | fail => exact hidle (fun _ h => h) trivial

theorem consistent_of_reachable (h : Reachable env settings principal t k σ) :
    Consistent env settings principal t k σ := by
  induction h with
  | start => exact consistent_initial
  | step _ hs ih => exact consistent_step hs ih

def ofRange (t : StreamKey) (first last : Nat) (x : SegmentManifest) : Bool :=
  x.stream = t ∧ x.firstSequence = first ∧ x.lastSequence = last

/-- Draining loses nothing and duplicates nothing of the stream. -/
structure Lossless (env : Env) (settings : IngestionSettings) (principal : MachinePrincipal)
    (t : StreamKey) (k : AttemptKey) (σ : State pydantic) : Prop where
  removed : ∀ σ' f, Step env settings principal t k σ σ' → f ∈ σ.pending → f ∉ σ'.pending →
    f.segment.stream principal.tenantId = t → ∃ x ∈ σ.server.catalog.manifests,
      Carries principal f.segment x ∧ ∃ file ∈ σ.receipts,
        file.receiptId = x.receiptId ∧ file.body = receipt x file.body.replayed
  kept : ∀ f ∈ σ.spooled, f.segment.stream principal.tenantId = t → f ∈ σ.pending ∨
    ∃ x ∈ σ.server.catalog.manifests, Carries principal f.segment x ∧
      ∃ file ∈ σ.receipts, file.receiptId = x.receiptId
  once : ∀ first last, (σ.committed.filter (ofRange t first last)).length ≤ 1
  answered : ∀ segment : SegmentUpload, segment.stream principal.tenantId = t →
    (∃ r, (principal, segment, r) ∈ σ.server.memory.receipts) →
    segment.attempt principal.tenantId = k ∧ Acceptable env settings principal segment ∧
      ∃ x ∈ σ.server.catalog.manifests, Carries principal segment x
  replayed : ∀ segment : SegmentUpload, segment.attempt principal.tenantId = k →
    Acceptable env settings principal segment →
    ∀ x ∈ σ.server.catalog.manifests, Carries principal segment x →
    ∀ ticket fresh now e s', Deployment.Step env settings σ.server
      (.admitReserve ticket principal segment fresh now) e s' →
      (e = .died ∨ e = .committed (.admitted (.replay (receipt x true)))) ∧
        Unmoved σ.server s'
  overlapped : ∀ x ∈ σ.server.catalog.manifests, ∀ ticket f,
    Deployment.flightAt σ.server.memory ticket true = some f → Carries f.principal f.segment x →
    ∀ faults freshReceipt freshOutbox committedAt e s', Deployment.Step env settings σ.server
      (.admitCommit ticket faults freshReceipt freshOutbox committedAt) e s' →
      Unmoved σ.server s'

theorem Consistent.answers (hc : Consistent env settings principal t k σ)
    {segment : SegmentUpload} (hstream : segment.stream principal.tenantId = t)
    (hr : (principal, segment, r) ∈ σ.server.memory.receipts) :
    Answers σ.server.catalog principal segment r :=
  ((hc.served.receipts _ hr).2 hstream).2

theorem Consistent.removed (hc : Consistent env settings principal t k σ)
    (h : Step env settings principal t k σ σ') (hf : f ∈ σ.pending) (hgone : f ∉ σ'.pending)
    (hstream : f.segment.stream principal.tenantId = t) :
    ∃ x ∈ σ.server.catalog.manifests, Carries principal f.segment x ∧ ∃ file ∈ σ.receipts,
      file.receiptId = x.receiptId ∧ file.body = receipt x file.body.replayed := by
  cases h with
  | serve _ _ _ => exact absurd hf hgone
  | spool _ => exact absurd (Table.mem_insert_of_mem hf) hgone
  | send _ _ => exact absurd hf hgone
  | receive _ _ => exact absurd hf hgone
  | @write g r outcome _ => cases outcome <;> exact absurd hf hgone
  | @remove g r removed hwritten =>
    have hworking := hc.working
    rw [hwritten] at hworking
    obtain ⟨hg, hr, hget⟩ := hworking
    cases removed with
    | false => exact absurd hf hgone
    | true =>
      obtain rfl := mem_removeFile hg hf hgone
      obtain ⟨x, hx, hreceipt, hcarries⟩ := hc.answers hstream hr
      refine ⟨x, hx, hcarries, _, Table.mem_of_get hget, ?_, hreceipt⟩
      rw [hreceipt]
      rfl
  | fail => exact absurd hf hgone

theorem Consistent.kept (hc : Consistent env settings principal t k σ) (hf : f ∈ σ.spooled)
    (hstream : f.segment.stream principal.tenantId = t) : f ∈ σ.pending ∨
      ∃ x ∈ σ.server.catalog.manifests, Carries principal f.segment x ∧
        ∃ file ∈ σ.receipts, file.receiptId = x.receiptId := by
  obtain hp | ⟨r, hr, file, hfile, hid⟩ := hc.spooled f hf
  · exact Or.inl hp
  · obtain ⟨x, hx, hreceipt, hcarries⟩ := hc.answers hstream hr
    rw [hreceipt] at hid
    exact Or.inr ⟨x, hx, hcarries, file, hfile, hid⟩

theorem length_le_one {α : Type} {xs : List α} (hnodup : xs.Nodup)
    (hsame : ∀ x ∈ xs, ∀ y ∈ xs, x = y) : xs.length ≤ 1 := by
  cases xs with
  | nil => exact Nat.zero_le 1
  | cons x xs =>
    cases xs with
    | nil => exact Nat.le_refl 1
    | cons y xs =>
      have he := hsame x List.mem_cons_self y (List.mem_cons_of_mem x List.mem_cons_self)
      exact absurd (he ▸ List.mem_cons_self) (List.nodup_cons.mp hnodup).1

theorem Consistent.single (hc : Consistent env settings principal t k σ) (first last : Nat) :
    (σ.committed.filter (ofRange t first last)).length ≤ 1 := by
  apply length_le_one
  · have heq : σ.committed.filter (ofRange t first last) =
        (σ.committed.filter (fun x => decide (x.stream = t))).filter (ofRange t first last) := by
      rw [List.filter_filter]
      refine List.filter_congr (fun x _ => ?_)
      by_cases hx : x.stream = t <;> simp [ofRange, hx]
    rw [heq]
    exact hc.once.filter _
  · intro x hx y hy
    obtain ⟨hx, hxrange⟩ := List.mem_filter.mp hx
    obtain ⟨hy, hyrange⟩ := List.mem_filter.mp hy
    simp only [ofRange, decide_eq_true_eq] at hxrange hyrange
    obtain ⟨hxstream, hxfirst, hxlast⟩ := hxrange
    obtain ⟨hystream, hyfirst, hylast⟩ := hyrange
    have hx := hc.standing x hx hxstream
    have hy := hc.standing y hy hystream
    have hxordered := hc.served.ordered x hx
    have hyordered := hc.served.ordered y hy
    refine (Deployment.sound_of_reachable hc.server).catalog.ranges x hx y hy
      (hxstream.trans hystream.symm) ?_ ?_
    · omega
    · omega

/-- Draining through a lossy channel removes a file only after its manifest is committed and
its receipt is written, commits no range twice, and replays what is sent again. -/
theorem drain_lossless (h : Reachable env settings principal t k σ) :
    Lossless env settings principal t k σ := by
  have hc := consistent_of_reachable h
  have hs := Deployment.sound_of_reachable hc.server
  refine ⟨fun σ' f hstep hf hgone hstream => hc.removed hstep hf hgone hstream,
    fun f hf hstream => hc.kept hf hstream, hc.single, ?_, ?_, ?_⟩
  · intro segment hstream ⟨r, hr⟩
    obtain ⟨hacc, howned⟩ := hc.served.receipts _ hr
    obtain ⟨hk, x, hx, _, hcarries⟩ := howned hstream
    exact ⟨hk, hacc, x, hx, hcarries⟩
  · intro segment hk hacc x hx hcarries ticket fresh now e s' hstep
    exact Deployment.redelivered hs (hk ▸ hc.served.live) hacc hx hcarries hstep
  · intro x hx ticket f hf hcarries faults freshReceipt freshOutbox committedAt e s' hstep
    exact Deployment.unmoved_of_commit hstep hf hx hcarries

instance : Decidable (Fenced k s.catalog) :=
  inferInstanceAs (Decidable (∃ g ∈ s.catalog.generations.rows, g.attempt = k ∧ g.deletedAt ≠ none))

/-- Calls the server runs one after the other while the agent waits. -/
def serveAll (env : Env) (settings : IngestionSettings) (k : AttemptKey) :
    List Call → State pydantic → Option (State pydantic)
  | [], σ => some σ
  | call :: calls, σ =>
    match σ.server.run env settings call with
    | none => none
    | some (_, s') =>
      if Fenced k s'.catalog then none
      else serveAll env settings k calls
        { σ with server := s', committed := added σ.server s' ++ σ.committed }

theorem reachable_of_serveAll {calls : List Call} (h : Reachable env settings principal t k σ)
    (hown : ∀ call ∈ calls, Owned t k call) (hs : serveAll env settings k calls σ = some σ') :
    Reachable env settings principal t k σ' ∧
      σ' = { σ with server := σ'.server, committed := σ'.committed } := by
  induction calls generalizing σ with
  | nil =>
    cases hs
    exact ⟨h, rfl⟩
  | cons call calls ih =>
    rw [serveAll] at hs
    split at hs
    · cases hs
    · next e s' hrun =>
      split at hs
      · cases hs
      · next hlive =>
        have hstep := h.step (.serve (.run hrun) (hown call List.mem_cons_self) hlive)
        obtain ⟨hreach, he⟩ := ih hstep (fun c hc => hown c (List.mem_cons_of_mem call hc)) hs
        exact ⟨hreach, he⟩

end Drain

-- The first upload in a file, sent, answered and removed.
namespace Sample

def members : List (String × JsonValue) :=
  [("envelope_major", .number 2), ("cluster_id", .string "c1"), ("attempt_id", .string "a1"),
    ("producer_id", .string "p"), ("transport_epoch", .string "e"), ("stream_id", .string "s"),
    ("first_sequence", .number 0), ("last_sequence", .number 0), ("record_count", .number 1),
    ("deletion_generation", .number 0), ("compression", .string "identity"),
    ("content_type", .string "application/x-ndjson"), ("expanded_size_bytes", .number 3),
    ("payload_sha256", .string digest), ("payload_base64", .string "e30K")]

theorem members_parsed :
    SegmentUpload.modelValidate strict (.object members) = .ok upload₁ := by
  have hcheck : SegmentUpload.checkMembers strict members = .ok (fields "a1") := by decide +kernel
  have hcertified : ∀ (e : Checked SegmentFields) (hv : ∀ f, e = .ok f → f.Valid),
      e = .ok (fields "a1") → SegmentUpload.certified e hv = .ok upload₁ := by
    intro e hv he
    subst he
    rfl
  exact hcertified _ (fun _ h => (SegmentUpload.checkMembers_ok strict h).1) hcheck

def file : Drain.PendingFile strict := ⟨⟨"s", 0, 0⟩, .object members, upload₁, members_parsed⟩

def filed : Drain.State strict :=
  { (Drain.State.initial : Drain.State strict) with
    pending := Table.empty.insert file, phase := .sent file, spooled := [file] }

def stream : StreamKey := upload₁.stream "acme"

/-- The agent has lost the response, and sends the file again. -/
def resent (σ : Drain.State strict) : Drain.State strict := { σ with phase := .sent file }

def redelivery : List Call := [.admitReserve 1 principal upload₁ 5 9]

end Sample

namespace Drain

/-- The first response is lost, and the file is removed after its second delivery. -/
theorem drain_lossless_sample : ∃ σ : State Sample.strict,
    Reachable Sample.env Sample.settings Sample.principal Sample.stream Sample.attempt₁ σ ∧
    σ.pending.rows.length = 0 ∧ σ.committed.length = 1 ∧ σ.server.memory.receipts.length = 2 ∧
    Lossless Sample.env Sample.settings Sample.principal Sample.stream Sample.attempt₁ σ := by
  have hspooled := Reachable.start.step (@Step.spool Sample.strict Sample.env Sample.settings
    Sample.principal Sample.stream Sample.attempt₁ .initial Sample.file rfl)
  have hsent : Reachable Sample.env Sample.settings Sample.principal Sample.stream Sample.attempt₁
      Sample.filed := hspooled.step (.send rfl ((Table.mem_insert rfl).mpr (Or.inr rfl)))
  have h : (serveAll Sample.env Sample.settings Sample.attempt₁ Sample.admission
      Sample.filed).bind (fun σ => (serveAll Sample.env Sample.settings Sample.attempt₁
        Sample.redelivery (Sample.resent σ)).map (fun σ => (σ.committed.length,
          σ.server.memory.receipts.map (fun y => (y.1, y.2.1.toSegmentFields, y.2.2))))) =
      some (1, [true, false].map (fun replayed => (Sample.principal, Sample.fields "a1",
        (⟨2, replayed, segmentKey Sample.env "acme" "c1" Sample.digest, Sample.digest, 4⟩ :
          DurableReceipt)))) := by decide +kernel
  obtain ⟨σ₁, hserved, h⟩ := Option.bind_eq_some_iff.mp h
  obtain ⟨σ, hagain, h⟩ := Option.map_eq_some_iff.mp h
  rw [Prod.mk.injEq] at h
  obtain ⟨hlength, hreceipts⟩ := h
  have hcount := congrArg List.length hreceipts
  rw [List.length_map] at hcount
  have hreplayed := List.mem_map_of_mem (f := fun replayed => (Sample.principal,
    Sample.fields "a1", (⟨2, replayed, segmentKey Sample.env "acme" "c1" Sample.digest,
      Sample.digest, 4⟩ : DurableReceipt))) (List.mem_cons_self (a := true) (l := [false]))
  rw [← hreceipts] at hreplayed
  obtain ⟨⟨p, u, r⟩, hmem, hy⟩ := List.mem_map.mp hreplayed
  simp only [Prod.mk.injEq] at hy
  obtain ⟨rfl, hfields, rfl⟩ := hy
  obtain rfl : u = Sample.upload₁ := Deployment.segmentUpload_ext hfields
  obtain ⟨hr₁, hσ₁⟩ := reachable_of_serveAll hsent (by simp [Sample.admission, Owned]; decide)
    hserved
  have hpending₁ : σ₁.pending = Table.empty.insert Sample.file := by rw [hσ₁]; rfl
  have hresent : Reachable Sample.env Sample.settings Sample.principal Sample.stream
      Sample.attempt₁ (Sample.resent σ₁) := by
    refine (hr₁.step .fail).step (.send rfl ?_)
    show Sample.file ∈ σ₁.pending
    rw [hpending₁]
    exact (Table.mem_insert rfl).mpr (Or.inr rfl)
  obtain ⟨hr, hσ⟩ := reachable_of_serveAll hresent (by simp [Sample.redelivery, Owned]; decide)
    hagain
  have hphase : σ.phase = .sent Sample.file := by rw [hσ]; rfl
  have hpending : σ.pending = Table.empty.insert Sample.file := by rw [hσ]; exact hpending₁
  have hreceived := hr.step (.receive hphase hmem)
  have hwritten := hreceived.step (@Step.write Sample.strict Sample.env Sample.settings
    Sample.principal Sample.stream Sample.attempt₁ _ _ _ .done rfl)
  have hdone := hwritten.step (@Step.remove Sample.strict Sample.env Sample.settings
    Sample.principal Sample.stream Sample.attempt₁ _ _ _ true rfl)
  refine ⟨_, hdone, ?_, hlength, hcount, drain_lossless hdone⟩
  show (σ.pending.deleteWhere (fun g => g.name = Sample.file.name)).rows.length = 0
  rw [hpending]
  rfl

end Drain

end RankLens
