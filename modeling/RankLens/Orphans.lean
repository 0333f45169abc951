import RankLens.Ownership

namespace RankLens

open Interleaving (Ending)
open Integrity (Referenced)
open AttemptDeletionWorker (Cleared Erasable Executing revisionObjects)
open ReportRevisionWorker (Artifact Landing Heading Revising)

namespace Deployment

variable {env : Env} {settings : IngestionSettings} {s s' : State} {call : Call} {a : Reply}
  {e : Ending Failure Reply} {c c' : Catalog} {w w' : ObjectStore} {k : AttemptKey} {key : ObjectKey}

/-- The object is referenced, or a candidate is there to collect it. -/
def Covered (c : Catalog) (key : ObjectKey) : Prop := Referenced c key ∨ Tracked c.candidates key

def Kept (key : ObjectKey) (s : State) : Prop := s.objects key ≠ none → Covered s.catalog key

/-- Something other than the reservations of a sweep refers to the object. -/
inductive ReferencedBeside (rows : List AdmissionReservation) (c : Catalog) (key : ObjectKey) :
    Prop where
  | manifest {x : SegmentManifest} (hx : x ∈ c.manifests) (hkey : x.objectKey = key)
  | reservation {x : AdmissionReservation} (hx : x ∈ c.reservations) (hkey : x.objectKey = key)
      (hr : x.refers = true) (hrows : x ∉ rows)
  | report {x : ReportRevision} (hx : x ∈ c.revisions) (hkey : x.reportObjectKey = key)
  | parquet {x : ReportRevision} (hx : x ∈ c.revisions) (hkey : x.parquetObjectKey = some key)

/-- The step leaves no orphan under the key: a put that lands finds it covered, a
sweep finds no spent candidate for it, and an erasure accounts for the
reservations of its attempt. -/
def CleanAt (key : ObjectKey) (s : State) (call : Call) (e : Ending Failure Reply) : Prop :=
  match call, e with
  | .admitPut ticket faults, _ => ∀ f, flightAt s.memory ticket false = some f →
      f.prepared.objectKey = key → faults.lands key = true → Covered s.catalog key
  | .reportPublish .., .committed _ => True
  | .reportPublish ticket _ faults .., _ => ∀ lease b digest,
      reportAt s.memory ticket = some (lease, .reserved b) → Landing b faults key digest →
      Covered s.catalog key
  | .reservationSweep self now skip _ _, .committed _ =>
      ∀ r ∈ self.due now skip s.catalog, r.objectKey = key → s.objects key ≠ none →
        (∀ g ∈ s.catalog.candidates, g.objectKey = key → g.state.live = true) ∨
          ReferencedBeside (self.due now skip s.catalog) s.catalog key
  | .deletionExecute l _ _, .committed _ => Cleared l s.catalog →
      ∀ r ∈ s.catalog.reservations, r.attempt = l.attempt → r.objectKey = key → r.refers = true →
        s.objects key ≠ none →
        Tracked s.catalog.candidates key ∨ (∃ k ≠ l.attempt, ObjectOf k s.catalog key) ∨
          ∃ x ∈ s.catalog.manifests, x.attempt = l.attempt ∧ x.objectKey = key
  | _, _ => True

section covered

theorem Covered.mono (h : Covered c key) (hm : ∀ x ∈ c.manifests, x ∈ c'.manifests)
    (hres : ∀ r ∈ c.reservations, r.refers = true →
      ∃ r' ∈ c'.reservations, r'.objectKey = r.objectKey ∧ r'.refers = true)
    (hrev : ∀ r ∈ c.revisions, r ∈ c'.revisions)
    (ht : Tracked c.candidates key → Tracked c'.candidates key) : Covered c' key := by
  rcases h with h | h
  · refine Or.inl ?_
    cases h with
    | manifest hx hk => exact .manifest (hm _ hx) hk
    | reservation hx hk hr =>
      obtain ⟨r', hr', hkey, href⟩ := hres _ hx hr
      exact .reservation hr' (hkey.trans hk) href
    | report hx hk => exact .report (hrev _ hx) hk
    | parquet hx hk => exact .parquet (hrev _ hx) hk
  · exact Or.inr (ht h)

theorem Covered.candidates (h : Covered c key) (hm : c'.manifests = c.manifests)
    (hres : c'.reservations = c.reservations) (hrev : c'.revisions = c.revisions)
    (ht : Tracked c.candidates key → Tracked c'.candidates key) : Covered c' key :=
  h.mono (fun _ hx => hm ▸ hx) (fun r hr href => ⟨r, hres ▸ hr, rfl, href⟩) (fun _ hr => hrev ▸ hr) ht

theorem Covered.same (h : Covered c key) (hm : c'.manifests = c.manifests)
    (hres : c'.reservations = c.reservations) (hrev : c'.revisions = c.revisions)
    (ht : c'.candidates = c.candidates) : Covered c' key :=
  h.candidates hm hres hrev (fun h => ht ▸ h)

theorem reserved_covered {principal : MachinePrincipal} {segment : SegmentUpload} {fresh : Uuid}
    {now : Instant} {r : IngestionService.Admitted}
    (h : IngestionService.Reserved env principal segment fresh now c r c') (hc : Covered c key) :
    Covered c' key := by
  cases h with
  | replay => exact hc.same rfl rfl rfl rfl
  | reuse => exact hc.same rfl rfl rfl rfl
  | fresh _ _ _ hold _ ht =>
    refine hc.mono (fun _ hx => hx) (fun x hx href => ⟨x, (ht x).mpr (Or.inl ⟨hx, ?_⟩), rfl, href⟩)
      (fun _ hx => hx) id
    by_contra hsame
    rw [hold x hx (by simpa using hsame)] at href
    cases href

theorem commitReservation_refers {f : IngestionService.Flight} {x : AdmissionReservation}
    (hx : x ∈ c.reservations) (href : x.refers = true) :
    ∃ r ∈ IngestionService.commitReservation f c, r.objectKey = x.objectKey ∧ r.refers = true := by
  by_cases hid : x.reservationId = f.reservationId
  · exact ⟨IngestionService.setState .committed x, Table.mem_modify.mpr (Or.inr ⟨x, hx, hid, rfl⟩),
      rfl, rfl⟩
  · exact ⟨x, Table.mem_modify.mpr (Or.inl ⟨hx, hid⟩), rfl, href⟩

theorem committed_covered {f : IngestionService.Flight} {fresh : Uuid} {committedAt : Instant}
    {r : DurableReceipt} (h : IngestionService.Committed env f fresh committedAt c w r c')
    (hc : Covered c key) : Covered c' key := by
  cases h with
  | replay =>
    exact hc.mono (fun _ hx => hx) (fun _ hx href => commitReservation_refers hx href)
      (fun _ hx => hx) id
  | fresh _ _ _ _ _ _ =>
    exact hc.mono (fun _ hx => Table.mem_insert_of_mem hx)
      (fun _ hx href => commitReservation_refers hx href) (fun _ hx => hx) id

theorem collecting_kept (h : ObjectGcWorker.Collecting c w c' w') (hw : w' key ≠ none)
    (hc : Covered c key) : Covered c' key := by
  cases h with
  | idle => exact hc
  | guarded _ ht => exact hc.candidates rfl rfl rfl (fun h => ht.tracked rfl h)
  | failed _ hs ht _ =>
    refine hc.candidates rfl rfl rfl (fun h => ht.tracked ?_ h)
    rcases hs with rfl | rfl <;> rfl
  | collected _ _ ht _ hnone =>
    exact hc.candidates rfl rfl rfl (fun h => ht.tracked_of_ne (fun hk => hw (hk ▸ hnone)) h)

theorem heading_revisions {b : BuiltReport} {revisions : Table ReportRevision.revisionId}
    {heads : Table ReportHead.attempt} (h : Heading b c revisions heads) :
    ∀ r ∈ c.revisions, r ∈ revisions := by
  cases h with
  | current => exact fun _ hr => hr
  | advanced _ hr _ =>
    cases hr with
    | added => exact fun _ hr => Table.mem_insert_of_mem hr
    | existing => exact fun _ hr => hr

theorem publishing_covered {lease : WorkLease} {b : BuiltReport} {faults : Faults}
    (h : ReportRevisionWorker.Publishing env lease b faults c w c' w') (hc : Covered c key) :
    Covered c' key := by
  cases h with
  | aside => exact hc.same rfl rfl rfl rfl
  | published _ _ _ _ _ hreserved hprotected hheads _ _ _ =>
    refine hc.mono (fun _ hx => hx) (fun r hr href => ⟨r, hr, rfl, href⟩)
      (heading_revisions hheads) (fun h => ?_)
    exact ReportRevisionWorker.protected_tracked hprotected
      ((ReportRevisionWorker.ensured_tracked hreserved).1 key h)

theorem publishing_artifact {lease : WorkLease} {b : BuiltReport} {faults : Faults}
    (h : ReportRevisionWorker.Publishing env lease b faults c w c' w') (hw : w key = none)
    (hw' : w' key ≠ none) : Covered c' key := by
  cases h with
  | aside => exact absurd hw hw'
  | published _ _ hstore _ _ hreserved hprotected =>
    rcases hstore key with h | ⟨_, digest, ⟨hart, _⟩, _⟩
    · exact absurd (h.trans hw) hw'
    · refine Or.inr (ReportRevisionWorker.protected_tracked hprotected ?_)
      exact (ReportRevisionWorker.ensured_tracked hreserved).2 (key, digest)
        ((List.mem_insertionSort _).mpr hart)

theorem sweeping_covered {self : ReservationSweeper} {fresh : Uuid → Uuid} {clock : Uuid → Instant}
    {rows : List AdmissionReservation} (h : self.Sweeping fresh clock rows c c')
    (hclean : ∀ r ∈ rows, r.objectKey = key →
      (∀ g ∈ c.candidates, g.objectKey = key → g.state.live = true) ∨ ReferencedBeside rows c key)
    (hc : Covered c key) : Covered c' key := by
  obtain ⟨hsame, _⟩ := h.others_same
  obtain ⟨hkeep, hall, hnew⟩ := h.candidates
  have hm : c'.manifests = c.manifests := by rw [hsame]
  have hrev : c'.revisions = c.revisions := by rw [hsame]
  have hbeside : ReferencedBeside rows c key → Covered c' key := by
    intro href
    refine Or.inl ?_
    cases href with
    | manifest hx hkey => exact .manifest (hm ▸ hx) hkey
    | reservation hx hkey hr hrows => exact .reservation ((h.reservations _).mpr (Or.inl ⟨hx, hrows⟩)) hkey hr
    | report hx hkey => exact .report (hrev ▸ hx) hkey
    | parquet hx hkey => exact .parquet (hrev ▸ hx) hkey
  rcases hc with hc | ⟨g, hg, hk, hs⟩
  · cases hc with
    | manifest hx hkey => exact hbeside (.manifest hx hkey)
    | @reservation r hx hkey hr =>
      by_cases hrow : r ∈ rows
      · rcases hclean r hrow hkey with hlive | href
        · obtain ⟨g, hg, hgk⟩ := hall r hrow
          refine Or.inr ⟨g, hg, hgk.trans hkey, ?_⟩
          rcases hnew g hg with hold | ⟨hs, _⟩
          · exact hlive g hold (hgk.trans hkey)
          · rw [hs]
            rfl
        · exact hbeside href
      · exact hbeside (.reservation hx hkey hr hrow)
    | report hx hkey => exact hbeside (.report hx hkey)
    | parquet hx hkey => exact hbeside (.parquet hx hkey)
  · exact Or.inr ⟨g, hkeep g hg, hk, hs⟩

theorem mem_revisionObjects (hs : Sound env s) (hsha : ∀ p, env.sha256 p ≠ "") {r : ReportRevision}
    (hr : r ∈ s.catalog.revisions) (hkey : r.reportObjectKey = key ∨ r.parquetObjectKey = some key) :
    ∃ digest, (key, digest) ∈ revisionObjects r := by
  rcases hkey with rfl | hkey
  · exact ⟨_, List.mem_cons_self⟩
  · obtain ⟨payload, hd, _⟩ := (hs.revisions r hr).parquet
    refine ⟨env.sha256 payload, List.mem_cons_of_mem _ ?_⟩
    rw [hkey, hd]
    dsimp only
    rw [if_neg (hsha payload)]
    exact List.mem_singleton_self _

theorem executing_covered (hs : Sound env s)
    (hsha : ∀ p, env.sha256 p ≠ "") {l : DeletionLease} {now : Instant} {done : Bool}
    (h : Executing l now s.catalog s.objects done c' w')
    (hclean : ∀ faults, CleanAt key s (.deletionExecute l faults now) (.committed (.erased done)))
    (hw : w' key ≠ none) (hc : Covered s.catalog key) : Covered c' key := by
  cases h with
  | stale => exact hc
  | heldBack => exact hc.same rfl rfl rfl rfl
  | @erased d g found rows c₁ w₁ hget hcur hfree hgen hfenced hg hrows hdel hnone =>
    have hcleared : Cleared l s.catalog := ⟨⟨d, hget, hcur⟩, hfree, g, hgen, hfenced, hg⟩
    have hstay : ¬Erasable l.attempt s.catalog key := fun he => hw (hnone key he)
    have hstored : s.objects key ≠ none := by
      intro hn
      rcases hdel key with h | h
      · exact hw (h.trans hn)
      · exact hw h.2
    have htracked : Tracked s.catalog.candidates key → Covered c₁ key := by
      intro ⟨x, hx, hk, hl⟩
      exact Or.inr ⟨x, (hrows.candidates x).mpr ⟨hx, hk ▸ hstay⟩, hk, hl⟩
    have hother : ∀ k, k ≠ l.attempt → ObjectOf k s.catalog key → Covered c₁ key := by
      intro k hne ho
      refine Or.inl ?_
      cases ho with
      | manifest hx hk hkey => exact .manifest ((hrows.manifests _).mpr ⟨hx, hk ▸ hne⟩) hkey
      | reservation hx hk hkey hr =>
        exact .reservation ((hrows.reservations _).mpr ⟨hx, hk ▸ hne⟩) hkey hr
      | report hx hk hkey => exact .report ((hrows.revisions _).mpr ⟨hx, hk ▸ hne⟩) hkey
      | parquet hx hk hkey => exact .parquet ((hrows.revisions _).mpr ⟨hx, hk ▸ hne⟩) hkey
    -- a segment of the attempt that stays is shared with another one
    have hsegment : ∀ x ∈ s.catalog.manifests, x.attempt = l.attempt → x.objectKey = key →
        Covered c₁ key := by
      intro x hx hk hkey
      by_contra hn
      refine hstay (.segment hx hk hkey (fun y hy hyk => ?_) (fun y hy hyk hr => ?_))
      · by_contra hne
        exact hn (hother _ hne (.manifest hy rfl hyk))
      · by_contra hne
        exact hn (hother _ hne (.reservation hy rfl hyk hr))
    suffices hcov : Covered c₁ key from hcov.same rfl rfl rfl rfl
    rcases hc with hc | hc
    · obtain ⟨k, ho⟩ := referenced_iff.mp hc
      by_cases hne : k = l.attempt
      · subst hne
        cases ho with
        | manifest hx hk hkey => exact hsegment _ hx hk hkey
        | reservation hx hk hkey hr =>
          rcases hclean Faults.none hcleared _ hx hk hkey hr hstored with
            ht | ⟨k, hne, ho⟩ | ⟨x, hx, hxk, hxkey⟩
          · exact htracked ht
          · exact hother k hne ho
          · exact hsegment x hx hxk hxkey
        | report hx hk hkey =>
          obtain ⟨digest, hmem⟩ := mem_revisionObjects hs hsha hx (Or.inl hkey)
          exact absurd (.report hx hk hmem) hstay
        | parquet hx hk hkey =>
          obtain ⟨digest, hmem⟩ := mem_revisionObjects hs hsha hx (Or.inr hkey)
          exact absurd (.report hx hk hmem) hstay
      · exact hother k hne ho
    · exact htracked hc

theorem auditing_covered {rows : List ObjectGcCandidate}
    (h : Txn.Chain (fun g c c' => g ∈ c.candidates ∧ ObjectGcAuditWorker.Auditing w g c c') rows c c')
    (hw : w key ≠ none) (hc : Covered c key) : Covered c' key := by
  obtain ⟨hsame, _⟩ := ObjectGcAuditWorker.audits_others_same h
  refine hc.candidates (by rw [hsame]) (by rw [hsame]) (by rw [hsame]) ?_
  exact ObjectGcAuditWorker.audits_tracked h hw

theorem importing_covered {b : TombstoneBundle} {actor : String}
    (h : Recovery.Importing actor b c c') (hc : Covered c key) : Covered c' key := by
  have hsame := importing_others_same h
  exact hc.same (by rw [hsame]) (by rw [hsame]) (by rw [hsame]) (by rw [hsame])

end covered

theorem touches_kept (ht : Touches env s.memory s.catalog s.objects call w')
    (hclean : CleanAt key s call e) (hne : ∀ a, e ≠ .committed a) (hk : Kept key s)
    (hw : w' key ≠ none) : Covered s.catalog key := by
  by_cases hs : s.objects key = none
  · cases call with
    | admitPut ticket faults =>
      obtain ⟨f, hf, hput⟩ := ht
      obtain ⟨hkey, hl⟩ := (hput.none_or hs).resolve_left hw
      exact hclean f hf hkey.symm (hkey ▸ hl)
    | reportPublish ticket self faults fresh freshRevision now =>
      obtain ⟨lease, b, hb, hstores⟩ := ht
      obtain h | ⟨_, digest, hlands, _⟩ := hstores key
      · exact absurd (h.trans hs) hw
      · cases e with
        | committed a => exact absurd rfl (hne a)
        | raised f => exact hclean lease b digest hb hlands
        | died => exact hclean lease b digest hb hlands
    | objectGc faults now skip =>
      obtain h | h := ht key
      · exact absurd (h.trans hs) hw
      · exact absurd h.2 hw
    | deletionExecute l faults now =>
      obtain h | h := ht key
      · exact absurd (h.trans hs) hw
      · exact absurd h.2 hw
    | _ =>
      obtain rfl : w' = s.objects := ht
      exact absurd hs hw
  · exact hk hs

theorem kept_step (hsha : ∀ l faults now, call = .deletionExecute l faults now →
    ∀ p, env.sha256 p ≠ "") (h : Step env settings s call e s') (hs : Sound env s)
    (hclean : CleanAt key s call e) (hk : Kept key s) : Kept key s' := by
  intro hw
  obtain ⟨_, ht, ⟨a, rfl, heff⟩ | ⟨hne, hc, _⟩⟩ := step_cases h
  · have hold : s'.objects = s.objects → Covered s.catalog key := fun he => hk (he ▸ hw)
    generalize s'.catalog = c', s'.objects = w' at heff ht hw hold
    cases heff with
    | quiet _ h =>
      exact (hold rfl).same h.manifests h.reservations h.revisions h.candidates
    | admitReserve _ h => exact reserved_covered h (hold rfl)
    | @admitPut ticket faults f _ hf h =>
      by_cases hn : s.objects key = none
      · obtain ⟨hkey, hl⟩ := (h.none_or hn).resolve_left hw
        exact hclean f hf hkey.symm (hkey ▸ hl)
      · exact hk hn
    | admitCommit _ h => exact committed_covered h (hold rfl)
    | deleteAttempt h => cases h <;> exact (hold rfl).same rfl rfl rfl rfl
    | retentionDelete h => cases h <;> exact (hold rfl).same rfl rfl rfl rfl
    | placeAttemptHold h => cases h <;> exact (hold rfl).same rfl rfl rfl rfl
    | releaseAttemptHold h => cases h <;> exact (hold rfl).same rfl rfl rfl rfl
    | reservationSweep h =>
      have hw₀ : s.objects key ≠ none := hw
      exact sweeping_covered h (fun r hr hkey => hclean r hr hkey hw₀) (hold rfl)
    | objectGc h =>
      have hn : s.objects key ≠ none := by
        intro hn
        obtain he | he := ht key
        · exact hw (he.trans hn)
        · exact hw he.2
      exact collecting_kept h hw (hk hn)
    | objectGcAudit h => exact auditing_covered h hw (hold rfl)
    | reportBuild h => exact (hold rfl).same h.manifests h.reservations h.revisions h.candidates
    | reportReserve _ h =>
      obtain ⟨t, issued, ht, _, rfl⟩ := h
      exact (hold rfl).candidates rfl rfl rfl
        ((ReportRevisionWorker.ensured_tracked ht).1 key)
    | reportPublish _ h =>
      by_cases hn : s.objects key = none
      · exact publishing_artifact h hn hw
      · exact publishing_covered h (hk hn)
    | deletionClaim h => cases h <;> exact (hold rfl).same rfl rfl rfl rfl
    | deletionExecute h =>
      have hn : s.objects key ≠ none := by
        intro hn
        obtain he | he := ht key
        · exact hw (he.trans hn)
        · exact hw he.2
      exact executing_covered hs (hsha _ _ _ rfl) h (fun _ => hclean) hw (hk hn)
    | deletionFail h => cases h <;> exact (hold rfl).same rfl rfl rfl rfl
    | applyCompletedTombstones h => exact importing_covered h (hold rfl)
  · rw [hc]
    exact touches_kept ht hclean hne hk hw

theorem kept_of_run {P : State → Call → Ending Failure Reply → Prop}
    (hP : ∀ s call e, P s call e → CleanAt key s call e)
    (hsha : ∀ s l faults now e, P s (.deletionExecute l faults now) e → ∀ p, env.sha256 p ≠ "")
    (h : RunWhere env settings P .initial s) : Kept key s := by
  induction h with
  | start => exact fun hw => absurd rfl hw
  | @step s s' call e hr hs hp ih =>
    have hsound := sound_of_reachable (run_of_runWhere env settings hr)
    refine kept_step (fun l faults now hcall => ?_) hs hsound (hP s call e hp) ih
    subst hcall
    exact hsha s l faults now e hp

section oneEach

theorem expiring_oneEach {self : ReservationSweeper} {fresh : Uuid → Uuid} {clock : Uuid → Instant}
    {r : AdmissionReservation} (h : self.Expiring fresh clock r c c') (hc : OneEach c.candidates) :
    OneEach c'.candidates := by
  cases h with
  | known => exact hc
  | handed hnone _ hnew =>
    intro g hg g' hg' hkey
    rcases (Table.mem_insert hnew).mp hg with hg | hg
    · rcases (Table.mem_insert hnew).mp hg' with hg' | hg'
      · exact hc g hg g' hg' hkey
      · rw [hg'] at hkey
        exact absurd hkey (hnone g hg)
    · rcases (Table.mem_insert hnew).mp hg' with hg' | hg'
      · rw [hg] at hkey
        exact absurd hkey.symm (hnone g' hg')
      · rw [hg, hg']

theorem sweeping_oneEach {self : ReservationSweeper} {fresh : Uuid → Uuid} {clock : Uuid → Instant}
    {rows : List AdmissionReservation} (h : self.Sweeping fresh clock rows c c')
    (hc : OneEach c.candidates) : OneEach c'.candidates :=
  Txn.Chain.preserves (P := fun c => OneEach c.candidates) h.2
    (fun _ _ _ _ hr hc => expiring_oneEach hr.2 hc) hc

theorem effect_oneEach {m : Memory} (h : Effect env m c w call a c' w') (hc : OneEach c.candidates) :
    OneEach c'.candidates := by
  cases h with
  | quiet _ h => exact h.candidates ▸ hc
  | admitReserve _ h => cases h <;> exact hc
  | admitPut => exact hc
  | admitCommit _ h => cases h <;> exact hc
  | deleteAttempt h => cases h <;> exact hc
  | retentionDelete h => cases h <;> exact hc
  | placeAttemptHold h => cases h <;> exact hc
  | releaseAttemptHold h => cases h <;> exact hc
  | reservationSweep h => exact sweeping_oneEach h hc
  | objectGc h =>
    cases h with
    | idle => exact hc
    | guarded _ ht => exact ht.oneEach hc
    | failed _ _ ht _ => exact ht.oneEach hc
    | collected _ _ ht _ _ => exact ht.oneEach hc
  | objectGcAudit h => exact ObjectGcAuditWorker.audits_oneEach h hc
  | reportBuild h => exact h.candidates ▸ hc
  | reportReserve _ h =>
    obtain ⟨t, issued, ht, _, rfl⟩ := h
    exact ReportRevisionWorker.ensured_oneEach ht hc
  | reportPublish _ h =>
    cases h with
    | aside => exact hc
    | published _ _ _ _ _ hreserved hprotected _ _ _ _ =>
      exact ReportRevisionWorker.protected_oneEach hprotected
        (ReportRevisionWorker.ensured_oneEach hreserved hc)
  | deletionClaim h => cases h <;> exact hc
  | deletionExecute h =>
    cases h with
    | stale => exact hc
    | heldBack => exact hc
    | erased _ _ _ _ _ _ hrows =>
      intro g hg g' hg'
      exact hc g ((hrows.candidates g).mp hg).1 g' ((hrows.candidates g').mp hg').1
  | deletionFail h => cases h <;> exact hc
  | applyCompletedTombstones h =>
    have ht : c'.candidates = c.candidates := by rw [importing_others_same h]
    exact ht ▸ hc

theorem oneEach_of_reachable (h : Reachable env settings s) : OneEach s.catalog.candidates := by
  induction h with
  | start => exact fun g hg => absurd hg (Table.not_mem_empty g)
  | step _ hs _ ih =>
    obtain ⟨_, _, ⟨a, rfl, heff⟩ | ⟨_, hc, _⟩⟩ := step_cases hs
    · exact effect_oneEach heff ih
    · exact hc ▸ ih

end oneEach

end Deployment

end RankLens
