import RankLens.Coverage
import RankLens.Revisions

namespace RankLens

open Interleaving (Ending)
open ReportRevisionWorker (reportDocument inputsOf inputFingerprint newRevision)

namespace Parquet

variable {python : Python} {k k' : AttemptKey} {rows rows' : List NormalizedRow}
  {segments segments' : List ParquetSegment}

theorem length_of_segmentsRows {room : Nat} (h : segmentsRows python k room segments = .ok rows) :
    rows.length = (segments.map ParquetSegment.expectedRecords).sum := by
  induction segments generalizing room rows with
  | nil =>
    cases h
    rfl
  | cons segment segments ih =>
    rw [segmentsRows] at h
    obtain ⟨own, -, h⟩ := except_bind_ok h
    split at h
    · cases h
    · next hcount =>
      obtain ⟨more, hmore, h⟩ := except_bind_ok h
      cases h
      rw [List.length_append, List.map_cons, List.sum_cons, not_not.mp hcount, ih hmore]

theorem attempt_of_row {maxSegments maxRecords maxInputBytes : Nat} {r : NormalizedRow}
    (h : buildNormalizedRows python k segments maxSegments maxRecords maxInputBytes = .ok rows)
    (hr : r ∈ rows) : r.attempt = k := by
  obtain ⟨_, _, _, _, rfl⟩ := projected_of_segmentsRows (buildNormalizedRows_ok h) hr
  rfl

theorem segments_of_rows {maxSegments maxRecords maxInputBytes : Nat}
    (h : buildNormalizedRows python k segments maxSegments maxRecords maxInputBytes = .ok rows) :
    segments ≠ [] := by
  rintro rfl
  rw [buildNormalizedRows, if_pos rfl] at h
  cases h

/-- The attempt column tells whose projection it is, unless that is empty. -/
theorem attempt_of_column {maxSegments maxRecords maxInputBytes maxSegments' maxRecords'
      maxInputBytes' : Nat}
    (h : buildNormalizedRows python k segments maxSegments maxRecords maxInputBytes = .ok rows)
    (h' : buildNormalizedRows python k' segments' maxSegments' maxRecords' maxInputBytes' =
      .ok rows')
    (hpos : ∀ n ∈ segments.map ParquetSegment.expectedRecords, 0 < n)
    (hcolumn : rows.map NormalizedRow.attempt = rows'.map NormalizedRow.attempt) : k = k' := by
  have hsum : 0 < (segments.map ParquetSegment.expectedRecords).sum := by
    obtain ⟨segment, hsegment⟩ := List.exists_mem_of_ne_nil _ (segments_of_rows h)
    have hmem := List.mem_map_of_mem (f := ParquetSegment.expectedRecords) hsegment
    exact lt_of_lt_of_le (hpos _ hmem) (List.single_le_sum (fun _ _ => Nat.zero_le _) _ hmem)
  rw [← length_of_segmentsRows (buildNormalizedRows_ok h)] at hsum
  obtain ⟨r, hr⟩ := List.exists_mem_of_length_pos hsum
  have hmem : r.attempt ∈ rows'.map NormalizedRow.attempt := hcolumn ▸ List.mem_map_of_mem hr
  obtain ⟨r', hr', hsame⟩ := List.mem_map.mp hmem
  rw [← attempt_of_row h hr, ← attempt_of_row h' hr', hsame]

end Parquet

namespace Deployment

variable {env : Env} {settings : IngestionSettings} {m : Memory} {c c' : Catalog}
  {w w' : ObjectStore} {s s' : State} {call : Call} {a : Reply} {e : Ending Failure Reply}
  {k k' : AttemptKey} {key : ObjectKey} {b b' : BuiltReport}

/-- The report on a plan and its Parquet file. -/
def documentOf (env : Env) (p : ReportPlan) (parquet : NormalizedParquet) : Json :=
  reportDocument p (inputFingerprint env p.inputs) (env.sha256 parquet.payload) parquet

/-- What is expected of the parts outside the repository: no two contents have one digest, and
the canonical text of a report and a Parquet file can be read back. -/
structure Legible (env : Env) (python : Python) (write : List NormalizedRow → Bytes) : Prop where
  digests : Function.Injective env.sha256
  documents : ∀ p p' parquet parquet',
    env.dumps (documentOf env p parquet) = env.dumps (documentOf env p' parquet') →
    documentOf env p parquet = documentOf env p' parquet'
  tables : ∀ k segments maxSegments maxRecords maxInputBytes parquet,
    env.buildNormalizedParquet k segments maxSegments maxRecords maxInputBytes = .ok parquet →
    ∃ rows, Parquet.buildNormalizedRows python k segments maxSegments maxRecords maxInputBytes =
      .ok rows ∧ parquet = ⟨write rows, "normalized-record-v2", rows.length⟩
  columns : ∀ rows rows', write rows = write rows' →
    rows.map NormalizedRow.attempt = rows'.map NormalizedRow.attempt

/-- The inputs of a plan all have records. -/
def Stocked (plan : ReportPlan) : Prop := ∀ i ∈ plan.inputs, 0 < i.recordCount

/-- A report as `build` compiles it from the segments of its plan. -/
structure Compiled (env : Env) (b : BuiltReport) : Prop where
  stocked : Stocked b.toReportPlan
  built : b = ReportRevisionWorker.built env b.toReportPlan b.parquet
  parquet : ∃ segments maxSegments maxRecords maxInputBytes,
    segments.map ParquetSegment.expectedRecords = b.inputs.map ReportInput.recordCount ∧
    env.buildNormalizedParquet b.attempt segments maxSegments maxRecords maxInputBytes =
      .ok b.parquet

theorem Compiled.keys (h : Compiled env b) :
    b.objectKey = ReportRevisionWorker.objectKey env b.attempt b.reportDigest .json ∧
      b.parquetKey = ReportRevisionWorker.objectKey env b.attempt b.parquetDigest .parquet := by
  rw [h.built]
  exact ⟨rfl, rfl⟩

def Derives (env : Env) (r : ReportRevision) : Prop :=
  ∃ b number id now, Compiled env b ∧ r = newRevision b number id now

/-- What the reports of a state were made from. -/
structure Traced (env : Env) (s : State) : Prop where
  manifests : ∀ x ∈ s.catalog.manifests, 0 < x.recordCount
  plans : ∀ x ∈ s.memory.reports, Stocked x.2.2.plan
  reports : ∀ b, Filed s.memory b → Compiled env b
  revisions : ∀ r ∈ s.catalog.revisions, Derives env r

theorem readInputs_lists {self : ReportRevisionWorker} {faults : Faults} {items : List ReportInput}
    {total : Nat} : (self.readInputs env faults items total).changes SameCore
      (fun segments => segments.map ParquetSegment.expectedRecords =
        items.map ReportInput.recordCount) := by
  induction items generalizing total with
  | nil =>
    rw [ReportRevisionWorker.readInputs, Txn.changes_pure]
    rfl
  | cons item items ih =>
    simp only [ReportRevisionWorker.readInputs, Txn.changes_bind, changes_readVerified,
      changes_orRaise, Txn.changes_raiseIf, Txn.changes_pure]
    intro _ _ _ _
    refine Txn.changes_mono (fun _ _ h => h) (fun segments h => ?_) ih
    rw [List.map_cons, List.map_cons, h]

theorem build_compiles {self : ReportRevisionWorker} {faults : Faults} {p : ReportPlan}
    (hp : Stocked p) : (self.build env faults p).changes SameCore
      (fun b => b.toReportPlan = p ∧ Compiled env b) := by
  simp only [ReportRevisionWorker.build, Txn.changes_bind]
  refine Txn.changes_mono (fun _ _ h => h) (fun segments hsegments => ?_) readInputs_lists
  split
  · trivial
  · next parquet hparquet => exact ⟨rfl, hp, rfl, _, _, _, _, hsegments, hparquet⟩

theorem compiled_of_build {ticket : Nat} {self : ReportRevisionWorker} {faults : Faults}
    (h : Step env settings s (.reportBuild ticket self faults) (.committed (.built b)) s')
    (ht : Traced env s) : Compiled env b := by
  refine committed_of_wp (Q := fun a _ _ => ∀ b, a = .built b → Compiled env b) h
    (fun t hprogram => ?_) b rfl
  simp only [program] at hprogram
  split at hprogram
  · next plan hplan =>
    cases hprogram
    rw [Txn.wp_map]
    have hstocked : Stocked plan := ht.plans _ (mem_of_lookup hplan)
    refine Txn.wp_post (Txn.wp_of_changes (build_compiles hstocked)
      (fun _ _ _ h h' => h.trans h') (.refl s.catalog) trivial (fun _ => trivial)) ?_
    rintro b _ _ ⟨_, _, _, hcompiled⟩ b' hb'
    cases hb'
    exact hcompiled
  · cases hprogram

theorem stocked_of_read {ticket : Nat} {l : WorkLease} {plan : ReportPlan}
    (h : Step env settings s (.reportRead ticket l) (.committed (.plan (some plan))) s')
    (hp : InPost s) (ht : Traced env s) : Stocked plan := by
  have hread := committed_of_wp (Q := fun a _ _ => ∀ p, a = .plan (some p) →
    p.inputs = inputsOf p.attempt p.generation s.catalog) h
    (fun t hprogram => by
      simp only [program] at hprogram
      split at hprogram <;> cases hprogram
      rw [Txn.wp_map]
      refine Txn.wp_post ReportRevisionWorker.read_spec (fun a _ _ ha p hp => ?_)
      rw [Reply.plan.injEq] at hp
      obtain ⟨_, _, _, hinputs⟩ := ha p hp
      exact hinputs)
  intro i hi
  rw [hread plan rfl, inputsOf, List.mem_filterMap] at hi
  obtain ⟨x, _, hx⟩ := hi
  obtain ⟨n, hn, rfl⟩ := Option.map_eq_some_iff.mp hx
  obtain ⟨y, hy, hnormalizes⟩ := hp.catalog.normalized n (Table.mem_of_get hn)
  exact hnormalizes.records ▸ ht.manifests y hy

theorem traced_manifests (h : AdmissionEffect env m c w call a c')
    (hc : ∀ x ∈ c.manifests, 0 < x.recordCount) : ∀ x ∈ c'.manifests, 0 < x.recordCount := by
  intro x hx
  rcases manifest_origin h hx with hx | ⟨_, _, _, _, _, f, _, _, _, _, _, _, _, _, _, rfl⟩
  · exact hc x hx
  · exact f.segment.valid.records.1

theorem traced_revisions (h : ReportEffect env m c w' call c')
    (hm : ∀ b, Filed m b → Compiled env b) (hc : ∀ r ∈ c.revisions, Derives env r) :
    ∀ r ∈ c'.revisions, Derives env r := by
  intro r hr
  rcases revision_origin h hr with hr | ⟨_, _, b, number, id, now, hb, _, _, _, rfl⟩
  · exact hc r hr
  · exact ⟨b, number, id, now, hm b (filed_of_reportAt (Or.inr hb)), rfl⟩

theorem traced_plans (h : Step env settings s call e s') (hp : InPost s) (ht : Traced env s) :
    ∀ x ∈ s'.memory.reports, Stocked x.2.2.plan := by
  intro x hx
  obtain ⟨hm, _, hstep⟩ := step_cases h
  rw [hm] at hx
  rcases finish_plans hx with ⟨_, hx, hplan⟩ | ⟨plan, rfl, rfl, hstage⟩ |
    ⟨stage, b, hb, rfl, hplan, ⟨_, _, rfl⟩ | ⟨_, _, _, rfl⟩⟩
  · exact hplan ▸ ht.plans _ hx
  · rw [hstage]
    exact stocked_of_read h hp ht
  · rw [hplan]
    exact (compiled_of_build h ht).stocked
  · obtain ⟨a, ha, heff⟩ | ⟨hne, _⟩ := hstep
    · cases ha
      generalize s'.catalog = c', s'.objects = w' at heff
      cases heff with
      | quiet hq => cases hq
      | reportReserve hb' _ =>
        rw [hplan]
        exact (ht.reports b (filed_of_reportAt (Or.inl hb'))).stocked
    · exact absurd rfl (hne _)

theorem traced_reports (h : Step env settings s call e s') (ht : Traced env s) :
    ∀ b, Filed s'.memory b → Compiled env b := by
  intro b hb
  obtain ⟨hm, _, hstep⟩ := step_cases h
  rw [hm] at hb
  rcases finish_reports hb with hb | ⟨_, _, _, rfl, rfl⟩ | ⟨_, _, _, _, rfl, rfl⟩
  · exact ht.reports b hb
  · exact compiled_of_build h ht
  · obtain ⟨a, ha, heff⟩ | ⟨hne, _⟩ := hstep
    · cases ha
      generalize s'.catalog = c', s'.objects = w' at heff
      cases heff with
      | quiet hq => cases hq
      | reportReserve hb' _ => exact ht.reports b (filed_of_reportAt (Or.inl hb'))
    · exact absurd rfl (hne _)

theorem traced_step (h : Step env settings s call e s') (hp : InPost s) (ht : Traced env s) :
    Traced env s' where
  manifests := by
    obtain ⟨_, _, ⟨a, rfl, heff⟩ | ⟨_, hc, _⟩⟩ := step_cases h
    · exact traced_manifests (effect_admission heff) ht.manifests
    · exact hc ▸ ht.manifests
  plans := traced_plans h hp ht
  reports := traced_reports h ht
  revisions := by
    obtain ⟨_, _, ⟨a, rfl, heff⟩ | ⟨_, hc, _⟩⟩ := step_cases h
    · exact traced_revisions (effect_report heff) ht.reports ht.revisions
    · exact hc ▸ ht.revisions

theorem traced_of_reachable (h : Reachable env settings s) : Traced env s := by
  induction h with
  | start =>
    refine ⟨?_, ?_, ?_, ?_⟩
    · exact fun x hx => absurd hx (Table.not_mem_empty x)
    · intro x hx
      cases hx
    · intro b hb
      obtain ⟨_, _, hb | hb⟩ := hb <;> cases hb
    · exact fun r hr => absurd hr (Table.not_mem_empty r)
  | step hr hs _ ih => exact traced_step hs (inPost_of_reachable hr) ih

section digests

variable {python : Python} {write : List NormalizedRow → Bytes}

/-- The digest of a report tells the attempt, which its document names. -/
theorem attempt_of_report (hl : Legible env python write) (hb : Compiled env b)
    (hb' : Compiled env b') (h : b.reportDigest = b'.reportDigest) : b.attempt = b'.attempt := by
  rw [hb.built, hb'.built] at h
  have hpayload := List.append_cancel_right (hl.digests h)
  have hdocument := hl.documents _ _ _ _ hpayload
  simp only [documentOf, reportDocument, Json.object.injEq, List.cons.injEq, Prod.mk.injEq,
    true_and, Json.str.injEq] at hdocument
  obtain ⟨hattempt, hcluster, _, _, _, _, _, _, htenant, _⟩ := hdocument
  cases hk : b.attempt
  cases hk' : b'.attempt
  rw [hk, hk'] at hattempt hcluster htenant
  rw [AttemptKey.mk.injEq]
  exact ⟨htenant, hcluster, hattempt⟩

/-- The digest of the Parquet file tells the attempt, which each of its rows names. -/
theorem attempt_of_parquet (hl : Legible env python write) (hb : Compiled env b)
    (hb' : Compiled env b') (h : b.parquetDigest = b'.parquetDigest) : b.attempt = b'.attempt := by
  rw [hb.built, hb'.built] at h
  obtain ⟨segments, _, _, _, hcounts, hparquet⟩ := hb.parquet
  obtain ⟨segments', _, _, _, _, hparquet'⟩ := hb'.parquet
  obtain ⟨rows, hrows, hfile⟩ := hl.tables _ _ _ _ _ _ hparquet
  obtain ⟨rows', hrows', hfile'⟩ := hl.tables _ _ _ _ _ _ hparquet'
  have hpayload : b.parquet.payload = b'.parquet.payload := hl.digests h
  rw [hfile, hfile'] at hpayload
  refine Parquet.attempt_of_column hrows hrows' ?_ (hl.columns _ _ hpayload)
  rw [hcounts]
  intro n hn
  obtain ⟨i, hi, rfl⟩ := List.mem_map.mp hn
  exact hb.stocked i hi

/-- Reports under one key have one digest, and so are of one attempt. -/
theorem separateReports_of_traced (hl : Legible env python write) (ht : Traced env s) :
    SeparateReports s.catalog := by
  intro r hr r' hr' key h h'
  obtain ⟨b, _, _, _, hb, rfl⟩ := ht.revisions r hr
  obtain ⟨b', _, _, _, hb', rfl⟩ := ht.revisions r' hr'
  have hkeys := hb.keys
  have hkeys' := hb'.keys
  rcases h with h | h <;> rcases h' with h' | h'
  all_goals
    simp only [newRevision, Option.some.injEq] at h h'
    rw [← h'] at h
    simp only [hkeys, hkeys', ReportRevisionWorker.objectKey, ObjectKey.report.injEq, reduceCtorEq,
      and_false, and_true] at h
  · exact attempt_of_report hl hb hb' h.2.2.2
  · exact attempt_of_parquet hl hb hb' h.2.2.2

/-- In every reachable state an erasure keeps to the objects of its attempt. -/
theorem separate_of_reachable (hl : Legible env python write) (h : Reachable env settings s) :
    Separate s.catalog :=
  separate (sound_of_reachable h) (separateReports_of_traced hl (traced_of_reachable h))

end digests

end Deployment

namespace Sample

theorem encodeAttempt_prefixFree : PrefixFree encodeAttempt id := by
  intro k k' t t' h
  simp only [encodeAttempt, List.append_assoc] at h
  obtain ⟨htenant, h⟩ := encodeString_prefixFree _ _ _ _ h
  obtain ⟨hcluster, h⟩ := encodeString_prefixFree _ _ _ _ h
  obtain ⟨hattempt, ht⟩ := encodeString_prefixFree _ _ _ _ h
  refine ⟨?_, ht⟩
  cases k
  cases k'
  rw [id, id, AttemptKey.mk.injEq]
  exact ⟨htenant, hcluster, hattempt⟩

theorem write_columns {rows rows' : List NormalizedRow} (h : write rows = write rows') :
    rows.map NormalizedRow.attempt = rows'.map NormalizedRow.attempt := by
  have hmap := (encodeList_prefixFree encodeAttempt_prefixFree (rows.map NormalizedRow.attempt)
    (rows'.map NormalizedRow.attempt) [] [] (congrArg (fun bytes => bytes ++ []) h)).1
  rwa [List.map_id, List.map_id] at hmap

theorem dumps_documents (p p' : ReportPlan) (parquet parquet' : NormalizedParquet)
    (h : dumps (Deployment.documentOf reporting p parquet) =
      dumps (Deployment.documentOf reporting p' parquet')) :
    Deployment.documentOf reporting p parquet = Deployment.documentOf reporting p' parquet' := by
  simp only [Deployment.documentOf, dumps, reportDocument, encodeReport, encodeList_map,
    Int.toNat_natCast] at h
  obtain ⟨hattempt, h⟩ := encodeAttempt_prefixFree _ _ _ _ h
  obtain ⟨hgeneration, h⟩ := encodeNat_prefixFree _ _ _ _ h
  obtain ⟨hrows, h⟩ := encodeNat_prefixFree _ _ _ _ h
  obtain ⟨hschema, h⟩ := encodeString_prefixFree _ _ _ _ h
  obtain ⟨hdigest, h⟩ := encodeString_prefixFree _ _ _ _ h
  have hsegments := (encodeList_prefixFree encodeDocument_prefixFree p.inputs p'.inputs [] []
    (by rw [h])).1
  simp only [id, AttemptKey.mk.injEq] at hattempt hgeneration hrows hschema hdigest
  have hlength := congrArg List.length hsegments
  rw [List.length_map, List.length_map] at hlength
  simp only [Deployment.documentOf, reportDocument, ReportRevisionWorker.inputFingerprint,
    hattempt.1, hattempt.2.1, hattempt.2.2, hgeneration, hrows, hschema, hdigest, hsegments,
    hlength, Deployment.records_of_documents hsegments]

theorem reporting_legible : Deployment.Legible reporting pythonLines write where
  digests := sha256_injective
  documents := dumps_documents
  tables k segments maxSegments maxRecords maxInputBytes parquet h := by
    cases hrows : Parquet.buildNormalizedRows pythonLines k segments maxSegments maxRecords
        maxInputBytes with
    | error message =>
      simp only [reporting, hrows] at h
      cases h
    | ok rows =>
      simp only [reporting, hrows] at h
      exact ⟨rows, rfl, (Except.ok.inj h).symm⟩
  columns _ _ h := write_columns h

end Sample

end RankLens
