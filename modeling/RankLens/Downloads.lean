import RankLens.Durability
import RankLens.Provenance

namespace RankLens

open Interleaving (Ending)

/-- `HTTPException`: its status and the code in its detail. -/
structure HttpError where
  statusCode : Nat
  code : String
deriving DecidableEq, Repr

inductive ArtifactKind where
  | report
  | parquet
deriving DecidableEq, Repr

structure EvidenceDownloadAudit where
  downloadId : Uuid
  tenantId : String
  clusterId : String
  attemptId : String
  revisionId : Uuid
  revisionNumber : Nat
  artifactKind : ArtifactKind
  payloadSha256 : String
  payloadBytes : Nat
  downloadedByCredentialId : String
  downloadedAt : Instant
deriving DecidableEq, Repr

def EvidenceDownloadAudit.attempt (a : EvidenceDownloadAudit) : AttemptKey :=
  ⟨a.tenantId, a.clusterId, a.attemptId⟩

abbrev Audits := Table EvidenceDownloadAudit.downloadId

namespace LocalObjectStore

inductive BoundedError where
  | value (message : String)
  | integrity (message : String)
  | sizeLimit (message : String)
deriving DecidableEq, Repr

/-- The reads of the descriptor until the end of the file or the limit. `os.read` may return fewer
bytes than it is asked for, but at least one while there are any. -/
def readChunks (short : Nat → Nat) (rest : Bytes) (remaining : Nat) : Nat → Bytes
  | 0 => []
  | fuel + 1 =>
    if remaining = 0 then []
    else
      let chunk := rest.take (max 1 (min (short fuel) (min (1024 * 1024) remaining)))
      if chunk = [] then []
      else chunk ++ readChunks short (rest.drop chunk.length) (remaining - chunk.length) fuel

def readVerifiedBounded (env : Env) (faults : Faults) (short : Nat → Nat) (key : ObjectKey)
    (sha256 : String) (maxBytes : Nat) (objects : ObjectStore) : Except BoundedError Bytes :=
  if maxBytes < 1 then .error (.value "max_bytes must be positive")
  else
    match objects key with
    | none => .error (.integrity "cannot read object: no such file")
    | some content =>
      match faults.read key with
      | some e => .error (.integrity ("cannot read object: " ++ e))
      | none =>
        if maxBytes < content.length then
          .error (.sizeLimit "stored object exceeds the read limit")
        else
          let payload := readChunks short content (maxBytes + 1) (maxBytes + 1)
          if maxBytes < payload.length then
            .error (.sizeLimit "stored object exceeds the read limit")
          else if env.sha256 payload ≠ sha256 then
            .error (.integrity "stored object failed checksum verification")
          else .ok payload

theorem readChunks_eq {short : Nat → Nat} {rest : Bytes} {remaining fuel : Nat}
    (h : remaining ≤ fuel) : readChunks short rest remaining fuel = rest.take remaining := by
  induction fuel generalizing rest remaining with
  | zero =>
    obtain rfl := Nat.le_zero.mp h
    rfl
  | succ fuel ih =>
    rw [readChunks]
    split
    · next hzero => rw [hzero, List.take_zero]
    · next hpos =>
      dsimp only
      generalize hsize : max 1 (min (short fuel) (min (1024 * 1024) remaining)) = size
      have small : size ≤ remaining := by omega
      split
      · next hnil =>
        obtain hzero | hrest := List.take_eq_nil_iff.mp hnil
        · omega
        · rw [hrest, List.take_nil]
      · next hsome =>
        have some : 1 ≤ (rest.take size).length := List.length_pos_of_ne_nil hsome
        rw [ih (by omega), List.length_take]
        obtain hlong | hshort := le_total size rest.length
        · rw [min_eq_left hlong, ← List.take_add]
          congr 1
          omega
        · rw [min_eq_right hshort, List.drop_length, List.take_nil, List.append_nil,
            List.take_of_length_le hshort, List.take_of_length_le (hshort.trans small)]

theorem readVerifiedBounded_eq {env : Env} {faults : Faults} {short : Nat → Nat} {key : ObjectKey}
    {sha256 : String} {maxBytes : Nat} {objects : ObjectStore} {content : Bytes}
    (hmax : 1 ≤ maxBytes) (hobject : objects key = some content)
    (hfault : faults.read key = none) (hdigest : env.sha256 content = sha256) :
    readVerifiedBounded env faults short key sha256 maxBytes objects =
      if maxBytes < content.length then .error (.sizeLimit "stored object exceeds the read limit")
      else .ok content := by
  rw [readVerifiedBounded, if_neg (by omega), hobject]
  simp only [hfault]
  split
  · rfl
  · next hsize =>
    have whole : readChunks short content (maxBytes + 1) (maxBytes + 1) = content := by
      rw [readChunks_eq le_rfl, List.take_of_length_le (by omega)]
    simp only [whole, hsize, if_false, hdigest, ne_eq, not_true_eq_false]

theorem readVerifiedBounded_ok {env : Env} {faults : Faults} {short : Nat → Nat} {key : ObjectKey}
    {sha256 : String} {maxBytes : Nat} {objects : ObjectStore} {payload : Bytes}
    (h : readVerifiedBounded env faults short key sha256 maxBytes objects = .ok payload) :
    env.sha256 payload = sha256 ∧ payload.length ≤ maxBytes := by
  unfold readVerifiedBounded at h
  split at h
  · cases h
  · split at h
    · cases h
    · split at h
      · cases h
      · split at h
        · cases h
        · dsimp only at h
          split at h
          · cases h
          · next hsize =>
            split at h
            · cases h
            · next hdigest =>
              cases h
              exact ⟨not_not.mp hdigest, not_lt.mp hsize⟩

end LocalObjectStore

namespace Api

open LocalObjectStore (readVerifiedBounded)

def clusterNotFound : HttpError := ⟨404, "cluster_not_found"⟩

def reportNotFound : HttpError := ⟨404, "report_not_found"⟩

def revisionFilter (k : AttemptKey) (generation : Nat) (head : ReportHead)
    (revisionNumber : Option Nat) (r : ReportRevision) : Bool :=
  r.attempt = k && r.deletionGeneration = generation &&
    match revisionNumber with
    | none => r.revisionId = head.revisionId
    | some n => r.revisionNumber = n

def resolveReportRevision (k : AttemptKey) (revisionNumber : Option Nat) (c : Catalog) :
    Except HttpError (ReportRevision × ReportHead) :=
  match c.generations.get k, c.heads.get k with
  | some generation, some head =>
    if generation.deletedAt ≠ none ∨ head.deletionGeneration ≠ generation.generation then
      .error reportNotFound
    else
      match (c.revisions.select
        (revisionFilter k generation.generation head revisionNumber)).head? with
      | none => .error reportNotFound
      | some revision => .ok (revision, head)
  | _, _ => .error reportNotFound

/-- A request for an artifact that the contract of the endpoint accepts, with its principal. -/
structure ArtifactRequest where
  principal : MachinePrincipal
  clusterId : String
  attemptId : String
  artifactKind : ArtifactKind
  revisionNumber : Option Nat
deriving DecidableEq, Repr

def ArtifactRequest.attempt (q : ArtifactRequest) : AttemptKey :=
  ⟨q.principal.tenantId, q.clusterId, q.attemptId⟩

/-- The response, by its content and what its headers are made of. -/
structure ArtifactResponse where
  content : Bytes
  mediaType : String
  filename : String
  digest : String
  downloadId : Uuid
deriving DecidableEq, Repr

def ArtifactKind.mediaType : ArtifactKind → String
  | .report => "application/json"
  | .parquet => "application/vnd.apache.parquet"

def ArtifactKind.extension : ArtifactKind → String
  | .report => "json"
  | .parquet => "parquet"

/-- The key and the digest of the artifact, where the revision has it. -/
def artifactOf (kind : ArtifactKind) (r : ReportRevision) : Option (ObjectKey × String) :=
  match kind with
  | .parquet =>
    match r.parquetObjectKey, r.parquetSha256 with
    | some key, some digest => if digest = "" then none else some (key, digest)
    | _, _ => none
  | .report => if r.reportSha256 = "" then none else some (r.reportObjectKey, r.reportSha256)

def auditOf (q : ArtifactRequest) (r : ReportRevision) (digest : String) (payload : Bytes)
    (downloadId : Uuid) (now : Instant) : EvidenceDownloadAudit where
  downloadId := downloadId
  tenantId := q.principal.tenantId
  clusterId := q.clusterId
  attemptId := q.attemptId
  revisionId := r.revisionId
  revisionNumber := r.revisionNumber
  artifactKind := q.artifactKind
  payloadSha256 := digest
  payloadBytes := payload.length
  downloadedByCredentialId := q.principal.credentialId
  downloadedAt := now

def safeAttempt (attemptId : String) : String :=
  attemptId.map (fun ch => if ch = ':' then '-' else ch)

def responseOf (q : ArtifactRequest) (r : ReportRevision) (digest : String) (payload : Bytes)
    (downloadId : Uuid) : ArtifactResponse where
  content := payload
  mediaType := ArtifactKind.mediaType q.artifactKind
  filename := "ranklens-" ++ safeAttempt q.attemptId ++ "-r" ++ toString r.revisionNumber ++ "." ++
    ArtifactKind.extension q.artifactKind
  digest := digest
  downloadId := downloadId

/-- `report_artifact`, whose transaction holds the lock of the attempt: the response and the audits
with the row it commits. An exception that no handler catches answers 500. -/
def reportArtifact (env : Env) (maxBytes : Nat) (faults : Faults) (short : Nat → Nat)
    (q : ArtifactRequest) (downloadId : Uuid) (now : Instant) (c : Catalog) (objects : ObjectStore)
    (audits : Audits) : Except HttpError (ArtifactResponse × Audits) :=
  if q.clusterId ∉ q.principal.clusters then .error clusterNotFound
  else
    match resolveReportRevision q.attempt q.revisionNumber c with
    | .error e => .error e
    | .ok (revision, _) =>
      match artifactOf q.artifactKind revision with
      | none => .error ⟨409, "report_artifact_not_available"⟩
      | some (key, digest) =>
        match readVerifiedBounded env faults short key digest maxBytes objects with
        | .error (.sizeLimit _) => .error ⟨413, "report_artifact_too_large"⟩
        | .error (.integrity _) => .error ⟨503, "report_artifact_unavailable"⟩
        | .error (.value _) => .error ⟨500, ""⟩
        | .ok payload =>
          match audits.get downloadId with
          | some _ => .error ⟨500, ""⟩
          | none =>
            .ok (responseOf q revision digest payload downloadId,
              audits.insert (auditOf q revision digest payload downloadId now))

end Api

namespace Deployment

open Api

variable {env : Env} {settings : IngestionSettings} {s s' : State} {c : Catalog} {k : AttemptKey}
  {q : ArtifactRequest} {revisionNumber : Option Nat} {r : ReportRevision} {hd : ReportHead}

section resolution

/-- The attempt has a revision that an unnumbered request resolves to, and the number is none or one
up to that of its head. -/
def Resolvable (k : AttemptKey) (revisionNumber : Option Nat) (c : Catalog) : Prop :=
  Live k c ∧ ∃ hd, c.heads.get k = some hd ∧
    ∀ n ∈ revisionNumber, 1 ≤ n ∧ n ≤ hd.revisionNumber

/-- A revision is the one a request with the number is about. -/
structure Resolves (k : AttemptKey) (revisionNumber : Option Nat) (c : Catalog)
    (r : ReportRevision) (hd : ReportHead) : Prop where
  head : c.heads.get k = some hd
  revision : r ∈ c.revisions
  attempt : r.attempt = k
  number : r.revisionNumber = revisionNumber.getD hd.revisionNumber
  current : r.revisionId = hd.revisionId ↔ r.revisionNumber = hd.revisionNumber

theorem resolveReportRevision_error {e : HttpError}
    (h : resolveReportRevision k revisionNumber c = .error e) : e = reportNotFound := by
  unfold resolveReportRevision at h
  split at h
  · split at h
    · exact (Except.error.inj h).symm
    · split at h
      · exact (Except.error.inj h).symm
      · cases h
  · exact (Except.error.inj h).symm

theorem live_of_resolved (h : resolveReportRevision k revisionNumber c = .ok (r, hd)) :
    Live k c := by
  unfold resolveReportRevision at h
  split at h
  · next g _ hget _ =>
    split at h
    · cases h
    · next hopen => exact ⟨g, hget, not_not.mp (fun hd => hopen (.inl hd))⟩
  · cases h

theorem not_live_of_fenced (h : Fenced k c) : ¬Live k c := by
  rintro ⟨g, hget, hd⟩
  exact not_fenced_of_live hget hd h

theorem resolve_fenced (h : Fenced k c) :
    resolveReportRevision k revisionNumber c = .error reportNotFound := by
  cases hr : resolveReportRevision k revisionNumber c with
  | error e => rw [resolveReportRevision_error hr]
  | ok x =>
    obtain ⟨r, hd⟩ := x
    exact absurd (live_of_resolved hr) (not_live_of_fenced h)

/-- The head of a live attempt, and the revisions it counts. -/
structure Headed (k : AttemptKey) (c : Catalog) (hd : ReportHead) : Prop where
  generation : hd.deletionGeneration = 0
  known : ∀ r ∈ c.revisions, r.attempt = k → r.deletionGeneration = 0 ∧
    1 ≤ r.revisionNumber ∧ r.revisionNumber ≤ hd.revisionNumber ∧
    (r.revisionId = hd.revisionId ↔ r.revisionNumber = hd.revisionNumber)
  numbered : ∀ n, 1 ≤ n → n ≤ hd.revisionNumber →
    ∃ r ∈ c.revisions, r.attempt = k ∧ r.revisionNumber = n

theorem headed_of_reachable (hinj : Telling env) (h : Reachable env settings s)
    (hlive : Live k s.catalog) (hget : s.catalog.heads.get k = some hd) :
    Headed k s.catalog hd ∧ 1 ≤ hd.revisionNumber := by
  obtain ⟨g, hgen, hopen⟩ := hlive
  obtain ⟨n, inputs, rs, chart⟩ := charted_of_reachable hinj h k (not_fenced_of_live hgen hopen)
  obtain ⟨hzero, hnone⟩ | ⟨hd', hget', hne, hgeneration, hnumber, -⟩ := chart.last
  · rw [hget] at hnone
    cases hnone
  obtain rfl : hd = hd' := Option.some.inj (hget.symm.trans hget')
  have shown := chart.head
  rw [hget, Option.map_some] at shown
  obtain ⟨last, hlast, hshows⟩ := Option.map_eq_some_iff.mp shown.symm
  simp only [ReportHead.shows, ReportRevision.shown, Prod.mk.injEq] at hshows
  have hmem := List.mem_of_head? hlast
  have single : ∀ r ∈ rs, r.revisionNumber = last.revisionNumber → r = last := by
    intro r hr he
    exact List.inj_on_of_nodup_map (chart.chronicle.numbers.nodup_iff.mpr List.nodup_range') hr
      hmem he
  refine ⟨⟨hgeneration, fun r hr hk => ?_, fun n' hlow hhigh => ?_⟩, by omega⟩
  · have hrs := (chart.rows r).mpr ⟨hr, hk⟩
    obtain ⟨old, files, -, hle, -⟩ := chart.chronicle.member hrs
    have inside := chart.chronicle.numbers.subset (List.mem_map_of_mem hrs)
    rw [List.mem_range'_1] at inside
    refine ⟨files.generation, inside.1, hnumber ▸ hle, fun hid => ?_, fun hnum => ?_⟩
    · have same := Table.eq_of_key hr ((chart.rows last).mp hmem).1 (hid.trans hshows.2.2.1.symm)
      rw [same, hshows.2.1]
    · rw [single r hrs (hnum.trans hshows.2.1.symm), hshows.2.2.1]
  · have listed : n' ∈ rs.map ReportRevision.revisionNumber := by
      refine chart.chronicle.numbers.symm.subset (List.mem_range'_1.mpr ?_)
      omega
    obtain ⟨r, hr, rfl⟩ := List.mem_map.mp listed
    obtain ⟨hrev, hk⟩ := (chart.rows r).mp hr
    exact ⟨r, hrev, hk, rfl⟩

theorem resolve_of_live {g : AttemptGeneration} (hgen : s.catalog.generations.get k = some g)
    (hopen : g.deletedAt = none) (hget : s.catalog.heads.get k = some hd)
    (hg : hd.deletionGeneration = g.generation) :
    resolveReportRevision k revisionNumber s.catalog =
      match (s.catalog.revisions.select
        (revisionFilter k g.generation hd revisionNumber)).head? with
      | none => .error reportNotFound
      | some revision => .ok (revision, hd) := by
  unfold resolveReportRevision
  rw [hgen, hget]
  dsimp only
  rw [if_neg (by simp [hopen, hg])]

theorem mem_revisionFilter {g : Nat} :
    r ∈ c.revisions.select (revisionFilter k g hd revisionNumber) ↔
    r ∈ c.revisions ∧ r.attempt = k ∧ r.deletionGeneration = g ∧
      (∀ n ∈ revisionNumber, r.revisionNumber = n) ∧
      (revisionNumber = none → r.revisionId = hd.revisionId) := by
  rw [Table.mem_select]
  unfold revisionFilter
  cases revisionNumber with
  | none => simp [and_assoc]
  | some n => simp [and_assoc]

theorem resolves_of_resolvable (hinj : Telling env) (h : Reachable env settings s)
    (hr : Resolvable k revisionNumber s.catalog) :
    ∃ r hd, resolveReportRevision k revisionNumber s.catalog = .ok (r, hd) ∧
      Resolves k revisionNumber s.catalog r hd := by
  obtain ⟨hlive, hd, hget, hnumber⟩ := hr
  obtain ⟨headed, first⟩ := headed_of_reachable hinj h hlive hget
  obtain ⟨g, hgen, hopen⟩ := hlive
  have zero : g.generation = 0 := (sound_of_reachable h).live g (Table.mem_of_get hgen) hopen
  have same : hd.deletionGeneration = g.generation := headed.generation.trans zero.symm
  obtain ⟨target, htarget⟩ : ∃ n, revisionNumber.getD hd.revisionNumber = n := ⟨_, rfl⟩
  have inside : 1 ≤ target ∧ target ≤ hd.revisionNumber := by
    cases revisionNumber with
    | none => exact htarget ▸ ⟨first, le_rfl⟩
    | some n => exact htarget ▸ hnumber n rfl
  obtain ⟨r, hrev, hk, hn⟩ := headed.numbered target inside.1 inside.2
  have known := headed.known r hrev hk
  have found : r ∈ s.catalog.revisions.select
      (revisionFilter k g.generation hd revisionNumber) := by
    refine mem_revisionFilter.mpr
      ⟨hrev, hk, known.1.trans zero.symm, fun n hmem => ?_, fun he => ?_⟩
    · obtain rfl : revisionNumber = some n := hmem
      exact hn.trans htarget.symm
    · subst he
      exact known.2.2.2.mpr (hn.trans htarget.symm)
  rw [resolve_of_live hgen hopen hget same]
  cases hhead : (s.catalog.revisions.select
      (revisionFilter k g.generation hd revisionNumber)).head? with
  | none =>
    rw [List.head?_eq_none_iff.mp hhead] at found
    exact absurd found List.not_mem_nil
  | some r' =>
    obtain ⟨hrev', hk', -, hnum', hid'⟩ := mem_revisionFilter.mp (List.mem_of_head? hhead)
    have known' := headed.known r' hrev' hk'
    refine ⟨r', hd, rfl, hget, hrev', hk', ?_, known'.2.2.2⟩
    cases revisionNumber with
    | none => exact known'.2.2.2.mp (hid' rfl)
    | some n => exact hnum' n rfl

theorem resolved_of_ok (h : resolveReportRevision k revisionNumber c = .ok (r, hd)) :
    c.heads.get k = some hd ∧ r ∈ c.revisions ∧ r.attempt = k ∧
      (∀ n ∈ revisionNumber, r.revisionNumber = n) ∧
      (revisionNumber = none → r.revisionId = hd.revisionId) := by
  unfold resolveReportRevision at h
  split at h
  · next g head _ hget =>
    split at h
    · cases h
    · split at h
      · cases h
      · next r' hhead =>
        obtain ⟨hrev, hk, -, hnumber, hid⟩ := mem_revisionFilter.mp (List.mem_of_head? hhead)
        cases h
        exact ⟨hget, hrev, hk, hnumber, hid⟩
  · cases h

theorem resolve_unresolvable (hinj : Telling env) (h : Reachable env settings s)
    (hr : ¬Resolvable k revisionNumber s.catalog) :
    resolveReportRevision k revisionNumber s.catalog = .error reportNotFound := by
  cases hres : resolveReportRevision k revisionNumber s.catalog with
  | error e => rw [resolveReportRevision_error hres]
  | ok x =>
    obtain ⟨r, hd⟩ := x
    have hlive := live_of_resolved hres
    refine absurd ⟨hlive, ?_⟩ hr
    obtain ⟨hget, hrev, hk, hnumber, -⟩ := resolved_of_ok hres
    have known := ((headed_of_reachable hinj h hlive hget).1).known r hrev hk
    refine ⟨hd, hget, fun n hn => ?_⟩
    rw [← hnumber n hn]
    exact ⟨known.2.1, known.2.2.1⟩

end resolution

section answers

variable {maxBytes : Nat} {faults : Faults} {short : Nat → Nat} {downloadId : Uuid} {now : Instant}
  {audits : Audits} {key : ObjectKey} {digest : String}

theorem recorded_of_artifactOf {kind : ArtifactKind} (hr : r ∈ c.revisions)
    (h : artifactOf kind r = some (key, digest)) :
    Recorded r.attempt c key digest := by
  cases kind with
  | report =>
    unfold artifactOf at h
    dsimp only at h
    split at h
    · cases h
    · obtain ⟨rfl, rfl⟩ := Prod.mk.inj (Option.some.inj h)
      exact .report hr rfl
  | parquet =>
    unfold artifactOf at h
    dsimp only at h
    split at h
    · next key' digest' hkey hdigest =>
      split at h
      · cases h
      · obtain ⟨rfl, rfl⟩ := Prod.mk.inj (Option.some.inj h)
        exact .parquet hr rfl hkey hdigest
    · cases h

theorem artifactOf_some (kind : ArtifactKind) (hsha : ∀ p, env.sha256 p ≠ "") (h : Sourced env r)
    (hobject : Holds env s.objects r.reportObjectKey r.reportSha256) :
    ∃ key digest, artifactOf kind r = some (key, digest) := by
  cases kind with
  | report =>
    obtain ⟨payload, -, hdigest⟩ := hobject
    refine ⟨r.reportObjectKey, r.reportSha256, ?_⟩
    unfold artifactOf
    dsimp only
    rw [if_neg (hdigest ▸ hsha payload)]
  | parquet =>
    obtain ⟨payload, hdigest, hkey⟩ := h.parquet
    refine ⟨ReportRevisionWorker.objectKey env r.attempt (env.sha256 payload) .parquet,
      env.sha256 payload, ?_⟩
    unfold artifactOf
    rw [hkey, hdigest]
    dsimp only
    rw [if_neg (hsha payload)]

/-- The revision, the artifact and the verified bytes a request is answered from. -/
structure Fetched (env : Env) (q : ArtifactRequest) (s : State) (r : ReportRevision)
    (digest : String) (payload : Bytes) : Prop where
  resolves : ∃ hd, Resolves q.attempt q.revisionNumber s.catalog r hd
  artifact : ∃ key, artifactOf q.artifactKind r = some (key, digest) ∧
    s.objects key = some payload
  verified : env.sha256 payload = digest

/-- In every reachable state the artifact of a revision that the head of a live attempt counts is
returned unless it is too large, and no other request finds one. -/
theorem evidence_answered {python : Python} {write : List NormalizedRow → Bytes}
    (hl : Legible env python write) (htell : Telling env) (hsha : ∀ p, env.sha256 p ≠ "")
    (h : Reachable env settings s)
    (hcluster : q.clusterId ∈ q.principal.clusters) (hmax : 1 ≤ maxBytes)
    (hread : ∀ key, faults.read key = none) (hfresh : audits.get downloadId = none) :
    (Resolvable q.attempt q.revisionNumber s.catalog → ∃ r digest payload,
      Fetched env q s r digest payload ∧
      reportArtifact env maxBytes faults short q downloadId now s.catalog s.objects audits =
        if maxBytes < payload.length then .error ⟨413, "report_artifact_too_large"⟩
        else .ok (responseOf q r digest payload downloadId,
          audits.insert (auditOf q r digest payload downloadId now))) ∧
    (¬Resolvable q.attempt q.revisionNumber s.catalog →
      reportArtifact env maxBytes faults short q downloadId now s.catalog s.objects audits =
        .error reportNotFound) := by
  constructor
  · intro hr
    obtain ⟨r, hd, hres, resolves⟩ := resolves_of_resolvable htell h hr
    obtain ⟨g, hgen, hopen⟩ := hr.1
    have live : ¬Fenced r.attempt s.catalog := resolves.attempt ▸ not_fenced_of_live hgen hopen
    have durable := durable_of_reachable (fun _ hr => separate_of_reachable hl hr) h
    obtain ⟨key, digest, hart⟩ := artifactOf_some q.artifactKind hsha
      ((sound_of_reachable h).revisions r resolves.revision)
      (durable _ _ _ (.report resolves.revision rfl) live)
    obtain ⟨payload, hobject, hdigest⟩ :=
      durable _ _ _ (recorded_of_artifactOf resolves.revision hart) live
    refine ⟨r, digest, payload, ⟨⟨hd, resolves⟩, ⟨key, hart, hobject⟩, hdigest⟩, ?_⟩
    unfold reportArtifact
    rw [if_neg (not_not_intro hcluster), hres]
    dsimp only
    rw [hart]
    dsimp only
    rw [LocalObjectStore.readVerifiedBounded_eq hmax hobject (hread key) hdigest]
    by_cases hsize : maxBytes < payload.length
    · rw [if_pos hsize, if_pos hsize]
    · rw [if_neg hsize, if_neg hsize]
      dsimp only
      rw [hfresh]
  · intro hr
    unfold reportArtifact
    rw [if_neg (not_not_intro hcluster), resolve_unresolvable htell h hr]

end answers

section runs

/-- A response that was sent, with its request and the revision that was resolved. -/
structure Download where
  request : ArtifactRequest
  response : ArtifactResponse
  revision : ReportRevision

/-- The services and the downloads next to them, with what was served. -/
structure Site where
  deployment : State
  audits : Audits
  served : List Download

def Site.initial : Site := ⟨.initial, .empty, []⟩

/-- A step of the services, or a download that is answered with its artifact. Any other answer
leaves everything as it is. -/
inductive SiteStep (env : Env) (settings : IngestionSettings) (maxBytes : Nat) (x : Site) :
    Site → Prop where
  | service {call : Call} {e : Ending Failure Reply} {d : State}
      (h : Step env settings x.deployment call e d) :
      SiteStep env settings maxBytes x { x with deployment := d }
  | download {faults : Faults} {short : Nat → Nat} {q : ArtifactRequest} {downloadId : Uuid}
      {now : Instant} {response : ArtifactResponse} {audits : Audits} {revision : ReportRevision}
      {head : ReportHead}
      (hres : resolveReportRevision q.attempt q.revisionNumber x.deployment.catalog =
        .ok (revision, head))
      (h : reportArtifact env maxBytes faults short q downloadId now x.deployment.catalog
        x.deployment.objects x.audits = .ok (response, audits)) :
      SiteStep env settings maxBytes x
        { x with audits := audits, served := ⟨q, response, revision⟩ :: x.served }

inductive SiteRun (env : Env) (settings : IngestionSettings) (maxBytes : Nat) (x₀ : Site) :
    Site → Prop where
  | start : SiteRun env settings maxBytes x₀ x₀
  | step {x x' : Site} (hr : SiteRun env settings maxBytes x₀ x)
      (hs : SiteStep env settings maxBytes x x') : SiteRun env settings maxBytes x₀ x'

variable {maxBytes : Nat} {x x' x₀ : Site}

theorem siteRun_of_run {audits : Audits} {served : List Download}
    {s₀ : State} (h : Run env settings s₀ s) :
    SiteRun env settings maxBytes ⟨s₀, audits, served⟩ ⟨s, audits, served⟩ := by
  induction h with
  | start => exact .start
  | step _ hs _ ih => exact ih.step (.service hs)

theorem reportArtifact_ok {faults : Faults} {short : Nat → Nat} {downloadId : Uuid}
    {now : Instant} {audits audits' : Audits} {objects : ObjectStore} {response : ArtifactResponse}
    (h : reportArtifact env maxBytes faults short q downloadId now c objects audits =
      .ok (response, audits')) :
    ∃ r hd key payload, q.clusterId ∈ q.principal.clusters ∧
      resolveReportRevision q.attempt q.revisionNumber c = .ok (r, hd) ∧
      artifactOf q.artifactKind r = some (key, env.sha256 payload) ∧ payload.length ≤ maxBytes ∧
      audits.get downloadId = none ∧
      response = responseOf q r (env.sha256 payload) payload downloadId ∧
      audits' = audits.insert (auditOf q r (env.sha256 payload) payload downloadId now) := by
  unfold reportArtifact at h
  split at h
  · cases h
  · next hcluster =>
    split at h
    · cases h
    · next r hd hres =>
      split at h
      · cases h
      · next key digest hart =>
        split at h
        · cases h
        · cases h
        · cases h
        · next payload hread =>
          split at h
          · cases h
          · next hfresh =>
            obtain ⟨rfl, hsize⟩ := LocalObjectStore.readVerifiedBounded_ok hread
            obtain ⟨rfl, rfl⟩ := Prod.mk.inj (Except.ok.inj h)
            exact ⟨r, hd, key, payload, not_not.mp hcluster, hres, hart, hsize, hfresh, rfl, rfl⟩

/-- The audit row of what was served: who received which artifact of which revision. -/
structure Records (env : Env) (maxBytes : Nat) (a : EvidenceDownloadAudit) (y : Download) :
    Prop where
  scope : a.attempt = y.request.attempt ∧ y.request.clusterId ∈ y.request.principal.clusters
  kind : a.artifactKind = y.request.artifactKind
  credential : a.downloadedByCredentialId = y.request.principal.credentialId
  requested : y.revision.attempt = y.request.attempt ∧
    ∀ n ∈ y.request.revisionNumber, y.revision.revisionNumber = n
  revision : a.revisionId = y.revision.revisionId ∧ a.revisionNumber = y.revision.revisionNumber
  artifact : ∃ key, artifactOf a.artifactKind y.revision = some (key, a.payloadSha256)
  digest : a.payloadSha256 = env.sha256 y.response.content ∧ y.response.digest = a.payloadSha256
  size : a.payloadBytes = y.response.content.length ∧ y.response.content.length ≤ maxBytes
  filename : y.response.filename = "ranklens-" ++ safeAttempt a.attemptId ++ "-r" ++
    toString a.revisionNumber ++ "." ++ ArtifactKind.extension a.artifactKind

/-- The audits are those of what was served, one for each. -/
structure Audited (env : Env) (maxBytes : Nat) (x : Site) : Prop where
  single : (x.served.map (fun y => y.response.downloadId)).Nodup
  recorded : ∀ y ∈ x.served, ∃ a ∈ x.audits, a.downloadId = y.response.downloadId ∧
    Records env maxBytes a y
  backed : ∀ a ∈ x.audits, ∃ y ∈ x.served, y.response.downloadId = a.downloadId

theorem records_of_ok {faults : Faults} {short : Nat → Nat} {downloadId : Uuid} {now : Instant}
    {audits audits' : Audits} {objects : ObjectStore} {response : ArtifactResponse}
    (h : reportArtifact env maxBytes faults short q downloadId now c objects audits =
      .ok (response, audits'))
    (hres : resolveReportRevision q.attempt q.revisionNumber c = .ok (r, hd)) :
    response.downloadId = downloadId ∧ audits.get downloadId = none ∧
      ∃ a, a.downloadId = downloadId ∧ audits' = audits.insert a ∧
        Records env maxBytes a ⟨q, response, r⟩ := by
  obtain ⟨r', hd', key, payload, hcluster, hres', hart, hsize, hfresh, rfl, rfl⟩ :=
    reportArtifact_ok h
  obtain ⟨rfl, rfl⟩ := Prod.mk.inj (Except.ok.inj (hres.symm.trans hres'))
  obtain ⟨-, -, hk, hnumber, -⟩ := resolved_of_ok hres
  refine ⟨rfl, hfresh, auditOf q r (env.sha256 payload) payload downloadId now, rfl, rfl, ?_⟩
  exact ⟨⟨rfl, hcluster⟩, rfl, rfl, ⟨hk, hnumber⟩, ⟨rfl, rfl⟩, ⟨key, hart⟩, ⟨rfl, rfl⟩,
    ⟨rfl, hsize⟩, rfl⟩

theorem audited_step (h : SiteStep env settings maxBytes x x') (hx : Audited env maxBytes x) :
    Audited env maxBytes x' := by
  cases h with
  | service => exact ⟨hx.single, hx.recorded, hx.backed⟩
  | download hres hd =>
    obtain ⟨rfl, hfresh, a, hid, rfl, hrecords⟩ := records_of_ok hd hres
    have hnew : x.audits.get a.downloadId = none := hid ▸ hfresh
    refine ⟨?_, fun y hy => ?_, fun a' ha' => ?_⟩
    · refine List.nodup_cons.mpr ⟨fun hmem => ?_, hx.single⟩
      obtain ⟨y, hy, he⟩ := List.mem_map.mp hmem
      obtain ⟨a', ha', hid', -⟩ := hx.recorded y hy
      exact Table.get_eq_none.mp hfresh a' ha' (hid'.trans he)
    · obtain rfl | hy := List.mem_cons.mp hy
      · exact ⟨a, (Table.mem_insert hnew).mpr (.inr rfl), hid, hrecords⟩
      · obtain ⟨a', ha', hrest⟩ := hx.recorded y hy
        exact ⟨a', Table.mem_insert_of_mem ha', hrest⟩
    · obtain ha' | rfl := Table.mem_of_mem_insert ha'
      · obtain ⟨y, hy, hid'⟩ := hx.backed a' ha'
        exact ⟨y, List.mem_cons_of_mem _ hy, hid'⟩
      · exact ⟨_, List.mem_cons_self, hid.symm⟩

/-- In every run each artifact that is served has an audit row of its own, which tells who received
which verified bytes of which revision, and no other row is ever written. -/
theorem downloads_audited (h : SiteRun env settings maxBytes .initial x) :
    Audited env maxBytes x := by
  induction h with
  | start =>
    refine ⟨List.nodup_nil, fun y hy => absurd hy List.not_mem_nil, fun a ha => ?_⟩
    exact absurd ha (Table.not_mem_empty a)
  | step _ hs ih => exact audited_step hs ih

theorem fenced_step {call : Call} {e : Ending Failure Reply} (h : Step env settings s call e s')
    (hf : Fenced k s.catalog) : Fenced k s'.catalog := by
  obtain ⟨_, _, ⟨a, rfl, heff⟩ | ⟨_, hc, _⟩⟩ := step_cases h
  · exact fenced_mono (lifecycle_aging (effect_lifecycle heff)) hf
  · exact hc ▸ hf

/-- Nothing of an attempt is served after its fence. -/
structure Ended (env : Env) (maxBytes : Nat) (k : AttemptKey) (x₀ x : Site) : Prop where
  fenced : Fenced k x.deployment.catalog
  served : x.served.filter (fun y => y.request.attempt = k) =
    x₀.served.filter (fun y => y.request.attempt = k)
  audits : ∀ a ∈ x.audits, a.attempt = k → a ∈ x₀.audits
  refused : ∀ faults short q downloadId now, q.attempt = k →
    q.clusterId ∈ q.principal.clusters →
    reportArtifact env maxBytes faults short q downloadId now x.deployment.catalog
      x.deployment.objects x.audits = .error reportNotFound

theorem refused_of_fenced {faults : Faults} {short : Nat → Nat} {downloadId : Uuid}
    {now : Instant} {audits : Audits} {objects : ObjectStore} (h : Fenced q.attempt c)
    (hcluster : q.clusterId ∈ q.principal.clusters) :
    reportArtifact env maxBytes faults short q downloadId now c objects audits =
      .error reportNotFound := by
  unfold reportArtifact
  rw [if_neg (not_not_intro hcluster), resolve_fenced h]

theorem ended_of_fenced (h : Fenced k x.deployment.catalog)
    (hserved : x.served.filter (fun y => y.request.attempt = k) =
      x₀.served.filter (fun y => y.request.attempt = k))
    (haudits : ∀ a ∈ x.audits, a.attempt = k → a ∈ x₀.audits) : Ended env maxBytes k x₀ x where
  fenced := h
  served := hserved
  audits := haudits
  refused _ _ _ _ _ hq hcluster := refused_of_fenced (hq ▸ h) hcluster

/-- From the fence of an attempt on, in every run, no evidence of it is served or audited again, and
every request for it is refused. -/
theorem fence_ends_downloads (h : SiteRun env settings maxBytes x₀ x)
    (hf : Fenced k x₀.deployment.catalog) : Ended env maxBytes k x₀ x := by
  induction h with
  | start => exact ended_of_fenced hf rfl (fun a ha _ => ha)
  | step _ hs ih =>
    cases hs with
    | service hs => exact ended_of_fenced (fenced_step hs ih.fenced) ih.served ih.audits
    | @download faults short q downloadId now response audits revision head hres hd =>
      obtain ⟨rfl, hfresh, a', -, rfl, hrecords⟩ := records_of_ok hd hres
      have other : q.attempt ≠ k := by
        rintro rfl
        rw [resolve_fenced ih.fenced] at hres
        cases hres
      refine ended_of_fenced ih.fenced ?_ (fun a ha hk => ?_)
      · rw [List.filter_cons_of_neg (by simpa using other)]
        exact ih.served
      · obtain ha | rfl := Table.mem_of_mem_insert ha
        · exact ih.audits a ha hk
        · exact absurd (hrecords.scope.1.symm.trans hk) other

end runs

end Deployment

namespace Sample

/-- A request for the table of the current report. -/
def evidence : Api.ArtifactRequest := ⟨principal, "c1", "a1", .parquet, none⟩

end Sample

namespace Deployment

open Api

/-- The attempt is live, has a first report, its table is served, and it can be deleted and claimed
for erasure. -/
def FirstReported (s : State) : Prop :=
  (s.catalog.generations.get Sample.attempt₁).map (fun g => (g.deletedAt, g.generation)) =
    some (none, 0) ∧
  (s.catalog.heads.get Sample.attempt₁).map
    (fun hd => (hd.revisionNumber, hd.deletionGeneration)) = some (1, 0) ∧
  (s.catalog.records.get Sample.attempt₁).map (fun r => (r.attempt, r.clusterId, r.tenantId)) =
    some (Sample.attempt₁, "c1", "acme") ∧
  (reportArtifact Sample.reporting 1024 Faults.none (fun _ => 1) Sample.evidence 40 50 s.catalog
    s.objects .empty).toBool = true ∧
  ((runCalls Sample.reporting Sample.settings [.deleteAttempt Sample.attempt₁ 60] s).bind
    (fun s' => (runCalls Sample.reporting Sample.settings [.deletionClaim "worker" 60 61 []] s').map
      (fun _ => (s'.catalog.generations.get Sample.attempt₁).map AttemptGeneration.deletedAt))) =
    some (some (some 60))

instance (s : State) : Decidable (FirstReported s) := inferInstanceAs (Decidable (_ ∧ _))

theorem reported_run : ∃ s, runCalls Sample.reporting Sample.settings
    (Sample.admission ++ Sample.normalization ++ Sample.report) .initial = some s ∧ FirstReported s := by
  have h : (runCalls Sample.reporting Sample.settings
      (Sample.admission ++ Sample.normalization ++ Sample.report) .initial).any
        (fun s => decide (FirstReported s)) = true := by
    decide +kernel
  obtain ⟨s, hs, hreported⟩ := (Option.any_eq_true _ _).mp h
  exact ⟨s, hs, of_decide_eq_true hreported⟩

/-- A live attempt with one report: its artifact is returned to a request for the current
revision. -/
theorem evidence_answered_sample : ∃ s, runCalls Sample.reporting Sample.settings
    (Sample.admission ++ Sample.normalization ++ Sample.report) .initial = some s ∧
    ∃ r digest payload, Fetched Sample.reporting Sample.evidence s r digest payload ∧
      reportArtifact Sample.reporting 1024 Faults.none (fun _ => 1) Sample.evidence 40 50 s.catalog
        s.objects .empty =
          if 1024 < payload.length then .error ⟨413, "report_artifact_too_large"⟩
          else .ok (responseOf Sample.evidence r digest payload 40,
            Table.insert .empty (auditOf Sample.evidence r digest payload 40 50)) := by
  obtain ⟨s, hs, hlive, hhead, -, -⟩ := reported_run
  obtain ⟨g, hget, hg⟩ := Option.map_eq_some_iff.mp hlive
  obtain ⟨hopen, -⟩ := Prod.mk.inj hg
  obtain ⟨hd, hget', -⟩ := Option.map_eq_some_iff.mp hhead
  have resolvable : Resolvable Sample.evidence.attempt Sample.evidence.revisionNumber s.catalog :=
    ⟨⟨g, hget, hopen⟩, hd, hget', fun n hn => absurd hn (Option.not_mem_none n)⟩
  have answered := @evidence_answered Sample.reporting Sample.settings s Sample.evidence 1024
    Faults.none (fun _ => 1) 40 50 .empty Sample.pythonLines Sample.write Sample.reporting_legible
    Sample.reporting_telling Sample.sha256_ne_empty (run_of_runCalls _ _ .start hs)
    (by decide) (by decide) (fun _ => rfl)
    rfl
  exact ⟨s, hs, answered.1 resolvable⟩

/-- A download of the first report, then the deletion of the attempt. -/
theorem served_run : ∃ s s' s'' audits y, y.request.attempt = Sample.attempt₁ ∧
    SiteRun Sample.reporting Sample.settings 1024 .initial ⟨s, audits, [y]⟩ ∧
    Run Sample.reporting Sample.settings s s' ∧ Run Sample.reporting Sample.settings s' s'' ∧
    Fenced Sample.attempt₁ s'.catalog := by
  obtain ⟨s, hs, -, -, -, hserved, hdeletable⟩ := reported_run
  obtain ⟨s', hs', hclaimed⟩ := Option.bind_eq_some_iff.mp hdeletable
  obtain ⟨s'', hs'', hdeleted⟩ := Option.map_eq_some_iff.mp hclaimed
  obtain ⟨g, hget, hd⟩ := Option.map_eq_some_iff.mp hdeleted
  have fenced : Fenced Sample.attempt₁ s'.catalog :=
    ⟨g, Table.mem_of_get hget, Table.key_of_get hget, hd ▸ Option.some_ne_none _⟩
  cases hr : reportArtifact Sample.reporting 1024 Faults.none (fun _ => 1) Sample.evidence 40 50
      s.catalog s.objects .empty with
  | error e =>
    rw [hr] at hserved
    cases hserved
  | ok answer =>
    obtain ⟨r, hd, -, -, -, hres, -⟩ := reportArtifact_ok hr
    have before : SiteRun Sample.reporting Sample.settings 1024 .initial ⟨s, .empty, []⟩ :=
      siteRun_of_run (run_of_runCalls _ _ .start hs)
    exact ⟨s, s', s'', _, _, rfl, before.step (.download (x := ⟨s, .empty, []⟩) hres hr),
      run_of_runCalls _ _ .start hs', run_of_runCalls _ _ .start hs'', fenced⟩

/-- One download, and its audit. -/
theorem downloads_audited_sample : ∃ x, SiteRun Sample.reporting Sample.settings 1024 .initial x ∧
    x.served.length = 1 ∧ Audited Sample.reporting 1024 x := by
  obtain ⟨s, s', s'', audits, y, -, run, -⟩ := served_run
  exact ⟨_, run, rfl, downloads_audited run⟩

/-- The evidence of an attempt that was served once and then deleted, while a worker claims its
erasure. -/
theorem fence_ends_downloads_sample : ∃ x₀ x, SiteRun Sample.reporting Sample.settings 1024 x₀ x ∧
    (x₀.served.map (fun y => y.request.attempt)) = [Sample.attempt₁] ∧
    Ended Sample.reporting 1024 Sample.attempt₁ x₀ x := by
  obtain ⟨s, s', s'', audits, y, hy, -, -, run, fenced⟩ := served_run
  have claimed : SiteRun Sample.reporting Sample.settings 1024 ⟨s', audits, [y]⟩
      ⟨s'', audits, [y]⟩ := siteRun_of_run run
  exact ⟨_, _, claimed, congrArg (fun k => [k]) hy, fence_ends_downloads claimed fenced⟩

end Deployment

end RankLens
