import RankLens.Downloads
import RankLens.Keyset
import RankLens.Paging

namespace RankLens

open Recovery (Collation Above)

inductive TelemetryStatus where
  | available
  | deleted
deriving DecidableEq, Repr

inductive RetentionStatus where
  | held
  | unheld
deriving DecidableEq, Repr

/-- The view of an attempt: the columns of its record, and what the joined rows add. -/
structure AttemptView extends AttemptRecord where
  telemetryStatus : TelemetryStatus
  retentionStatus : RetentionStatus
  activeRetentionHolds : Nat
  latestReportRevision : Option Nat
deriving DecidableEq, Repr

structure AttemptPage where
  items : List AttemptView
  nextCursor : Option String
deriving DecidableEq, Repr

structure ReportRevisionView where
  revisionId : Uuid
  tenantId : String
  clusterId : String
  attemptId : String
  deletionGeneration : Nat
  revisionNumber : Nat
  inputFingerprint : String
  segmentCount : Nat
  recordCount : Nat
  reportSha256 : String
  parquetSha256 : Option String
  parquetSchemaVersion : Option String
  parquetRowCount : Option Nat
  parquetAvailable : Bool
  builderVersion : String
  createdAt : Instant
  current : Bool
  downloadAvailable : Bool
deriving DecidableEq, Repr

namespace Api

def attemptNotFound : HttpError := ⟨404, "attempt_not_found"⟩

def attemptView (record : AttemptRecord) (generation : Option AttemptGeneration)
    (head : Option ReportHead) (activeHoldCount : Nat) : AttemptView :=
  let deleted := generation.any (fun g => g.deletedAt.isSome)
  let currentRevision :=
    match generation, head with
    | some generation, some head =>
      if deleted = false ∧ head.deletionGeneration = generation.generation then
        some head.revisionNumber
      else none
    | _, _ => none
  { record with
    telemetryStatus := if deleted then .deleted else .available
    retentionStatus := if 0 < activeHoldCount then .held else .unheld
    activeRetentionHolds := activeHoldCount
    latestReportRevision := currentRevision }

def activeHolds (k : AttemptKey) (c : Catalog) : List AttemptHold :=
  c.holds.select (fun h => h.state = .active && h.attempt = k)

/-- A row of `attempt_statement`: the record, its generation, its head and its active holds. -/
def attemptRow (c : Catalog) (r : AttemptRecord) : AttemptView :=
  attemptView r (c.generations.get r.attempt) (c.heads.get r.attempt)
    (activeHolds r.attempt c).length

/-- The records `attempts` selects, in the order of the database. -/
def attemptRows (collate : String → String → Bool) (tenantId clusterId : String)
    (cursor : Option String) (c : Catalog) : List AttemptRecord :=
  (c.records.select (fun r => r.tenantId = tenantId && r.clusterId = clusterId &&
    cursor.all (fun a => collate a r.attemptId && decide (a ≠ r.attemptId)))).insertionSort
      (fun r r' => collate r.attemptId r'.attemptId)

def attempts (collate : String → String → Bool) (principal : MachinePrincipal) (clusterId : String)
    (cursor : Option String) (limit : Nat) (c : Catalog) : Except HttpError AttemptPage :=
  if clusterId ∉ principal.clusters then .error clusterNotFound
  else
    let rows := (attemptRows collate principal.tenantId clusterId cursor c).take (limit + 1)
    .ok ⟨(rows.take limit).map (attemptRow c),
      Keyset.nextCursor AttemptRecord.attemptId limit rows⟩

def attempt (principal : MachinePrincipal) (clusterId attemptId : String) (c : Catalog) :
    Except HttpError AttemptView :=
  if clusterId ∉ principal.clusters then .error clusterNotFound
  else
    match c.records.get ⟨principal.tenantId, clusterId, attemptId⟩ with
    | none => .error attemptNotFound
    | some r => .ok (attemptRow c r)

def reportRevisionView (permissions : List String) (revision : ReportRevision) (head : ReportHead) :
    ReportRevisionView where
  revisionId := revision.revisionId
  tenantId := revision.tenantId
  clusterId := revision.clusterId
  attemptId := revision.attemptId
  deletionGeneration := revision.deletionGeneration
  revisionNumber := revision.revisionNumber
  inputFingerprint := revision.inputFingerprint
  segmentCount := revision.segmentCount
  recordCount := revision.recordCount
  reportSha256 := revision.reportSha256
  parquetSha256 := revision.parquetSha256
  parquetSchemaVersion := revision.parquetSchemaVersion
  parquetRowCount := revision.parquetRowCount
  parquetAvailable := revision.parquetObjectKey.isSome && revision.parquetSha256.any (· ≠ "") &&
    revision.parquetSchemaVersion.any (· ≠ "")
  builderVersion := revision.builderVersion
  createdAt := revision.createdAt
  current := revision.revisionId = head.revisionId
  downloadAvailable := "evidence:download" ∈ permissions

def reportRevision (principal : MachinePrincipal) (permissions : List String)
    (clusterId attemptId : String) (revisionNumber : Option Nat) (c : Catalog) :
    Except HttpError ReportRevisionView :=
  if clusterId ∉ principal.clusters then .error clusterNotFound
  else
    match resolveReportRevision ⟨principal.tenantId, clusterId, attemptId⟩ revisionNumber c with
    | .error e => .error e
    | .ok (revision, head) => .ok (reportRevisionView permissions revision head)

section listing

variable {collate : String → String → Bool} {tenantId clusterId : String} {cursor : Option String}
  {limit : Nat} {c : Catalog} {r : AttemptRecord}

theorem above_strict (hc : Collation collate) : IsStrictOrder String (Above collate) where
  irrefl _ h := h.2 rfl
  trans _ _ _ h h' := h.trans hc h'

def Located (tenantId clusterId : String) (c : Catalog) (r : AttemptRecord) : Prop :=
  r ∈ c.records ∧ r.tenantId = tenantId ∧ r.clusterId = clusterId

theorem mem_attemptRows : r ∈ attemptRows collate tenantId clusterId cursor c ↔
    Located tenantId clusterId c r ∧ Keyset.Behind (Above collate) cursor r.attemptId := by
  unfold attemptRows Located Keyset.Behind Above
  rw [List.mem_insertionSort, Table.mem_select]
  cases cursor with
  | none => simp
  | some a => simp [and_assoc]

theorem attemptRows_sorted (hc : Collation collate) :
    ((attemptRows collate tenantId clusterId cursor c).map AttemptRecord.attemptId).Pairwise
      (Above collate) := by
  have : Std.Total (fun r r' : AttemptRecord => collate r.attemptId r'.attemptId = true) :=
    ⟨fun r r' => hc.total r.attemptId r'.attemptId⟩
  have : IsTrans AttemptRecord (fun r r' => collate r.attemptId r'.attemptId = true) :=
    ⟨fun r r' r'' => hc.trans r.attemptId r'.attemptId r''.attemptId⟩
  have sorted : (attemptRows collate tenantId clusterId cursor c).Pairwise
      (fun r r' => collate r.attemptId r'.attemptId = true) := List.pairwise_insertionSort _ _
  have distinct : (attemptRows collate tenantId clusterId cursor c).Pairwise
      (fun r r' => r.attemptId ≠ r'.attemptId) := by
    have nodup : (attemptRows collate tenantId clusterId cursor c).Nodup :=
      (List.perm_insertionSort _ _).nodup_iff.mpr Table.nodup_select
    refine nodup.imp_of_mem (fun {r r'} hr hr' hne he => hne ?_)
    obtain ⟨⟨hmem, ht, hcl⟩, -⟩ := mem_attemptRows.mp hr
    obtain ⟨⟨hmem', ht', hcl'⟩, -⟩ := mem_attemptRows.mp hr'
    refine Table.eq_of_key hmem hmem' ?_
    rw [AttemptRecord.attempt, AttemptRecord.attempt, ht, ht', hcl, hcl', he]
  rw [List.pairwise_map]
  exact (sorted.and distinct).imp (fun h => h)

/-- What a request for a page reads: the records of its items, and the cursor. -/
def attemptsRead (collate : String → String → Bool) (tenantId clusterId : String) (limit : Nat)
    (catalogs : Nat → Catalog) (i : Nat) (cursor : Option String) :
    List AttemptRecord × Option String :=
  let rows := (attemptRows collate tenantId clusterId cursor (catalogs i)).take (limit + 1)
  (rows.take limit, Keyset.nextCursor AttemptRecord.attemptId limit rows)

theorem attempts_eq {principal : MachinePrincipal} (h : clusterId ∈ principal.clusters)
    (catalogs : Nat → Catalog) (i : Nat) :
    attempts collate principal clusterId cursor limit (catalogs i) =
      .ok ⟨(attemptsRead collate principal.tenantId clusterId limit catalogs i cursor).1.map
          (attemptRow (catalogs i)),
        (attemptsRead collate principal.tenantId clusterId limit catalogs i cursor).2⟩ := by
  unfold attempts
  rw [if_neg (not_not_intro h)]
  rfl

/-- The views that are listed by requests that follow the cursors from the first page on, request
`i` in the catalog there is then. -/
inductive Listed (collate : String → String → Bool) (principal : MachinePrincipal)
    (clusterId : String) (limit : Nat) (catalogs : Nat → Catalog) :
    Nat → Option String → List (List AttemptView) → Prop where
  | last {i : Nat} {cursor : Option String} {items : List AttemptView}
      (h : attempts collate principal clusterId cursor limit (catalogs i) = .ok ⟨items, none⟩) :
      Listed collate principal clusterId limit catalogs i cursor [items]
  | more {i : Nat} {cursor : Option String} {items : List AttemptView} {next : String}
      {pages : List (List AttemptView)}
      (h : attempts collate principal clusterId cursor limit (catalogs i) = .ok ⟨items, some next⟩)
      (hrest : Listed collate principal clusterId limit catalogs (i + 1) (some next) pages) :
      Listed collate principal clusterId limit catalogs i cursor (items :: pages)

theorem listed_of_follows {principal : MachinePrincipal} (hcluster : clusterId ∈ principal.clusters)
    {catalogs : Nat → Catalog} {i : Nat} {pages : List (List AttemptRecord)}
    (h : Keyset.Follows (attemptsRead collate principal.tenantId clusterId limit catalogs) i cursor
      pages) :
    Listed collate principal clusterId limit catalogs i cursor
      (pages.mapIdx (fun j rows => rows.map (attemptRow (catalogs (i + j))))) := by
  induction h with
  | @last i cursor rows h =>
    refine .last ?_
    rw [attempts_eq hcluster, h]
    rfl
  | @more i cursor rows next pages h hrest ih =>
    rw [List.mapIdx_cons]
    have shift : (fun j (rows : List AttemptRecord) =>
        rows.map (attemptRow (catalogs (i + (j + 1))))) =
        fun j rows => rows.map (attemptRow (catalogs (i + 1 + j))) := by
      funext j rows
      rw [Nat.add_assoc, Nat.add_comm j 1]
    rw [shift]
    refine .more ?_ ih
    rw [attempts_eq hcluster, h]
    rfl

/-- A listing has every attempt that exists all the time once, in order, with the view of the moment
its page was read. -/
structure Complete (collate : String → String → Bool) (tenantId clusterId : String)
    (catalogs : Nat → Catalog) (pages : List (List AttemptView)) : Prop where
  sorted : (pages.flatten.map (fun v => v.attemptId)).Pairwise (Above collate)
  shown : ∀ j items, pages[j]? = some items → ∀ v ∈ items,
    ∃ r, Located tenantId clusterId (catalogs j) r ∧ v = attemptRow (catalogs j) r
  complete : ∀ attemptId, (∀ j < pages.length,
    ∃ r, Located tenantId clusterId (catalogs j) r ∧ r.attemptId = attemptId) →
    (pages.flatten.map (fun v => v.attemptId)).count attemptId = 1

theorem attemptIds_finite : {s : String | s.length ≤ 128}.Finite := by
  have chars : Finite Char :=
    Finite.of_injective (fun c : Char => c.val.toFin)
      (fun c c' h => Char.ext (UInt32.toFin_inj.mp h))
  exact (List.finite_length_le Char 128).preimage
    (Function.Injective.injOn (fun a b h => String.toList_inj.mp h))

theorem flatten_mapIdx_ids (catalogs : Nat → Catalog) (pages : List (List AttemptRecord))
    (i : Nat) :
    (pages.mapIdx (fun j rows => rows.map (attemptRow (catalogs (i + j))))).flatten.map
      (fun v => v.attemptId) = pages.flatten.map AttemptRecord.attemptId := by
  induction pages generalizing i with
  | nil => rfl
  | cons rows pages ih =>
    have shift : (fun j (rows : List AttemptRecord) =>
        rows.map (attemptRow (catalogs (i + (j + 1))))) =
        fun j rows => rows.map (attemptRow (catalogs (i + 1 + j))) := by
      funext j rows
      rw [Nat.add_assoc, Nat.add_comm j 1]
    rw [List.mapIdx_cons, shift, List.flatten_cons, List.flatten_cons, List.map_append,
      List.map_append, ih, List.map_map]
    rfl

/-- Whatever is admitted, reported or erased between the requests, following the cursors of the
attempts of a cluster ends, and lists every attempt that stays once. -/
theorem attempts_listed (hc : Collation collate) {principal : MachinePrincipal}
    (hcluster : clusterId ∈ principal.clusters) (hlimit : 1 ≤ limit) {catalogs : Nat → Catalog}
    (hstored : ∀ i, ∀ r ∈ (catalogs i).records, r.attemptId.length ≤ 128) :
    ∃ pages, Listed collate principal clusterId limit catalogs 0 none pages ∧
      Complete collate principal.tenantId clusterId catalogs pages := by
  have := above_strict hc
  have hread : ∀ j a, Keyset.Page (Above collate) AttemptRecord.attemptId
      (Located principal.tenantId clusterId (catalogs j)) a
      (attemptsRead collate principal.tenantId clusterId limit catalogs j a).1
      (attemptsRead collate principal.tenantId clusterId limit catalogs j a).2 :=
    fun j a => Keyset.page_of_take hlimit (attemptRows_sorted hc) (fun r => mem_attemptRows)
  obtain ⟨pages, hpages⟩ := Keyset.follows_exists attemptIds_finite hread
    (fun j r hr => hstored j r hr.1) 0 none
  have lists := hpages.lists hread
  have listed := listed_of_follows hcluster hpages
  have ids := flatten_mapIdx_ids catalogs pages 0
  refine ⟨_, listed, ?_, fun j items hj v hv => ?_, fun attemptId hall => ?_⟩
  · rw [ids]
    exact lists.sorted
  · rw [List.getElem?_mapIdx, Option.map_eq_some_iff] at hj
    obtain ⟨rows, hrows, rfl⟩ := hj
    obtain ⟨r, hr, rfl⟩ := List.mem_map.mp hv
    rw [Nat.zero_add]
    refine ⟨r, ?_, rfl⟩
    have located := lists.sound j rows hrows r hr
    rwa [Nat.zero_add] at located
  · rw [List.length_mapIdx] at hall
    obtain ⟨r, hr, rfl⟩ := lists.complete attemptId (fun a ha => absurd ha (Option.not_mem_none a))
      (fun j hj => by simpa using hall j hj)
    rw [ids]
    exact List.count_eq_one_of_mem (lists.sorted.imp (fun h => h.2)) (List.mem_map_of_mem hr)

end listing

end Api

-- A cluster whose second attempt is admitted after the first request.
namespace Sample

def attemptRecord (attemptId : String) : AttemptRecord where
  tenantId := "acme"
  clusterId := "c1"
  attemptId := attemptId
  workflowExecutionId := none
  logicalCaseId := none
  schedulerSourceIdentity := none
  schedulerState := "unknown"
  schedulerObservedAt := none
  firstAdmittedAt := 1
  lastAdmittedAt := 1
  retentionExpiresAt := none
  retentionPolicyVersion := none
  segmentCount := 1
  recordCount := 1

def joining (i : Nat) : Catalog :=
  let first := (Table.empty : Table AttemptRecord.attempt).insert (attemptRecord "a1")
  { Catalog.empty with records := if i = 0 then first else first.insert (attemptRecord "a2") }

theorem joining_stored (i : Nat) : ∀ r ∈ (joining i).records, r.attemptId.length ≤ 128 := by
  have first : ∀ r ∈ (joining 0).records, r.attemptId.length ≤ 128 := by decide
  have later : ∀ r ∈ (joining 1).records, r.attemptId.length ≤ 128 := by decide
  cases i with
  | zero => exact first
  | succ i => exact later

end Sample

namespace Api

theorem attempts_listed_joining : ∃ pages,
    Listed Recovery.codePoints Sample.principal "c1" 1 Sample.joining 0 none pages ∧
      Complete Recovery.codePoints "acme" "c1" Sample.joining pages :=
  @attempts_listed _ "c1" 1 Recovery.collation_codePoints Sample.principal (by decide) (by decide) _
    Sample.joining_stored

end Api

namespace Deployment

open Api

variable {env : Env} {settings : IngestionSettings} {s : State} {c : Catalog} {k : AttemptKey}
  {r : AttemptRecord} {principal : MachinePrincipal} {permissions : List String} {n : Nat}
  {q : Option Nat}

/-- The latest revision a view shows is the number of the head of a live attempt. -/
theorem latestReportRevision_iff (htell : Telling env) (h : Reachable env settings s) :
    (attemptRow s.catalog r).latestReportRevision = some n ↔ Live r.attempt s.catalog ∧
      ∃ hd, s.catalog.heads.get r.attempt = some hd ∧ hd.revisionNumber = n := by
  unfold attemptRow attemptView Live
  dsimp only
  cases hgen : s.catalog.generations.get r.attempt with
  | none => simp
  | some g =>
    cases hget : s.catalog.heads.get r.attempt with
    | none => simp
    | some hd =>
      by_cases hopen : g.deletedAt = none
      · have headed := (headed_of_reachable htell h ⟨g, hgen, hopen⟩ hget).1
        have zero : g.generation = 0 :=
          (sound_of_reachable h).live g (Table.mem_of_get hgen) hopen
        simp [hopen, headed.generation, zero]
      · have isSome : g.deletedAt.isSome = true := Option.isSome_iff_ne_none.mpr hopen
        simp [isSome, hopen]

theorem telemetryStatus_iff : (attemptRow c r).telemetryStatus = .deleted ↔ Fenced r.attempt c := by
  unfold attemptRow attemptView
  dsimp only
  constructor
  · intro h
    cases hgen : c.generations.get r.attempt with
    | none => simp [hgen] at h
    | some g =>
      refine ⟨g, Table.mem_of_get hgen, Table.key_of_get hgen, fun hopen => ?_⟩
      simp [hgen, hopen] at h
  · rintro ⟨g, hg, hk, hd⟩
    have hget : c.generations.get r.attempt = some g := hk ▸ Table.get_of_mem hg
    rw [hget, Option.any_some, Option.isSome_iff_ne_none.mpr hd, if_pos rfl]

theorem retentionStatus_iff : (attemptRow c r).retentionStatus = .held ↔
    ∃ x ∈ c.holds, x.state = .active ∧ x.attempt = r.attempt := by
  have active : ∀ x, x ∈ activeHolds r.attempt c ↔
      x ∈ c.holds ∧ x.state = .active ∧ x.attempt = r.attempt := by
    intro x
    rw [activeHolds, Table.mem_select, Bool.and_eq_true, decide_eq_true_eq, decide_eq_true_eq]
  have held : (attemptRow c r).retentionStatus = .held ↔ 0 < (activeHolds r.attempt c).length := by
    unfold attemptRow attemptView
    dsimp only
    split
    · next hpos => exact iff_of_true rfl hpos
    · next hzero => exact iff_of_false (by decide) hzero
  rw [held, List.length_pos_iff_exists_mem]
  exact exists_congr (fun x => active x)

theorem reportRevision_eq (hcluster : r.clusterId ∈ principal.clusters)
    (htenant : principal.tenantId = r.tenantId) :
    reportRevision principal permissions r.clusterId r.attemptId q c =
      (resolveReportRevision r.attempt q c).map
        (fun x => reportRevisionView permissions x.1 x.2) := by
  unfold reportRevision
  rw [if_neg (not_not_intro hcluster), htenant]
  cases hres : resolveReportRevision r.attempt q c with
  | error e =>
    rw [AttemptRecord.attempt] at hres
    rw [hres]
    rfl
  | ok x =>
    rw [AttemptRecord.attempt] at hres
    rw [hres]
    rfl

/-- The view of an attempt agrees with the views of its reports, with its fence and with its
holds. -/
structure Agrees (principal : MachinePrincipal) (permissions : List String) (c : Catalog)
    (r : AttemptRecord) : Prop where
  latest : ∀ n, (attemptRow c r).latestReportRevision = some n ↔
    ∃ v, reportRevision principal permissions r.clusterId r.attemptId none c = .ok v ∧
      v.revisionNumber = n ∧ v.current = true
  missing : (attemptRow c r).latestReportRevision = none ↔
    reportRevision principal permissions r.clusterId r.attemptId none c = .error reportNotFound
  numbered : ∀ n, (∃ v, reportRevision principal permissions r.clusterId r.attemptId (some n) c =
    .ok v) ↔ ∃ last, (attemptRow c r).latestReportRevision = some last ∧ 1 ≤ n ∧ n ≤ last
  current : ∀ n v, reportRevision principal permissions r.clusterId r.attemptId (some n) c = .ok v →
    v.revisionNumber = n ∧ (v.current = true ↔ (attemptRow c r).latestReportRevision = some n)
  deleted : (attemptRow c r).telemetryStatus = .deleted ↔ Fenced r.attempt c
  held : (attemptRow c r).retentionStatus = .held ↔
    ∃ x ∈ c.holds, x.state = .active ∧ x.attempt = r.attempt

theorem reportRevision_ok (htell : Telling env) (h : Reachable env settings s)
    (hcluster : r.clusterId ∈ principal.clusters) (htenant : principal.tenantId = r.tenantId) :
    (∃ v, reportRevision principal permissions r.clusterId r.attemptId q s.catalog = .ok v) ↔
      Resolvable r.attempt q s.catalog := by
  rw [reportRevision_eq hcluster htenant]
  constructor
  · rintro ⟨v, hv⟩
    by_contra hr
    rw [resolve_unresolvable htell h hr] at hv
    cases hv
  · intro hr
    obtain ⟨rev, hd, hres, -⟩ := resolves_of_resolvable htell h hr
    exact ⟨reportRevisionView permissions rev hd, by rw [hres]; rfl⟩

theorem reportRevision_shows (htell : Telling env) (h : Reachable env settings s)
    (hcluster : r.clusterId ∈ principal.clusters) (htenant : principal.tenantId = r.tenantId)
    {v : ReportRevisionView}
    (hv : reportRevision principal permissions r.clusterId r.attemptId q s.catalog = .ok v) :
    ∃ last, (attemptRow s.catalog r).latestReportRevision = some last ∧
      v.revisionNumber = q.getD last ∧ (v.current = true ↔ v.revisionNumber = last) := by
  have hr := (reportRevision_ok htell h hcluster htenant).mp ⟨v, hv⟩
  obtain ⟨rev, hd, hres, resolves⟩ := resolves_of_resolvable htell h hr
  rw [reportRevision_eq hcluster htenant, hres] at hv
  obtain rfl := Except.ok.inj hv
  refine ⟨hd.revisionNumber, (latestReportRevision_iff htell h).mpr ⟨hr.1, hd, resolves.head, rfl⟩,
    resolves.number, Iff.trans ?_ resolves.current⟩
  exact decide_eq_true_iff

/-- In every reachable state the views of the two endpoints agree. -/
theorem views_agree (htell : Telling env) (h : Reachable env settings s)
    (hcluster : r.clusterId ∈ principal.clusters) (htenant : principal.tenantId = r.tenantId) :
    Agrees principal permissions s.catalog r := by
  have resolvable : ∀ q, Resolvable r.attempt q s.catalog ↔
      ∃ last, (attemptRow s.catalog r).latestReportRevision = some last ∧
        ∀ n ∈ q, 1 ≤ n ∧ n ≤ last := by
    intro q
    constructor
    · rintro ⟨hlive, hd, hget, hq⟩
      exact ⟨_, (latestReportRevision_iff htell h).mpr ⟨hlive, hd, hget, rfl⟩, hq⟩
    · rintro ⟨last, hlast, hq⟩
      obtain ⟨hlive, hd, hget, rfl⟩ := (latestReportRevision_iff htell h).mp hlast
      exact ⟨hlive, hd, hget, hq⟩
  refine ⟨fun n => ?_, ?_, fun n => ?_, fun n v hv => ?_, telemetryStatus_iff, retentionStatus_iff⟩
  · constructor
    · intro hn
      obtain ⟨v, hv⟩ : ∃ v, reportRevision principal permissions r.clusterId r.attemptId none
          s.catalog = .ok v := by
        rw [reportRevision_ok htell h hcluster htenant, resolvable]
        exact ⟨n, hn, fun m hm => absurd hm (Option.not_mem_none m)⟩
      obtain ⟨last, hlast, hnumber, hcurrent⟩ := reportRevision_shows htell h hcluster htenant hv
      obtain rfl := Option.some.inj (hn.symm.trans hlast)
      exact ⟨v, hv, hnumber, hcurrent.mpr hnumber⟩
    · rintro ⟨v, hv, rfl, -⟩
      obtain ⟨last, hlast, hnumber, -⟩ := reportRevision_shows htell h hcluster htenant hv
      rw [hlast]
      exact congrArg some hnumber.symm
  · have unresolved : (attemptRow s.catalog r).latestReportRevision = none ↔
        ¬Resolvable r.attempt none s.catalog := by
      rw [resolvable, Option.eq_none_iff_forall_ne_some]
      constructor
      · rintro hnone ⟨last, hlast, -⟩
        exact hnone last hlast
      · intro hnot last hlast
        exact hnot ⟨last, hlast, fun m hm => absurd hm (Option.not_mem_none m)⟩
    rw [unresolved, reportRevision_eq hcluster htenant]
    constructor
    · intro hr
      rw [resolve_unresolvable htell h hr]
      rfl
    · intro he hr
      obtain ⟨rev, hd, hres, -⟩ := resolves_of_resolvable htell h hr
      rw [hres] at he
      cases he
  · rw [reportRevision_ok htell h hcluster htenant, resolvable]
    simp
  · obtain ⟨last, hlast, hnumber, hcurrent⟩ := reportRevision_shows htell h hcluster htenant hv
    have hn : v.revisionNumber = n := hnumber
    refine ⟨hn, hcurrent.trans ?_⟩
    rw [hn, hlast, Option.some.injEq]
    exact eq_comm

/-- The views of an attempt with one report. -/
theorem views_agree_sample : ∃ s r, runCalls Sample.reporting Sample.settings
    (Sample.admission ++ Sample.normalization ++ Sample.report) .initial = some s ∧
    r ∈ s.catalog.records ∧ (attemptRow s.catalog r).latestReportRevision = some 1 ∧
    Agrees Sample.principal [] s.catalog r := by
  obtain ⟨s, hs, hlive, hhead, hrow, -⟩ := reported_run
  obtain ⟨r, hget, hview⟩ := Option.map_eq_some_iff.mp hrow
  obtain ⟨hattempt, hscope⟩ := Prod.mk.inj hview
  obtain ⟨hcluster, htenant⟩ := Prod.mk.inj hscope
  have hlatest : (attemptRow s.catalog r).latestReportRevision = some 1 := by
    obtain ⟨g, hg, hlive⟩ := Option.map_eq_some_iff.mp hlive
    obtain ⟨hd, hhd, hhead⟩ := Option.map_eq_some_iff.mp hhead
    obtain ⟨hopen, hgeneration⟩ := Prod.mk.inj hlive
    obtain ⟨hnumber, hsame⟩ := Prod.mk.inj hhead
    simp only [attemptRow, attemptView, hattempt, hg, hhd]
    rw [Option.any_some, hopen, if_pos ⟨rfl, hsame.trans hgeneration.symm⟩, hnumber]
  refine ⟨s, r, hs, Table.mem_of_get hget, hlatest, ?_⟩
  exact views_agree Sample.reporting_telling (run_of_runCalls _ _ .start hs)
    (by rw [hcluster]; decide) (by rw [htenant]; rfl)

end Deployment

end RankLens
