import RankLens.Accepting
import RankLens.Aggregates

namespace RankLens

namespace Launching

open Analyzer (AnalysisResult Dict Interpreter analyze bind_ok_iff checkRunIds
  contextGet get launcherFailed loadMetadata loadSummaries loadSummary overview truthy)
open Recording (Reaches ReadsJson rankPath)

/-- What `run` is called with and what it draws and finds in its environment. -/
structure Launch where
  runId : String
  captureEpoch : String
  inherited : Option String
  workload : String
  tags : List (String × String)
  command : List String
  startedAt : String
  scheduler : List (String × String)
deriving DecidableEq

/-- The environment keeps an attempt that it already names. -/
def Launch.attemptId (l : Launch) : String := l.inherited.getD l.runId

inductive Exit where
  | completed (returncode : Int)
  | timedOut
  | interrupted
  | failed (error : String)
deriving DecidableEq

def Exit.code : Exit → Int
  | .completed returncode => returncode
  | .timedOut => 124
  | .interrupted => 130
  | .failed _ => 127

def Exit.error : Exit → Option String
  | .failed error => some error
  | _ => none

structure Ending where
  exit : Exit
  rankSummaries : Nat
  eventStreams : Nat
  finishedAt : String
deriving DecidableEq

/-- How far a launch has come: it has found its directory empty, its processes have been started,
they have ended. -/
inductive Stage where
  | checked
  | running
  | finished (ending : Ending)
deriving DecidableEq

inductive Stage.Follows : Stage → Stage → Prop where
  | start : Follows .checked .running
  | finish (ending : Ending) : Follows .running (.finished ending)

section metadata

def text (s : String) : PyValue := .str (PyStr.ofString s)

def texts (members : List (String × String)) : PyValue :=
  .dict (members.map (fun m => (PyStr.ofString m.1, text m.2)))

def Stage.text : Stage → String
  | .finished ending => if ending.exit.code = 0 then "completed" else "failed"
  | _ => "running"

def Launch.members (l : Launch) (state : String) : List (String × PyValue) :=
  [("schema_version", .int 1), ("run_id", text l.runId), ("workload", text l.workload),
    ("capture_epoch", text l.captureEpoch), ("attempt_id", text l.attemptId),
    ("tags", texts l.tags), ("command", .list (l.command.map text)),
    ("started_at", text l.startedAt), ("state", text state), ("scheduler", texts l.scheduler)]

def Ending.telemetry (ending : Ending) : PyValue :=
  .dict ([("status", text (if ending.rankSummaries = 0 then "unavailable" else "observed")),
    ("rank_summaries", .int ending.rankSummaries), ("event_streams", .int ending.eventStreams),
    ("reason", if ending.rankSummaries = 0 then text "no_rank_summaries" else .none)].map
      (fun m => (PyStr.ofString m.1, m.2)))

def Ending.members (ending : Ending) : List (String × PyValue) :=
  (ending.exit.error.toList.map (fun error => ("error", text error))) ++
    [("telemetry", ending.telemetry), ("return_code", .int ending.exit.code),
      ("finished_at", text ending.finishedAt)]

def Stage.members : Stage → List (String × PyValue)
  | .finished ending => ending.members
  | _ => []

def Launch.metadata (l : Launch) (stage : Stage) : Dict :=
  (l.members stage.text ++ stage.members).map (fun m => (PyStr.ofString m.1, m.2))

theorem lookup_map {α : Type} (members : List (String × α)) (key : String) :
    (members.map (fun m => (PyStr.ofString m.1, m.2))).lookup (PyStr.ofString key) =
      members.lookup key := by
  induction members with
  | nil => rfl
  | cons m members ih =>
    rw [List.map_cons, List.lookup_cons, List.lookup_cons, ih]
    have same : (PyStr.ofString key == PyStr.ofString m.1) = (key == m.1) := by
      rw [Bool.eq_iff_iff, beq_iff_eq, beq_iff_eq]
      exact JsonText.ofString_injective.eq_iff
    rw [same]

theorem get_runId (l : Launch) (stage : Stage) :
    get (l.metadata stage) "run_id" = some (text l.runId) := by
  rw [Analyzer.get, Launch.metadata, lookup_map]
  rfl

theorem get_returnCode (l : Launch) (stage : Stage) : get (l.metadata stage) "return_code" =
    match stage with
    | .finished ending => some (.int ending.exit.code)
    | _ => none := by
  rw [Analyzer.get, Launch.metadata, lookup_map]
  cases stage with
  | checked => rfl
  | running => rfl
  | finished ending =>
    obtain ⟨exit, rankSummaries, eventStreams, finishedAt⟩ := ending
    cases exit <;> rfl

theorem launcherFailed_metadata (py : Interpreter) (l : Launch) (stage : Stage) :
    launcherFailed py (l.metadata stage) = false ↔
      ∀ ending, stage = .finished ending → ending.exit.code = 0 := by
  rw [launcherFailed, get_returnCode]
  cases stage with
  | checked => simp
  | running => simp
  | finished ending => simp [Analyzer.equalsInt]

end metadata

/-- A rank of a launch, as its last summary shows it. -/
structure Published where
  launch : Launch
  recorder : Recording.State
  publishing : Publishing

def Published.rank (f : Published) : Nat := f.recorder.recorder.rank

def Published.document (f : Published) : RankSummary :=
  f.recorder.recorder.document f.publishing

def Published.file (f : Published) : Analyzer.File :=
  ⟨rankPath f.rank "summary.json", .text (f.document.text.map Char.toNat)⟩

/-- A capture directory, and the launches that have looked at it. -/
structure State where
  occupied : Bool
  manifest : Option PyStr
  ranks : List Published
  stages : Launch → Option Stage

def State.initial : State := ⟨false, none, [], fun _ => none⟩

def State.capture (s : State) (directory : String) (listing : List Published)
    (events : List Analyzer.File) : Analyzer.Capture where
  directory := directory
  summaries := listing.map Published.file
  manifest := s.manifest.map .text
  events := events

/-- What the launchers and the ranks they start do to the directory, each at any moment. A launcher
that is killed takes no step any more, and its ranks may outlive it. -/
inductive Step (write : Dict → PyStr) : State → State → Prop where
  | check {s : State} (l : Launch) (command : l.command ≠ []) (free : s.occupied = false)
      (fresh : l.runId ≠ "" ∧ ∀ m, s.stages m ≠ none → m.runId ≠ l.runId) :
      Step write s { s with stages := Function.update s.stages l (some .checked) }
  | temporary {s : State} : Step write s { s with occupied := true }
  | save {s : State} {l : Launch} {stage next : Stage} (h : s.stages l = some stage)
      (follows : stage.Follows next) : Step write s { s with
        occupied := true
        manifest := some (write (l.metadata next))
        stages := Function.update s.stages l (some next) }
  | publish {s : State} {f : Published} {stage : Stage} (h : s.stages f.launch = some stage)
      (started : stage ≠ .checked) (reaches : Reaches f.recorder)
      (code : 0 ≤ f.publishing.finalizeReturnCode) (range : f.document.InRange)
      (id : f.publishing.runId = f.launch.runId) : Step write s { s with
        occupied := true
        ranks := f :: s.ranks.filter (fun g => g.rank ≠ f.rank) }

inductive Reachable (write : Dict → PyStr) : State → Prop where
  | initial : Reachable write .initial
  | step {s s' : State} (h : Reachable write s) (hs : Step write s s') : Reachable write s'

/-- The launches are told apart by their identities, every summary is of one that has been started,
and the manifest is of one as far as it has come. -/
structure Sound (write : Dict → PyStr) (s : State) : Prop where
  distinct : ∀ l m, s.stages l ≠ none → s.stages m ≠ none → l.runId = m.runId → l = m
  named : ∀ l, s.stages l ≠ none → l.runId ≠ ""
  ranks : ∀ f ∈ s.ranks, (∃ stage, s.stages f.launch = some stage ∧ stage ≠ .checked) ∧
    Reaches f.recorder ∧ 0 ≤ f.publishing.finalizeReturnCode ∧ f.document.InRange ∧
    f.publishing.runId = f.launch.runId
  manifest : ∀ doc, s.manifest = some doc → ∃ l stage, s.stages l = some stage ∧
    stage ≠ .checked ∧ doc = write (l.metadata stage)
  saved : ∀ l stage, s.stages l = some stage → stage ≠ .checked → s.manifest ≠ none

section invariant

variable {write : Dict → PyStr} {s s' : State}

theorem Stage.Follows.started {stage next : Stage} (h : stage.Follows next) : next ≠ .checked := by
  cases h <;> rintro ⟨⟩

theorem check_sound (hi : Sound write s) {l : Launch}
    (fresh : l.runId ≠ "" ∧ ∀ m, s.stages m ≠ none → m.runId ≠ l.runId) :
    Sound write { s with stages := Function.update s.stages l (some .checked) } := by
  have other : ∀ m stage, s.stages m = some stage →
      Function.update s.stages l (some .checked) m = some stage := by
    intro m stage h
    have apart : m ≠ l := by
      rintro rfl
      exact fresh.2 m (by rw [h]; rintro ⟨⟩) rfl
    rw [Function.update_of_ne apart, h]
  have known : ∀ m, Function.update s.stages l (some .checked) m ≠ none →
      m = l ∨ s.stages m ≠ none := by
    intro m h
    by_cases same : m = l
    · exact .inl same
    · rw [Function.update_of_ne same] at h
      exact .inr h
  constructor
  · intro m n hm hn same
    obtain here | earlier := known m hm
    · obtain there | later := known n hn
      · rw [here, there]
      · exact absurd (same.symm.trans (by rw [here])) (fresh.2 n later)
    · obtain there | later := known n hn
      · exact absurd (same.trans (by rw [there])) (fresh.2 m earlier)
      · exact hi.distinct m n earlier later same
  · intro m hm
    obtain here | earlier := known m hm
    · rw [here]
      exact fresh.1
    · exact hi.named m earlier
  · intro f hf
    obtain ⟨⟨stage, h, started⟩, rest⟩ := hi.ranks f hf
    exact ⟨⟨stage, other _ _ h, started⟩, rest⟩
  · intro doc hdoc
    obtain ⟨m, stage, h, rest⟩ := hi.manifest doc hdoc
    exact ⟨m, stage, other _ _ h, rest⟩
  · intro m stage h started
    change Function.update s.stages l (some .checked) m = some stage at h
    by_cases same : m = l
    · rw [same, Function.update_self] at h
      exact absurd (Option.some.inj h).symm started
    · rw [Function.update_of_ne same] at h
      exact hi.saved m stage h started

theorem save_sound (hi : Sound write s) {l : Launch} {stage next : Stage}
    (h : s.stages l = some stage) (follows : stage.Follows next) : Sound write { s with
      occupied := true
      manifest := some (write (l.metadata next))
      stages := Function.update s.stages l (some next) } := by
  have known : ∀ m, Function.update s.stages l (some next) m ≠ none → s.stages m ≠ none := by
    intro m hm
    by_cases same : m = l
    · rw [same, h]
      rintro ⟨⟩
    · rwa [Function.update_of_ne same] at hm
  constructor
  · exact fun m n hm hn => hi.distinct m n (known m hm) (known n hn)
  · exact fun m hm => hi.named m (known m hm)
  · intro f hf
    obtain ⟨⟨earlier, hearlier, started⟩, rest⟩ := hi.ranks f hf
    refine ⟨?_, rest⟩
    by_cases same : f.launch = l
    · exact ⟨next, same ▸ Function.update_self _ _ _, follows.started⟩
    · exact ⟨earlier, (Function.update_of_ne same _ _).trans hearlier, started⟩
  · intro doc hdoc
    exact ⟨l, next, Function.update_self _ _ _, follows.started, (Option.some.inj hdoc).symm⟩
  · intro m _ _ _
    rintro ⟨⟩

theorem step_sound (hi : Sound write s) (hs : Step write s s') : Sound write s' := by
  cases hs with
  | check l command free fresh => exact check_sound hi fresh
  | temporary => exact ⟨hi.distinct, hi.named, hi.ranks, hi.manifest, hi.saved⟩
  | save h follows => exact save_sound hi h follows
  | publish h started reaches code range id =>
    refine ⟨hi.distinct, hi.named, ?_, hi.manifest, hi.saved⟩
    intro f hf
    obtain rfl | hf := List.mem_cons.mp hf
    · exact ⟨⟨_, h, started⟩, reaches, code, range, id⟩
    · exact hi.ranks f (List.mem_of_mem_filter hf)

theorem reachable_sound (h : Reachable write s) : Sound write s := by
  induction h with
  | initial =>
    exact ⟨fun _ _ h => absurd rfl h, fun _ h => absurd rfl h,
      fun f hf => absurd hf List.not_mem_nil, fun _ h => absurd h (by rintro ⟨⟩),
      fun _ _ h => absurd h (by rintro ⟨⟩)⟩
  | step h hs ih => exact step_sound ih hs

end invariant

section analysis

variable {py : Interpreter} {capture : Analyzer.Capture} {threshold : ℚ} {result : AnalysisResult}
  {summaries : List Analyzer.RankSummary} {metadata : Dict}

theorem overview_checked {o : Analyzer.Overview} (h : overview py capture threshold = .ok o) :
    checkRunIds py o.summaries o.metadata = .ok () := by
  unfold overview at h
  obtain ⟨-, -, h⟩ := bind_ok_iff.mp h
  obtain ⟨summaries, -, h⟩ := bind_ok_iff.mp h
  obtain ⟨medianRuntime, -, h⟩ := bind_ok_iff.mp h
  obtain ⟨late, -, h⟩ := bind_ok_iff.mp h
  obtain ⟨metadata, -, h⟩ := bind_ok_iff.mp h
  obtain ⟨⟨⟩, checked, h⟩ := bind_ok_iff.mp h
  obtain rfl := Except.ok.inj h
  exact checked

theorem one_run {id : PyStr} (h : checkRunIds py summaries metadata = .ok ())
    (named : ∀ s ∈ summaries, contextGet s "run_id" "" ≠ [])
    (hid : get metadata "run_id" = some (.str id)) (hne : id ≠ []) (some : summaries ≠ []) :
    ∀ s ∈ summaries, contextGet s "run_id" "" = id := by
  have member : ∀ s ∈ summaries, contextGet s "run_id" "" ∈
      ((summaries.map (fun s => contextGet s "run_id" "")).filter (· ≠ [])).dedup := by
    intro s hs
    rw [List.mem_dedup, List.mem_filter]
    exact ⟨List.mem_map_of_mem hs, decide_eq_true (named s hs)⟩
  have truth : truthy py (get metadata "run_id") = true := by
    rw [hid]
    exact decide_eq_true hne
  rw [checkRunIds] at h
  generalize ((summaries.map (fun s => contextGet s "run_id" "")).filter (· ≠ [])).dedup = ids
    at h member
  obtain ⟨first, rest, rfl⟩ := List.exists_cons_of_ne_nil some
  have found := member first List.mem_cons_self
  have few : ¬1 < ids.length := by
    intro many
    rw [if_pos many] at h
    exact absurd h (by rintro ⟨⟩)
  rw [if_neg few, if_pos ⟨List.ne_nil_of_mem found, truth⟩, hid] at h
  have inside : id ∈ ids := by
    by_contra outside
    simp only [if_neg outside] at h
    exact absurd h (by rintro ⟨⟩)
  obtain ⟨only, rfl⟩ : ∃ only, ids = [only] := by
    obtain ⟨only, others, rfl⟩ := List.exists_cons_of_ne_nil (List.ne_nil_of_mem found)
    cases others with
    | nil => exact ⟨only, rfl⟩
    | cons other others => exact absurd (by simp) few
  intro s hs
  rw [List.mem_singleton.mp (member s hs), List.mem_singleton.mp inside]

theorem summaries_loaded {files : List Published}
    (hcapture : capture.summaries = files.map Published.file)
    (hload : ∀ f ∈ files, loadSummary py capture.directory f.file = .ok f.document.read)
    (h : loadSummaries py capture = .ok summaries) :
    summaries = files.map (fun f => f.document.read) := by
  unfold loadSummaries at h
  obtain ⟨-, -, h⟩ := bind_ok_iff.mp h
  obtain ⟨loaded, hloaded, h⟩ := bind_ok_iff.mp h
  obtain ⟨-, -, h⟩ := bind_ok_iff.mp h
  obtain ⟨-, -, h⟩ := bind_ok_iff.mp h
  obtain rfl := Except.ok.inj h
  rw [hcapture] at hloaded
  exact Except.ok.inj (hloaded.symm.trans (Recording.mapM_map_ok hload))

theorem runId_read (f : Published) :
    contextGet f.document.read "run_id" "" = PyStr.ofString f.publishing.runId := by
  rw [Recording.contextGet_read]
  rfl

theorem ofString_ne_nil {id : String} (h : id ≠ "") : PyStr.ofString id ≠ [] := by
  intro empty
  exact h (JsonText.ofString_injective (empty.trans (by decide : [] = PyStr.ofString "")))

theorem result_complete {o : Analyzer.Overview} (ho : overview py capture threshold = .ok o)
    (h : analyze py capture threshold = .ok result) : result.complete = o.complete py ∧
      result.metadata = o.metadata ∧ result.worldSize = o.worldSize := by
  unfold analyze at h
  obtain ⟨o', ho', h⟩ := bind_ok_iff.mp h
  obtain rfl := Except.ok.inj (ho.symm.trans ho')
  obtain ⟨⟨s, edges⟩, -, h⟩ := bind_ok_iff.mp h
  unfold Analyzer.assemble at h
  obtain ⟨mpiFraction, -, h⟩ := bind_ok_iff.mp h
  obtain ⟨imbalanceRatio, -, h⟩ := bind_ok_iff.mp h
  obtain ⟨findings, -, h⟩ := bind_ok_iff.mp h
  obtain rfl := Except.ok.inj h
  exact ⟨rfl, rfl, rfl⟩

end analysis

section isolation

variable {write : Dict → PyStr} {s : State} {py : Interpreter} {directory : String}
  {listing : List Published} {events : List Analyzer.File} {threshold : ℚ} {result : AnalysisResult}

/-- The analysis is of one launch: of its ranks, and of its manifest as far as it has come. -/
structure Isolated (s : State) (listing : List Published) (result : AnalysisResult) (l : Launch)
    (stage : Stage) : Prop where
  reached : s.stages l = some stage
  started : stage ≠ .checked
  ranks : ∀ f ∈ listing, f.launch = l
  metadata : result.metadata = l.metadata stage
  complete : result.complete = true ↔
    (listing.length = result.worldSize ∧ ∀ f ∈ listing, f.publishing.complete = true) ∧
      ∀ ending, stage = .finished ending → ending.exit.code = 0

/-- Whatever launchers share a directory, and wherever they and their ranks have got to, an analysis
that succeeds is of one launch only, and it is not complete when the launcher has failed. -/
theorem analysis_isolated (hpy : ReadsJson py)
    (hmanifest : ∀ l stage, s.stages l = some stage →
      py.loads (write (l.metadata stage)) = .ok (.dict (l.metadata stage)))
    (h : Reachable write s) (hlisting : listing.Perm s.ranks)
    (ha : analyze py (s.capture directory listing events) threshold = .ok result) :
    ∃ l stage, Isolated s listing result l stage := by
  have sound := reachable_sound h
  have each : ∀ f ∈ listing, (∃ stage, s.stages f.launch = some stage ∧ stage ≠ .checked) ∧
      loadSummary py directory f.file = .ok f.document.read ∧
        f.publishing.runId = f.launch.runId := by
    intro f hf
    obtain ⟨started, reaches, code, range, id⟩ := sound.ranks f (hlisting.mem_iff.mp hf)
    exact ⟨started, (Recording.snapshot_loads hpy reaches code range directory _).2, id⟩
  obtain ⟨o, ho, -⟩ := Analyzer.analyze_reported ha
  have viewed := Analyzer.overview_overviewed ho
  obtain ⟨complete, metadata, world⟩ := result_complete ho ha
  have loaded : o.summaries = listing.map (fun f => f.document.read) :=
    @summaries_loaded py (s.capture directory listing events) o.summaries listing rfl
      (fun f hf => (each f hf).2.1) viewed.summaries
  have some := viewed.ranked.some
  obtain ⟨first, rest, rfl⟩ := List.exists_cons_of_ne_nil (by
    rintro rfl
    exact some loaded : listing ≠ [])
  -- the manifest is the one of a launch, and the ranks are of the run it names
  obtain ⟨⟨firstStage, hfirst, started⟩, -⟩ := each first List.mem_cons_self
  cases hdoc : s.manifest with
  | none => exact absurd hdoc (sound.saved _ _ hfirst started)
  | some doc =>
    obtain ⟨l, stage, hl, begun, rfl⟩ := sound.manifest doc hdoc
    have hl' : s.stages l ≠ none := by
      rw [hl]
      rintro ⟨⟩
    have read : o.metadata = l.metadata stage := by
      have manifest := viewed.metadata
      rw [State.capture, hdoc, Option.map_some, loadMetadata] at manifest
      simp only [hmanifest l stage hl] at manifest
      exact (Except.ok.inj manifest).symm
    have named : ∀ t ∈ o.summaries, contextGet t "run_id" "" ≠ [] := by
      rw [loaded, List.forall_mem_map]
      intro f hf
      obtain ⟨⟨fs, hfs, -⟩, -, id⟩ := each f hf
      rw [runId_read, id]
      exact ofString_ne_nil (sound.named f.launch (by rw [hfs]; rintro ⟨⟩))
    have same := one_run (overview_checked ho) named (by rw [read]; exact get_runId l stage)
      (ofString_ne_nil (sound.named l hl')) some
    rw [loaded, List.forall_mem_map] at same
    refine ⟨l, stage, hl, begun, fun f hf => ?_, metadata.trans read, ?_⟩
    · obtain ⟨⟨fs, hfs, -⟩, -, id⟩ := each f hf
      have ids := same f hf
      rw [runId_read, id] at ids
      exact sound.distinct f.launch l (by rw [hfs]; rintro ⟨⟩) hl'
        (JsonText.ofString_injective ids)
    · rw [complete, Analyzer.Overview.complete, Bool.and_eq_true, Bool.not_eq_true', read,
        launcherFailed_metadata, Analyzer.allComplete, Bool.and_eq_true, decide_eq_true_eq, loaded,
        List.length_map, List.all_eq_true, List.forall_mem_map, world]
      exact Iff.rfl

def heat : Launch := ⟨"run-1", "1", none, "heat", [], ["mpirun"], "2026-01-01T00:00:00+00:00", []⟩

def heatEnded : Ending := ⟨.completed 0, 1, 0, "2026-01-01T00:00:01+00:00"⟩

def heatRank : Published := ⟨heat, Recording.sentOnce, Recording.finalSnapshot⟩

def heatManifest : PyStr := Analyzer.written
  ["\x7b\"schema_version\": 1, \"run_id\": \"run-1\", \"workload\": \"heat\", ",
    "\"capture_epoch\": \"1\", \"attempt_id\": \"run-1\", \"tags\": \x7b\x7d, ",
    "\"command\": [\"mpirun\"], \"started_at\": \"2026-01-01T00:00:00+00:00\", ",
    "\"state\": \"completed\", \"scheduler\": \x7b\x7d, \"telemetry\": ",
    "\x7b\"status\": \"observed\", \"rank_summaries\": 1, \"event_streams\": 0, ",
    "\"reason\": null\x7d, \"return_code\": 0, ",
    "\"finished_at\": \"2026-01-01T00:00:01+00:00\"\x7d"]

/-- `json.dumps` of the manifest of the launch that has ended; the one before it is not read. -/
def heatWrite (metadata : Dict) : PyStr :=
  if (get metadata "return_code").isSome then heatManifest else PyStr.ofString "\x7b\x7d"

def heatReader : Interpreter :=
  { Recording.jsonReader with
    loads := fun s => if s = heatManifest then .ok (.dict (heat.metadata (.finished heatEnded)))
      else Recording.jsonReader.loads s }

def heatRun : State where
  occupied := true
  manifest := some (heatWrite (heat.metadata (.finished heatEnded)))
  ranks := [heatRank]
  stages := Function.update (Function.update (Function.update (fun _ => none) heat (some .checked))
    heat (some .running)) heat (some (.finished heatEnded))

theorem heatRun_reachable : Reachable heatWrite heatRun := by
  have known : ∀ stages : Launch → Option Stage, ∀ stage,
      Function.update stages heat (some stage) heat = some stage :=
    fun stages stage => Function.update_self _ _ _
  have checked := Reachable.step .initial (@Step.check heatWrite .initial heat (by decide) rfl
    ⟨by decide, fun m h => absurd rfl h⟩)
  have started := checked.step
    (@Step.save heatWrite _ heat .checked .running (known State.initial.stages _) .start)
  have published := started.step (@Step.publish heatWrite _ heatRank .running
    (known (Function.update State.initial.stages heat (some .checked)) _)
    (by rintro ⟨⟩) Recording.sentOnce_reaches (by decide)
    ⟨by decide, by decide +kernel, by decide +kernel⟩ rfl)
  exact published.step (@Step.save heatWrite _ heat .running (.finished heatEnded)
    (known (Function.update State.initial.stages heat (some .checked)) _) (.finish heatEnded))

theorem heatWrite_ended : heatWrite (heat.metadata (.finished heatEnded)) = heatManifest := by
  rw [heatWrite, get_returnCode]
  rfl

theorem heatReader_manifest : heatReader.loads (heatWrite (heat.metadata (.finished heatEnded))) =
    .ok (.dict (heat.metadata (.finished heatEnded))) := by
  rw [heatWrite_ended, heatReader]
  generalize heatManifest = manifest
  exact if_pos rfl

theorem heatReader_reads : ReadsJson heatReader := by
  intro chars v h
  have back : (chars.map Char.toNat).map Char.ofNat = chars := by
    rw [List.map_map]
    exact (List.map_congr_left (fun c _ => Char.ofNat_toNat c)).trans (List.map_id chars)
  have other : chars.map Char.toNat ≠ heatManifest := by
    intro same
    have unread : JsonText.parse (heatManifest.map Char.ofNat) = none := by decide +kernel
    rw [← same, back, h] at unread
    exact absurd unread (by rintro ⟨⟩)
  exact (if_neg other).trans (Recording.jsonReader_reads chars v h)

theorem analysis_isolated_sample : ∃ result l stage,
    analyze heatReader (heatRun.capture "capture" [heatRank] []) 2 = .ok result ∧
      Isolated heatRun [heatRank] result l stage := by
  have succeeds : (analyze heatReader (heatRun.capture "capture" [heatRank] []) 2).toOption.isSome =
      true := by
    decide +kernel
  cases h : analyze heatReader (heatRun.capture "capture" [heatRank] []) 2 with
  | error e =>
    rw [h] at succeeds
    exact absurd succeeds (by rintro ⟨⟩)
  | ok result =>
    have only : ∀ l stage, heatRun.stages l = some stage →
        l = heat ∧ stage = .finished heatEnded := by
      intro l stage hl
      have ended : heatRun.stages heat = some (.finished heatEnded) := by simp [heatRun]
      by_cases same : l = heat
      · rw [same, ended] at hl
        exact ⟨same, (Option.some.inj hl).symm⟩
      · simp [heatRun, Function.update_of_ne same] at hl
    obtain ⟨l, stage, isolated⟩ := analysis_isolated heatReader_reads (by
      intro l stage hl
      obtain ⟨rfl, rfl⟩ := only l stage hl
      exact heatReader_manifest) heatRun_reachable (List.Perm.refl _) h
    exact ⟨result, l, stage, rfl, isolated⟩

end isolation

end Launching

end RankLens
