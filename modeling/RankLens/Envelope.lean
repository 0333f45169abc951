import RankLens.Contract
import RankLens.Agent
import RankLens.Deployment

namespace RankLens

variable {α β : Type} {es : List ValidationError}

theorem also_error {x : Checked α} (f : Checked (α → β)) (h : x = .error es) :
    ∃ es', also x f = .error es' ∧ es ⊆ es' := by
  subst h
  cases f with
  | ok g => exact ⟨es, rfl, fun _ he => he⟩
  | error es' => exact ⟨es' ++ es, rfl, List.subset_append_right es' es⟩

namespace SegmentUpload

variable (pydantic : Pydantic) {members : List (String × JsonValue)}

theorem forbidExtra_error {names : List String} {m : String × JsonValue} (hm : m ∈ members)
    (hname : m.1 ∉ names) :
    ∃ es, forbidExtra members names = .error es ∧ ⟨[m.1], .extraForbidden⟩ ∈ es := by
  have hkey : m.1 ∈ JsonValue.unknown names members := by
    refine List.mem_filter.mpr ⟨List.mem_map_of_mem hm, ?_⟩
    simpa using hname
  unfold forbidExtra
  split
  · next hnil =>
    rw [hnil] at hkey
    cases hkey
  · exact ⟨_, rfl, List.mem_map_of_mem hkey⟩

theorem modelValidate_error (h : checkMembers pydantic members = .error es) :
    modelValidate pydantic (.object members) = .error es := by
  have hcertified : ∀ (e : Checked SegmentFields) (hv : ∀ f, e = .ok f → f.Valid),
      e = .error es → certified e hv = .error es := by
    intro e hv he
    subst he
    rfl
  exact hcertified _ _ h

theorem modelValidate_extra {m : String × JsonValue} (hm : m ∈ members)
    (hname : m.1 ∉ modelFields) :
    ∃ es, modelValidate pydantic (.object members) = .error es ∧
      ⟨[m.1], .extraForbidden⟩ ∈ es := by
  obtain ⟨es, hes, hextra⟩ := forbidExtra_error hm hname
  obtain ⟨es', hes', hsub⟩ := also_error (also (checkFields pydantic members)
    (Except.ok (fun f _ => f) : Checked (SegmentFields → Unit → SegmentFields))) hes
  have hcheck : checkMembers pydantic members = .error es' := by
    unfold checkMembers
    generalize checkFields pydantic members = checked at hes' ⊢
    rw [hes']
  exact ⟨es', modelValidate_error pydantic hcheck, hsub hextra⟩

end SegmentUpload

/-- The server admits the body: it parses as an upload, and its payload prepares. -/
def Admissible (pydantic : Pydantic) (env : Env) (settings : IngestionSettings)
    (tenantId : String) (body : JsonValue) : Prop :=
  ∃ segment prepared, SegmentUpload.modelValidate pydantic body = .ok segment ∧
    IngestionService.preparePayload env settings tenantId segment = .ok prepared

namespace Agent

variable (pydantic : Pydantic) (env : Env) (settings : IngestionSettings) (tenantId : String)

theorem not_admissible_of_error {body : JsonValue} {es : List ValidationError}
    (h : SegmentUpload.modelValidate pydantic body = .error es) :
    ¬ Admissible pydantic env settings tenantId body := by
  intro ⟨segment, _, hparse, _⟩
  rw [h] at hparse
  cases hparse

/-- No envelope of the agent is admitted: it carries the measured budgets, and the
contract forbids a member it does not name. -/
theorem envelope_refused (u : SegmentUpload) :
    ¬ Admissible pydantic env settings tenantId u.toJson ∧
      ∃ es, RankLens.SegmentUpload.modelValidate pydantic u.toJson = .error es ∧
        ⟨["node_budget"], .extraForbidden⟩ ∈ es := by
  have hm : ("node_budget", u.nodeBudget.toJson) ∈ u.members := by
    simp [SegmentUpload.members]
  obtain ⟨es, hes, hextra⟩ :=
    RankLens.SegmentUpload.modelValidate_extra pydantic hm
      (show "node_budget" ∉ RankLens.SegmentUpload.modelFields by decide)
  exact ⟨not_admissible_of_error pydantic env settings tenantId hes, es, hes, hextra⟩

end Agent

namespace Sample

/-- SHA-256 on the payload and on the name of the event stream. -/
def spoolSha256 (p : Bytes) : String :=
  if p = payload then "ca3d163bab055381827226140568f3bef7eaac187cebd76878e0b63e9e442356"
  else if p = [109, 112, 105, 45, 101, 118, 101, 110, 116, 115] then
    "e073f090581d061f47825b05bb0ea98ec8a3a1674919a645483248f024393321"
  else "e1cec866f4ff59b53f8ba9bb0dcd2fdb28465f67c0cefc605d10ca1e01e72ca6"

def spoolEnv : Env where
  sha256 := spoolSha256
  bucket := id
  loads _ := .object
  dumps _ := []
  isoformat _ := ""
  buildNormalizedParquet _ _ _ _ _ := .error "Parquet input is empty"

def config : Agent.Config where
  clusterId := "cluster-a"
  attemptId := "attempt-1"
  producerId := "agent-1"
  deletionGeneration := 0
  maxSpoolBytes := 1073741824
  minSpoolFreeBytes := 0
  maxAgentMemoryBytes := 0
  identities := by decide
  generation := by decide
  budget := by decide

def fresh : Agent.State := ⟨"b6f1c0de", fun _ => 0, fun _ => ⟨0, ""⟩⟩

def emptySpool : Agent.Spool := ⟨.empty, 0, .empty, some fresh⟩

/-- Nothing to strip and nothing to read as a number. -/
def strict : Pydantic := ⟨id, fun _ => none⟩

/-- One record of the event stream, sealed. -/
def sealing : Agent.Spool :=
  (Agent.spoolPayload spoolEnv config (.calm 8000000 50000000) "mpi-events" payload 1 fresh
    emptySpool).1

end Sample

namespace Agent

/-- The budgets are all the contract has against the envelope. -/
theorem envelope_drifts : ∃ u, Sample.sealing.pending.rows.map PendingFile.upload = [u] ∧
    RankLens.SegmentUpload.modelValidate Sample.strict u.toJson =
      .error [⟨["node_budget"], .extraForbidden⟩] ∧
    ¬ Admissible Sample.strict Sample.spoolEnv Sample.settings "acme" u.toJson := by
  have herror : Sample.sealing.pending.rows.map (fun p =>
      RankLens.SegmentUpload.checkMembers Sample.strict p.upload.members) =
        [.error [⟨["node_budget"], .extraForbidden⟩]] := by decide +kernel
  obtain ⟨p, hp, hcheck⟩ := List.map_eq_singleton_iff.mp herror
  have hparse := RankLens.SegmentUpload.modelValidate_error Sample.strict hcheck
  refine ⟨p.upload, by rw [hp, List.map_singleton], hparse, ?_⟩
  exact not_admissible_of_error Sample.strict Sample.spoolEnv Sample.settings "acme" hparse

end Agent

end RankLens
