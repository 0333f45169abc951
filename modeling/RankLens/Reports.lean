import RankLens.Inputs
import RankLens.Normalizing
import RankLens.Ownership

namespace RankLens

open Interleaving (Ending)
open AttemptDeletionWorker (Cleared OutboxOf requestOf)
open ReportRevisionWorker (inputsOf inputFingerprint Heading Publishing headCurrent)

namespace Deployment

variable {env : Env} {settings : IngestionSettings} {m : Memory} {c c' : Catalog}
  {w w' : ObjectStore} {s s' : State} {call : Call} {a : Reply} {e : Ending Failure Reply}
  {k k' : AttemptKey} {n : NormalizedSegment} {x : SegmentManifest} {r r' : OutboxRecord}

/-- The attempt accepts telemetry. -/
def Accepting (k : AttemptKey) (c : Catalog) : Prop :=
  ∃ g ∈ c.generations, g.attempt = k ∧ g.deletedAt = none

theorem not_fenced (h : Accepting k c) : ¬Fenced k c := by
  obtain ⟨g, hg, rfl, hd⟩ := h
  exact not_fenced_of_live (Table.get_of_mem hg) hd

theorem growing_of_extent (he : Extent c c') (hk : ¬Fenced k c) : Growing k c c' := by
  cases he with
  | grown hm hn =>
    refine ⟨fun x hx _ => hm x hx, fun x _ _ n hget => ?_⟩
    exact Table.key_of_get hget ▸ Table.get_of_mem (hn n (Table.mem_of_get hget))
  | @erased l hc _ hn hm =>
    have hne : k ≠ l.attempt := fun h => hk (h ▸ fenced_of_cleared hc)
    refine ⟨fun x hx hxk => (hm x).mpr ⟨hx, hxk ▸ hne⟩, fun x hx hxk n hget => ?_⟩
    have hkey : n.receiptId = x.receiptId := Table.key_of_get hget
    have hmem : n ∈ c'.normalized := (hn n).mpr ⟨Table.mem_of_get hget, fun y hy hyk hid => ?_⟩
    · exact hkey ▸ Table.get_of_mem hmem
    · have hxy := Table.eq_of_key hx hy (hkey.symm.trans hid)
      exact hne (hxk.symm.trans (hxy ▸ hyk))

/-- The head of the attempt shows a report on inputs that contain the segment. -/
def Shown (env : Env) (k : AttemptKey) (n : NormalizedSegment) (c : Catalog) : Prop :=
  ∃ h inputs, c.heads.get k = some h ∧ h.deletionGeneration = 0 ∧
    h.inputFingerprint = inputFingerprint env inputs ∧ ∃ i ∈ inputs, i.receiptId = n.receiptId ∧
      i.payloadSha256 = n.payloadSha256 ∧ i.recordCount = n.recordCount

/-- A report on the attempt is still asked for. -/
def Outstanding (k : AttemptKey) (c : Catalog) : Prop :=
  ∃ r ∈ c.outbox, Requests k r ∧ (r.state = .pending ∨ r.state = .processing ∨ r.state = .failed)

theorem heading_other {b : BuiltReport} {revisions : Table ReportRevision.revisionId}
    {heads : Table ReportHead.attempt} (h : Heading b c revisions heads) (hk : b.attempt ≠ k) :
    heads.get k = c.heads.get k := by
  cases h with
  | current => rfl
  | advanced _ _ hadv =>
    cases hadv with
    | first hnew => exact (Table.get_insert hnew).trans (if_neg hk)
    | moved => exact Table.get_modify_of_ne hk.symm

/-- Every normalized segment of a live attempt is shown, or a report is still asked for. -/
def Reported (env : Env) (k : AttemptKey) (c : Catalog) : Prop :=
  ∀ n ∈ c.normalized, ∀ x ∈ c.manifests, n.receiptId = x.receiptId → x.attempt = k →
    Shown env k n c ∨ Outstanding k c

end Deployment

namespace Sample

def reporter : ReportRevisionWorker := ⟨10, 10, 1000, 300, by decide⟩

/-- One report from the claim to the publication. -/
def report : List Call :=
  [.reportClaim "reporter" 60 8 [], .reportRead 0 ⟨6, 1, "reporter"⟩,
    .reportBuild 0 reporter Faults.none, .reportReserve 0 reporter (fun k => k.path.length) 9,
    .reportPublish 0 reporter Faults.none (fun k => k.path.length) 10 11]

end Sample

namespace Deployment

end Deployment

end RankLens
