import RankLens.Ownership

namespace RankLens

open Interleaving (Ending)
open AttemptDeletionWorker (Cleared Erasable)

namespace Deployment

variable {env : Env} {settings : IngestionSettings} {s s' : State} {call : Call} {a : Reply}
  {e : Ending Failure Reply} {c : Catalog} {k : AttemptKey} {key : ObjectKey} {digest : String}

/-- The catalog records the object of the attempt with the digest. -/
inductive Recorded (k : AttemptKey) (c : Catalog) : ObjectKey → String → Prop where
  | segment {x : SegmentManifest} (hx : x ∈ c.manifests) (hk : x.attempt = k) :
      Recorded k c x.objectKey x.payloadSha256
  | report {x : ReportRevision} (hx : x ∈ c.revisions) (hk : x.attempt = k) :
      Recorded k c x.reportObjectKey x.reportSha256
  | parquet {x : ReportRevision} {key : ObjectKey} {digest : String} (hx : x ∈ c.revisions)
      (hk : x.attempt = k) (hkey : x.parquetObjectKey = some key)
      (hd : x.parquetSha256 = some digest) : Recorded k c key digest

theorem Recorded.objectOf (h : Recorded k c key digest) : ObjectOf k c key := by
  cases h with
  | segment hx hk => exact .manifest hx hk rfl
  | report hx hk => exact .report hx hk rfl
  | parquet hx hk hkey _ => exact .parquet hx hk hkey

/-- Every recorded object of an attempt that is not fenced is there. -/
def Durable (env : Env) (c : Catalog) (w : ObjectStore) : Prop :=
  ∀ k key digest, Recorded k c key digest → ¬Fenced k c → Holds env w key digest

theorem touches_holds (hsep : Separate s.catalog) {w' : ObjectStore}
    (ht : Touches env s.memory s.catalog s.objects call w') (hr : Recorded k s.catalog key digest)
    (hf : ¬Fenced k s.catalog) (hh : Holds env s.objects key digest) : Holds env w' key digest := by
  have hdeletes : ∀ {P : ObjectKey → Prop}, Deletes P s.objects w' → ¬P key →
      Holds env w' key digest := by
    intro P hd hP
    obtain ⟨payload, hp, hdigest⟩ := hh
    have hsame := (hd key).resolve_right (fun h => hP h.1)
    exact ⟨payload, hsame.trans hp, hdigest⟩
  unfold Touches at ht
  split at ht
  · obtain ⟨f, _, hput⟩ := ht
    exact hput.holds hh
  · obtain ⟨lease, b, _, hstores⟩ := ht
    exact hstores.holds hh
  · exact hdeletes ht (fun h => h.1 hr.objectOf.referenced)
  · refine hdeletes ht (fun ⟨hc, he⟩ => hf ?_)
    exact hsep _ _ _ he hr.objectOf ▸ fenced_of_cleared hc
  · exact ht ▸ hh

theorem recorded_origin {m : Memory} {w w' : ObjectStore} {c' : Catalog}
    (h : Effect env m c w call a c' w') (ht : Touches env m c w call w')
    (hr : Recorded k c' key digest) : Recorded k c key digest ∨ Holds env w' key digest := by
  cases hr with
  | @segment x hx hk =>
    rcases manifest_origin (effect_admission h) hx with
      hx | ⟨_, _, _, _, _, f, _, _, rfl, _, _, hobj, _, _, _, rfl⟩
    · exact Or.inl (.segment hx hk)
    · obtain rfl : w' = w := ht
      exact Or.inr hobj
  | @report x hx hk =>
    rcases revision_origin (effect_report h) hx with hx | ⟨_, _, b, _, _, _, _, _, hobj, _, rfl⟩
    · exact Or.inl (.report hx hk)
    · exact Or.inr hobj
  | @parquet x key digest hx hk hkey hd =>
    rcases revision_origin (effect_report h) hx with hx | ⟨_, _, b, _, _, _, _, _, _, hobj, rfl⟩
    · exact Or.inl (.parquet hx hk hkey hd)
    · cases hkey
      cases hd
      exact Or.inr hobj

theorem durable_step (hsep : Separate s.catalog) (h : Step env settings s call e s')
    (hd : Durable env s.catalog s.objects) :
    Durable env s'.catalog s'.objects := by
  intro k key digest hr hf
  obtain ⟨_, ht, ⟨a, rfl, heff⟩ | ⟨_, hc, _⟩⟩ := step_cases h
  · have hf' : ¬Fenced k s.catalog :=
      fun hk => hf (fenced_mono (lifecycle_aging (effect_lifecycle heff)) hk)
    rcases recorded_origin heff ht hr with hold | hnew
    · exact touches_holds hsep ht hold hf' (hd k key digest hold hf')
    · exact hnew
  · rw [hc] at hr hf
    exact touches_holds hsep ht hr hf (hd k key digest hr hf)

/-- While erasures keep to their own attempts, the recorded objects stay. -/
theorem durable_of_reachable (hsep : ∀ s, Reachable env settings s → Separate s.catalog)
    (h : Reachable env settings s) : Durable env s.catalog s.objects := by
  induction h with
  | start =>
    intro k key digest hr
    cases hr with
    | segment hx => exact absurd hx (Table.not_mem_empty _)
    | report hx => exact absurd hx (Table.not_mem_empty _)
    | parquet hx => exact absurd hx (Table.not_mem_empty _)
  | step hr hs _ ih => exact durable_step (hsep _ hr) hs ih

def Live (k : AttemptKey) (c : Catalog) : Prop :=
  ∃ g, c.generations.get k = some g ∧ g.deletedAt = none

/-- The manifests and the revisions of the live attempts have their objects. -/
structure NoDangling (env : Env) (s : State) : Prop where
  segments : ∀ x ∈ s.catalog.manifests, Live x.attempt s.catalog →
    Holds env s.objects x.objectKey x.payloadSha256
  reports : ∀ x ∈ s.catalog.revisions, Live x.attempt s.catalog →
    Holds env s.objects x.reportObjectKey x.reportSha256
  parquets : ∀ x ∈ s.catalog.revisions, Live x.attempt s.catalog →
    ∃ key digest, x.parquetObjectKey = some key ∧ x.parquetSha256 = some digest ∧
      Holds env s.objects key digest

/-- No reachable state has a reference to an object that is missing or corrupt. -/
theorem no_dangling_reference (hinj : Function.Injective env.bucket)
    (h : Reachable env settings s) : NoDangling env s := by
  have hsep : ∀ s, Reachable env settings s → Separate s.catalog := by
    intro s hr
    have hs := sound_of_reachable hr
    exact separate hs (separateReports_of_buckets hinj hs)
  have hd := durable_of_reachable hsep h
  have hlive : ∀ k, Live k s.catalog → ¬Fenced k s.catalog :=
    fun k ⟨g, hget, hg⟩ => not_fenced_of_live hget hg
  refine ⟨fun x hx hl => ?_, fun x hx hl => ?_, fun x hx hl => ?_⟩
  · exact hd _ _ _ (.segment hx rfl) (hlive _ hl)
  · exact hd _ _ _ (.report hx rfl) (hlive _ hl)
  · obtain ⟨_, hdigest, hkey⟩ := ((sound_of_reachable h).revisions x hx).parquet
    exact ⟨_, _, hkey, hdigest, hd _ _ _ (.parquet hx rfl hkey hdigest) (hlive _ hl)⟩

theorem no_dangling_reference_sample : ∃ s,
    runCalls Sample.env Sample.settings Sample.admission .initial = some s ∧
    s.catalog.manifests.rows.length = 1 ∧ NoDangling Sample.env s := by
  have h : (runCalls Sample.env Sample.settings Sample.admission .initial).map
      (fun s => s.catalog.manifests.rows.length) = some 1 := by decide +kernel
  obtain ⟨s, hs, hrows⟩ := Option.map_eq_some_iff.mp h
  exact ⟨s, hs, hrows, no_dangling_reference Sample.bucket_injective (run_of_runCalls _ _ .start hs)⟩

end Deployment

end RankLens
