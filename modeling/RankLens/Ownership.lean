import RankLens.Soundness

namespace RankLens

open Integrity (Referenced)
open AttemptDeletionWorker (Cleared Erasable revisionObjects)

namespace Deployment

variable {env : Env} {s : State} {c : Catalog} {k k' : AttemptKey} {key : ObjectKey}

def Fenced (k : AttemptKey) (c : Catalog) : Prop :=
  ∃ g ∈ c.generations, g.attempt = k ∧ g.deletedAt ≠ none

/-- A manifest, a live reservation or a revision of the attempt names the object. -/
inductive ObjectOf (k : AttemptKey) (c : Catalog) (key : ObjectKey) : Prop where
  | manifest {x : SegmentManifest} (hx : x ∈ c.manifests) (hk : x.attempt = k)
      (hkey : x.objectKey = key)
  | reservation {x : AdmissionReservation} (hx : x ∈ c.reservations) (hk : x.attempt = k)
      (hkey : x.objectKey = key) (hr : x.refers = true)
  | report {x : ReportRevision} (hx : x ∈ c.revisions) (hk : x.attempt = k)
      (hkey : x.reportObjectKey = key)
  | parquet {x : ReportRevision} (hx : x ∈ c.revisions) (hk : x.attempt = k)
      (hkey : x.parquetObjectKey = some key)

theorem ObjectOf.referenced (h : ObjectOf k c key) : Referenced c key := by
  cases h with
  | manifest hx _ hkey => exact .manifest hx hkey
  | reservation hx _ hkey hr => exact .reservation hx hkey hr
  | report hx _ hkey => exact .report hx hkey
  | parquet hx _ hkey => exact .parquet hx hkey

theorem referenced_iff : Referenced c key ↔ ∃ k, ObjectOf k c key := by
  constructor
  · intro h
    cases h with
    | manifest hx hkey => exact ⟨_, .manifest hx rfl hkey⟩
    | reservation hx hkey hr => exact ⟨_, .reservation hx rfl hkey hr⟩
    | report hx hkey => exact ⟨_, .report hx rfl hkey⟩
    | parquet hx hkey => exact ⟨_, .parquet hx rfl hkey⟩
  · intro ⟨k, h⟩
    exact h.referenced

/-- The object of a report, by the attempt it is of. -/
def ReportKey (env : Env) (k : AttemptKey) (key : ObjectKey) : Prop :=
  ∃ digest suffix, key = ReportRevisionWorker.objectKey env k digest suffix

theorem reportKey_unique (hinj : Function.Injective env.bucket) (h : ReportKey env k key)
    (h' : ReportKey env k' key) : k = k' := by
  obtain ⟨d, x, rfl⟩ := h
  obtain ⟨d', x', he⟩ := h'
  simp only [ReportRevisionWorker.objectKey, ObjectKey.report.injEq] at he
  obtain ⟨ht, hc, ha, _⟩ := he
  cases k
  cases k'
  rw [AttemptKey.mk.injEq]
  exact ⟨hinj ht, hinj hc, hinj ha⟩

theorem segmentKey_ne {tenantId clusterId digest : String} (h : ReportKey env k key) :
    segmentKey env tenantId clusterId digest ≠ key := by
  obtain ⟨d, x, rfl⟩ := h
  exact fun he => nomatch he

def HasArtifact (r : ReportRevision) (key : ObjectKey) : Prop :=
  r.reportObjectKey = key ∨ r.parquetObjectKey = some key

theorem artifact_of_revisionObjects {r : ReportRevision} {digest : String}
    (h : (key, digest) ∈ revisionObjects r) : HasArtifact r key := by
  rw [revisionObjects, List.mem_cons] at h
  rcases h with h | h
  · exact Or.inl (Prod.mk.inj h).1.symm
  · split at h
    · next hkey _ =>
      split at h
      · cases h
      · cases List.mem_singleton.mp h
        exact Or.inr hkey
    · cases h

theorem HasArtifact.reportKey {r : ReportRevision} (h : HasArtifact r key) (hr : Sourced env r) :
    ReportKey env r.attempt key := by
  rcases h with h | h
  · exact ⟨_, _, h.symm.trans hr.report⟩
  · obtain ⟨_, _, hkey⟩ := hr.parquet
    rw [h, Option.some.injEq] at hkey
    exact ⟨_, _, hkey⟩

/-- No two attempts have a report under one key. -/
def SeparateReports (c : Catalog) : Prop :=
  ∀ r ∈ c.revisions, ∀ r' ∈ c.revisions, ∀ key, HasArtifact r key → HasArtifact r' key →
    r.attempt = r'.attempt

theorem separateReports_of_buckets (hinj : Function.Injective env.bucket) (hs : Sound env s) :
    SeparateReports s.catalog := by
  intro r hr r' hr' key h h'
  exact reportKey_unique hinj (h.reportKey (hs.revisions r hr)) (h'.reportKey (hs.revisions r' hr'))

theorem ObjectOf.shape (hs : Sound env s) (h : ObjectOf k s.catalog key) :
    (∃ tenantId clusterId digest, key = segmentKey env tenantId clusterId digest) ∨
      ∃ r ∈ s.catalog.revisions, r.attempt = k ∧ HasArtifact r key := by
  cases h with
  | manifest hx _ hkey => exact Or.inl ⟨_, _, _, hkey ▸ hs.catalog.segments _ hx⟩
  | reservation hx _ hkey _ => exact Or.inl ⟨_, _, _, hkey ▸ hs.catalog.reserved _ hx⟩
  | report hx hk hkey => exact Or.inr ⟨_, hx, hk, Or.inl hkey⟩
  | parquet hx hk hkey => exact Or.inr ⟨_, hx, hk, Or.inr hkey⟩

/-- An erasure can remove no object of another attempt. -/
def Separate (c : Catalog) : Prop :=
  ∀ k k' key, Erasable k' c key → ObjectOf k c key → k = k'

theorem separate (hs : Sound env s) (hd : SeparateReports s.catalog) : Separate s.catalog := by
  intro k k' key he h
  cases he with
  | @segment m hm hk hkey hmanifests hreservations =>
    have hseg := hs.catalog.segments m hm
    rw [hkey] at hseg
    have hreport : ∀ r ∈ s.catalog.revisions, ¬HasArtifact r key := fun r hr hn =>
      segmentKey_ne (hn.reportKey (hs.revisions r hr)) hseg.symm
    cases h with
    | manifest hx hxk hxkey => exact hxk.symm.trans (hmanifests _ hx hxkey)
    | reservation hx hxk hxkey hr => exact hxk.symm.trans (hreservations _ hx hxkey hr)
    | report hx _ hxkey => exact absurd (Or.inl hxkey) (hreport _ hx)
    | parquet hx _ hxkey => exact absurd (Or.inr hxkey) (hreport _ hx)
  | @report r digest hr hk hkey =>
    have hn := artifact_of_revisionObjects hkey
    rcases h.shape hs with ⟨t, cl, d, hseg⟩ | ⟨r', hr', hk', hn'⟩
    · exact absurd hseg.symm (segmentKey_ne (hn.reportKey (hs.revisions r hr)))
    · exact hk' ▸ hk ▸ hd r' hr' r hr key hn' hn

theorem fenced_of_cleared {l : DeletionLease} (h : Cleared l c) : Fenced l.attempt c := by
  obtain ⟨g, hget, hd, _⟩ := h.fenced
  refine ⟨g, Table.mem_of_get hget, Table.key_of_get hget, ?_⟩
  intro hnone
  rw [hnone] at hd
  cases hd

theorem fenced_mono {c' : Catalog} (h : Aging c.generations c'.generations) (hf : Fenced k c) :
    Fenced k c' := by
  obtain ⟨g, hg, hk, hd⟩ := hf
  obtain ⟨g', hg', hk', _, hd'⟩ := h.monotone g hg
  exact ⟨g', hg', hk'.trans hk, hd' hd⟩

theorem not_fenced_of_live {g : AttemptGeneration} (hget : c.generations.get k = some g)
    (hd : g.deletedAt = none) : ¬Fenced k c := by
  intro ⟨g', hg', hk, hd'⟩
  have he : g' = g := Table.eq_of_key hg' (Table.mem_of_get hget) (hk.trans (Table.key_of_get hget).symm)
  exact hd' (he ▸ hd)

end Deployment

end RankLens
