import RankLens.Entries

namespace RankLens

open ReportRevisionWorker (inputBefore inputsOf inputFingerprint segmentDocument)

namespace Deployment

variable {env : Env} {c c' : Catalog} {k : AttemptKey} {g : Nat} {xs ys : List ReportInput}

/-- What manifests are ordered by. -/
def inputRank (x : SegmentManifest) : List String ×ₗ Nat ×ₗ Uuid :=
  toLex ([x.producerId, x.transportEpoch, x.streamId], toLex (x.firstSequence, x.receiptId))

theorem inputBefore_iff {a b : SegmentManifest} : inputBefore a b = true ↔ inputRank a ≤ inputRank b := by
  simp only [inputBefore, inputRank, Prod.Lex.toLex_le_toLex, Bool.or_eq_true, Bool.and_eq_true,
    decide_eq_true_eq]

theorem sorted_inputs (l : List SegmentManifest) :
    (l.insertionSort (fun a b => inputBefore a b = true)).Pairwise
      (fun a b => inputRank a ≤ inputRank b) := by
  have : Std.Total (fun a b : SegmentManifest => inputBefore a b = true) :=
    ⟨fun a b => by simpa only [inputBefore_iff] using le_total (inputRank a) (inputRank b)⟩
  have : IsTrans SegmentManifest (fun a b => inputBefore a b = true) :=
    ⟨fun a b c => by
      simpa only [inputBefore_iff] using fun h h' => le_trans (a := inputRank a) h h'⟩
  exact (List.pairwise_insertionSort _ l).imp inputBefore_iff.mp

theorem sublist_of_sorted {α : Type} [DecidableEq α] {le : α → α → Prop} {l l' : List α}
    (hanti : ∀ a b, a ∈ l → b ∈ l → le a b → le b a → a = b) (hl : l.Pairwise le)
    (hl' : l'.Pairwise le) (hn : l.Nodup) (hn' : l'.Nodup) (hsub : l ⊆ l') : l.Sublist l' := by
  have hperm : (l'.filter (fun x => decide (x ∈ l))).Perm l := by
    refine (List.perm_ext_iff_of_nodup (hn'.filter _) hn).mpr (fun x => ?_)
    rw [List.mem_filter, decide_eq_true_eq]
    exact ⟨And.right, fun hx => ⟨hsub hx, hx⟩⟩
  have heq : l'.filter (fun x => decide (x ∈ l)) = l := by
    refine List.Perm.eq_of_pairwise (fun a b ha hb => ?_) (hl'.sublist List.filter_sublist) hl hperm
    exact hanti a b (hperm.mem_iff.mp ha) hb
  exact heq ▸ List.filter_sublist

/-- What a report takes from a manifest, once it is normalized. -/
def inputOf (c : Catalog) (x : SegmentManifest) : Option ReportInput :=
  (c.normalized.get x.receiptId).map (fun n =>
    ⟨x.receiptId, x.payloadSha256, x.objectKey, n.recordCount, n.normalizerVersion⟩)

def inputManifests (k : AttemptKey) (g : Nat) (c : Catalog) : List SegmentManifest :=
  (c.manifests.select (fun m => m.attempt = k && m.deletionGeneration = g)).insertionSort
    (fun a b => inputBefore a b = true)

theorem mem_inputManifests {x : SegmentManifest} : x ∈ inputManifests k g c ↔
    x ∈ c.manifests ∧ x.attempt = k ∧ x.deletionGeneration = g := by
  rw [inputManifests, List.mem_insertionSort, Table.mem_select, Bool.and_eq_true, decide_eq_true_eq,
    decide_eq_true_eq]

theorem nodup_inputManifests : (inputManifests k g c).Nodup :=
  (List.perm_insertionSort _ _).nodup_iff.mpr Table.nodup_select

theorem inputsOf_eq : inputsOf k g c = (inputManifests k g c).filterMap (inputOf c) := rfl

/-- Nothing of the attempt is taken away. -/
structure Growing (k : AttemptKey) (c c' : Catalog) : Prop where
  manifests : ∀ x ∈ c.manifests, x.attempt = k → x ∈ c'.manifests
  normalized : ∀ x ∈ c.manifests, x.attempt = k → ∀ n, c.normalized.get x.receiptId = some n →
    c'.normalized.get x.receiptId = some n

theorem inputsOf_mono (h : Growing k c c') : (inputsOf k g c).Sublist (inputsOf k g c') := by
  have hsame : inputsOf k g c = (inputManifests k g c).filterMap
      (fun x => if (c.normalized.get x.receiptId).isSome then inputOf c' x else none) := by
    rw [inputsOf_eq]
    refine List.filterMap_congr (fun x hx => ?_)
    obtain ⟨hx, hk, _⟩ := mem_inputManifests.mp hx
    cases hn : c.normalized.get x.receiptId with
    | none => simp [inputOf, hn]
    | some n => simp [inputOf, hn, h.normalized x hx hk n hn]
  have hle : ((inputManifests k g c).filterMap (fun x =>
      if (c.normalized.get x.receiptId).isSome then inputOf c' x else none)).Sublist
        ((inputManifests k g c).filterMap (inputOf c')) := by
    generalize inputManifests k g c = l
    induction l with
    | nil => exact .slnil
    | cons x l ih =>
      by_cases hs : (c.normalized.get x.receiptId).isSome = true
      · rw [List.filterMap_cons, List.filterMap_cons, if_pos hs]
        cases inputOf c' x with
        | none => exact ih
        | some i => exact ih.cons_cons i
      · rw [List.filterMap_cons_none (by rw [if_neg hs]), List.filterMap_cons]
        cases inputOf c' x with
        | none => exact ih
        | some i => exact ih.cons i
  rw [hsame]
  refine hle.trans (List.Sublist.filterMap _ ?_)
  refine sublist_of_sorted (fun a b ha hb hab hba => ?_) (sorted_inputs _) (sorted_inputs _)
    nodup_inputManifests nodup_inputManifests (fun x hx => ?_)
  · have hrank := congrArg (fun r : List String ×ₗ Nat ×ₗ Uuid => (ofLex (ofLex r).2).2) (le_antisymm hab hba)
    exact Table.eq_of_key (mem_inputManifests.mp ha).1 (mem_inputManifests.mp hb).1 hrank
  · obtain ⟨hx, hk, hg⟩ := mem_inputManifests.mp hx
    exact mem_inputManifests.mpr ⟨h.manifests x hx hk, hk, hg⟩

theorem records_of_documents (h : xs.map segmentDocument = ys.map segmentDocument) :
    xs.map ReportInput.recordCount = ys.map ReportInput.recordCount := by
  induction xs generalizing ys with
  | nil =>
    cases ys with
    | nil => rfl
    | cons y ys => cases h
  | cons x xs ih =>
    cases ys with
    | nil => cases h
    | cons y ys =>
      rw [List.map_cons, List.map_cons, List.cons.injEq] at h
      rw [List.map_cons, List.map_cons, ih h.2]
      have hdoc := h.1
      simp only [segmentDocument, Json.object.injEq, List.cons.injEq, Prod.mk.injEq, Json.int.injEq,
        true_and, Int.ofNat_inj] at hdoc
      rw [hdoc.2.2.2.1]

end Deployment

end RankLens
