import RankLens.Projection
import RankLens.Reports

namespace RankLens

open Interleaving (Ending)
open ReportRevisionWorker (inputsOf inputFingerprint Heading Publishing Revising Advancing headCurrent
  newRevision nextNumber sameInput segmentDocument)

/-- What the head and a revision have in common. -/
def ReportHead.shows (h : ReportHead) : Nat × Nat × Uuid × String :=
  (h.deletionGeneration, h.revisionNumber, h.revisionId, h.inputFingerprint)

def ReportRevision.shown (r : ReportRevision) : Nat × Nat × Uuid × String :=
  (r.deletionGeneration, r.revisionNumber, r.revisionId, r.inputFingerprint)

namespace Deployment

variable {env : Env} {settings : IngestionSettings} {m : Memory} {c c' : Catalog}
  {w w' : ObjectStore} {s s' : State} {call : Call} {a : Reply} {e : Ending Failure Reply}
  {k : AttemptKey} {r r' : ReportRevision} {n : Nat} {inputs : List ReportInput}
  {rs : List ReportRevision}

/-- The fingerprint tells the documents of the inputs. -/
def Telling (env : Env) : Prop :=
  ∀ xs ys, inputFingerprint env xs = inputFingerprint env ys →
    xs.map segmentDocument = ys.map segmentDocument

/-- The revision reports the inputs under the number. -/
structure Files (env : Env) (k : AttemptKey) (r : ReportRevision) (n : Nat)
    (inputs : List ReportInput) : Prop where
  attempt : r.attempt = k
  generation : r.deletionGeneration = 0
  number : r.revisionNumber = n
  fingerprint : r.inputFingerprint = inputFingerprint env inputs
  segments : r.segmentCount = inputs.length
  records : r.recordCount = (inputs.map ReportInput.recordCount).sum

/-- Revisions on growing inputs, numbered from one, the last first. -/
inductive Chronicle (env : Env) (k : AttemptKey) : Nat → List ReportInput → List ReportRevision → Prop where
  | empty : Chronicle env k 0 [] []
  | publish {n : Nat} {inputs current : List ReportInput} {r : ReportRevision}
      {rs : List ReportRevision} (h : Chronicle env k n inputs rs) (hsub : inputs.Sublist current)
      (hlt : n ≠ 0 → inputs.length < current.length) (hr : Files env k r (n + 1) current) :
      Chronicle env k (n + 1) current (r :: rs)

theorem Chronicle.eq_nil (h : Chronicle env k n inputs rs) (hn : n = 0) : rs = [] := by
  cases h with
  | empty => rfl
  | publish => exact absurd hn (Nat.succ_ne_zero _)

theorem Chronicle.numbers (h : Chronicle env k n inputs rs) :
    (rs.map ReportRevision.revisionNumber).Perm (List.range' 1 n) := by
  induction h with
  | empty => exact List.Perm.refl _
  | @publish n _ _ r rs _ _ _ hr ih =>
    rw [List.map_cons, hr.number, List.range'_1_concat, Nat.add_comm n 1]
    exact (ih.cons _).trans (List.perm_append_singleton _ _).symm

theorem Chronicle.nodup (h : Chronicle env k n inputs rs) : rs.Nodup :=
  List.Nodup.of_map _ (h.numbers.nodup_iff.mpr List.nodup_range')

theorem Chronicle.member (h : Chronicle env k n inputs rs) (hr : r ∈ rs) :
    ∃ old, Files env k r r.revisionNumber old ∧ old.Sublist inputs ∧ r.revisionNumber ≤ n ∧
      (r.revisionNumber < n → old.length < inputs.length) := by
  induction h with
  | empty => cases hr
  | @publish n inputs current r₀ rs h hsub hlt hr₀ ih =>
    rcases List.mem_cons.mp hr with rfl | hr
    · have hnumber := hr₀.number
      exact ⟨current, hnumber ▸ hr₀, .refl _, hnumber.le, fun h => absurd h (by omega)⟩
    · obtain ⟨old, hfile, hold, hle, _⟩ := ih hr
      have hn : n ≠ 0 := fun h0 => by
        rw [h.eq_nil h0] at hr
        cases hr
      refine ⟨old, hfile, hold.trans hsub, hle.trans (Nat.le_succ n), fun _ => ?_⟩
      exact lt_of_le_of_lt hold.length_le (hlt hn)

theorem length_of_fingerprint (hinj : Telling env) {xs ys : List ReportInput}
    (h : inputFingerprint env xs = inputFingerprint env ys) : xs.length = ys.length := by
  have hlen := congrArg List.length (hinj xs ys h)
  rwa [List.length_map, List.length_map] at hlen

theorem records_of_fingerprint (hinj : Telling env) {xs ys : List ReportInput}
    (h : inputFingerprint env xs = inputFingerprint env ys) :
    (xs.map ReportInput.recordCount).sum = (ys.map ReportInput.recordCount).sum :=
  congrArg List.sum (records_of_documents (hinj xs ys h))

theorem sum_le_of_sublist {xs ys : List Nat} (h : xs.Sublist ys) : xs.sum ≤ ys.sum := by
  induction h with
  | slnil => exact le_refl _
  | cons y _ ih =>
    rw [List.sum_cons]
    omega
  | cons_cons y _ ih =>
    rw [List.sum_cons, List.sum_cons]
    omega

theorem Chronicle.order (hinj : Telling env) (h : Chronicle env k n inputs rs) (hr : r ∈ rs)
    (hr' : r' ∈ rs) : (r.revisionNumber ≤ r'.revisionNumber →
      r.segmentCount ≤ r'.segmentCount ∧ r.recordCount ≤ r'.recordCount) ∧
      (r.inputFingerprint = r'.inputFingerprint → r = r') := by
  induction h with
  | empty => cases hr
  | @publish n inputs current r₀ rs h hsub hlt hr₀ ih =>
    have hlater : ∀ x ∈ rs, x.revisionNumber ≤ n ∧ x.segmentCount ≤ r₀.segmentCount ∧
        x.recordCount ≤ r₀.recordCount ∧ x.inputFingerprint ≠ r₀.inputFingerprint := by
      intro x hx
      obtain ⟨old, hfile, hold, hle, _⟩ := h.member hx
      have hn : n ≠ 0 := fun h0 => by
        rw [h.eq_nil h0] at hx
        cases hx
      have hcur := hold.trans hsub
      refine ⟨hle, ?_, ?_, fun he => ?_⟩
      · rw [hfile.segments, hr₀.segments]
        exact hcur.length_le
      · rw [hfile.records, hr₀.records]
        exact sum_le_of_sublist (hcur.map _)
      · rw [hfile.fingerprint, hr₀.fingerprint] at he
        have hlen := length_of_fingerprint hinj he
        have hshort := lt_of_le_of_lt hold.length_le (hlt hn)
        omega
    rcases List.mem_cons.mp hr with rfl | hold
    all_goals rcases List.mem_cons.mp hr' with rfl | hold'
    · exact ⟨fun _ => ⟨le_refl _, le_refl _⟩, fun _ => rfl⟩
    · obtain ⟨hle, _, _, hne⟩ := hlater r' hold'
      refine ⟨fun hnumber => ?_, fun he => absurd he.symm hne⟩
      rw [hr₀.number] at hnumber
      omega
    · obtain ⟨_, hs, hrec, hne⟩ := hlater r hold
      exact ⟨fun _ => ⟨hs, hrec⟩, fun he => absurd he hne⟩
    · exact ih hold hold'

/-- The revisions of the attempt are a chronicle up to its inputs, and its head shows the last. -/
structure Charted (env : Env) (k : AttemptKey) (c : Catalog) (n : Nat) (inputs : List ReportInput)
    (rs : List ReportRevision) : Prop where
  chronicle : Chronicle env k n inputs rs
  rows : ∀ r, r ∈ rs ↔ r ∈ c.revisions ∧ r.attempt = k
  current : inputs.Sublist (inputsOf k 0 c)
  head : (c.heads.get k).map ReportHead.shows = rs.head?.map ReportRevision.shown

theorem Charted.keep (h : Charted env k c n inputs rs)
    (hrows : ∀ r, r.attempt = k → (r ∈ c'.revisions ↔ r ∈ c.revisions))
    (hheads : c'.heads.get k = c.heads.get k) (hgrow : Growing k c c') :
    Charted env k c' n inputs rs where
  chronicle := h.chronicle
  rows r := by
    rw [h.rows]
    exact and_congr_left (fun hk => (hrows r hk).symm)
  current := h.current.trans (inputsOf_mono hgrow)
  head := hheads ▸ h.head

theorem Charted.last (h : Charted env k c n inputs rs) :
    (n = 0 ∧ c.heads.get k = none) ∨ ∃ hd, c.heads.get k = some hd ∧ n ≠ 0 ∧
      hd.deletionGeneration = 0 ∧ hd.revisionNumber = n ∧
      hd.inputFingerprint = inputFingerprint env inputs := by
  obtain ⟨hchron, _, _, hhead⟩ := h
  cases hchron with
  | empty =>
    rw [List.head?_nil, Option.map_none, Option.map_eq_none_iff] at hhead
    exact Or.inl ⟨rfl, hhead⟩
  | publish _ _ _ hr =>
    rw [List.head?_cons, Option.map_some] at hhead
    obtain ⟨hd, hget, hshows⟩ := Option.map_eq_some_iff.mp hhead
    simp only [ReportHead.shows, ReportRevision.shown, Prod.mk.injEq] at hshows
    exact Or.inr ⟨hd, hget, Nat.succ_ne_zero _, hshows.1.trans hr.generation,
      hshows.2.1.trans hr.number, hshows.2.2.2.trans hr.fingerprint⟩

section publication

variable {b : BuiltReport}

theorem Charted.behind (h : Charted env b.attempt c n inputs rs)
    (hgen : b.generation = 0)
    (hcurrent : inputFingerprint env (inputsOf b.attempt b.generation c) = b.fingerprint)
    (hold : (c.heads.get b.attempt).any (headCurrent b) = false) (hn : n ≠ 0) :
    inputs.length < (inputsOf b.attempt 0 c).length := by
  refine lt_of_le_of_ne h.current.length_le (fun hlen => ?_)
  have heq := h.current.eq_of_length hlen
  rcases h.last with ⟨h0, _⟩ | ⟨hd, hget, _, hdg, _, hfp⟩
  · exact hn h0
  · rw [hget, Option.any_some] at hold
    rw [hgen, ← heq] at hcurrent
    simp [headCurrent, hdg, hgen, hfp, hcurrent] at hold

theorem Charted.unseen (hinj : Telling env) (h : Charted env b.attempt c n inputs rs)
    (hgen : b.generation = 0)
    (hcurrent : inputFingerprint env (inputsOf b.attempt b.generation c) = b.fingerprint)
    (hold : (c.heads.get b.attempt).any (headCurrent b) = false) (hr : r ∈ rs) :
    r.inputFingerprint ≠ b.fingerprint := by
  intro he
  obtain ⟨old, hfile, hsub, _, _⟩ := h.chronicle.member hr
  have hn : n ≠ 0 := fun h0 => by
    rw [h.chronicle.eq_nil h0] at hr
    cases hr
  rw [hfile.fingerprint, ← hcurrent, hgen] at he
  have hlen := length_of_fingerprint hinj he
  have hlt := h.behind hgen hcurrent hold hn
  have hle := hsub.length_le
  omega

theorem Charted.next (h : Charted env b.attempt c n inputs rs) (hgen : b.generation = 0) :
    nextNumber b (c.heads.get b.attempt) = n + 1 := by
  rcases h.last with ⟨h0, hnone⟩ | ⟨hd, hget, _, hdg, hnum, _⟩
  · rw [hnone, h0]
    rfl
  · rw [hget, nextNumber, hdg, hgen, if_pos rfl, hnum]

theorem files_next (hinj : Telling env) (hb : Built env b) (hgen : b.generation = 0)
    (hcurrent : inputFingerprint env (inputsOf b.attempt b.generation c) = b.fingerprint) {id : Uuid}
    {now : Instant} : Files env b.attempt (newRevision b n id now) n (inputsOf b.attempt 0 c) := by
  have hfp : inputFingerprint env b.inputs = inputFingerprint env (inputsOf b.attempt 0 c) := by
    rw [hgen] at hcurrent
    obtain ⟨plan, parquet, rfl⟩ := hb
    exact hcurrent.symm
  refine ⟨rfl, hgen, rfl, ?_, length_of_fingerprint hinj hfp, records_of_fingerprint hinj hfp⟩
  rw [← hgen]
  exact hcurrent.symm

theorem charted_heading (hinj : Telling env) (h : Charted env b.attempt c n inputs rs)
    (hb : Built env b) (hgen : b.generation = 0)
    (hcurrent : inputFingerprint env (inputsOf b.attempt b.generation c) = b.fingerprint)
    (hh : Heading b c c'.revisions c'.heads) (hm : c'.manifests = c.manifests)
    (hn : c'.normalized = c.normalized) :
    ∃ n inputs rs, Charted env b.attempt c' n inputs rs := by
  have hinputs : inputsOf b.attempt 0 c' = inputsOf b.attempt 0 c := by
    rw [inputsOf_eq, inputsOf_eq, inputManifests, inputManifests, hm]
    refine List.filterMap_congr (fun x _ => ?_)
    rw [inputOf, inputOf, hn]
  generalize hrev : c'.revisions = revisions, hheads : c'.heads = heads at hh
  cases hh with
  | current =>
    exact ⟨n, inputs, rs, h.chronicle, fun r => by rw [hrev, h.rows], hinputs ▸ h.current,
      hheads ▸ h.head⟩
  | @advanced r _ _ hold hr hadv =>
    cases hr with
    | existing hmem hsame =>
      simp only [sameInput, Bool.and_eq_true, decide_eq_true_eq] at hsame
      exact absurd hsame.2 (h.unseen hinj hgen hcurrent hold ((h.rows r).mpr ⟨hmem, hsame.1.1⟩))
    | @added id now hnone hnew =>
      have hfile := @files_next _ _ (n + 1) _ hinj hb hgen hcurrent id now
      rw [h.next hgen] at *
      refine ⟨n + 1, _, _, .publish h.chronicle h.current (h.behind hgen hcurrent hold) hfile,
        fun x => ?_, hinputs ▸ .refl _, ?_⟩
      · rw [hrev, List.mem_cons, h.rows, Table.mem_insert hnew]
        constructor
        · rintro (rfl | ⟨hx, hk⟩)
          · exact ⟨Or.inr rfl, rfl⟩
          · exact ⟨Or.inl hx, hk⟩
        · rintro ⟨hx | rfl, hk⟩
          · exact Or.inr ⟨hx, hk⟩
          · exact Or.inl rfl
      · rw [hheads, List.head?_cons, Option.map_some]
        cases hadv with
        | first hfree =>
          exact congrArg (Option.map ReportHead.shows) ((Table.get_insert
            (r := ReportRevisionWorker.newHead b _ _) hfree).trans (if_pos rfl))
        | moved hget => exact congrArg (Option.map ReportHead.shows) (Table.get_modify_self hget)

end publication

theorem charted_effect (hinj : Telling env) (he : EvidenceEffect env s.memory s.catalog w call a c' w')
    (hs : Sound env s) (hp : InPost s) (hk : ¬Fenced k s.catalog)
    (h : Charted env k s.catalog n inputs rs) : ∃ n inputs rs, Charted env k c' n inputs rs := by
  have hgrow := growing_of_extent (evidence_extent he) hk
  have hkeep : c'.revisions = s.catalog.revisions → c'.heads = s.catalog.heads →
      ∃ n inputs rs, Charted env k c' n inputs rs := fun hrev hheads =>
    ⟨n, inputs, rs, h.keep (fun r _ => by rw [hrev]) (by rw [hheads]) hgrow⟩
  cases he with
  | same h => exact hkeep h.revisions h.heads
  | admitted _ _ _ _ _ _ _ _ _ _ _ _ hrev hheads => exact hkeep hrev hheads
  | leased => exact hkeep rfl rfl
  | failed => exact hkeep rfl rfl
  | normalized _ h => cases h <;> exact hkeep rfl rfl
  | @reported _ _ _ _ _ _ _ b _ _ _ hb hpub =>
    cases hpub with
    | aside => exact hkeep rfl rfl
    | published _ hcurrent _ _ _ _ _ hheads _ hget =>
      by_cases hbk : b.attempt = k
      · have hgen := ((hp.planned hb).about _ (Table.mem_of_get hget) (Table.key_of_get hget)).2
        have hbuilt := hs.reports b ⟨_, _, Or.inr (mem_of_lookup hb)⟩
        subst hbk
        exact charted_heading hinj h hbuilt hgen hcurrent hheads rfl rfl
      · refine ⟨n, inputs, rs, h.keep (fun r hr => ?_) (heading_other hheads hbk) hgrow⟩
        cases hheads with
        | current => exact Iff.rfl
        | advanced _ hrev =>
          cases hrev with
          | added _ hnew =>
            show r ∈ Table.insert _ _ ↔ _
            rw [Table.mem_insert hnew, or_iff_left]
            rintro rfl
            exact hbk hr
          | existing => exact Iff.rfl
  | @erased l _ _ _ _ _ hc hrows =>
    have hne : k ≠ l.attempt := fun h => hk (h ▸ fenced_of_cleared hc)
    refine ⟨n, inputs, rs, h.keep (fun r hr => ?_) (Table.get_congr (fun x hx => ?_)) hgrow⟩
    · rw [hrows.revisions]
      exact ⟨And.left, fun hmem => ⟨hmem, hr ▸ hne⟩⟩
    · rw [hrows.heads]
      exact ⟨And.left, fun hmem => ⟨hmem, hx ▸ hne⟩⟩

theorem charted_of_reachable (hinj : Telling env) (h : Reachable env settings s) :
    ∀ k, ¬Fenced k s.catalog → ∃ n inputs rs, Charted env k s.catalog n inputs rs := by
  induction h with
  | start =>
    refine fun k _ => ⟨0, [], [], .empty, fun r => ?_, List.nil_sublist _, rfl⟩
    constructor
    · intro hr
      cases hr
    · intro ⟨hr, _⟩
      exact absurd hr (Table.not_mem_empty r)
  | step hr hs _ ih =>
    obtain ⟨_, _, ⟨a, rfl, heff⟩ | ⟨_, hc, _⟩⟩ := step_cases hs
    · intro k hk
      have hk' := fun hf => hk (fenced_mono (lifecycle_aging (effect_lifecycle heff)) hf)
      obtain ⟨n, inputs, rs, h⟩ := ih k hk'
      exact charted_effect hinj (step_evidence hs) (sound_of_reachable hr) (inPost_of_reachable hr)
        hk' h
    · exact hc ▸ ih

theorem revision_fits (hinj : Telling env) {b : BuiltReport}
    (h : Charted env b.attempt c n inputs rs) (hgen : b.generation = 0)
    (hcurrent : inputFingerprint env (inputsOf b.attempt b.generation c) = b.fingerprint)
    (hold : (c.heads.get b.attempt).any (headCurrent b) = false) {id : Uuid} {now : Instant}
    (hr : r ∈ c.revisions) : Tables.revisions.clashes
      (newRevision b (nextNumber b (c.heads.get b.attempt)) id now) r = false := by
  rw [h.next hgen]
  by_cases hk : r.attempt = b.attempt
  · have hmem := (h.rows r).mpr ⟨hr, hk⟩
    have hfp := h.unseen hinj hgen hcurrent hold hmem
    obtain ⟨_, _, _, hle, _⟩ := h.chronicle.member hmem
    have hnumber : n + 1 ≠ r.revisionNumber := by omega
    simp [Ref.clashes, newRevision, hnumber, hfp.symm]
  · have hk' : b.attempt ≠ r.attempt := fun h => hk h.symm
    have hkey : (newRevision b (n + 1) id now).attempt ≠ r.attempt := hk'
    simp [Ref.clashes, hkey]

/-- The reports of a live attempt are a gapless history. -/
structure Gapless (k : AttemptKey) (c : Catalog) : Prop where
  numbers : ∃ n, ((c.revisions.select (fun r => r.attempt = k)).map
      ReportRevision.revisionNumber).Perm (List.range' 1 n) ∧
    (c.heads.get k = none ↔ n = 0) ∧ ∀ h, c.heads.get k = some h →
      ∃ r ∈ c.revisions, r.attempt = k ∧ r.revisionNumber = n ∧ h.shows = r.shown
  distinct : ∀ r ∈ c.revisions, ∀ r' ∈ c.revisions, r.attempt = k → r'.attempt = k →
    r.inputFingerprint = r'.inputFingerprint → r = r'
  ordered : ∀ r ∈ c.revisions, ∀ r' ∈ c.revisions, r.attempt = k → r'.attempt = k →
    r.revisionNumber ≤ r'.revisionNumber →
      r.segmentCount ≤ r'.segmentCount ∧ r.recordCount ≤ r'.recordCount

theorem gapless_of_charted (hinj : Telling env) (h : Charted env k c n inputs rs) : Gapless k c := by
  refine ⟨⟨n, ?_, ?_, fun hd hget => ?_⟩, fun r hr r' hr' hk hk' => ?_, fun r hr r' hr' hk hk' => ?_⟩
  · have hperm : (c.revisions.select (fun r => r.attempt = k)).Perm rs := by
      refine (List.perm_ext_iff_of_nodup Table.nodup_select h.chronicle.nodup).mpr (fun r => ?_)
      rw [Table.mem_select, decide_eq_true_eq, h.rows]
    exact (hperm.map _).trans h.chronicle.numbers
  · rcases h.last with ⟨h0, hnone⟩ | ⟨hd, hget, hn, _⟩
    · exact ⟨fun _ => h0, fun _ => hnone⟩
    · rw [hget]
      exact ⟨fun h => (nomatch h), fun h => absurd h hn⟩
  · have hhead := h.head
    rw [hget, Option.map_some] at hhead
    obtain ⟨r, hr, hshown⟩ := Option.map_eq_some_iff.mp hhead.symm
    obtain ⟨hmem, hk⟩ := (h.rows r).mp (List.mem_of_head? hr)
    rcases h.last with ⟨_, hnone⟩ | ⟨hd', hget', _, _, hnumber, _⟩
    · rw [hget] at hnone
      cases hnone
    · rw [hget] at hget'
      cases hget'
      simp only [ReportHead.shows, ReportRevision.shown, Prod.mk.injEq] at hshown
      refine ⟨r, hmem, hk, hshown.2.1.trans hnumber, ?_⟩
      simp only [ReportHead.shows, ReportRevision.shown, Prod.mk.injEq]
      exact ⟨hshown.1.symm, hshown.2.1.symm, hshown.2.2.1.symm, hshown.2.2.2.symm⟩
  · exact (h.chronicle.order hinj ((h.rows r).mpr ⟨hr, hk⟩) ((h.rows r').mpr ⟨hr', hk'⟩)).2
  · exact (h.chronicle.order hinj ((h.rows r).mpr ⟨hr, hk⟩) ((h.rows r').mpr ⟨hr', hk'⟩)).1

/-- Report revisions form a gapless history, to which every publication adds without a clash. -/
structure RevisionHistory (env : Env) (s : State) : Prop where
  gapless : ∀ k, Accepting k s.catalog → Gapless k s.catalog
  fits : ∀ ticket l b id now r, reportAt s.memory ticket = some (l, .reserved b) →
    Outbox.generationOpen b.generation (s.catalog.generations.get b.attempt) = true →
    inputFingerprint env (inputsOf b.attempt b.generation s.catalog) = b.fingerprint →
    (s.catalog.heads.get b.attempt).any (headCurrent b) = false → r ∈ s.catalog.revisions →
    Tables.revisions.clashes
      (newRevision b (nextNumber b (s.catalog.heads.get b.attempt)) id now) r = false

theorem revision_history (hinj : Telling env) (h : Reachable env settings s) :
    RevisionHistory env s := by
  have hchart := charted_of_reachable hinj h
  refine ⟨fun k hk => ?_, fun ticket l b id now r _ hopen hcurrent hold hr => ?_⟩
  · obtain ⟨n, inputs, rs, hc⟩ := hchart k (not_fenced hk)
    exact gapless_of_charted hinj hc
  · obtain ⟨g, hget, hg⟩ := (Option.any_eq_true _ _).mp hopen
    simp only [Bool.and_eq_true, decide_eq_true_eq, Option.isNone_iff_eq_none] at hg
    have hmem := Table.mem_of_get hget
    have hgen : b.generation = 0 :=
      hg.2.symm.trans ((sound_of_reachable h).live g hmem hg.1)
    obtain ⟨n, inputs, rs, hc⟩ := hchart b.attempt
      (not_fenced ⟨g, hmem, Table.key_of_get hget, hg.1⟩)
    exact revision_fits hinj hc hgen hcurrent hold hr

end Deployment

-- A site whose fingerprints tell the inputs, and one report of the upload.
namespace Sample

def encodeNat (n : Nat) : Bytes := List.replicate n 1 ++ [0]

def encodeChar (c : Char) : Bytes :=
  if c.toNat < 127 then [UInt8.ofNat (c.toNat + 1)]
  else [255, UInt8.ofNat c.toNat, UInt8.ofNat (c.toNat / 256), UInt8.ofNat (c.toNat / 65536)]

def encodeChars : List Char → Bytes
  | [] => [0]
  | c :: cs => encodeChar c ++ encodeChars cs

def encodeString (s : String) : Bytes := encodeChars s.toList

def encodeList {α : Type} (f : α → Bytes) : List α → Bytes
  | [] => [0]
  | x :: xs => 1 :: (f x ++ encodeList f xs)

def encodeDocument : Json → Bytes
  | .object [(_, .str version), (_, .str digest), (_, .int receipt), (_, .int records)] =>
    encodeString version ++ (encodeString digest ++ (encodeNat receipt.toNat ++ encodeNat records.toNat))
  | _ => []

def encodeAttempt (k : AttemptKey) : Bytes :=
  encodeString k.tenantId ++ (encodeString k.clusterId ++ encodeString k.attemptId)

/-- What a report says that its segments do not. -/
def encodeReport : Json → Bytes
  | .object [(_, .str attemptId), _, (_, .str clusterId), (_, .int generation), _,
      (_, .object [(_, .int rows), (_, .str schema), (_, .str digest)]), _, _, _,
      (_, .list segments), (_, .str tenantId), _] =>
    encodeAttempt ⟨tenantId, clusterId, attemptId⟩ ++ (encodeNat generation.toNat ++
      (encodeNat rows.toNat ++ (encodeString schema ++ (encodeString digest ++
        encodeList encodeDocument segments))))
  | _ => []

def dumps : Json → Bytes
  | .list documents => encodeList encodeDocument documents
  | report => encodeReport report

/-- The `json` module on the only line there is. -/
def pythonLines : Python where
  loads line := if line = [123, 125] then .ok (.object []) else .error "Expecting value"
  dumps _ := .ok [123, 125]

/-- A file with the attempt column of the rows. -/
def write (rows : List NormalizedRow) : Bytes :=
  encodeList encodeAttempt (rows.map NormalizedRow.attempt)

def reporting : Env :=
  { env with
    dumps := dumps
    buildNormalizedParquet k segments maxSegments maxRecords maxInputBytes :=
      (Parquet.buildNormalizedRows pythonLines k segments maxSegments maxRecords maxInputBytes).map
        (fun rows => ⟨write rows, "normalized-record-v2", rows.length⟩) }

/-- An encoding that can be read off the front of a text. -/
def PrefixFree {α β : Type} (f : α → Bytes) (g : α → β) : Prop :=
  ∀ x y t t', f x ++ t = f y ++ t' → g x = g y ∧ t = t'

theorem encodeNat_prefixFree : PrefixFree encodeNat id := by
  intro n m t t' h
  induction n generalizing m with
  | zero =>
    cases m with
    | zero => exact ⟨rfl, List.cons.inj h |>.2⟩
    | succ m =>
      rw [encodeNat, encodeNat, List.replicate_succ] at h
      cases h
  | succ n ih =>
    cases m with
    | zero =>
      rw [encodeNat, encodeNat, List.replicate_succ] at h
      cases h
    | succ m =>
      rw [encodeNat, encodeNat, List.replicate_succ, List.replicate_succ] at h
      obtain ⟨hnm, ht⟩ := ih m (List.cons.inj h).2
      exact ⟨congrArg Nat.succ hnm, ht⟩

theorem mod_of_byte {n m : Nat} (h : UInt8.ofNat n = UInt8.ofNat m) : n % 256 = m % 256 := by
  have hn := congrArg UInt8.toNat h
  rwa [UInt8.toNat_ofNat', UInt8.toNat_ofNat'] at hn

theorem encodeChar_prefixFree : PrefixFree encodeChar id := by
  intro c d t t' h
  have hbound : ∀ x : Char, x.toNat < 16777216 := by
    intro x
    rcases x.valid with hv | hv
    · exact lt_of_lt_of_le hv (by decide)
    · exact lt_trans hv.2 (by decide)
  have hc := hbound c
  have hd := hbound d
  have hmark : (255 : UInt8) = UInt8.ofNat 255 := rfl
  unfold encodeChar at h
  split_ifs at h with hlow hlow'
  all_goals simp only [List.cons_append, List.nil_append, List.cons.injEq, hmark] at h
  · have e₀ := mod_of_byte h.1
    exact ⟨Char.toNat_inj.mp (by simp only [id]; omega), h.2⟩
  · have e₀ := mod_of_byte h.1
    omega
  · have e₀ := mod_of_byte h.1
    omega
  · obtain ⟨-, h₀, h₁, h₂, ht⟩ := h
    have e₀ := mod_of_byte h₀
    have e₁ := mod_of_byte h₁
    have e₂ := mod_of_byte h₂
    exact ⟨Char.toNat_inj.mp (by simp only [id]; omega), ht⟩

theorem encodeChar_ne_end (c : Char) (t t' : Bytes) : encodeChar c ++ t ≠ [0] ++ t' := by
  unfold encodeChar
  intro h
  split_ifs at h with hlow
  · have e₀ := mod_of_byte (n := c.toNat + 1) (m := 0) (List.cons.inj h).1
    omega
  · cases (List.cons.inj h).1

theorem encodeChars_prefixFree : PrefixFree encodeChars id := by
  intro cs ds t t' h
  induction cs generalizing ds with
  | nil =>
    cases ds with
    | nil => exact ⟨rfl, (List.cons.inj h).2⟩
    | cons d ds =>
      rw [encodeChars, encodeChars, List.append_assoc] at h
      exact absurd h.symm (encodeChar_ne_end _ _ _)
  | cons c cs ih =>
    cases ds with
    | nil =>
      rw [encodeChars, encodeChars, List.append_assoc] at h
      exact absurd h (encodeChar_ne_end _ _ _)
    | cons d ds =>
      rw [encodeChars, encodeChars, List.append_assoc, List.append_assoc] at h
      obtain ⟨hcd, h⟩ := encodeChar_prefixFree _ _ _ _ h
      obtain ⟨hrest, ht⟩ := ih ds h
      exact ⟨congrArg₂ List.cons hcd hrest, ht⟩

theorem encodeList_prefixFree {α β : Type} {f : α → Bytes} {g : α → β} (hf : PrefixFree f g) :
    PrefixFree (encodeList f) (List.map g) := by
  intro xs ys t t' h
  induction xs generalizing ys with
  | nil =>
    cases ys with
    | nil => exact ⟨rfl, (List.cons.inj h).2⟩
    | cons y ys => cases (List.cons.inj h).1
  | cons x xs ih =>
    cases ys with
    | nil => cases (List.cons.inj h).1
    | cons y ys =>
      have hrest : (f x ++ encodeList f xs) ++ t = (f y ++ encodeList f ys) ++ t' :=
        (List.cons.inj h).2
      rw [List.append_assoc, List.append_assoc] at hrest
      obtain ⟨hxy, hrest⟩ := hf x y _ _ hrest
      obtain ⟨hmap, ht⟩ := ih ys hrest
      exact ⟨by rw [List.map_cons, List.map_cons, hxy, hmap], ht⟩

theorem encodeString_prefixFree : PrefixFree encodeString id := by
  intro s s' t t' h
  obtain ⟨hs, ht⟩ := encodeChars_prefixFree _ _ _ _ h
  exact ⟨String.toList_inj.mp hs, ht⟩

theorem encodeDocument_prefixFree :
    PrefixFree (fun i => encodeDocument (segmentDocument i)) segmentDocument := by
  intro i j t t' h
  simp only [encodeDocument, segmentDocument, List.append_assoc] at h
  obtain ⟨hversion, h⟩ := encodeString_prefixFree _ _ _ _ h
  obtain ⟨hdigest, h⟩ := encodeString_prefixFree _ _ _ _ h
  obtain ⟨hreceipt, h⟩ := encodeNat_prefixFree _ _ _ _ h
  obtain ⟨hrecords, ht⟩ := encodeNat_prefixFree _ _ _ _ h
  simp only [id, Int.toNat_natCast] at hversion hdigest hreceipt hrecords
  exact ⟨by rw [segmentDocument, segmentDocument, hversion, hdigest, hreceipt, hrecords], ht⟩

theorem encodeList_map {α β : Type} (f : β → Bytes) (g : α → β) (xs : List α) :
    encodeList f (xs.map g) = encodeList (fun x => f (g x)) xs := by
  induction xs with
  | nil => rfl
  | cons x xs ih => rw [List.map_cons, encodeList, encodeList, ih]

theorem reporting_telling : Deployment.Telling reporting := by
  intro xs ys h
  have hdumps : dumps (.list (xs.map segmentDocument)) = dumps (.list (ys.map segmentDocument)) :=
    sha256_injective h
  rw [dumps, dumps, encodeList_map, encodeList_map] at hdumps
  exact (encodeList_prefixFree encodeDocument_prefixFree xs ys [] [] (by rw [hdumps])).1

end Sample

namespace Deployment

theorem revision_history_sample : ∃ s, runCalls Sample.reporting Sample.settings
    (Sample.admission ++ Sample.normalization ++ Sample.report) .initial = some s ∧
    (s.catalog.heads.get Sample.attempt₁).map ReportHead.revisionNumber = some 1 ∧
    RevisionHistory Sample.reporting s := by
  have h : (runCalls Sample.reporting Sample.settings
      (Sample.admission ++ Sample.normalization ++ Sample.report) .initial).map
        (fun s => (s.catalog.heads.get Sample.attempt₁).map ReportHead.revisionNumber) =
          some (some 1) := by decide +kernel
  obtain ⟨s, hs, hhead⟩ := Option.map_eq_some_iff.mp h
  exact ⟨s, hs, hhead, revision_history Sample.reporting_telling (run_of_runCalls _ _ .start hs)⟩

end Deployment

end RankLens
