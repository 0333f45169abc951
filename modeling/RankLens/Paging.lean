import RankLens.Export

namespace RankLens

namespace Recovery

section collation

variable {collate : String → String → Bool} {x y z : String} {k k' k'' : AttemptKey}

structure Collation (collate : String → String → Bool) : Prop where
  total : ∀ a b, collate a b = true ∨ collate b a = true
  trans : ∀ a b c, collate a b = true → collate b c = true → collate a c = true
  antisymm : ∀ a b, collate a b = true → collate b a = true → a = b

/-- `>` of the database on a column. -/
def Above (collate : String → String → Bool) (x y : String) : Prop := collate x y = true ∧ x ≠ y

/-- The condition of the query of a page with a cursor. -/
def Beyond (collate : String → String → Bool) (k k' : AttemptKey) : Prop :=
  Above collate k.tenantId k'.tenantId ∨
    (k'.tenantId = k.tenantId ∧ Above collate k.clusterId k'.clusterId) ∨
    (k'.tenantId = k.tenantId ∧ k'.clusterId = k.clusterId ∧ Above collate k.attemptId k'.attemptId)

theorem Above.trans (hc : Collation collate) (h : Above collate x y) (h' : Above collate y z) :
    Above collate x z := by
  refine ⟨hc.trans x y z h.1 h'.1, fun he => ?_⟩
  subst he
  exact h.2 (hc.antisymm x y h.1 h'.1)

theorem above_trichotomy (hc : Collation collate) (x y : String) :
    Above collate x y ∨ x = y ∨ Above collate y x := by
  by_cases he : x = y
  · exact .inr (.inl he)
  · obtain h | h := hc.total x y
    · exact .inl ⟨h, he⟩
    · exact .inr (.inr ⟨h, fun he' => he he'.symm⟩)

theorem Beyond.trans (hc : Collation collate) (h : Beyond collate k k') (h' : Beyond collate k' k'') :
    Beyond collate k k'' := by
  obtain h | ⟨ht, h⟩ | ⟨ht, hcl, h⟩ := h
  · obtain h' | ⟨ht', -⟩ | ⟨ht', -, -⟩ := h'
    · exact .inl (h.trans hc h')
    · exact .inl (ht' ▸ h)
    · exact .inl (ht' ▸ h)
  · obtain h' | ⟨ht', h'⟩ | ⟨ht', hcl', -⟩ := h'
    · exact .inl (ht ▸ h')
    · exact .inr (.inl ⟨ht'.trans ht, h.trans hc h'⟩)
    · exact .inr (.inl ⟨ht'.trans ht, hcl' ▸ h⟩)
  · obtain h' | ⟨ht', h'⟩ | ⟨ht', hcl', h'⟩ := h'
    · exact .inl (ht ▸ h')
    · exact .inr (.inl ⟨ht'.trans ht, hcl ▸ h'⟩)
    · exact .inr (.inr ⟨ht'.trans ht, hcl'.trans hcl, h.trans hc h'⟩)

theorem beyond_trichotomy (hc : Collation collate) (k k' : AttemptKey) :
    Beyond collate k k' ∨ k = k' ∨ Beyond collate k' k := by
  obtain h | ht | h := above_trichotomy hc k.tenantId k'.tenantId
  · exact .inl (.inl h)
  · obtain h | hcl | h := above_trichotomy hc k.clusterId k'.clusterId
    · exact .inl (.inr (.inl ⟨ht.symm, h⟩))
    · obtain h | ha | h := above_trichotomy hc k.attemptId k'.attemptId
      · exact .inl (.inr (.inr ⟨ht.symm, hcl.symm, h⟩))
      · exact .inr (.inl (by cases k; cases k'; simp_all))
      · exact .inr (.inr (.inr (.inr ⟨ht, hcl, h⟩)))
    · exact .inr (.inr (.inr (.inl ⟨ht, h⟩)))
  · exact .inr (.inr (.inl h))

theorem Beyond.ne (h : Beyond collate k k') : k ≠ k' := by
  rintro rfl
  obtain h | ⟨-, h⟩ | ⟨-, -, h⟩ := h
  · exact h.2 rfl
  · exact h.2 rfl
  · exact h.2 rfl

theorem keyLe_and_ne : (keyLe collate k k' = true ∧ k ≠ k') ↔ Beyond collate k k' := by
  obtain ⟨t, cl, a⟩ := k
  obtain ⟨t', cl', a'⟩ := k'
  unfold keyLe Beyond Above
  dsimp only
  by_cases ht : t = t'
  · subst ht
    by_cases hcl : cl = cl'
    · subst hcl
      simp
    · have hcl' : ¬cl' = cl := fun h => hcl h.symm
      simp [hcl, hcl']
  · have ht' : ¬t' = t := fun h => ht h.symm
    simp [ht, ht']

theorem keyLe_iff (hc : Collation collate) : keyLe collate k k' = true ↔
    k = k' ∨ Beyond collate k k' := by
  rw [← keyLe_and_ne]
  constructor
  · intro h
    by_cases he : k = k'
    · exact .inl he
    · exact .inr ⟨h, he⟩
  · rintro (rfl | h)
    · have same := (hc.total k.attemptId k.attemptId).elim id id
      simpa [keyLe] using same
    · exact h.1

end collation

section pages

variable {tools : RestoreTools} {collate : String → String → Bool} {secret : String} {limit : Nat}
  {after : Option AttemptKey} {c : Catalog} {d : AttemptDeletion} {k : AttemptKey}

theorem mem_completedRows : d ∈ completedRows collate after c ↔
    d ∈ c.deletions ∧ d.state = .completed ∧ ∀ k ∈ after, Beyond collate k d.attempt := by
  unfold completedRows
  rw [List.mem_insertionSort, Table.mem_select]
  cases after with
  | none => simp
  | some k => simp [← keyLe_and_ne]

theorem completedRows_sorted (hc : Collation collate) :
    ((completedRows collate after c).map AttemptDeletion.attempt).Pairwise (Beyond collate) := by
  have : Std.Total (fun d d' : AttemptDeletion => keyLe collate d.attempt d'.attempt = true) := by
    refine ⟨fun d d' => ?_⟩
    rw [keyLe_iff hc, keyLe_iff hc]
    obtain h | h | h := beyond_trichotomy hc d.attempt d'.attempt
    · exact .inl (.inr h)
    · exact .inl (.inl h)
    · exact .inr (.inr h)
  have : IsTrans AttemptDeletion (fun d d' => keyLe collate d.attempt d'.attempt = true) := by
    refine ⟨fun d d' d'' h h' => ?_⟩
    rw [keyLe_iff hc] at h h' ⊢
    obtain h | h := h
    · rwa [h]
    · obtain h' | h' := h'
      · exact .inr (h' ▸ h)
      · exact .inr (h.trans hc h')
  have sorted : (completedRows collate after c).Pairwise
      (fun d d' => keyLe collate d.attempt d'.attempt = true) := List.pairwise_insertionSort _ _
  have unique : ((completedRows collate after c).map AttemptDeletion.attempt).Nodup := by
    refine ((List.perm_insertionSort _ _).map _).nodup_iff.mpr ?_
    exact c.deletions.nodup.sublist (List.filter_sublist.map _)
  rw [List.pairwise_map]
  exact (sorted.and (List.pairwise_map.mp unique)).imp (fun h => keyLe_and_ne.mp h)

/-- A page of a catalog and its cursor, from the cursor before. -/
structure Page (collate : String → String → Bool) (limit : Nat) (after : Option AttemptKey)
    (c : Catalog) (page : List AttemptDeletion) (next : Option AttemptKey) : Prop where
  rows : page = exportPage collate after limit c
  cursor : next = if limit < (completedRows collate after c).length then
    page.getLast?.map AttemptDeletion.attempt else none

variable {page : List AttemptDeletion} {next : Option AttemptKey}

theorem Page.sorted (hc : Collation collate) (h : Page collate limit after c page next) :
    (page.map AttemptDeletion.attempt).Pairwise (Beyond collate) := by
  rw [h.rows, exportPage, List.map_take]
  exact (completedRows_sorted hc).take

theorem Page.mem (h : Page collate limit after c page next) (hd : d ∈ page) :
    d ∈ c.deletions ∧ d.state = .completed ∧ ∀ k ∈ after, Beyond collate k d.attempt := by
  rw [h.rows] at hd
  exact mem_completedRows.mp (List.mem_of_mem_take hd)

theorem Page.complete_last (hlimit : 1 ≤ limit) (h : Page collate limit after c page none)
    (hd : d ∈ completedRows collate after c) : d ∈ page := by
  have whole : (completedRows collate after c).length ≤ limit := by
    by_contra hlt
    have last := h.cursor
    rw [if_pos (not_le.mp hlt), eq_comm, Option.map_eq_none_iff, List.getLast?_eq_none_iff, h.rows,
      exportPage, List.take_eq_nil_iff] at last
    obtain hzero | hnil := last
    · omega
    · rw [hnil] at hd
      cases hd
  rw [h.rows, exportPage, List.take_of_length_le whole]
  exact hd

theorem Page.complete_some (hc : Collation collate) (h : Page collate limit after c page (some k)) :
    (∃ d ∈ page, d.attempt = k) ∧
      (∀ d ∈ page, d.attempt = k ∨ Beyond collate d.attempt k) ∧
      ∀ d ∈ completedRows collate after c, d ∈ page ∨ Beyond collate k d.attempt := by
  have hnext := h.cursor
  split at hnext
  swap
  · cases hnext
  obtain ⟨last, hlast, rfl⟩ := Option.map_eq_some_iff.mp hnext.symm
  obtain ⟨init, hinit⟩ := List.getLast?_eq_some_iff.mp hlast
  have sorted := h.sorted hc
  rw [hinit, List.map_append, List.pairwise_append] at sorted
  refine ⟨⟨last, List.mem_of_getLast? hlast, rfl⟩, fun d hd => ?_, fun d hd => ?_⟩
  · rw [hinit] at hd
    obtain hd | hd := List.mem_append.mp hd
    · exact .inr (sorted.2.2 _ (List.mem_map_of_mem hd) _ (by simp))
    · exact .inl (congrArg _ (List.mem_singleton.mp hd))
  · have rows := @completedRows_sorted collate after c hc
    rw [← List.take_append_drop limit (completedRows collate after c)] at hd rows
    rw [List.map_append, List.pairwise_append] at rows
    obtain hd | hd := List.mem_append.mp hd
    · rw [h.rows]
      exact .inl hd
    · refine .inr (rows.2.2 _ (List.mem_map_of_mem ?_) _ (List.mem_map_of_mem hd))
      have mem := List.mem_of_getLast? hlast
      rwa [h.rows] at mem

/-- The pages of an export that follows the cursors, from one of them on: page `i` is read from the
catalog there is then. -/
inductive Follows (tools : RestoreTools) (collate : String → String → Bool) (secret : String)
    (limit : Nat) (catalogs : Nat → Catalog) (times : Nat → Instant) :
    Nat → Option AttemptKey → List (List AttemptDeletion) → Prop where
  | last {i : Nat} {after : Option AttemptKey} {page : List AttemptDeletion}
      (hpage : page = exportPage collate after limit (catalogs i))
      (h : exportCompletedTombstones tools collate secret (times i) after limit (catalogs i) =
        .ok ⟨canonical (envelopeJson tools secret (times i) page), none⟩) :
      Follows tools collate secret limit catalogs times i after [page]
  | more {i : Nat} {after : Option AttemptKey} {page : List AttemptDeletion} {k : AttemptKey}
      {pages : List (List AttemptDeletion)}
      (hpage : page = exportPage collate after limit (catalogs i))
      (h : exportCompletedTombstones tools collate secret (times i) after limit (catalogs i) =
        .ok ⟨canonical (envelopeJson tools secret (times i) page), some k⟩)
      (rest : Follows tools collate secret limit catalogs times (i + 1) (some k) pages) :
      Follows tools collate secret limit catalogs times i after (page :: pages)

theorem page_of_export {i : Nat} {catalogs : Nat → Catalog} {times : Nat → Instant}
    (hpage : page = exportPage collate after limit (catalogs i))
    (h : exportCompletedTombstones tools collate secret (times i) after limit (catalogs i) =
      .ok ⟨canonical (envelopeJson tools secret (times i) page), next⟩) :
    1 ≤ limit ∧ Page collate limit after (catalogs i) page next := by
  unfold exportCompletedTombstones at h
  split at h
  · cases h
  · next hlimit =>
    split at h
    · cases h
    · have cursor := congrArg TombstoneExport.nextCursor (Except.ok.inj h)
      rw [← hpage] at cursor
      exact ⟨(not_not.mp hlimit).1, hpage, cursor.symm⟩

def CompletedAt (c : Catalog) (k : AttemptKey) : Prop :=
  ∃ d, c.deletions.get k = some d ∧ d.state = .completed

/-- What the pages from a cursor on list: keys beyond it in order, of deletions that are completed
when their page is read, and of all that are completed at every page. -/
structure Lists (collate : String → String → Bool) (catalogs : Nat → Catalog) (i : Nat)
    (after : Option AttemptKey) (pages : List (List AttemptDeletion)) : Prop where
  sorted : (pages.flatten.map AttemptDeletion.attempt).Pairwise (Beyond collate)
  beyond : ∀ d ∈ pages.flatten, ∀ a ∈ after, Beyond collate a d.attempt
  completed : ∀ d ∈ pages.flatten, ∃ j, i ≤ j ∧ j < i + pages.length ∧
    d ∈ (catalogs j).deletions ∧ d.state = .completed
  complete : ∀ k, (∀ a ∈ after, Beyond collate a k) →
    (∀ j, i ≤ j → j < i + pages.length → CompletedAt (catalogs j) k) →
    ∃ d ∈ pages.flatten, d.attempt = k

theorem Follows.lists {catalogs : Nat → Catalog} {times : Nat → Instant} {i : Nat}
    {pages : List (List AttemptDeletion)} (hc : Collation collate)
    (h : Follows tools collate secret limit catalogs times i after pages) :
    Lists collate catalogs i after pages := by
  have row : ∀ {j : Nat} {after : Option AttemptKey} {k : AttemptKey},
      CompletedAt (catalogs j) k → (∀ a ∈ after, Beyond collate a k) →
      ∃ d ∈ completedRows collate after (catalogs j), d.attempt = k := by
    rintro j after k ⟨d, hget, hstate⟩ hk
    have key := Table.key_of_get hget
    refine ⟨d, mem_completedRows.mpr ⟨Table.mem_of_get hget, hstate, ?_⟩, key⟩
    rw [key]
    exact hk
  induction h with
  | @last i after page hpage hexport =>
    obtain ⟨hlimit, hp⟩ := page_of_export hpage hexport
    have flat : [page].flatten = page := List.flatten_singleton
    refine ⟨?_, ?_, ?_, ?_⟩ <;> rw [flat]
    · exact hp.sorted hc
    · exact fun d hd => (hp.mem hd).2.2
    · exact fun d hd => ⟨i, le_rfl, Nat.lt_succ_self i, (hp.mem hd).1, (hp.mem hd).2.1⟩
    · intro k hk hall
      obtain ⟨d, hd, rfl⟩ := row (hall i le_rfl (Nat.lt_succ_self i)) hk
      exact ⟨d, hp.complete_last hlimit hd, rfl⟩
  | @more i after page cursor pages hpage hexport rest ih =>
    obtain ⟨hlimit, hp⟩ := page_of_export hpage hexport
    obtain ⟨⟨last, hlast, hkey⟩, hupto, hall⟩ := hp.complete_some hc
    have above : ∀ d ∈ page, ∀ k, Beyond collate cursor k → Beyond collate d.attempt k := by
      intro d hd k hk
      obtain he | hb := hupto d hd
      · rwa [he]
      · exact hb.trans hc hk
    have flat : (page :: pages).flatten = page ++ pages.flatten := rfl
    refine ⟨?_, ?_, ?_, ?_⟩ <;> rw [flat]
    · rw [List.map_append, List.pairwise_append]
      refine ⟨hp.sorted hc, ih.sorted, fun x hx y hy => ?_⟩
      obtain ⟨d, hd, rfl⟩ := List.mem_map.mp hx
      obtain ⟨d', hd', rfl⟩ := List.mem_map.mp hy
      exact above d hd _ (ih.beyond d' hd' cursor rfl)
    · intro d hd a ha
      obtain hd | hd := List.mem_append.mp hd
      · exact (hp.mem hd).2.2 a ha
      · have first := (hp.mem hlast).2.2 a ha
        rw [hkey] at first
        exact first.trans hc (ih.beyond d hd cursor rfl)
    · intro d hd
      obtain hd | hd := List.mem_append.mp hd
      · exact ⟨i, le_rfl, by simp, (hp.mem hd).1, (hp.mem hd).2.1⟩
      · obtain ⟨j, hij, hj, hmem⟩ := ih.completed d hd
        refine ⟨j, by omega, ?_, hmem⟩
        rw [List.length_cons]
        omega
    · intro k hk hcompleted
      rw [List.length_cons] at hcompleted
      obtain ⟨d, hd, rfl⟩ := row (hcompleted i le_rfl (by omega)) hk
      obtain hd | hd := hall d hd
      · exact ⟨d, List.mem_append_left _ hd, rfl⟩
      · obtain ⟨d', hd', he⟩ := ih.complete d.attempt (fun a ha => by
          obtain rfl := Option.some.inj ha
          exact hd) (fun j hj hlt => hcompleted j (by omega) (by omega))
        exact ⟨d', List.mem_append_right _ hd', he⟩

/-- A key that the columns of a deletion can hold. -/
def Storable (k : AttemptKey) : Prop :=
  k.tenantId.length ≤ 128 ∧ k.clusterId.length ≤ 128 ∧ k.attemptId.length ≤ 128

theorem storable_finite : {k | Storable k}.Finite := by
  have chars : Finite Char :=
    Finite.of_injective (fun c : Char => c.val.toFin) (fun c c' h => Char.ext (UInt32.toFin_inj.mp h))
  have texts : {s : String | s.length ≤ 128}.Finite :=
    (List.finite_length_le Char 128).preimage (Function.Injective.injOn (fun a b h => String.toList_inj.mp h))
  have inject : Function.Injective
      (fun k : AttemptKey => (k.tenantId, k.clusterId, k.attemptId)) := by
    intro k k' h
    cases k
    cases k'
    simpa using h
  exact (texts.prod (texts.prod texts)).preimage inject.injOn

theorem follows_exists {catalogs : Nat → Catalog} {times : Nat → Instant} (hc : Collation collate)
    (hlimit : 1 ≤ limit ∧ limit ≤ 10000) (hsecret : 32 ≤ secret.length ∧ secret.length ≤ 1024)
    (hstored : ∀ i, ∀ d ∈ (catalogs i).deletions, Storable d.attempt) (i : Nat)
    (after : Option AttemptKey) :
    ∃ pages, Follows tools collate secret limit catalogs times i after pages := by
  -- The keys that are left beyond the cursor become fewer with every page.
  induction hn : {k | Storable k ∧ ∀ a ∈ after, Beyond collate a k}.ncard using
    Nat.strong_induction_on generalizing i after with
  | h n ih =>
    obtain ⟨next, hnext⟩ : ∃ next, exportCompletedTombstones tools collate secret (times i) after
        limit (catalogs i) = .ok ⟨canonical (envelopeJson tools secret (times i)
          (exportPage collate after limit (catalogs i))), next⟩ := by
      rw [exportCompletedTombstones, if_neg (not_not_intro hlimit), if_neg (not_not_intro hsecret)]
      exact ⟨_, rfl⟩
    cases next with
    | none => exact ⟨_, .last rfl hnext⟩
    | some k =>
      obtain ⟨-, hp⟩ := page_of_export rfl hnext
      obtain ⟨⟨last, hlast, rfl⟩, -, -⟩ := hp.complete_some hc
      obtain ⟨hmem, -, hbeyond⟩ := hp.mem hlast
      have fewer : {k | Storable k ∧ ∀ a ∈ some last.attempt, Beyond collate a k} ⊂
          {k | Storable k ∧ ∀ a ∈ after, Beyond collate a k} := by
        refine ⟨fun k hk => ⟨hk.1, fun a ha => (hbeyond a ha).trans hc (hk.2 _ rfl)⟩, fun hsub => ?_⟩
        exact ((hsub ⟨hstored i last hmem, hbeyond⟩).2 _ rfl).ne rfl
      have finite : {k | Storable k ∧ ∀ a ∈ after, Beyond collate a k}.Finite :=
        storable_finite.subset (fun k hk => hk.1)
      obtain ⟨pages, hpages⟩ := ih _ (hn ▸ Set.ncard_lt_ncard fewer finite) (i + 1)
        (some last.attempt) rfl
      exact ⟨_, .more rfl hnext hpages⟩

/-- Following the cursors from the first page on ends, and lists every deletion that is completed all
the time once, in order. -/
theorem paged_export {catalogs : Nat → Catalog} {times : Nat → Instant} (hc : Collation collate)
    (hlimit : 1 ≤ limit ∧ limit ≤ 10000) (hsecret : 32 ≤ secret.length ∧ secret.length ≤ 1024)
    (hstored : ∀ i, ∀ d ∈ (catalogs i).deletions, Storable d.attempt) :
    ∃ pages, Follows tools collate secret limit catalogs times 0 none pages ∧
      (pages.flatten.map AttemptDeletion.attempt).Pairwise (Beyond collate) ∧
      (∀ d ∈ pages.flatten, ∃ j < pages.length, d ∈ (catalogs j).deletions ∧
        d.state = .completed) ∧
      ∀ k, (∀ j < pages.length, CompletedAt (catalogs j) k) →
        (pages.flatten.map AttemptDeletion.attempt).count k = 1 := by
  obtain ⟨pages, hpages⟩ := @follows_exists tools collate secret limit catalogs times hc hlimit
    hsecret hstored 0 none
  have lists := hpages.lists hc
  refine ⟨pages, hpages, lists.sorted, fun d hd => ?_, fun k hk => ?_⟩
  · obtain ⟨j, -, hj, hmem⟩ := lists.completed d hd
    exact ⟨j, by omega, hmem⟩
  · obtain ⟨d, hd, rfl⟩ := lists.complete k nofun (fun j _ hj => hk j (by omega))
    exact List.count_eq_one_of_mem (lists.sorted.imp Beyond.ne) (List.mem_map_of_mem hd)

end pages

/-- The tombstones of the first page, and those there are from the second one on. -/
def growing (i : Nat) : Catalog :=
  let first := (Table.empty : Table AttemptDeletion.attempt).insert (Sample.erasedRow "acme")
  { Catalog.empty with
    deletions := if i = 0 then first else first.insert (Sample.erasedRow "bolt") }

theorem collation_codePoints : Collation codePoints where
  total a b := by simpa [codePoints] using String.le_total a b
  trans a b c h h' := by
    simp only [codePoints, decide_eq_true_eq] at h h' ⊢
    exact String.le_trans h h'
  antisymm a b h h' := by
    simp only [codePoints, decide_eq_true_eq] at h h'
    exact String.le_antisymm h h'

theorem paged_export_growing : ∃ pages, Follows (Sample.restoreTools "acme") codePoints
    Sample.signingSecret 1 growing (fun _ => 8) 0 none pages := by
  have stored : ∀ i, ∀ d ∈ (growing i).deletions, Storable d.attempt := by
    intro i d hd
    have rows : d = Sample.erasedRow "acme" ∨ d = Sample.erasedRow "bolt" := by
      unfold growing at hd
      dsimp only at hd
      split at hd
      · exact .inl ((Table.mem_of_mem_insert hd).resolve_left (Table.not_mem_empty d))
      · exact (Table.mem_of_mem_insert hd).imp_left
          (fun h => (Table.mem_of_mem_insert h).resolve_left (Table.not_mem_empty d))
    obtain rfl | rfl := rows
    · exact ⟨by decide, by decide, by decide⟩
    · exact ⟨by decide, by decide, by decide⟩
  obtain ⟨pages, hpages, -⟩ := @paged_export (Sample.restoreTools "acme") codePoints
    Sample.signingSecret 1 growing (fun _ => 8) collation_codePoints (by decide) (by decide) stored
  exact ⟨pages, hpages⟩

end Recovery

end RankLens
