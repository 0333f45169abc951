import RankLens.Collection
import RankLens.Lifecycle

namespace RankLens

namespace IntegrityIncidentService

/-- What `resolve` writes into the row of an incident. -/
def settle (actor reason : String) (now : Instant) (r : IntegrityIncident) : IntegrityIncident :=
  { r with
    state := .resolved
    resolvedAt := some now
    resolvedByCredentialId := some actor
    resolution := some reason }

def newResolution (incident : IntegrityIncident) (tenantId clusterId actor reason : String)
    (id : Uuid) (now : Instant) : IntegrityIncidentResolution where
  resolutionId := id
  incidentId := incident.incidentId
  tenantId := tenantId
  clusterId := clusterId
  resolvedByCredentialId := actor
  reason := reason
  resolvedAt := now

/-- A referenced object must be there with its digest again. -/
def requireRestored (env : Env) (faults : Faults) (incident : IntegrityIncident) : Tx Unit := do
  let restored ← existsVerified env faults incident.objectKey incident.payloadSha256
  match restored with
  | .error (.objectIntegrity _) | .ok false =>
    Txn.raise (.value "protected artifact integrity is not restored")
  | .error e => Txn.raise e
  | .ok true => pure ()

def resolve (env : Env) (faults : Faults) (now : Instant) (tenantId clusterId : String)
    (incidentId : Uuid) (actor reason : String) (fresh : Uuid × Uuid) :
    Tx IntegrityIncident := do
  Txn.raiseIf (reasonInvalid reason = true)
    (.value "resolution reason must contain 1 to 512 characters")
  let found ← Tables.incidents.get incidentId
  match found with
  | none => Txn.raise (.lookup "integrity incident not found")
  | some incident => do
    Txn.raiseIf (incident.tenantId ≠ tenantId ∨ incident.clusterId ≠ clusterId)
      (.lookup "integrity incident not found")
    if incident.state = .resolved then do
      Txn.raiseIf (¬(incident.resolvedByCredentialId = some actor ∧
        incident.resolution = some (strip reason)))
        (.value "integrity incident is already resolved")
      pure incident
    else do
      Txn.lock (.object incident.objectKey)
      let scopes ← Integrity.objectReferenceScopes incident.objectKey
      if (scopes.any (fun s => s.tenantId = tenantId && s.clusterId = clusterId)) = true then
        requireRestored env faults incident
      else pure ()
      let settled := settle actor (strip reason) now incident
      Tables.incidents.update .staleData incident.incidentId (settle actor (strip reason) now)
      let id ← uuid4 fresh.1
      Tables.resolutions.insert .integrity
        (newResolution incident tenantId clusterId actor (strip reason) id now)
      Integrity.enqueueNotification settled .resolved fresh.2 now
      pure settled

end IntegrityIncidentService

namespace Incidents

open Integrity IntegrityIncidentService

inductive Call where
  | audit (worker : ObjectGcAuditWorker) (faults : Faults) (now : Instant) (skip : List Uuid)
      (fresh : Uuid → String × String → Uuid × Uuid)
  | resolve (faults : Faults) (now : Instant) (tenantId clusterId : String) (incidentId : Uuid)
      (actor reason : String) (fresh : Uuid × Uuid)

def Call.transaction (env : Env) : Call → Tx Unit
  | .audit worker faults now skip fresh => do
    let _ ← worker.runOnce env faults now skip fresh
    pure ()
  | .resolve faults now tenantId clusterId incidentId actor reason fresh => do
    let _ ← IntegrityIncidentService.resolve env faults now tenantId clusterId incidentId actor
      reason fresh
    pure ()

/-- The database and the objects, and of each resolution which occurrence of its incident it was
recorded for, in the order of the resolutions. -/
structure State where
  catalog : Catalog
  objects : ObjectStore
  closures : List (IntegrityIncidentResolution × Nat)

/-- The resolutions a transaction has added, with the occurrence their incident was at. -/
def closuresOf (c c' : Catalog) : List (IntegrityIncidentResolution × Nat) :=
  (c'.resolutions.rows.filter (fun r => (c.resolutions.get r.resolutionId).isNone)).map
    (fun r => (r, (c.incidents.get r.incidentId).elim 0 IntegrityIncident.occurrences))

def State.after (env : Env) (s : State) (call : Call) : State :=
  match (call.transaction env).atomically s.catalog s.objects with
  | (_, c, w) => ⟨c, w, s.closures ++ closuresOf s.catalog c⟩

/-- A call runs, or everything but the incidents changes in some other way. -/
inductive Step (env : Env) : State → State → Prop where
  | call {s : State} (x : Call) : Step env s (s.after env x)
  | elsewhere {s : State} {c : Catalog} {w : ObjectStore}
      (hi : c.incidents = s.catalog.incidents) (hr : c.resolutions = s.catalog.resolutions)
      (hn : c.notifications = s.catalog.notifications) (hu : s.catalog.issued ⊆ c.issued) :
      Step env s ⟨c, w, s.closures⟩

inductive Reachable (env : Env) : State → Prop where
  | start {c : Catalog} {w : ObjectStore} (hi : c.incidents = .empty) (hr : c.resolutions = .empty)
      (hn : c.notifications = .empty) : Reachable env ⟨c, w, []⟩
  | step {s s' : State} (h : Reachable env s) (hs : Step env s s') : Reachable env s'

/-- An event of one occurrence has a notification. -/
def Notified (t : Table IntegrityNotification.notificationId) (id : Uuid) (occurrence : Nat)
    (event : IncidentEvent) : Prop :=
  ∃ n ∈ t, n.incidentId = id ∧ n.occurrence = occurrence ∧ n.eventType = event

/-- A resolution was recorded for an occurrence. -/
def Closed (closures : List (IntegrityIncidentResolution × Nat)) (id : Uuid) (occurrence : Nat) :
    Prop :=
  ∃ x ∈ closures, x.1.incidentId = id ∧ x.2 = occurrence

structure Bookkept (closures : List (IntegrityIncidentResolution × Nat)) (c : Catalog) : Prop where
  one : Tables.incidents.NoClash c.incidents
  events : Tables.notifications.NoClash c.notifications
  incidentIds : ∀ i ∈ c.incidents, i.incidentId ∈ c.issued
  notificationIds : ∀ n ∈ c.notifications, n.notificationId ∈ c.issued
  resolutionIds : ∀ r ∈ c.resolutions, r.resolutionId ∈ c.issued
  recorded : closures.map Prod.fst = c.resolutions.rows
  known : ∀ id k e, Notified c.notifications id k e → ∃ i ∈ c.incidents, i.incidentId = id
  detected : ∀ i ∈ c.incidents, ∀ k,
    Notified c.notifications i.incidentId k .detected ↔ 1 ≤ k ∧ k ≤ i.occurrences
  resolved : ∀ id k, Notified c.notifications id k .resolved ↔ Closed closures id k
  once : (closures.map (fun x => (x.1.incidentId, x.2))).Nodup
  bounded : ∀ i ∈ c.incidents, ∀ k, Closed closures i.incidentId k → k ≤ i.occurrences
  settled : ∀ i ∈ c.incidents, i.state = .resolved ↔ Closed closures i.incidentId i.occurrences

section bookkeeping

variable {closures : List (IntegrityIncidentResolution × Nat)} {c : Catalog}

theorem notified_insert {t : Table IntegrityNotification.notificationId}
    {n : IntegrityNotification} {id : Uuid} {k : Nat} {e : IncidentEvent}
    (hnew : t.get n.notificationId = none) : Notified (t.insert n) id k e ↔
      Notified t id k e ∨ (n.incidentId = id ∧ n.occurrence = k ∧ n.eventType = e) := by
  constructor
  · rintro ⟨x, hx, hxe⟩
    obtain hx | rfl := (Table.mem_insert hnew).mp hx
    · exact .inl ⟨x, hx, hxe⟩
    · exact .inr hxe
  · rintro (⟨x, hx, hxe⟩ | hn)
    · exact ⟨x, Table.mem_insert_of_mem hx, hxe⟩
    · exact ⟨n, (Table.mem_insert hnew).mpr (.inr rfl), hn⟩

theorem notification_free {n : IntegrityNotification}
    (hnew : c.notifications.get n.notificationId = none)
    (h : ¬Notified c.notifications n.incidentId n.occurrence n.eventType) :
    Tables.notifications.taken n c = false := by
  refine Ref.taken_eq_false.mpr ⟨hnew, fun x hx => ?_⟩
  have other : ¬(n.incidentId = x.incidentId ∧ n.occurrence = x.occurrence ∧
      n.eventType = x.eventType) := fun ⟨hi, ho, he⟩ => h ⟨x, hx, hi.symm, ho.symm, he.symm⟩
  simpa [Ref.clashes] using other

/-- A table in which an incident is added, or put in place of the one with its id. -/
def Replaced (t : Table IntegrityIncident.incidentId) (i : IntegrityIncident)
    (t' : Table IntegrityIncident.incidentId) : Prop :=
  ∀ x, x ∈ t' ↔ (x ∈ t ∧ x.incidentId ≠ i.incidentId) ∨ x = i

theorem replaced_insert {t : Table IntegrityIncident.incidentId} {i : IntegrityIncident}
    (hnew : t.get i.incidentId = none) : Replaced t i (t.insert i) := by
  intro x
  rw [Table.mem_insert hnew]
  exact or_congr_left ⟨fun hx => ⟨hx, Table.get_eq_none.mp hnew x hx⟩, And.left⟩

theorem replaced_modify {t : Table IntegrityIncident.incidentId} {i : IntegrityIncident}
    {f : IntegrityIncident → IntegrityIncident} {hf : ∀ r, (f r).incidentId = r.incidentId}
    (hi : i ∈ t) : Replaced t (f i) (t.modify i.incidentId f hf) := by
  intro x
  rw [Table.mem_modify, hf]
  refine or_congr_right ⟨?_, fun hx => ⟨i, hi, rfl, hx⟩⟩
  rintro ⟨r, hr, hk, rfl⟩
  rw [Table.eq_of_key hr hi hk]

theorem rows_insert {t : Table IntegrityIncidentResolution.resolutionId}
    {r : IntegrityIncidentResolution} (hnew : t.get r.resolutionId = none) :
    (t.insert r).rows = t.rows ++ [r] := by
  have absent : r.resolutionId ∉ t.rows.map IntegrityIncidentResolution.resolutionId := by
    intro hm
    obtain ⟨x, hx, hk⟩ := List.mem_map.mp hm
    exact Table.get_eq_none.mp hnew x hx hk
  simp [Table.insert, absent]

theorem closed_append {xs : List (IntegrityIncidentResolution × Nat)}
    {r : IntegrityIncidentResolution} {o k : Nat} {id : Uuid} :
    Closed (xs ++ [(r, o)]) id k ↔ Closed xs id k ∨ (r.incidentId = id ∧ o = k) := by
  simp [Closed, or_and_right, exists_or]

theorem Bookkept.fresh_notification (h : Bookkept closures c) {id : Uuid} (hid : id ∉ c.issued) :
    c.notifications.get id = none :=
  Table.get_eq_none.mpr (fun n hn hk => hid (hk ▸ h.notificationIds n hn))

theorem Bookkept.known_replaced (h : Bookkept closures c) {t : Table IntegrityIncident.incidentId}
    {i : IntegrityIncident} {n : IntegrityNotification} (ht : Replaced c.incidents i t)
    (hnew : c.notifications.get n.notificationId = none) (hn : n.incidentId = i.incidentId)
    (id : Uuid) (k : Nat) (e : IncidentEvent)
    (hne : Notified (c.notifications.insert n) id k e) : ∃ x ∈ t, x.incidentId = id := by
  obtain hne | ⟨rfl, -, -⟩ := (notified_insert hnew).mp hne
  · obtain ⟨x, hx, rfl⟩ := h.known id k e hne
    by_cases hxi : x.incidentId = i.incidentId
    · exact ⟨i, (ht i).mpr (.inr rfl), hxi.symm⟩
    · exact ⟨x, (ht x).mpr (.inl ⟨hx, hxi⟩), rfl⟩
  · exact ⟨i, (ht i).mpr (.inr rfl), hn.symm⟩

theorem Bookkept.detect (h : Bookkept closures c) {t : Table IntegrityIncident.incidentId}
    {i : IntegrityIncident} (n : IntegrityNotification) (issued : List Uuid)
    (ht : Replaced c.incidents i t) (hone : Tables.incidents.NoClash t)
    (hnew : c.notifications.get n.notificationId = none) (hn : n.incidentId = i.incidentId)
    (ho : n.occurrence = i.occurrences) (he : n.eventType = .detected)
    (hbefore : ∀ k, Notified c.notifications i.incidentId k .detected ↔
      1 ≤ k ∧ k < i.occurrences) (hpos : 1 ≤ i.occurrences) (hopen : i.state = .opened)
    (hclosed : ∀ k, Closed closures i.incidentId k → k < i.occurrences)
    (hsub : c.issued ⊆ issued) (hid : i.incidentId ∈ issued) (hnid : n.notificationId ∈ issued) :
    Tables.notifications.taken n c = false ∧ Bookkept closures { c with
      incidents := t
      notifications := c.notifications.insert n
      issued := issued } := by
  have free : Tables.notifications.taken n c = false := by
    refine notification_free hnew (fun hne => ?_)
    rw [hn, ho, he] at hne
    exact absurd ((hbefore _).mp hne).2 (lt_irrefl _)
  exact ⟨free, {
    one := hone
    events := Ref.noClash_insert h.events free
    incidentIds := fun x hx => by
      obtain ⟨hx, -⟩ | rfl := (ht x).mp hx
      · exact hsub (h.incidentIds x hx)
      · exact hid
    notificationIds := fun x hx => by
      obtain hx | rfl := (Table.mem_insert hnew).mp hx
      · exact hsub (h.notificationIds x hx)
      · exact hnid
    resolutionIds := fun r hr => hsub (h.resolutionIds r hr)
    recorded := h.recorded
    known := h.known_replaced ht hnew hn
    detected := fun x hx k => by
      rw [notified_insert hnew]
      obtain ⟨hx, hxi⟩ | rfl := (ht x).mp hx
      · rw [hn, h.detected x hx k]
        exact or_iff_left (fun hne => hxi hne.1.symm)
      · rw [hbefore, hn, ho, he]
        constructor
        · rintro (⟨h1, hk⟩ | ⟨-, rfl, -⟩)
          · exact ⟨h1, hk.le⟩
          · exact ⟨hpos, le_rfl⟩
        · rintro ⟨h1, hk⟩
          obtain hk | rfl := hk.lt_or_eq
          · exact .inl ⟨h1, hk⟩
          · exact .inr ⟨rfl, rfl, rfl⟩
    resolved := fun id k => by
      rw [notified_insert hnew, he, ← h.resolved]
      exact or_iff_left (fun hne => nomatch hne.2.2)
    once := h.once
    bounded := fun x hx k hk => by
      obtain ⟨hx, -⟩ | rfl := (ht x).mp hx
      · exact h.bounded x hx k hk
      · exact (hclosed k hk).le
    settled := fun x hx => by
      obtain ⟨hx, -⟩ | rfl := (ht x).mp hx
      · exact h.settled x hx
      · refine ⟨fun hs => ?_, fun hk => absurd (hclosed _ hk) (lt_irrefl _)⟩
        rw [hopen] at hs
        cases hs }⟩

theorem Bookkept.settle (h : Bookkept closures c) {t : Table IntegrityIncident.incidentId}
    (i : IntegrityIncident) {j : IntegrityIncident} (n : IntegrityNotification)
    (r : IntegrityIncidentResolution) (issued : List Uuid) (hj : j ∈ c.incidents)
    (hopen : j.state = .opened) (hij : i.incidentId = j.incidentId)
    (hocc : i.occurrences = j.occurrences)
    (hstate : i.state = .resolved) (ht : Replaced c.incidents i t)
    (hone : Tables.incidents.NoClash t)
    (hnew : c.notifications.get n.notificationId = none) (hn : n.incidentId = i.incidentId)
    (ho : n.occurrence = i.occurrences) (he : n.eventType = .resolved)
    (hrnew : c.resolutions.get r.resolutionId = none) (hr : r.incidentId = i.incidentId)
    (hsub : c.issued ⊆ issued) (hrid : r.resolutionId ∈ issued)
    (hnid : n.notificationId ∈ issued) :
    Tables.notifications.taken n c = false ∧
      Bookkept (closures ++ [(r, i.occurrences)]) { c with
        incidents := t
        resolutions := c.resolutions.insert r
        notifications := c.notifications.insert n
        issued := issued } := by
  have unsettled : ¬Closed closures i.incidentId i.occurrences := by
    rw [hij, hocc, ← h.settled j hj, hopen]
    exact fun hs => nomatch hs
  have free : Tables.notifications.taken n c = false := by
    refine notification_free hnew (fun hne => ?_)
    rw [hn, ho, he] at hne
    exact unsettled ((h.resolved _ _).mp hne)
  exact ⟨free, {
    one := hone
    events := Ref.noClash_insert h.events free
    incidentIds := fun x hx => by
      obtain ⟨hx, -⟩ | rfl := (ht x).mp hx
      · exact hsub (h.incidentIds x hx)
      · exact hij ▸ hsub (h.incidentIds j hj)
    notificationIds := fun x hx => by
      obtain hx | rfl := (Table.mem_insert hnew).mp hx
      · exact hsub (h.notificationIds x hx)
      · exact hnid
    resolutionIds := fun x hx => by
      obtain hx | rfl := (Table.mem_insert hrnew).mp hx
      · exact hsub (h.resolutionIds x hx)
      · exact hrid
    recorded := by
      rw [List.map_append, h.recorded, rows_insert hrnew]
      rfl
    known := h.known_replaced ht hnew hn
    detected := fun x hx k => by
      rw [notified_insert hnew, he]
      have same := or_iff_left (a := Notified c.notifications x.incidentId k .detected)
        (fun hne : n.incidentId = x.incidentId ∧ n.occurrence = k ∧
          IncidentEvent.resolved = IncidentEvent.detected => nomatch hne.2.2)
      rw [same]
      obtain ⟨hx, -⟩ | rfl := (ht x).mp hx
      · exact h.detected x hx k
      · rw [hij, hocc]
        exact h.detected j hj k
    resolved := fun id k => by
      rw [notified_insert hnew, closed_append, ← h.resolved, hn, ho, he, hr]
      simp
    once := by
      rw [List.map_append, List.nodup_append]
      refine ⟨h.once, List.nodup_singleton _, ?_⟩
      rintro _ hx _ hy rfl
      obtain ⟨x, hx, hxe⟩ := List.mem_map.mp hx
      rw [List.map_singleton, List.mem_singleton] at hy
      rw [hy, hr, Prod.mk.injEq] at hxe
      exact unsettled ⟨x, hx, hxe⟩
    bounded := fun x hx k hk => by
      obtain old | ⟨hid, rfl⟩ := closed_append.mp hk
      · obtain ⟨hx, -⟩ | rfl := (ht x).mp hx
        · exact h.bounded x hx k old
        · rw [hocc]
          exact h.bounded j hj k (hij ▸ old)
      · obtain ⟨-, hne⟩ | rfl := (ht x).mp hx
        · exact absurd (hid.symm.trans hr) hne
        · exact le_rfl
    settled := fun x hx => by
      rw [closed_append, hr]
      obtain ⟨hx, hne⟩ | rfl := (ht x).mp hx
      · rw [h.settled x hx]
        exact (or_iff_left (fun hid => hne hid.1.symm)).symm
      · exact ⟨fun _ => .inr ⟨rfl, rfl⟩, fun _ => hstate⟩ }⟩

theorem Bookkept.elsewhere (h : Bookkept closures c) {c' : Catalog}
    (hi : c'.incidents = c.incidents) (hr : c'.resolutions = c.resolutions)
    (hn : c'.notifications = c.notifications) (hu : c.issued ⊆ c'.issued) :
    Bookkept closures c' where
  one := hi ▸ h.one
  events := hn ▸ h.events
  incidentIds := fun i hm => hu (h.incidentIds i (hi ▸ hm))
  notificationIds := fun n hm => hu (h.notificationIds n (hn ▸ hm))
  resolutionIds := fun r hm => hu (h.resolutionIds r (hr ▸ hm))
  recorded := hr ▸ h.recorded
  known := by
    rw [hi, hn]
    exact h.known
  detected := by
    rw [hi, hn]
    exact h.detected
  resolved := hn ▸ h.resolved
  once := h.once
  bounded := hi ▸ h.bounded
  settled := hi ▸ h.settled

theorem bookkept_empty (hi : c.incidents = .empty) (hr : c.resolutions = .empty)
    (hn : c.notifications = .empty) : Bookkept [] c where
  one := fun x hx => by
    rw [hi] at hx
    exact absurd hx (Table.not_mem_empty x)
  events := fun x hx => by
    rw [hn] at hx
    exact absurd hx (Table.not_mem_empty x)
  incidentIds := fun x hx => absurd (hi ▸ hx) (Table.not_mem_empty x)
  notificationIds := fun x hx => absurd (hn ▸ hx) (Table.not_mem_empty x)
  resolutionIds := fun x hx => absurd (hr ▸ hx) (Table.not_mem_empty x)
  recorded := by
    rw [hr]
    rfl
  known := fun _ _ _ ⟨x, hx, _⟩ => absurd (hn ▸ hx) (Table.not_mem_empty x)
  detected := fun x hx => absurd (hi ▸ hx) (Table.not_mem_empty x)
  resolved := fun _ _ => by
    constructor
    · rintro ⟨x, hx, -⟩
      exact absurd (hn ▸ hx) (Table.not_mem_empty x)
    · rintro ⟨x, hx, -⟩
      cases hx
  once := List.nodup_nil
  bounded := fun x hx => absurd (hi ▸ hx) (Table.not_mem_empty x)
  settled := fun x hx => absurd (hi ▸ hx) (Table.not_mem_empty x)

end bookkeeping

section detection

variable {closures : List (IntegrityIncidentResolution × Nat)} {c : Catalog} {w : ObjectStore}
  {A : ObjectStore → Prop} {candidate : ObjectGcCandidate} {category : IncidentCategory}
  {details : String} {detectedAt : Instant} {fresh : String × String → Uuid × Uuid}

/-- A transaction that keeps the books without a resolution, and hits no unique constraint. -/
def Keeps {α : Type} (t : Tx α) : Prop :=
  ∀ closures c w, Bookkept closures c → t.wp (fun _ => True) (fun e => e ≠ .integrity)
    (fun _ c' w' => Bookkept closures c' ∧ c'.resolutions = c.resolutions ∧ w' = w) c w

theorem opened_keeps {scope : String × String} {attemptId : Option String} (h : Bookkept closures c)
    (hnone : ∀ i ∈ c.incidents, ¬(i.candidateId = candidate.candidateId ∧ i.tenantId = scope.1 ∧
      i.clusterId = scope.2 ∧ i.category = category)) :
    (do
      let id ← uuid4 (fresh scope).1
      let incident := newIncident candidate scope attemptId category details id detectedAt
      Tables.incidents.insert .integrity incident
      enqueueNotification incident .detected (fresh scope).2 detectedAt : Tx Unit).wp A
      (fun e => e ≠ .integrity)
      (fun _ c' w' => Bookkept closures c' ∧ c'.resolutions = c.resolutions ∧ w' = w) c w := by
  simp only [enqueueNotification, Txn.wp_bind, wp_uuid4, Ref.wp_insert, Tables.incidents_view,
    Tables.incidents_put, Tables.notifications_view, Tables.notifications_put]
  refine ⟨by rintro _ ⟨⟩, fun hid => ?_⟩
  have absent : c.incidents.get (fresh scope).1 = none :=
    Table.get_eq_none.mpr (fun i hi hk => hid (hk ▸ h.incidentIds i hi))
  let incident := newIncident candidate scope attemptId category details (fresh scope).1 detectedAt
  have free : Tables.incidents.taken incident
      { c with issued := (fresh scope).1 :: c.issued } = false := by
    refine Ref.taken_eq_false.mpr ⟨absent, fun x hx => ?_⟩
    have other := hnone x hx
    simp only [Ref.clashes, Tables.incidents_unique, List.any_cons, List.any_nil, Bool.or_false,
      Option.isSome_some, Bool.true_and, decide_eq_false_iff_not, Option.some.injEq,
      Lock.row.injEq, RowId.incidentIdentity.injEq]
    rintro ⟨hc, ht, hk, hcat⟩
    exact other ⟨hc.symm, ht.symm, hk.symm, hcat.symm⟩
  refine ⟨fun ht => absurd (free.symm.trans ht) Bool.false_ne_true, fun _ => ?_⟩
  refine ⟨by rintro _ ⟨⟩, fun hnid => ?_⟩
  have unseen : ∀ k e, ¬Notified c.notifications (fresh scope).1 k e := by
    intro k e hne
    obtain ⟨x, hx, hk⟩ := h.known _ k e hne
    exact hid (hk ▸ h.incidentIds x hx)
  have unclosed : ∀ k, ¬Closed closures (fresh scope).1 k :=
    fun k hk => unseen k _ ((h.resolved _ k).mpr hk)
  obtain ⟨hfree, kept⟩ := h.detect
    (newNotification incident .detected (fresh scope).2 detectedAt)
    ((fresh scope).2 :: (fresh scope).1 :: c.issued)
    (replaced_insert absent) (Ref.noClash_insert h.one free)
    (h.fresh_notification (fun hm => hnid (List.mem_cons_of_mem _ hm))) rfl rfl rfl
    (fun k => iff_of_false (unseen k _) (fun h => absurd h.2 (Nat.not_lt.mpr h.1)))
    le_rfl rfl (fun k hk => absurd hk (unclosed k))
    (fun _ hm => List.mem_cons_of_mem _ (List.mem_cons_of_mem _ hm))
    (List.mem_cons_of_mem _ List.mem_cons_self) List.mem_cons_self
  exact ⟨fun ht => absurd (hfree.symm.trans ht) Bool.false_ne_true,
    fun _ => ⟨kept, trivial, trivial⟩⟩

theorem reopened_keeps {incident : IntegrityIncident} {attemptId : Option String} {id : Uuid}
    (h : Bookkept closures c) (hi : incident ∈ c.incidents) :
    (do
      Tables.incidents.update .staleData incident.incidentId
        (reopen incident attemptId details detectedAt)
      enqueueNotification (reopen incident attemptId details detectedAt incident) .detected id
        detectedAt : Tx Unit).wp A (fun e => e ≠ .integrity)
      (fun _ c' w' => Bookkept closures c' ∧ c'.resolutions = c.resolutions ∧ w' = w) c w := by
  simp only [enqueueNotification, Txn.wp_bind, wp_uuid4, Ref.wp_update, Ref.wp_insert,
    Tables.incidents_view, Tables.incidents_put, Tables.notifications_view,
    Tables.notifications_put]
  refine ⟨by rintro _ ⟨⟩, fun _ _ => ⟨by rintro _ ⟨⟩, fun hnid => ?_⟩⟩
  have same : Tables.incidents.NoClash (c.incidents.modify incident.incidentId
      (reopen incident attemptId details detectedAt) (fun _ => rfl)) := by
    refine Ref.noClash_modify_same (fun u hu r => ?_) h.one
    obtain rfl := List.mem_singleton.mp hu
    rfl
  obtain ⟨hfree, kept⟩ := h.detect
    (newNotification (reopen incident attemptId details detectedAt incident) .detected id
      detectedAt) (id :: c.issued) (replaced_modify hi) same (h.fresh_notification hnid) rfl rfl rfl
    (fun k => (h.detected incident hi k).trans (and_congr_right fun _ => Nat.lt_succ_iff.symm))
    (Nat.succ_le_succ (Nat.zero_le _)) rfl
    (fun k hk => Nat.lt_succ_of_le (h.bounded incident hi k hk))
    (List.subset_cons_self _ _) (List.mem_cons_of_mem _ (h.incidentIds incident hi))
    List.mem_cons_self
  exact ⟨fun ht => absurd (hfree.symm.trans ht) Bool.false_ne_true,
    fun _ => ⟨kept, trivial, trivial⟩⟩

theorem recordIncident_keeps {scopes : List AttemptKey} {scope : String × String} :
    Keeps (recordIncident candidate category details detectedAt scopes fresh scope) := by
  intro closures c w h
  simp only [recordIncident, Txn.wp_bind, Ref.wp_select]
  split
  · next hnone =>
    refine opened_keeps h ?_
    rintro i hi ⟨hc, ht, hk, hcat⟩
    rw [List.head?_eq_none_iff, List.eq_nil_iff_forall_not_mem] at hnone
    exact hnone i (Table.mem_select.mpr ⟨hi, by simp [hc, ht, hk, hcat]⟩)
  · next incident hfound =>
    exact reopened_keeps h (Table.mem_select.mp (List.mem_of_head? hfound)).1

theorem objectReferenceScopes_keeps {key : ObjectKey} : Keeps (objectReferenceScopes key) := by
  intro closures c w h
  refine Txn.wp_mono (fun _ h => h) (fun _ he => he) ?_ (objectReferenceScopes_spec
    (E := fun e => e ≠ .integrity))
  rintro _ _ _ ⟨-, rfl, rfl⟩
  exact ⟨h, rfl, rfl⟩

theorem Keeps.bind {α β : Type} {t : Tx α} {f : α → Tx β} (ht : Keeps t) (hf : ∀ a, Keeps (f a)) :
    Keeps (t >>= f) := by
  intro closures c w h
  rw [Txn.wp_bind]
  refine Txn.wp_post (ht closures c w h) ?_
  rintro a c' _ ⟨h', hr, rfl⟩
  refine Txn.wp_post (hf a closures c' _ h') ?_
  rintro _ _ _ ⟨h'', hr', rfl⟩
  exact ⟨h'', hr'.trans hr, rfl⟩

theorem Keeps.forEach {β : Type} {xs : List β} {body : β → Tx Unit} (h : ∀ x, Keeps (body x)) :
    Keeps (Txn.forEach xs body) := by
  induction xs with
  | nil => exact fun _ _ _ h => ⟨h, rfl, rfl⟩
  | cons x xs ih => exact (h x).bind (fun _ => ih)

theorem Keeps.pure {α : Type} {a : α} : Keeps (pure a) := fun _ _ _ h => ⟨h, rfl, rfl⟩

theorem Keeps.read {α : Type} {f : Catalog → α} : Keeps (Txn.read f) :=
  fun _ _ _ h => ⟨h, rfl, rfl⟩

theorem Keeps.raise {α : Type} {e : Failure} (he : e ≠ .integrity) :
    Keeps (Txn.raise e : Tx α) := fun _ _ _ _ => he

theorem Keeps.lock {l : Lock} : Keeps (Txn.lock l) := fun _ _ _ h => ⟨h, rfl, rfl⟩

theorem Keeps.ite {α : Type} {p : Prop} [Decidable p] {t u : Tx α} (ht : Keeps t) (hu : Keeps u) :
    Keeps (if p then t else u) := by
  split
  · exact ht
  · exact hu

theorem Keeps.updateCandidate {id : Uuid} {f : ObjectGcCandidate → ObjectGcCandidate}
    {hf : ∀ r, (f r).candidateId = r.candidateId} :
    Keeps (Tables.candidates.update .staleData id f hf) := by
  intro closures c w h
  simp only [Ref.wp_update, Tables.candidates_view, Tables.candidates_put]
  refine ⟨by rintro _ ⟨⟩, fun _ _ => ?_⟩
  exact ⟨h.elsewhere rfl rfl rfl (List.Subset.refl _), trivial, trivial⟩

theorem recordIntegrityIncidents_keeps :
    Keeps (recordIntegrityIncidents candidate category details detectedAt fresh) :=
  objectReferenceScopes_keeps.bind (fun _ => .forEach (fun _ => recordIncident_keeps))

end detection

section audit

variable {env : Env} {faults : Faults} {worker : ObjectGcAuditWorker} {now : Instant}

theorem existsVerified_error {key : ObjectKey} {digest : String} {w : ObjectStore} {e : Failure}
    (h : LocalObjectStore.existsVerified env faults key digest w = .error e) :
    ∃ message, e = .objectIntegrity message := by
  unfold LocalObjectStore.existsVerified at h
  split at h
  · cases h
  · split at h
    · cases h
      exact ⟨_, rfl⟩
    · split at h
      · cases h
        exact ⟨_, rfl⟩
      · cases h

theorem quarantine_keeps {fresh : String × String → Uuid × Uuid} {referenced : Bool}
    {category : IncidentCategory} {error : String} {g : ObjectGcCandidate} :
    Keeps (worker.quarantine now fresh referenced category error g) := by
  refine Keeps.bind ?_ (fun _ => .updateCandidate)
  exact Keeps.ite recordIntegrityIncidents_keeps .pure

theorem audit_keeps {fresh : Uuid → String × String → Uuid × Uuid} {g : ObjectGcCandidate} :
    Keeps (worker.audit env faults now fresh g) := by
  refine Keeps.lock.bind (fun _ => objectReferenceScopes_keeps.bind (fun scopes => ?_))
  intro closures c w h
  rw [Txn.wp_bind, wp_existsVerified]
  refine ⟨trivial, ?_⟩
  split
  · exact quarantine_keeps closures c w h
  · next e hne hfound =>
    obtain ⟨message, rfl⟩ := existsVerified_error hfound
    exact absurd rfl (hne message)
  · exact Keeps.ite .updateCandidate .updateCandidate closures c w h
  · exact Keeps.ite .updateCandidate quarantine_keeps closures c w h

theorem runOnce_keeps {skip : List Uuid} {fresh : Uuid → String × String → Uuid × Uuid} :
    Keeps (worker.runOnce env faults now skip fresh) := by
  refine Keeps.bind ?_ (fun _ => (Keeps.forEach (fun _ => audit_keeps)).bind (fun _ => .read))
  intro closures c w h
  rw [Ref.wp_selectForUpdate]
  exact ⟨h, rfl, rfl⟩

end audit

/-- A row that refers to an object, by the attempt it belongs to. -/
inductive Refers (c : Catalog) (key : ObjectKey) (k : AttemptKey) : Prop where
  | manifest {m : SegmentManifest} (h : m ∈ c.manifests) (hk : m.objectKey = key)
      (ha : m.attempt = k)
  | reservation {r : AdmissionReservation} (h : r ∈ c.reservations) (hk : r.objectKey = key)
      (hr : r.refers = true) (ha : r.attempt = k)
  | report {r : ReportRevision} (h : r ∈ c.revisions)
      (hk : r.reportObjectKey = key ∨ r.parquetObjectKey = some key) (ha : r.attempt = k)

def ReferencedIn (c : Catalog) (tenantId clusterId : String) (key : ObjectKey) : Prop :=
  ∃ k, Refers c key k ∧ k.tenantId = tenantId ∧ k.clusterId = clusterId

/-- What an incident is about has come right. -/
def Restored (env : Env) (c : Catalog) (w : ObjectStore) (i : IntegrityIncident) : Prop :=
  Holds env w i.objectKey i.payloadSha256 ∨ ¬ReferencedIn c i.tenantId i.clusterId i.objectKey

section resolution

variable {env : Env} {faults : Faults} {now : Instant} {tenantId clusterId actor reason : String}
  {incidentId : Uuid} {fresh : Uuid × Uuid} {c : Catalog} {w : ObjectStore}
  {A : ObjectStore → Prop} {E : Failure → Prop}
  {closures : List (IntegrityIncidentResolution × Nat)}

theorem mem_objectReferenceScopes {key : ObjectKey} : (objectReferenceScopes key).wp A E
    (fun scopes c' w' => (∀ k, k ∈ scopes ↔ Refers c key k) ∧ c' = c ∧ w' = w) c w := by
  simp only [objectReferenceScopes, Txn.wp_bind, Ref.wp_select, Txn.wp_pure, and_true,
    Tables.manifests_view, Tables.reservations_view, Tables.revisions_view]
  intro k
  simp only [List.mem_dedup, List.mem_append, List.mem_map, Table.mem_select, decide_eq_true_eq,
    Bool.and_eq_true, Bool.or_eq_true]
  constructor
  · rintro ((⟨m, ⟨hm, hk⟩, ha⟩ | ⟨r, ⟨hm, hk, hr⟩, ha⟩) | ⟨r, ⟨hm, hk⟩, ha⟩)
    · exact .manifest hm hk ha
    · exact .reservation hm hk hr ha
    · exact .report hm hk ha
  · rintro (⟨hm, hk, ha⟩ | ⟨hm, hk, hr, ha⟩ | ⟨hm, hk, ha⟩)
    · exact .inl (.inl ⟨_, ⟨hm, hk⟩, ha⟩)
    · exact .inl (.inr ⟨_, ⟨hm, hk, hr⟩, ha⟩)
    · exact .inr ⟨_, ⟨hm, hk⟩, ha⟩

theorem requireRestored_spec {i : IntegrityIncident} :
    (requireRestored env faults i).wp (fun _ => True) (fun e => e ≠ .integrity)
      (fun _ c' w' => Holds env w i.objectKey i.payloadSha256 ∧ c' = c ∧ w' = w) c w := by
  rw [requireRestored, Txn.wp_bind, wp_existsVerified]
  refine ⟨trivial, ?_⟩
  split
  · exact fun he => nomatch he
  · exact fun he => nomatch he
  · next e hne hfound =>
    obtain ⟨message, rfl⟩ := existsVerified_error hfound
    exact absurd rfl (hne message)
  · next hfound => exact ⟨LocalObjectStore.existsVerified_true hfound, rfl, rfl⟩

/-- What a call of `resolve` leaves behind when it returns. -/
inductive Resolving (env : Env) (closures : List (IntegrityIncidentResolution × Nat)) (c : Catalog)
    (w : ObjectStore) (incidentId : Uuid) : Catalog → Prop where
  | replayed : Resolving env closures c w incidentId c
  | settled {j : IntegrityIncident} {r : IntegrityIncidentResolution} {c' : Catalog}
      (hj : j ∈ c.incidents) (hid : j.incidentId = incidentId) (hopen : j.state = .opened)
      (hnew : c.resolutions.get r.resolutionId = none) (hr : r.incidentId = j.incidentId)
      (hrows : c'.resolutions = c.resolutions.insert r) (hrestored : Restored env c w j)
      (hbooks : Bookkept (closures ++ [(r, j.occurrences)]) c') :
      Resolving env closures c w incidentId c'

theorem settle_spec {j : IntegrityIncident} (h : Bookkept closures c) (hj : j ∈ c.incidents)
    (hopen : j.state = .opened) (hrestored : Restored env c w j) :
    (do
      Tables.incidents.update .staleData j.incidentId (settle actor reason now)
      let id ← uuid4 fresh.1
      Tables.resolutions.insert .integrity
        (newResolution j tenantId clusterId actor reason id now)
      enqueueNotification (settle actor reason now j) .resolved fresh.2 now
      pure (settle actor reason now j) : Tx IntegrityIncident).wp (fun _ => True)
      (fun e => e ≠ .integrity)
      (fun _ c' w' => Resolving env closures c w j.incidentId c' ∧ w' = w) c w := by
  simp only [enqueueNotification, Txn.wp_bind, wp_uuid4, Ref.wp_update, Ref.wp_insert, Txn.wp_pure,
    Tables.incidents_view, Tables.incidents_put, Tables.notifications_view,
    Tables.notifications_put, Tables.resolutions_view, Tables.resolutions_put]
  refine ⟨by rintro _ ⟨⟩, fun _ _ => ⟨by rintro _ ⟨⟩, fun hrid => ?_⟩⟩
  have absent : c.resolutions.get fresh.1 = none :=
    Table.get_eq_none.mpr (fun r hr hk => hrid (hk ▸ h.resolutionIds r hr))
  let r := newResolution j tenantId clusterId actor reason fresh.1 now
  let t := c.incidents.modify j.incidentId (settle actor reason now) (fun _ => rfl)
  have free : Tables.resolutions.taken r
      { c with incidents := t, issued := fresh.1 :: c.issued } = false := by
    exact Ref.taken_eq_false.mpr ⟨absent, fun _ _ => rfl⟩
  refine ⟨fun ht => absurd (free.symm.trans ht) Bool.false_ne_true, fun _ => ?_⟩
  refine ⟨by rintro _ ⟨⟩, fun hnid => ?_⟩
  have same : Tables.incidents.NoClash t := by
    refine Ref.noClash_modify_same (fun u hu r => ?_) h.one
    obtain rfl := List.mem_singleton.mp hu
    rfl
  obtain ⟨hfree, kept⟩ := h.settle (IntegrityIncidentService.settle actor reason now j)
    (newNotification (settle actor reason now j) .resolved fresh.2 now) r
    (fresh.2 :: fresh.1 :: c.issued) hj hopen rfl rfl rfl (replaced_modify hj) same
    (h.fresh_notification (fun hm => hnid (List.mem_cons_of_mem _ hm))) rfl rfl rfl absent rfl
    (fun _ hm => List.mem_cons_of_mem _ (List.mem_cons_of_mem _ hm))
    (List.mem_cons_of_mem _ List.mem_cons_self) List.mem_cons_self
  refine ⟨fun ht => absurd (hfree.symm.trans ht) Bool.false_ne_true, fun _ => ?_⟩
  exact ⟨.settled hj rfl hopen absent rfl rfl hrestored kept, trivial⟩

theorem resolve_spec (h : Bookkept closures c) :
    (IntegrityIncidentService.resolve env faults now tenantId clusterId incidentId actor reason
      fresh).wp (fun _ => True) (fun e => e ≠ .integrity)
      (fun _ c' w' => Resolving env closures c w incidentId c' ∧ w' = w) c w := by
  simp only [IntegrityIncidentService.resolve, Txn.wp_bind, Txn.wp_raiseIf, Ref.wp_get,
    Tables.incidents_view]
  refine ⟨by rintro _ ⟨⟩, fun _ => ?_⟩
  split
  · rintro ⟨⟩
  · next j hget =>
    obtain ⟨hj, rfl⟩ := Table.get_eq_some.mp hget
    simp only [Txn.wp_bind, Txn.wp_raiseIf]
    refine ⟨by rintro _ ⟨⟩, fun scope => ?_⟩
    obtain ⟨rfl, rfl⟩ : j.tenantId = tenantId ∧ j.clusterId = clusterId := by simpa using scope
    split
    · simp only [Txn.wp_bind, Txn.wp_raiseIf, Txn.wp_pure]
      exact ⟨by rintro _ ⟨⟩, fun _ => ⟨.replayed, trivial⟩⟩
    · next hstate =>
      have hopen : j.state = .opened := by
        cases hs : j.state with
        | opened => rfl
        | resolved => exact absurd hs hstate
      rw [Txn.wp_bind, Txn.wp_lock, Txn.wp_bind]
      refine Txn.wp_post mem_objectReferenceScopes ?_
      rintro scopes _ _ ⟨hscopes, rfl, rfl⟩
      split
      · rw [Txn.wp_bind]
        refine Txn.wp_post requireRestored_spec ?_
        rintro _ _ _ ⟨holds, rfl, rfl⟩
        exact settle_spec h hj hopen (.inl holds)
      · next unreferenced =>
        refine settle_spec h hj hopen (.inr ?_)
        rintro ⟨k, hk, ht, hc⟩
        refine unreferenced (List.any_eq_true.mpr ⟨k, (hscopes k).mpr hk, ?_⟩)
        simp [ht, hc]

end resolution

section run

variable {env : Env} {s s' : State}

theorem closuresOf_same {c c' : Catalog} (h : c'.resolutions = c.resolutions) :
    closuresOf c c' = [] := by
  rw [closuresOf, h, List.map_eq_nil_iff, List.filter_eq_nil_iff]
  intro r hr
  rw [Table.get_of_mem hr]
  exact Bool.false_ne_true

theorem closuresOf_insert {c c' : Catalog} {r : IntegrityIncidentResolution}
    {j : IntegrityIncident} (hj : j ∈ c.incidents) (hr : r.incidentId = j.incidentId)
    (hnew : c.resolutions.get r.resolutionId = none)
    (h : c'.resolutions = c.resolutions.insert r) : closuresOf c c' = [(r, j.occurrences)] := by
  have before : c.resolutions.rows.filter
      (fun r => (c.resolutions.get r.resolutionId).isNone) = [] := by
    rw [List.filter_eq_nil_iff]
    intro x hx
    rw [Table.get_of_mem hx]
    exact Bool.false_ne_true
  rw [closuresOf, h, rows_insert hnew, List.filter_append, before]
  simp [hnew, hr, Table.get_of_mem hj]

/-- What a call leaves behind when it returns. -/
def Outcome (env : Env) (s : State) (c : Catalog) : Prop :=
  (Bookkept s.closures c ∧ c.resolutions = s.catalog.resolutions) ∨
    ∃ id, Resolving env s.closures s.catalog s.objects id c

theorem call_spec (h : Bookkept s.closures s.catalog) (call : Call) :
    (call.transaction env).wp (fun _ => True) (fun e => e ≠ .integrity)
      (fun _ c _ => Outcome env s c) s.catalog s.objects := by
  cases call with
  | audit worker faults now skip fresh =>
    rw [Call.transaction, Txn.wp_bind]
    refine Txn.wp_post (runOnce_keeps _ _ _ h) ?_
    rintro _ c _ ⟨kept, hr, -⟩
    exact .inl ⟨kept, hr⟩
  | resolve faults now tenantId clusterId incidentId actor reason fresh =>
    rw [Call.transaction, Txn.wp_bind]
    refine Txn.wp_post (resolve_spec h) ?_
    rintro _ c _ ⟨resolving, -⟩
    exact .inr ⟨incidentId, resolving⟩

theorem after_outcome (h : Bookkept s.closures s.catalog) (call : Call) :
    Outcome env s (s.after env call).catalog := by
  show Outcome env s ((call.transaction env).atomically s.catalog s.objects).2.1
  have spec := @call_spec env s h call
  rw [Txn.atomically]
  split
  · next a c w hrun =>
    have outcome := Txn.run_of_wp spec hrun
    exact outcome
  · exact .inl ⟨h, rfl⟩

theorem after_bookkept (h : Bookkept s.closures s.catalog) (call : Call) :
    Bookkept (s.after env call).closures (s.after env call).catalog := by
  have outcome := @after_outcome env s h call
  have added : (s.after env call).closures =
      s.closures ++ closuresOf s.catalog (s.after env call).catalog := rfl
  rw [added]
  generalize (s.after env call).catalog = c at outcome ⊢
  obtain ⟨kept, hr⟩ | ⟨_, _ | ⟨hj, -, -, hnew, hr, hrows, -, hbooks⟩⟩ := outcome
  · rwa [closuresOf_same hr, List.append_nil]
  · rwa [closuresOf_same rfl, List.append_nil]
  · rwa [closuresOf_insert hj hr hnew hrows]

theorem step_bookkept (hs : Step env s s') (h : Bookkept s.closures s.catalog) :
    Bookkept s'.closures s'.catalog := by
  cases hs with
  | call x => exact after_bookkept h x
  | elsewhere hi hr hn hu => exact h.elsewhere hi hr hn hu

theorem reachable_bookkept (h : Reachable env s) : Bookkept s.closures s.catalog := by
  induction h with
  | start hi hr hn => exact bookkept_empty hi hr hn
  | step _ hs ih => exact step_bookkept hs ih

/-- The notifications of one event of an occurrence. -/
def announcements (c : Catalog) (id : Uuid) (occurrence : Nat) (event : IncidentEvent) :
    List IntegrityNotification :=
  c.notifications.select (fun n => n.incidentId = id && n.occurrence = occurrence &&
    n.eventType = event)

/-- Incidents, resolutions and notifications tell the same story. -/
structure Aligned (s : State) : Prop where
  one : ∀ i ∈ s.catalog.incidents, ∀ j ∈ s.catalog.incidents, i.candidateId = j.candidateId →
    i.tenantId = j.tenantId → i.clusterId = j.clusterId → i.category = j.category → i = j
  detected : ∀ i ∈ s.catalog.incidents, ∀ k,
    (announcements s.catalog i.incidentId k .detected).length =
      if 1 ≤ k ∧ k ≤ i.occurrences then 1 else 0
  resolved : ∀ id k, (announcements s.catalog id k .resolved).length =
    if ∃ x ∈ s.closures, x.1.incidentId = id ∧ x.2 = k then 1 else 0
  recorded : s.closures.map Prod.fst = s.catalog.resolutions.rows
  once : (s.closures.map (fun x => (x.1.incidentId, x.2))).Nodup
  settled : ∀ i ∈ s.catalog.incidents, i.state = .resolved ↔
    ∃ x ∈ s.closures, x.1.incidentId = i.incidentId ∧ x.2 = i.occurrences

/-- A call meets no unique constraint, and a resolution it records is of an open incident whose
object is back or no longer wanted in its tenant and cluster. -/
structure Orderly (env : Env) (s : State) (call : Call) : Prop where
  allowed : ((call.transaction env).run s.catalog s.objects).1 ≠ .error .integrity
  warranted : ∀ r ∈ (s.after env call).catalog.resolutions, r ∉ s.catalog.resolutions →
    ∃ i ∈ s.catalog.incidents, i.incidentId = r.incidentId ∧ i.state = .opened ∧
      Restored env s.catalog s.objects i

theorem announcements_length {c : Catalog} (h : Tables.notifications.NoClash c.notifications)
    {id : Uuid} {k : Nat} {e : IncidentEvent} {p : Prop} [Decidable p]
    (hp : Notified c.notifications id k e ↔ p) :
    (announcements c id k e).length = if p then 1 else 0 := by
  have mem : ∀ n, n ∈ announcements c id k e ↔
      n ∈ c.notifications ∧ n.incidentId = id ∧ n.occurrence = k ∧ n.eventType = e := by
    intro n
    rw [announcements, Table.mem_select]
    simp [and_assoc]
  split
  · next hn =>
    obtain ⟨n, hn, rfl, rfl, rfl⟩ := hp.mpr hn
    have only : ∀ x, x ∈ announcements c n.incidentId n.occurrence n.eventType ↔ x = n := by
      refine fun x => ⟨fun hx => ?_, fun hx => hx ▸ (mem n).mpr ⟨hn, rfl, rfl, rfl⟩⟩
      obtain ⟨hm, hi, ho, he⟩ := (mem x).mp hx
      exact h x hm n hn (by simp [Ref.clashes, hi, ho, he])
    have single := Table.select_eq_singleton (fun x => Table.mem_select.symm.trans (only x))
    exact congrArg List.length single
  · next hn =>
    rw [List.length_eq_zero_iff, List.eq_nil_iff_forall_not_mem]
    exact fun n hm => hn (hp.mp ⟨n, (mem n).mp hm⟩)

theorem Bookkept.aligned (h : Bookkept s.closures s.catalog) : Aligned s where
  one := fun i hi j hj hc ht hk hcat => h.one i hi j hj (by simp [Ref.clashes, hc, ht, hk, hcat])
  detected := fun i hi k => announcements_length h.events (h.detected i hi k)
  resolved := fun id k => announcements_length h.events (h.resolved id k)
  recorded := h.recorded
  once := h.once
  settled := h.settled

theorem Bookkept.orderly (h : Bookkept s.closures s.catalog) (call : Call) :
    Orderly env s call where
  allowed := by
    intro hrun
    exact Txn.run_error_of_wp (@call_spec env s h call) (Prod.ext hrun rfl) rfl
  warranted := by
    intro r hr hnew
    have outcome := @after_outcome env s h call
    generalize (s.after env call).catalog = c at outcome hr
    obtain ⟨-, same⟩ | ⟨_, _ | ⟨hj, -, hopen, habsent, hrj, hrows, hrestored, -⟩⟩ := outcome
    · exact absurd (same ▸ hr) hnew
    · exact absurd hr hnew
    · rw [hrows] at hr
      obtain hr | rfl := (Table.mem_insert habsent).mp hr
      · exact absurd hr hnew
      · exact ⟨_, hj, hrj.symm, hopen, hrestored⟩

/-- Over every run of audits and resolutions, whatever happens to objects and references. -/
theorem incidents_and_notifications_agree (h : Reachable env s) :
    Aligned s ∧ ∀ call, Orderly env s call :=
  ⟨(reachable_bookkept h).aligned, (reachable_bookkept h).orderly⟩

/-- A site whose objects all have one digest. -/
def site : Env where
  sha256 _ := "digest"
  bucket name := name
  loads _ := .object
  dumps _ := []
  isoformat _ := ""
  buildNormalizedParquet _ _ _ _ _ := .error "Parquet input is empty"

def lostKey : ObjectKey := .segment "tenant" "cluster" "digest"

def lost : State where
  catalog := { Catalog.empty with
    candidates := Table.empty.insert ⟨1, lostKey, "digest", .guarded, 0, 0, none, 0, none⟩
    manifests := Table.empty.insert ⟨2, "tenant", "cluster", "attempt", "credential", "producer",
      "epoch", "stream", 0, 0, 1, "digest", lostKey, 0, 0⟩ }
  objects := fun _ => none
  closures := []

def detection : Call := .audit ⟨300, 300, 1, by decide⟩ Faults.none 1 [] (fun _ _ => (3, 4))

/-- The objects change, and nothing else. -/
def withObjects (s : State) (w : ObjectStore) : State := ⟨s.catalog, w, s.closures⟩

theorem reachable_withObjects {s : State} {w : ObjectStore} (h : Reachable env s) :
    Reachable env (withObjects s w) :=
  h.step (.elsewhere rfl rfl rfl (fun _ hx => hx))

def resolution : Call :=
  .resolve Faults.none 2 "tenant" "cluster" 3 "operator" "restored from a copy" (5, 6)

def laterDetection : Call :=
  .audit ⟨300, 300, 1, by decide⟩ Faults.none 400000000 [] (fun _ _ => (7, 8))

/-- The loss is detected, the object is brought back and the incident resolved. -/
def resolved : State := (withObjects (lost.after site detection) (fun _ => some [])).after site
  resolution

def recurred : State := (withObjects resolved (fun _ => none)).after site laterDetection

theorem recurrence_agrees : (Aligned recurred ∧ ∀ call, Orderly site recurred call) ∧
    (announcements recurred.catalog 3 1 .detected).length = 1 ∧
    (announcements recurred.catalog 3 1 .resolved).length = 1 ∧
    (announcements recurred.catalog 3 2 .detected).length = 1 := by
  have detected : Reachable site (lost.after site detection) :=
    (Reachable.start rfl rfl rfl).step (.call detection)
  have settled : Reachable site resolved := (reachable_withObjects detected).step (.call resolution)
  have again : Reachable site recurred :=
    (reachable_withObjects settled).step (.call laterDetection)
  exact ⟨incidents_and_notifications_agree again, by decide +kernel⟩

end run

end Incidents

end RankLens
