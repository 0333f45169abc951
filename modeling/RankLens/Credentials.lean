import RankLens.Downloads
import RankLens.JsonValue
import RankLens.Lifecycle

namespace RankLens

def machinePermissions : List String :=
  ["segments:write", "telemetry:read", "retention:admin", "credentials:revoke", "integrity:admin",
    "evidence:download"]

/-- A configured credential, with the permissions of its principal. -/
structure MachineCredential where
  tokenSha256 : String
  principal : MachinePrincipal
  permissions : List String
  notBefore : Option Instant
  expiresAt : Option Instant
deriving DecidableEq, Repr

/-- What the settings promise of a credential. -/
structure MachineCredential.WellFormed (c : MachineCredential) : Prop where
  digest : hexDigest c.tokenSha256 = true
  id : identifier 128 [] c.principal.credentialId = true
  tenant : c.principal.tenantId ≠ ""
  clusters : c.principal.clusters ≠ [] ∧ "" ∉ c.principal.clusters
  permissions : c.permissions ≠ [] ∧ ∀ p ∈ c.permissions, p ∈ machinePermissions
  window : ∀ s e, c.notBefore = some s → c.expiresAt = some e → s < e

/-- What the settings promise of all of them. -/
structure Configured (credentials : List MachineCredential) : Prop where
  nonempty : credentials ≠ []
  wellFormed : ∀ c ∈ credentials, c.WellFormed
  digests : (credentials.map MachineCredential.tokenSha256).Nodup
  ids : (credentials.map (fun c => c.principal.credentialId)).Nodup

namespace Settings

/-- `decoded.items()`: a key written twice stands where it stood first, with its last value. -/
def items {α : Type} (members : List (String × α)) : List (String × α) :=
  (members.map Prod.fst).reverse.dedup.reverse.filterMap
    (fun key => (JsonValue.member members key).map (fun value => (key, value)))

def allowedFields : List String :=
  ["token_sha256", "tenant_id", "clusters", "permissions", "not_before", "expires_at"]

def tokenDigest (seenDigests : List String) : Option JsonValue → Except String String
  | some (.string tokenSha256) =>
    if hexDigest tokenSha256 = false then
      .error "each machine credential requires a lowercase SHA-256 token digest"
    else if tokenSha256 ∈ seenDigests then
      .error "machine credential token digests must be unique"
    else .ok tokenSha256
  | _ => .error "each machine credential requires a lowercase SHA-256 token digest"

def strings : List JsonValue → Option (List String)
  | [] => some []
  | .string s :: rest => (strings rest).map (s :: ·)
  | _ :: _ => none

def tenantAndClusters : Option JsonValue → Option JsonValue → Except String (String × List String)
  | some (.string tenant), some (.array clusters) =>
    if tenant = "" then .error "each machine credential requires tenant_id and clusters"
    else
      match strings clusters with
      | none => .error "machine-credential clusters must be a nonempty string list"
      | some names =>
        if names = [] ∨ "" ∈ names then
          .error "machine-credential clusters must be a nonempty string list"
        else .ok (tenant, names)
  | _, _ => .error "each machine credential requires tenant_id and clusters"

def permissions : Option JsonValue → Except String (List String)
  | some (.array items) =>
    match strings items with
    | none => .error "machine-credential permissions are missing or unsupported"
    | some names =>
      if names = [] ∨ names.all machinePermissions.contains = false then
        .error "machine-credential permissions are missing or unsupported"
      else .ok names
  | _ => .error "machine-credential permissions are missing or unsupported"

variable (fromisoformat : String → Option (Option Instant))

def optionalUtcDatetime (field : String) : Option JsonValue → Except String (Option Instant)
  | none => .ok none
  | some .null => .ok none
  | some (.string value) =>
    match fromisoformat (value.replace "Z" "+00:00") with
    | none => .error s!"machine credential {field} must be an ISO-8601 timestamp"
    | some none => .error s!"machine credential {field} must include a UTC offset"
    | some (some t) => .ok (some t)
  | some _ => .error s!"machine credential {field} must be an ISO-8601 timestamp"

def ordered : Option Instant → Option Instant → Bool
  | some notBefore, some expiresAt => notBefore < expiresAt
  | _, _ => true

/-- One turn of the loop over the decoded credentials. -/
def machineCredential (seenDigests : List String) (credentialId : String) :
    JsonValue → Except String MachineCredential
  | .object members =>
    if identifier 128 [] credentialId = false then
      .error "machine credential IDs must be safe nonempty identifiers"
    else if JsonValue.unknown allowedFields members ≠ [] then
      .error "machine credentials contain unknown fields"
    else
      match tokenDigest seenDigests (JsonValue.member members "token_sha256") with
      | .error e => .error e
      | .ok tokenSha256 =>
        match tenantAndClusters (JsonValue.member members "tenant_id")
          (JsonValue.member members "clusters") with
        | .error e => .error e
        | .ok (tenant, clusters) =>
          match permissions (JsonValue.member members "permissions") with
          | .error e => .error e
          | .ok permissions =>
            match optionalUtcDatetime fromisoformat "not_before"
                (JsonValue.member members "not_before"),
              optionalUtcDatetime fromisoformat "expires_at"
                (JsonValue.member members "expires_at") with
            | .error e, _ => .error e
            | .ok _, .error e => .error e
            | .ok notBefore, .ok expiresAt =>
              if ordered notBefore expiresAt = false then
                .error "machine credential expires_at must be after not_before"
              else
                .ok ⟨tokenSha256, ⟨tenant, clusters, credentialId⟩, permissions, notBefore,
                  expiresAt⟩
  | _ => .error "machine credential IDs must be safe nonempty identifiers"

def loadCredentials : List (String × JsonValue) → List MachineCredential →
    Except String (List MachineCredential)
  | [], credentials => .ok credentials
  | (credentialId, value) :: rest, credentials =>
    match machineCredential fromisoformat (credentials.map MachineCredential.tokenSha256)
      credentialId value with
    | .error e => .error e
    | .ok credential => loadCredentials rest (credentials ++ [credential])

/-- The credentials of `Settings.from_environment`. -/
def machineCredentials (loads : String → Option JsonValue) (rawCredentials : String) :
    Except String (List MachineCredential) :=
  if rawCredentials = "" then .error "RANKLENS_MACHINE_CREDENTIALS_JSON is required"
  else
    match loads rawCredentials with
    | none => .error "RANKLENS_MACHINE_CREDENTIALS_JSON must be valid JSON"
    | some (.object []) => .error "at least one machine credential is required"
    | some (.object members) => loadCredentials fromisoformat (items members) []
    | some _ => .error "at least one machine credential is required"

section loading

variable {loads : String → Option JsonValue} {rawCredentials : String} {value : JsonValue}
  {credentials result : List MachineCredential} {seenDigests names : List String}
  {credentialId tokenSha256 : String} {c : MachineCredential}

theorem keys_items {α : Type} (members : List (String × α)) :
    ((items members).map Prod.fst).Sublist (members.map Prod.fst).reverse.dedup.reverse := by
  unfold items
  induction (members.map Prod.fst).reverse.dedup.reverse with
  | nil => exact List.Sublist.refl []
  | cons key keys ih =>
    cases hm : JsonValue.member members key with
    | none =>
      rw [List.filterMap_cons_none (by rw [hm]; rfl)]
      exact ih.cons key
    | some value =>
      rw [List.filterMap_cons_some (b := (key, value)) (by rw [hm]; rfl)]
      exact ih.cons_cons key

theorem items_nodup {α : Type} (members : List (String × α)) :
    ((items members).map Prod.fst).Nodup :=
  (keys_items members).nodup (List.nodup_reverse.mpr (List.nodup_dedup _))

theorem items_ne_nil {α : Type} {members : List (String × α)} (h : members ≠ []) :
    items members ≠ [] := by
  obtain ⟨m, hm⟩ := List.exists_mem_of_ne_nil members h
  have hkey : m.1 ∈ (members.map Prod.fst).reverse.dedup.reverse := by
    rw [List.mem_reverse, List.mem_dedup, List.mem_reverse]
    exact List.mem_map_of_mem hm
  have hmember : (JsonValue.member members m.1).isSome = true := by
    unfold JsonValue.member
    rw [List.lookup_isSome_iff]
    exact ⟨m, List.mem_reverse.mpr hm, beq_self_eq_true m.1⟩
  obtain ⟨value, hvalue⟩ := Option.isSome_iff_exists.mp hmember
  have hitem : (m.1, value) ∈ items members :=
    List.mem_filterMap.mpr ⟨m.1, hkey, by rw [hvalue]; rfl⟩
  exact List.ne_nil_of_mem hitem

theorem tokenDigest_ok {v : Option JsonValue} (h : tokenDigest seenDigests v = .ok tokenSha256) :
    hexDigest tokenSha256 = true ∧ tokenSha256 ∉ seenDigests := by
  unfold tokenDigest at h
  split at h
  · split at h
    · cases h
    · next hhex =>
      split at h
      · cases h
      · next hseen =>
        obtain rfl := Except.ok.inj h
        exact ⟨Bool.eq_true_of_not_eq_false hhex, hseen⟩
  · cases h

theorem tenantAndClusters_ok {tenant : String} {clusters : List String} {v w : Option JsonValue}
    (h : tenantAndClusters v w = .ok (tenant, clusters)) :
    tenant ≠ "" ∧ clusters ≠ [] ∧ "" ∉ clusters := by
  unfold tenantAndClusters at h
  split at h
  · split at h
    · cases h
    · next htenant =>
      split at h
      · cases h
      · split at h
        · cases h
        · next hclusters =>
          cases h
          exact ⟨htenant, fun hc => hclusters (Or.inl hc), fun hc => hclusters (Or.inr hc)⟩
  · cases h

theorem permissions_ok {v : Option JsonValue} (h : permissions v = .ok names) :
    names ≠ [] ∧ ∀ p ∈ names, p ∈ machinePermissions := by
  unfold permissions at h
  split at h
  · split at h
    · cases h
    · split at h
      · cases h
      · next hnames =>
        obtain rfl := Except.ok.inj h
        obtain ⟨hne, hall⟩ := not_or.mp hnames
        refine ⟨hne, fun p hp => ?_⟩
        have hcontains := List.all_eq_true.mp (Bool.eq_true_of_not_eq_false hall) p hp
        exact List.contains_iff_mem.mp hcontains
  · cases h

theorem ordered_window {notBefore expiresAt : Option Instant}
    (h : ordered notBefore expiresAt ≠ false) (s e : Instant) (hs : notBefore = some s)
    (he : expiresAt = some e) : s < e := by
  subst hs he
  exact of_decide_eq_true (Bool.eq_true_of_not_eq_false h)

theorem machineCredential_ok
    (h : machineCredential fromisoformat seenDigests credentialId value = .ok c) :
    c.WellFormed ∧ c.tokenSha256 ∉ seenDigests ∧ c.principal.credentialId = credentialId := by
  unfold machineCredential at h
  split at h
  swap
  · cases h
  split at h
  · cases h
  rename_i members hid
  split at h
  · cases h
  split at h
  · cases h
  rename_i tokenSha256 hdigest
  split at h
  · cases h
  rename_i tenant clusters htenant
  split at h
  · cases h
  rename_i permissions hpermissions
  split at h
  · cases h
  · cases h
  split at h
  · cases h
  rename_i notBefore expiresAt _ _ hordered
  obtain rfl := Except.ok.inj h
  obtain ⟨hhex, hfresh⟩ := tokenDigest_ok hdigest
  obtain ⟨hne, hclusters⟩ := tenantAndClusters_ok htenant
  exact ⟨⟨hhex, Bool.eq_true_of_not_eq_false hid, hne, hclusters, permissions_ok hpermissions,
    ordered_window hordered⟩, hfresh, rfl⟩

theorem loadCredentials_ok {rest : List (String × JsonValue)}
    (hw : ∀ c ∈ credentials, c.WellFormed)
    (hd : (credentials.map MachineCredential.tokenSha256).Nodup)
    (hi : (credentials.map (fun c => c.principal.credentialId) ++ rest.map Prod.fst).Nodup)
    (h : loadCredentials fromisoformat rest credentials = .ok result) :
    (∀ c ∈ result, c.WellFormed) ∧ (result.map MachineCredential.tokenSha256).Nodup ∧
      (result.map (fun c => c.principal.credentialId)).Nodup ∧
      result.length = credentials.length + rest.length := by
  induction rest generalizing credentials with
  | nil =>
    obtain rfl := Except.ok.inj h
    rw [List.map_nil, List.append_nil] at hi
    exact ⟨hw, hd, hi, rfl⟩
  | cons item rest ih =>
    rw [loadCredentials] at h
    split at h
    · cases h
    · next credential hc =>
      obtain ⟨hwell, hfresh, hid⟩ := machineCredential_ok fromisoformat hc
      have hids : ((credentials ++ [credential]).map (fun c => c.principal.credentialId) ++
          rest.map Prod.fst).Nodup := by
        rw [List.map_append, List.map_singleton, hid, List.append_assoc]
        exact hi
      have hdigests : ((credentials ++ [credential]).map MachineCredential.tokenSha256).Nodup := by
        rw [List.map_append, List.map_singleton, List.nodup_append_comm, List.singleton_append]
        exact List.nodup_cons.mpr ⟨hfresh, hd⟩
      obtain ⟨hws, hds, his, hlength⟩ := ih (fun c hc => by
        rcases List.mem_append.mp hc with hc | hc
        · exact hw c hc
        · rw [List.mem_singleton.mp hc]
          exact hwell) hdigests hids h
      refine ⟨hws, hds, his, ?_⟩
      rw [hlength, List.length_append, List.length_singleton, List.length_cons]
      omega

theorem machineCredentials_ok
    (h : machineCredentials fromisoformat loads rawCredentials = .ok credentials) :
    Configured credentials := by
  unfold machineCredentials at h
  split at h
  · cases h
  split at h
  · cases h
  · cases h
  · next members hne _ =>
    have hitems : items members ≠ [] := items_ne_nil (fun hnil => hne (by rw [hnil]))
    obtain ⟨hw, hd, hi, hlength⟩ := loadCredentials_ok fromisoformat
      (fun c hc => absurd hc List.not_mem_nil) List.nodup_nil (items_nodup members) h
    refine ⟨fun hnil => hitems (List.length_eq_zero_iff.mp ?_), hw, hd, hi⟩
    rw [hnil] at hlength
    exact (hlength.trans (Nat.zero_add _)).symm
  · cases h

end loading

end Settings

/-- A request that is refused: its status, code and message, and whether the
answer carries `WWW-Authenticate: Bearer`. -/
structure Refusal extends HttpError where
  message : Option String
  challenge : Bool
deriving DecidableEq, Repr

/-- A permanent revocation of one configured machine identity. -/
structure MachineCredentialRevocation where
  tenantId : String
  credentialId : String
  reason : String
  revokedByCredentialId : String
  revokedAt : Instant
deriving DecidableEq, Repr

def MachineCredentialRevocation.identity (r : MachineCredentialRevocation) : String × String :=
  (r.tenantId, r.credentialId)

abbrev Revocations := Table MachineCredentialRevocation.identity

inductive RevocationLock where
  | stream (tenantId credentialId : String)
  | row (identity : String × String)
deriving DecidableEq, Repr

abbrev RevocationTx := Txn Revocations Unit RevocationLock Refusal

def revocationTable : Ref Revocations RevocationLock MachineCredentialRevocation.identity where
  view := id
  put t _ := t
  view_put _ _ := Eq.refl _
  row := .row
  unique := []

namespace MachineAuthenticator

def required : Refusal :=
  ⟨⟨401, "machine_auth_required"⟩, some "machine authentication required", true⟩

def invalid : Refusal :=
  ⟨⟨401, "machine_auth_invalid"⟩, some "machine authentication failed", true⟩

def forbidden : Refusal :=
  ⟨⟨403, "machine_auth_forbidden"⟩,
    some "machine credential lacks the required permission", false⟩

/-- The token behind the scheme: `authorization.partition(" ")`. -/
def bearerToken (authorization : String) : Option String :=
  match authorization.toList.dropWhile (fun c => c != ' ') with
  | _ :: c :: supplied =>
    let scheme := String.ofList (authorization.toList.takeWhile (fun c => c != ' '))
    if scheme.toLower = "bearer" then some (String.ofList (c :: supplied)) else none
  | _ => none

/-- The last of the credentials with the digest. -/
def matched (credentials : List MachineCredential) (suppliedSha256 : String) :
    Option MachineCredential :=
  credentials.foldl (fun matched credential =>
    if credential.tokenSha256 = suppliedSha256 then some credential else matched) none

def within (c : MachineCredential) (now : Instant) : Bool :=
  !(c.notBefore.any (fun t => now < t) || c.expiresAt.any (fun t => t ≤ now))

def revocationId (p : MachinePrincipal) : String × String := (p.tenantId, p.credentialId)

def isRevoked (principal : MachinePrincipal) : RevocationTx Bool := do
  let revocation ← revocationTable.get (revocationId principal)
  pure revocation.isSome

variable (sha256 : Bytes → String) (credentials : List MachineCredential)

def authenticate (authorization permission : String) (now : Instant) :
    RevocationTx MachinePrincipal :=
  match bearerToken authorization with
  | none => Txn.raise required
  | some supplied =>
    match matched credentials (sha256 supplied.toUTF8.toList) with
    | none => Txn.raise invalid
    | some c => do
      Txn.raiseIf (within c now = false) invalid
      let revoked ← isRevoked c.principal
      Txn.raiseIf (revoked = true) invalid
      Txn.raiseIf (permission ∉ c.permissions) forbidden
      pure c.principal

/-- `self._credentials_by_id.get(credential_id)`. -/
def byId (credentialId : String) : Option MachineCredential :=
  credentials.find? (fun c => c.principal.credentialId = credentialId)

def notFound : Refusal := ⟨⟨404, "machine_credential_not_found"⟩, none, false⟩

/-- The answer to a `ValueError` of `revoke_credential`. -/
def conflict (message : String) : Refusal :=
  ⟨⟨409, "machine_credential_revocation_conflict"⟩, some message, false⟩

def internal : Refusal := ⟨⟨500, "internal_server_error"⟩, none, false⟩

def newRevocation (principal : MachinePrincipal) (credentialId reason : String) (now : Instant) :
    MachineCredentialRevocation :=
  ⟨principal.tenantId, credentialId, strip reason, principal.credentialId, now⟩

def revokeCredential (principal : MachinePrincipal) (credentialId reason : String)
    (now : Instant) : RevocationTx MachineCredentialRevocation := do
  Txn.raiseIf (reasonInvalid reason = true)
    (conflict "revocation reason must contain between 1 and 512 characters")
  Txn.raiseIf (credentialId = principal.credentialId)
    (conflict "a security credential cannot revoke itself")
  Txn.raiseIf ((byId credentials credentialId).all
    (fun target => target.principal.tenantId != principal.tenantId) = true) notFound
  Txn.lock (.stream principal.tenantId credentialId)
  let existing ← revocationTable.get (principal.tenantId, credentialId)
  match existing with
  | some existing => do
    Txn.raiseIf (existing.reason ≠ strip reason ∨
      existing.revokedByCredentialId ≠ principal.credentialId)
      (conflict "machine credential already has a different revocation")
    pure existing
  | none => do
    revocationTable.insert internal (newRevocation principal credentialId reason now)
    pure (newRevocation principal credentialId reason now)

section deciding

variable {sha256 credentials} {authorization permission digest : String} {now : Instant}
  {t : Revocations} {c c' : MachineCredential} {p : MachinePrincipal} {e : Refusal}

theorem matched_snoc : matched (credentials ++ [c]) digest =
    if c.tokenSha256 = digest then some c else matched credentials digest := by
  unfold matched
  rw [List.foldl_append, List.foldl_cons, List.foldl_nil]

theorem matched_some (h : matched credentials digest = some c) :
    c ∈ credentials ∧ c.tokenSha256 = digest := by
  induction credentials using List.reverseRecOn with
  | nil => cases h
  | append_singleton credentials last ih =>
    rw [matched_snoc] at h
    split at h
    · next hlast =>
      obtain rfl := Option.some.inj h
      exact ⟨List.mem_append_right _ (List.mem_singleton_self _), hlast⟩
    · exact ⟨List.mem_append_left _ (ih h).1, (ih h).2⟩

theorem matched_isSome (h : c ∈ credentials) :
    ∃ c', matched credentials c.tokenSha256 = some c' := by
  induction credentials using List.reverseRecOn with
  | nil => exact absurd h List.not_mem_nil
  | append_singleton credentials last ih =>
    rw [matched_snoc]
    split
    · exact ⟨last, rfl⟩
    · next hlast =>
      rcases List.mem_append.mp h with h | h
      · exact ih h
      · exact absurd (congrArg _ (List.mem_singleton.mp h).symm) hlast

/-- Under configured credentials it does not matter that the last match counts. -/
theorem matched_of_mem (hc : Configured credentials) (h : c ∈ credentials) :
    matched credentials c.tokenSha256 = some c := by
  obtain ⟨c', hc'⟩ := matched_isSome h
  obtain ⟨hmem, hdigest⟩ := matched_some hc'
  rw [hc', List.inj_on_of_nodup_map hc.digests hmem h hdigest]

/-- The header carries the token of the credential. -/
def Presents (sha256 : Bytes → String) (authorization : String) (c : MachineCredential) : Prop :=
  ∃ supplied, bearerToken authorization = some supplied ∧
    sha256 supplied.toUTF8.toList = c.tokenSha256

/-- The credential stands: it is within its window and not revoked. -/
structure Stands (now : Instant) (t : Revocations) (c : MachineCredential) : Prop where
  within : within c now = true
  unrevoked : t.get (revocationId c.principal) = none

/-- `authenticate` over one state of the table. -/
def verdict (sha256 : Bytes → String) (credentials : List MachineCredential)
    (authorization permission : String) (now : Instant) (t : Revocations) :
    Except Refusal MachinePrincipal :=
  match bearerToken authorization with
  | none => .error required
  | some supplied =>
    match matched credentials (sha256 supplied.toUTF8.toList) with
    | none => .error invalid
    | some c =>
      if within c now = false then .error invalid
      else if (t.get (revocationId c.principal)).isSome = true then .error invalid
      else if permission ∉ c.permissions then .error forbidden
      else .ok c.principal

theorem authenticate_atomically :
    (authenticate sha256 credentials authorization permission now).atomically t () =
      (verdict sha256 credentials authorization permission now t, t, ()) := by
  unfold authenticate verdict
  split
  · rfl
  split
  · rfl
  rename_i c _
  by_cases hwithin : within c now = false
  · simp [Txn.atomically, Txn.raiseIf, hwithin, Txn.run, bind, Txn.bind]
  by_cases hrevoked : (t.get (revocationId c.principal)).isSome = true
  · simp [Txn.atomically, Txn.raiseIf, hwithin, Txn.run, bind, Txn.bind, isRevoked, Ref.get,
      Txn.read, revocationTable, hrevoked, pure]
  by_cases hpermission : permission ∈ c.permissions
  · simp [Txn.atomically, Txn.raiseIf, hwithin, Txn.run, bind, Txn.bind, isRevoked, Ref.get,
      Txn.read, revocationTable, hrevoked, hpermission, pure]
  · simp [Txn.atomically, Txn.raiseIf, hwithin, Txn.run, bind, Txn.bind, isRevoked, Ref.get,
      Txn.read, revocationTable, hrevoked, hpermission, pure]

theorem verdict_of_presents (hc : Configured credentials) (h : c ∈ credentials)
    (hp : Presents sha256 authorization c) :
    verdict sha256 credentials authorization permission now t =
      if within c now = false then .error invalid
      else if (t.get (revocationId c.principal)).isSome = true then .error invalid
      else if permission ∉ c.permissions then .error forbidden
      else .ok c.principal := by
  obtain ⟨supplied, hbearer, hdigest⟩ := hp
  simp only [verdict, hbearer, hdigest, matched_of_mem hc h]

theorem verdict_of_stranger (h : ∀ c ∈ credentials, ¬Presents sha256 authorization c) :
    verdict sha256 credentials authorization permission now t = .error required ∨
      verdict sha256 credentials authorization permission now t = .error invalid := by
  unfold verdict
  split
  · exact Or.inl rfl
  · next supplied hbearer =>
    split
    · exact Or.inr rfl
    · next c hmatched =>
      obtain ⟨hmem, hdigest⟩ := matched_some hmatched
      exact absurd ⟨supplied, hbearer, hdigest.symm⟩ (h c hmem)

/-- How a request is answered before any endpoint sees it. -/
structure Decides (sha256 : Bytes → String) (credentials : List MachineCredential)
    (authorization permission : String) (now : Instant) (t : Revocations) : Prop where
  granted : ∀ p, (authenticate sha256 credentials authorization permission now).atomically t () =
      (.ok p, t, ()) ↔ ∃ c ∈ credentials, Presents sha256 authorization c ∧ Stands now t c ∧
        permission ∈ c.permissions ∧ c.principal = p
  forbidden : (authenticate sha256 credentials authorization permission now).atomically t () =
      (.error forbidden, t, ()) ↔ ∃ c ∈ credentials, Presents sha256 authorization c ∧
        Stands now t c ∧ permission ∉ c.permissions
  challenged : (∀ c ∈ credentials, Presents sha256 authorization c → ¬Stands now t c) →
    ∃ e, (authenticate sha256 credentials authorization permission now).atomically t () =
      (.error e, t, ()) ∧ e.statusCode = 401 ∧ e.challenge = true
  one : ∀ c ∈ credentials, ∀ c' ∈ credentials, Presents sha256 authorization c →
    Presents sha256 authorization c' → c = c'

theorem presents_unique (hc : Configured credentials) (h : c ∈ credentials)
    (h' : c' ∈ credentials) (hp : Presents sha256 authorization c)
    (hp' : Presents sha256 authorization c') : c = c' := by
  obtain ⟨supplied, hbearer, hdigest⟩ := hp
  obtain ⟨supplied', hbearer', hdigest'⟩ := hp'
  obtain rfl := Option.some.inj (hbearer.symm.trans hbearer')
  exact List.inj_on_of_nodup_map hc.digests h h' (hdigest.symm.trans hdigest')

theorem stands_iff : Stands now t c ↔
    ¬within c now = false ∧ ¬(t.get (revocationId c.principal)).isSome = true := by
  rw [Bool.not_eq_false, Option.not_isSome_iff_eq_none]
  exact ⟨fun h => ⟨h.within, h.unrevoked⟩, fun h => ⟨h.1, h.2⟩⟩

theorem verdict_of_stands (hc : Configured credentials) (h : c ∈ credentials)
    (hp : Presents sha256 authorization c) (hs : Stands now t c) :
    verdict sha256 credentials authorization permission now t =
      if permission ∈ c.permissions then .ok c.principal else .error forbidden := by
  obtain ⟨hwithin, hrevoked⟩ := stands_iff.mp hs
  rw [verdict_of_presents hc h hp, if_neg hwithin, if_neg hrevoked, ite_not]

theorem verdict_of_fallen (hc : Configured credentials)
    (h : ∀ c ∈ credentials, Presents sha256 authorization c → ¬Stands now t c) :
    verdict sha256 credentials authorization permission now t = .error required ∨
      verdict sha256 credentials authorization permission now t = .error invalid := by
  by_cases hex : ∃ c ∈ credentials, Presents sha256 authorization c
  · obtain ⟨c, hmem, hp⟩ := hex
    rw [verdict_of_presents hc hmem hp]
    have hfallen := mt stands_iff.mpr (h c hmem hp)
    by_cases hwithin : within c now = false
    · exact Or.inr (if_pos hwithin)
    · rw [if_neg hwithin]
      by_cases hrevoked : (t.get (revocationId c.principal)).isSome = true
      · exact Or.inr (if_pos hrevoked)
      · exact absurd ⟨hwithin, hrevoked⟩ hfallen
  · exact verdict_of_stranger (fun c hmem hp => hex ⟨c, hmem, hp⟩)

theorem stands_of_verdict (hc : Configured credentials)
    (h : verdict sha256 credentials authorization permission now t = .ok p ∨
      verdict sha256 credentials authorization permission now t = .error forbidden) :
    ∃ c ∈ credentials, Presents sha256 authorization c ∧ Stands now t c := by
  by_contra hnone
  have hfallen : verdict sha256 credentials authorization permission now t = .error required ∨
      verdict sha256 credentials authorization permission now t = .error invalid :=
    verdict_of_fallen hc (fun c hmem hp hs => hnone ⟨c, hmem, hp, hs⟩)
  rcases h with hv | hv <;> rcases hfallen with hf | hf <;> rw [hv] at hf <;> cases hf

theorem answered_iff {r : Except Refusal MachinePrincipal} :
    (authenticate sha256 credentials authorization permission now).atomically t () = (r, t, ()) ↔
      verdict sha256 credentials authorization permission now t = r := by
  rw [authenticate_atomically]
  exact ⟨congrArg Prod.fst, fun h => by rw [h]⟩

/-- Whatever the header, the authenticator of accepted settings knows one credential behind it
at most, and its answer says whether that credential stands and has the permission. -/
theorem authenticator_decides {fromisoformat : String → Option (Option Instant)}
    {loads : String → Option JsonValue} {rawCredentials : String}
    (h : Settings.machineCredentials fromisoformat loads rawCredentials = .ok credentials) :
    Decides sha256 credentials authorization permission now t := by
  have hc := Settings.machineCredentials_ok fromisoformat h
  constructor
  · intro p
    rw [answered_iff]
    constructor
    · intro hv
      obtain ⟨c, hmem, hp, hs⟩ := stands_of_verdict hc (Or.inl hv)
      rw [verdict_of_stands hc hmem hp hs] at hv
      split at hv
      · next hpermission => exact ⟨c, hmem, hp, hs, hpermission, Except.ok.inj hv⟩
      · cases hv
    · rintro ⟨c, hmem, hp, hs, hpermission, rfl⟩
      rw [verdict_of_stands hc hmem hp hs, if_pos hpermission]
  · rw [answered_iff]
    constructor
    · intro hv
      obtain ⟨c, hmem, hp, hs⟩ := stands_of_verdict (p := ⟨"", [], ""⟩) hc (Or.inr hv)
      rw [verdict_of_stands hc hmem hp hs] at hv
      split at hv
      · cases hv
      · next hpermission => exact ⟨c, hmem, hp, hs, hpermission⟩
    · rintro ⟨c, hmem, hp, hs, hpermission⟩
      rw [verdict_of_stands hc hmem hp hs, if_neg hpermission]
  · intro hfallen
    rcases verdict_of_fallen hc hfallen with hv | hv
    · exact ⟨required, answered_iff.mpr hv, rfl, rfl⟩
    · exact ⟨invalid, answered_iff.mpr hv, rfl, rfl⟩
  · exact fun c hmem c' hmem' hp hp' => presents_unique hc hmem hmem' hp hp'

end deciding

end MachineAuthenticator

namespace Sample

/-- SHA-256 of the two tokens below. -/
def tokenSha256 (token : Bytes) : String :=
  if token = "audit-token-1".toUTF8.toList then
    "f13df11e9db3bab50873f13a43e07a7cbe447c8cd0f350838ef6bddbd86dbc6f"
  else if token = "admin-token-2".toUTF8.toList then
    "ac462d5ea711c0c669b939e029ae18ab516c59a375500541870b365e489228ac"
  else ""

/-- A tenant with two security credentials, one of which may also read. -/
def administrators : List MachineCredential :=
  [⟨"f13df11e9db3bab50873f13a43e07a7cbe447c8cd0f350838ef6bddbd86dbc6f", ⟨"acme", ["c1"], "audit"⟩,
      ["credentials:revoke", "telemetry:read"], none, none⟩,
    ⟨"ac462d5ea711c0c669b939e029ae18ab516c59a375500541870b365e489228ac", ⟨"acme", ["c1"], "admin"⟩,
      ["credentials:revoke"], none, none⟩]

def credentialDocument (c : MachineCredential) : String × JsonValue :=
  (c.principal.credentialId, .object [("token_sha256", .string c.tokenSha256),
    ("tenant_id", .string c.principal.tenantId),
    ("clusters", .array (c.principal.clusters.map .string)),
    ("permissions", .array (c.permissions.map .string))])

def credentialsDocument : JsonValue := .object (administrators.map credentialDocument)

theorem administrators_loaded : Settings.machineCredentials (fun _ => none)
    (fun _ => some credentialsDocument) "credentials" = .ok administrators := by
  rfl

theorem administrators_configured : Configured administrators :=
  Settings.machineCredentials_ok _ administrators_loaded

end Sample

namespace MachineAuthenticator

theorem authenticator_decides_sample :
    (authenticate Sample.tokenSha256 Sample.administrators "bearer audit-token-1" "telemetry:read"
        7).atomically Table.empty () = (.ok ⟨"acme", ["c1"], "audit"⟩, Table.empty, ()) ∧
      (authenticate Sample.tokenSha256 Sample.administrators "Bearer admin-token-2"
        "telemetry:read" 7).atomically Table.empty () =
          (.error forbidden, Table.empty, ()) := by
  constructor
  · refine ((authenticator_decides Sample.administrators_loaded).granted _).mpr ?_
    refine ⟨_, List.mem_cons_self, ⟨"audit-token-1", ?_, ?_⟩, ⟨?_, ?_⟩, ?_, ?_⟩
    all_goals decide +kernel
  · refine (authenticator_decides Sample.administrators_loaded).forbidden.mpr ?_
    refine ⟨_, List.mem_cons_of_mem _ List.mem_cons_self, ⟨"admin-token-2", ?_, ?_⟩, ⟨?_, ?_⟩, ?_⟩
    all_goals decide +kernel

end MachineAuthenticator

end RankLens
