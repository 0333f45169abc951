import RankLens.JsonValue
import RankLens.Restoration

namespace RankLens

namespace JsonValue

def hex4 (n : Nat) : List Char :=
  ['\\', 'u', hexDigit (n / 4096 % 16), hexDigit (n / 256 % 16), hexDigit (n / 16 % 16),
    hexDigit (n % 16)]

/-- A character of a string as `json.dumps` writes it in ASCII. -/
def asciiEscape (c : Char) : List Char :=
  if c = '"' then ['\\', '"']
  else if c = '\\' then ['\\', '\\']
  else if 32 ≤ c.toNat ∧ c.toNat < 127 then [c]
  else if c = '\n' then ['\\', 'n']
  else if c = '\r' then ['\\', 'r']
  else if c = '\t' then ['\\', 't']
  else if c.toNat = 8 then ['\\', 'b']
  else if c.toNat = 12 then ['\\', 'f']
  else if c.toNat < 0x10000 then hex4 c.toNat
  else hex4 (0xD800 + (c.toNat - 0x10000) / 1024) ++ hex4 (0xDC00 + (c.toNat - 0x10000) % 1024)

def asciiQuote (s : String) : List Char := '"' :: s.toList.flatMap asciiEscape ++ ['"']

-- `json.dumps` without blanks. The members are in the order of their keys.
mutual

def compact : JsonValue → List Char
  | .null => ['n', 'u', 'l', 'l']
  | .bool true => ['t', 'r', 'u', 'e']
  | .bool false => ['f', 'a', 'l', 's', 'e']
  | .number n => digits n
  | .decimal negative whole fraction exponent => decimalText negative whole fraction exponent
  | .string s => asciiQuote s
  | .array xs => '[' :: compactItems xs ++ [']']
  | .object members => Char.ofNat 123 :: compactMembers members ++ [Char.ofNat 125]

def compactItems : List JsonValue → List Char
  | [] => []
  | [x] => compact x
  | x :: xs => compact x ++ ',' :: compactItems xs

def compactMembers : List (String × JsonValue) → List Char
  | [] => []
  | [(key, x)] => asciiQuote key ++ ':' :: compact x
  | (key, x) :: xs => asciiQuote key ++ ':' :: compact x ++ ',' :: compactMembers xs

end

end JsonValue

/-- The parts of Python the export and the import use: `json.loads`, which keeps a float by the
digits of its `repr`, the hex digests, and the texts of times. A text without an offset has no
instant. -/
structure RestoreTools where
  loads : Bytes → Option JsonValue
  hmac : String → Bytes → String
  sha256 : Bytes → String
  isoformat : Instant → String
  fromisoformat : String → Option (Option Instant)

structure TombstoneExport where
  bundle : Bytes
  nextCursor : Option AttemptKey
deriving DecidableEq, Repr

namespace Recovery

variable (tools : RestoreTools)

def canonical (value : JsonValue) : Bytes := value.compact.map (fun c => UInt8.ofNat c.toNat)

/-- The order of two keys when `collate` is the order of the text columns. -/
def keyLe (collate : String → String → Bool) (k k' : AttemptKey) : Bool :=
  if k.tenantId ≠ k'.tenantId then collate k.tenantId k'.tenantId
  else if k.clusterId ≠ k'.clusterId then collate k.clusterId k'.clusterId
  else collate k.attemptId k'.attemptId

/-- The completed deletions after the cursor, in the order of the database. -/
def completedRows (collate : String → String → Bool) (after : Option AttemptKey) (c : Catalog) :
    List AttemptDeletion :=
  (c.deletions.select (fun d => d.state = .completed &&
    after.all (fun k => keyLe collate k d.attempt && k ≠ d.attempt))).insertionSort
      (fun d d' => keyLe collate d.attempt d'.attempt = true)

def exportPage (collate : String → String → Bool) (after : Option AttemptKey) (limit : Nat)
    (c : Catalog) : List AttemptDeletion :=
  (completedRows collate after c).take limit

def entryJson (d : AttemptDeletion) : JsonValue := .object [
  ("attempt_id", .string d.attemptId),
  ("cluster_id", .string d.clusterId),
  ("completed_at", match d.completedAt with
    | some t => .string (tools.isoformat t)
    | none => .null),
  ("deletion_generation", .number d.deletionGeneration),
  ("requested_at", .string (tools.isoformat d.requestedAt)),
  ("tenant_id", .string d.tenantId)]

def payloadJson (createdAt : Instant) (page : List AttemptDeletion) : JsonValue := .object [
  ("created_at", .string (tools.isoformat createdAt)),
  ("entries", .array (page.map (entryJson tools))),
  ("schema_version", .number 1)]

def signature (secret : String) (payload : JsonValue) : String :=
  "sha256=" ++ tools.hmac secret (canonical payload)

def envelopeJson (secret : String) (createdAt : Instant) (page : List AttemptDeletion) :
    JsonValue := .object [
  ("payload", payloadJson tools createdAt page),
  ("signature", .string (signature tools secret (payloadJson tools createdAt page)))]

def exportCompletedTombstones (collate : String → String → Bool) (secret : String)
    (createdAt : Instant) (after : Option AttemptKey) (limit : Nat) (c : Catalog) :
    Except Failure TombstoneExport :=
  if ¬(1 ≤ limit ∧ limit ≤ 10000) then
    .error (.value "tombstone export limit must be within [1, 10000]")
  else if ¬(32 ≤ secret.length ∧ secret.length ≤ 1024) then
    .error (.value "tombstone signing secret must contain 32 to 1024 characters")
  else
    let page := exportPage collate after limit c
    .ok ⟨canonical (envelopeJson tools secret createdAt page),
      if limit < (completedRows collate after c).length then page.getLast?.map AttemptDeletion.attempt
      else none⟩

def exactly (names : List String) (members : List (String × JsonValue)) : Bool :=
  (JsonValue.unknown names members).isEmpty &&
    names.all (fun name => (JsonValue.member members name).isSome)

def parseTime (field : String) : Option JsonValue → Except Failure Instant
  | some (.string text) =>
    match tools.fromisoformat text with
    | none => .error (.value s!"tombstone {field} must be ISO-8601")
    | some none => .error (.value s!"tombstone {field} must include an offset")
    | some (some t) => .ok t
  | _ => .error (.value s!"tombstone {field} must be a timestamp")

def entryFields : List String := ["tenant_id", "cluster_id", "attempt_id", "deletion_generation",
  "requested_at", "completed_at"]

def parseEntry : JsonValue → Except Failure TombstoneEntry
  | .object members =>
    if exactly entryFields members = false then .error (.value "tombstone entry is invalid")
    else
      match JsonValue.member members "tenant_id", JsonValue.member members "cluster_id",
        JsonValue.member members "attempt_id" with
      | some (.string tenantId), some (.string clusterId), some (.string attemptId) =>
        if hids : [tenantId, clusterId, attemptId].all (identifier 128 []) = true then
          match JsonValue.member members "deletion_generation" with
          | some (.number n) =>
            if hn : 1 ≤ n.toNat ∧ n.toNat ≤ 2 ^ 63 - 1 then
              match parseTime tools "requested_at" (JsonValue.member members "requested_at"),
                parseTime tools "completed_at" (JsonValue.member members "completed_at") with
              | .error e, _ => .error e
              | .ok _, .error e => .error e
              | .ok requestedAt, .ok completedAt =>
                if ht : requestedAt ≤ completedAt then
                  .ok ⟨⟨tenantId, clusterId, attemptId⟩, n.toNat, requestedAt, completedAt, hids, hn, ht⟩
                else .error (.value "tombstone completion precedes its request")
            else .error (.value "tombstone deletion generation is invalid")
          | _ => .error (.value "tombstone deletion generation is invalid")
        else .error (.value "tombstone identifiers are invalid")
      | _, _, _ => .error (.value "tombstone identifiers are invalid")
  | _ => .error (.value "tombstone entry is invalid")

def parseEntries : List JsonValue → Except Failure (List TombstoneEntry)
  | [] => .ok []
  | x :: xs =>
    match parseEntry tools x with
    | .error e => .error e
    | .ok entry => (parseEntries xs).map (entry :: ·)

/-- The order of the entries in a bundle: that of the code points. -/
def codePoints (a b : String) : Bool := decide (a ≤ b)

def ordered (keys : List AttemptKey) : Prop :=
  keys.Pairwise (fun k k' => keyLe codePoints k k' = true)

instance (keys : List AttemptKey) : Decidable (ordered keys) :=
  inferInstanceAs (Decidable (List.Pairwise _ _))

def isOne : Option JsonValue → Bool
  | some (.number n) => n = 1
  | some (.bool b) => b
  -- `1.0 == 1`
  | some (.decimal false 1 [0] none) => true
  | _ => false

/-- The entries of a bundle with the digest, when they are unique and in order. -/
def checkEntries (digest : String) (createdAt : Instant) (entries : List TombstoneEntry) :
    Except Failure TombstoneBundle :=
  if ho : ordered (entries.map TombstoneEntry.attempt) ∧
      (entries.map TombstoneEntry.attempt).Nodup ∧ entries.length ≤ 10000 then
    .ok ⟨digest, createdAt, entries, ho.2.2, ho.2.1⟩
  else .error (.value "tombstone entries must be unique and canonically ordered")

def parsePayload (digest : String) : JsonValue → Except Failure TombstoneBundle
  | .object members =>
    match exactly ["schema_version", "created_at", "entries"] members,
      isOne (JsonValue.member members "schema_version"), JsonValue.member members "entries" with
    | true, true, some (.array items) =>
      if items.length ≤ 10000 then
        match parseTime tools "created_at" (JsonValue.member members "created_at"),
          parseEntries tools items with
        | .error e, _ => .error e
        | .ok _, .error e => .error e
        | .ok createdAt, .ok entries => checkEntries digest createdAt entries
      else .error (.value "tombstone bundle payload is invalid")
    | _, _, _ => .error (.value "tombstone bundle payload is invalid")
  | _ => .error (.value "tombstone bundle payload is invalid")

def parseEnvelope (digest secret : String) : JsonValue → Except Failure TombstoneBundle
  | .object members =>
    match exactly ["payload", "signature"] members, JsonValue.member members "payload",
      JsonValue.member members "signature" with
    | true, some payload, some (.string text) =>
      if text = signature tools secret payload then parsePayload tools digest payload
      else .error (.value "tombstone bundle signature is invalid")
    | true, _, _ => .error (.value "tombstone bundle signature is invalid")
    | false, _, _ => .error (.value "tombstone bundle envelope is invalid")
  | _ => .error (.value "tombstone bundle envelope is invalid")

/-- The checks before the bundle is read. -/
def checkBundle (bundle : Bytes) (secret : String) : Except Failure Unit :=
  if 10 * 1024 * 1024 < bundle.length then .error (.value "tombstone bundle exceeds 10 MiB")
  else if ¬(32 ≤ secret.length ∧ secret.length ≤ 1024) then
    .error (.value "tombstone signing secret must contain 32 to 1024 characters")
  else .ok ()

def readBundle (bundle : Bytes) (secret : String) : Except Failure TombstoneBundle :=
  match tools.loads bundle with
  | none => .error (.value "tombstone bundle is not valid JSON")
  | some envelope => parseEnvelope tools (tools.sha256 bundle) secret envelope

/-- The bundle, when its size, its signature and its payload are as they should be. -/
def parseBundle (bundle : Bytes) (secret : String) : Except Failure TombstoneBundle :=
  match checkBundle bundle secret with
  | .error e => .error e
  | .ok () => readBundle tools bundle secret

/-- `apply_completed_tombstones`, from the bytes of the bundle on. -/
def applyBundle (bundle : Bytes) (secret actor : String) (now : Instant) :
    Tx TombstoneImportResult :=
  match checkBundle bundle secret with
  | .error e => Txn.raise e
  | .ok () =>
    -- the actor is checked before the bundle is read
    if identifier 128 [] actor = false then
      Txn.raise (.value "restore actor must be a safe identifier")
    else
      match readBundle tools bundle secret with
      | .error e => Txn.raise e
      | .ok b => applyCompletedTombstones b actor now

section application

variable {tools} {bundle : Bytes} {secret actor : String} {now : Instant}

theorem applyBundle_eq (h : identifier 128 [] actor = true) :
    applyBundle tools bundle secret actor now =
      match parseBundle tools bundle secret with
      | .error e => Txn.raise e
      | .ok b => applyCompletedTombstones b actor now := by
  rw [applyBundle, parseBundle]
  cases checkBundle bundle secret with
  | error e => rfl
  | ok _ =>
    rw [if_neg (by rw [h]; exact Bool.true_eq_false.mp)]

theorem applyBundle_refused (h : identifier 128 [] actor = false) :
    ∃ e, applyBundle tools bundle secret actor now = Txn.raise e := by
  rw [applyBundle]
  cases checkBundle bundle secret with
  | error e => exact ⟨e, rfl⟩
  | ok _ => exact ⟨_, if_pos h⟩

end application

section roundTrip

variable {tools} {collate : String → String → Bool} {after : Option AttemptKey} {limit : Nat}
  {c : Catalog} {d : AttemptDeletion} {page : List AttemptDeletion} {secret : String}
  {createdAt : Instant} {e : TombstoneEntry} {entries : List TombstoneEntry}

/-- What the import asks of an exported row. -/
structure Portable (d : AttemptDeletion) : Prop where
  identifiers : [d.tenantId, d.clusterId, d.attemptId].all (identifier 128 []) = true
  generation : 1 ≤ d.deletionGeneration ∧ d.deletionGeneration ≤ 2 ^ 63 - 1
  completed : ∃ t, d.completedAt = some t ∧ d.requestedAt ≤ t

/-- A character that `json.dumps` writes as it is. -/
def plainChar (ch : Char) : Bool :=
  32 ≤ ch.toNat && ch.toNat < 127 && ch ≠ '"' && ch ≠ '\\'

/-- The text of a time is short and plain, and is read back. -/
structure Dated (tools : RestoreTools) (t : Instant) : Prop where
  read : tools.fromisoformat (tools.isoformat t) = some (some t)
  plain : (tools.isoformat t).toList.all plainChar = true
  short : (tools.isoformat t).length ≤ 32

theorem parseTime_isoformat {field : String} {t : Instant} (h : Dated tools t) :
    parseTime tools field (some (.string (tools.isoformat t))) = .ok t := by
  rw [parseTime, h.read]

theorem parseEntry_entryJson : parseEntry tools (entryJson tools d) =
    if hids : [d.tenantId, d.clusterId, d.attemptId].all (identifier 128 []) = true then
      if hn : 1 ≤ (d.deletionGeneration : Int).toNat ∧
          (d.deletionGeneration : Int).toNat ≤ 2 ^ 63 - 1 then
        match parseTime tools "requested_at" (some (.string (tools.isoformat d.requestedAt))),
          parseTime tools "completed_at" (some (match d.completedAt with
            | some t => .string (tools.isoformat t)
            | none => .null)) with
        | .error e, _ => .error e
        | .ok _, .error e => .error e
        | .ok requestedAt, .ok completedAt =>
          if ht : requestedAt ≤ completedAt then
            .ok ⟨⟨d.tenantId, d.clusterId, d.attemptId⟩, (d.deletionGeneration : Int).toNat,
              requestedAt, completedAt, hids, hn, ht⟩
          else .error (.value "tombstone completion precedes its request")
      else .error (.value "tombstone deletion generation is invalid")
    else .error (.value "tombstone identifiers are invalid") := rfl

theorem parseEntry_returns (h : Portable d) (hr : Dated tools d.requestedAt)
    (hc : ∀ t ∈ d.completedAt, Dated tools t) : ∃ e, parseEntry tools (entryJson tools d) = .ok e ∧
      e.attempt = d.attempt ∧ e.deletionGeneration = d.deletionGeneration := by
  obtain ⟨t, ht, hle⟩ := h.completed
  have hid := h.identifiers
  have hgen : 1 ≤ (d.deletionGeneration : Int).toNat ∧
      (d.deletionGeneration : Int).toNat ≤ 2 ^ 63 - 1 := h.generation
  refine ⟨⟨d.attempt, (d.deletionGeneration : Int).toNat, d.requestedAt, t, hid, hgen, hle⟩, ?_, rfl,
    Int.toNat_natCast _⟩
  have hreq : parseTime tools "requested_at" (some (.string (tools.isoformat d.requestedAt))) =
      .ok d.requestedAt := parseTime_isoformat hr
  have hcom : parseTime tools "completed_at" (some (.string (tools.isoformat t))) = .ok t :=
    parseTime_isoformat (hc t (by rw [ht]; rfl))
  rw [parseEntry_entryJson, ht]
  simp only [hreq, hcom]
  rw [dif_pos hid, dif_pos hgen, dif_pos hle]
  rfl

theorem portable_of_parseEntry (h : parseEntry tools (entryJson tools d) = .ok e)
    (hr : Dated tools d.requestedAt) (hc : ∀ t ∈ d.completedAt, Dated tools t) : Portable d := by
  rw [parseEntry_entryJson, parseTime_isoformat hr] at h
  split at h
  · next hid =>
    split at h
    · next hgen =>
      cases ht : d.completedAt with
      | none =>
        rw [ht] at h
        cases h
      | some t =>
        rw [ht] at h
        simp only [parseTime_isoformat (hc t (by rw [ht]; rfl))] at h
        split at h
        · next hle => exact ⟨hid, hgen, t, ht, hle⟩
        · cases h
    · cases h
  · cases h

theorem parseEntries_returns (h : ∀ d ∈ page, Portable d)
    (hr : ∀ d ∈ page, Dated tools d.requestedAt ∧ ∀ t ∈ d.completedAt, Dated tools t) :
    ∃ entries, parseEntries tools (page.map (entryJson tools)) = .ok entries ∧
      entries.map (fun e => (e.attempt, e.deletionGeneration)) =
        page.map (fun d => (d.attempt, d.deletionGeneration)) := by
  induction page with
  | nil => exact ⟨[], rfl, rfl⟩
  | cons d page ih =>
    rw [List.forall_mem_cons] at h hr
    obtain ⟨e, he, hk, hg⟩ := parseEntry_returns h.1 hr.1.1 hr.1.2
    obtain ⟨entries, hentries, hmap⟩ := ih h.2 hr.2
    refine ⟨e :: entries, ?_, ?_⟩
    · rw [List.map_cons, parseEntries, he, hentries]
      rfl
    · rw [List.map_cons, List.map_cons, hk, hg, hmap]

theorem portable_of_parseEntries (h : parseEntries tools (page.map (entryJson tools)) = .ok entries)
    (hr : ∀ d ∈ page, Dated tools d.requestedAt ∧ ∀ t ∈ d.completedAt, Dated tools t) :
    ∀ d ∈ page, Portable d := by
  induction page generalizing entries with
  | nil => exact fun _ hd => (List.not_mem_nil hd).elim
  | cons d page ih =>
    rw [List.forall_mem_cons] at hr
    rw [List.map_cons, parseEntries] at h
    split at h
    · cases h
    · next e he =>
      cases hrest : parseEntries tools (page.map (entryJson tools)) with
      | error f =>
        rw [hrest] at h
        cases h
      | ok rest =>
        exact List.forall_mem_cons.mpr
          ⟨portable_of_parseEntry he hr.1.1 hr.1.2, ih hrest hr.2⟩

theorem parsePayload_payloadJson {digest : String} (hcreated : Dated tools createdAt)
    (hpage : page.length ≤ 10000) : parsePayload tools digest (payloadJson tools createdAt page) =
      match parseEntries tools (page.map (entryJson tools)) with
      | .error e => .error e
      | .ok entries => checkEntries digest createdAt entries := by
  have htime : parseTime tools "created_at" (some (.string (tools.isoformat createdAt))) =
      .ok createdAt := parseTime_isoformat hcreated
  have hshape : parsePayload tools digest (payloadJson tools createdAt page) =
      if (page.map (entryJson tools)).length ≤ 10000 then
        match parseTime tools "created_at" (some (.string (tools.isoformat createdAt))),
          parseEntries tools (page.map (entryJson tools)) with
        | .error e, _ => .error e
        | .ok _, .error e => .error e
        | .ok createdAt, .ok entries => checkEntries digest createdAt entries
      else .error (.value "tombstone bundle payload is invalid") := rfl
  rw [hshape, List.length_map, if_pos hpage, htime]
  cases parseEntries tools (page.map (entryJson tools)) <;> rfl

theorem parseEnvelope_envelopeJson {digest : String} :
    parseEnvelope tools digest secret (envelopeJson tools secret createdAt page) =
      parsePayload tools digest (payloadJson tools createdAt page) := by
  have hshape : parseEnvelope tools digest secret (envelopeJson tools secret createdAt page) =
      if signature tools secret (payloadJson tools createdAt page) =
          signature tools secret (payloadJson tools createdAt page) then
        parsePayload tools digest (payloadJson tools createdAt page)
      else .error (.value "tombstone bundle signature is invalid") := rfl
  rw [hshape, if_pos rfl]

theorem length_asciiQuote {s : String} (h : s.toList.all plainChar = true) :
    (JsonValue.asciiQuote s).length = s.length + 2 := by
  have hplain : ∀ cs : List Char, cs.all plainChar = true →
      (cs.flatMap JsonValue.asciiEscape).length = cs.length := by
    intro cs hcs
    induction cs with
    | nil => rfl
    | cons ch cs ih =>
      rw [List.all_cons, Bool.and_eq_true] at hcs
      have hescape : JsonValue.asciiEscape ch = [ch] := by
        have hch := hcs.1
        simp only [plainChar, Bool.and_eq_true, decide_eq_true_eq] at hch
        simp [JsonValue.asciiEscape, hch]
      rw [List.flatMap_cons, hescape, List.length_append, ih hcs.2, List.length_singleton,
        List.length_cons, Nat.add_comm]
  simp [JsonValue.asciiQuote, hplain s.toList h, String.length_toList]

theorem plainChar_of_identifierChar {ch : Char} (h : identifierChar [] ch = true) :
    plainChar ch = true := by
  have hquote : ch ≠ '"' := fun he => absurd (he ▸ h) (by decide)
  have hslash : ch ≠ '\\' := fun he => absurd (he ▸ h) (by decide)
  have hrange : 32 ≤ ch.toNat ∧ ch.toNat < 127 := by
    simp only [identifierChar, Bool.or_eq_true, decide_eq_true_eq, List.not_mem_nil, or_false] at h
    obtain h | h := h
    · simp only [Char.isAlphanum, Char.isAlpha, Char.isUpper, Char.isLower, Char.isDigit,
        Bool.or_eq_true, Bool.and_eq_true, decide_eq_true_eq, ge_iff_le,
        UInt32.le_iff_toNat_le] at h
      simp at h
      omega
    · simp only [List.mem_cons, List.not_mem_nil, or_false] at h
      obtain rfl | rfl | rfl | rfl := h
      all_goals decide
  simp [plainChar, hquote, hslash, hrange]

theorem length_identifier {s : String} (h : identifier 128 [] s = true) :
    (JsonValue.asciiQuote s).length ≤ 130 := by
  simp only [identifier, Bool.and_eq_true, decide_eq_true_eq] at h
  obtain ⟨⟨_, hlen⟩, hall⟩ := h
  have hplain : s.toList.all plainChar = true := by
    rw [List.all_eq_true] at hall ⊢
    exact fun ch hch => plainChar_of_identifierChar (hall ch hch)
  rw [length_asciiQuote hplain]
  omega

theorem length_isoformat {t : Instant} (h : Dated tools t) :
    (JsonValue.asciiQuote (tools.isoformat t)).length ≤ 34 := by
  rw [length_asciiQuote h.plain]
  have hshort := h.short
  omega

theorem length_digits {n : Nat} (h : n ≤ 2 ^ 63 - 1) : (JsonValue.digits n).length ≤ 19 := by
  have hlen : (Nat.toDigits 10 n).length ≤ 19 :=
    (Nat.length_toDigits_le_iff (by omega) (by omega)).mpr (by omega)
  have hneg : ¬((n : Int) < 0) := by omega
  rwa [JsonValue.digits, if_neg hneg, Int.natAbs_natCast]

theorem length_entryJson (h : Portable d) (hr : Dated tools d.requestedAt)
    (hc : ∀ t ∈ d.completedAt, Dated tools t) : (entryJson tools d).compact.length ≤ 600 := by
  obtain ⟨t, ht, _⟩ := h.completed
  have hids := h.identifiers
  simp only [List.all_cons, List.all_nil, Bool.and_true, Bool.and_eq_true] at hids
  have htenant := length_identifier hids.1
  have hcluster := length_identifier hids.2.1
  have hattempt := length_identifier hids.2.2
  have hgeneration := length_digits h.generation.2
  have hrequested := length_isoformat hr
  have hcompleted := length_isoformat (hc t (by rw [ht]; rfl))
  have hkeys : (JsonValue.asciiQuote "attempt_id").length = 12 ∧
      (JsonValue.asciiQuote "cluster_id").length = 12 ∧
      (JsonValue.asciiQuote "completed_at").length = 14 ∧
      (JsonValue.asciiQuote "deletion_generation").length = 21 ∧
      (JsonValue.asciiQuote "requested_at").length = 14 ∧
      (JsonValue.asciiQuote "tenant_id").length = 11 := by decide
  simp only [entryJson, ht, JsonValue.compact, JsonValue.compactMembers, List.length_cons,
    List.length_append, List.length_nil]
  omega

theorem length_items (h : ∀ d ∈ page, (entryJson tools d).compact.length ≤ 600) :
    (JsonValue.compactItems (page.map (entryJson tools))).length ≤ 601 * page.length := by
  induction page with
  | nil => exact Nat.le_refl _
  | cons d page ih =>
    rw [List.forall_mem_cons] at h
    cases page with
    | nil =>
      have hd := h.1
      simp only [List.map_cons, List.map_nil, JsonValue.compactItems, List.length_singleton]
      omega
    | cons d' page =>
      have hd := h.1
      have hrest := ih h.2
      simp only [List.map_cons, JsonValue.compactItems, List.length_append, List.length_cons]
        at hrest ⊢
      omega

/-- Python reads its own texts: `json.loads` those of `json.dumps`, and `fromisoformat`
those of `isoformat`. -/
structure Standard (tools : RestoreTools) (secret : String) (createdAt : Instant)
    (page : List AttemptDeletion) : Prop where
  created : Dated tools createdAt
  times : ∀ d ∈ page, Dated tools d.requestedAt ∧ ∀ t ∈ d.completedAt, Dated tools t
  digest : hexDigest (tools.hmac secret (canonical (payloadJson tools createdAt page))) = true
  loads : tools.loads (canonical (envelopeJson tools secret createdAt page)) =
    some (envelopeJson tools secret createdAt page)

theorem length_signature (h : hexDigest (tools.hmac secret (canonical (payloadJson tools createdAt
    page))) = true) :
    (JsonValue.asciiQuote (signature tools secret (payloadJson tools createdAt page))).length = 73 := by
  simp only [hexDigest, Bool.and_eq_true, decide_eq_true_eq] at h
  have hchars : (tools.hmac secret (canonical (payloadJson tools createdAt page))).toList.all
      plainChar = true := by
    rw [List.all_eq_true]
    intro ch hch
    have hhex := List.all_eq_true.mp h.2 ch hch
    refine plainChar_of_identifierChar ?_
    simp only [Bool.or_eq_true, Bool.and_eq_true, decide_eq_true_eq] at hhex
    simp only [identifierChar, Char.isAlphanum, Char.isAlpha, Bool.or_eq_true]
    obtain hdigit | ⟨hlow, hhigh⟩ := hhex
    · exact Or.inl (Or.inl (Or.inr hdigit))
    · refine Or.inl (Or.inl (Or.inl (Or.inr ?_)))
      simp only [Char.isLower, Bool.and_eq_true, decide_eq_true_eq]
      exact ⟨hlow, Nat.le_trans hhigh (by decide)⟩
  have hplain : (signature tools secret (payloadJson tools createdAt page)).toList.all plainChar =
      true := by
    rw [signature, String.toList_append, List.all_append, hchars]
    decide
  rw [length_asciiQuote hplain, signature, String.length_append, h.1]
  rfl

theorem length_envelopeJson (hpage : page.length ≤ 10000) (h : ∀ d ∈ page, Portable d)
    (hs : Standard tools secret createdAt page) :
    (canonical (envelopeJson tools secret createdAt page)).length ≤ 10 * 1024 * 1024 := by
  have hitems := length_items (fun d hd =>
    length_entryJson (h d hd) (hs.times d hd).1 (hs.times d hd).2)
  have hcreated := length_isoformat hs.created
  have hsignature := length_signature hs.digest
  have hone : (JsonValue.digits 1).length = 1 := by decide
  have hkeys : (JsonValue.asciiQuote "created_at").length = 12 ∧
      (JsonValue.asciiQuote "entries").length = 9 ∧
      (JsonValue.asciiQuote "schema_version").length = 16 ∧
      (JsonValue.asciiQuote "payload").length = 9 ∧
      (JsonValue.asciiQuote "signature").length = 11 := by decide
  rw [canonical, List.length_map, envelopeJson]
  simp only [JsonValue.compact, JsonValue.compactMembers, payloadJson, List.length_cons,
    List.length_append, List.length_nil] at hsignature ⊢
  omega

/-- The attempt of an exported row is fenced at the generation of the row or above. -/
def Fenced (d : AttemptDeletion) (c : Catalog) : Prop :=
  ∃ g, c.generations.get d.attempt = some g ∧ d.deletionGeneration ≤ g.generation ∧
    g.deletedAt ≠ none

/-- A catalog without a newer live attempt. When its log has the bundle, then because the
bundle was imported. -/
structure Receptive (tools : RestoreTools) (bundle : Bytes) (page : List AttemptDeletion)
    (c : Catalog) : Prop where
  older : ∀ d ∈ page, ∀ g, c.generations.get d.attempt = some g → g.deletedAt = none →
    g.generation ≤ d.deletionGeneration
  logged : ∀ r, c.imports.get (tools.sha256 bundle) = some r →
    r.entryCount = page.length ∧ ∀ d ∈ page, Fenced d c

/-- The bundle is imported wherever no live attempt is newer, with one entry for each row of the
page, and fences the attempts of the page. -/
def Importable (tools : RestoreTools) (secret : String) (bundle : Bytes)
    (page : List AttemptDeletion) : Prop :=
  ∀ c w actor now, identifier 128 [] actor = true → Receptive tools bundle page c →
    ∃ r c' w', (applyBundle tools bundle secret actor now).atomically c w = (.ok r, c', w') ∧
      r.entryCount = page.length ∧ ∀ d ∈ page, Fenced d c'

theorem unique_exportPage : ((exportPage collate after limit c).map AttemptDeletion.attempt).Nodup := by
  have hrows : ((completedRows collate after c).map AttemptDeletion.attempt).Nodup := by
    rw [completedRows, ((List.perm_insertionSort _ _).map _).nodup_iff]
    exact c.deletions.nodup.sublist (List.filter_sublist.map _)
  exact hrows.sublist ((List.take_sublist _ _).map _)

theorem Imports.fences {b : TombstoneBundle} {actor : String} {c' : Catalog}
    (h : Imports actor b c c') (hnone : c.imports.get b.sha256 = none) (he : e ∈ b.entries) :
    ∃ g, c'.generations.get e.attempt = some g ∧ e.deletionGeneration ≤ g.generation ∧
      g.deletedAt ≠ none := by
  cases h with
  | replayed h => exact absurd hnone h
  | @imported r c₁ _ hchain _ =>
    have hs : Settled c b.entries e.attempt c₁ := settled_start.chain hchain
    have hin : e.deletionGeneration ∈ generationsAt c b.entries e.attempt :=
      Or.inr ⟨e, he, rfl, rfl⟩
    obtain ⟨g, hg⟩ : ∃ g, c₁.generations.get e.attempt = some g := by
      refine Option.ne_none_iff_exists'.mp (fun hg => ?_)
      rw [hs.absent hg] at hin
      exact hin.elim
    exact ⟨g, hg, (hs.greatest g hg).2 hin, hs.fenced ⟨e, he, rfl⟩ g hg⟩

theorem parseBundle_exported (hsecret : 32 ≤ secret.length ∧ secret.length ≤ 1024)
    (hpage : page.length ≤ 10000) (hs : Standard tools secret createdAt page) :
    parseBundle tools (canonical (envelopeJson tools secret createdAt page)) secret =
      if 10 * 1024 * 1024 < (canonical (envelopeJson tools secret createdAt page)).length then
        .error (.value "tombstone bundle exceeds 10 MiB")
      else
        match parseEntries tools (page.map (entryJson tools)) with
        | .error e => .error e
        | .ok entries => checkEntries
          (tools.sha256 (canonical (envelopeJson tools secret createdAt page))) createdAt entries := by
  rw [parseBundle, checkBundle, readBundle, hs.loads, if_neg (not_not_intro hsecret)]
  split_ifs with large
  · rfl
  · simp only [parseEnvelope_envelopeJson, parsePayload_payloadJson hs.created hpage]

theorem portable_of_parseBundle {b : TombstoneBundle}
    (hsecret : 32 ≤ secret.length ∧ secret.length ≤ 1024) (hpage : page.length ≤ 10000)
    (hs : Standard tools secret createdAt page)
    (h : parseBundle tools (canonical (envelopeJson tools secret createdAt page)) secret = .ok b) :
    (∀ d ∈ page, Portable d) ∧ ordered (page.map AttemptDeletion.attempt) := by
  rw [parseBundle_exported hsecret hpage hs] at h
  split at h
  · cases h
  cases hentries : parseEntries tools (page.map (entryJson tools)) with
  | error f =>
    rw [hentries] at h
    cases h
  | ok entries =>
    have hportable := portable_of_parseEntries hentries hs.times
    obtain ⟨entries', hentries', hmap⟩ := parseEntries_returns hportable hs.times
    obtain rfl : entries = entries' := Except.ok.inj (hentries.symm.trans hentries')
    have hkeys : entries.map TombstoneEntry.attempt = page.map AttemptDeletion.attempt := by
      have hfst := congrArg (List.map Prod.fst) hmap
      rwa [List.map_map, List.map_map] at hfst
    rw [hentries] at h
    simp only [checkEntries] at h
    split at h
    · next ho => exact ⟨hportable, hkeys ▸ ho.1⟩
    · cases h

theorem parseBundle_returns (hsecret : 32 ≤ secret.length ∧ secret.length ≤ 1024)
    (hpage : page.length ≤ 10000) (hs : Standard tools secret createdAt page)
    (hunique : (page.map AttemptDeletion.attempt).Nodup) (hportable : ∀ d ∈ page, Portable d)
    (hordered : ordered (page.map AttemptDeletion.attempt)) :
    ∃ b, parseBundle tools (canonical (envelopeJson tools secret createdAt page)) secret = .ok b ∧
      b.sha256 = tools.sha256 (canonical (envelopeJson tools secret createdAt page)) ∧
      b.entries.map (fun e => (e.attempt, e.deletionGeneration)) =
        page.map (fun d => (d.attempt, d.deletionGeneration)) := by
  have hlen := length_envelopeJson hpage hportable hs
  obtain ⟨entries, hentries, hmap⟩ := parseEntries_returns hportable hs.times
  have hkeys : entries.map TombstoneEntry.attempt = page.map AttemptDeletion.attempt := by
    have hfst := congrArg (List.map Prod.fst) hmap
    rwa [List.map_map, List.map_map] at hfst
  have hcount : entries.length = page.length := by
    have hlength := congrArg List.length hkeys
    rwa [List.length_map, List.length_map] at hlength
  have ho : ordered (entries.map TombstoneEntry.attempt) ∧
      (entries.map TombstoneEntry.attempt).Nodup ∧ entries.length ≤ 10000 := by
    rw [hkeys, hcount]
    exact ⟨hordered, hunique, hpage⟩
  refine ⟨⟨tools.sha256 (canonical (envelopeJson tools secret createdAt page)), createdAt, entries,
    ho.2.2, ho.2.1⟩, ?_, rfl, hmap⟩
  rw [parseBundle_exported hsecret hpage hs, if_neg (not_lt.mpr hlen), hentries]
  exact dif_pos ho

theorem importable_of_portable (hsecret : 32 ≤ secret.length ∧ secret.length ≤ 1024)
    (hpage : page.length ≤ 10000) (hs : Standard tools secret createdAt page)
    (hunique : (page.map AttemptDeletion.attempt).Nodup) (hportable : ∀ d ∈ page, Portable d)
    (hordered : ordered (page.map AttemptDeletion.attempt)) :
    Importable tools secret (canonical (envelopeJson tools secret createdAt page)) page := by
  intro c w actor now hactor hc
  obtain ⟨b, hb, hsha, hmap⟩ :=
    parseBundle_returns hsecret hpage hs hunique hportable hordered
  have hof : ∀ e ∈ b.entries, ∃ d ∈ page, d.attempt = e.attempt ∧
      d.deletionGeneration = e.deletionGeneration := by
    intro e he
    have hin := List.mem_map_of_mem (f := fun e => (TombstoneEntry.attempt e,
      TombstoneEntry.deletionGeneration e)) he
    rw [hmap] at hin
    obtain ⟨d, hd, heq⟩ := List.mem_map.mp hin
    exact ⟨d, hd, (Prod.mk.inj heq).1, (Prod.mk.inj heq).2⟩
  have hto : ∀ d ∈ page, ∃ e ∈ b.entries, e.attempt = d.attempt ∧
      e.deletionGeneration = d.deletionGeneration := by
    intro d hd
    have hin := List.mem_map_of_mem (f := fun d => (AttemptDeletion.attempt d,
      AttemptDeletion.deletionGeneration d)) hd
    rw [← hmap] at hin
    obtain ⟨e, he, heq⟩ := List.mem_map.mp hin
    exact ⟨e, he, (Prod.mk.inj heq).1, (Prod.mk.inj heq).2⟩
  have hadmits : ∀ e ∈ b.entries, Admits e c := by
    intro e he g hg hlive
    obtain ⟨d, hd, hk, hgen⟩ := hof e he
    exact hgen ▸ hc.older d hd g (hk ▸ hg) hlive
  have hcount : b.entries.length = page.length := by
    have hlength := congrArg List.length hmap
    rwa [List.length_map, List.length_map] at hlength
  obtain ⟨r, c', w', hrun, himports, hnew, hseen⟩ := Txn.run_returns
    (@applyCompletedTombstones_counts c w actor b now hactor hadmits)
  refine ⟨r, c', w', ?_, ?_⟩
  · rw [applyBundle_eq hactor, hb, Txn.atomically, hrun]
  cases hlog : c.imports.get b.sha256 with
  | none =>
    refine ⟨(hnew hlog).trans hcount, fun d hd => ?_⟩
    obtain ⟨e, he, hk, hgen⟩ := hto d hd
    rw [Fenced, ← hk, ← hgen]
    exact himports.fences hlog he
  | some x =>
    have hx := hc.logged x (hsha ▸ hlog)
    refine ⟨(hseen x hlog).trans hx.1, ?_⟩
    cases himports with
    | replayed _ => exact hx.2
    | imported hnone _ _ =>
      rw [hlog] at hnone
      cases hnone

/-- An exported bundle can be imported exactly when its rows are what the import asks for and
the database has put them in the order of the code points. -/
theorem exported_importable {x : TombstoneExport}
    (hx : exportCompletedTombstones tools collate secret createdAt after limit c = .ok x)
    (hs : Standard tools secret createdAt (exportPage collate after limit c)) :
    Importable tools secret x.bundle (exportPage collate after limit c) ↔
      (∀ d ∈ exportPage collate after limit c, Portable d) ∧
        ordered ((exportPage collate after limit c).map AttemptDeletion.attempt) := by
  simp only [exportCompletedTombstones] at hx
  split at hx
  · cases hx
  next hlimit =>
  split at hx
  · cases hx
  next hsecret =>
  obtain rfl := Except.ok.inj hx
  have hpage : (exportPage collate after limit c).length ≤ 10000 := by
    rw [exportPage, List.length_take]
    omega
  constructor
  · intro h
    have hempty : Receptive tools (canonical (envelopeJson tools secret createdAt
        (exportPage collate after limit c))) (exportPage collate after limit c) .empty :=
      ⟨fun d hd g hg => (by cases hg), fun r hr => (by cases hr)⟩
    obtain ⟨r, c', w', hrun, _⟩ := h .empty (fun _ => none) "operator" createdAt (by decide) hempty
    rw [applyBundle_eq (by decide)] at hrun
    cases hb : parseBundle tools (canonical (envelopeJson tools secret createdAt
        (exportPage collate after limit c))) secret with
    | error f =>
      rw [hb] at hrun
      cases hrun
    | ok b => exact portable_of_parseBundle (not_not.mp hsecret) hpage hs hb
  · intro h
    exact importable_of_portable (not_not.mp hsecret) hpage hs unique_exportPage h.1 h.2

end roundTrip

end Recovery

-- A site of one tenant that has erased an attempt, and what Python writes for it.
namespace Sample

def signingSecret : String := "0123456789abcdef0123456789abcdef"

/-- The text of one of the first ten microseconds. -/
def isoformat (t : Instant) : String :=
  String.ofList ("1970-01-01T00:00:00.00000".toList ++ JsonValue.digits t ++ "+00:00".toList)

def fromisoformat (s : String) : Option (Option Instant) :=
  (((List.range 10).map Int.ofNat).find? (fun t => isoformat t = s)).map some

def erasedRow (tenantId : String) : AttemptDeletion :=
  ⟨tenantId, "c1", "a1", 1, .completed, 1, none, 1, none, 1, 0, 0, 4, none, 5, some 7⟩

/-- The digests of the bundle that holds the row of the tenant, as Python computes them. -/
def unreadable (tenantId : String) : RestoreTools where
  loads _ := none
  hmac _ _ :=
    if tenantId = "acme" then "6bff061725d56aeca1812691767b4148d52fe80b09cd6ad3d7ba81bbb19ee061"
    else "cd3c5c0ad38735eb31370455abfe1c1ca8d662e3d2780e57a5293437d8bbcab3"
  sha256 _ :=
    if tenantId = "acme" then "10a04160e1f7ee2c03e5511d8462420a8c0eb7761b0d31f16bc2c5297f2d988e"
    else "0ca51b9e230ff02e3ac91f3a3f3ae2ec4830a756dd774072b1b59d7f86f54be1"
  isoformat := isoformat
  fromisoformat := fromisoformat

def exported (tenantId : String) : JsonValue :=
  Recovery.envelopeJson (unreadable tenantId) signingSecret 8 [erasedRow tenantId]

def restoreTools (tenantId : String) : RestoreTools :=
  { unreadable tenantId with
    loads := fun bytes =>
      if bytes = Recovery.canonical (exported tenantId) then some (exported tenantId) else none }

/-- The admission and the erasure of an attempt of the tenant. -/
def lifetime (tenantId : String) : List Call :=
  [.admitReserve 0 { principal with tenantId := tenantId } upload₁ 1 0, .admitPut 0 Faults.none,
    .admitCommit 0 Faults.none 2 3 4] ++ erasure ⟨tenantId, "c1", "a1"⟩

end Sample

namespace Recovery

open Deployment (runCalls)

theorem dated_sample (tenantId : String) :
    ∀ t ∈ [(5 : Instant), 7, 8], Dated (Sample.restoreTools tenantId) t := by
  intro t ht
  have hread : ∀ t ∈ [(5 : Instant), 7, 8],
      Sample.fromisoformat (Sample.isoformat t) = some (some t) ∧
        (Sample.isoformat t).toList.all plainChar = true ∧ (Sample.isoformat t).length ≤ 32 := by
    decide +kernel
  obtain ⟨h₁, h₂, h₃⟩ := hread t ht
  exact ⟨h₁, h₂, h₃⟩

theorem loads_sample (tenantId : String) : (Sample.restoreTools tenantId).loads
    (canonical (Sample.exported tenantId)) = some (Sample.exported tenantId) := by
  simp only [Sample.restoreTools, if_true]

theorem standard_sample (tenantId : String) (h : hexDigest ((Sample.restoreTools tenantId).hmac "" [])
    = true) : Standard (Sample.restoreTools tenantId) Sample.signingSecret 8
      [Sample.erasedRow tenantId] := by
  refine ⟨dated_sample tenantId 8 (by simp), fun d hd => ?_, h, loads_sample tenantId⟩
  obtain rfl := List.mem_singleton.mp hd
  refine ⟨dated_sample tenantId 5 (by simp), fun t ht => ?_⟩
  obtain rfl := Option.some.inj ht
  exact dated_sample tenantId 7 (by simp)

theorem exportCompletedTombstones_sample (tenantId : String) (c : Catalog) :
    exportCompletedTombstones (Sample.restoreTools tenantId) codePoints Sample.signingSecret 8 none 10
      c = .ok ⟨canonical (envelopeJson (Sample.restoreTools tenantId) Sample.signingSecret 8
        (exportPage codePoints none 10 c)),
        if 10 < (completedRows codePoints none c).length then
          (exportPage codePoints none 10 c).getLast?.map AttemptDeletion.attempt
        else none⟩ := by
  have hlimit : ¬¬(1 ≤ 10 ∧ 10 ≤ 10000) := by omega
  have hsecret : ¬¬(32 ≤ Sample.signingSecret.length ∧ Sample.signingSecret.length ≤ 1024) := by
    decide
  rw [exportCompletedTombstones, if_neg hlimit, if_neg hsecret]

theorem exportPage_sample {tenantId : String} {c : Catalog}
    (h : c.deletions.rows = [Sample.erasedRow tenantId]) :
    exportPage codePoints none 10 c = [Sample.erasedRow tenantId] := by
  have hrows : completedRows codePoints none c = [Sample.erasedRow tenantId] := by
    rw [completedRows, Table.select, h]
    rfl
  rw [exportPage, hrows]
  rfl

/-- The erased attempt of the tenant `acme` is imported elsewhere. -/
theorem exported_importable_sample : ∃ s x,
    runCalls Sample.env Sample.settings (Sample.lifetime "acme") .initial = some s ∧
    exportCompletedTombstones (Sample.restoreTools "acme") codePoints Sample.signingSecret 8 none 10
      s.catalog = .ok x ∧
    Importable (Sample.restoreTools "acme") Sample.signingSecret x.bundle
      (exportPage codePoints none 10 s.catalog) := by
  have h : (runCalls Sample.env Sample.settings (Sample.lifetime "acme") .initial).map
      (fun s => s.catalog.deletions.rows) = some [Sample.erasedRow "acme"] := by decide +kernel
  obtain ⟨s, hs, hrows⟩ := Option.map_eq_some_iff.mp h
  have hpage := exportPage_sample hrows
  have hx := exportCompletedTombstones_sample "acme" s.catalog
  refine ⟨s, _, hs, hx, ?_⟩
  refine (exported_importable hx ?_).mpr ?_
  · rw [hpage]
    exact standard_sample "acme" (by decide +kernel)
  · rw [hpage]
    refine ⟨fun d hd => ?_, List.pairwise_singleton _ _⟩
    obtain rfl := List.mem_singleton.mp hd
    exact ⟨by decide, by decide, 7, rfl, by decide⟩

/-- The settings admit a tenant whose name has a space, and no import takes its bundles. -/
theorem spaced_tenant_refused : ∃ s x,
    runCalls Sample.env Sample.settings (Sample.lifetime "acme corp") .initial = some s ∧
    exportCompletedTombstones (Sample.restoreTools "acme corp") codePoints Sample.signingSecret 8 none
      10 s.catalog = .ok x ∧
    Standard (Sample.restoreTools "acme corp") Sample.signingSecret 8
      (exportPage codePoints none 10 s.catalog) ∧
    Receptive (Sample.restoreTools "acme corp") x.bundle (exportPage codePoints none 10 s.catalog)
      .empty ∧
    (applyBundle (Sample.restoreTools "acme corp") x.bundle Sample.signingSecret "operator"
      9).atomically .empty (fun _ => none) =
      (.error (.value "tombstone identifiers are invalid"), .empty, fun _ => none) := by
  have h : (runCalls Sample.env Sample.settings (Sample.lifetime "acme corp") .initial).map
      (fun s => s.catalog.deletions.rows) = some [Sample.erasedRow "acme corp"] := by decide +kernel
  obtain ⟨s, hs, hrows⟩ := Option.map_eq_some_iff.mp h
  have hpage := exportPage_sample hrows
  refine ⟨s, _, hs, exportCompletedTombstones_sample "acme corp" s.catalog, ?_⟩
  have hstandard := standard_sample "acme corp" (by decide +kernel)
  have hlen : ¬10 * 1024 * 1024 < (canonical (envelopeJson (Sample.restoreTools "acme corp")
      Sample.signingSecret 8 [Sample.erasedRow "acme corp"])).length := by decide +kernel
  rw [hpage]
  refine ⟨hstandard, ⟨fun d hd g hg => (by cases hg), fun r hr => (by cases hr)⟩, ?_⟩
  have hentry : parseEntries (Sample.restoreTools "acme corp")
      ([Sample.erasedRow "acme corp"].map (entryJson (Sample.restoreTools "acme corp"))) =
      .error (.value "tombstone identifiers are invalid") := by
    rw [List.map_cons, parseEntries, parseEntry_entryJson, dif_neg (by decide)]
  rw [applyBundle_eq (by decide), parseBundle_exported (by decide) (by decide) hstandard,
    if_neg hlen, hentry]
  rfl

end Recovery

end RankLens
