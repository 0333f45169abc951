import RankLens.Admission
import RankLens.JsonValue

namespace RankLens

/-- The parts of the validation library the contract leans on: the blanks it strips,
and the whole numbers it reads from values that are not numbers. -/
structure Pydantic where
  strip : String → String
  lax : JsonValue → Option Int

inductive ErrorType where
  | missing
  | extraForbidden
  | literalError
  | stringType
  | stringTooShort
  | stringTooLong
  | stringPatternMismatch
  | intParsing
  | greaterThanEqual
  | lessThanEqual
  | modelType
  | valueError (message : String)
deriving DecidableEq, Repr

structure ValidationError where
  loc : List String
  type : ErrorType
deriving DecidableEq, Repr

/-- A value, or all the errors on the way to it. -/
abbrev Checked (α : Type) := Except (List ValidationError) α

/-- Apply a checked function to a checked value. The errors of both are kept. -/
def also {α β : Type} (x : Checked α) : Checked (α → β) → Checked β
  | .ok f => x.map f
  | .error es =>
    match x with
    | .ok _ => .error es
    | .error es' => .error (es ++ es')

theorem also_ok {α β : Type} {x : Checked α} {f : Checked (α → β)} {y : β}
    (h : also x f = .ok y) : ∃ g a, f = .ok g ∧ x = .ok a ∧ g a = y := by
  cases f with
  | error es => cases x <;> cases h
  | ok g =>
    cases x with
    | error es => cases h
    | ok a => exact ⟨g, a, rfl, rfl, Except.ok.inj h⟩

namespace SegmentUpload

variable (pydantic : Pydantic)

section

variable {α : Type}

def bounded (shortest longest : Nat) (pattern : String → Bool) (s : String) :
    Except ErrorType String :=
  if s.length < shortest then .error .stringTooShort
  else if longest < s.length then .error .stringTooLong
  else if pattern s then .ok s
  else .error .stringPatternMismatch

def text (check : String → Except ErrorType String) : JsonValue → Except ErrorType String
  | .string s => check (pydantic.strip s)
  | _ => .error .stringType

/-- A text that matches the whole of `^[A-Za-z0-9_.:-]+$`, with the extra characters. -/
def identifierText (longest : Nat) (extra : List Char) : JsonValue → Except ErrorType String :=
  text pydantic (bounded 1 longest (fun s => s.toList.all (identifierChar extra)))

def digestText : JsonValue → Except ErrorType String :=
  text pydantic (fun s => if hexDigest s then .ok s else .error .stringPatternMismatch)

def inBounds (least most : Int) (n : Int) : Except ErrorType Nat :=
  if n < least then .error .greaterThanEqual
  else if most < n then .error .lessThanEqual
  else .ok n.toNat

def whole (least most : Int) : JsonValue → Except ErrorType Nat
  | .number n => inBounds least most n
  | v =>
    match pydantic.lax v with
    | some n => inBounds least most n
    | none => .error .intParsing

def literalText (expected : String) : JsonValue → Except ErrorType Unit
  | .string s => if pydantic.strip s = expected then .ok () else .error .literalError
  | _ => .error .literalError

def literalInt (expected : Int) : JsonValue → Except ErrorType Unit
  | .number n => if n = expected then .ok () else .error .literalError
  | _ => .error .literalError

def located (name : String) : Except ErrorType α → Checked α
  | .ok x => .ok x
  | .error t => .error [⟨[name], t⟩]

variable (members : List (String × JsonValue))

def required (name : String) (check : JsonValue → Except ErrorType α) : Checked α :=
  match JsonValue.member members name with
  | none => .error [⟨[name], .missing⟩]
  | some v => located name (check v)

def defaulted (name : String) (default : α) (check : JsonValue → Except ErrorType α) : Checked α :=
  match JsonValue.member members name with
  | none => .ok default
  | some v => located name (check v)

def nullable (check : JsonValue → Except ErrorType α) : JsonValue → Except ErrorType (Option α)
  | .null => .ok none
  | v => (check v).map some

def forbidExtra (names : List String) : Checked Unit :=
  match JsonValue.unknown names members with
  | [] => .ok ()
  | keys => .error (keys.map (fun key => ⟨[key], .extraForbidden⟩))

end

def modelFields : List String :=
  ["envelope_major", "cluster_id", "attempt_id", "workflow_execution_id", "logical_case_id",
    "scheduler_source_identity", "producer_id", "transport_epoch", "stream_id", "first_sequence",
    "last_sequence", "record_count", "deletion_generation", "compression", "content_type",
    "expanded_size_bytes", "payload_sha256", "payload_base64"]

def checkFields (members : List (String × JsonValue)) : Checked SegmentFields :=
  let identifier := identifierText pydantic 128 []
  let sequence := whole pydantic 0 (2 ^ 63 - 1)
  (Except.ok (fun _ clusterId attemptId workflow logicalCase scheduler producerId epoch streamId
      first last records generation _ _ size sha256 base64 =>
    ⟨clusterId, attemptId, workflow, logicalCase, scheduler, producerId, epoch, streamId, first,
      last, records, generation, size, sha256, base64⟩) : Checked _)
    |> also (defaulted members "envelope_major" () (literalInt 2))
    |> also (required members "cluster_id" identifier)
    |> also (required members "attempt_id" identifier)
    |> also (defaulted members "workflow_execution_id" none (nullable identifier))
    |> also (defaulted members "logical_case_id" none (nullable identifier))
    |> also (defaulted members "scheduler_source_identity" none
      (nullable (identifierText pydantic 256 ['=', ','])))
    |> also (required members "producer_id" identifier)
    |> also (required members "transport_epoch" identifier)
    |> also (required members "stream_id" identifier)
    |> also (required members "first_sequence" sequence)
    |> also (required members "last_sequence" sequence)
    |> also (required members "record_count" (whole pydantic 1 10000000))
    |> also (required members "deletion_generation" sequence)
    |> also (defaulted members "compression" () (literalText pydantic "identity"))
    |> also (defaulted members "content_type" () (literalText pydantic "application/x-ndjson"))
    |> also (required members "expanded_size_bytes" (whole pydantic 1 (8 * 1024 * 1024)))
    |> also (required members "payload_sha256" (digestText pydantic))
    |> also (required members "payload_base64"
      (text pydantic (bounded 4 (12 * 1024 * 1024) (fun _ => true))))

def validateRange (f : SegmentFields) : Checked SegmentFields :=
  if f.lastSequence < f.firstSequence then
    .error [⟨[], .valueError "last_sequence must be greater than or equal to first_sequence"⟩]
  else if f.lastSequence - f.firstSequence + 1 < f.recordCount then
    .error [⟨[], .valueError "record_count cannot exceed the declared sequence range"⟩]
  else .ok f

section

variable {pydantic}
variable {α : Type} {members : List (String × JsonValue)} {name : String}
variable {check : JsonValue → Except ErrorType α}

theorem located_ok {e : Except ErrorType α} {x : α} (h : located name e = .ok x) : e = .ok x := by
  cases e with
  | error t => cases h
  | ok y =>
    obtain rfl := Except.ok.inj h
    rfl

theorem required_ok {x : α} (h : required members name check = .ok x) :
    ∃ v, check v = .ok x := by
  rw [required] at h
  cases hv : JsonValue.member members name with
  | none =>
    rw [hv] at h
    cases h
  | some v =>
    rw [hv] at h
    exact ⟨v, located_ok h⟩

theorem defaulted_ok {x d : α} (h : defaulted members name d check = .ok x) :
    x = d ∨ ∃ v, check v = .ok x := by
  rw [defaulted] at h
  cases hv : JsonValue.member members name with
  | none =>
    rw [hv] at h
    exact Or.inl (Except.ok.inj h).symm
  | some v =>
    rw [hv] at h
    exact Or.inr ⟨v, located_ok h⟩

theorem nullable_ok {p : α → Bool} (hp : ∀ v x, check v = .ok x → p x = true) {v : JsonValue}
    {x : Option α} (h : nullable check v = .ok x) : x.all p = true := by
  have hmap : ∀ e : Except ErrorType α, (∀ y, e = .ok y → p y = true) →
      e.map some = .ok x → x.all p = true := by
    intro e he hx
    cases e with
    | error t => cases hx
    | ok y =>
      obtain rfl := Except.ok.inj hx
      exact he y rfl
  cases v with
  | null =>
    obtain rfl := Except.ok.inj h
    rfl
  | _ => exact hmap _ (hp _) h

theorem binding_ok {p : α → Bool} (hp : ∀ v x, check v = .ok x → p x = true) {x : Option α}
    (h : defaulted members name none (nullable check) = .ok x) : x.all p = true := by
  obtain rfl | ⟨v, hv⟩ := defaulted_ok h
  · rfl
  · exact nullable_ok hp hv

theorem text_ok {check : String → Except ErrorType String} {v : JsonValue} {s : String}
    (h : text pydantic check v = .ok s) : ∃ t, check t = .ok s := by
  cases v with
  | string t => exact ⟨_, h⟩
  | _ => cases h

theorem bounded_ok {shortest longest : Nat} {pattern : String → Bool} {s t : String}
    (h : bounded shortest longest pattern s = .ok t) :
    shortest ≤ t.length ∧ t.length ≤ longest ∧ pattern t = true := by
  rw [bounded] at h
  split at h
  · cases h
  · split at h
    · cases h
    · split at h
      · obtain rfl := Except.ok.inj h
        exact ⟨by omega, by omega, ‹_›⟩
      · cases h

theorem identifierText_ok {longest : Nat} {extra : List Char} {v : JsonValue} {s : String}
    (h : identifierText pydantic longest extra v = .ok s) : identifier longest extra s = true := by
  obtain ⟨t, ht⟩ := text_ok h
  obtain ⟨hshort, hlong, hpattern⟩ := bounded_ok ht
  simp only [identifier, hpattern, Bool.and_true, Bool.and_eq_true, decide_eq_true_eq]
  exact ⟨hshort, hlong⟩

theorem digestText_ok {v : JsonValue} {s : String} (h : digestText pydantic v = .ok s) :
    hexDigest s = true := by
  obtain ⟨t, ht⟩ := text_ok h
  split at ht
  · next hd =>
    obtain rfl := Except.ok.inj ht
    exact hd
  · cases ht

theorem inBounds_ok {least most n : Int} {k : Nat} (h : inBounds least most n = .ok k) :
    least.toNat ≤ k ∧ k ≤ most.toNat := by
  rw [inBounds] at h
  split at h
  · cases h
  · split at h
    · cases h
    · obtain rfl := Except.ok.inj h
      omega

theorem whole_ok {least most : Int} {v : JsonValue} {k : Nat}
    (h : whole pydantic least most v = .ok k) : least.toNat ≤ k ∧ k ≤ most.toNat := by
  have hlax : ∀ o : Option Int, (match o with
      | some n => inBounds least most n
      | none => .error .intParsing) = .ok k → least.toNat ≤ k ∧ k ≤ most.toNat := by
    intro o ho
    cases o with
    | none => cases ho
    | some n => exact inBounds_ok ho
  cases v with
  | number n => exact inBounds_ok h
  | _ => exact hlax _ h

theorem checkFields_ok {f : SegmentFields} (h : checkFields pydantic members = .ok f)
    (hordered : f.firstSequence ≤ f.lastSequence)
    (hcounted : f.recordCount ≤ f.lastSequence - f.firstSequence + 1) : f.Valid := by
  obtain ⟨_, base64, h, hbase64, e18⟩ := also_ok h
  obtain ⟨_, sha256, h, hsha256, e17⟩ := also_ok h
  obtain ⟨_, size, h, hsize, e16⟩ := also_ok h
  obtain ⟨_, _, h, _, e15⟩ := also_ok h
  obtain ⟨_, _, h, _, e14⟩ := also_ok h
  obtain ⟨_, generation, h, hgeneration, e13⟩ := also_ok h
  obtain ⟨_, records, h, hrecords, e12⟩ := also_ok h
  obtain ⟨_, last, h, hlast, e11⟩ := also_ok h
  obtain ⟨_, first, h, hfirst, e10⟩ := also_ok h
  obtain ⟨_, stream, h, hstream, e9⟩ := also_ok h
  obtain ⟨_, epoch, h, hepoch, e8⟩ := also_ok h
  obtain ⟨_, producer, h, hproducer, e7⟩ := also_ok h
  obtain ⟨_, scheduler, h, hscheduler, e6⟩ := also_ok h
  obtain ⟨_, logicalCase, h, hlogicalCase, e5⟩ := also_ok h
  obtain ⟨_, workflow, h, hworkflow, e4⟩ := also_ok h
  obtain ⟨_, attempt, h, hattempt, e3⟩ := also_ok h
  obtain ⟨_, cluster, h, hcluster, e2⟩ := also_ok h
  obtain ⟨_, _, h, _, e1⟩ := also_ok h
  obtain rfl := Except.ok.inj h
  subst e1 e2 e3 e4 e5 e6 e7 e8 e9 e10 e11 e12 e13 e14 e15 e16 e17 e18
  have hid : ∀ {name : String} {s : String},
      required members name (identifierText pydantic 128 []) = .ok s →
        identifier 128 [] s = true :=
    fun h => identifierText_ok (required_ok h).choose_spec
  have hwhole : ∀ {name : String} {least most : Int} {k : Nat},
      required members name (whole pydantic least most) = .ok k →
        least.toNat ≤ k ∧ k ≤ most.toNat :=
    fun h => whole_ok (required_ok h).choose_spec
  obtain ⟨_, hbase64⟩ := required_ok hbase64
  obtain ⟨_, hbase64⟩ := text_ok hbase64
  obtain ⟨hshort, hlong, _⟩ := bounded_ok hbase64
  obtain ⟨_, hsha256⟩ := required_ok hsha256
  constructor
  · simp only [List.all_cons, List.all_nil, hid hcluster, hid hattempt, hid hproducer, hid hepoch,
      hid hstream, Bool.and_self]
  · simp only [List.all_cons, List.all_nil,
      binding_ok (fun _ _ => identifierText_ok) hworkflow,
      binding_ok (fun _ _ => identifierText_ok) hlogicalCase, Bool.and_self]
  · exact binding_ok (fun _ _ => identifierText_ok) hscheduler
  · exact ⟨(hwhole hfirst).2, (hwhole hlast).2⟩
  · exact hwhole hrecords
  · exact (hwhole hgeneration).2
  · exact hwhole hsize
  · exact digestText_ok hsha256
  · exact ⟨hshort, hlong⟩
  · exact hordered
  · exact hcounted

theorem validateRange_ok {f g : SegmentFields} (h : validateRange f = .ok g) :
    g = f ∧ f.firstSequence ≤ f.lastSequence ∧
      f.recordCount ≤ f.lastSequence - f.firstSequence + 1 := by
  rw [validateRange] at h
  split at h
  · cases h
  · split at h
    · cases h
    · obtain rfl := Except.ok.inj h
      exact ⟨rfl, by omega, by omega⟩

end

/-- The whole contract on the members of a request body. -/
def checkMembers (members : List (String × JsonValue)) : Checked SegmentFields :=
  match (Except.ok (fun f _ => f) : Checked (SegmentFields → Unit → SegmentFields))
      |> also (checkFields pydantic members) |> also (forbidExtra members modelFields) with
  | .ok f => validateRange f
  | .error es => .error es

theorem checkMembers_ok {members : List (String × JsonValue)} {f : SegmentFields}
    (h : checkMembers pydantic members = .ok f) :
    f.Valid ∧ ∀ m ∈ members, m.1 ∈ modelFields := by
  unfold checkMembers at h
  generalize hfields : checkFields pydantic members = checked at h
  generalize hextra : forbidExtra members modelFields = extra at h
  split at h
  · next g hg =>
    obtain ⟨_, _, hboth, rfl, rfl⟩ := also_ok hg
    obtain ⟨_, f', hf, rfl, rfl⟩ := also_ok hboth
    obtain rfl := Except.ok.inj hf
    obtain ⟨rfl, hordered, hcounted⟩ := validateRange_ok h
    refine ⟨checkFields_ok hfields hordered hcounted, JsonValue.unknown_eq_nil.mp ?_⟩
    rw [forbidExtra] at hextra
    split at hextra
    · assumption
    · cases hextra
  · cases h

def certified : (e : Checked SegmentFields) → (∀ f, e = .ok f → f.Valid) → Checked SegmentUpload
  | .ok f, h => .ok ⟨f, h f rfl⟩
  | .error es, _ => .error es

def modelValidate : JsonValue → Checked SegmentUpload
  | .object members =>
    certified (checkMembers pydantic members) (fun _ h => (checkMembers_ok pydantic h).1)
  | _ => .error [⟨[], .modelType⟩]

end SegmentUpload

end RankLens
