import RankLens.Aggregates

namespace RankLens

namespace Validation

open Analyzer

section errors

variable {α β : Type} {path message : String} {x : Except Escape α} {f : α → Except Escape β}
  {data : Dict} {key : String}

/-- `main` catches the exception and prints it. -/
def handled : Escape → Bool
  | .telemetry _ => true
  | .value _ => true
  | .unicodeDecode => true
  | .typeError => false
  | .recursion => false
  | .overflow => false

def Names (path message : String) : Prop := ∃ before after, message = before ++ path ++ after

/-- Nothing is raised but a `TelemetryError` that names the file. -/
def OnlyTelemetry (path : String) (x : Except Escape α) : Prop :=
  ∀ e, x = .error e → ∃ message, e = .telemetry message ∧ Names path message

theorem names_self (path : String) : Names path path :=
  ⟨"", "", by rw [String.empty_append, String.append_empty]⟩

theorem Names.append (h : Names path message) (rest : String) : Names path (message ++ rest) := by
  obtain ⟨before, after, rfl⟩ := h
  exact ⟨before, after ++ rest, by simp only [String.append_assoc]⟩

theorem names_path (path rest : String) : Names path (path ++ rest) := (names_self path).append rest

theorem Names.behind (h : Names path message) (start : String) : Names path (start ++ message) := by
  obtain ⟨before, after, rfl⟩ := h
  exact ⟨start ++ before, after, by simp only [String.append_assoc]⟩

theorem reported_ok (a : α) : OnlyTelemetry path (.ok a) := fun _ h => (nomatch h)

theorem reported_telemetry (h : Names path message) :
    OnlyTelemetry path (.error (.telemetry message) : Except Escape α) := by
  intro e he
  obtain rfl := Except.error.inj he
  exact ⟨message, rfl, h⟩

theorem not_reported {e : Escape} (h : ∀ message, e ≠ .telemetry message) :
    ¬OnlyTelemetry path (.error e : Except Escape α) := by
  intro hr
  obtain ⟨message, he, -⟩ := hr e rfl
  exact h message he

theorem reported_bind : OnlyTelemetry path (x >>= f) ↔
    OnlyTelemetry path x ∧ ∀ a, x = .ok a → OnlyTelemetry path (f a) := by
  cases x with
  | error e =>
    constructor
    · intro h
      refine ⟨fun e' he => h e' ?_, fun _ ha => (nomatch ha)⟩
      obtain rfl := Except.error.inj he
      rfl
    · rintro ⟨h, -⟩ e' he
      obtain rfl : e = e' := Except.error.inj he
      exact h e rfl
  | ok a =>
    constructor
    · intro h
      refine ⟨reported_ok a, fun a' ha => ?_⟩
      obtain rfl := Except.ok.inj ha
      exact h
    · exact fun h => h.2 a rfl

theorem reported_raiseUnless {p : Prop} [Decidable p] (h : Names path message) :
    OnlyTelemetry path (raiseUnless p (.telemetry message)) := by
  unfold raiseUnless
  split
  · exact reported_ok ()
  · exact reported_telemetry h

theorem reported_checked {c : Prop} [Decidable c] {x : Except Escape Unit}
    {f : Unit → Except Escape β} : OnlyTelemetry path (if c then x >>= f else f ()) ↔
      (c → OnlyTelemetry path x) ∧ ((c → x = .ok ()) → OnlyTelemetry path (f ())) := by
  by_cases hc : c
  · rw [if_pos hc, reported_bind]
    exact ⟨fun h => ⟨fun _ => h.1, fun hx => h.2 () (hx hc)⟩,
      fun h => ⟨h.1 hc, fun _ hx => h.2 (fun _ => hx)⟩⟩
  · rw [if_neg hc]
    exact ⟨fun h => ⟨fun h' => absurd h' hc, fun _ => h⟩, fun h => h.2 (fun h' => absurd h' hc)⟩

def natural (data : Dict) (key : String) : Option Nat :=
  match get data key with
  | some (.int n) => if n < 0 then none else some n.toNat
  | _ => none

theorem requiredInt_eq (data : Dict) (key path : String) : requiredInt data key path =
    match natural data key with
    | some n => .ok n
    | none => .error (.telemetry (path ++ ": '" ++ key ++ "' must be a non-negative integer")) := by
  unfold requiredInt natural
  cases get data key with
  | none => rfl
  | some v =>
    cases v with
    | int n =>
      dsimp only
      split <;> rfl
    | _ => rfl

theorem requiredInt_iff {n : Nat} :
    requiredInt data key path = .ok n ↔ natural data key = some n := by
  rw [requiredInt_eq]
  cases natural data key with
  | none => exact ⟨fun h => (nomatch h), fun h => (nomatch h)⟩
  | some m =>
    exact ⟨fun h => congrArg some (Except.ok.inj h), fun h => congrArg _ (Option.some.inj h)⟩

theorem reported_requiredInt : OnlyTelemetry path (requiredInt data key path) := by
  rw [requiredInt_eq]
  split
  · exact reported_ok _
  · exact reported_telemetry (((names_path path _).append _).append _)

theorem reported_inSet {names : List String} {v : Option PyValue} :
    OnlyTelemetry path (inSet names v) ↔ hashable v = true := by
  rw [inSet_eq]
  split
  · next h => exact ⟨fun _ => h, fun _ => reported_ok _⟩
  · next h =>
    have raised := @not_reported Bool path .typeError (fun _ he => (nomatch he))
    exact ⟨fun hr => absurd hr raised, fun h' => absurd h' h⟩

theorem inSet_iff {names : List String} {v : Option PyValue} :
    inSet names v = .ok true ↔ isOneOf names v = true := by
  rw [inSet_eq]
  split
  · exact ⟨fun h => Except.ok.inj h, fun h => congrArg _ h⟩
  · next h =>
    refine ⟨fun h' => (nomatch h'), fun h' => absurd ?_ h⟩
    unfold isOneOf at h'
    unfold hashable
    split at h' <;> simp_all

theorem raiseUnless_iff {p : Prop} [Decidable p] {e : Escape} : raiseUnless p e = .ok () ↔ p := by
  unfold raiseUnless
  split
  · next h => exact ⟨fun _ => h, fun _ => rfl⟩
  · next h => exact ⟨fun h' => (nomatch h'), fun h' => absurd h' h⟩

end errors

section entries

variable {py : Interpreter} {path directory : String} {data : Dict} {t : Tally} {version : Int}
  {entry : PyStr × PyValue} {raw : Dict} {s : Analyzer.RankSummary}

def captureStates : List String := ["collecting", "pre_finalize", "finalized", "finalize_failed"]

def recordKinds : List String := ["api_call", "request_completion"]

/-- The fields of version 2 that are checked before the operations. -/
structure Header (data : Dict) : Prop where
  complete : isBool (get data "complete") = true
  captureState : isOneOf captureStates (get data "capture_state") = true
  counters : ∀ key ∈ ["finalize_return_code", "request_completions", "failed_calls"],
    (natural data key).isSome = true

def statsOf (stats : Dict) : Option Analyzer.OperationStats := do
  let calls ← natural stats "calls"
  let durationNs ← natural stats "duration_ns"
  let payloadBytes ← natural stats "payload_bytes"
  some ⟨calls, durationNs, payloadBytes⟩

theorem statsOf_iff {stats : Dict} {counts : Analyzer.OperationStats} :
    statsOf stats = some counts ↔ natural stats "calls" = some counts.calls ∧
      natural stats "duration_ns" = some counts.durationNs ∧
      natural stats "payload_bytes" = some counts.payloadBytes := by
  obtain ⟨calls, durationNs, payloadBytes⟩ := counts
  unfold statsOf
  simp only [Option.bind_eq_bind, Option.bind_eq_some_iff, Option.some.injEq,
    Analyzer.OperationStats.mk.injEq]
  constructor
  · rintro ⟨a, ha, b, hb, c, hc, rfl, rfl, rfl⟩
    exact ⟨ha, hb, hc⟩
  · rintro ⟨ha, hb, hc⟩
    exact ⟨calls, ha, durationNs, hb, payloadBytes, hc, rfl, rfl, rfl⟩

/-- An operation of version 2 without a fault. -/
def Readable (entry : PyStr × PyValue) : Prop :=
  ∃ stats, entry.2 = .dict stats ∧ isOneOf recordKinds (get stats "record_kind") = true ∧
    (statsOf stats).isSome = true

/-- The record kind of the operation can be looked up in a set. -/
def KindHashable (entry : PyStr × PyValue) : Prop :=
  ∀ stats, entry.2 = .dict stats → hashable (get stats "record_kind") = true

/-- No list and no object stands where a string of version 2 is looked up: neither as the capture
state, once `complete` is a boolean, nor as the record kind of the first operation that has a fault,
once the fields before the operations have none. -/
structure Settled (data : Dict) : Prop where
  captureState : get data "schema_version" = some (.int 2) → isBool (get data "complete") = true →
    hashable (get data "capture_state") = true
  recordKind : get data "schema_version" = some (.int 2) → Header data → ∀ raw,
    get data "operations" = some (.dict raw) → ∀ before entry after,
      raw = before ++ entry :: after → (∀ e ∈ before, Readable e) → KindHashable entry

theorem versionChecks_reported : OnlyTelemetry path (versionChecks py data path) ↔
    (isBool (get data "complete") = true → hashable (get data "capture_state") = true) := by
  have counters : OnlyTelemetry path (do
      let _ ← requiredInt data "finalize_return_code" path
      let _ ← requiredInt data "request_completions" path
      let _ ← requiredInt data "failed_calls" path
      pure ()) :=
    reported_bind.mpr ⟨reported_requiredInt, fun _ _ => reported_bind.mpr ⟨reported_requiredInt,
      fun _ _ => reported_bind.mpr ⟨reported_requiredInt, fun _ _ => reported_ok ()⟩⟩⟩
  have state : ∀ known : Bool, OnlyTelemetry path (raiseUnless (known = true)
      (.telemetry (path ++ ": invalid version 2 capture_state " ++
        py.repr ((get data "capture_state").getD .none)))) :=
    fun known => reported_raiseUnless ((names_path path _).append _)
  unfold versionChecks
  rw [reported_bind]
  constructor
  · rintro ⟨-, h⟩ hbool
    exact reported_inSet.mp (reported_bind.mp (h () (raiseUnless_iff.mpr hbool))).1
  · intro h
    refine ⟨reported_raiseUnless (names_path path _), fun u hu => ?_⟩
    refine reported_bind.mpr ⟨reported_inSet.mpr (h (raiseUnless_iff.mp hu)), fun known _ => ?_⟩
    exact reported_bind.mpr ⟨state known, fun _ _ => counters⟩

theorem versionChecks_iff : versionChecks py data path = .ok () ↔ Header data := by
  unfold versionChecks
  constructor
  · intro h
    obtain ⟨_, hcomplete, h⟩ := bind_ok_iff.mp h
    obtain ⟨known, hknown, h⟩ := bind_ok_iff.mp h
    obtain ⟨_, hstate, h⟩ := bind_ok_iff.mp h
    obtain ⟨code, hcode, h⟩ := bind_ok_iff.mp h
    obtain ⟨completions, hcompletions, h⟩ := bind_ok_iff.mp h
    obtain ⟨failed, hfailed, -⟩ := bind_ok_iff.mp h
    obtain rfl := raiseUnless_ok hstate
    refine ⟨raiseUnless_ok hcomplete, inSet_iff.mp hknown, ?_⟩
    simp only [List.forall_mem_cons, requiredInt_iff.mp hcode, requiredInt_iff.mp hcompletions,
      requiredInt_iff.mp hfailed, Option.isSome_some, true_and]
    exact fun _ h => (nomatch h)
  · rintro ⟨hcomplete, hstate, hcounters⟩
    simp only [List.forall_mem_cons, Option.isSome_iff_exists] at hcounters
    obtain ⟨⟨code, hcode⟩, ⟨completions, hcompletions⟩, ⟨failed, hfailed⟩, -⟩ := hcounters
    refine bind_ok_iff.mpr ⟨(), raiseUnless_iff.mpr hcomplete, ?_⟩
    refine bind_ok_iff.mpr ⟨true, inSet_iff.mpr hstate, ?_⟩
    refine bind_ok_iff.mpr ⟨(), raiseUnless_iff.mpr rfl, ?_⟩
    refine bind_ok_iff.mpr ⟨code, requiredInt_iff.mpr hcode, ?_⟩
    refine bind_ok_iff.mpr ⟨completions, requiredInt_iff.mpr hcompletions, ?_⟩
    exact bind_ok_iff.mpr ⟨failed, requiredInt_iff.mpr hfailed, rfl⟩

theorem kindCalls_reported {name : PyStr} {stats : Dict} :
    OnlyTelemetry path (kindCalls py version path name stats t) ↔
      (version = 2 → hashable (get stats "record_kind") = true) := by
  unfold kindCalls
  split
  · next hversion =>
    rw [reported_bind, reported_inSet]
    constructor
    · exact fun h _ => h.1
    · intro h
      refine ⟨h hversion, fun known _ => reported_bind.mpr
        ⟨reported_raiseUnless (((names_path path _).append _).append _), fun _ _ =>
          reported_bind.mpr ⟨reported_requiredInt, fun calls _ => ?_⟩⟩⟩
      split
      · exact reported_ok _
      · exact reported_ok _
  · next hversion => exact ⟨fun _ h => absurd h hversion, fun _ => reported_ok t⟩

theorem readOperation_reported : OnlyTelemetry path (readOperation py version path t entry) ↔
    (version = 2 → KindHashable entry) := by
  obtain ⟨name, v⟩ := entry
  cases v with
  | dict stats =>
    have rest : ∀ t' : Tally, OnlyTelemetry path (do
        let calls ← requiredInt stats "calls" path
        let durationNs ← requiredInt stats "duration_ns" path
        let payloadBytes ← requiredInt stats "payload_bytes" path
        pure { t' with
          operations := setItem t'.operations name ⟨calls, durationNs, payloadBytes⟩ }) :=
      fun t' => reported_bind.mpr ⟨reported_requiredInt, fun _ _ => reported_bind.mpr
        ⟨reported_requiredInt, fun _ _ => reported_bind.mpr
          ⟨reported_requiredInt, fun _ _ => reported_ok _⟩⟩⟩
    have kind : KindHashable (name, .dict stats) ↔ hashable (get stats "record_kind") = true :=
      ⟨fun h => h stats rfl, fun h stats' he => by
        obtain rfl := PyValue.dict.inj he
        exact h⟩
    rw [kind, readOperation, reported_bind, kindCalls_reported]
    exact ⟨fun h => h.1, fun h => ⟨h, fun t' _ => rest t'⟩⟩
  | _ =>
    exact ⟨fun _ _ _ he => (nomatch he), fun _ => reported_telemetry (names_path path _)⟩

def tallied (t : Tally) (stats : Dict) (calls : Nat) : Tally :=
  if isOneOf ["request_completion"] (get stats "record_kind") = true then
    { t with completionCalls := t.completionCalls + calls }
  else { t with apiOperationCalls := t.apiOperationCalls + calls }

theorem kindCalls_iff {name : PyStr} {stats : Dict} {t' : Tally} :
    kindCalls py 2 path name stats t = .ok t' ↔
      isOneOf recordKinds (get stats "record_kind") = true ∧
        ∃ calls, natural stats "calls" = some calls ∧ t' = tallied t stats calls := by
  rw [kindCalls, if_pos rfl]
  constructor
  · intro h
    obtain ⟨known, hknown, h⟩ := bind_ok_iff.mp h
    obtain ⟨_, hraise, h⟩ := bind_ok_iff.mp h
    obtain ⟨calls, hcalls, hcounted⟩ := bind_ok_iff.mp h
    obtain rfl := raiseUnless_ok hraise
    refine ⟨inSet_iff.mp hknown, calls, requiredInt_iff.mp hcalls, ?_⟩
    unfold tallied
    by_cases hcompletion : isOneOf ["request_completion"] (get stats "record_kind") = true
    · rw [if_pos hcompletion] at hcounted ⊢
      exact (Except.ok.inj hcounted).symm
    · rw [if_neg hcompletion] at hcounted ⊢
      exact (Except.ok.inj hcounted).symm
  · rintro ⟨hkind, calls, hcalls, rfl⟩
    refine bind_ok_iff.mpr ⟨true, inSet_iff.mpr hkind, ?_⟩
    refine bind_ok_iff.mpr ⟨(), raiseUnless_iff.mpr rfl, ?_⟩
    refine bind_ok_iff.mpr ⟨calls, requiredInt_iff.mpr hcalls, ?_⟩
    unfold tallied
    split
    · rfl
    · rfl

theorem readOperation_ok_iff {t' : Tally} : readOperation py version path t entry = .ok t' ↔
    ∃ stats counted counts, entry.2 = .dict stats ∧
      kindCalls py version path entry.1 stats t = .ok counted ∧ statsOf stats = some counts ∧
      t' = { counted with operations := setItem counted.operations entry.1 counts } := by
  obtain ⟨name, v⟩ := entry
  cases v with
  | dict stats =>
    constructor
    · intro h
      obtain ⟨counted, hkind, h⟩ := bind_ok_iff.mp h
      obtain ⟨calls, hcalls, h⟩ := bind_ok_iff.mp h
      obtain ⟨durationNs, hduration, h⟩ := bind_ok_iff.mp h
      obtain ⟨payloadBytes, hpayload, h⟩ := bind_ok_iff.mp h
      exact ⟨stats, counted, ⟨calls, durationNs, payloadBytes⟩, rfl, hkind, statsOf_iff.mpr
        ⟨requiredInt_iff.mp hcalls, requiredInt_iff.mp hduration, requiredInt_iff.mp hpayload⟩,
        (Except.ok.inj h).symm⟩
    · rintro ⟨stats', counted, counts, he, hkind, hcounts, rfl⟩
      obtain rfl := PyValue.dict.inj he
      obtain ⟨hcalls, hduration, hpayload⟩ := statsOf_iff.mp hcounts
      refine bind_ok_iff.mpr ⟨counted, hkind, ?_⟩
      refine bind_ok_iff.mpr ⟨_, requiredInt_iff.mpr hcalls, ?_⟩
      refine bind_ok_iff.mpr ⟨_, requiredInt_iff.mpr hduration, ?_⟩
      exact bind_ok_iff.mpr ⟨_, requiredInt_iff.mpr hpayload, rfl⟩
  | _ =>
    constructor
    · exact fun h => (nomatch h)
    · rintro ⟨stats, counted, counts, he, -⟩
      exact nomatch he

theorem readOperation_iff : (∃ t', readOperation py 2 path t entry = .ok t') ↔ Readable entry := by
  constructor
  · rintro ⟨t', h⟩
    obtain ⟨stats, counted, counts, he, hkind, hcounts, -⟩ := readOperation_ok_iff.mp h
    exact ⟨stats, he, (kindCalls_iff.mp hkind).1, by rw [hcounts]; rfl⟩
  · rintro ⟨stats, he, hkind, hcounts⟩
    obtain ⟨counts, hcounts⟩ := Option.isSome_iff_exists.mp hcounts
    exact ⟨_, readOperation_ok_iff.mpr ⟨stats, _, counts, he,
      kindCalls_iff.mpr ⟨hkind, _, (statsOf_iff.mp hcounts).1, rfl⟩, hcounts, rfl⟩⟩

theorem operations_unversioned (h : version ≠ 2) :
    OnlyTelemetry path (raw.foldlM (readOperation py version path) t) := by
  induction raw generalizing t with
  | nil => exact reported_ok t
  | cons entry raw ih =>
    rw [List.foldlM_cons]
    exact reported_bind.mpr ⟨readOperation_reported.mpr (fun h' => absurd h' h), fun t' _ => ih⟩

theorem operations_reported : OnlyTelemetry path (raw.foldlM (readOperation py 2 path) t) ↔
    ∀ before entry after, raw = before ++ entry :: after → (∀ e ∈ before, Readable e) →
      KindHashable entry := by
  induction raw generalizing t with
  | nil => exact ⟨fun _ before entry after he => absurd he (by simp), fun _ => reported_ok t⟩
  | cons first raw ih =>
    rw [List.foldlM_cons, reported_bind, readOperation_reported]
    constructor
    · rintro ⟨hfirst, hrest⟩ before entry after he hbefore
      cases before with
      | nil =>
        obtain ⟨rfl, rfl⟩ := List.cons.inj he
        exact hfirst rfl
      | cons e before =>
        obtain ⟨rfl, rfl⟩ := List.cons.inj he
        obtain ⟨he, hbefore⟩ := List.forall_mem_cons.mp hbefore
        obtain ⟨t', ht'⟩ := (@readOperation_iff py path t first).mpr he
        exact ih.mp (hrest t' ht') before entry after rfl hbefore
    · intro h
      refine ⟨fun _ => h [] first raw rfl (fun _ he => (nomatch he)), fun t' ht' => ih.mpr ?_⟩
      rintro before entry after rfl hbefore
      refine h (first :: before) entry after rfl (List.forall_mem_cons.mpr ⟨?_, hbefore⟩)
      exact readOperation_iff.mp ⟨t', ht'⟩

theorem totalsChecks_reported : OnlyTelemetry path (totalsChecks data path t) :=
  reported_bind.mpr ⟨reported_requiredInt, fun _ _ => reported_bind.mpr
    ⟨reported_raiseUnless (names_path path _), fun _ _ => reported_bind.mpr
      ⟨reported_requiredInt, fun _ _ => reported_raiseUnless (names_path path _)⟩⟩⟩

theorem parseSummary_reported : OnlyTelemetry path (parseSummary py path data) ↔ Settled data := by
  have versioned : ∀ v, supported (get data "schema_version") = some v →
      (get data "schema_version" = some (.int 2) ↔ v = 2) := by
    intro v hv
    unfold supported at hv
    split at hv
    · next n hn =>
      split at hv
      · obtain rfl := Option.some.inj hv
        rw [hn]
        exact ⟨fun h => PyValue.int.inj (Option.some.inj h), fun h => by rw [h]⟩
      · exact nomatch hv
    · exact nomatch hv
  unfold parseSummary
  split
  · next hv =>
    refine ⟨fun _ => ?_, fun _ => reported_telemetry ((names_path path _).append _)⟩
    have other : get data "schema_version" ≠ some (.int 2) := by
      intro h
      rw [h] at hv
      exact nomatch hv
    exact ⟨fun h => absurd h other, fun h => absurd h other⟩
  · next v hv =>
    have two := versioned v hv
    rw [reported_checked, versionChecks_reported]
    constructor
    · rintro ⟨hstate, hbody⟩
      refine ⟨fun h => hstate (two.mp h), fun h hheader raw hraw => ?_⟩
      obtain rfl := two.mp h
      have body := hbody (fun _ => versionChecks_iff.mpr hheader)
      rw [hraw] at body
      exact operations_reported.mp (reported_bind.mp body).1
    · rintro ⟨hstate, hkinds⟩
      refine ⟨fun h => hstate (two.mpr h), fun hheader => ?_⟩
      split
      · next raw hraw =>
        refine reported_bind.mpr ⟨?_, fun t _ => reported_checked.mpr
          ⟨fun _ => totalsChecks_reported, fun _ => ?_⟩⟩
        · by_cases h : v = 2
          · subst h
            exact operations_reported.mpr
              (hkinds (two.mpr rfl) (versionChecks_iff.mp (hheader rfl)) raw hraw)
          · exact operations_unversioned h
        · split
          · refine reported_bind.mpr ⟨reported_requiredInt, fun rank _ => ?_⟩
            refine reported_bind.mpr ⟨reported_requiredInt, fun worldSize _ => ?_⟩
            refine reported_bind.mpr ⟨reported_raiseUnless (names_path path _), fun _ _ => ?_⟩
            refine reported_bind.mpr ⟨reported_raiseUnless (names_path path _), fun _ _ => ?_⟩
            refine reported_bind.mpr ⟨reported_raiseUnless (names_path path _), fun _ _ => ?_⟩
            split
            · exact reported_telemetry (names_path path _)
            · refine reported_bind.mpr ⟨reported_requiredInt, fun pid _ => ?_⟩
              refine reported_bind.mpr ⟨reported_requiredInt, fun runtimeNs _ => ?_⟩
              refine reported_bind.mpr ⟨reported_requiredInt, fun mpiTimeNs _ => ?_⟩
              refine reported_bind.mpr ⟨reported_requiredInt, fun mpiCalls _ => ?_⟩
              refine reported_bind.mpr ⟨reported_requiredInt, fun bytesSent _ => ?_⟩
              exact reported_bind.mpr ⟨reported_requiredInt, fun bytesReceived _ => reported_ok _⟩
          · exact reported_telemetry (names_path path _)
      · exact reported_telemetry (names_path path _)

end entries

section contract

variable {py : Interpreter} {path : String} {data raw : Dict} {t t' : Tally} {version : Int}
  {entry : PyStr × PyValue} {s : Analyzer.RankSummary}

def callsOf (kind : String) (entry : PyStr × PyValue) : Nat :=
  match entry.2 with
  | .dict stats =>
    if isOneOf [kind] (get stats "record_kind") = true then (natural stats "calls").getD 0 else 0
  | _ => 0

/-- A boolean, or its default when it is missing. -/
def Flag (data : Dict) (key : String) (default b : Bool) : Prop :=
  get data key = none ∧ b = default ∨ get data key = some (.bool b)

/-- The contract of a summary, in terms of the document it was read from. -/
structure Contract (data : Dict) (s : Analyzer.RankSummary) : Prop where
  inside : s.rank < s.worldSize
  counters : ∀ m ∈ [("rank", s.rank), ("world_size", s.worldSize), ("pid", s.pid),
    ("runtime_ns", s.runtimeNs), ("mpi_time_ns", s.mpiTimeNs), ("mpi_calls", s.mpiCalls),
    ("bytes_sent", s.bytesSent), ("bytes_received", s.bytesReceived)], natural data m.1 = some m.2
  hostname : get data "hostname" = some (.str s.hostname)
  operations : ∃ raw, get data "operations" = some (.dict raw) ∧
    (∀ m ∈ s.operations, ∃ stats, (m.1, .dict stats) ∈ raw ∧ statsOf stats = some m.2) ∧
    (∀ m ∈ raw, m.1 ∈ s.operations.map Prod.fst) ∧
    (get data "schema_version" = some (.int 2) →
      s.mpiCalls = (raw.map (callsOf "api_call")).sum ∧
      natural data "request_completions" = some (raw.map (callsOf "request_completion")).sum)
  synthetic : Flag data "synthetic" false s.synthetic
  complete : Flag data "complete" true s.complete
  context : get data "context" = none ∧ s.context = [] ∨
    get data "context" = some (.dict (s.context.map (fun m => (m.1, .str m.2))))

theorem mem_setItem {α : Type} {xs : List (PyStr × α)} {key : PyStr} {x : α} {m : PyStr × α}
    (h : m ∈ setItem xs key x) : m ∈ xs ∨ m = (key, x) := by
  unfold setItem at h
  split at h
  · obtain ⟨m', hm', rfl⟩ := List.mem_map.mp h
    split
    · exact .inr rfl
    · exact .inl hm'
  · obtain h | h := List.mem_append.mp h
    · exact .inl h
    · exact .inr (List.mem_singleton.mp h)

theorem keys_setItem {α : Type} {xs : List (PyStr × α)} {key k : PyStr} {x : α}
    (h : k ∈ xs.map Prod.fst ∨ k = key) : k ∈ (setItem xs key x).map Prod.fst := by
  unfold setItem
  split
  · next hkey =>
    have keys : (xs.map (fun m => if m.1 = key then (key, x) else m)).map Prod.fst =
        xs.map Prod.fst := by
      rw [List.map_map]
      refine List.map_congr_left (fun m _ => ?_)
      simp only [Function.comp_apply]
      split
      · next h => exact h.symm
      · rfl
    rw [keys]
    obtain h | rfl := h
    · exact h
    · obtain ⟨y, hy⟩ := Option.isSome_iff_exists.mp hkey
      exact List.mem_map_of_mem (mem_of_lookup hy)
  · rw [List.map_append, List.mem_append]
    exact h.imp id (fun h => List.mem_singleton.mpr h)

theorem kinds_split {v : Option PyValue} (h : isOneOf recordKinds v = true) :
    isOneOf ["api_call"] v = !isOneOf ["request_completion"] v := by
  unfold isOneOf at h ⊢
  split at h
  · next name =>
    by_cases hapi : PyStr.ofString "api_call" = name
    · subst hapi
      decide
    · by_cases hcompletion : PyStr.ofString "request_completion" = name
      · subst hcompletion
        decide
      · simp [recordKinds, hapi, hcompletion] at h
  · exact nomatch h

structure Adds (version : Int) (raw : Dict) (t t' : Tally) : Prop where
  read : ∀ m ∈ t'.operations, m ∈ t.operations ∨
    ∃ stats, (m.1, .dict stats) ∈ raw ∧ statsOf stats = some m.2
  keys : ∀ key, key ∈ t.operations.map Prod.fst ∨ key ∈ raw.map Prod.fst →
    key ∈ t'.operations.map Prod.fst
  totals : version = 2 →
    t'.apiOperationCalls = t.apiOperationCalls + (raw.map (callsOf "api_call")).sum ∧
    t'.completionCalls = t.completionCalls + (raw.map (callsOf "request_completion")).sum

theorem readOperation_adds (h : readOperation py version path t entry = .ok t') :
    Adds version [entry] t t' := by
  obtain ⟨name, v⟩ := entry
  obtain ⟨stats, counted, counts, rfl, hkind, hcounts, rfl⟩ := readOperation_ok_iff.mp h
  have kept : counted.operations = t.operations ∧ (version = 2 →
      counted.apiOperationCalls = t.apiOperationCalls + callsOf "api_call" (name, .dict stats) ∧
      counted.completionCalls =
        t.completionCalls + callsOf "request_completion" (name, .dict stats)) := by
    by_cases hversion : version = 2
    · subst hversion
      obtain ⟨hknown, calls, hcalls, rfl⟩ := kindCalls_iff.mp hkind
      have split := kinds_split hknown
      unfold tallied callsOf
      dsimp only
      rw [hcalls, split]
      by_cases hcompletion : isOneOf ["request_completion"] (get stats "record_kind") = true
      · rw [hcompletion]
        exact ⟨rfl, fun _ => ⟨rfl, rfl⟩⟩
      · rw [Bool.not_eq_true] at hcompletion
        rw [hcompletion]
        exact ⟨rfl, fun _ => ⟨rfl, rfl⟩⟩
    · rw [kindCalls, if_neg hversion] at hkind
      obtain rfl := Except.ok.inj hkind
      exact ⟨rfl, fun h => absurd h hversion⟩
  refine ⟨fun m hm => ?_, fun key hkey => ?_, fun hversion => ?_⟩
  · rw [kept.1] at hm
    obtain hm | rfl := mem_setItem hm
    · exact .inl hm
    · exact .inr ⟨stats, List.mem_singleton_self _, hcounts⟩
  · rw [kept.1]
    exact keys_setItem (hkey.imp id List.mem_singleton.mp)
  · simp only [List.map_singleton, List.sum_singleton]
    exact kept.2 hversion

theorem operations_add (h : raw.foldlM (readOperation py version path) t = .ok t') :
    Adds version raw t t' := by
  induction raw generalizing t with
  | nil =>
    obtain rfl : t = t' := Except.ok.inj h
    exact ⟨fun m hm => .inl hm, fun key hkey => hkey.resolve_right List.not_mem_nil,
      fun _ => ⟨rfl, rfl⟩⟩
  | cons entry raw ih =>
    rw [List.foldlM_cons] at h
    obtain ⟨u, hu, h⟩ := bind_ok_iff.mp h
    have first := readOperation_adds hu
    have rest := ih h
    refine ⟨fun m hm => ?_, fun key hkey => rest.keys key ?_, fun hversion => ?_⟩
    · obtain hm | ⟨stats, hmem, hstats⟩ := rest.read m hm
      · obtain hm | ⟨stats, hmem, hstats⟩ := first.read m hm
        · exact .inl hm
        · exact .inr ⟨stats, List.mem_cons.mpr (.inl (List.mem_singleton.mp hmem)), hstats⟩
      · exact .inr ⟨stats, List.mem_cons_of_mem _ hmem, hstats⟩
    · rw [List.map_cons, List.mem_cons] at hkey
      obtain hkey | rfl | hkey := hkey
      · exact .inl (first.keys key (.inl hkey))
      · exact .inl (first.keys _ (.inr (List.mem_singleton_self _)))
      · exact .inr hkey
    · obtain ⟨hapi, hcompletion⟩ := first.totals hversion
      obtain ⟨hapi', hcompletion'⟩ := rest.totals hversion
      simp only [List.map_singleton, List.sum_singleton] at hapi hcompletion
      simp only [List.map_cons, List.sum_cons]
      omega

theorem stringValues_some {members : Dict} {context : List (PyStr × PyStr)}
    (h : stringValues members = some context) :
    members = context.map (fun m => (m.1, .str m.2)) := by
  induction members generalizing context with
  | nil =>
    obtain rfl := Option.some.inj h
    rfl
  | cons m members ih =>
    obtain ⟨key, v⟩ := m
    cases v with
    | str value =>
      obtain ⟨rest, hrest, rfl⟩ := Option.map_eq_some_iff.mp h
      rw [List.map_cons, ← ih hrest]
    | _ => exact nomatch h

theorem flag_of_check {key : String} {default : Bool} {message : String}
    {u : Unit} (h : raiseUnless ((get data key).isNone ∨ isBool (get data key))
      (.telemetry message) = .ok u) : Flag data key default (flag default (get data key)) := by
  have checked := raiseUnless_ok h
  unfold Flag
  cases hget : get data key with
  | none => exact .inl ⟨rfl, rfl⟩
  | some v =>
    rw [hget] at checked
    cases v with
    | bool b => exact .inr rfl
    | _ => simp [isBool] at checked

theorem checked_iff {β : Type} {c : Prop} [Decidable c] {x : Except Escape Unit}
    {f : Unit → Except Escape β} {b : β} :
    (if c then x >>= f else f ()) = .ok b ↔ (c → x = .ok ()) ∧ f () = .ok b := by
  by_cases hc : c
  · rw [if_pos hc, bind_ok_iff]
    exact ⟨fun ⟨_, hx, hf⟩ => ⟨fun _ => hx, hf⟩, fun ⟨hx, hf⟩ => ⟨(), hx hc, hf⟩⟩
  · rw [if_neg hc]
    exact ⟨fun h => ⟨fun h' => absurd h' hc, h⟩, fun h => h.2⟩

theorem totalsChecks_iff : totalsChecks data path t = .ok () ↔
    natural data "mpi_calls" = some t.apiOperationCalls ∧
      natural data "request_completions" = some t.completionCalls := by
  unfold totalsChecks
  constructor
  · intro h
    obtain ⟨mpiCalls, hcalls, h⟩ := bind_ok_iff.mp h
    obtain ⟨_, hsame, h⟩ := bind_ok_iff.mp h
    obtain ⟨completions, hcompletions, h⟩ := bind_ok_iff.mp h
    rw [requiredInt_iff.mp hcalls, requiredInt_iff.mp hcompletions, raiseUnless_ok hsame,
      raiseUnless_ok h]
    exact ⟨rfl, rfl⟩
  · rintro ⟨hcalls, hcompletions⟩
    refine bind_ok_iff.mpr ⟨_, requiredInt_iff.mpr hcalls, ?_⟩
    refine bind_ok_iff.mpr ⟨(), raiseUnless_iff.mpr rfl, ?_⟩
    exact bind_ok_iff.mpr ⟨_, requiredInt_iff.mpr hcompletions, raiseUnless_iff.mpr rfl⟩

theorem parseSummary_contract (h : parseSummary py path data = .ok s) : Contract data s := by
  unfold parseSummary at h
  split at h
  · exact nomatch h
  · next version hversion =>
    have two : get data "schema_version" = some (.int 2) → version = 2 := by
      intro h2
      rw [h2] at hversion
      exact (Option.some.inj hversion).symm
    obtain ⟨-, h⟩ := checked_iff.mp h
    split at h
    · next raw hraw =>
      obtain ⟨t, hfold, h⟩ := bind_ok_iff.mp h
      obtain ⟨htotals, h⟩ := checked_iff.mp h
      have adds := operations_add hfold
      split at h
      · next hostname hhostname =>
        obtain ⟨rank, hrank, h⟩ := bind_ok_iff.mp h
        obtain ⟨worldSize, hworld, h⟩ := bind_ok_iff.mp h
        obtain ⟨_, within, h⟩ := bind_ok_iff.mp h
        obtain ⟨_, hsynthetic, h⟩ := bind_ok_iff.mp h
        obtain ⟨_, hcomplete, h⟩ := bind_ok_iff.mp h
        split at h
        · exact nomatch h
        · next context hcontext =>
          obtain ⟨pid, hpid, h⟩ := bind_ok_iff.mp h
          obtain ⟨runtimeNs, hruntime, h⟩ := bind_ok_iff.mp h
          obtain ⟨mpiTimeNs, hmpiTime, h⟩ := bind_ok_iff.mp h
          obtain ⟨mpiCalls, hmpiCalls, h⟩ := bind_ok_iff.mp h
          obtain ⟨bytesSent, hsent, h⟩ := bind_ok_iff.mp h
          obtain ⟨bytesReceived, hreceived, h⟩ := bind_ok_iff.mp h
          obtain rfl := Except.ok.inj h
          refine ⟨(raiseUnless_ok within).2, ?_, hhostname, ⟨raw, hraw, fun m hm => ?_,
            fun m hm => adds.keys _ (.inr (List.mem_map_of_mem hm)), fun h2 => ?_⟩,
            flag_of_check hsynthetic, flag_of_check hcomplete, ?_⟩
          · simp only [List.forall_mem_cons, requiredInt_iff.mp hrank, requiredInt_iff.mp hworld,
              requiredInt_iff.mp hpid, requiredInt_iff.mp hruntime, requiredInt_iff.mp hmpiTime,
              requiredInt_iff.mp hmpiCalls, requiredInt_iff.mp hsent, requiredInt_iff.mp hreceived,
              true_and]
            exact fun _ hm => (nomatch hm)
          · exact (adds.read m hm).resolve_left List.not_mem_nil
          · obtain ⟨hapi, hcompletion⟩ := adds.totals (two h2)
            obtain ⟨hcalls, hcompletions⟩ := totalsChecks_iff.mp (htotals (two h2))
            rw [requiredInt_iff.mp hmpiCalls, hapi, Nat.zero_add] at hcalls
            rw [hcompletion, Nat.zero_add] at hcompletions
            exact ⟨Option.some.inj hcalls, hcompletions⟩
          · unfold contextOf at hcontext
            split at hcontext
            · next hnone =>
              exact .inl ⟨hnone, (Option.some.inj hcontext).symm⟩
            · next members hmembers =>
              rw [hmembers, stringValues_some hcontext]
              exact .inr rfl
            · exact nomatch hcontext
      · exact nomatch h
    · exact nomatch h

end contract

section total

variable {py : Interpreter} {directory : String} {file : File}

/-- The file is read as a summary that keeps its contract, or the error is one that `main` prints
with the path of the file. -/
def Total (py : Interpreter) (directory : String) (file : File) : Prop :=
  (∃ s text data, loadSummary py directory file = .ok s ∧ file.content = .text text ∧
    py.loads text = .ok (.dict data) ∧ Contract data s) ∨
  ∃ message, loadSummary py directory file = .error (.telemetry message) ∧
    handled (.telemetry message) = true ∧ Names (directory ++ "/" ++ file.name) message

/-- `json.loads` fails with nothing but a decode error, and no unhashable value is looked up. -/
def Answerable (py : Interpreter) : Content → Prop
  | .text text => match py.loads text with
    | .error (.decode _) => True
    | .error _ => False
    | .ok (.dict data) => Settled data
    | .ok _ => True
  | _ => True

theorem total_iff_reported : Total py directory file ↔
    OnlyTelemetry (directory ++ "/" ++ file.name) (loadSummary py directory file) := by
  constructor
  · rintro (⟨s, text, data, h, -⟩ | ⟨message, h, -, hnames⟩)
    · rw [h]
      exact reported_ok s
    · rw [h]
      exact reported_telemetry hnames
  · intro h
    cases hload : loadSummary py directory file with
    | error e =>
      obtain ⟨message, rfl, hnames⟩ := h e hload
      exact .inr ⟨message, hload, rfl, hnames⟩
    | ok s =>
      refine .inl ?_
      have hload' := hload
      unfold loadSummary at hload'
      dsimp only at hload'
      split at hload'
      · exact nomatch hload'
      · exact nomatch hload'
      · next text htext =>
        split at hload'
        · exact nomatch hload'
        · exact nomatch hload'
        · exact nomatch hload'
        · next data hdata =>
          exact ⟨s, text, data, hload, htext, hdata, parseSummary_contract hload'⟩
        · exact nomatch hload'

theorem loadSummary_reported :
    OnlyTelemetry (directory ++ "/" ++ file.name) (loadSummary py directory file) ↔
      Answerable py file.content := by
  have text : Names (directory ++ "/" ++ file.name)
      ("cannot read " ++ (directory ++ "/" ++ file.name)) := (names_self _).behind _
  unfold loadSummary Answerable
  dsimp only
  cases file.content with
  | unreadable message =>
    exact ⟨fun _ => trivial, fun _ => reported_telemetry ((text.append _).append _)⟩
  | undecodable => exact ⟨fun _ => trivial, fun _ => reported_telemetry (text.append _)⟩
  | text s =>
    dsimp only
    cases py.loads s with
    | error e =>
      cases e with
      | decode msg =>
        exact ⟨fun _ => trivial, fun _ => reported_telemetry ((text.append _).append _)⟩
      | value message => exact ⟨not_reported (fun _ he => (nomatch he)), False.elim⟩
      | recursion => exact ⟨not_reported (fun _ he => (nomatch he)), False.elim⟩
    | ok v =>
      cases v with
      | dict data => exact parseSummary_reported
      | _ => exact ⟨fun _ => trivial, fun _ => reported_telemetry ((names_self _).append _)⟩

/-- A file is read or reported exactly when its text can be decoded and no list or object stands
where the program looks up a string. -/
theorem loadSummary_total : Total py directory file ↔ Answerable py file.content :=
  total_iff_reported.trans loadSummary_reported

def listedText : PyStr := written
  ["\x7b\"schema_version\": 2, ", "\"complete\": true, ", "\"capture_state\": []\x7d"]

def listedValue : PyValue := object [("schema_version", .int 2), ("complete", .bool true),
  ("capture_state", .list [])]

/-- A list as the capture state raises a `TypeError`, which nothing catches. -/
theorem loadSummary_unhashable : ¬∀ (py : Interpreter) (directory : String) (file : File),
    Total py directory file := by
  intro h
  have settled : Settled [(PyStr.ofString "schema_version", .int 2),
      (PyStr.ofString "complete", .bool true), (PyStr.ofString "capture_state", .list [])] :=
    loadSummary_reported.mp (total_iff_reported.mp (h (reader [(listedText, listedValue)]) "capture"
      ⟨"rank-00000-summary.json", .text listedText⟩))
  exact nomatch settled.captureState rfl rfl

end total

end Validation

end RankLens
