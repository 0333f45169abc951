import RankLens.Analyzer

namespace RankLens

namespace Analyzer

section lines

variable (py : Interpreter) (rank : Int)

/-- The event of a line of a known version that names the rank of its file. -/
def admitted (line : PyStr) : Option (Dict × Int) :=
  match py.loads line with
  | .ok (.dict event) =>
    match supported (get event "schema_version") with
    | some version =>
      if equalsInt py rank (get event "rank") = true then some (event, version) else none
    | none => none
  | _ => none

/-- The sequence of an event, if it can have one. -/
def sequenceOf (event : Dict) : Option Int :=
  match get event "sequence" with
  | some (.int n) => if 0 ≤ n then some n else none
  | _ => none

def candidate (line : PyStr) : Option Int :=
  match admitted py rank line with
  | some (event, version) => if version = 2 then sequenceOf event else none
  | none => none

def kindMatches (event : Dict) : Bool :=
  match isCompletion py (get event "operation") with
  | .ok completion => hasKind completion (get event "record_kind")
  | .error _ => false

/-- The highest sequence after one more line. -/
def advance (last : Int) (line : PyStr) : Int :=
  match candidate py rank line with
  | some n => max last n
  | none => last

/-- The event a line is counted as, when the highest sequence before it is `last`. -/
def passes (last : Int) (line : PyStr) : Option Dict :=
  match admitted py rank line with
  | some (event, version) =>
    if version = 2 then
      match sequenceOf event with
      | some n => if last < n ∧ kindMatches py event = true then some event else none
      | none => none
    else some event
  | none => none

/-- The events of the lines of a file that pass. -/
def accepted : Int → List PyStr → List Dict
  | _, [] => []
  | last, line :: rest =>
    (passes py rank last line).toList ++ accepted (advance py rank last line) rest

/-- What makes the checks of a line raise. -/
inductive Raising (last : Int) (line : PyStr) : Prop where
  | value (message : String) (h : py.loads line = .error (.value message))
  | nested (h : py.loads line = .error .recursion)
  | operation {event : Dict} {n : Int} (ha : admitted py rank line = some (event, 2))
      (hs : sequenceOf event = some n) (hl : last < n)
      (hd : ∃ e, isCompletion py (get event "operation") = .error e)

variable {py rank} {last : Int} {line : PyStr}

theorem nextSequence_eq (event : Dict) : nextSequence last (get event "sequence") =
    (sequenceOf event).filter (fun n => last < n) := by
  unfold nextSequence sequenceOf
  cases hv : get event "sequence" with
  | none => rfl
  | some v =>
    cases v with
    | int n =>
      show (if n < 0 ∨ n ≤ last then none else some n) =
        Option.filter (fun n => decide (last < n)) (if 0 ≤ n then some n else none)
      by_cases hn : 0 ≤ n
      · by_cases hl : last < n
        · rw [if_neg (by omega), if_pos hn, Option.filter_some, if_pos (by simpa using hl)]
        · rw [if_pos (by omega), if_pos hn, Option.filter_some, if_neg (by simpa using hl)]
      · rw [if_pos (by omega), if_neg hn]
        rfl
    | _ => rfl

theorem readSequenced_cases (event : Dict) :
    (∃ n e, sequenceOf event = some n ∧ last < n ∧
      isCompletion py (get event "operation") = .error e ∧
      readSequenced py last event = .error e) ∨
    (∃ n, sequenceOf event = some n ∧ last < n ∧ kindMatches py event = true ∧
      readSequenced py last event = .ok (.event event n) ∧
      ∀ e, isCompletion py (get event "operation") ≠ .error e) ∨
    (∃ n, sequenceOf event = some n ∧ last < n ∧ kindMatches py event = false ∧
      readSequenced py last event = .ok (.ignored .kind n) ∧
      ∀ e, isCompletion py (get event "operation") ≠ .error e) ∨
    ((∀ n, sequenceOf event = some n → n ≤ last) ∧
      readSequenced py last event = .ok (.ignored .sequence last)) := by
  unfold readSequenced kindMatches
  rw [nextSequence_eq]
  cases hs : sequenceOf event with
  | none => exact .inr (.inr (.inr ⟨(fun _ h => nomatch h), rfl⟩))
  | some n =>
    by_cases hl : last < n
    · rw [Option.filter_some, if_pos (by simpa using hl)]
      cases hc : isCompletion py (get event "operation") with
      | error e => exact .inl ⟨n, e, rfl, hl, rfl, rfl⟩
      | ok completion =>
        cases hk : hasKind completion (get event "record_kind") with
        | true => exact .inr (.inl ⟨n, rfl, hl, hk, by simp [hk], fun _ h => nomatch h⟩)
        | false => exact .inr (.inr (.inl ⟨n, rfl, hl, hk, by simp [hk], fun _ h => nomatch h⟩))
    · rw [Option.filter_some, if_neg (by simpa using hl)]
      refine .inr (.inr (.inr ⟨fun m hm => ?_, rfl⟩))
      obtain rfl := Option.some.inj hm
      exact not_lt.mp hl

theorem readLine_cases : (∃ e, readLine py rank last line = .error e ∧ Raising py rank last line) ∨
    (∃ reason, readLine py rank last line = .ok (.ignored reason (advance py rank last line)) ∧
      passes py rank last line = none ∧ ¬Raising py rank last line) ∨
    (∃ event, readLine py rank last line = .ok (.event event (advance py rank last line)) ∧
      passes py rank last line = some event ∧ ¬Raising py rank last line) := by
  -- A line that is not admitted is skipped, or its JSON raises.
  have skipped : ∀ reason, admitted py rank line = none →
      readLine py rank last line = .ok (.ignored reason last) →
      (∀ message, py.loads line ≠ .error (.value message)) → py.loads line ≠ .error .recursion →
      ∃ reason, readLine py rank last line = .ok (.ignored reason (advance py rank last line)) ∧
        passes py rank last line = none ∧ ¬Raising py rank last line := by
    intro reason ha hr hv hn
    refine ⟨reason, ?_, ?_, ?_⟩
    · rw [hr, advance, candidate, ha]
    · rw [passes, ha]
    · rintro (⟨message, h⟩ | h | ⟨h, -, -, -⟩)
      · exact hv message h
      · exact hn h
      · rw [ha] at h
        cases h
  cases hj : py.loads line with
  | error e =>
    cases e with
    | decode msg =>
      refine .inr (.inl (skipped (.malformed msg) ?_ ?_ ?_ ?_)) <;>
        simp [admitted, readLine, hj]
    | value message =>
      exact .inl ⟨_, by rw [readLine, hj], .value message hj⟩
    | recursion => exact .inl ⟨_, by rw [readLine, hj], .nested hj⟩
  | ok v =>
    cases v with
    | dict event =>
      have quiet : (∀ message, py.loads line ≠ .error (.value message)) ∧
          py.loads line ≠ .error .recursion := by simp [hj]
      cases hv : supported (get event "schema_version") with
      | none =>
        refine .inr (.inl (skipped .schema ?_ ?_ quiet.1 quiet.2)) <;>
          simp [admitted, readLine, hj, hv]
      | some version =>
        cases hr : equalsInt py rank (get event "rank") with
        | false =>
          refine .inr (.inl (skipped .rank ?_ ?_ quiet.1 quiet.2)) <;>
            simp [admitted, readLine, hj, hv, hr]
        | true =>
          have ha : admitted py rank line = some (event, version) := by
            simp [admitted, hj, hv, hr]
          by_cases h2 : version = 2
          · subst h2
            have hread : readLine py rank last line = readSequenced py last event := by
              simp [readLine, hj, hv, hr]
            rw [hread]
            have unraised : (∀ e n, sequenceOf event = some n → last < n →
                isCompletion py (get event "operation") ≠ .error e) →
                ¬Raising py rank last line := by
              rintro hc (⟨message, h⟩ | h | ⟨h, hs, hl, e, he⟩)
              · exact quiet.1 message h
              · exact quiet.2 h
              · rw [ha] at h
                cases h
                exact hc e _ hs hl he
            obtain ⟨n, e, hs, hl, he, h⟩ | ⟨n, hs, hl, hk, h, hc⟩ | ⟨n, hs, hl, hk, h, hc⟩ |
              ⟨hs, h⟩ := @readSequenced_cases py last event
            · exact .inl ⟨e, h, .operation ha hs hl ⟨e, he⟩⟩
            · refine .inr (.inr ⟨event, ?_, ?_, unraised (fun e _ _ _ => hc e)⟩)
              · rw [h]
                simp [advance, candidate, ha, hs, hl.le]
              · simp [passes, ha, hs, hl, hk]
            · refine .inr (.inl ⟨.kind, ?_, ?_, unraised (fun e _ _ _ => hc e)⟩)
              · rw [h]
                simp [advance, candidate, ha, hs, hl.le]
              · simp [passes, ha, hs, hk]
            · refine .inr (.inl ⟨.sequence, ?_, ?_, unraised (fun e n hn hl => ?_)⟩)
              · rw [h]
                cases hn : sequenceOf event with
                | none => simp [advance, candidate, ha, hn]
                | some n => simp [advance, candidate, ha, hn, hs n hn]
              · cases hn : sequenceOf event with
                | none => simp [passes, ha, hn]
                | some n => simp [passes, ha, hn, hs n hn]
              · exact absurd (hs n hn) (not_le.mpr hl)
          · refine .inr (.inr ⟨event, ?_, ?_, ?_⟩)
            · simp [readLine, hj, hv, hr, h2, advance, candidate, ha]
            · simp [passes, ha, h2]
            · rintro (⟨message, h⟩ | h | ⟨h, -, -, -⟩)
              · exact quiet.1 message h
              · exact quiet.2 h
              · rw [ha] at h
                exact h2 (Prod.mk.inj (Option.some.inj h)).2
    | _ =>
      refine .inr (.inl (skipped .nonObject ?_ ?_ ?_ ?_)) <;> simp [admitted, readLine, hj]

end lines

section counting

variable (py : Interpreter) (rank : Int) (worldSize runtimeMaxNs : Nat)

def isSend (event : Dict) : Bool := isOneOf ["MPI_Send", "MPI_Isend"] (get event "operation")

/-- `operation in {...}` does not raise. -/
def hashable : Option PyValue → Bool
  | some (.list _) => false
  | some (.dict _) => false
  | _ => true

def addTime (timeline : List Bucket) (event : Dict) : List Bucket :=
  if failed py event = true then timeline else count timeline (bucketOf runtimeMaxNs event)

def addSend (edges : List ((Nat × Nat) × (Nat × Nat))) (event : Dict) :
    List ((Nat × Nat) × (Nat × Nat)) :=
  if failed py event = false ∧ isSend event = true then
    match edgeOf worldSize event with
    | some (key, bytes) => addEdge edges key bytes
    | none => edges
  else edges

/-- The event raises nothing when it is counted. -/
def Countable (event : Dict) : Prop :=
  failed py event = true ∨ hashable (get event "operation") = true

def Placed (event : Dict) : Prop :=
  failed py event = false → isSend event = true → (edgeOf worldSize event).isSome = true

variable {py rank worldSize runtimeMaxNs} {name place : String} {event : Dict}
  {s s' : Evidence} {lines : List PyStr} {last : Int} {lineNumber : Nat}

theorem inSet_eq (names : List String) (v : Option PyValue) :
    inSet names v = if hashable v = true then .ok (isOneOf names v) else .error .typeError := by
  unfold inSet hashable
  split <;> simp_all

theorem warn_prefix (warnings : List String) (warning : String) :
    warnings <+: warn warnings warning := by
  unfold warn
  split
  · exact List.prefix_append _ _
  · exact List.prefix_refl _

theorem warn_longer {warnings : List String} {warning : String} (h : warnings.length < 100) :
    (warn warnings warning).length = warnings.length + 1 := by
  rw [warn, if_pos h, List.length_append, List.length_singleton]

theorem warn_length (warnings : List String) (warning : String) :
    (warn warnings warning).length ≤ max 100 warnings.length := by
  unfold warn
  split
  · rw [List.length_append, List.length_singleton]
    omega
  · exact le_max_right _ _

/-- How the evidence grows: by the events, and by warnings of which there are at most 100 from
lines. No warning is missing while there is room for one. -/
structure Grown (py : Interpreter) (worldSize runtimeMaxNs : Nat) (events : List Dict)
    (clean : Prop) (s s' : Evidence) : Prop where
  timeline : s'.timeline = events.foldl (addTime py runtimeMaxNs) s.timeline
  edges : s'.edges = events.foldl (addSend py worldSize) s.edges
  warnings : s.warnings <+: s'.warnings
  bounded : s'.warnings.length ≤ max 100 s.warnings.length
  silent : clean → s'.warnings = s.warnings
  loud : s.warnings.length < 100 → ¬clean → s.warnings.length < s'.warnings.length

theorem Grown.refl (clean : Prop) (h : clean) : Grown py worldSize runtimeMaxNs [] clean s s :=
  ⟨rfl, rfl, List.prefix_refl _, le_max_right _ _, fun _ => rfl, fun _ hn => absurd h hn⟩

theorem Grown.trans {s₁ s₂ s₃ : Evidence} {es es' : List Dict} {clean clean' : Prop}
    (h : Grown py worldSize runtimeMaxNs es clean s₁ s₂)
    (h' : Grown py worldSize runtimeMaxNs es' clean' s₂ s₃) :
    Grown py worldSize runtimeMaxNs (es ++ es') (clean ∧ clean') s₁ s₃ where
  timeline := by rw [h'.timeline, h.timeline, List.foldl_append]
  edges := by rw [h'.edges, h.edges, List.foldl_append]
  warnings := h.warnings.trans h'.warnings
  bounded := h'.bounded.trans (max_le (le_max_left _ _) h.bounded)
  silent := fun hc => (h'.silent hc.2).trans (h.silent hc.1)
  loud := fun hroom hn => by
    by_cases hc : clean
    · have hn' : ¬clean' := fun hc' => hn ⟨hc, hc'⟩
      rw [← h.silent hc] at hroom ⊢
      exact h'.loud hroom hn'
    · exact (h.loud hroom hc).trans_le h'.warnings.length_le

theorem Grown.congr {events : List Dict} {clean clean' : Prop}
    (h : Grown py worldSize runtimeMaxNs events clean s s') (hc : clean ↔ clean') :
    Grown py worldSize runtimeMaxNs events clean' s s' :=
  ⟨h.timeline, h.edges, h.warnings, h.bounded, fun h' => h.silent (hc.mpr h'),
    fun hr hn => h.loud hr (fun h' => hn (hc.mp h'))⟩

theorem grown_warn (warning : String) (clean : Prop) (h : ¬clean) :
    Grown py worldSize runtimeMaxNs [] clean s { s with warnings := warn s.warnings warning } :=
  ⟨rfl, rfl, warn_prefix _ _, warn_length _ _, fun hc => absurd hc h,
    fun hr _ => by rw [warn_longer hr]; exact Nat.lt_succ_self _⟩

/-- Counting an event raises exactly when its operation cannot be hashed. -/
theorem countEvent_cases (event : Dict) (s : Evidence) :
    (¬Countable py event ∧ countEvent py worldSize runtimeMaxNs place event s =
      .error .typeError) ∨
    (Countable py event ∧ ∃ s', countEvent py worldSize runtimeMaxNs place event s = .ok s' ∧
      Grown py worldSize runtimeMaxNs [event] (Placed py worldSize event) s s') := by
  cases hf : failed py event with
  | true =>
    refine .inr ⟨.inl hf, s, by rw [countEvent, if_pos hf], ?_⟩
    have placed : Placed py worldSize event := fun h => absurd (hf.symm.trans h) Bool.false_ne_true.symm
    exact ⟨by simp [addTime, hf], by simp [addSend, hf], List.prefix_refl _, le_max_right _ _,
      fun _ => rfl, fun _ hn => absurd placed hn⟩
  | false =>
    have hcount : countEvent py worldSize runtimeMaxNs place event s =
        countSuccess worldSize runtimeMaxNs place event s := by simp [countEvent, hf]
    rw [hcount, countSuccess, inSet_eq]
    cases hh : hashable (get event "operation") with
    | false =>
      refine .inl ⟨?_, rfl⟩
      rintro (h | h)
      · exact absurd (hf.symm.trans h) Bool.false_ne_true
      · exact absurd (hh.symm.trans h) Bool.false_ne_true
    | true =>
      refine .inr ⟨.inr hh, ?_⟩
      cases hs : isSend event with
      | false =>
        have hs' : isOneOf ["MPI_Send", "MPI_Isend"] (get event "operation") = false := hs
        refine ⟨_, by rw [if_pos rfl, hs'], ?_⟩
        have placed : Placed py worldSize event :=
          fun _ h => absurd (hs.symm.trans h) Bool.false_ne_true
        exact ⟨by simp [addTime, hf], by simp [addSend, hs], List.prefix_refl _, le_max_right _ _,
          fun _ => rfl, fun _ hn => absurd placed hn⟩
      | true =>
        have hs' : isOneOf ["MPI_Send", "MPI_Isend"] (get event "operation") = true := hs
        rw [if_pos rfl, hs']
        cases he : edgeOf worldSize event with
        | none =>
          refine ⟨_, rfl, ?_⟩
          have unplaced : ¬Placed py worldSize event := fun h => by
            have := h hf hs
            rw [he] at this
            cases this
          exact ⟨by simp [addTime, hf], by simp [addSend, hf, hs, he], warn_prefix _ _,
            warn_length _ _, fun hc => absurd hc unplaced,
            fun hr _ => by rw [warn_longer hr]; exact Nat.lt_succ_self _⟩
        | some edge =>
          refine ⟨_, rfl, ?_⟩
          have placed : Placed py worldSize event := fun _ _ => by rw [he]; rfl
          exact ⟨by simp [addTime, hf], by simp [addSend, hf, hs, he], List.prefix_refl _,
            le_max_right _ _, fun _ => rfl, fun _ hn => absurd placed hn⟩

variable (py rank worldSize) in
/-- No line of a file raises, when the highest sequence before it is `last`. -/
def Harmless : Int → List PyStr → Prop
  | _, [] => True
  | last, line :: rest => ¬Raising py rank last line ∧
      (∀ event, passes py rank last line = some event → Countable py event) ∧
      Harmless (advance py rank last line) rest

variable (py rank worldSize) in
/-- Every line of a file is an event, and every send among them has an edge. -/
def Clean : Int → List PyStr → Prop
  | _, [] => True
  | last, line :: rest =>
      (∃ event, passes py rank last line = some event ∧ Placed py worldSize event) ∧
      Clean (advance py rank last line) rest

theorem loadLines_cases (lines : List PyStr) (lineNumber : Nat) (last : Int) (s : Evidence) :
    (¬Harmless py rank last lines ∧ ∃ e,
      loadLines py worldSize runtimeMaxNs name rank lineNumber last lines s = .error e) ∨
    (Harmless py rank last lines ∧ ∃ s',
      loadLines py worldSize runtimeMaxNs name rank lineNumber last lines s = .ok s' ∧
      Grown py worldSize runtimeMaxNs (accepted py rank last lines)
        (Clean py rank worldSize last lines) s s') := by
  induction lines generalizing lineNumber last s with
  | nil => exact .inr ⟨trivial, s, rfl, .refl _ trivial⟩
  | cons line rest ih =>
    obtain ⟨e, hread, hraise⟩ | ⟨reason, hread, hpass, hquiet⟩ | ⟨event, hread, hpass, hquiet⟩ :=
      @readLine_cases py rank last line
    · exact .inl ⟨fun h => h.1 hraise, e, by rw [loadLines, hread]⟩
    · have counted : ∀ event, passes py rank last line = some event → Countable py event := by
        rw [hpass]
        exact fun _ h => nomatch h
      obtain ⟨hbad, e, herr⟩ | ⟨hgood, s', hok, hgrown⟩ := ih (lineNumber + 1)
        (advance py rank last line)
        { s with warnings := warn s.warnings (reason.text (name ++ ":" ++ toString lineNumber)) }
      · exact .inl ⟨fun h => hbad h.2.2, e, by rw [loadLines, hread]; exact herr⟩
      · refine .inr ⟨⟨hquiet, counted, hgood⟩, s', by rw [loadLines, hread]; exact hok, ?_⟩
        have unclean : ¬∃ event, passes py rank last line = some event ∧
            Placed py worldSize event := by simp [hpass]
        have grown := (grown_warn _ _ unclean).trans hgrown
        rw [accepted, hpass]
        exact grown
    · obtain ⟨hbad, herr⟩ | ⟨hcount, s₁, hok₁, hgrown₁⟩ := @countEvent_cases py worldSize
        runtimeMaxNs (name ++ ":" ++ toString lineNumber) event s
      · refine .inl ⟨fun h => hbad (h.2.1 event hpass), .typeError, ?_⟩
        rw [loadLines, hread]
        simp only [herr]
      · have counted : ∀ event', passes py rank last line = some event' → Countable py event' := by
          rw [hpass]
          rintro _ ⟨⟩
          exact hcount
        obtain ⟨hbad, e, herr⟩ | ⟨hgood, s', hok, hgrown⟩ := ih (lineNumber + 1)
          (advance py rank last line) s₁
        · refine .inl ⟨fun h => hbad h.2.2, e, ?_⟩
          rw [loadLines, hread]
          simp only [hok₁, herr]
        · refine .inr ⟨⟨hquiet, counted, hgood⟩, s', ?_, ?_⟩
          · rw [loadLines, hread]
            simp only [hok₁, hok]
          · have clean : Placed py worldSize event ↔ ∃ event, passes py rank last line = some event ∧
                Placed py worldSize event := by simp [hpass]
            have grown := (hgrown₁.congr clean).trans hgrown
            rw [accepted, hpass]
            exact grown

end counting


section files

variable (py : Interpreter) (worldSize : Nat)

def File.lines (file : File) : List PyStr :=
  match file.content with
  | .text text => textLines text
  | _ => []

def fileEvents (file : File) : List Dict :=
  match expectedRank py file with
  | some rank => accepted py rank (-1) file.lines
  | none => []

def FileHarmless (file : File) : Prop :=
  ∀ rank, expectedRank py file = some rank →
    file.content ≠ .undecodable ∧ Harmless py rank (-1) file.lines

/-- A file says which rank it is of and can be read, and all its lines are clean. -/
def FileClean (file : File) : Prop :=
  ∃ rank text, expectedRank py file = some rank ∧ file.content = .text text ∧
    Clean py rank worldSize (-1) (textLines text)

variable {py worldSize} {runtimeMaxNs : Nat} {s s' : Evidence} {file : File} {files : List File}

/-- How the evidence grows over whole files, each of which can add one more warning. -/
structure FilesGrown (py : Interpreter) (worldSize runtimeMaxNs : Nat) (files : List File)
    (s s' : Evidence) : Prop where
  timeline : s'.timeline = (files.flatMap (fileEvents py)).foldl (addTime py runtimeMaxNs)
    s.timeline
  edges : s'.edges = (files.flatMap (fileEvents py)).foldl (addSend py worldSize) s.edges
  warnings : s.warnings <+: s'.warnings
  bounded : s'.warnings.length ≤ max 100 s.warnings.length + files.length
  silent : (∀ file ∈ files, FileClean py worldSize file) → s'.warnings = s.warnings
  loud : s.warnings.length < 100 → (¬∀ file ∈ files, FileClean py worldSize file) →
    s.warnings.length < s'.warnings.length

theorem filesGrown_named (hevents : fileEvents py file = []) (hclean : ¬FileClean py worldSize file)
    (warning : String) : FilesGrown py worldSize runtimeMaxNs [file] s
      { s with warnings := s.warnings ++ [warning] } where
  timeline := by simp [hevents]
  edges := by simp [hevents]
  warnings := List.prefix_append _ _
  bounded := by
    show (s.warnings ++ [warning]).length ≤ max 100 s.warnings.length + 1
    rw [List.length_append, List.length_singleton]
    omega
  silent := fun h => absurd (h file (List.mem_singleton_self _)) hclean
  loud := fun _ _ => by
    show s.warnings.length < (s.warnings ++ [warning]).length
    rw [List.length_append, List.length_singleton]
    exact Nat.lt_succ_self _

theorem loadFile_cases (file : File) (s : Evidence) :
    (¬FileHarmless py file ∧ ∃ e, loadFile py worldSize runtimeMaxNs s file = .error e) ∨
    (FileHarmless py file ∧ ∃ s', loadFile py worldSize runtimeMaxNs s file = .ok s' ∧
      FilesGrown py worldSize runtimeMaxNs [file] s s') := by
  cases hr : expectedRank py file with
  | none =>
    refine .inr ⟨(fun rank h => nomatch hr.symm.trans h), _, by rw [loadFile, hr], ?_⟩
    refine filesGrown_named (by rw [fileEvents, hr]) ?_ _
    rintro ⟨rank, _, h, -⟩
    exact nomatch hr.symm.trans h
  | some rank =>
    cases hc : file.content with
    | unreadable message =>
      have nothing : file.lines = [] := by rw [File.lines, hc]
      refine .inr ⟨fun rank' h => ?_, _, by rw [loadFile, hr, hc], ?_⟩
      · rw [nothing, hc]
        exact ⟨Content.noConfusion, trivial⟩
      · refine filesGrown_named (by rw [fileEvents, hr, nothing]; rfl) ?_ _
        rintro ⟨_, _, -, h, -⟩
        exact nomatch hc.symm.trans h
    | undecodable =>
      exact .inl ⟨fun h => (h rank hr).1 hc, .unicodeDecode, by rw [loadFile, hr, hc]⟩
    | text text =>
      have lines : file.lines = textLines text := by rw [File.lines, hc]
      have events : fileEvents py file = accepted py rank (-1) (textLines text) := by
        rw [fileEvents, hr, lines]
      have harmless : FileHarmless py file ↔ Harmless py rank (-1) (textLines text) := by
        constructor
        · exact fun h => lines ▸ (h rank hr).2
        · intro h rank' hr'
          obtain rfl := Option.some.inj (hr.symm.trans hr')
          rw [lines, hc]
          exact ⟨Content.noConfusion, h⟩
      have clean : Clean py rank worldSize (-1) (textLines text) ↔
          ∀ f ∈ [file], FileClean py worldSize f := by
        rw [List.forall_mem_singleton]
        constructor
        · exact fun h => ⟨rank, text, hr, hc, h⟩
        · rintro ⟨rank', text', hr', hc', h⟩
          obtain rfl := Option.some.inj (hr.symm.trans hr')
          obtain rfl := Content.text.inj (hc.symm.trans hc')
          exact h
      have hload : loadFile py worldSize runtimeMaxNs s file =
          loadLines py worldSize runtimeMaxNs file.name rank 1 (-1) (textLines text) s := by
        rw [loadFile, hr, hc]
      rw [harmless, hload]
      refine (loadLines_cases (textLines text) 1 (-1) s).imp id ?_
      rintro ⟨h, s', hok, hgrown⟩
      refine ⟨h, s', hok, ?_⟩
      exact {
        timeline := by simpa [events] using hgrown.timeline
        edges := by simpa [events] using hgrown.edges
        warnings := hgrown.warnings
        bounded := hgrown.bounded.trans (Nat.le_add_right _ _)
        silent := fun h => hgrown.silent (clean.mpr h)
        loud := fun hroom h => hgrown.loud hroom (fun hc => h (clean.mp hc)) }

theorem FilesGrown.cons (h : FilesGrown py worldSize runtimeMaxNs [file] s s')
    {s'' : Evidence} (h' : FilesGrown py worldSize runtimeMaxNs files s' s'') :
    FilesGrown py worldSize runtimeMaxNs (file :: files) s s'' where
  timeline := by
    rw [h'.timeline, h.timeline, List.flatMap_cons, List.foldl_append]
    simp
  edges := by
    rw [h'.edges, h.edges, List.flatMap_cons, List.foldl_append]
    simp
  warnings := h.warnings.trans h'.warnings
  bounded := by
    have h₁ := h.bounded
    have h₂ := h'.bounded
    rw [List.length_singleton] at h₁
    rw [List.length_cons]
    omega
  silent := fun hc => by
    rw [List.forall_mem_cons] at hc
    exact (h'.silent hc.2).trans (h.silent (by simpa using hc.1))
  loud := fun hroom hn => by
    by_cases hc : FileClean py worldSize file
    · have hn' : ¬∀ f ∈ files, FileClean py worldSize f := fun hc' =>
        hn (List.forall_mem_cons.mpr ⟨hc, hc'⟩)
      rw [← h.silent (by simpa using hc)] at hroom ⊢
      exact h'.loud hroom hn'
    · exact (h.loud hroom (by simpa using hc)).trans_le h'.warnings.length_le

theorem loadFiles_cases (files : List File) (s : Evidence) :
    ((¬∀ file ∈ files, FileHarmless py file) ∧
      ∃ e, files.foldlM (loadFile py worldSize runtimeMaxNs) s = .error e) ∨
    ((∀ file ∈ files, FileHarmless py file) ∧
      ∃ s', files.foldlM (loadFile py worldSize runtimeMaxNs) s = .ok s' ∧
        FilesGrown py worldSize runtimeMaxNs files s s') := by
  induction files generalizing s with
  | nil =>
    exact .inr ⟨(fun _ h => nomatch h), s, rfl, ⟨rfl, rfl, List.prefix_refl _, by simp,
      fun _ => rfl, fun _ h => absurd (fun _ hf => nomatch hf) h⟩⟩
  | cons file files ih =>
    rw [List.forall_mem_cons, List.foldlM_cons]
    obtain ⟨hbad, e, herr⟩ | ⟨hgood, s₁, hok₁, hgrown₁⟩ :=
      @loadFile_cases py worldSize runtimeMaxNs file s
    · exact .inl ⟨fun h => hbad h.1, e, by rw [herr]; rfl⟩
    · obtain ⟨hbad, e, herr⟩ | ⟨hgood', s', hok, hgrown⟩ := ih s₁
      · exact .inl ⟨fun h => hbad h.2, e, by rw [hok₁]; exact herr⟩
      · exact .inr ⟨⟨hgood, hgood'⟩, s', by rw [hok₁]; exact hok, hgrown₁.cons hgrown⟩

end files

end Analyzer

end RankLens
