import RankLens.Agent

namespace RankLens

namespace JsonValue

theorem length_le_flatMap {α β : Type} {f : α → List β} (hf : ∀ x, f x ≠ []) (xs : List α) :
    xs.length ≤ (xs.flatMap f).length := by
  induction xs with
  | nil => exact Nat.le_refl 0
  | cons x xs ih =>
    have hx := List.length_pos_of_ne_nil (hf x)
    rw [List.flatMap_cons, List.length_append, List.length_cons]
    omega

theorem escape_ne_nil (c : Char) : escape c ≠ [] := by
  unfold escape
  split_ifs <;> exact List.cons_ne_nil _ _

theorem length_quote (s : String) : s.toList.length ≤ (quote s).length := by
  have h := length_le_flatMap escape_ne_nil s.toList
  rw [quote, List.cons_append, List.length_cons, List.length_append]
  omega

theorem length_marshalMembers {key : String} {j : JsonValue} {ms : List (String × JsonValue)}
    (h : (key, j) ∈ ms) : (marshal j).length ≤ (marshalMembers ms).length := by
  induction ms with
  | nil => cases h
  | cons m ms ih =>
    obtain ⟨key', j'⟩ := m
    cases ms with
    | nil =>
      rw [List.mem_singleton] at h
      cases h
      rw [marshalMembers, List.length_append, List.length_cons]
      omega
    | cons m' ms =>
      have hlen : (marshalMembers ((key', j') :: m' :: ms)).length =
          (quote key').length + (marshal j').length +
            (marshalMembers (m' :: ms)).length + 2 := by
        rw [marshalMembers]
        · simp only [List.length_append, List.length_cons]
          omega
        · exact List.cons_ne_nil m' ms
      obtain hhead | htail := List.mem_cons.mp h
      · cases hhead
        omega
      · have hle := ih htail
        omega

theorem length_encode (j : JsonValue) : j.marshal.length ≤ j.encode.length := by
  refine length_le_flatMap (fun c hc => ?_) _
  have hpos := String.length_utf8EncodeChar c
  rw [hc, List.length_nil] at hpos
  exact absurd hpos (Nat.ne_of_lt c.utf8Size_pos)

end JsonValue

namespace Agent

theorem length_b64encode (payload : Bytes) : payload.length ≤ (b64encode payload).length := by
  induction payload using b64encode.induct with
  | case1 => exact Nat.le_refl 0
  | case2 a => rw [b64encode]; simp
  | case3 a b => rw [b64encode]; simp
  | case4 a b c rest ih =>
    rw [b64encode]
    simp only [List.length_cons]
    omega

theorem length_encoded {u : SegmentUpload} {payload : Bytes}
    (h : u.payloadBase64 = String.ofList (b64encode payload)) :
    payload.length + 1 ≤ u.encoded.length := by
  have hmember : ("payload_base64", JsonValue.string u.payloadBase64) ∈ u.members := by
    simp [SegmentUpload.members]
  have hmembers := JsonValue.length_marshalMembers hmember
  have hquote := JsonValue.length_quote u.payloadBase64
  rw [h, String.toList_ofList, ← h] at hquote
  have hencode := JsonValue.length_encode u.toJson
  have hb64 := length_b64encode payload
  rw [JsonValue.marshal] at hmembers
  rw [SegmentUpload.toJson, JsonValue.marshal, List.cons_append, List.length_cons,
    List.length_append] at hencode
  rw [SegmentUpload.encoded, SegmentUpload.toJson]
  omega

theorem base64Value_char : ∀ n < 64, base64Value (base64Char n) = some n := by decide +kernel

theorem base64Char_ne_pad : ∀ n < 64, base64Char n ≠ '=' := by decide +kernel

theorem b64decode_encode (payload : Bytes) : b64decode (b64encode payload) = some payload := by
  induction payload using b64encode.induct with
  | case1 => rfl
  | case2 a =>
    have ha := a.toNat_lt
    rw [b64encode, b64decode, base64Value_char _ (by omega), base64Value_char _ (by omega)]
    have hn : (a.toNat * 65536 / 262144 * 64 + a.toNat * 65536 / 4096 % 64) / 16 = a.toNat := by
      omega
    simp only [Option.bind_eq_bind, Option.bind_some, hn, UInt8.ofNat_toNat]
    rfl
  | case3 a b =>
    have ha := a.toNat_lt
    have hb := b.toNat_lt
    rw [b64encode, b64decode, base64Value_char _ (by omega), base64Value_char _ (by omega),
      base64Value_char _ (by omega)]
    · generalize hn : a.toNat * 65536 + b.toNat * 256 = n
      have h₁ : ((n / 262144 * 64 + n / 4096 % 64) * 64 + n / 64 % 64) / 1024 = a.toNat := by
        omega
      have h₂ : ((n / 262144 * 64 + n / 4096 % 64) * 64 + n / 64 % 64) / 4 % 256 = b.toNat := by
        omega
      have hb' : UInt8.ofNat (((n / 262144 * 64 + n / 4096 % 64) * 64 + n / 64 % 64) / 4) = b := by
        rw [← UInt8.toNat_inj, UInt8.toNat_ofNat', h₂]
      simp only [Option.bind_eq_bind, Option.bind_some, h₁, hb', UInt8.ofNat_toNat]
      rfl
    · exact base64Char_ne_pad _ (by omega)
  | case4 a b c rest ih =>
    have ha := a.toNat_lt
    have hb := b.toNat_lt
    have hc := c.toNat_lt
    generalize hn : a.toNat * 65536 + b.toNat * 256 + c.toNat = n
    have hd : base64Char (n % 64) ≠ '=' := base64Char_ne_pad _ (by omega)
    have hvalue : ((n / 262144 * 64 + n / 4096 % 64) * 64 + n / 64 % 64) * 64 + n % 64 = n := by
      omega
    have ha' : UInt8.ofNat (n / 65536) = a := by
      rw [← UInt8.toNat_inj, UInt8.toNat_ofNat']
      omega
    have hb' : UInt8.ofNat (n / 256) = b := by
      rw [← UInt8.toNat_inj, UInt8.toNat_ofNat']
      omega
    have hc' : UInt8.ofNat n = c := by
      rw [← UInt8.toNat_inj, UInt8.toNat_ofNat']
      omega
    rw [b64encode]
    simp only [hn]
    rw [b64decode, base64Value_char _ (by omega), base64Value_char _ (by omega),
      base64Value_char _ (by omega), base64Value_char _ (by omega), ih]
    · simp only [Option.bind_eq_bind, Option.bind_some, hvalue, ha', hb', hc']
      rfl
    · intro _ hpad
      exact absurd hpad hd
    · intro hpad
      exact absurd hpad hd

theorem b64encode_injective {xs ys : Bytes} (h : b64encode xs = b64encode ys) : xs = ys := by
  have hx := b64decode_encode xs
  rw [h, b64decode_encode] at hx
  exact (Option.some.inj hx).symm

variable {env : Env} {go : Go} {config : Config}

section Sealing

variable {w : Weather} {u : SegmentUpload} {st : State} {spool : Spool}

theorem encoded_ne_nil (u : SegmentUpload) : 0 < u.encoded.length := by
  have h := JsonValue.length_encode u.toJson
  rw [SegmentUpload.toJson, JsonValue.marshal, List.cons_append, List.length_cons] at h
  rw [SegmentUpload.encoded, SegmentUpload.toJson]
  omega

/-- What sealing an envelope can come to. -/
inductive Sealing (env : Env) (config : Config) (u : SegmentUpload) (st : State) (spool : Spool) :
    Spool × State × Ended → Prop where
  | different {p : PendingFile} (hp : spool.pending.get (segmentName env u) = some p)
      (hne : p.upload.encoded ≠ u.encoded) :
      Sealing env config u st spool (spool, st, .failed .different)
  | again {p : PendingFile} (hp : spool.pending.get (segmentName env u) = some p)
      (he : p.upload.encoded = u.encoded) :
      Sealing env config u st spool (spool, advance st u, .ok)
  | full (hnone : spool.pending.get (segmentName env u) = none)
      (hfull : config.maxSpoolBytes < sizes spool.pending + spool.strays + u.encoded.length) :
      Sealing env config u st spool (spool, st,
        .failed (.quota (directoryBytes spool config.maxSpoolBytes) config.maxSpoolBytes))
  | stored (hnone : spool.pending.get (segmentName env u) = none)
      (hroom : sizes spool.pending + spool.strays + u.encoded.length ≤ config.maxSpoolBytes) :
      Sealing env config u st spool (store env spool u, advance st u, .ok)
  | interrupted {strays : Nat} {ended : Ended}
      (hnone : spool.pending.get (segmentName env u) = none)
      (hroom : sizes spool.pending + spool.strays + u.encoded.length ≤ config.maxSpoolBytes)
      (hended : ended = .crashed ∨ ∃ m, ended = .failed (.os m)) (landed : Bool) :
      Sealing env config u st spool
        ({ (if landed then store env spool u else spool) with strays := strays }, st, ended)

theorem spoolSegment_spec : Sealing env config u st spool (spoolSegment env config w u st spool) := by
  have hpos := encoded_ne_nil u
  unfold spoolSegment
  cases hp : spool.pending.get (segmentName env u) with
  | some p =>
    by_cases he : p.upload.encoded = u.encoded
    · simp only [he, ne_eq, not_true_eq_false, if_false]
      exact .again hp he
    · simp only [ne_eq, he, not_false_eq_true, if_true]
      exact .different hp he
  | none =>
    have hused : directoryBytes spool config.maxSpoolBytes =
        min (sizes spool.pending + spool.strays) config.maxSpoolBytes := rfl
    by_cases hfull : config.maxSpoolBytes - directoryBytes spool config.maxSpoolBytes <
        u.encoded.length
    · simp only [hfull, if_true]
      exact .full hp (by omega)
    · have hroom : sizes spool.pending + spool.strays + u.encoded.length ≤
          config.maxSpoolBytes := by omega
      simp only [hfull, if_false]
      cases w.write with
      | done => exact .stored hp hroom
      | error m landed =>
        exact @Sealing.interrupted env config u st spool
          (if landed then store env spool u else spool).strays _ hp hroom (Or.inr ⟨m, rfl⟩) landed
      | crash landed stray => exact .interrupted hp hroom (Or.inl rfl) landed

end Sealing

/-- What an entry of the capture directory hands to `spoolPayload`. -/
structure Offer where
  streamId : String
  payload : Bytes
  records : Nat
deriving DecidableEq, Repr

variable (env go) in
def offered (name : String) (content : Bytes) (state : State) : Option Offer :=
  if hasSuffix name "-summary.json" then
    if maxSummaryBytes < content.length ∨ (state.files name).digest = env.sha256 content then none
    else (compactSummary go name content).toOption.map (fun p => ⟨"rank-summary", p, 1⟩)
  else if hasSuffix name "-events.jsonl" then
    if content.length < (state.files name).offset then none
    else
      match completeNDJSON go ((content.drop (state.files name).offset).take (8 * 1024 * 1024)) with
      | .error _ => none
      | .ok (payload, records) =>
        if records = 0 then none else some ⟨"mpi-events", payload, records⟩
  else none

/-- The cursor after the offer is spooled. -/
def cursorAfter (env : Env) (name : String) (content : Bytes) (state : State) (o : Offer) :
    FileCursor :=
  if hasSuffix name "-summary.json" then
    { state.files name with digest := env.sha256 content }
  else { state.files name with offset := (state.files name).offset + o.payload.length }

theorem collectEntry_offered {w : Weather} {name : String} {content : Bytes} {st : State}
    {spool : Spool} {o : Offer} (hw : w.source = none)
    (ho : offered env go name content st = some o) :
    collectEntry env go config w name content st spool =
      spoolEntry env config w name o.streamId o.payload o.records
        (cursorAfter env name content st o) st spool := by
  unfold offered at ho
  unfold collectEntry cursorAfter
  rw [hw]
  by_cases hsummary : hasSuffix name "-summary.json" = true
  · simp only [hsummary, if_true] at ho ⊢
    by_cases hskip : maxSummaryBytes < content.length ∨
        (st.files name).digest = env.sha256 content
    · rw [if_pos hskip] at ho
      cases ho
    · rw [if_neg hskip] at ho
      obtain ⟨hsize, hdigest⟩ := not_or.mp hskip
      obtain ⟨payload, hpayload, rfl⟩ := Option.map_eq_some_iff.mp ho
      unfold collectSummary
      rw [if_neg hsize, if_neg hdigest]
      cases hc : compactSummary go name content with
      | error e =>
        rw [hc] at hpayload
        cases hpayload
      | ok p =>
        rw [hc] at hpayload
        obtain rfl := Option.some.inj hpayload
        rfl
  · simp only [hsummary] at ho ⊢
    by_cases hevents : hasSuffix name "-events.jsonl" = true
    · simp only [hevents, if_true, Bool.false_eq_true, if_false] at ho ⊢
      unfold collectEvents
      by_cases htrunc : content.length < (st.files name).offset
      · rw [if_pos htrunc] at ho
        cases ho
      · rw [if_neg htrunc] at ho ⊢
        cases hc : completeNDJSON go
            ((content.drop (st.files name).offset).take (8 * 1024 * 1024)) with
        | error e =>
          rw [hc] at ho
          cases ho
        | ok r =>
          obtain ⟨payload, records⟩ := r
          rw [hc] at ho
          by_cases hzero : records = 0
          · simp only [hzero, if_true] at ho
            cases ho
          · simp only [hzero, if_false] at ho ⊢
            obtain rfl := Option.some.inj ho
            rfl
    · simp only [hevents] at ho
      cases ho

/-- An error of the capture, not of the spool. -/
def Foreign (e : Error) : Prop := e ≠ .different ∧ ∀ used limit, e ≠ .quota used limit

theorem countEvents_error {lines : List Bytes} {e : Error} (h : countEvents go lines = .error e) :
    e = .recordTooLong ∨ e = .invalidEvent := by
  induction lines with
  | nil => cases h
  | cons line lines ih =>
    unfold countEvents at h
    split_ifs at h
    · exact ih h
    · cases h
      exact Or.inl rfl
    · cases h
      exact Or.inr rfl
    · cases hc : countEvents go lines with
      | error e' =>
        rw [hc] at h
        cases h
        exact ih hc
      | ok n =>
        rw [hc] at h
        cases h

theorem completeNDJSON_foreign {content : Bytes} {e : Error}
    (h : completeNDJSON go content = .error e) : Foreign e := by
  have h : (countEvents go (splitLines [] (completePrefix content))).map
      (fun count => (completePrefix content, count)) = .error e := h
  cases hc : countEvents go (splitLines [] (completePrefix content)) with
  | ok n =>
    rw [hc] at h
    cases h
  | error e' =>
    rw [hc] at h
    cases h
    obtain rfl | rfl := countEvents_error hc
    all_goals exact ⟨Error.noConfusion, fun _ _ => Error.noConfusion⟩

theorem collectEntry_idle {w : Weather} {name : String} {content : Bytes} {st : State}
    {spool : Spool} (h : w.source = none → offered env go name content st = none) :
    ∃ ended, collectEntry env go config w name content st spool = (spool, st, ended) ∧
      ended ≠ .crashed ∧ ∀ e, ended = .failed e → Foreign e := by
  have hfailed : ∀ e, Foreign e → collectEntry env go config w name content st spool =
      (spool, st, .failed e) → ∃ ended, collectEntry env go config w name content st spool =
        (spool, st, ended) ∧ ended ≠ .crashed ∧ ∀ e, ended = .failed e → Foreign e := by
    intro e he hc
    refine ⟨.failed e, hc, Ended.noConfusion, fun e' he' => ?_⟩
    cases he'
    exact he
  have hok : collectEntry env go config w name content st spool = (spool, st, .ok) →
      ∃ ended, collectEntry env go config w name content st spool = (spool, st, ended) ∧
        ended ≠ .crashed ∧ ∀ e, ended = .failed e → Foreign e :=
    fun hc => ⟨.ok, hc, Ended.noConfusion, fun _ he => nomatch he⟩
  cases hw : w.source with
  | some m =>
    refine hfailed (.os m) ⟨Error.noConfusion, fun _ _ => Error.noConfusion⟩ ?_
    rw [collectEntry, hw]
  | none =>
    have ho := h hw
    unfold offered at ho
    by_cases hsummary : hasSuffix name "-summary.json" = true
    · have hentry : collectEntry env go config w name content st spool =
          collectSummary env go config w name content st spool := by
        rw [collectEntry, hw]
        exact if_pos hsummary
      simp only [hsummary, if_true] at ho
      unfold collectSummary at hentry
      by_cases hsize : maxSummaryBytes < content.length
      · rw [if_pos hsize] at hentry
        exact hfailed _ ⟨Error.noConfusion, fun _ _ => Error.noConfusion⟩ hentry
      · by_cases hdigest : (st.files name).digest = env.sha256 content
        · rw [if_neg hsize, if_pos hdigest] at hentry
          exact hok hentry
        · rw [if_neg (not_or.mpr ⟨hsize, hdigest⟩)] at ho
          rw [if_neg hsize, if_neg hdigest] at hentry
          cases hc : compactSummary go name content with
          | ok p =>
            rw [hc] at ho
            cases ho
          | error e =>
            rw [hc] at hentry
            refine hfailed e ?_ hentry
            unfold compactSummary at hc
            cases hu : go.unmarshal content with
            | none =>
              rw [hu] at hc
              cases hc
              exact ⟨Error.noConfusion, fun _ _ => Error.noConfusion⟩
            | some summary =>
              rw [hu] at hc
              cases hc
    · by_cases hevents : hasSuffix name "-events.jsonl" = true
      · have hentry : collectEntry env go config w name content st spool =
            collectEvents env go config w name content st spool := by
          rw [collectEntry, hw]
          exact (if_neg hsummary).trans (if_pos hevents)
        simp only [hsummary, hevents, if_true, Bool.false_eq_true, if_false] at ho
        unfold collectEvents at hentry
        by_cases htrunc : content.length < (st.files name).offset
        · rw [if_pos htrunc] at hentry
          exact hfailed _ ⟨Error.noConfusion, fun _ _ => Error.noConfusion⟩ hentry
        · rw [if_neg htrunc] at ho hentry
          cases hc : completeNDJSON go
              ((content.drop (st.files name).offset).take (8 * 1024 * 1024)) with
          | error e =>
            rw [hc] at hentry
            exact hfailed e (completeNDJSON_foreign hc) hentry
          | ok r =>
            obtain ⟨payload, records⟩ := r
            rw [hc] at ho hentry
            by_cases hzero : records = 0
            · simp only [hzero, if_true] at hentry
              exact hok hentry
            · simp only [hzero, if_false] at ho
              cases ho
      · refine hok ?_
        rw [collectEntry, hw]
        exact (if_neg hsummary).trans (if_neg hevents)

section Lines

/-- Nothing, or whole lines. -/
def Terminated (payload : Bytes) : Prop := payload = [] ∨ ∃ xs, payload = xs ++ [10]

/-- The lines that have ended. -/
def eventLines (content : Bytes) : List Bytes := (splitLines [] content).dropLast

theorem splitLines_ne_nil (line content : Bytes) : splitLines line content ≠ [] := by
  induction content generalizing line with
  | nil => exact List.cons_ne_nil _ _
  | cons b content ih =>
    unfold splitLines
    split_ifs
    · exact List.cons_ne_nil _ _
    · exact ih _

theorem splitLines_append (line xs content : Bytes) :
    splitLines line (xs ++ 10 :: content) =
      (splitLines line (xs ++ [10])).dropLast ++ splitLines [] content := by
  induction xs generalizing line with
  | nil =>
    have hone : splitLines line [10] = [line.reverse, []] := rfl
    rw [List.nil_append, List.nil_append, hone, splitLines, if_pos rfl]
    rfl
  | cons b xs ih =>
    rw [List.cons_append, List.cons_append, splitLines, splitLines]
    by_cases hb : b = 10
    · rw [if_pos hb, if_pos hb, ih, List.dropLast_cons_of_ne_nil (splitLines_ne_nil _ _),
        List.cons_append]
    · rw [if_neg hb, if_neg hb, ih]

theorem eventLines_append {payload : Bytes} (h : Terminated payload) (content : Bytes) :
    eventLines (payload ++ content) = eventLines payload ++ eventLines content := by
  obtain rfl | ⟨xs, rfl⟩ := h
  · rfl
  · rw [eventLines, List.append_assoc, List.singleton_append, splitLines_append,
      List.dropLast_append_of_ne_nil (splitLines_ne_nil _ _), eventLines, eventLines]

theorem completePrefix_take (content : Bytes) : completePrefix content <+: content := by
  have h := List.dropWhile_suffix (fun b => b != 10) (l := content.reverse)
  rw [← List.reverse_prefix, List.reverse_reverse] at h
  exact h

theorem completePrefix_terminated (content : Bytes) : Terminated (completePrefix content) := by
  unfold completePrefix
  cases hd : content.reverse.dropWhile (fun b => b != 10) with
  | nil => exact Or.inl rfl
  | cons b bs =>
    have hne : content.reverse.dropWhile (fun b => b != 10) ≠ [] := by
      rw [hd]
      exact List.cons_ne_nil b bs
    have hb := List.head_dropWhile_not (fun b => b != 10) hne
    simp only [hd, List.head_cons, bne_eq_false_iff_eq] at hb
    exact Or.inr ⟨bs.reverse, by rw [List.reverse_cons, hb]⟩

theorem countEvents_le {lines : List Bytes} {n : Nat} (h : countEvents go lines = .ok n) :
    n ≤ lines.length := by
  induction lines generalizing n with
  | nil =>
    cases h
    exact Nat.le_refl 0
  | cons line lines ih =>
    unfold countEvents at h
    split_ifs at h
    · exact Nat.le_succ_of_le (ih h)
    · cases hc : countEvents go lines with
      | error e =>
        rw [hc] at h
        cases h
      | ok m =>
        rw [hc] at h
        cases h
        exact Nat.succ_le_succ (ih hc)

theorem length_splitLines (line content : Bytes) :
    (splitLines line content).length ≤ content.length + 1 := by
  induction content generalizing line with
  | nil => exact Nat.le_refl 1
  | cons b content ih =>
    unfold splitLines
    split_ifs
    · rw [List.length_cons, List.length_cons]
      exact Nat.succ_le_succ (ih _)
    · exact Nat.le_succ_of_le (ih _)

end Lines

variable (go) in
/-- The records of a payload, by the rule of its stream. -/
def recordsOf (streamId : String) (payload : Bytes) : Option Nat :=
  if streamId = "mpi-events" then (countEvents go (splitLines [] payload)).toOption
  else if streamId = "rank-summary" then some 1
  else none

structure Offered (go : Go) (name : String) (content : Bytes) (state : State) (o : Offer) :
    Prop where
  records : recordsOf go o.streamId o.payload = some o.records
  positive : 0 < o.records
  bounded : o.records ≤ o.payload.length + 1
  terminated : Terminated o.payload
  events : o.streamId = "mpi-events" → ¬ hasSuffix name "-summary.json" ∧
    (state.files name).offset ≤ content.length ∧
      o.payload <+: content.drop (state.files name).offset
  summary : o.streamId ≠ "mpi-events" → hasSuffix name "-summary.json"

theorem offered_spec {name : String} {content : Bytes} {st : State} {o : Offer}
    (h : offered env go name content st = some o) : Offered go name content st o := by
  unfold offered at h
  by_cases hsummary : hasSuffix name "-summary.json" = true
  · simp only [hsummary, if_true] at h
    split_ifs at h
    obtain ⟨payload, hpayload, rfl⟩ := Option.map_eq_some_iff.mp h
    have hterminated : Terminated payload := by
      unfold compactSummary at hpayload
      cases hu : go.unmarshal content with
      | none =>
        rw [hu] at hpayload
        cases hpayload
      | some summary =>
        rw [hu] at hpayload
        obtain rfl := Option.some.inj hpayload
        exact Or.inr ⟨_, rfl⟩
    exact ⟨rfl, Nat.one_pos, Nat.le_add_left 1 _, hterminated,
      fun he => absurd (show "rank-summary" = "mpi-events" from he) (by decide),
      fun _ => hsummary⟩
  · simp only [hsummary, Bool.false_eq_true, if_false] at h
    split_ifs at h with hevents htrunc
    generalize hwindow : (content.drop (st.files name).offset).take (8 * 1024 * 1024) = window at h
    cases hc : countEvents go (splitLines [] (completePrefix window)) with
    | error e =>
      have hn : completeNDJSON go window = .error e := by
        show Except.map _ (countEvents go (splitLines [] (completePrefix window))) = _
        rw [hc]
        rfl
      rw [hn] at h
      cases h
    | ok records =>
      have hn : completeNDJSON go window = .ok (completePrefix window, records) := by
        show Except.map _ (countEvents go (splitLines [] (completePrefix window))) = _
        rw [hc]
        rfl
      rw [hn] at h
      by_cases hzero : records = 0
      · simp only [hzero, if_true] at h
        cases h
      · simp only [hzero, if_false] at h
        obtain rfl := Option.some.inj h
        have hprefix := (completePrefix_take window).trans
          (hwindow ▸ List.take_prefix (8 * 1024 * 1024) (content.drop (st.files name).offset))
        refine ⟨?_, Nat.pos_of_ne_zero hzero, ?_, completePrefix_terminated window,
          fun _ => ⟨hsummary, Nat.le_of_not_lt htrunc, hprefix⟩, fun he => absurd rfl he⟩
        · rw [recordsOf, if_pos rfl, hc]
          rfl
        · exact (countEvents_le hc).trans (length_splitLines [] _)

end Agent

end RankLens
