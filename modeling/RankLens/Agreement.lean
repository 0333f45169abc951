import RankLens.Reportable
import RankLens.Spooling

namespace RankLens

namespace Agent

open Projection (written countRecords_ok_iff)

/-- `len(bytes.TrimSpace(line)) == 0`: the line is made of the blanks of Unicode, in UTF-8. -/
def unicodeBlank : Bytes → Bool
  | [] => true
  | 0xC2 :: 0x85 :: rest => unicodeBlank rest
  | 0xC2 :: 0xA0 :: rest => unicodeBlank rest
  | 0xE1 :: 0x9A :: 0x80 :: rest => unicodeBlank rest
  | 0xE2 :: 0x81 :: 0x9F :: rest => unicodeBlank rest
  | 0xE3 :: 0x80 :: 0x80 :: rest => unicodeBlank rest
  | 0xE2 :: 0x80 :: b :: rest =>
    (0x80 ≤ b && b ≤ 0x8A || b = 0xA8 || b = 0xA9 || b = 0xAF) && unicodeBlank rest
  | b :: rest => (b = 32 || (9 ≤ b && b ≤ 13)) && unicodeBlank rest

/-- The lines Python makes of a line. -/
def parts (line : Bytes) : List Bytes := splitlines [] (line ++ [10])

/-- The server sees of a line what the agent sees: a blank line has no more than the blanks of
ASCII, and another has its text in one piece between its carriage returns, which is an object
for Python. -/
def Alike (env : Env) (line : Bytes) : Prop :=
  if unicodeBlank line = true then blank line = true
  else ∃ part, written (parts line) = [part] ∧ env.loads part = .object

section agreement

variable {env : Env} {unmarshal : Bytes → Option (List (String × JsonValue))} {go : Go}
  {lines : List Bytes} {n : Nat}

theorem unicodeBlank_ascii {b : UInt8} {line : Bytes}
    (hb : (b = 32 || (9 ≤ b && b ≤ 13)) = true) : unicodeBlank (b :: line) = unicodeBlank line := by
  have hascii : b ≠ 0xC2 ∧ b ≠ 0xE1 ∧ b ≠ 0xE2 ∧ b ≠ 0xE3 := by
    refine ⟨?_, ?_, ?_, ?_⟩
    all_goals
      rintro rfl
      exact absurd hb (by decide)
  rw [unicodeBlank, hb, Bool.true_and]
  all_goals
    intros
    simp_all

theorem unicodeBlank_of_blank {line : Bytes} (h : blank line = true) : unicodeBlank line = true := by
  induction line with
  | nil => rfl
  | cons b line ih =>
    rw [blank, List.all_cons, Bool.and_eq_true] at h
    rw [unicodeBlank_ascii h.1]
    exact ih h.2

theorem countEvents_ok (h : countEvents go lines = .ok n) :
    n = (lines.filter (fun line => !go.blank line)).length := by
  induction lines generalizing n with
  | nil =>
    cases h
    rfl
  | cons line lines ih =>
    rw [countEvents] at h
    split at h
    · next hb =>
      rw [List.filter_cons_of_neg (by simp [hb])]
      exact ih h
    · next hb =>
      split at h
      · cases h
      · split at h
        · cases h
        · cases hrest : countEvents go lines with
          | error e =>
            rw [hrest] at h
            cases h
          | ok m =>
            rw [hrest] at h
            cases h
            rw [List.filter_cons_of_pos (by simp [hb]), List.length_cons, ← ih hrest]

theorem splitlines_append (line xs rest : Bytes) :
    splitlines line (xs ++ 10 :: rest) = splitlines line (xs ++ [10]) ++ splitlines [] rest := by
  induction hlen : xs.length using Nat.strong_induction_on generalizing xs line with
  | _ len ih =>
    cases xs with
    | nil => simp [splitlines]
    | cons b xs =>
      by_cases hb : b = 13
      · subst hb
        cases xs with
        | nil => simp [splitlines]
        | cons c xs =>
          by_cases hc : c = 10
          · subst hc
            have hrest := ih xs.length (by simp at hlen; omega) [] xs rfl
            simp [splitlines, hrest]
          · have hrest := ih (c :: xs).length (by simp at hlen ⊢; omega) [] (c :: xs) rfl
            rw [List.cons_append, List.cons_append] at hrest
            simp [splitlines, hc, hrest]
      · by_cases hb' : b = 10
        · have hrest := ih xs.length (by simp at hlen; omega) [] xs rfl
          simp [splitlines, hb', hrest]
        · have hrest := ih xs.length (by simp at hlen; omega) (b :: line) xs rfl
          simp [splitlines, hb, hb', hrest]

theorem splitlines_lines (line content : Bytes)
    (h : (content = [] ∧ line = []) ∨ ∃ xs, content = xs ++ [10]) :
    splitlines [] (line.reverse ++ content) = ((splitLines line content).dropLast).flatMap parts := by
  induction content generalizing line with
  | nil =>
    obtain ⟨_, rfl⟩ | ⟨xs, hxs⟩ := h
    · rfl
    · simp at hxs
  | cons b content ih =>
    obtain ⟨hnil, _⟩ | ⟨xs, hxs⟩ := h
    · cases hnil
    by_cases hb : b = 10
    · subst hb
      have hrest : (content = [] ∧ ([] : Bytes) = []) ∨ ∃ ys, content = ys ++ [10] := by
        cases xs with
        | nil => exact Or.inl ⟨by simpa using hxs, rfl⟩
        | cons x xs => exact Or.inr ⟨xs, by simpa using (List.cons.inj hxs).2⟩
      rw [splitlines_append, splitLines, if_pos rfl,
        List.dropLast_cons_of_ne_nil (splitLines_ne_nil _ _), List.flatMap_cons]
      exact congrArg _ (ih [] hrest)
    · have hrest : ∃ ys, content = ys ++ [10] := by
        cases xs with
        | nil => exact absurd (List.cons.inj hxs).1 hb
        | cons x xs => exact ⟨xs, by simpa using (List.cons.inj hxs).2⟩
      have hnext := ih (b :: line) (Or.inr hrest)
      rw [List.reverse_cons, List.append_assoc, List.singleton_append] at hnext
      rw [splitLines, if_neg hb]
      exact hnext

theorem blank_splitlines (line xs : Bytes) :
    (∀ part ∈ splitlines line xs, blank part = true) ↔ blank line = true ∧ blank xs = true := by
  induction line, xs using splitlines.induct with
  | case1 line hempty =>
    rw [List.isEmpty_iff] at hempty
    subst hempty
    simp [splitlines, blank]
  | case2 line hempty => 
    rw [splitlines, if_neg hempty]
    simp [blank]
  | case3 line rest ih =>
    rw [splitlines, List.forall_mem_cons, ih]
    simp [blank]
  | case4 line b rest hnext hb ih =>
    rw [splitlines, if_pos hb, List.forall_mem_cons, ih]
    · obtain rfl | rfl := hb
      all_goals simp [blank]
    · exact hnext
  | case5 line b rest hnext hb ih =>
    rw [splitlines, if_neg hb, ih]
    · simp only [blank, List.all_cons, Bool.and_eq_true]
      tauto
    · exact hnext

theorem written_parts {line : Bytes} : written (parts line) = [] ↔ blank line = true := by
  have hall : written (parts line) = [] ↔ ∀ part ∈ parts line, blank part = true := by
    simp only [written, List.filter_eq_nil_iff, Bool.not_eq_true, Bool.not_eq_false']
  have hfeed : blank (line ++ [10]) = blank line := by
    rw [blank, List.all_append, blank]
    exact Bool.and_true _
  rw [hall, parts, blank_splitlines, hfeed]
  exact and_iff_right rfl

/-- One record of the agent is one object of Python. -/
theorem alike_iff {line : Bytes} : Alike env line ↔
    (∀ part ∈ written (parts line), env.loads part = .object) ∧
      (written (parts line)).length = if unicodeBlank line = true then 0 else 1 := by
  unfold Alike
  by_cases hline : unicodeBlank line = true
  · rw [if_pos hline, if_pos hline, List.length_eq_zero_iff, written_parts]
    constructor
    · intro h
      rw [written_parts.mpr h]
      exact ⟨List.forall_mem_nil _, h⟩
    · exact And.right
  · rw [if_neg hline, if_neg hline, List.length_eq_one_iff]
    constructor
    · rintro ⟨part, hpart, hobject⟩
      rw [hpart]
      exact ⟨List.forall_mem_singleton.mpr hobject, part, rfl⟩
    · rintro ⟨hobject, part, hpart⟩
      exact ⟨part, hpart, hobject part (by simp [hpart])⟩

theorem record_le (line : Bytes) :
    (if unicodeBlank line = true then 0 else 1) ≤ (written (parts line)).length := by
  split_ifs with hline
  · exact Nat.zero_le _
  · exact List.length_pos_of_ne_nil
      (fun hnil => hline (unicodeBlank_of_blank (written_parts.mp hnil)))

theorem records_le (lines : List Bytes) :
    (lines.filter (fun line => !unicodeBlank line)).length ≤
      (lines.flatMap (fun line => written (parts line))).length := by
  induction lines with
  | nil => exact Nat.le_refl 0
  | cons line lines ih =>
    have hline := record_le line
    rw [List.flatMap_cons, List.length_append]
    by_cases hb : unicodeBlank line = true
    · rw [List.filter_cons_of_neg (by simp [hb])]
      omega
    · rw [if_neg hb] at hline
      rw [List.filter_cons_of_pos (by simp [hb]), List.length_cons]
      omega

theorem alike_all : (∀ line ∈ lines, Alike env line) ↔
    (∀ part ∈ lines.flatMap (fun line => written (parts line)), env.loads part = .object) ∧
      (lines.flatMap (fun line => written (parts line))).length =
        (lines.filter (fun line => !unicodeBlank line)).length := by
  induction lines with
  | nil => simp
  | cons line lines ih =>
    have hline := record_le line
    have hlines := records_le lines
    have hcount : ((line :: lines).filter (fun line => !unicodeBlank line)).length =
        (if unicodeBlank line = true then 0 else 1) +
          (lines.filter (fun line => !unicodeBlank line)).length := by
      by_cases hb : unicodeBlank line = true
      · rw [List.filter_cons_of_neg (by simp [hb]), if_pos hb, Nat.zero_add]
      · rw [List.filter_cons_of_pos (by simp [hb]), if_neg hb, List.length_cons, Nat.add_comm]
    rw [List.forall_mem_cons, ih, alike_iff, List.flatMap_cons, List.forall_mem_append,
      List.length_append, hcount]
    constructor
    · rintro ⟨⟨hfirst, hone⟩, hrest, hsum⟩
      exact ⟨⟨hfirst, hrest⟩, by omega⟩
    · rintro ⟨⟨hfirst, hrest⟩, hsum⟩
      exact ⟨⟨hfirst, by omega⟩, hrest, by omega⟩

theorem written_flatMap : written (lines.flatMap parts) =
    lines.flatMap (fun line => written (parts line)) :=
  List.filter_flatMap

theorem splitLines_terminated {payload : Bytes} (h : Terminated payload) :
    splitLines [] payload = eventLines payload ++ [[]] := by
  obtain rfl | ⟨xs, rfl⟩ := h
  · rfl
  · rw [splitLines_append, eventLines]
    rfl

/-- **The agent and the server count the same records in a payload exactly when they see every
line of it alike.** -/
theorem ndjson_agreement {content payload : Bytes}
    (h : completeNDJSON ⟨unicodeBlank, unmarshal⟩ content = .ok (payload, n)) :
    IngestionService.countRecords env 1 (splitlines [] payload) = .ok n ↔
      ∀ line ∈ eventLines payload, Alike env line := by
  obtain ⟨rfl, hcount⟩ : completePrefix content = payload ∧
      countEvents ⟨unicodeBlank, unmarshal⟩ (splitLines [] (completePrefix content)) = .ok n := by
    have h : (countEvents ⟨unicodeBlank, unmarshal⟩ (splitLines [] (completePrefix content))).map
        (fun count => (completePrefix content, count)) = .ok (payload, n) := h
    cases hc : countEvents ⟨unicodeBlank, unmarshal⟩ (splitLines [] (completePrefix content)) with
    | error e =>
      rw [hc] at h
      cases h
    | ok m =>
      rw [hc] at h
      cases h
      exact ⟨rfl, rfl⟩
  have hterminated := completePrefix_terminated content
  have hn := countEvents_ok hcount
  rw [splitLines_terminated hterminated, List.filter_append, List.length_append] at hn
  have hlines := splitlines_lines [] (completePrefix content)
    (hterminated.imp (fun hnil => ⟨hnil, rfl⟩) id)
  rw [List.reverse_nil, List.nil_append] at hlines
  rw [hlines, countRecords_ok_iff, alike_all, written_flatMap, hn]
  rfl

end agreement

end Agent

namespace Sample

/-- The record of one member `a`, with a carriage return before its value. -/
def brokenRecord : Bytes := [123, 34, 97, 34, 58, 13, 49, 125]

/-- `json.Unmarshal` on the lines below. -/
def unmarshal (line : Bytes) : Option (List (String × JsonValue)) :=
  if line = [123, 125] ∨ line = [123, 125, 13] then some []
  else if line = brokenRecord then some [("a", .number 1)]
  else none

end Sample

namespace Agent

theorem ndjson_agreement_sample :
    IngestionService.countRecords Sample.env 1 (splitlines [] [123, 125, 13, 10]) = .ok 1 := by
  have hagent : completeNDJSON ⟨unicodeBlank, Sample.unmarshal⟩ [123, 125, 13, 10] =
      .ok ([123, 125, 13, 10], 1) := by decide +kernel
  refine (ndjson_agreement hagent).mpr (fun line hline => ?_)
  obtain rfl : line = [123, 125, 13] := by
    have hlines : eventLines [123, 125, 13, 10] = [[123, 125, 13]] := by decide +kernel
    rw [hlines] at hline
    exact List.mem_singleton.mp hline
  rw [Alike, if_neg (by decide +kernel)]
  exact ⟨[123, 125], by decide +kernel, rfl⟩

/-- Python ends a line where the agent goes on, and has text where the agent has a blank. -/
theorem carriage_return_refused :
    (completeNDJSON ⟨unicodeBlank, Sample.unmarshal⟩ (Sample.brokenRecord ++ [10]) =
        .ok (Sample.brokenRecord ++ [10], 1) ∧
      (Sample.brokenRecord ++ [10]).length ≤ maxSegmentBytes ∧
      IngestionService.countRecords Sample.env 1 (splitlines [] (Sample.brokenRecord ++ [10])) =
        .error (.admission "invalid_ndjson" "payload record 1 is not valid JSON" 400 false)) ∧
    completeNDJSON ⟨unicodeBlank, Sample.unmarshal⟩ [123, 125, 10, 0xC2, 0xA0, 10] =
        .ok ([123, 125, 10, 0xC2, 0xA0, 10], 1) ∧
      IngestionService.countRecords Sample.env 1 (splitlines [] [123, 125, 10, 0xC2, 0xA0, 10]) =
        .error (.admission "invalid_ndjson" "payload record 2 is not valid JSON" 400 false) := by
  refine ⟨⟨?_, ?_, ?_⟩, ?_, ?_⟩
  all_goals decide +kernel

end Agent

end RankLens
