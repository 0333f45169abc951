import Mathlib.Data.List.Basic

namespace RankLens

namespace Csv

/-- The characters a table is laid out with. -/
structure Dialect (α : Type) where
  delimiter : α
  quote : α
  cr : α
  lf : α
  distinct : quote ≠ delimiter ∧ cr ≠ delimiter ∧ lf ≠ delimiter ∧ cr ≠ quote ∧ lf ≠ quote ∧
    lf ≠ cr

variable {α : Type} [DecidableEq α] (d : Dialect α)

section writer

def special (c : α) : Bool := c = d.delimiter || c = d.quote || c = d.cr || c = d.lf

def escaped (c : α) : List α := if c = d.quote then [c, c] else [c]

/-- A field, in quotes when it holds a character of the layout. -/
def field (xs : List α) : List α :=
  if xs.any (special d) then d.quote :: xs.flatMap (escaped d) ++ [d.quote] else xs

def joined : List (List α) → List α
  | [] => []
  | [xs] => field d xs
  | xs :: ys :: rest => field d xs ++ d.delimiter :: joined (ys :: rest)

/-- A record; the quotes tell an empty field from no field. -/
def record (fields : List (List α)) : List α :=
  (if fields = [[]] then [d.quote, d.quote] else joined d fields) ++ [d.cr, d.lf]

def write (records : List (List (List α))) : List α := records.flatMap (record d)

end writer

section reader

inductive Mode where
  | startRecord
  | startField
  | inField
  | quoted
  | closing
  | afterCr
deriving DecidableEq

structure State (α : Type) where
  mode : Mode
  field : List α
  record : List (List α)
  records : List (List (List α))

def State.initial : State α := ⟨.startRecord, [], [], []⟩

def State.endField (s : State α) : State α :=
  { s with mode := .startField, field := [], record := s.record ++ [s.field] }

def State.endRecord (s : State α) (mode : Mode) : State α :=
  ⟨mode, [], [], s.records ++ [s.record ++ [s.field]]⟩

def State.blank (s : State α) (mode : Mode) : State α :=
  { s with mode, records := s.records ++ [[]] }

def State.push (s : State α) (mode : Mode) (c : α) : State α :=
  { s with mode, field := s.field ++ [c] }

def plain (s : State α) (c : α) : State α :=
  if c = d.delimiter then s.endField
  else if c = d.cr then s.endRecord .afterCr
  else if c = d.lf then s.endRecord .startRecord
  else s.push .inField c

def start (s : State α) (c : α) : State α :=
  if c = d.quote then { s with mode := .quoted } else plain d s c

def first (s : State α) (c : α) : State α :=
  if c = d.cr then s.blank .afterCr
  else if c = d.lf then s.blank .startRecord
  else start d s c

def step (s : State α) (c : α) : State α :=
  match s.mode with
  | .startRecord => first d s c
  | .startField => start d s c
  | .inField => plain d s c
  | .quoted => if c = d.quote then { s with mode := .closing } else s.push .quoted c
  | .closing => if c = d.quote then s.push .quoted c else plain d s c
  | .afterCr => if c = d.lf then { s with mode := .startRecord } else first d s c

def State.finish (s : State α) : List (List (List α)) :=
  match s.mode with
  | .startRecord => s.records
  | .afterCr => s.records
  | _ => s.records ++ [s.record ++ [s.field]]

def read (text : List α) : List (List (List α)) := (text.foldl (step d) .initial).finish

end reader

section fields

variable {d} {xs : List α} {record : List (List α)} {records : List (List (List α))}

/-- A field is read: what ends it comes next. -/
inductive Held (d : Dialect α) (xs : List α) (record : List (List α))
    (records : List (List (List α))) : State α → Prop where
  | empty (h : xs = []) : Held d xs record records ⟨.startField, [], record, records⟩
  | bare : Held d xs record records ⟨.inField, xs, record, records⟩
  | closed : Held d xs record records ⟨.closing, xs, record, records⟩

theorem quoted_read (ys : List α) :
    (xs.flatMap (escaped d)).foldl (step d) ⟨.quoted, ys, record, records⟩ =
      ⟨.quoted, ys ++ xs, record, records⟩ := by
  induction xs generalizing ys with
  | nil => rw [List.flatMap_nil, List.foldl_nil, List.append_nil]
  | cons c xs ih =>
    have here : (escaped d c).foldl (step d) ⟨.quoted, ys, record, records⟩ =
        ⟨.quoted, ys ++ [c], record, records⟩ := by
      unfold escaped
      by_cases h : c = d.quote
      · rw [if_pos h]
        simp [step, h, State.push]
      · rw [if_neg h]
        simp [step, h, State.push]
    rw [List.flatMap_cons, List.foldl_append, here, ih, List.append_assoc, List.singleton_append]

theorem bare_read (ys : List α) (h : xs.any (special d) = false) :
    xs.foldl (step d) ⟨.inField, ys, record, records⟩ = ⟨.inField, ys ++ xs, record, records⟩ := by
  induction xs generalizing ys with
  | nil => rw [List.foldl_nil, List.append_nil]
  | cons c xs ih =>
    rw [List.any_cons, Bool.or_eq_false_iff] at h
    have here := h.1
    simp only [special, Bool.or_eq_false_iff, decide_eq_false_iff_not] at here
    have next : step d ⟨.inField, ys, record, records⟩ c =
        ⟨.inField, ys ++ [c], record, records⟩ := by
      simp [step, plain, State.push, here]
    rw [List.foldl_cons, next, ih _ h.2, List.append_assoc, List.singleton_append]

theorem field_read : Held d xs record records
    ((field d xs).foldl (step d) ⟨.startField, [], record, records⟩) := by
  unfold field
  split
  · rename_i h
    have opens : step d ⟨.startField, [], record, records⟩ d.quote =
        ⟨.quoted, [], record, records⟩ := by
      simp [step, start]
    have closes : step d ⟨.quoted, xs, record, records⟩ d.quote =
        ⟨.closing, xs, record, records⟩ := by
      simp [step]
    rw [List.cons_append, List.foldl_cons, opens, List.foldl_append, quoted_read, List.nil_append,
      List.foldl_cons, closes]
    exact .closed
  · rename_i h
    rw [Bool.not_eq_true] at h
    cases xs with
    | nil => exact .empty rfl
    | cons c xs =>
      have every := h
      rw [List.any_cons, Bool.or_eq_false_iff] at every
      have here := every.1
      simp only [special, Bool.or_eq_false_iff, decide_eq_false_iff_not] at here
      have next : step d ⟨.startField, [], record, records⟩ c =
          ⟨.inField, [c], record, records⟩ := by
        simp [step, start, plain, State.push, here]
      rw [List.foldl_cons, next, bare_read _ every.2]
      exact .bare

theorem held_delimiter {s : State α} (h : Held d xs record records s) :
    step d s d.delimiter = ⟨.startField, [], record ++ [xs], records⟩ := by
  have quote := d.distinct.1.symm
  cases h with
  | empty h => simp [step, start, plain, State.endField, quote, h]
  | bare => simp [step, plain, State.endField]
  | closed => simp [step, plain, State.endField, quote]

theorem held_cr {s : State α} (h : Held d xs record records s) :
    step d s d.cr = ⟨.afterCr, [], [], records ++ [record ++ [xs]]⟩ := by
  obtain ⟨-, delimiter, -, quote, -⟩ := d.distinct
  cases h with
  | empty h => simp [step, start, plain, State.endRecord, quote, delimiter, h]
  | bare => simp [step, plain, State.endRecord, delimiter]
  | closed => simp [step, plain, State.endRecord, quote, delimiter]

end fields

section records

variable {d} {records : List (List (List α))}

theorem joined_read (xs : List α) (rest record : List (List α)) :
    (joined d (xs :: rest) ++ [d.cr]).foldl (step d) ⟨.startField, [], record, records⟩ =
      ⟨.afterCr, [], [], records ++ [record ++ xs :: rest]⟩ := by
  induction rest generalizing xs record with
  | nil =>
    rw [joined, List.foldl_append, List.foldl_cons, List.foldl_nil, held_cr field_read]
  | cons ys rest ih =>
    rw [joined, List.append_assoc, List.foldl_append, List.cons_append, List.foldl_cons,
      held_delimiter field_read, ih, List.append_assoc, List.singleton_append]

/-- The first character of a record is none that ends a record. -/
theorem joined_head (xs : List α) (rest : List (List α)) (h : xs :: rest ≠ [[]]) :
    ∃ c text, joined d (xs :: rest) = c :: text ∧ c ≠ d.cr ∧ c ≠ d.lf := by
  obtain ⟨-, crDelimiter, lfDelimiter, crQuote, lfQuote, -⟩ := d.distinct
  have headed : field d xs = [] ∧ xs = [] ∨
      ∃ c text, field d xs = c :: text ∧ c ≠ d.cr ∧ c ≠ d.lf := by
    unfold field
    split
    · exact .inr ⟨_, _, rfl, crQuote.symm, lfQuote.symm⟩
    · rename_i plain
      cases xs with
      | nil => exact .inl ⟨rfl, rfl⟩
      | cons c xs =>
        simp only [List.any_cons, special, Bool.or_eq_true, decide_eq_true_eq, not_or] at plain
        exact .inr ⟨c, xs, rfl, plain.1.1.2, plain.1.2⟩
  cases rest with
  | nil =>
    obtain ⟨-, rfl⟩ | headed := headed
    · exact absurd rfl h
    · exact headed
  | cons ys rest =>
    obtain ⟨empty, -⟩ | ⟨c, text, same, hc⟩ := headed
    · exact ⟨d.delimiter, _, by rw [joined, empty, List.nil_append], crDelimiter.symm,
        lfDelimiter.symm⟩
    · exact ⟨c, _, by rw [joined, same, List.cons_append], hc⟩

theorem record_read (fields : List (List α)) :
    (record d fields).foldl (step d) ⟨.startRecord, [], [], records⟩ =
      ⟨.startRecord, [], [], records ++ [fields]⟩ := by
  have ends : ∀ rs : List (List (List α)), step d ⟨.afterCr, [], [], rs⟩ d.lf =
      ⟨.startRecord, [], [], rs⟩ := by
    intro rs
    simp [step]
  have quote : d.cr ≠ d.quote := d.distinct.2.2.2.1
  have split : ∀ text : List α, text ++ [d.cr, d.lf] = (text ++ [d.cr]) ++ [d.lf] := by
    intro text
    rw [List.append_assoc]
    rfl
  unfold record
  rw [split, List.foldl_append]
  have read : ((if fields = [[]] then [d.quote, d.quote] else joined d fields) ++ [d.cr]).foldl
      (step d) ⟨.startRecord, [], [], records⟩ = ⟨.afterCr, [], [], records ++ [fields]⟩ := by
    by_cases single : fields = [[]]
    · rw [if_pos single, single]
      simp [step, first, start, plain, State.endRecord, quote, quote.symm,
        d.distinct.2.1, d.distinct.2.2.2.2.1.symm]
    · rw [if_neg single]
      cases fields with
      | nil => simp [joined, step, first, State.blank]
      | cons xs rest =>
        obtain ⟨c, text, same, hcr, hlf⟩ := joined_head (d := d) xs rest single
        have alike : step d ⟨.startRecord, [], [], records⟩ c =
            step d ⟨.startField, [], [], records⟩ c := by
          show first d _ c = start d _ c
          rw [first, if_neg hcr, if_neg hlf]
          unfold start plain
          split_ifs <;> rfl
        have whole : (joined d (xs :: rest) ++ [d.cr]).foldl (step d)
            ⟨.startField, [], [], records⟩ = ⟨.afterCr, [], [], records ++ [[] ++ xs :: rest]⟩ :=
          joined_read xs rest []
        rw [same, List.cons_append, List.foldl_cons] at whole ⊢
        rw [alike, whole, List.nil_append]
  rw [read, List.foldl_cons, ends, List.foldl_nil]

theorem read_write (table : List (List (List α))) : read d (write d table) = table := by
  have every : ∀ before : List (List (List α)),
      (write d table).foldl (step d) ⟨.startRecord, [], [], before⟩ =
        ⟨.startRecord, [], [], before ++ table⟩ := by
    induction table with
    | nil =>
      intro before
      rw [List.append_nil]
      rfl
    | cons fields table ih =>
      intro before
      show (record d fields ++ write d table).foldl (step d) _ = _
      rw [List.foldl_append, record_read, ih, List.append_assoc, List.singleton_append]
  rw [read, State.initial, every, List.nil_append]
  rfl

end records

end Csv

end RankLens
