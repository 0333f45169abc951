import RankLens.Comparison
import RankLens.Csv

namespace RankLens

namespace CsvExport

open Analyzer (AnalysisResult RankRow)

def excel : Csv.Dialect Nat where
  delimiter := 44
  quote := 34
  cr := 13
  lf := 10
  distinct := by decide

/-- `=`, `+`, `-`, `@`, a tab and a carriage return. -/
def formulaStarts : List Nat := [61, 43, 45, 64, 9, 13]

def isFormula (s : PyStr) : Bool := s.head?.any (formulaStarts.contains ·)

/-- A host name that a spreadsheet does not take for a formula. -/
def guarded (host : PyStr) : PyStr := if isFormula host then 39 :: host else host

def digits (n : Nat) : PyStr := (Nat.toDigits 10 n).map Char.toNat

def header : List PyStr :=
  ["rank", "hostname", "runtime_ns", "mpi_time_ns", "straggler"].map PyStr.ofString

def cells (result : AnalysisResult) (row : RankRow) : List PyStr :=
  [digits row.rank, guarded row.hostname, digits row.runtimeNs, digits row.mpiTimeNs,
    PyStr.ofString (if result.stragglerRanks.contains row.rank then "True" else "False")]

def table (result : AnalysisResult) : List (List PyStr) :=
  header :: result.ranks.map (cells result)

/-- The file that `export_csv` writes, none where UTF-8 has no encoding for it. -/
def exportCsv (result : AnalysisResult) : Option PyStr :=
  let text := Csv.write excel (table result)
  if PyStr.clean text then some text else none

section cells

variable {s t : PyStr} {result : AnalysisResult}

theorem isFormula_guarded (s : PyStr) : isFormula (guarded s) = false := by
  rw [guarded]
  cases h : isFormula s with
  | true => rfl
  | false => exact h

theorem digits_injective : Function.Injective digits := by
  intro m n h
  have same : Nat.toDigits 10 m = Nat.toDigits 10 n :=
    List.map_injective_iff.mpr (fun a b hab => Char.toNat_inj.mp hab) h
  have value := congrArg (fun cs => Nat.ofDigitChars 10 cs 0) same
  simpa only [Nat.ofDigitChars_ten_toDigits] using value

theorem isFormula_digits (n : Nat) : isFormula (digits n) = false := by
  rw [isFormula, digits]
  cases h : Nat.toDigits 10 n with
  | nil => rfl
  | cons c cs =>
    have digit : c.isDigit = true :=
      Nat.isDigit_of_mem_toDigits (by decide) (by decide) (h ▸ List.mem_cons_self)
    have range : 48 ≤ c.toNat ∧ c.toNat ≤ 57 := by
      rw [Char.isDigit, Bool.and_eq_true, decide_eq_true_eq, decide_eq_true_eq] at digit
      exact digit
    simp only [List.map_cons, List.head?_cons, Option.any_some, formulaStarts, List.contains_eq_mem,
      decide_eq_false_iff_not, List.mem_cons, List.not_mem_nil, or_false]
    omega

theorem cells_safe (row : RankRow) : ∀ cell ∈ cells result row, isFormula cell = false := by
  intro cell h
  simp only [cells, List.mem_cons, List.not_mem_nil, or_false] at h
  obtain rfl | rfl | rfl | rfl | rfl := h
  · exact isFormula_digits _
  · exact isFormula_guarded _
  · exact isFormula_digits _
  · exact isFormula_digits _
  · split <;> decide

/-- A host name that looks like one that has been guarded. -/
def Ambiguous (host : PyStr) : Prop := ∃ rest, host = 39 :: rest ∧ isFormula rest = true

theorem guarded_injective (hs : ¬Ambiguous s) (ht : ¬Ambiguous t) (h : guarded s = guarded t) :
    s = t := by
  unfold guarded at h
  split at h <;> split at h
  · exact (List.cons.inj h).2
  · rename_i formula plain
    exact absurd ⟨s, h.symm, formula⟩ ht
  · rename_i plain formula
    exact absurd ⟨t, h, formula⟩ hs
  · exact h

end cells

section encoding

theorem clean_escaped (s : PyStr) :
    PyStr.clean (s.flatMap (Csv.escaped excel)) = PyStr.clean s := by
  induction s with
  | nil => rfl
  | cons c s ih =>
    rw [List.flatMap_cons, PyStr.clean_append, ih, PyStr.clean_cons, Csv.escaped]
    congr 1
    split
    · simp [PyStr.clean]
    · simp [PyStr.clean]

theorem clean_field (s : PyStr) : PyStr.clean (Csv.field excel s) = PyStr.clean s := by
  rw [Csv.field]
  split
  · rw [List.cons_append, PyStr.clean_cons, PyStr.clean_append, clean_escaped]
    simp [PyStr.clean, PyStr.surrogate, excel]
  · rfl

theorem clean_joined (fields : List PyStr) :
    PyStr.clean (Csv.joined excel fields) = fields.all PyStr.clean := by
  induction fields with
  | nil => rfl
  | cons s rest ih =>
    cases rest with
    | nil => rw [Csv.joined, clean_field, List.all_cons, List.all_nil, Bool.and_true]
    | cons t rest =>
      rw [Csv.joined, PyStr.clean_append, clean_field, PyStr.clean_cons, ih, List.all_cons]
      rfl

theorem clean_record (fields : List PyStr) :
    PyStr.clean (Csv.record excel fields) = fields.all PyStr.clean := by
  rw [Csv.record, PyStr.clean_append]
  have ends : PyStr.clean [excel.cr, excel.lf] = true := by decide
  rw [ends, Bool.and_true]
  split
  · rename_i h
    rw [h]
    decide
  · exact clean_joined fields

theorem clean_write (rows : List (List PyStr)) :
    PyStr.clean (Csv.write excel rows) = rows.all (fun fields => fields.all PyStr.clean) := by
  induction rows with
  | nil => rfl
  | cons fields rows ih =>
    rw [List.all_cons, ← ih, ← clean_record]
    exact PyStr.clean_append

theorem clean_guarded (s : PyStr) : PyStr.clean (guarded s) = PyStr.clean s := by
  rw [guarded]
  split
  · rw [PyStr.clean_cons]
    rfl
  · rfl

theorem clean_cells (result : AnalysisResult) (row : RankRow) :
    (cells result row).all PyStr.clean = PyStr.clean row.hostname := by
  have number : ∀ n, PyStr.clean (digits n) = true := fun n => PyStr.clean_chars _
  simp only [cells, List.all_cons, List.all_nil, number, clean_guarded, PyStr.clean_ofString,
    Bool.true_and, Bool.and_true]

theorem exportCsv_none {result : AnalysisResult} :
    exportCsv result = none ↔ ∃ row ∈ result.ranks, PyStr.clean row.hostname = false := by
  have head : header.all PyStr.clean = true := by decide
  rw [exportCsv, ite_eq_right_iff, clean_write, table, List.all_cons, head, Bool.true_and,
    List.all_map]
  simp only [Function.comp_def, clean_cells]
  constructor
  · intro h
    by_contra none
    simp only [not_exists, not_and, Bool.not_eq_false] at none
    exact absurd (h (List.all_eq_true.mpr none)) (by rintro ⟨⟩)
  · rintro ⟨row, hrow, bad⟩ h
    rw [List.all_eq_true.mp h row hrow] at bad
    exact absurd bad (by decide)

theorem exportCsv_some {result : AnalysisResult} {text : PyStr} (h : exportCsv result = some text) :
    text = Csv.write excel (table result) := by
  rw [exportCsv] at h
  split at h
  · exact (Option.some.inj h).symm
  · exact absurd h (by rintro ⟨⟩)

end encoding

section reading

variable {result a b : AnalysisResult} {text : PyStr}

/-- What `csv.reader` finds in the file is the table, whatever the host names hold, and no cell of
it is taken for a formula. The file is not written only for a host name that has no encoding. -/
theorem export_read_back :
    (∀ text, exportCsv result = some text → Csv.read excel text = table result) ∧
      (∀ fields ∈ table result, ∀ cell ∈ fields, isFormula cell = false) ∧
      (exportCsv result = none ↔ ∃ row ∈ result.ranks, PyStr.clean row.hostname = false) := by
  refine ⟨fun text h => ?_, fun fields h => ?_, exportCsv_none⟩
  · rw [exportCsv_some h, Csv.read_write]
  · obtain rfl | h := List.mem_cons.mp h
    · decide
    · obtain ⟨row, -, rfl⟩ := List.mem_map.mp h
      exact cells_safe row

def rowOf (result : AnalysisResult) (row : RankRow) : Nat × PyStr × Nat × Nat × Bool :=
  (row.rank, row.hostname, row.runtimeNs, row.mpiTimeNs,
    result.stragglerRanks.contains row.rank)

theorem rowOf_eq {row row' : RankRow} (h : cells a row = cells b row')
    (ha : ¬Ambiguous row.hostname) (hb : ¬Ambiguous row'.hostname) :
    rowOf a row = rowOf b row' := by
  simp only [cells, List.cons.injEq, and_true] at h
  obtain ⟨rank, host, runtime, mpiTime, straggler⟩ := h
  have flag : a.stragglerRanks.contains row.rank = b.stragglerRanks.contains row'.rank := by
    cases ha : a.stragglerRanks.contains row.rank <;>
      cases hb : b.stragglerRanks.contains row'.rank <;> rw [ha, hb] at straggler <;>
        first | rfl | exact absurd straggler (by decide)
  rw [rowOf, rowOf, digits_injective rank, guarded_injective ha hb host, digits_injective runtime,
    digits_injective mpiTime, ← flag, digits_injective rank]

theorem rows_eq {rows rows' : List RankRow} (h : rows.map (cells a) = rows'.map (cells b))
    (hosts : ∀ row ∈ rows ++ rows', ¬Ambiguous row.hostname) :
    rows.map (rowOf a) = rows'.map (rowOf b) := by
  induction rows generalizing rows' with
  | nil =>
    obtain rfl : rows' = [] := List.map_eq_nil_iff.mp h.symm
    rfl
  | cons row rows ih =>
    cases rows' with
    | nil => exact absurd h (by rintro ⟨⟩)
    | cons row' rows' =>
      obtain ⟨first, rest⟩ := List.cons.inj h
      have here := rowOf_eq first (hosts row List.mem_cons_self)
        (hosts row' (List.mem_append_right _ List.mem_cons_self))
      have there := ih rest (fun r hr => hosts r (by
        obtain hr | hr := List.mem_append.mp hr
        · exact List.mem_append_left _ (List.mem_cons_of_mem _ hr)
        · exact List.mem_append_right _ (List.mem_cons_of_mem _ hr)))
      rw [List.map_cons, List.map_cons, here, there]

/-- Two analyses with the same file have the same ranks, unless a host name looks like a guarded
one. -/
theorem export_faithful (ha : exportCsv a = some text) (hb : exportCsv b = some text)
    (hosts : ∀ row ∈ a.ranks ++ b.ranks, ¬Ambiguous row.hostname) :
    a.ranks.map (rowOf a) = b.ranks.map (rowOf b) := by
  have same : table a = table b :=
    (export_read_back.1 text ha).symm.trans (export_read_back.1 text hb)
  exact rows_eq (List.cons.inj same).2 hosts

/-- Two ranks, one of them on a host whose name is a formula. The source and the context of the
second one are not in the table. -/
def formulaRun (source : String) (context : List (PyStr × PyStr)) : AnalysisResult :=
  { Comparison.heatRun 7 with
    source
    worldSize := 2
    ranksObserved := 2
    stragglerRanks := [1]
    ranks := [⟨0, PyStr.ofString "=1,\"2\"", 7, 0, [], true⟩,
      ⟨1, PyStr.ofString "node-b", 9, 1, context, true⟩] }

def inPartition : List (PyStr × PyStr) :=
  [(PyStr.ofString "SLURM_JOB_PARTITION", PyStr.ofString "a")]

theorem export_faithful_sample :
    (formulaRun "a" []).ranks.map (rowOf (formulaRun "a" [])) =
      (formulaRun "b" inPartition).ranks.map (rowOf (formulaRun "b" inPartition)) :=
  @export_faithful (formulaRun "a" []) (formulaRun "b" inPartition)
    (Csv.write excel (table (formulaRun "a" []))) (by decide +kernel) (by decide +kernel) (by
      intro row hrow
      rintro ⟨rest, host, -⟩
      have hosts : row.hostname.head? = some 61 ∨ row.hostname.head? = some 110 := by
        fin_cases hrow <;> decide
      rw [host, List.head?_cons] at hosts
      exact absurd hosts (by decide))

end reading

end CsvExport

end RankLens
