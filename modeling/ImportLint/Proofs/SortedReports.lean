import ImportLint.Proofs.PathOrder
import ImportLint.Proofs.ReportOrder
import ImportLint.Proofs.WalkPaths

/-!
Sorted reports.  Findings are in the order of their places: of the paths of their files, then of lines,
then of columns.  Places tie only where they are the same, however the paths are spelled, so that a
report has one sorted form as long as no two of its findings are at one place.
-/

namespace ImportLint.Proofs.SortedReports

open ImportLint.Path
open ImportLint.Proofs.PathWords
open ImportLint.Proofs.WalkPaths
open ImportLint.Proofs.PathOrder
open ImportLint.Proofs.ReportOrder

/-- One place, whose file may be spelled in two ways. -/
structure SamePlace (left right : Location) : Prop where
  file : components left.file.toList = components right.file.toList
  line : left.line = right.line
  column : left.column = right.column

instance (left right : Location) : Decidable (SamePlace left right) :=
  decidable_of_iff (components left.file.toList = components right.file.toList ∧
    left.line = right.line ∧ left.column = right.column)
    ⟨fun ⟨file, line, column⟩ => ⟨file, line, column⟩,
      fun ⟨file, line, column⟩ => ⟨file, line, column⟩⟩

/-- One place comes before another one. -/
inductive Precedes (left right : Location) : Prop
  | file (h : PathPrecedes left.file right.file)
  | line (file : components left.file.toList = components right.file.toList)
      (h : left.line < right.line)
  | column (file : components left.file.toList = components right.file.toList)
      (line : left.line = right.line) (h : left.column < right.column)

theorem order_eq_lt_iff (left right : Location) :
    left.order right = .lt ↔ Precedes left right := by
  rw [Location.order, Ordering.then_eq_lt, Ordering.then_eq_lt, compare_key_eq_lt_iff,
    compare_key_eq_eq_iff, Nat.compare_eq_lt, Nat.compare_eq_eq, Nat.compare_eq_lt]
  constructor
  · rintro (h | ⟨hfile, h | ⟨hline, h⟩⟩)
    · exact .file h
    · exact .line hfile h
    · exact .column hfile hline h
  · rintro (h | ⟨hfile, h⟩ | ⟨hfile, hline, h⟩)
    · exact .inl h
    · exact .inr ⟨hfile, .inl h⟩
    · exact .inr ⟨hfile, .inr ⟨hline, h⟩⟩

theorem order_eq_eq_iff (left right : Location) :
    left.order right = .eq ↔ SamePlace left right := by
  rw [Location.order, Ordering.then_eq_eq, Ordering.then_eq_eq, compare_key_eq_eq_iff,
    Nat.compare_eq_eq, Nat.compare_eq_eq]
  constructor
  · rintro ⟨hfile, hline, hcolumn⟩
    exact ⟨hfile, hline, hcolumn⟩
  · rintro ⟨hfile, hline, hcolumn⟩
    exact ⟨hfile, hline, hcolumn⟩

theorem placedBefore_iff (left right : Violation) :
    left.placedBefore right = true ↔
      Precedes left.location right.location ∨ SamePlace left.location right.location := by
  rw [Violation.placedBefore, Ordering.isLE_iff_eq_lt_or_eq_eq, order_eq_lt_iff, order_eq_eq_iff]

theorem ties_iff (left right : Violation) :
    left.placedBefore right = true ∧ right.placedBefore left = true ↔
      SamePlace left.location right.location := by
  rw [← order_eq_eq_iff]
  constructor
  · rintro ⟨h, h'⟩
    exact Std.OrientedCmp.isLE_antisymm h h'
  · intro h
    rw [Violation.placedBefore, Violation.placedBefore, h, Std.OrientedCmp.eq_comm.mp h]
    exact ⟨rfl, rfl⟩

/-- A slash more, or a `.` between two slashes, does not change the components of a path. -/
theorem components_idle (front back : String) :
    components (front ++ "//" ++ back).toList = components (front ++ "/" ++ back).toList ∧
    components (front ++ "/./" ++ back).toList = components (front ++ "/" ++ back).toList := by
  have hslash : (front ++ "/" ++ back).toList = front.toList ++ '/' :: back.toList := by simp
  have htwo : (front ++ "//" ++ back).toList = front.toList ++ '/' :: '/' :: back.toList := by simp
  have hhere : (front ++ "/./" ++ back).toList =
      front.toList ++ '/' :: (['.'] ++ '/' :: back.toList) := by simp
  rw [hslash, htwo, hhere, components_append_slash _ back.toList,
    components_append_slash _ ('/' :: back.toList), components_append_slash _ (['.'] ++ _),
    splitSlash_cons_slash, splitSlash_append_slash]
  exact ⟨rfl, rfl⟩

/-- Findings at one place keep their order. -/
theorem filter_samePlace_sort (report : Report) (place : Location) :
    report.sort.violations.filter (SamePlace place ·.location) =
      report.violations.filter (SamePlace place ·.location) := by
  rw [filter_sort]
  apply List.mergeSort_of_pairwise
  apply List.pairwise_of_forall_mem_list
  intro left hleft right hright
  have hsame : SamePlace place left.location := by simpa using (List.mem_filter.mp hleft).2
  have hsame' : SamePlace place right.location := by simpa using (List.mem_filter.mp hright).2
  rw [placedBefore_iff]
  exact .inr ⟨hsame.file.symm.trans hsame'.file, hsame.line.symm.trans hsame'.line,
    hsame.column.symm.trans hsame'.column⟩

theorem sort_sort (report : Report) : report.sort.sort = report.sort := by
  rw [Report.sort, Report.sort,
    List.mergeSort_of_pairwise (List.pairwise_mergeSort placedBefore_trans placedBefore_total _)]

/-- Where no two findings are at one place, all reports of them have one sorted form. -/
theorem sort_eq_of_perm {report other : Report}
    (hperm : other.violations.Perm report.violations)
    (hplaces : report.violations.Pairwise fun left right =>
      ¬ SamePlace left.location right.location) :
    other.sort.violations = report.sort.violations := by
  refine mergeSort_eq_of_perm placedBefore_trans placedBefore_total hperm ?_
  exact hplaces.imp fun hplace hties => hplace ((ties_iff _ _).mp hties)

/-- A sorted report has the same findings in the order of their places, those at one place in the order
in which they came, and sorting it again changes nothing.  The order is a total one of places, however
their files are spelled; where no two findings are at one place, it does not matter in which order they
came. -/
theorem sort_canonical (report : Report) :
    report.sort.violations.Perm report.violations ∧
    (report.sort.violations.Pairwise fun left right =>
      Precedes left.location right.location ∨ SamePlace left.location right.location) ∧
    (∀ place, report.sort.violations.filter (SamePlace place ·.location) =
      report.violations.filter (SamePlace place ·.location)) ∧
    report.sort.filesChecked = report.filesChecked ∧
    report.sort.sort = report.sort ∧
    (∀ left right : Violation, left.placedBefore right = true ↔
      Precedes left.location right.location ∨ SamePlace left.location right.location) ∧
    (∀ left right : Violation, left.placedBefore right = true ∨ right.placedBefore left = true) ∧
    (∀ left middle right : Violation, left.placedBefore middle = true →
      middle.placedBefore right = true → left.placedBefore right = true) ∧
    (∀ left right : Violation, left.placedBefore right = true ∧ right.placedBefore left = true ↔
      SamePlace left.location right.location) ∧
    (∀ front back line column,
      SamePlace ⟨front ++ "//" ++ back, line, column⟩ ⟨front ++ "/" ++ back, line, column⟩ ∧
      SamePlace ⟨front ++ "/./" ++ back, line, column⟩ ⟨front ++ "/" ++ back, line, column⟩) ∧
    ∀ other : Report, other.violations.Perm report.violations →
      (report.violations.Pairwise fun left right => ¬ SamePlace left.location right.location) →
      other.sort.violations = report.sort.violations := by
  refine ⟨List.mergeSort_perm _ _, ?_, filter_samePlace_sort report, rfl, sort_sort report,
    placedBefore_iff, ?_, placedBefore_trans, ties_iff, ?_, fun other => sort_eq_of_perm⟩
  · refine (List.pairwise_mergeSort placedBefore_trans placedBefore_total _).imp ?_
    exact fun h => (placedBefore_iff _ _).mp h
  · exact fun left right => by simpa using placedBefore_total left right
  · intro front back line column
    obtain ⟨htwo, hhere⟩ := components_idle front back
    exact ⟨⟨htwo, rfl, rfl⟩, ⟨hhere, rfl, rfl⟩⟩

theorem sort_canonical_spellings :
    ∃ report other : Report, other.violations.Perm report.violations ∧
      (report.violations.Pairwise fun left right => ¬ SamePlace left.location right.location) ∧
      other.violations.map (·.location) = [⟨"a-b", 1, 1⟩, ⟨"a//b", 2, 1⟩, ⟨"a/./b", 1, 9⟩] ∧
      other.sort.violations.map (·.location) =
        [⟨"a/./b", 1, 9⟩, ⟨"a//b", 2, 1⟩, ⟨"a-b", 1, 1⟩] := by
  let report : Report :=
    ⟨[.badImport ⟨"a/./b", 1, 9⟩ ["b"], .badImport ⟨"a//b", 2, 1⟩ ["b"], .badFilename "a-b"], 2⟩
  let other : Report :=
    ⟨[.badFilename "a-b", .badImport ⟨"a//b", 2, 1⟩ ["b"], .badImport ⟨"a/./b", 1, 9⟩ ["b"]], 3⟩
  have hperm : other.violations.Perm report.violations := by decide
  have hplaces : report.violations.Pairwise fun left right =>
      ¬ SamePlace left.location right.location := by
    decide +kernel
  have hsorted : report.sort.violations = report.violations :=
    List.mergeSort_of_pairwise (by decide +kernel)
  obtain ⟨-, -, -, -, -, -, -, -, -, -, hsame⟩ := sort_canonical report
  refine ⟨report, other, hperm, hplaces, rfl, ?_⟩
  rw [hsame other hperm hplaces, hsorted]
  rfl

end ImportLint.Proofs.SortedReports
