import ImportLint.Proofs.CheckOutcome
import Mathlib.Algebra.GroupWithZero.Nat

/-!
Counts of reports.  Every finding has one severity and one kind, so that the counts of either make up
all findings, in whatever order they stand.  Thresholds, the colour and the numbers of the summary and the
exit code of a check all follow from these counts.
-/

namespace ImportLint.Proofs.ReportCounts

open ImportLint.Command
open ImportLint.Proofs.WalkPaths
open ImportLint.Proofs.FileIndependence
open ImportLint.Proofs.CheckOutcome

/-- The severities from a threshold on, the mildest first. -/
def fromThreshold : Severity → List Severity
  | .info => [.info, .warning, .error]
  | .warning => [.warning, .error]
  | .error => [.error]

/-- Two reports with as many findings of each severity and of each kind. -/
structure CountAlike (left right : Report) : Prop where
  severity : ∀ severity, left.severityCount severity = right.severityCount severity
  badImport : left.badImportCount = right.badImportCount
  badFilename : left.badFilenameCount = right.badFilenameCount

/-- A report with as many findings of each severity and of each kind as two others have together. -/
structure CountsTogether (whole left right : Report) : Prop where
  severity : ∀ severity,
    whole.severityCount severity = left.severityCount severity + right.severityCount severity
  badImport : whole.badImportCount = left.badImportCount + right.badImportCount
  badFilename : whole.badFilenameCount = left.badFilenameCount + right.badFilenameCount

/-- The wording of the numbers of a report. -/
def numbers (errors warnings infos files imports filenames : Nat) : String :=
  "Found " ++ toString errors ++ " error(s), " ++ toString warnings ++ " warning(s), "
    ++ toString infos ++ " info(s) in " ++ toString files ++ " file(s) (" ++ toString imports
    ++ " disallowed import(s), " ++ toString filenames ++ " unconfigured file(s))"

theorem mem_fromThreshold_iff (threshold severity : Severity) :
    severity ∈ fromThreshold threshold ↔ threshold.rank ≤ severity.rank := by
  cases threshold <;> cases severity <;> decide

section Counts

variable (report : Report)

theorem severityCounts_sum :
    report.severityCount .error + report.severityCount .warning + report.severityCount .info =
      report.violations.length := by
  rw [Report.severityCount, Report.severityCount, Report.severityCount]
  induction report.violations with
  | nil => rfl
  | cons violation violations ih =>
    have honce : (if violation.severity = .error then 1 else 0) +
        (if violation.severity = .warning then 1 else 0) +
        (if violation.severity = .info then 1 else 0) = 1 := by
      cases violation.severity <;> rfl
    simp only [List.countP_cons, decide_eq_true_eq, List.length_cons]
    omega

/-- The findings that are not about imports are those about files without a policy. -/
theorem badFilenameCount_eq_countP :
    report.badFilenameCount = report.violations.countP (·.kind = .badFilename) := by
  have hkind (violation : Violation) :
      ¬ violation.kind = .badImport ↔ violation.kind = .badFilename := by
    cases violation.kind <;> decide
  have hlength := List.length_eq_countP_add_countP (l := report.violations) (·.kind = .badImport)
  simp only [decide_eq_true_eq, hkind] at hlength
  rw [Report.badFilenameCount, Report.badImportCount, hlength, Nat.add_sub_cancel_left]

theorem badImportCount_le_length : report.badImportCount ≤ report.violations.length :=
  List.countP_le_length

theorem kindCounts_sum :
    report.badImportCount + report.badFilenameCount = report.violations.length :=
  Nat.add_sub_cancel' (badImportCount_le_length report)

variable {report}

theorem countAlike_of_perm {other : Report} (h : other.violations.Perm report.violations) :
    CountAlike other report where
  severity severity := h.countP_eq _
  badImport := h.countP_eq _
  badFilename := by
    rw [badFilenameCount_eq_countP, badFilenameCount_eq_countP]
    exact h.countP_eq _

variable (report)

theorem countsTogether_append (other : Report) (files : Nat) :
    CountsTogether ⟨report.violations ++ other.violations, files⟩ report other where
  severity severity := List.countP_append
  badImport := List.countP_append
  badFilename := by
    rw [badFilenameCount_eq_countP, badFilenameCount_eq_countP, badFilenameCount_eq_countP]
    exact List.countP_append

theorem severityCount_pos_iff (severity : Severity) :
    0 < report.severityCount severity ↔
      ∃ violation ∈ report.violations, violation.severity = severity := by
  simp [Report.severityCount, List.countP_pos_iff]

theorem hasAtLeast_iff_exists (threshold : Severity) :
    report.hasAtLeast threshold = true ↔
      ∃ violation ∈ report.violations, violation.severity ∈ fromThreshold threshold := by
  simp [Report.hasAtLeast, mem_fromThreshold_iff]

/-- A threshold is met where a severity from it on is counted. -/
theorem hasAtLeast_iff_sum_pos (threshold : Severity) :
    report.hasAtLeast threshold = true ↔
      0 < ((fromThreshold threshold).map report.severityCount).sum := by
  rw [hasAtLeast_iff_exists, List.sum_pos_iff_exists_pos_nat]
  constructor
  · rintro ⟨violation, hviolation, hsevere⟩
    refine ⟨_, List.mem_map_of_mem hsevere, ?_⟩
    exact (severityCount_pos_iff report _).mpr ⟨violation, hviolation, rfl⟩
  · rintro ⟨count, hcount, hpos⟩
    obtain ⟨severity, hsevere, rfl⟩ := List.mem_map.mp hcount
    obtain ⟨violation, hviolation, rfl⟩ := (severityCount_pos_iff report severity).mp hpos
    exact ⟨violation, hviolation, hsevere⟩

theorem hasAtLeast_antitone {low high : Severity} (h : high ∈ fromThreshold low)
    (hhigh : report.hasAtLeast high = true) : report.hasAtLeast low = true := by
  rw [hasAtLeast_iff_exists] at hhigh ⊢
  obtain ⟨violation, hviolation, hsevere⟩ := hhigh
  refine ⟨violation, hviolation, ?_⟩
  rw [mem_fromThreshold_iff] at h hsevere ⊢
  exact h.trans hsevere

theorem hasErrors_iff_severityCount_pos :
    report.hasErrors = true ↔ 0 < report.severityCount .error := by
  rw [Report.hasErrors, hasAtLeast_iff_sum_pos]
  rfl

/-- The colour of the summary follows from the thresholds that are met. -/
theorem summaryColour_eq :
    report.summaryColour =
      if report.hasErrors then .red
      else if report.hasAtLeast .warning then .yellow
      else .green := by
  have hwarning : report.hasAtLeast .warning = true ↔
      0 < report.severityCount .warning + report.severityCount .error :=
    hasAtLeast_iff_sum_pos report .warning
  rw [Report.summaryColour]
  simp only [hasErrors_iff_severityCount_pos, hwarning]
  by_cases herror : 0 < report.severityCount .error
  · rw [if_pos herror, if_pos herror]
  · have hcount : report.severityCount .error = 0 := by omega
    rw [if_neg herror, if_neg herror, hcount, Nat.add_zero]

theorem summary_eq_numbers :
    report.summary = numbers (report.severityCount .error) (report.severityCount .warning)
      (report.severityCount .info) report.filesChecked report.badImportCount
      report.badFilenameCount :=
  rfl

end Counts

/-- The counts of the severities and those of the kinds each make up all findings.  They stay the same
in every order of the findings and add up where findings are put together.  A threshold is met if and only
if a severity from it on is counted, so that a report that meets one meets all milder ones; the colour and
the numbers of a text report and the exit code of its check follow from the same counts. -/
theorem counts_consistent (report : Report) :
    (report.severityCount .error + report.severityCount .warning + report.severityCount .info =
      report.violations.length) ∧
    (report.badImportCount ≤ report.violations.length ∧
      report.badImportCount + report.badFilenameCount = report.violations.length ∧
      report.badFilenameCount = report.violations.countP (·.kind = .badFilename)) ∧
    CountAlike report.sort report ∧
    (∀ other : Report, other.violations.Perm report.violations → CountAlike other report) ∧
    (∀ other files, CountsTogether ⟨report.violations ++ other.violations, files⟩ report other) ∧
    (∀ threshold, report.hasAtLeast threshold = true ↔
      0 < ((fromThreshold threshold).map report.severityCount).sum) ∧
    (∀ low, ∀ high ∈ fromThreshold low,
      report.hasAtLeast high = true → report.hasAtLeast low = true) ∧
    (report.hasErrors = true ↔ 0 < report.severityCount .error) ∧
    (∃ findings, report.print .text = findings ++ Colour.paint
      (if report.hasErrors then .red
        else if report.hasAtLeast .warning then .yellow
        else .green)
      (numbers (report.severityCount .error) (report.severityCount .warning)
        (report.severityCount .info) report.filesChecked report.badImportCount
        (report.violations.countP (·.kind = .badFilename))) ++ "\n") ∧
    ∀ (disk : Disk) (source : ConfigSource) (path : String) (config : Config)
      (exclude : List String) (format : OutputFormat),
      source.load disk = .ok config → disk.lint path config exclude = .ok report →
      (checkProject disk source path format exclude).output = report.print format ∧
      (checkProject disk source path format exclude).code =
        if 0 < report.severityCount .error then 1 else 0 := by
  refine ⟨severityCounts_sum report, ⟨badImportCount_le_length report, kindCounts_sum report,
    badFilenameCount_eq_countP report⟩, countAlike_of_perm (List.mergeSort_perm _ _),
    fun other => countAlike_of_perm, countsTogether_append report, hasAtLeast_iff_sum_pos report,
    fun low high => hasAtLeast_antitone report, hasErrors_iff_severityCount_pos report,
    ?_, ?_⟩
  · refine ⟨String.join (report.violations.map Violation.paragraph), ?_⟩
    rw [← summaryColour_eq, ← badFilenameCount_eq_countP, ← summary_eq_numbers]
    rfl
  · intro disk source path config exclude format hload hlint
    obtain ⟨events, heq⟩ := checkProject_of_lint hload hlint format
    rw [heq]
    refine ⟨rfl, ?_⟩
    simp only [hasErrors_iff_severityCount_pos]

set_option maxRecDepth 100000 in
theorem counts_consistent_mixed :
    ∃ mixed turned : Report,
      mixed.violations.map (fun violation => (violation.kind, violation.code, violation.severity)) =
        [(.badFilename, "IMP001", .warning), (.badImport, "none", .info)] ∧
      turned.violations.Perm mixed.violations ∧ turned.violations ≠ mixed.violations ∧
      CountAlike turned mixed ∧ mixed.hasAtLeast .warning = true ∧ mixed.hasAtLeast .info = true ∧
      ∃ (disk : Disk) (config : Config) (report : Report),
        (ConfigSource.project "./import-patterns.toml").load disk = .ok config ∧
        disk.lint "." config [] = .ok report ∧ report.severityCount .error = 1 ∧
        (checkProject disk (.project "./import-patterns.toml") "." .text []).output =
          report.print .text ∧
        (checkProject disk (.project "./import-patterns.toml") "." .text []).code = 1 := by
  let first : Violation :=
    { Violation.badFilename "a.ts" with code := "IMP001", severity := .warning }
  let second : Violation :=
    { Violation.badImport ⟨"a.ts", 0, 0⟩ [] with code := "none", severity := .info }
  let mixed : Report := ⟨[first, second], 0⟩
  let turned : Report := ⟨[second, first], 7⟩
  let disk : Disk := ⟨written
    [(["import-patterns.toml".toList],
      "[[policies]]\ntarget=\"**\"\nrestrictions=\"b\"".toUTF8),
    (["a.ts".toList], "import \"x\"".toUTF8)], []⟩
  let config : Config := { Config.default with policies := [⟨"**", ["b"]⟩] }
  let report : Report := ⟨[.badImport ⟨"a.ts", 1, 8⟩ ["b"]], 1⟩
  have hperm : turned.violations.Perm mixed.violations := .swap first second []
  have hwarning : mixed.hasAtLeast .warning = true := by decide
  have hload : (ConfigSource.project "./import-patterns.toml").load disk = .ok config :=
    eq_ok_of_toOption (by decide +kernel)
  have hlint : disk.lint "." config [] = .ok report := eq_ok_of_toOption (by decide +kernel)
  obtain ⟨-, -, -, hturned, -, -, hmilder, -, -, -⟩ := counts_consistent mixed
  obtain ⟨-, -, -, -, -, -, -, -, -, hchecks⟩ := counts_consistent report
  obtain ⟨houtput, hcode⟩ := hchecks disk _ "." config [] .text hload hlint
  exact ⟨mixed, turned, rfl, hperm, by decide, hturned turned hperm, hwarning,
    hmilder .info .warning (by decide) hwarning, disk, config, report, hload, hlint, by decide,
    houtput, hcode⟩

end ImportLint.Proofs.ReportCounts
