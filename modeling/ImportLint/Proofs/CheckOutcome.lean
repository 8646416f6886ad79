import ImportLint.Command.Run
import ImportLint.Proofs.DiscoveredFiles
import ImportLint.Proofs.ReportContents

/-!
Outcomes of checks.  What a check ends with is settled by what loading its configuration and linting
give; the exit code tells whether an error was found, and nothing is written before a failure.
-/

namespace ImportLint.Proofs.CheckOutcome

open ImportLint.Path
open ImportLint.Command
open ImportLint.Proofs.WalkPaths
open ImportLint.Proofs.PolicyCompilation
open ImportLint.Proofs.FileFindings
open ImportLint.Proofs.FileIndependence
open ImportLint.Proofs.DiscoveredFiles
open ImportLint.Proofs.ReportContents

/-- Something about a file is against the policies: no entry speaks about it, or the first one that
does forbids one of its imports. -/
def Offends (entries : List PolicyEntry) (file : Discovered) : Prop :=
  ∃ text, decodeText file.bytes = .ok text ∧
    match entries.find? fun entry => targets entry (forwardSlashes file.path) with
    | none => True
    | some entry =>
      ∃ site ∈ Script.imports file.dialect text,
        allows entry (site.ref (forwardSlashes file.path)).resolved = false

/-- Nothing was written, and the exit code is that of a failure. -/
structure IsFailed (outcome : Outcome) : Prop where
  output : outcome.output = ""
  code : outcome.code = 1

/-- All findings about the files of a check were written, and the exit code tells whether one of them
is an error. -/
structure IsReported (config : Config) (check : Check) (report : Report) (format : OutputFormat)
    (outcome : Outcome) : Prop where
  complete : report = Report.sort
    ⟨(discoveries check).flatMap (findings check.checker), (discoveries check).length⟩
  output : outcome.output = report.print format
  code : outcome.code = 0 ∨ outcome.code = 1
  fails_iff : outcome.code = 1 ↔
    config.severity = .error ∧ ∃ file ∈ discoveries check, Offends config.policies file

theorem denied_ne_nil_iff (entry : PolicyEntry) (file : String) (sites : List ImportSite) :
    denied entry (sites.map (·.ref file)) ≠ [] ↔
      ∃ site ∈ sites, allows entry (site.ref file).resolved = false := by
  simp [denied]

section Findings

variable {config : Config} {checker : Checker} (hchecker : config.checker = .ok checker)

include hchecker

theorem findings_ne_nil_iff (file : Discovered) :
    findings checker file ≠ [] ↔ Offends config.policies file := by
  rw [findings, Offends]
  cases htext : decodeText file.bytes with
  | error fault => simp
  | ok text =>
      have hcheck := check_findings (checker_eq_ok hchecker).1 file.path
        (Script.imports file.dialect text)
      simp only [Except.ok.injEq, exists_eq_left']
      generalize (config.policies.find? fun entry => targets entry (forwardSlashes file.path)) =
        chosen at hcheck ⊢
      cases chosen with
      | none =>
          obtain ⟨violation, hviolation, -⟩ := hcheck
          simp [hviolation]
      | some entry =>
          dsimp only at hcheck ⊢
          rw [← denied_ne_nil_iff, ← List.length_pos_iff, ← List.length_pos_iff, hcheck.length_eq]

theorem findings_severity (file : Discovered) :
    ∀ violation ∈ findings checker file, violation.severity = config.severity := by
  rw [findings]
  split
  · exact fun violation hviolation => (check_marked hchecker _ _ violation hviolation).severity
  · simp

end Findings

/-- A report has errors where the severity is that of errors and some file is against the policies. -/
theorem hasErrors_iff {config : Config} {check : Check} {report : Report}
    (hchecker : config.checker = .ok check.checker)
    (hreport : report = Report.sort
      ⟨(discoveries check).flatMap (findings check.checker), (discoveries check).length⟩) :
    report.hasErrors = true ↔
      config.severity = .error ∧ ∃ file ∈ discoveries check, Offends config.policies file := by
  have hmem (violation : Violation) : violation ∈ report.violations ↔
      ∃ file ∈ discoveries check, violation ∈ findings check.checker file := by
    rw [hreport, Report.sort, List.mem_mergeSort, List.mem_flatMap]
  have hgrave (severity : Severity) : Severity.error.rank ≤ severity.rank ↔ severity = .error := by
    cases severity <;> decide
  simp only [Report.hasErrors, Report.hasAtLeast, List.any_eq_true, decide_eq_true_eq, hmem, hgrave]
  constructor
  · rintro ⟨violation, ⟨file, hfile, hviolation⟩, hsevere⟩
    refine ⟨?_, file, hfile, ?_⟩
    · rw [← findings_severity hchecker file violation hviolation, hsevere]
    · exact (findings_ne_nil_iff hchecker file).mp (List.ne_nil_of_mem hviolation)
  · rintro ⟨hsevere, file, hfile, hoffends⟩
    obtain ⟨violation, hviolation⟩ :=
      List.exists_mem_of_ne_nil _ ((findings_ne_nil_iff hchecker file).mpr hoffends)
    refine ⟨violation, ⟨file, hfile, hviolation⟩, ?_⟩
    rw [findings_severity hchecker file violation hviolation, hsevere]

/-- What a check ends with follows from what loading and linting give. -/
theorem checkProject_eq (disk : Disk) (source : ConfigSource) (path : String)
    (format : OutputFormat) (exclude : List String) :
    ∃ events, checkProject disk source path format exclude =
      match source.load disk with
      | .error failure => .failed disk events failure.chain
      | .ok config =>
        match disk.lint path config exclude with
        | .error failure => .failed disk events failure.chain
        | .ok report =>
          ⟨if report.hasErrors then 1 else 0, report.print format, events, none, disk⟩ := by
  rw [checkProject, withConfig]
  cases source.load disk with
  | error failure => exact ⟨_, rfl⟩
  | ok config =>
      dsimp only
      rw [Disk.lint]
      cases disk.check path config exclude with
      | error failure => exact ⟨_, rfl⟩
      | ok check =>
          dsimp only
          rw [runCheck]
          cases check.run with
          | error failure => exact ⟨_, rfl⟩
          | ok report => exact ⟨_, rfl⟩

theorem checkProject_of_lint {disk : Disk} {source : ConfigSource} {path : String} {config : Config}
    {exclude : List String} {report : Report} (hload : source.load disk = .ok config)
    (h : disk.lint path config exclude = .ok report) (format : OutputFormat) :
    ∃ events, checkProject disk source path format exclude =
      ⟨if report.hasErrors then 1 else 0, report.print format, events, none, disk⟩ := by
  obtain ⟨events, heq⟩ := checkProject_eq disk source path format exclude
  rw [hload] at heq
  dsimp only at heq
  rw [h] at heq
  exact ⟨events, heq⟩

theorem isReported_of_lint {disk : Disk} {path : String} {config : Config} {exclude : List String}
    {report : Report} (h : disk.lint path config exclude = .ok report) (format : OutputFormat)
    (events : List Event) :
    ∃ check, disk.check path config exclude = .ok check ∧
      IsReported config check report format
        ⟨if report.hasErrors then 1 else 0, report.print format, events, none, disk⟩ := by
  obtain ⟨check, hcheck, hchecker, hreport⟩ := lint_eq_ok_discoveries h
  refine ⟨check, hcheck, hreport, rfl, ?_, ?_⟩
  · cases report.hasErrors
    · exact .inl rfl
    · exact .inr rfl
  · rw [← hasErrors_iff hchecker hreport]
    cases report.hasErrors <;> simp

/-- The format of the output plays no part in the exit code. -/
theorem checkProject_code (disk : Disk) (source : ConfigSource) (path : String)
    (format other : OutputFormat) (exclude : List String) :
    (checkProject disk source path format exclude).code =
      (checkProject disk source path other exclude).code := by
  obtain ⟨events, heq⟩ := checkProject_eq disk source path format exclude
  obtain ⟨events', heq'⟩ := checkProject_eq disk source path other exclude
  rw [heq, heq']
  cases source.load disk with
  | error failure => rfl
  | ok config =>
      dsimp only
      cases disk.lint path config exclude <;> rfl

theorem run_eq_checkProject {environment : Environment} {arguments : List String}
    {request : Request} (hread : Request.read environment arguments = .ok request) {path : String}
    {format : OutputFormat} {exclude : List String}
    (htask : request.task = .check path format exclude) (disk : Disk) :
    run disk environment arguments =
      checkProject disk (request.source disk environment) path format exclude := by
  rw [run, hread]
  dsimp only
  rw [Request.run, htask]

end ImportLint.Proofs.CheckOutcome
