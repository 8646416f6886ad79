import ImportLint.Proofs.FileIndependence

/-!
What a report is made of.  Every discovered file is reported either as one file without a policy or by
findings about its imports, and never in both ways; the findings of all files stand in one order.
-/

namespace ImportLint.Proofs.ReportContents

open ImportLint.Path
open ImportLint.Proofs.WalkPaths
open ImportLint.Proofs.PolicyCompilation
open ImportLint.Proofs.FileFindings
open ImportLint.Proofs.ReportOrder
open ImportLint.Proofs.FileIndependence

/-- The parts of a finding that follow from its kind. -/
def Coherent (violation : Violation) : Prop :=
  match violation.kind with
  | .badFilename =>
    violation.code = "IMP002" ∧ violation.restrictions = none ∧
      violation.message = "missing definition in import policies for this file"
  | .badImport =>
    violation.code = "IMP001" ∧
      ∃ restrictions, violation.restrictions = some restrictions ∧
        violation.message =
          "import violates '" ++ " or ".intercalate restrictions ++ "' restrictions"

/-- A finding with what a configuration gives to all of them. -/
structure Marked (config : Config) (violation : Violation) : Prop where
  coherent : Coherent violation
  severity : violation.severity = config.severity
  docRef : violation.docRef = config.docs

/-- The one finding about a file that no policy speaks about. -/
structure ReportsNoPolicy (path : String) (violation : Violation) : Prop where
  kind : violation.kind = .badFilename
  location : violation.location = ⟨path, 1, 1⟩
  restrictions : violation.restrictions = none

/-- A finding about an import of a file that an entry governs. -/
structure ReportsDenied (entry : PolicyEntry) (violation : Violation) : Prop where
  kind : violation.kind = .badImport
  restrictions : violation.restrictions = some entry.restrictions
  line : 1 ≤ violation.location.line
  column : 1 ≤ violation.location.column

theorem checker_eq_ok {config : Config} {checker : Checker} (h : config.checker = .ok checker) :
    PolicySet.compile config.policies = .ok checker.policies ∧
      checker.severity = config.severity ∧ checker.docRef = config.docs := by
  rw [Config.checker] at h
  split at h
  · cases h
  · next policies hpolicies =>
    cases h
    refine ⟨?_, rfl, rfl⟩
    rw [Config.policySet] at hpolicies
    split at hpolicies
    · cases hpolicies
    · split at hpolicies
      · next set hset =>
        cases hpolicies
        exact hset
      · cases hpolicies

theorem imports_line_column (dialect : Script.Dialect) (source : String) :
    ∀ site ∈ Script.imports dialect source, 1 ≤ site.line ∧ 1 ≤ site.column := by
  intro site hsite
  rw [Script.imports] at hsite
  obtain ⟨_, -, rfl⟩ := List.mem_map.mp hsite
  exact ⟨Nat.le_add_left 1 _, Nat.le_add_left 1 _⟩

theorem finding?_coherent {policy : Policy} {file : String} {ref : ImportRef}
    {violation : Violation} (h : policy.finding? file ref = some violation) :
    Coherent violation ∧ violation.docRef = none := by
  rw [Policy.finding?] at h
  split at h
  · cases h
  · next restrictions _ =>
    obtain rfl := Option.some.inj h
    exact ⟨⟨rfl, restrictions, rfl, rfl⟩, rfl⟩

section OneFile

variable {config : Config} {checker : Checker} (hchecker : config.checker = .ok checker)

include hchecker

theorem mark_marked {violation : Violation} (hcoherent : Coherent violation)
    (hdocRef : violation.docRef = none) : Marked config (checker.mark violation) := by
  obtain ⟨-, hseverity, hdocs⟩ := checker_eq_ok hchecker
  refine ⟨hcoherent, hseverity, ?_⟩
  rw [Checker.mark, ← hdocs]
  cases checker.docRef with
  | none => exact hdocRef
  | some reference => rfl

theorem check_marked (path : String) (sites : List ImportSite) :
    ∀ violation ∈ checker.check path sites, Marked config violation := by
  intro violation hviolation
  rw [Checker.check] at hviolation
  obtain ⟨unmarked, hunmarked, rfl⟩ := List.mem_map.mp hviolation
  rw [PolicySet.checkFile] at hunmarked
  split at hunmarked
  · rw [List.mem_singleton.mp hunmarked]
    exact mark_marked hchecker ⟨rfl, rfl, rfl⟩ rfl
  · rw [read_eq, List.nil_append] at hunmarked
    obtain ⟨ref, -, hfinding⟩ := List.mem_filterMap.mp hunmarked
    obtain ⟨hcoherent, hdocRef⟩ := finding?_coherent hfinding
    exact mark_marked hchecker hcoherent hdocRef

variable {path : String} (hpath : forwardSlashes path = path)

include hpath

/-- A file that no entry speaks about is one finding, whatever it imports. -/
theorem check_of_untargeted
    (hnone : (config.policies.find? fun entry => targets entry path) = none)
    (sites : List ImportSite) :
    ∃ violation, checker.check path sites = [violation] ∧ ReportsNoPolicy path violation := by
  have hcheck := check_findings (checker_eq_ok hchecker).1 path sites
  rw [hpath, hnone] at hcheck
  obtain ⟨violation, hviolation, hreports⟩ := hcheck
  exact ⟨violation, hviolation, hreports.kind, hreports.location, hreports.restrictions⟩

/-- Of a file that an entry governs only imports are reported. -/
theorem check_of_targeted {entry : PolicyEntry}
    (hentry : (config.policies.find? fun entry => targets entry path) = some entry)
    {sites : List ImportSite} (hsites : ∀ site ∈ sites, 1 ≤ site.line ∧ 1 ≤ site.column) :
    ∀ violation ∈ checker.check path sites, ReportsDenied entry violation := by
  have hcheck := check_findings (checker_eq_ok hchecker).1 path sites
  rw [hpath, hentry] at hcheck
  intro violation hviolation
  obtain ⟨index, hindex, rfl⟩ := List.mem_iff_getElem.mp hviolation
  have hdenied : index < (denied entry (sites.map (·.ref path))).length :=
    hcheck.length_eq.symm ▸ hindex
  have hreports := hcheck.get hdenied hindex
  have href := List.mem_of_mem_filter (List.get_mem _ ⟨index, hdenied⟩)
  generalize (denied entry (sites.map (·.ref path))).get ⟨index, hdenied⟩ = ref at hreports href
  obtain ⟨site, hsite, rfl⟩ := List.mem_map.mp href
  refine ⟨hreports.kind, hreports.restrictions, ?_, ?_⟩
  · exact hreports.location ▸ (hsites site hsite).1
  · exact hreports.location ▸ (hsites site hsite).2

end OneFile

theorem forwardSlashes_path {run : LintRun} (hslashes : run.WithoutBackslashes) {file : Discovered}
    (hfile : file ∈ run.discovered) : forwardSlashes file.path = file.path :=
  forwardSlashes_of_not_mem (hslashes file hfile)

/-- Every finding of a report is one about a discovered file. -/
theorem mem_findings_of_mem {run : LintRun} (hslashes : run.WithoutBackslashes)
    {violation : Violation} (h : violation ∈ run.report.violations) :
    ∃ file ∈ run.discovered, violation.location.file = file.path ∧
      violation ∈ run.findings file.path := by
  have hmem : violation ∈ run.findings violation.location.file :=
    List.mem_filter.mpr ⟨h, by simp⟩
  by_cases hpath : violation.location.file ∈ run.discovered.map Discovered.path
  · obtain ⟨file, hfile, heq⟩ := List.mem_map.mp hpath
    rw [← heq] at hmem
    exact ⟨file, hfile, heq.symm, hmem⟩
  · rw [run.findings_eq_nil hslashes hpath] at hmem
    cases hmem

theorem report_sorted (run : LintRun) :
    run.report.violations.Pairwise fun left right =>
      (left.location.order right.location).isLE = true := by
  obtain ⟨check, found, -, -, hreport⟩ := lint_eq_ok run.succeeds
  rw [hreport]
  exact List.pairwise_mergeSort placedBefore_trans placedBefore_total found

theorem filesChecked_eq (run : LintRun) : run.report.filesChecked = run.discovered.length := by
  obtain ⟨check, found, hcheck, -, hreport⟩ := lint_eq_ok run.succeeds
  rw [run.discovered_eq hcheck, hreport, discoveries, List.length_map]
  rfl

def governedConfig : Config :=
  { Config.default with
    severity := .warning, docs := some "layers.md", policies := [⟨"src/**", ["lib/**"]⟩] }

/-- A run over one file, which may import from `lib` if it is in `src`. -/
def governedRun (names : List Segment) (content : ByteArray) (report : Report)
    (hnames : ∀ name ∈ names, IsEntryName name)
    (hreport : (Disk.lint ⟨written [(names, content)], []⟩ "." governedConfig []).toOption =
      some report) : LintRun where
  disk := ⟨written [(names, content)], []⟩
  path := "."
  config := governedConfig
  exclude := []
  report := report
  wellFormed := written_wellFormed (by simpa using hnames)
  succeeds := eq_ok_of_toOption hreport

end ImportLint.Proofs.ReportContents
