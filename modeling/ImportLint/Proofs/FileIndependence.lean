import ImportLint.Proofs.DiscoveredPaths
import ImportLint.Proofs.FileFindings
import ImportLint.Proofs.ReportOrder

/-!
Independence of files.  What a run reports about a file depends on the policies and on that file
alone: on its path below the root, on its content and on how it is read.
-/

namespace ImportLint.Proofs.FileIndependence

open ImportLint.Path
open ImportLint.Proofs.WalkPaths
open ImportLint.Proofs.DiscoveredPaths
open ImportLint.Proofs.FileFindings
open ImportLint.Proofs.ReportOrder

theorem finding?_file {policy : Policy} {file : String} {ref : ImportRef} {violation : Violation}
    (h : policy.finding? file ref = some violation) : violation.location.file = file := by
  rw [Policy.finding?] at h
  split at h
  · cases h
  · obtain rfl := Option.some.inj h
    rfl

theorem checkFile_file (set : PolicySet) (file : String) (imports : List ImportRef) :
    ∀ violation ∈ (set.checkFile file imports).violations, violation.location.file = file := by
  intro violation hviolation
  rw [PolicySet.checkFile] at hviolation
  split at hviolation
  · rw [List.mem_singleton.mp hviolation]
    rfl
  · rw [read_eq, List.nil_append] at hviolation
    obtain ⟨ref, -, hfinding⟩ := List.mem_filterMap.mp hviolation
    exact finding?_file hfinding

/-- Every finding about a file is placed in it. -/
theorem fileViolations_file (check : Check) (source : SourceFile) (text : String) :
    ∀ violation ∈ check.fileViolations source text,
      violation.location.file = source.localPath check.root := by
  intro violation hviolation
  rw [Check.fileViolations, Checker.check] at hviolation
  obtain ⟨unmarked, hunmarked, rfl⟩ := List.mem_map.mp hviolation
  exact checkFile_file _ _ _ unmarked hunmarked

section Findings

variable {check : Check} {files : List SourceFile} {found : List Violation}

theorem violations_cons {source : SourceFile}
    (h : check.violations (source :: files) = .ok found) :
    ∃ text later, decodeText source.bytes = .ok text ∧ check.violations files = .ok later ∧
      found = check.fileViolations source text ++ later := by
  rw [Check.violations] at h
  split at h
  · cases h
  · next text htext =>
    split at h
    · cases h
    · next later hlater =>
      cases h
      exact ⟨text, later, htext, hlater, rfl⟩

theorem filter_violations_eq_nil (h : check.violations files = .ok found) {path : String}
    (hpath : path ∉ files.map (·.localPath check.root)) :
    found.filter (·.location.file = path) = [] := by
  induction files generalizing found with
  | nil =>
      cases h
      rfl
  | cons source files ih =>
      obtain ⟨text, later, -, hlater, rfl⟩ := violations_cons h
      simp only [List.map_cons, List.mem_cons, not_or] at hpath
      rw [List.filter_append, ih hlater hpath.2, List.append_nil, List.filter_eq_nil_iff]
      intro violation hviolation
      rw [fileViolations_file check source text violation hviolation]
      simpa using Ne.symm hpath.1

/-- Where files have different paths, what is found at the path of one is what it gives by itself. -/
theorem filter_violations (h : check.violations files = .ok found)
    (hnodup : (files.map (·.localPath check.root)).Nodup) {source : SourceFile}
    (hsource : source ∈ files) :
    ∃ text, decodeText source.bytes = .ok text ∧
      found.filter (·.location.file = source.localPath check.root) =
        check.fileViolations source text := by
  induction files generalizing found with
  | nil => cases hsource
  | cons first files ih =>
      obtain ⟨text, later, htext, hlater, rfl⟩ := violations_cons h
      rw [List.map_cons, List.nodup_cons] at hnodup
      rw [List.filter_append]
      rcases List.mem_cons.mp hsource with rfl | hsource
      · refine ⟨text, htext, ?_⟩
        rw [filter_violations_eq_nil hlater hnodup.1, List.append_nil, List.filter_eq_self]
        intro violation hviolation
        simpa using fileViolations_file check source text violation hviolation
      · obtain ⟨text', htext', hfilter⟩ := ih hlater hnodup.2 hsource
        refine ⟨text', htext', ?_⟩
        rw [hfilter, List.filter_eq_nil_iff.mpr, List.nil_append]
        intro violation hviolation
        rw [fileViolations_file check first text violation hviolation]
        have hother : first.localPath check.root ≠ source.localPath check.root := by
          intro heq
          rw [heq] at hnodup
          exact hnodup.1 (List.mem_map_of_mem hsource)
        simpa using hother

end Findings

theorem lint_eq_ok {disk : Disk} {path : String} {config : Config} {exclude : List String}
    {report : Report} (h : disk.lint path config exclude = .ok report) :
    ∃ check found, disk.check path config exclude = .ok check ∧
      check.violations check.files = .ok found ∧
      report = Report.sort ⟨found, check.files.length⟩ := by
  rw [Disk.lint] at h
  split at h
  · cases h
  · next check hcheck =>
    rw [Check.run] at h
    split at h
    · cases h
    · next found hfound =>
      cases h
      exact ⟨check, found, hcheck, hfound, rfl⟩

theorem checker_congr {config config' : Config} (hpolicies : config.policies = config'.policies)
    (hseverity : config.severity = config'.severity) (hdocs : config.docs = config'.docs) :
    config.checker = config'.checker := by
  rw [Config.checker, Config.checker, Config.policySet, Config.policySet, hpolicies, hseverity, hdocs]

theorem forwardSlashes_of_not_mem {path : String} (h : '\\' ∉ path.toList) :
    forwardSlashes path = path := by
  rw [← String.toList_inj, forwardSlashes, String.toList_map]
  calc
    path.toList.map _ = path.toList.map id := by
      refine List.map_congr_left fun c hc => if_neg ?_
      rintro rfl
      exact h hc
    _ = path.toList := List.map_id _

/-- A run that succeeded, in a tree as file systems have it. -/
structure LintRun where
  disk : Disk
  path : String
  config : Config
  exclude : List String
  report : Report
  wellFormed : WellFormed disk.root
  succeeds : disk.lint path config exclude = .ok report

/-- A file that a run discovered, with its path below the root. -/
structure Discovered where
  path : String
  bytes : ByteArray
  dialect : Script.Dialect

instance : DecidableEq Discovered := fun left right =>
  decidable_of_iff (left.path = right.path ∧ left.bytes.data = right.bytes.data ∧
    left.dialect = right.dialect) <| by
      obtain ⟨path, ⟨data⟩, dialect⟩ := left
      obtain ⟨path', ⟨data'⟩, dialect'⟩ := right
      simp only [Discovered.mk.injEq, ByteArray.mk.injEq]

def discoveries (check : Check) : List Discovered :=
  check.files.map fun source =>
    ⟨relativeTo check.root source.path, source.bytes, source.dialect⟩

namespace LintRun

def discovered (run : LintRun) : List Discovered :=
  match run.disk.check run.path run.config run.exclude with
  | .ok check => discoveries check
  | .error _ => []

/-- What a run reports about the file of a path, in the order of the report. -/
def findings (run : LintRun) (path : String) : List Violation :=
  run.report.violations.filter (·.location.file = path)

def WithoutBackslashes (run : LintRun) : Prop :=
  ∀ file ∈ run.discovered, '\\' ∉ file.path.toList

variable {run : LintRun}

theorem findings_eq_mergeSort {found : List Violation} {checked : Nat}
    (h : run.report = Report.sort ⟨found, checked⟩) (path : String) :
    run.findings path =
      (found.filter (·.location.file = path)).mergeSort Violation.placedBefore := by
  rw [findings, h]
  exact filter_sort ⟨found, checked⟩ _

theorem discovered_eq {check : Check}
    (hcheck : run.disk.check run.path run.config run.exclude = .ok check) :
    run.discovered = discoveries check := by
  rw [discovered, hcheck]

theorem localPath_eq {check : Check}
    (hcheck : run.disk.check run.path run.config run.exclude = .ok check)
    (hslashes : run.WithoutBackslashes) :
    ∀ source ∈ check.files, source.localPath check.root = relativeTo check.root source.path := by
  intro source hsource
  apply forwardSlashes_of_not_mem
  refine hslashes ⟨_, source.bytes, source.dialect⟩ ?_
  rw [discovered_eq hcheck]
  exact List.mem_map_of_mem hsource

/-- A run reports about a file what the policies give on that file by itself. -/
theorem findings_eq (hslashes : run.WithoutBackslashes) {file : Discovered}
    (hfile : file ∈ run.discovered) :
    ∃ checker text, run.config.checker = .ok checker ∧ decodeText file.bytes = .ok text ∧
      run.findings file.path =
        (checker.check file.path (Script.imports file.dialect text)).mergeSort
          Violation.placedBefore := by
  obtain ⟨check, found, hcheck, hfound, hreport⟩ := lint_eq_ok run.succeeds
  obtain ⟨_, _, hchecker, -⟩ := check_eq_ok hcheck
  have hlocal := localPath_eq hcheck hslashes
  have hnodup : (check.files.map (·.localPath check.root)).Nodup := by
    rw [List.map_congr_left hlocal]
    exact check_files_nodup run.wellFormed hcheck
  rw [discovered_eq hcheck] at hfile
  obtain ⟨source, hsource, rfl⟩ := List.mem_map.mp hfile
  obtain ⟨text, htext, hfilter⟩ := filter_violations hfound hnodup hsource
  refine ⟨check.checker, text, hchecker, htext, ?_⟩
  rw [findings_eq_mergeSort hreport, ← hlocal source hsource, hfilter, hlocal source hsource]
  rfl

/-- A run reports nothing about a file that it did not discover. -/
theorem findings_eq_nil (hslashes : run.WithoutBackslashes) {path : String}
    (hpath : path ∉ run.discovered.map Discovered.path) : run.findings path = [] := by
  obtain ⟨check, found, hcheck, hfound, hreport⟩ := lint_eq_ok run.succeeds
  have hfiles : path ∉ check.files.map (·.localPath check.root) := by
    rw [List.map_congr_left (localPath_eq hcheck hslashes)]
    rw [discovered_eq hcheck, discoveries, List.map_map] at hpath
    exact hpath
  rw [findings_eq_mergeSort hreport, filter_violations_eq_nil hfound hfiles, List.mergeSort_nil]

theorem exists_script (run : LintRun) {file : Discovered} (hfile : file ∈ run.discovered) :
    ∃ base source, IsScriptBelow base source ∧ relativeTo base source.path = file.path ∧
      source.dialect = file.dialect := by
  obtain ⟨check, found, hcheck, -⟩ := lint_eq_ok run.succeeds
  rw [discovered_eq hcheck] at hfile
  obtain ⟨source, hsource, rfl⟩ := List.mem_map.mp hfile
  exact ⟨check.root, source, check_files_below run.wellFormed hcheck source hsource, rfl, rfl⟩

end LintRun

theorem eq_ok_of_toOption {ε α : Type} {outcome : Except ε α} {value : α}
    (h : outcome.toOption = some value) : outcome = .ok value := by
  cases outcome with
  | error cause => cases h
  | ok other => rw [Option.some.inj h]

def libraryConfig (root : String) : Config :=
  { Config.default with policies := [⟨"**", ["lib/**"]⟩], analyzer := ⟨root, [], true⟩ }

/-- A run below `root` in a tree of some files, all of which have to import from `lib`. -/
def libraryRun (root : String) (files : List (List Segment × ByteArray)) (exclude : List String)
    (report : Report) (hnames : ∀ file ∈ files, ∀ name ∈ file.1, IsEntryName name)
    (hreport : (Disk.lint ⟨written files, []⟩ "." (libraryConfig root) exclude).toOption =
      some report) : LintRun where
  disk := ⟨written files, []⟩
  path := "."
  config := libraryConfig root
  exclude := exclude
  report := report
  wellFormed := written_wellFormed hnames
  succeeds := eq_ok_of_toOption hreport

end ImportLint.Proofs.FileIndependence
