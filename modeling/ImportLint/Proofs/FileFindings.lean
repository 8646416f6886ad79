import ImportLint.Checker
import ImportLint.Proofs.PolicyCompilation

/-!
What a check of one file reports, in terms of the entries as written and of the imports that it takes.
-/

namespace ImportLint.Proofs.FileFindings

open ImportLint.Path
open ImportLint.Proofs.PolicyCompilation

/-- A finding about a file that no policy covers. -/
structure ReportsFile (file : String) (violation : Violation) : Prop where
  kind : violation.kind = .badFilename
  code : violation.code = "IMP002"
  location : violation.location = ⟨file, 1, 1⟩
  restrictions : violation.restrictions = none

/-- A finding about an import of `file` that `entry` does not allow. -/
structure ReportsImport (file : String) (entry : PolicyEntry) (ref : ImportRef)
    (violation : Violation) : Prop where
  kind : violation.kind = .badImport
  code : violation.code = "IMP001"
  location : violation.location = ⟨file, ref.line, ref.column⟩
  restrictions : violation.restrictions = some entry.restrictions
  message : violation.message =
    "import violates '" ++ " or ".intercalate entry.restrictions ++ "' restrictions"

/-- The imports that an entry does not allow. -/
def denied (entry : PolicyEntry) (imports : List ImportRef) : List ImportRef :=
  imports.filter fun ref => !allows entry ref.resolved

theorem badFilename_reports (file : String) : ReportsFile file (.badFilename file) :=
  ⟨rfl, rfl, rfl, rfl⟩

theorem badImport_reports (file : String) (entry : PolicyEntry) (ref : ImportRef) :
    ReportsImport file entry ref
      (.badImport ⟨file, ref.line, ref.column⟩ entry.restrictions) :=
  ⟨rfl, rfl, rfl, rfl, rfl⟩

/-- Reading goes through the imports to the last one and adds the findings of each in turn. -/
theorem read_eq (policy : Policy) (file : String) (found : List Violation)
    (taken imports : List ImportRef) :
    policy.read file found taken imports =
      ⟨found ++ imports.filterMap (policy.finding? file), taken ++ imports, []⟩ := by
  induction imports generalizing found taken with
  | nil => simp [Policy.read]
  | cons ref rest ih =>
      rw [Policy.read, ih]
      cases hfinding : policy.finding? file ref with
      | none => simp [hfinding]
      | some violation => simp [hfinding]

theorem filterMap_finding?_reports {entry : PolicyEntry} {policy : Policy}
    (h : Compiled entry policy) (file : String) (imports : List ImportRef) :
    List.Forall₂ (ReportsImport file entry) (denied entry imports)
      (imports.filterMap (policy.finding? file)) := by
  induction imports with
  | nil => exact .nil
  | cons ref rest ih =>
      rw [denied, List.filterMap_cons, h.finding?_eq]
      by_cases hallows : allows entry ref.resolved = true
      · simpa [denied, hallows] using ih
      · simpa [denied, hallows] using ⟨badImport_reports file entry ref, ih⟩

theorem mark_reportsFile (checker : Checker) {file : String} {violation : Violation}
    (h : ReportsFile file violation) : ReportsFile file (checker.mark violation) :=
  ⟨h.kind, h.code, h.location, h.restrictions⟩

theorem mark_reportsImport (checker : Checker) {file : String} {entry : PolicyEntry}
    {ref : ImportRef} {violation : Violation} (h : ReportsImport file entry ref violation) :
    ReportsImport file entry ref (checker.mark violation) :=
  ⟨h.kind, h.code, h.location, h.restrictions, h.message⟩

/-- The findings of a checker are those of its policies with its marks. -/
theorem check_findings {entries : List PolicyEntry} {checker : Checker}
    (h : PolicySet.compile entries = .ok checker.policies) (path : String)
    (sites : List ImportSite) :
    match entries.find? fun entry => targets entry (forwardSlashes path) with
    | none =>
      ∃ violation, checker.check path sites = [violation] ∧
        ReportsFile (forwardSlashes path) violation
    | some entry =>
      List.Forall₂ (ReportsImport (forwardSlashes path) entry)
        (denied entry (sites.map (·.ref (forwardSlashes path)))) (checker.check path sites) := by
  have hselect := select?_rel h (forwardSlashes path)
  rw [Checker.check, PolicySet.checkFile]
  generalize (entries.find? fun entry => targets entry (forwardSlashes path)) = chosen
    at hselect ⊢
  generalize checker.policies.select? (forwardSlashes path) = governing at hselect ⊢
  cases hselect with
  | none => exact ⟨_, rfl, mark_reportsFile checker (badFilename_reports _)⟩
  | @some entry policy hcompiled =>
      simp only [read_eq, List.nil_append]
      rw [List.forall₂_map_right_iff]
      exact (filterMap_finding?_reports hcompiled _ _).imp fun _ _ => mark_reportsImport checker

/-- A file that no entry speaks about is one finding and no import is taken; for any other the imports
are taken each in turn, and the findings are one for one about those that the first entry which speaks
about the file does not allow. -/
theorem checkFile_findings {entries : List PolicyEntry} {set : PolicySet}
    (h : PolicySet.compile entries = .ok set) (file : String) (imports : List ImportRef) :
    match entries.find? fun entry => targets entry file with
    | none =>
      ∃ violation, ReportsFile file violation ∧
        set.checkFile file imports = ⟨[violation], [], imports⟩
    | some entry =>
      ∃ violations, List.Forall₂ (ReportsImport file entry) (denied entry imports) violations ∧
        set.checkFile file imports = ⟨violations, imports, []⟩ := by
  have hselect := select?_rel h file
  rw [PolicySet.checkFile]
  generalize (entries.find? fun entry => targets entry file) = chosen at hselect ⊢
  generalize set.select? file = governing at hselect ⊢
  cases hselect with
  | none => exact ⟨.badFilename file, badFilename_reports file, rfl⟩
  | @some entry policy hcompiled =>
      refine ⟨imports.filterMap (policy.finding? file),
        filterMap_finding?_reports hcompiled file imports, ?_⟩
      exact read_eq policy file [] [] imports

theorem checkFile_findings_second_entry :
    ∃ set violations,
      PolicySet.compile [⟨"test/**", ["**"]⟩, ⟨"*.ts", ["a/**", "b/**"]⟩, ⟨"**", ["**"]⟩] = .ok set ∧
      List.Forall₂ (ReportsImport "x.ts" ⟨"*.ts", ["a/**", "b/**"]⟩)
        [⟨"./mod", "c/y.ts", 2, 7⟩] violations ∧
      set.checkFile "x.ts" [⟨"./mod", "a/x.ts", 1, 7⟩, ⟨"./mod", "c/y.ts", 2, 7⟩] =
        ⟨violations, [⟨"./mod", "a/x.ts", 1, 7⟩, ⟨"./mod", "c/y.ts", 2, 7⟩], []⟩ := by
  obtain ⟨set, hset⟩ : ∃ set, PolicySet.compile
      [⟨"test/**", ["**"]⟩, ⟨"*.ts", ["a/**", "b/**"]⟩, ⟨"**", ["**"]⟩] = .ok set := ⟨_, rfl⟩
  obtain ⟨violations, hviolations, hcheck⟩ := checkFile_findings hset "x.ts"
    [⟨"./mod", "a/x.ts", 1, 7⟩, ⟨"./mod", "c/y.ts", 2, 7⟩]
  exact ⟨set, violations, hset, hviolations, hcheck⟩

end ImportLint.Proofs.FileFindings
