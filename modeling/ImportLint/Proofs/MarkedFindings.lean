import ImportLint.Proofs.ReportContents

/-!
Marks of findings.  A checker hands a file and its imports to its policies under one path, which has
slashes in the places of backslashes, and gives every finding its own severity and reference.  Apart
from these two marks, checkers with the same policies find the same.
-/

namespace ImportLint.Proofs.MarkedFindings

open ImportLint.Path
open ImportLint.Proofs.FileFindings
open ImportLint.Proofs.ReportContents

/-- A path and the same path with a slash for every backslash. -/
def IsSlashed (path file : String) : Prop :=
  List.Forall₂ (fun c d => d = if c = '\\' then '/' else c) path.toList file.toList

/-- A character between the names of a path. -/
def IsSeparator (c : Char) : Prop :=
  c = '/' ∨ c = '\\'

/-- Paths that differ only in the separators that they are written with. -/
def SameButSeparators (left right : String) : Prop :=
  List.Forall₂ (fun c d => c = d ∨ IsSeparator c ∧ IsSeparator d) left.toList right.toList

theorem isSlashed_iff (path file : String) : IsSlashed path file ↔ file = forwardSlashes path := by
  rw [← String.toList_inj, forwardSlashes, String.toList_map, ← List.forall₂_eq_eq_eq,
    List.forall₂_map_right_iff]
  exact ⟨List.Forall₂.flip, List.Forall₂.flip⟩

theorem forwardSlashes_congr {left right : String} (h : SameButSeparators left right) :
    forwardSlashes left = forwardSlashes right := by
  rw [← String.toList_inj, forwardSlashes, forwardSlashes, String.toList_map, String.toList_map,
    ← List.forall₂_eq_eq_eq, List.forall₂_map_left_iff, List.forall₂_map_right_iff]
  refine h.imp fun c d hsame => ?_
  rcases hsame with rfl | ⟨rfl | rfl, rfl | rfl⟩ <;> rfl

theorem checkFile_docRef (set : PolicySet) (file : String) (imports : List ImportRef) :
    ∀ violation ∈ (set.checkFile file imports).violations, violation.docRef = none := by
  intro violation hviolation
  rw [PolicySet.checkFile] at hviolation
  split at hviolation
  · rw [List.mem_singleton.mp hviolation]
    rfl
  · rw [read_eq, List.nil_append] at hviolation
    obtain ⟨ref, -, hfinding⟩ := List.mem_filterMap.mp hviolation
    exact (finding?_coherent hfinding).2

/-- A finding with a severity and a reference, whatever it had before. -/
def marked (severity : Severity) (docRef : Option String) (violation : Violation) : Violation :=
  { violation with severity := severity, docRef := docRef }

theorem mark_eq_marked (checker : Checker) {violation : Violation} (h : violation.docRef = none) :
    checker.mark violation = marked checker.severity checker.docRef violation := by
  rw [Checker.mark, marked]
  cases checker.docRef with
  | none => rw [h]
  | some reference => rfl

theorem check_eq_marked (checker : Checker) (path : String) (sites : List ImportSite) :
    checker.check path sites =
      (checker.policies.checkFile (forwardSlashes path)
        (sites.map (·.ref (forwardSlashes path)))).violations.map
          (marked checker.severity checker.docRef) := by
  rw [Checker.check]
  exact List.map_congr_left fun violation hviolation =>
    mark_eq_marked checker (checkFile_docRef _ _ _ violation hviolation)

/-- Where a policy governs the file, the imports of a check are judged one after the other. -/
theorem checkFile_append {set : PolicySet} {file : String} (h : (set.select? file).isSome)
    (imports others : List ImportRef) :
    (set.checkFile file (imports ++ others)).violations =
      (set.checkFile file imports).violations ++ (set.checkFile file others).violations := by
  obtain ⟨policy, hpolicy⟩ := Option.isSome_iff_exists.mp h
  rw [PolicySet.checkFile, PolicySet.checkFile, PolicySet.checkFile, hpolicy]
  simp only [read_eq, List.nil_append, List.filterMap_append]

/-- A checker finds what its policies find under the path with slashes, for the file and for each of its
imports in turn, and changes nothing about the findings but their two marks.  So checkers with the same
policies differ only in the marks, it does not matter which separators a path is written with, and the
imports of a file with a policy can be checked in parts. -/
theorem check_marks_findings (checker : Checker) (path : String) (sites : List ImportSite) :
    ∃ file, IsSlashed path file ∧
      (checker.check path sites =
        (checker.policies.checkFile file (sites.map fun site =>
          { specifier := site.specifier, source := file, line := site.line,
            column := site.column })).violations.map fun violation =>
              { violation with severity := checker.severity, docRef := checker.docRef }) ∧
      (∀ severity docRef,
        Checker.check ⟨checker.policies, severity, docRef⟩ path sites =
          (checker.check path sites).map fun violation =>
            { violation with severity := severity, docRef := docRef }) ∧
      (∀ other, SameButSeparators path other →
        checker.check other sites = checker.check path sites) ∧
      ((checker.policies.select? file).isSome → ∀ others,
        checker.check path (sites ++ others) =
          checker.check path sites ++ checker.check path others) := by
  refine ⟨forwardSlashes path, (isSlashed_iff path _).mpr rfl, check_eq_marked checker path sites,
    ?_, ?_, ?_⟩
  · intro severity docRef
    rw [check_eq_marked, check_eq_marked, List.map_map]
    rfl
  · intro other hother
    rw [Checker.check, Checker.check, forwardSlashes_congr hother]
  · intro hgoverned others
    rw [Checker.check, Checker.check, Checker.check, List.map_append,
      checkFile_append hgoverned, List.map_append]

theorem check_marks_findings_backslashes :
    ∃ policies,
      PolicySet.compile [⟨"src/**", ["src/**"]⟩] = .ok policies ∧
      Checker.check ⟨policies, .warning, some "layers.md"⟩ "src\\a.ts" [⟨1, 8, "../b"⟩] =
        [{ Violation.badImport ⟨"src/a.ts", 1, 8⟩ ["src/**"] with
          severity := .warning, docRef := some "layers.md" }] ∧
      SameButSeparators "src\\a.ts" "src/a.ts" ∧
      Checker.check ⟨policies, .warning, some "layers.md"⟩ "src/a.ts" [⟨1, 8, "../b"⟩] =
        Checker.check ⟨policies, .warning, some "layers.md"⟩ "src\\a.ts" [⟨1, 8, "../b"⟩] ∧
      ∀ others,
        Checker.check ⟨policies, .warning, some "layers.md"⟩ "src\\a.ts"
            ([⟨1, 8, "../b"⟩] ++ others) =
          Checker.check ⟨policies, .warning, some "layers.md"⟩ "src\\a.ts" [⟨1, 8, "../b"⟩] ++
            Checker.check ⟨policies, .warning, some "layers.md"⟩ "src\\a.ts" others := by
  obtain ⟨policies, hpolicies⟩ : ∃ policies,
      PolicySet.compile [⟨"src/**", ["src/**"]⟩] = .ok policies := ⟨_, rfl⟩
  have hvalue {α : Type} {f : PolicySet → α} {value : α}
      (h : (PolicySet.compile [⟨"src/**", ["src/**"]⟩]).toOption.map f = some value) :
      f policies = value := by
    rw [hpolicies] at h
    exact Option.some.inj h
  have hsame : SameButSeparators "src\\a.ts" "src/a.ts" := by
    change List.Forall₂ _ ['s', 'r', 'c', '\\', 'a', '.', 't', 's']
      ['s', 'r', 'c', '/', 'a', '.', 't', 's']
    simp [IsSeparator]
  obtain ⟨file, hslashed, -, -, hseparators, happend⟩ :=
    check_marks_findings ⟨policies, .warning, some "layers.md"⟩ "src\\a.ts" [⟨1, 8, "../b"⟩]
  obtain rfl : file = "src/a.ts" :=
    ((isSlashed_iff _ file).mp hslashed).trans (by decide +kernel)
  refine ⟨policies, hpolicies, ?_, hsame, hseparators _ hsame, happend ?_⟩
  · exact @hvalue _ (fun policies => Checker.check ⟨policies, .warning, some "layers.md"⟩ "src\\a.ts"
      [⟨1, 8, "../b"⟩]) _ (by decide +kernel)
  · exact @hvalue _ (fun policies => (policies.select? "src/a.ts").isSome) _ (by decide +kernel)

end ImportLint.Proofs.MarkedFindings
