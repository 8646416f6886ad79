import ImportLint.ImportSite
import ImportLint.Path.Component
import ImportLint.Policy

/-!
Checkers: policies together with what every finding is given, its severity and the place where the
layout is documented.  A file is known to its policies by its path with forward slashes.
-/

namespace ImportLint

/-- An import site as an import of `file`. -/
def ImportSite.ref (file : String) (site : ImportSite) : ImportRef :=
  ⟨site.specifier, file, site.line, site.column⟩

/-- Policies and the marks of their findings. -/
structure Checker where
  policies : PolicySet
  severity : Severity
  docRef : Option String

namespace Checker

/-- Gives a finding the severity of the checker, and its reference if it has one. -/
def mark (checker : Checker) (violation : Violation) : Violation :=
  { violation with
    severity := checker.severity
    docRef := match checker.docRef with
      | some reference => some reference
      | none => violation.docRef }

/-- The findings about one file. -/
def check (checker : Checker) (path : String) (sites : List ImportSite) : List Violation :=
  let file := Path.forwardSlashes path
  (checker.policies.checkFile file (sites.map (·.ref file))).violations.map checker.mark

end Checker

end ImportLint
