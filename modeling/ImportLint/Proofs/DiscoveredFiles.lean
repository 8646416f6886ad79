import ImportLint.Proofs.ExcludeGlobs
import ImportLint.Proofs.PathOrder
import Mathlib.Data.List.Nodup

/-!
Discovered files.  All files of a check are below one root, so that comparing their whole paths is
comparing what leads to them from there, and what is found in a run is what is found in each discovered
file.  The way that the root is spelled plays no part.
-/

namespace ImportLint.Proofs.DiscoveredFiles

open ImportLint.Path
open ImportLint.Proofs.PathOrder
open ImportLint.Proofs.PathWords
open ImportLint.Proofs.WalkPaths
open ImportLint.Proofs.DiscoveredPaths
open ImportLint.Proofs.FileIndependence
open ImportLint.Proofs.ExcludeGlobs

/-- A common front plays no part in the order of paths. -/
theorem compare_append_left (front left right : List (List Nat)) :
    compare (front ++ left) (front ++ right) = compare left right := by
  induction front with
  | nil => rfl
  | cons step front ih =>
      have hstep : compare step step = .eq := Std.ReflCmp.compare_self
      change List.compareLex compare (step :: (front ++ left)) (step :: (front ++ right)) = _
      rw [List.compareLex_cons_cons, hstep]
      exact ih

theorem components_joinSlash {names : List Segment} (h : ∀ name ∈ names, IsEntryName name) :
    components (joinSlash names) = names.map Component.name := by
  rcases names with _ | ⟨name, names⟩
  · rfl
  · have hname : IsEntryName name := h name (by simp)
    have hsplit : splitSlash (joinSlash (name :: names)) = name :: names :=
      splitSlash_joinSlash (by simp) fun segment hsegment => (h segment hsegment).2
    have hrest : names.filterMap Component.ofSegment? = names.map Component.name := by
      rw [← List.filterMap_eq_map]
      refine List.filterMap_congr fun segment hsegment => ?_
      exact ofSegment?_name (h segment (List.mem_cons_of_mem _ hsegment)).1
    have hne : joinSlash (name :: names) ≠ [] :=
      joinSlash_ne_nil (by simp) fun segment hsegment => (h segment hsegment).ne_nil
    rw [components_eq hne hsplit, leading, if_neg hname.ne_nil, if_neg hname.ne_here,
      ofSegment?_name hname.1, hrest]
    rfl

theorem before_antisymm {left right : SourceFile} (h : left.before right = true)
    (h' : right.before left = true) :
    components left.path.toList = components right.path.toList :=
  key_injective (Std.LawfulEqCmp.eq_of_compare (Std.OrientedCmp.isLE_antisymm h h'))

/-- The components of a path below a directory are those of the path from there on, behind those of the
directory. -/
theorem components_relativeTo {base path : String}
    (h : IsBelow (components base.toList) path) :
    components path.toList =
      components base.toList ++ components (relativeTo base path).toList := by
  obtain ⟨names, hnames, hcomponents⟩ := h
  rw [relativeTo_eq hcomponents, String.toList_ofList, components_joinSlash hnames, hcomponents]

theorem compare_key_eq {base left right : String} (hleft : IsBelow (components base.toList) left)
    (hright : IsBelow (components base.toList) right) :
    compare (key left) (key right) =
      compare (key (relativeTo base left)) (key (relativeTo base right)) := by
  rw [key, key, components_relativeTo hleft, components_relativeTo hright, List.map_append,
    List.map_append, compare_append_left]
  rfl

/-- What is discovered with a file, however the root is spelled. -/
def discovered (root : String) (source : SourceFile) : Discovered :=
  ⟨relativeTo root source.path, source.bytes, source.dialect⟩

/-- Whether one discovered file is not behind another. -/
def notBehind (left right : Discovered) : Bool :=
  (compare (key left.path) (key right.path)).isLE

theorem notBehind_trans (left middle right : Discovered) (h : notBehind left middle = true)
    (h' : notBehind middle right = true) : notBehind left right = true :=
  Std.TransCmp.isLE_trans h h'

theorem notBehind_total (left right : Discovered) :
    (notBehind left right || notBehind right left) = true :=
  before_total ⟨left.path, left.bytes, left.dialect⟩ ⟨right.path, right.bytes, right.dialect⟩

/-- Files can be sorted before or after the root is taken off their paths. -/
theorem map_discovered_mergeSort {root : String} {sources : List SourceFile}
    (h : ∀ source ∈ sources, IsBelow (components root.toList) source.path) :
    (sources.mergeSort SourceFile.before).map (discovered root) =
      (sources.map (discovered root)).mergeSort notBehind := by
  apply List.map_mergeSort
  intro left hleft right hright
  rw [SourceFile.before, compare_key_eq (h left hleft) (h right hright)]
  rfl

section CheckedFiles

variable {disk : Disk} (hdisk : WellFormed disk.root) {path : String} {config : Config}
  {exclude : List String} {check : Check} (hcheck : disk.check path config exclude = .ok check)

include hdisk hcheck

theorem discoveries_nodup : ((discoveries check).map Discovered.path).Nodup := by
  have hnodup := check_files_nodup hdisk hcheck
  rw [discoveries, List.map_map]
  exact hnodup

/-- No two discovered files are at one place of the order. -/
theorem discoveries_antisymm {left right : Discovered} (hleft : left ∈ discoveries check)
    (hright : right ∈ discoveries check) (h : notBehind left right = true)
    (h' : notBehind right left = true) : left = right := by
  have hkey : key left.path = key right.path :=
    Std.LawfulEqCmp.eq_of_compare (Std.OrientedCmp.isLE_antisymm h h')
  obtain ⟨source, hsource, rfl⟩ := List.mem_map.mp hleft
  obtain ⟨source', hsource', rfl⟩ := List.mem_map.mp hright
  obtain ⟨names, hnames, hcomponents⟩ := (check_files_below hdisk hcheck source hsource).below
  obtain ⟨names', hnames', hcomponents'⟩ := (check_files_below hdisk hcheck source' hsource').below
  have hsame := key_injective hkey
  simp only [relativeTo_eq hcomponents, relativeTo_eq hcomponents', String.toList_ofList,
    components_joinSlash hnames, components_joinSlash hnames'] at hsame
  refine List.inj_on_of_nodup_map (discoveries_nodup hdisk hcheck) hleft hright ?_
  simp only [relativeTo_eq hcomponents, relativeTo_eq hcomponents']
  rw [List.map_injective_iff.mpr (fun _ _ => Component.name.inj) hsame]

end CheckedFiles

/-- What is found in a discovered file; one that is no text has no findings. -/
def findings (checker : Checker) (file : Discovered) : List Violation :=
  match decodeText file.bytes with
  | .ok text => checker.check file.path (Script.imports file.dialect text)
  | .error _ => []

theorem violations_eq_flatMap {check : Check} {sources : List SourceFile} {found : List Violation}
    (h : check.violations sources = .ok found) :
    found = (sources.map (discovered check.root)).flatMap (findings check.checker) := by
  induction sources generalizing found with
  | nil =>
      cases h
      rfl
  | cons source sources ih =>
      obtain ⟨text, later, htext, hlater, rfl⟩ := violations_cons h
      have hsource : findings check.checker (discovered check.root source) =
          check.fileViolations source text := by
        rw [findings, discovered, htext]
        rfl
      rw [List.map_cons, List.flatMap_cons, hsource, ← ih hlater]

/-- A report holds what is found in the discovered files. -/
theorem lint_eq_ok_discoveries {disk : Disk} {path : String} {config : Config}
    {exclude : List String} {report : Report} (h : disk.lint path config exclude = .ok report) :
    ∃ check, disk.check path config exclude = .ok check ∧ config.checker = .ok check.checker ∧
      report = Report.sort
        ⟨(discoveries check).flatMap (findings check.checker), (discoveries check).length⟩ := by
  obtain ⟨check, found, hcheck, hfound, rfl⟩ := lint_eq_ok h
  obtain ⟨_, _, hchecker, -⟩ := check_eq_ok hcheck
  refine ⟨check, hcheck, hchecker, ?_⟩
  rw [violations_eq_flatMap hfound, discoveries, List.length_map]
  rfl

end ImportLint.Proofs.DiscoveredFiles
