import ImportLint.Lint
import ImportLint.Proofs.WalkPaths

/-!
The paths of the files of a check.  Below the root a file is known by the names that lead to it, so
that no two files of a check have one path, and all but the root itself show how they are read.
-/

namespace ImportLint.Proofs.DiscoveredPaths

open ImportLint.Path
open ImportLint.Proofs.PathWords
open ImportLint.Proofs.WalkPaths

theorem dropFront?_append {α : Type} [DecidableEq α] (front rest : List α) :
    dropFront? front (front ++ rest) = some rest := by
  induction front with
  | nil => rw [List.nil_append, dropFront?]
  | cons step front ih => rw [List.cons_append, dropFront?, if_pos rfl, ih]

theorem join_names (names : List Segment) :
    Component.join (names.map Component.name) = joinSlash names := by
  cases names with
  | nil => rfl
  | cons name names => simp [Component.join, Component.text, Function.comp_def]

/-- Below a directory, a path is the names that lead to it from there. -/
theorem relativeTo_eq {base path : String} {names : List Segment}
    (h : components path.toList = components base.toList ++ names.map Component.name) :
    relativeTo base path = String.ofList (joinSlash names) := by
  rw [relativeTo, h, dropFront?_append]
  simp only [join_names]

theorem joinSlash_injective_names {left right : List Segment}
    (hleft : ∀ name ∈ left, IsEntryName name) (hright : ∀ name ∈ right, IsEntryName name)
    (h : joinSlash left = joinSlash right) : left = right := by
  by_cases hleftNil : left = []
  · by_cases hrightNil : right = []
    · rw [hleftNil, hrightNil]
    · subst hleftNil
      exact absurd h.symm (joinSlash_ne_nil hrightNil fun name hname => (hright name hname).ne_nil)
  · by_cases hrightNil : right = []
    · subst hrightNil
      exact absurd h (joinSlash_ne_nil hleftNil fun name hname => (hleft name hname).ne_nil)
    · exact joinSlash_injective_on hleftNil hrightNil (fun name hname => (hleft name hname).2)
        (fun name hname => (hright name hname).2) h

theorem relativeTo_eq_empty_iff {base path : String} {names : List Segment}
    (hnames : ∀ name ∈ names, IsEntryName name)
    (h : components path.toList = components base.toList ++ names.map Component.name) :
    relativeTo base path = "" ↔ names = [] := by
  rw [relativeTo_eq h]
  constructor
  · intro hempty
    have hnone : joinSlash names = [] := by simpa using hempty
    exact joinSlash_injective_names hnames (by simp) hnone
  · rintro rfl
    rfl

theorem fileName?_eq {base : List Component} {path : String} {names : List Segment}
    (hne : names ≠ []) (h : components path.toList = base ++ names.map Component.name) :
    fileName? path = some (names.getLast hne) := by
  have hlast : (components path.toList).getLast? = some (.name (names.getLast hne)) := by
    rw [h, List.getLast?_append, List.getLast?_map, List.getLast?_eq_some_getLast hne]
    rfl
  rw [fileName?, hlast]

/-- Paths that are the same below two directories lead along the same names. -/
theorem common_names {base base' path path' : String}
    (h : IsBelow (components base.toList) path) (h' : IsBelow (components base'.toList) path')
    (hpath : relativeTo base path = relativeTo base' path') :
    ∃ names : List Segment, (∀ name ∈ names, IsEntryName name) ∧
      components path.toList = components base.toList ++ names.map Component.name ∧
      components path'.toList = components base'.toList ++ names.map Component.name := by
  obtain ⟨names, hnames, hcomponents⟩ := h
  obtain ⟨names', hnames', hcomponents'⟩ := h'
  rw [relativeTo_eq hcomponents, relativeTo_eq hcomponents'] at hpath
  obtain rfl : names = names' :=
    joinSlash_injective_names hnames hnames' (String.ofList_injective hpath)
  exact ⟨names, hnames, hcomponents, hcomponents'⟩

/-- A script below a directory, read as its extension says. -/
structure IsScriptBelow (base : String) (source : SourceFile) : Prop where
  below : IsBelow (components base.toList) source.path
  dialect : Script.Dialect.ofExtension? (extension source.path) = some source.dialect

/-- Scripts of one path below two directories are read alike, unless they are the directories
themselves. -/
theorem IsScriptBelow.dialect_eq {base base' : String} {source source' : SourceFile}
    (h : IsScriptBelow base source) (h' : IsScriptBelow base' source')
    (hpath : relativeTo base source.path = relativeTo base' source'.path)
    (hne : relativeTo base source.path ≠ "") : source.dialect = source'.dialect := by
  obtain ⟨names, hnames, hcomponents, hcomponents'⟩ := common_names h.below h'.below hpath
  have hnamesNe : names ≠ [] := fun hnil =>
    hne ((relativeTo_eq_empty_iff hnames hcomponents).mpr hnil)
  have hdialect := h.dialect
  rw [extension, fileName?_eq hnamesNe hcomponents, ← fileName?_eq hnamesNe hcomponents',
    ← extension, h'.dialect] at hdialect
  exact (Option.some.inj hdialect).symm

theorem sourceFile?_file (path : String) (bytes : ByteArray) :
    WalkEntry.sourceFile? ⟨path, .file bytes⟩ =
      if Disk.isTooLong path then none
      else (Script.Dialect.ofExtension? (extension path)).map fun dialect => ⟨path, bytes, dialect⟩ := by
  rw [WalkEntry.sourceFile?]
  dsimp only
  cases Script.Dialect.ofExtension? (extension path) <;> rfl

theorem sourceFile?_directory (path : String) (children : List (Segment × Node)) :
    WalkEntry.sourceFile? ⟨path, .directory children⟩ = none := by
  rw [WalkEntry.sourceFile?]
  split <;> rfl

theorem sourceFile?_eq_some {entry : WalkEntry} {source : SourceFile}
    (h : entry.sourceFile? = some source) :
    source.path = entry.path ∧
      Script.Dialect.ofExtension? (extension source.path) = some source.dialect := by
  rw [WalkEntry.sourceFile?] at h
  split at h
  · cases h
  · split at h
    · next hdialect =>
      obtain rfl := Option.some.inj h
      exact ⟨rfl, hdialect⟩
    · cases h

theorem mem_discover {root : String} {exclude : ExcludeSet} {entries : List WalkEntry}
    {source : SourceFile} (h : source ∈ discover root exclude entries) :
    ∃ entry ∈ entries, entry.sourceFile? = some source := by
  rw [discover, List.mem_mergeSort] at h
  exact List.mem_filterMap.mp (List.mem_of_mem_filter h)

theorem map_path_filterMap_sublist (entries : List WalkEntry) :
    ((entries.filterMap WalkEntry.sourceFile?).map SourceFile.path).Sublist
      (entries.map WalkEntry.path) := by
  induction entries with
  | nil => exact .slnil
  | cons entry entries ih =>
      rw [List.filterMap_cons]
      cases hsource : entry.sourceFile? with
      | none => exact ih.cons _
      | some source =>
          simp only [List.map_cons, (sourceFile?_eq_some hsource).1]
          exact ih.cons_cons _

theorem discover_nodup {root : String} {exclude : ExcludeSet} {entries : List WalkEntry}
    (h : (entries.map fun entry => components entry.path.toList).Nodup) :
    ((discover root exclude entries).map fun source => components source.path.toList).Nodup := by
  have hsources : ((entries.filterMap WalkEntry.sourceFile?).map fun source =>
      components source.path.toList).Nodup := by
    have hsublist := (map_path_filterMap_sublist entries).map fun path => components path.toList
    rw [List.map_map, List.map_map] at hsublist
    exact hsublist.nodup h
  rw [discover, ((List.mergeSort_perm _ _).map _).nodup_iff]
  exact (List.filter_sublist.map _).nodup hsources

/-- A check is made of what its configuration judges by and of what a walk from its root finds. -/
theorem check_eq_ok {disk : Disk} {path : String} {config : Config} {exclude : List String}
    {check : Check} (h : disk.check path config exclude = .ok check) :
    ∃ excluded entries, config.checker = .ok check.checker ∧
      ExcludeSet.compile (config.analyzer.exclude ++ exclude) = .ok excluded ∧
      check.root = Path.join path config.analyzer.root ∧
      disk.walk config.analyzer.respectGitignore check.root = .ok entries ∧
      check.files = discover check.root excluded entries := by
  rw [Disk.check] at h
  split at h
  · cases h
  · next checker hchecker =>
    split at h
    · cases h
    · next excluded hexcluded =>
      dsimp only at h
      split at h
      · cases h
      · next entries hwalk =>
        cases h
        exact ⟨excluded, entries, hchecker, hexcluded, rfl, hwalk, rfl⟩

section CheckedFiles

variable {disk : Disk} (hdisk : WellFormed disk.root) {path : String} {config : Config}
  {exclude : List String} {check : Check} (hcheck : disk.check path config exclude = .ok check)

include hdisk hcheck

theorem check_files_below : ∀ source ∈ check.files, IsScriptBelow check.root source := by
  obtain ⟨excluded, entries, -, -, -, hwalk, hfiles⟩ := check_eq_ok hcheck
  intro source hsource
  rw [hfiles] at hsource
  obtain ⟨entry, hentry, hsource⟩ := mem_discover hsource
  obtain ⟨hpath, hdialect⟩ := sourceFile?_eq_some hsource
  refine ⟨?_, hdialect⟩
  rw [hpath]
  exact (walk_paths hdisk hwalk).1 entry hentry

/-- No two files of a check have one path below its root. -/
theorem check_files_nodup :
    (check.files.map fun source => relativeTo check.root source.path).Nodup := by
  obtain ⟨excluded, entries, -, -, -, hwalk, hfiles⟩ := check_eq_ok hcheck
  have hplaces : (check.files.map fun source => components source.path.toList).Nodup := by
    rw [hfiles]
    exact discover_nodup (walk_paths hdisk hwalk).2
  refine List.pairwise_map.mpr ((List.pairwise_map.mp hplaces).imp_of_mem ?_)
  intro source source' hsource hsource' hne heq
  have hbelow := check_files_below hdisk hcheck
  obtain ⟨names, -, hcomponents, hcomponents'⟩ :=
    common_names (hbelow source hsource).below (hbelow source' hsource').below heq
  exact hne (hcomponents.trans hcomponents'.symm)

end CheckedFiles

end ImportLint.Proofs.DiscoveredPaths
