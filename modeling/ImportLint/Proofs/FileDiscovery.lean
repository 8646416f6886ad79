import ImportLint.Proofs.CheckOutcome
import ImportLint.Proofs.ReorderedDirectories

/-!
Discovery of files.  A walk that comes to no place twice gives exactly its files with an extension of a
dialect that no glob leaves out, in the order of their paths.  The order in which the walk comes to them
plays no part, and so neither do the orders in which directories list what is in them.
-/

namespace ImportLint.Proofs.FileDiscovery

open ImportLint.Path
open ImportLint.Command
open ImportLint.Proofs.WalkPaths
open ImportLint.Proofs.PathOrder
open ImportLint.Proofs.ReportOrder
open ImportLint.Proofs.DiscoveredPaths
open ImportLint.Proofs.ExcludeGlobs
open ImportLint.Proofs.FileIndependence
open ImportLint.Proofs.DiscoveredFiles
open ImportLint.Proofs.CheckOutcome
open ImportLint.Proofs.ReorderedDirectories
open Relation

/-- An ending stands behind the last dot of a name, and something stands in front of that dot. -/
def HasExtension (name ending : Segment) : Prop :=
  '.' ∉ ending ∧ ∃ stem, stem ≠ [] ∧ name = stem ++ '.' :: ending

theorem dottedExtension_append {ending : Segment} (h : '.' ∉ ending) (stem : Segment) :
    dottedExtension (stem ++ '.' :: ending) = if stem = [] then [] else '.' :: ending := by
  have htail : (stem ++ '.' :: ending).reverse.takeWhile (· ≠ '.') = ending.reverse := by
    rw [List.reverse_append, List.reverse_cons, List.append_assoc, List.singleton_append,
      List.takeWhile_append_of_pos]
    · simp
    · intro c hc
      have hmem : c ∈ ending := List.mem_reverse.mp hc
      simpa using ne_of_mem_of_not_mem hmem h
  rw [dottedExtension, htail]
  simp

theorem exists_last_dot {name : Segment} (h : '.' ∈ name) :
    ∃ stem ending, name = stem ++ '.' :: ending ∧ '.' ∉ ending := by
  obtain ⟨back, front, hname, hback⟩ := List.eq_append_cons_of_mem (List.mem_reverse.mpr h)
  refine ⟨front.reverse, back.reverse, ?_, by simpa using hback⟩
  rw [← List.reverse_reverse name, hname]
  simp

theorem dottedExtension_eq_iff (name ending : Segment) :
    dottedExtension name = '.' :: ending ↔ HasExtension name ending := by
  constructor
  · intro h
    by_cases hdot : '.' ∈ name
    · obtain ⟨stem, rest, rfl, hrest⟩ := exists_last_dot hdot
      rw [dottedExtension_append hrest] at h
      split at h
      · cases h
      · next hstem =>
        obtain rfl : rest = ending := (List.cons.inj h).2
        exact ⟨hrest, stem, hstem, rfl⟩
    · simp [dottedExtension, hdot] at h
  · rintro ⟨hending, stem, hstem, rfl⟩
    rw [dottedExtension_append hending, if_neg hstem]

theorem dottedExtension_cases (name : Segment) :
    dottedExtension name = [] ∨ ∃ ending, dottedExtension name = '.' :: ending := by
  rw [dottedExtension]
  split
  · exact .inl rfl
  · dsimp only
    split
    · exact .inl rfl
    · exact .inr ⟨_, rfl⟩

theorem ofExtension?_eq_some_iff (extension : String) (dialect : Script.Dialect) :
    Script.Dialect.ofExtension? extension = some dialect ↔ extension ∈ dialect.extensions := by
  have hdisjoint : ∀ extension ∈ Script.Dialect.tsx.extensions,
      extension ∉ Script.Dialect.typescript.extensions := by decide
  rw [Script.Dialect.ofExtension?, List.find?_cons, List.find?_cons, List.find?_nil]
  cases htypescript : Script.Dialect.typescript.extensions.contains extension <;>
    cases htsx : Script.Dialect.tsx.extensions.contains extension <;>
    cases dialect <;> simp_all

/-- The last component of a path is a name with an extension of a dialect. -/
def IsScriptOf (dialect : Script.Dialect) (path : String) : Prop :=
  ∃ name ending, (components path.toList).getLast? = some (.name name) ∧
    HasExtension name ending ∧ String.ofList ('.' :: ending) ∈ dialect.extensions

theorem fileName?_eq_some_iff (path : String) (name : Segment) :
    fileName? path = some name ↔ (components path.toList).getLast? = some (.name name) := by
  rw [fileName?]
  split <;> simp_all

theorem isScriptOf_iff (dialect : Script.Dialect) (path : String) :
    Script.Dialect.ofExtension? (extension path) = some dialect ↔ IsScriptOf dialect path := by
  have hempty : "" ∉ dialect.extensions := by cases dialect <;> decide
  rw [ofExtension?_eq_some_iff]
  constructor
  · intro h
    rw [extension] at h
    split at h
    · next name hname =>
      rcases dottedExtension_cases name with hnone | ⟨ending, hending⟩
      · rw [hnone] at h
        exact absurd h hempty
      · rw [hending] at h
        exact ⟨name, ending, (fileName?_eq_some_iff _ _).mp hname,
          (dottedExtension_eq_iff _ _).mp hending, h⟩
    · exact absurd h hempty
  · rintro ⟨name, ending, hname, hending, h⟩
    rw [extension, (fileName?_eq_some_iff _ _).mpr hname]
    dsimp only
    rwa [(dottedExtension_eq_iff _ _).mpr hending]

/-- What makes the file at an entry of a walk one of those to be checked.  A path that is too long leads
to no file. -/
structure IsChosen (root : String) (exclude : ExcludeSet) (entry : WalkEntry) (source : SourceFile) :
    Prop where
  path : source.path = entry.path
  file : entry.node = .file source.bytes
  reached : Disk.isTooLong entry.path = false
  script : IsScriptOf source.dialect entry.path
  kept : ∀ glob ∈ exclude, glob.isMatch (forwardSlashes (relativeTo root entry.path)) = false

theorem leavesOut_eq_false_iff (exclude : ExcludeSet) (path : String) :
    exclude.leavesOut path = false ↔ ∀ glob ∈ exclude, glob.isMatch path = false := by
  rw [ExcludeSet.leavesOut, List.any_eq_false]
  simp only [Bool.not_eq_true]

theorem sourceFile?_eq_some_iff (entry : WalkEntry) (source : SourceFile) :
    entry.sourceFile? = some source ↔
      source.path = entry.path ∧ entry.node = .file source.bytes ∧
        Disk.isTooLong entry.path = false ∧ IsScriptOf source.dialect entry.path := by
  obtain ⟨path, node⟩ := entry
  obtain ⟨path', bytes', dialect⟩ := source
  cases node with
  | directory children => simp [sourceFile?_directory]
  | file bytes =>
      rw [sourceFile?_file, ← isScriptOf_iff]
      dsimp only
      cases Disk.isTooLong path <;>
        cases Script.Dialect.ofExtension? (extension path) <;> simp [eq_comm]

theorem mem_discover_iff_chosen {root : String} {exclude : ExcludeSet} {entries : List WalkEntry}
    (source : SourceFile) :
    source ∈ discover root exclude entries ↔
      ∃ entry ∈ entries, IsChosen root exclude entry source := by
  rw [discover, List.mem_mergeSort, List.mem_filter, List.mem_filterMap, Bool.not_eq_true',
    leavesOut_eq_false_iff]
  constructor
  · rintro ⟨⟨entry, hentry, hsource⟩, hkept⟩
    obtain ⟨hpath, hfile, hreached, hscript⟩ := (sourceFile?_eq_some_iff _ _).mp hsource
    rw [SourceFile.localPath, hpath] at hkept
    exact ⟨entry, hentry, hpath, hfile, hreached, hscript, hkept⟩
  · rintro ⟨entry, hentry, hpath, hfile, hreached, hscript, hkept⟩
    refine ⟨⟨entry, hentry, (sourceFile?_eq_some_iff _ _).mpr ⟨hpath, hfile, hreached, hscript⟩⟩, ?_⟩
    rwa [SourceFile.localPath, hpath]

section Order

variable {root : String} {exclude : ExcludeSet} {entries : List WalkEntry}
  (hnodup : (entries.map fun entry => components entry.path.toList).Nodup)

include hnodup

/-- No file is there twice, and each one stands in front of those with later paths. -/
theorem discover_pairwise :
    (discover root exclude entries).Pairwise fun left right => PathPrecedes left.path right.path := by
  have hsorted : (discover root exclude entries).Pairwise fun left right =>
      left.before right = true :=
    List.pairwise_mergeSort before_trans before_total _
  have hplaces := List.pairwise_map.mp (@discover_nodup root exclude entries hnodup)
  refine (hsorted.and hplaces).imp ?_
  rintro left right ⟨hbefore, hne⟩
  rw [SourceFile.before, Ordering.isLE_iff_eq_lt_or_eq_eq, compare_key_eq_lt_iff,
    compare_key_eq_eq_iff] at hbefore
  exact hbefore.resolve_right hne

/-- The order in which a walk comes to scripts plays no part. -/
theorem discover_eq_of_perm {others : List WalkEntry}
    (hperm : (others.filterMap WalkEntry.sourceFile?).Perm
      (entries.filterMap WalkEntry.sourceFile?)) :
    discover root exclude others = discover root exclude entries := by
  have hplaces := @discover_nodup root exclude entries hnodup
  rw [discover, ((List.mergeSort_perm _ _).map _).nodup_iff] at hplaces
  rw [discover, discover]
  refine mergeSort_eq_of_perm before_trans before_total (hperm.filter _) ?_
  exact (List.pairwise_map.mp hplaces).imp fun hne hties => hne (before_antisymm hties.1 hties.2)

end Order

section Runs

variable {disk : Disk} {root' : Node}

theorem check_relisted (h : Kept disk.root root') (path : String) (config : Config)
    (exclude : List String) :
    (Disk.check { disk with root := root' } path config exclude).toOption =
      (disk.check path config exclude).toOption := by
  rw [Disk.check, Disk.check]
  cases config.checker with
  | error cause => rfl
  | ok checker =>
      cases ExcludeSet.compile (config.analyzer.exclude ++ exclude) with
      | error cause => rfl
      | ok excluded =>
          have hwalk := walk_relisted h config.analyzer.respectGitignore
            (Path.join path config.analyzer.root)
          have hpaths := fun entries => @walk_paths disk h.wellFormed config.analyzer.respectGitignore
            (Path.join path config.analyzer.root) entries
          dsimp only
          generalize disk.walk config.analyzer.respectGitignore
            (Path.join path config.analyzer.root) = walk at hwalk hpaths ⊢
          generalize Disk.walk { disk with root := root' } config.analyzer.respectGitignore
            (Path.join path config.analyzer.root) = walk' at hwalk ⊢
          cases hwalk with
          | failure cause cause' => rfl
          | @found entries entries' hperm =>
              dsimp only
              rw [discover_eq_of_perm (hpaths entries rfl).2 hperm]

theorem lint_toOption (disk : Disk) (path : String) (config : Config) (exclude : List String) :
    (disk.lint path config exclude).toOption =
      (disk.check path config exclude).toOption.bind fun check => check.run.toOption := by
  rw [Disk.lint]
  cases disk.check path config exclude <;> rfl

/-- However directories are listed, the same configuration is found and loaded, and linting gives the
same report, or none. -/
structure SameReports (disk disk' : Disk) : Prop where
  source : ∀ project named shared,
    ConfigSource.find disk' project named shared = ConfigSource.find disk project named shared
  load : ∀ source : ConfigSource, source.load disk' = source.load disk
  lint : ∀ path config exclude,
    (disk'.lint path config exclude).toOption = (disk.lint path config exclude).toOption

theorem SameReports.trans {disk disk' disk'' : Disk} (h : SameReports disk disk')
    (h' : SameReports disk' disk'') : SameReports disk disk'' where
  source project named shared := (h'.source project named shared).trans (h.source project named shared)
  load source := (h'.load source).trans (h.load source)
  lint path config exclude := (h'.lint path config exclude).trans (h.lint path config exclude)

theorem sameReports_of_kept (h : Kept disk.root root') :
    SameReports disk { disk with root := root' } where
  source := find_relisted h
  load := load_relisted h
  lint path config exclude := by
    rw [lint_toOption, lint_toOption, check_relisted h]

theorem sameReports_of_reordered (h : Reordered disk.root root') (hdisk : WellFormed disk.root) :
    SameReports disk { disk with root := root' } := by
  induction h with
  | refl => exact ⟨fun _ _ _ => rfl, fun _ => rfl, fun _ _ _ => rfl⟩
  | @tail middle last hsteps hstep ih =>
      have hmiddle : WellFormed middle := Reordered.wellFormed hsteps hdisk
      exact ih.trans (@sameReports_of_kept ⟨middle, disk.here⟩ last ⟨.single hstep, hmiddle⟩)

theorem SameReports.run {disk' : Disk} (h : SameReports disk disk') {environment : Environment}
    {arguments : List String} {request : Request}
    (hread : Request.read environment arguments = .ok request) {path : String}
    {format : OutputFormat} {exclude : List String}
    (htask : request.task = .check path format exclude) :
    (Command.run disk' environment arguments).output =
        (Command.run disk environment arguments).output ∧
      (Command.run disk' environment arguments).code =
        (Command.run disk environment arguments).code := by
  have hsource : request.source disk' environment = request.source disk environment :=
    h.source _ _ _
  rw [run_eq_checkProject hread htask, run_eq_checkProject hread htask, hsource]
  obtain ⟨events, heq⟩ :=
    checkProject_eq disk (request.source disk environment) path format exclude
  obtain ⟨events', heq'⟩ :=
    checkProject_eq disk' (request.source disk environment) path format exclude
  rw [heq, heq', h.load]
  cases (request.source disk environment).load disk with
  | error failure => exact ⟨rfl, rfl⟩
  | ok config =>
      have hlint := h.lint path config exclude
      dsimp only
      generalize disk.lint path config exclude = lint at hlint ⊢
      generalize disk'.lint path config exclude = lint' at hlint ⊢
      cases lint <;> cases lint' <;> cases hlint <;> exact ⟨rfl, rfl⟩

end Runs

/-- A check judges what is discovered among the entries of a walk. -/
structure Searches (disk : Disk) (path : String) (config : Config) (further : List String)
    (checker : Checker) (root : String) (exclude : ExcludeSet) (entries : List WalkEntry) :
    Prop where
  rooted : root = Path.join path config.analyzer.root
  judged : config.checker = .ok checker
  excluded : ExcludeSet.compile (config.analyzer.exclude ++ further) = .ok exclude
  walked : disk.walk config.analyzer.respectGitignore root = .ok entries

section Searches

variable {disk : Disk} {path : String} {config : Config} {further : List String} {checker : Checker}
  {root : String} {exclude : ExcludeSet} {entries : List WalkEntry}
  (h : Searches disk path config further checker root exclude entries)

include h

theorem Searches.check :
    disk.check path config further = .ok ⟨checker, root, discover root exclude entries⟩ := by
  rw [Disk.check, h.judged, h.excluded]
  dsimp only
  rw [← h.rooted, h.walked]

theorem Searches.lint :
    disk.lint path config further =
      Check.run ⟨checker, root, discover root exclude entries⟩ := by
  rw [Disk.lint, h.check]

theorem Searches.output {environment : Environment} {arguments : List String} {request : Request}
    (hread : Request.read environment arguments = .ok request) {format : OutputFormat}
    (htask : request.task = .check path format further)
    (hload : (request.source disk environment).load disk = .ok config) :
    (run disk environment arguments).output =
      (runCheck disk format [] ⟨checker, root, discover root exclude entries⟩).output := by
  rw [run_eq_checkProject hread htask, checkProject, withConfig, hload]
  dsimp only
  rw [h.check]
  dsimp only
  rw [runCheck, runCheck]
  cases Check.run ⟨checker, root, discover root exclude entries⟩ <;> rfl

end Searches

/-- What is discovered among the entries of a walk, which comes to no place twice, are exactly the files
with an extension of a dialect that no glob leaves out, each one in front of those with later paths.
From the entries in any other order the same is discovered, reported and written.  On a disk whose
directories list what is in them in another order, a check gives the same report and writes the same. -/
theorem discover_exact {root : String} {exclude : ExcludeSet} {entries : List WalkEntry}
    (hnodup : (entries.map fun entry => components entry.path.toList).Nodup) :
    (∀ source, source ∈ discover root exclude entries ↔
      ∃ entry ∈ entries, IsChosen root exclude entry source) ∧
    ((discover root exclude entries).Pairwise fun left right =>
      PathPrecedes left.path right.path) ∧
    (∀ others, others.Perm entries →
      discover root exclude others = discover root exclude entries ∧
      ∀ disk path config further checker,
        Searches disk path config further checker root exclude entries →
        disk.lint path config further =
          Check.run ⟨checker, root, discover root exclude others⟩ ∧
        ∀ environment arguments request format,
          Request.read environment arguments = .ok request →
          request.task = .check path format further →
          (request.source disk environment).load disk = .ok config →
          (run disk environment arguments).output =
            (runCheck disk format [] ⟨checker, root, discover root exclude others⟩).output) ∧
    ∀ disk root', WellFormed disk.root → Reordered disk.root root' →
      (∀ path config further,
        (Disk.lint { disk with root := root' } path config further).toOption =
          (disk.lint path config further).toOption) ∧
      ∀ environment arguments request path format further,
        Request.read environment arguments = .ok request →
        request.task = .check path format further →
        (run { disk with root := root' } environment arguments).output =
            (run disk environment arguments).output ∧
          (run { disk with root := root' } environment arguments).code =
            (run disk environment arguments).code := by
  refine ⟨mem_discover_iff_chosen, discover_pairwise hnodup, ?_, ?_⟩
  · intro others hperm
    have hsame : discover root exclude others = discover root exclude entries :=
      discover_eq_of_perm hnodup (hperm.filterMap _)
    refine ⟨hsame, ?_⟩
    intro disk path config further checker hsearches
    rw [hsame]
    refine ⟨hsearches.lint, ?_⟩
    intro environment arguments request format hread htask hload
    exact hsearches.output hread htask hload
  · intro disk root' hdisk hreordered
    have hreports := sameReports_of_reordered hreordered hdisk
    refine ⟨hreports.lint, ?_⟩
    intro environment arguments request path format further hread htask
    exact hreports.run hread htask

set_option maxRecDepth 100000 in
theorem discover_exact_shuffled :
    ∃ (exclude : ExcludeSet) (entries : List WalkEntry),
      (entries.map fun entry => components entry.path.toList).Nodup ∧
      entries.map WalkEntry.path =
        [".", "./x.d.ts", "./README", "./.ts", "./a-b.ts", "./a", "./a/b.ts"] ∧
      (discover "." exclude entries).map SourceFile.path = ["./a/b.ts", "./a-b.ts"] ∧
      ∃ (disk : Disk) (root' : Node) (environment : Environment),
        WellFormed disk.root ∧ Reordered disk.root root' ∧
        Request.read environment ["check"] = .ok ⟨.check "." .text [], none⟩ ∧
        (run { disk with root := root' } environment ["check"]).output =
          (run disk environment ["check"]).output ∧
        (run disk environment ["check"]).output ≠ "" ∧
        (run { disk with root := root' } environment ["check"]).code = 1 := by
  let content : ByteArray := "import \"x\"".toUTF8
  let exclude : ExcludeSet :=
    match ExcludeSet.compile ["*.d.ts"] with
    | .ok set => set
    | .error _ => []
  let entries : List WalkEntry :=
    [⟨".", .directory []⟩, ⟨"./x.d.ts", .file content⟩, ⟨"./README", .file content⟩,
      ⟨"./.ts", .file content⟩, ⟨"./a-b.ts", .file content⟩, ⟨"./a", .directory []⟩,
      ⟨"./a/b.ts", .file content⟩]
  have hnodup : (entries.map fun entry => components entry.path.toList).Nodup := by decide +kernel
  obtain ⟨-, -, hothers, hdisks⟩ := @discover_exact "." exclude entries hnodup
  -- backwards the files are in the order of their paths, so that sorting leaves them as they are
  have hbackwards : (discover "." exclude entries.reverse).map SourceFile.path =
      ["./a/b.ts", "./a-b.ts"] := by
    rw [discover, List.mergeSort_of_pairwise (by decide +kernel)]
    decide +kernel
  let config : Segment × Node := ("import-patterns.toml".toList,
    .file "[[policies]]\ntarget=\"**\"\nrestrictions=\"b\"".toUTF8)
  let script : Segment × Node := ("a.ts".toList, .file content)
  let disk : Disk := ⟨.directory [config, script], []⟩
  let environment : Environment := ⟨none, none, none⟩
  have hdisk : WellFormed disk.root := by
    refine .directory (by decide) (by decide) fun entry hentry => ?_
    simp only [List.mem_cons, List.not_mem_nil, or_false] at hentry
    rcases hentry with rfl | rfl <;> exact .file _
  have hreordered : Reordered disk.root (.directory [script, config]) :=
    .single (.here (.swap script config []))
  have hread : Request.read environment ["check"] = .ok ⟨.check "." .text [], none⟩ := by
    decide +kernel
  obtain ⟨houtput, hcode⟩ := (hdisks disk _ hdisk hreordered).2 _ _ _ _ _ _ hread rfl
  have hwritten : (run disk environment ["check"]).output ≠ "" := by decide +kernel
  have hfails : (run disk environment ["check"]).code = 1 := by decide +kernel
  refine ⟨exclude, entries, hnodup, rfl, ?_, disk, _, environment, hdisk, hreordered, hread, houtput,
    hwritten, hcode.trans hfails⟩
  rw [← (hothers entries.reverse entries.reverse_perm).1, hbackwards]

end ImportLint.Proofs.FileDiscovery
