import ImportLint.Proofs.FileIndependence

/-!
Globs that leave files out.  They only take files away: what is reported about the files that stay is
the same, and it does not matter where a glob is given, in which order or how often.
-/

namespace ImportLint.Proofs.ExcludeGlobs

open ImportLint.Path
open ImportLint.Proofs.WalkPaths
open ImportLint.Proofs.DiscoveredPaths
open ImportLint.Proofs.ReportOrder
open ImportLint.Proofs.FileIndependence

/-- A pattern that can be given to leave files out. -/
def IsGlob (pattern : String) : Prop :=
  ∃ glob, Glob.compile .wholePath pattern = .ok glob

/-- Whether a path is left out by a pattern as written; what is no glob leaves nothing out. -/
def patternLeavesOut (pattern path : String) : Bool :=
  match Glob.compile .wholePath pattern with
  | .ok glob => glob.isMatch path
  | .error _ => false

/-- Whether a path is left out by one of several patterns as written. -/
def leavesOut (patterns : List String) (path : String) : Bool :=
  patterns.any fun pattern => patternLeavesOut pattern path

theorem leavesOut_append (patterns further : List String) (path : String) :
    leavesOut (patterns ++ further) path = (leavesOut patterns path || leavesOut further path) :=
  List.any_append

theorem leavesOut_congr {patterns others : List String}
    (h : ∀ pattern, pattern ∈ patterns ↔ pattern ∈ others) (path : String) :
    leavesOut patterns path = leavesOut others path := by
  apply Bool.eq_iff_iff.mpr
  simp only [leavesOut, List.any_eq_true, h]

theorem leavesOut_of_compile {patterns : List String} {set : ExcludeSet}
    (h : ExcludeSet.compile patterns = .ok set) (path : String) :
    set.leavesOut path = leavesOut patterns path := by
  induction patterns generalizing set with
  | nil =>
      cases h
      rfl
  | cons pattern patterns ih =>
      rw [ExcludeSet.compile] at h
      split at h
      · cases h
      · next glob hglob =>
        split at h
        · cases h
        · next globs hglobs =>
          cases h
          have hrest : ExcludeSet.leavesOut globs path = leavesOut patterns path := ih hglobs
          rw [leavesOut, List.any_cons, patternLeavesOut, hglob, ← leavesOut, ← hrest]
          rfl

theorem exists_compile_iff (patterns : List String) :
    (∃ set, ExcludeSet.compile patterns = .ok set) ↔ ∀ pattern ∈ patterns, IsGlob pattern := by
  induction patterns with
  | nil => simp [ExcludeSet.compile]
  | cons pattern patterns ih =>
      rw [List.forall_mem_cons, ← ih, ExcludeSet.compile, IsGlob]
      rcases Glob.compile .wholePath pattern with cause | glob
      · simp
      · rcases ExcludeSet.compile patterns with cause | globs
        · simp
        · simp

theorem before_trans (left middle right : SourceFile) (h : left.before middle = true)
    (h' : middle.before right = true) : left.before right = true :=
  Std.TransCmp.isLE_trans h h'

theorem before_total (left right : SourceFile) :
    (left.before right || right.before left) = true := by
  have hswap : compare (key right.path) (key left.path) =
      (compare (key left.path) (key right.path)).swap := Std.OrientedCmp.eq_swap
  rw [SourceFile.before, SourceFile.before, hswap]
  cases compare (key left.path) (key right.path) <;> rfl

theorem discover_filter {root : String} {entries : List WalkEntry} {set wider : ExcludeSet}
    {leaves : String → Bool}
    (h : ∀ path, wider.leavesOut path = (set.leavesOut path || leaves path)) :
    discover root wider entries =
      (discover root set entries).filter fun source => !leaves (source.localPath root) := by
  rw [discover, discover, filter_mergeSort before_trans before_total, List.filter_filter]
  congr 1
  apply List.filter_congr
  intro source _
  rw [h, Bool.not_or, Bool.and_comm]

theorem discover_congr {root : String} {entries : List WalkEntry} {set other : ExcludeSet}
    (h : ∀ path, set.leavesOut path = other.leavesOut path) :
    discover root set entries = discover root other entries := by
  rw [discover, discover]
  simp only [h]

theorem violations_files (check : Check) (files sources : List SourceFile) :
    Check.violations { check with files := files } sources = check.violations sources := by
  induction sources with
  | nil => rfl
  | cons source sources ih =>
      rw [Check.violations, Check.violations, ih]
      rfl

/-- What is found in some of the files of a check are the findings about these files. -/
theorem violations_filter {check : Check} {sources : List SourceFile} {found : List Violation}
    (h : check.violations sources = .ok found) (keep : String → Bool) :
    check.violations (sources.filter fun source => keep (source.localPath check.root)) =
      .ok (found.filter fun violation => keep violation.location.file) := by
  induction sources generalizing found with
  | nil =>
      cases h
      rfl
  | cons source sources ih =>
      obtain ⟨text, later, htext, hlater, rfl⟩ := violations_cons h
      have hfile := fileViolations_file check source text
      have hrest := ih hlater
      rw [List.filter_append]
      by_cases hkeep : keep (source.localPath check.root) = true
      · have hown : (check.fileViolations source text).filter
            (fun violation => keep violation.location.file) = check.fileViolations source text := by
          rw [List.filter_eq_self]
          intro violation hviolation
          rw [hfile violation hviolation, hkeep]
        rw [List.filter_cons, if_pos hkeep, Check.violations, htext, hrest, hown]
      · have hown : (check.fileViolations source text).filter
            (fun violation => keep violation.location.file) = [] := by
          rw [List.filter_eq_nil_iff]
          intro violation hviolation
          rw [hfile violation hviolation]
          exact hkeep
        rw [List.filter_cons, if_neg hkeep, hrest, hown, List.nil_append]

section Runs

variable {disk : Disk} {path : String} {config : Config} {exclude : List String}

/-- Further globs take away the files that they leave out. -/
theorem check_append {check : Check} (hcheck : disk.check path config exclude = .ok check)
    {further : List String} (hglobs : ∀ pattern ∈ further, IsGlob pattern) :
    disk.check path config (exclude ++ further) =
      .ok { check with
        files := check.files.filter fun source =>
          !leavesOut further (source.localPath check.root) } := by
  obtain ⟨set, entries, hchecker, hset, hroot, hwalk, hfiles⟩ := check_eq_ok hcheck
  have hpatterns := (exists_compile_iff _).mp ⟨set, hset⟩
  obtain ⟨wider, hwider⟩ : ∃ wider,
      ExcludeSet.compile (config.analyzer.exclude ++ (exclude ++ further)) = .ok wider := by
    rw [exists_compile_iff, ← List.append_assoc]
    intro pattern hpattern
    rcases List.mem_append.mp hpattern with hpattern | hpattern
    · exact hpatterns pattern hpattern
    · exact hglobs pattern hpattern
  have hleaves (path : String) :
      wider.leavesOut path = (set.leavesOut path || leavesOut further path) := by
    rw [leavesOut_of_compile hwider, leavesOut_of_compile hset, ← List.append_assoc, leavesOut_append]
  rw [Disk.check, hchecker, hwider]
  dsimp only
  rw [← hroot, hwalk, hfiles, ← discover_filter hleaves]

/-- Where the same globs are given, the same files are checked. -/
theorem check_congr {others exclude' : List String}
    (hglobs : ∀ pattern ∈ config.analyzer.exclude ++ exclude, IsGlob pattern)
    (hsame : ∀ pattern, pattern ∈ config.analyzer.exclude ++ exclude ↔
      pattern ∈ others ++ exclude') :
    disk.check path config exclude =
      disk.check path { config with analyzer := { config.analyzer with exclude := others } }
        exclude' := by
  obtain ⟨set, hset⟩ := (exists_compile_iff _).mpr hglobs
  obtain ⟨other, hother⟩ : ∃ other, ExcludeSet.compile (others ++ exclude') = .ok other := by
    rw [exists_compile_iff]
    intro pattern hpattern
    exact hglobs pattern ((hsame pattern).mpr hpattern)
  have hleaves (path : String) : set.leavesOut path = other.leavesOut path := by
    rw [leavesOut_of_compile hset, leavesOut_of_compile hother, leavesOut_congr hsame]
  have hchecker : Config.checker
      { config with analyzer := { config.analyzer with exclude := others } } = config.checker :=
    checker_congr rfl rfl rfl
  rw [Disk.check, Disk.check, hchecker, hset, hother]
  simp only [discover_congr hleaves]

/-- Further globs only filter a report, and it does not matter where, in which order or how often globs
are given. -/
theorem lint_exclude (disk : Disk) (path : String) (config : Config) (exclude : List String) :
    (∀ report, disk.lint path config exclude = .ok report → ∃ check,
      disk.check path config exclude = .ok check ∧ report.filesChecked = check.files.length ∧
      ∀ further, (∀ pattern ∈ further, IsGlob pattern) →
        disk.lint path config (exclude ++ further) =
          .ok ⟨report.violations.filter fun violation =>
              !leavesOut further violation.location.file,
            check.files.countP fun source =>
              !leavesOut further (source.localPath check.root)⟩) ∧
    ∀ others exclude', (∀ pattern ∈ config.analyzer.exclude ++ exclude, IsGlob pattern) →
      (∀ pattern, pattern ∈ config.analyzer.exclude ++ exclude ↔ pattern ∈ others ++ exclude') →
      disk.lint path config exclude =
        disk.lint path { config with analyzer := { config.analyzer with exclude := others } }
          exclude' := by
  constructor
  · intro report hreport
    obtain ⟨check, found, hcheck, hfound, rfl⟩ := lint_eq_ok hreport
    refine ⟨check, hcheck, rfl, ?_⟩
    intro further hglobs
    have hfilter := violations_filter hfound fun file => !leavesOut further file
    rw [Disk.lint, check_append hcheck hglobs]
    dsimp only
    rw [Check.run, violations_files, hfilter, filter_sort, List.countP_eq_length_filter]
    rfl
  · intro others exclude' hglobs hsame
    rw [Disk.lint, Disk.lint, check_congr hglobs hsame]

end Runs

set_option maxRecDepth 100000 in
theorem lint_exclude_two_files :
    ∃ disk report checked, Disk.lint disk "." (libraryConfig ".") ["b.*"] = .ok report ∧
      report.violations ≠ [] ∧ report.filesChecked = 1 ∧
      Disk.lint disk "." (libraryConfig ".") (["b.*"] ++ ["src/*"]) = .ok ⟨[], checked⟩ ∧
      checked ≤ 1 ∧
      Disk.lint disk "." (libraryConfig ".") ["b.*"] =
        Disk.lint disk "." { libraryConfig "." with
          analyzer := { (libraryConfig ".").analyzer with exclude := ["b.*", "b.*"] } } [] := by
  let content : ByteArray := "import \"x\"".toUTF8
  let disk : Disk :=
    ⟨written [(["src".toList, "a.ts".toList], content), (["b.ts".toList], content)], []⟩
  let report : Report := ⟨[.badImport ⟨"src/a.ts", 1, 8⟩ ["lib/**"]], 1⟩
  have hreport : disk.lint "." (libraryConfig ".") ["b.*"] = .ok report :=
    eq_ok_of_toOption (by decide +kernel)
  have hglob : IsGlob "b.*" := ⟨_, rfl⟩
  have hfurther : IsGlob "src/*" := ⟨_, rfl⟩
  obtain ⟨hfilter, hmoved⟩ := lint_exclude disk "." (libraryConfig ".") ["b.*"]
  obtain ⟨check, -, hchecked, hfiltered⟩ := hfilter report hreport
  have hlint := hfiltered ["src/*"] (by simpa using hfurther)
  have hnone : (report.violations.filter fun violation =>
      !leavesOut ["src/*"] violation.location.file) = [] := by
    decide +kernel
  rw [hnone] at hlint
  refine ⟨disk, report, _, hreport, by decide, rfl, hlint, ?_, ?_⟩
  · exact Nat.le_trans List.countP_le_length (Nat.le_of_eq hchecked.symm)
  · exact hmoved ["b.*", "b.*"] [] (by simpa [libraryConfig] using hglob) (by simp [libraryConfig])

end ImportLint.Proofs.ExcludeGlobs
