import ImportLint.Proofs.DiscoveredFiles
import Mathlib.Data.String.Basic

/-!
Spellings of the root.  A check knows its files by what leads to them from the root, so that it does not
matter how the root is spelled, as long as every path that is made with the spelling can be followed.
-/

namespace ImportLint.Proofs.RootSpelling

open ImportLint.Path
open ImportLint.Proofs.PathWords
open ImportLint.Proofs.WalkPaths
open ImportLint.Proofs.DiscoveredPaths
open ImportLint.Proofs.FileIndependence
open ImportLint.Proofs.DiscoveredFiles

/-- The path of a run and the root in its configuration, which together spell the root of the check. -/
structure Spelling where
  path : String
  root : String
  deriving DecidableEq, Repr

namespace Spelling

/-- The root that is spelled. -/
def text (spelling : Spelling) : String := Path.join spelling.path spelling.root

/-- A configuration with the root of a spelling. -/
def config (spelling : Spelling) (config : Config) : Config :=
  { config with analyzer := { config.analyzer with root := spelling.root } }

theorem checker_config (spelling : Spelling) (config : Config) :
    (spelling.config config).checker = config.checker :=
  checker_congr rfl rfl rfl

end Spelling

/-- What a walk from a root shows at an entry, however the root is spelled. -/
structure Sight where
  /-- What leads from the root to the entry, if it is below the root. -/
  steps : Option (List Component)
  /-- The content of a file; a directory has none. -/
  content : Option ByteArray

instance : DecidableEq Sight := fun left right =>
  decidable_of_iff (left.steps = right.steps ∧
    left.content.map ByteArray.data = right.content.map ByteArray.data) <| by
      have hdata : Function.Injective ByteArray.data := by
        rintro ⟨data⟩ ⟨data'⟩ h
        exact congrArg ByteArray.mk h
      obtain ⟨steps, content⟩ := left
      obtain ⟨steps', content'⟩ := right
      simp only [Sight.mk.injEq, (Option.map_injective hdata).eq_iff]

def content? : Node → Option ByteArray
  | .file bytes => some bytes
  | .directory _ => none

def sight (root : String) (entry : WalkEntry) : Sight :=
  ⟨dropFront? (components root.toList) (components entry.path.toList), content? entry.node⟩

/-- Every file of a walk can be looked at: its path, as it is spelled, is not too long. -/
def WithinReach (entries : List WalkEntry) : Prop :=
  ∀ entry ∈ entries, entry.node.isFile = true → Disk.isTooLong entry.path = false

/-- What is discovered at an entry. -/
def Sight.discovered? (excluded : ExcludeSet) (sight : Sight) : Option Discovered :=
  match sight.steps, sight.content with
  | some steps, some bytes =>
    let path := String.ofList (Component.join steps)
    match Script.Dialect.ofExtension? (extension path) with
    | some dialect =>
      if excluded.leavesOut (forwardSlashes path) then none else some ⟨path, bytes, dialect⟩
    | none => none
  | _, _ => none

theorem extension_eq {base path : String} {names : List Segment} (hne : names ≠ [])
    (hnames : ∀ name ∈ names, IsEntryName name)
    (h : components path.toList = components base.toList ++ names.map Component.name) :
    extension path = extension (String.ofList (joinSlash names)) := by
  have hlocal : components (String.ofList (joinSlash names)).toList =
      [] ++ names.map Component.name := by
    rw [String.toList_ofList, components_joinSlash hnames, List.nil_append]
  rw [extension, extension, fileName?_eq hne h, fileName?_eq hne hlocal]

/-- A path with names behind a directory. -/
def IsFileBelow (root : String) (entry : WalkEntry) : Prop :=
  ∃ names : List Segment, names ≠ [] ∧ (∀ name ∈ names, IsEntryName name) ∧
    components entry.path.toList = components root.toList ++ names.map Component.name

theorem discovered?_sight {root : String} {excluded : ExcludeSet} {entry : WalkEntry}
    (hbelow : entry.node.isFile = true → IsFileBelow root entry)
    (hreach : entry.node.isFile = true → Disk.isTooLong entry.path = false) :
    (entry.sourceFile?.filter fun source => !excluded.leavesOut (source.localPath root)).map
        (discovered root) =
      (sight root entry).discovered? excluded := by
  obtain ⟨path, node⟩ := entry
  cases node with
  | directory children =>
      rw [sourceFile?_directory, Sight.discovered?]
      simp [sight, content?]
  | file bytes =>
      obtain ⟨names, hne, hnames, hcomponents⟩ := hbelow rfl
      have hshort : Disk.isTooLong path = false := hreach rfl
      have hsteps : dropFront? (components root.toList) (components path.toList) =
          some (names.map Component.name) := by
        rw [hcomponents, dropFront?_append]
      have hlocal := relativeTo_eq hcomponents
      rw [sourceFile?_file, Sight.discovered?]
      simp only [hshort, Bool.false_eq_true, if_false, sight, content?, hsteps, join_names,
        extension_eq hne hnames hcomponents]
      cases Script.Dialect.ofExtension? (extension (String.ofList (joinSlash names))) with
      | none => rfl
      | some dialect =>
          by_cases hleft : excluded.leavesOut (forwardSlashes (String.ofList (joinSlash names))) = true
          · simp [SourceFile.localPath, hlocal, hleft]
          · simp [SourceFile.localPath, hlocal, hleft, discovered]

/-- The root is taken off the path of an entry, and what is left are the names that lead to it. -/
def IsStripped (root : String) (entry : WalkEntry) : Prop :=
  ∃ names : List Segment, (∀ name ∈ names, IsEntryName name) ∧
    (sight root entry).steps = some (names.map Component.name) ∧
    relativeTo root entry.path = String.ofList (joinSlash names)

theorem isStripped_of_isBelow {root : String} {entry : WalkEntry}
    (h : IsBelow (components root.toList) entry.path) : IsStripped root entry := by
  obtain ⟨names, hnames, hcomponents⟩ := h
  refine ⟨names, hnames, ?_, relativeTo_eq hcomponents⟩
  rw [sight, hcomponents, dropFront?_append]

section Walks

variable {disk : Disk} (hdisk : WellFormed disk.root) {root : String} {names : List Segment}
  {children : List (Segment × Node)}
  (hlocate : disk.locate root = .ok ⟨names, .directory children⟩) {respectVersionControl : Bool}
  {entries : List WalkEntry} (hwalk : disk.walk respectVersionControl root = .ok entries)

include hdisk hlocate hwalk

/-- The files of a walk through a directory have names behind its root. -/
theorem isFileBelow_of_walk :
    ∀ entry ∈ entries, entry.node.isFile = true → IsFileBelow root entry := by
  rw [Disk.walk] at hwalk
  split at hwalk
  · cases hwalk
    simp
  · rw [hlocate] at hwalk
    dsimp only at hwalk
    split at hwalk
    · obtain rfl := opened_eq_ok hwalk
      intro entry hentry hfile
      rw [Walk.entries] at hentry
      rcases List.mem_cons.mp hentry with rfl | hentry
      · cases hfile
      · cases locate_wellFormed hdisk hlocate with
        | directory _ hnames hchildren =>
            obtain ⟨name, hname, steps, hsteps, hcomponents⟩ :=
              below_isBelow _ root names children hnames hchildren entry hentry
            refine ⟨name :: steps, by simp, by simpa [hnames name hname] using hsteps, ?_⟩
            rw [hcomponents]
            simp
    · cases hwalk

/-- What is discovered depends on what the walk shows below its root. -/
theorem discoveries_eq_sights (hreach : WithinReach entries) {excluded : ExcludeSet}
    {check : Check} (hroot : check.root = root)
    (hfiles : check.files = discover root excluded entries) :
    discoveries check =
      ((entries.map (sight root)).filterMap (Sight.discovered? excluded)).mergeSort notBehind := by
  have hbelow := isFileBelow_of_walk hdisk hlocate hwalk
  have hsources : ∀ source ∈ (entries.filterMap WalkEntry.sourceFile?).filter fun file =>
      !excluded.leavesOut (file.localPath root), IsBelow (components root.toList) source.path := by
    intro source hsource
    obtain ⟨entry, hentry, hsource⟩ := List.mem_filterMap.mp (List.mem_of_mem_filter hsource)
    rw [(sourceFile?_eq_some hsource).1]
    exact (walk_paths hdisk hwalk).1 entry hentry
  calc
    discoveries check = (discover root excluded entries).map (discovered root) := by
      rw [discoveries, hroot, hfiles]
      rfl
    _ = (((entries.filterMap WalkEntry.sourceFile?).filter fun file =>
          !excluded.leavesOut (file.localPath root)).map (discovered root)).mergeSort notBehind :=
      map_discovered_mergeSort hsources
    _ = ((entries.map (sight root)).filterMap (Sight.discovered? excluded)).mergeSort notBehind := by
      rw [List.filter_filterMap, List.map_filterMap, List.filterMap_map]
      congr 1
      refine List.filterMap_congr fun entry hentry => ?_
      exact discovered?_sight (hbelow entry hentry) (hreach entry hentry)

end Walks

/-- The spelling of the root does not matter.  Two checks of one directory, whose walks come to the same
entries, discover the same files and give the same report, however the root is spelled in each; from
every path of a walk the root is taken off. -/
theorem lint_eq_of_same_directory {disk : Disk} (hdisk : WellFormed disk.root)
    {left right : Spelling} {names : List Segment} {children : List (Segment × Node)}
    (hleft : disk.locate left.text = .ok ⟨names, .directory children⟩)
    (hright : disk.locate right.text = .ok ⟨names, .directory children⟩) {config : Config}
    {entries entries' : List WalkEntry}
    (hwalk : disk.walk config.analyzer.respectGitignore left.text = .ok entries)
    (hwalk' : disk.walk config.analyzer.respectGitignore right.text = .ok entries')
    (hsame : (entries.map (sight left.text)).Perm (entries'.map (sight right.text)))
    (hreach : WithinReach entries) (hreach' : WithinReach entries') {exclude : List String}
    {report report' : Report}
    (h : disk.lint left.path (left.config config) exclude = .ok report)
    (h' : disk.lint right.path (right.config config) exclude = .ok report') :
    report = report' ∧
    (∃ check check', disk.check left.path (left.config config) exclude = .ok check ∧
      disk.check right.path (right.config config) exclude = .ok check' ∧
      discoveries check = discoveries check') ∧
    (∀ entry ∈ entries, IsStripped left.text entry) ∧
    ∀ entry ∈ entries', IsStripped right.text entry := by
  obtain ⟨check, hcheck, hchecker, hreport⟩ := lint_eq_ok_discoveries h
  obtain ⟨check', hcheck', hchecker', hreport'⟩ := lint_eq_ok_discoveries h'
  have hjudge : check.checker = check'.checker := by
    rw [Spelling.checker_config] at hchecker hchecker'
    exact Except.ok.inj (hchecker.symm.trans hchecker')
  have hdiscoveries : discoveries check = discoveries check' := by
    obtain ⟨excluded, found, -, hexcluded, hroot, hfound, hfiles⟩ := check_eq_ok hcheck
    obtain ⟨excluded', found', -, hexcluded', hroot', hfound', hfiles'⟩ := check_eq_ok hcheck'
    obtain rfl : excluded = excluded' := Except.ok.inj (hexcluded.symm.trans hexcluded')
    obtain rfl : entries = found := by
      rw [hroot] at hfound
      exact Except.ok.inj (hwalk.symm.trans hfound)
    obtain rfl : entries' = found' := by
      rw [hroot'] at hfound'
      exact Except.ok.inj (hwalk'.symm.trans hfound')
    have hlist := discoveries_eq_sights hdisk hleft hwalk hreach hroot (hroot ▸ hfiles)
    have hlist' := discoveries_eq_sights hdisk hright hwalk' hreach' hroot' (hroot' ▸ hfiles')
    have hperm : (discoveries check).Perm (discoveries check') := by
      rw [hlist, hlist']
      exact (List.mergeSort_perm _ _).trans
        ((hsame.filterMap _).trans (List.mergeSort_perm _ _).symm)
    refine @List.Perm.eq_of_pairwise _ (notBehind · · = true) _ _ ?_ ?_ ?_ hperm
    · intro file file' hfile hfile' hle hle'
      exact discoveries_antisymm hdisk hcheck hfile (hperm.mem_iff.mpr hfile') hle hle'
    · rw [hlist]
      exact List.pairwise_mergeSort notBehind_trans notBehind_total _
    · rw [hlist']
      exact List.pairwise_mergeSort notBehind_trans notBehind_total _
  refine ⟨?_, ⟨check, check', hcheck, hcheck', hdiscoveries⟩, ?_, ?_⟩
  · rw [hreport, hreport', hjudge, hdiscoveries]
  · intro entry hentry
    exact isStripped_of_isBelow ((walk_paths hdisk hwalk).1 entry hentry)
  · intro entry hentry
    exact isStripped_of_isBelow ((walk_paths hdisk hwalk').1 entry hentry)

theorem locate_of_names {disk : Disk} {path : String} {names : List Segment} {node : Node}
    (h : (disk.locate path).toOption.map Place.names = some names)
    (hnode : disk.root.at? names = some node) : disk.locate path = .ok ⟨names, node⟩ := by
  rw [Disk.locate] at h ⊢
  cases hresolve : disk.resolve path with
  | error fault => simp [hresolve, Except.toOption] at h
  | ok found =>
      cases hfound : disk.root.at? found with
      | none => simp [hresolve, hfound, Except.toOption] at h
      | some other =>
          obtain rfl : found = names := by simpa [hresolve, hfound, Except.toOption] using h
          rw [hnode] at hfound
          simp [hnode]

instance (entries : List WalkEntry) : Decidable (WithinReach entries) :=
  inferInstanceAs (Decidable (∀ entry ∈ entries, _ → _))

/-- What is known of a walk by evaluating it. -/
theorem walk_of_sights {disk : Disk} {respectVersionControl : Bool} {root : String}
    {sights : List Sight}
    (h : ((disk.walk respectVersionControl root).toOption.map fun entries =>
      (entries.map (sight root), decide (WithinReach entries))) = some (sights, true)) :
    ∃ entries, disk.walk respectVersionControl root = .ok entries ∧
      entries.map (sight root) = sights ∧ WithinReach entries := by
  cases hwalk : disk.walk respectVersionControl root with
  | error cause => simp [hwalk, Except.toOption] at h
  | ok entries =>
      simp only [hwalk, Except.toOption, Option.map_some, Option.some.injEq, Prod.mk.injEq,
        decide_eq_true_eq] at h
      exact ⟨entries, rfl, h⟩

set_option maxRecDepth 100000 in
theorem lint_eq_of_same_directory_absolute :
    ∃ (disk : Disk) (left right : Spelling) (report report' : Report), WellFormed disk.root ∧
      left.text = "./." ∧ right.text = "/src/..//." ∧ report.violations ≠ [] ∧
      disk.lint left.path (left.config (libraryConfig ".")) [] = .ok report ∧
      disk.lint right.path (right.config (libraryConfig ".")) [] = .ok report' ∧
      report = report' := by
  let content : ByteArray := "import \"x\"".toUTF8
  let disk : Disk :=
    ⟨written [(["src".toList, "a.ts".toList], content), (["b.md".toList], content)], []⟩
  let left : Spelling := ⟨".", "."⟩
  let right : Spelling := ⟨"src", "/src/..//."⟩
  let report : Report := ⟨[.badImport ⟨"src/a.ts", 1, 8⟩ ["lib/**"]], 1⟩
  let sights : List Sight := [⟨some [], none⟩, ⟨some [.name "src".toList], none⟩,
    ⟨some [.name "src".toList, .name "a.ts".toList], some content⟩,
    ⟨some [.name "b.md".toList], some content⟩]
  have hdisk : WellFormed disk.root := written_wellFormed (by decide)
  have hreport : disk.lint left.path (left.config (libraryConfig ".")) [] = .ok report :=
    eq_ok_of_toOption (by decide +kernel)
  obtain ⟨report', hreport'⟩ : ∃ report',
      disk.lint right.path (right.config (libraryConfig ".")) [] = .ok report' :=
    ⟨report, eq_ok_of_toOption (by decide +kernel)⟩
  have hleft : disk.locate left.text = .ok ⟨[], disk.root⟩ :=
    locate_of_names (by decide +kernel) rfl
  have hright : disk.locate right.text = .ok ⟨[], disk.root⟩ :=
    locate_of_names (by decide +kernel) rfl
  obtain ⟨entries, hwalk, hsights, hreach⟩ :=
    @walk_of_sights disk (libraryConfig ".").analyzer.respectGitignore left.text sights
      (by decide +kernel)
  obtain ⟨entries', hwalk', hsights', hreach'⟩ :=
    @walk_of_sights disk (libraryConfig ".").analyzer.respectGitignore right.text sights
      (by decide +kernel)
  have hsame : (entries.map (sight left.text)).Perm (entries'.map (sight right.text)) := by
    rw [hsights, hsights']
  obtain ⟨heq, -⟩ := lint_eq_of_same_directory hdisk hleft hright hwalk hwalk' hsame hreach hreach'
    hreport hreport'
  exact ⟨disk, left, right, report, report', hdisk, by decide +kernel, by decide +kernel,
    by decide, hreport, hreport', heq⟩

theorem check_eq_of_walk {disk : Disk} {spelling : Spelling} {config : Config}
    {exclude : List String} {checker : Checker} {excluded : ExcludeSet} {entries : List WalkEntry}
    (hchecker : config.checker = .ok checker)
    (hexcluded : ExcludeSet.compile (config.analyzer.exclude ++ exclude) = .ok excluded)
    (hwalk : disk.walk config.analyzer.respectGitignore spelling.text = .ok entries) :
    disk.check spelling.path (spelling.config config) exclude =
      .ok ⟨checker, spelling.text, discover spelling.text excluded entries⟩ := by
  have hexcluded' : ExcludeSet.compile ((spelling.config config).analyzer.exclude ++ exclude) =
      .ok excluded := hexcluded
  have hwalk' : disk.walk (spelling.config config).analyzer.respectGitignore
      (Path.join spelling.path (spelling.config config).analyzer.root) = .ok entries := hwalk
  rw [Disk.check, spelling.checker_config, hchecker, hexcluded']
  dsimp only
  rw [hwalk']
  rfl

/-- Files that cannot be looked at are not discovered. -/
theorem discover_eq_nil {root : String} {excluded : ExcludeSet} {entries : List WalkEntry}
    (h : ∀ entry ∈ entries, entry.node.isFile = true → Disk.isTooLong entry.path = true) :
    discover root excluded entries = [] := by
  have hnone : entries.filterMap WalkEntry.sourceFile? = [] := by
    rw [List.filterMap_eq_nil_iff]
    intro entry hentry
    rw [WalkEntry.sourceFile?]
    split
    · rfl
    · next hshort =>
      split
      · next hnode _ => exact absurd (h entry hentry (by rw [hnode]; rfl)) hshort
      · rfl
  rw [discover, hnone]
  simp

theorem follow_idle {disk : Disk} {names : List Segment} {children : List (Segment × Node)}
    (h : disk.root.at? names = some (.directory children)) {segments : List Segment}
    (hidle : ∀ segment ∈ segments, segment = [] ∨ segment = ['.']) :
    disk.follow names segments = .ok names := by
  induction segments with
  | nil => rfl
  | cons segment segments ih =>
      have hstep : disk.step names segment = .ok names := by
        rw [Disk.step, h]
        exact if_pos (hidle segment (by simp))
      rw [Disk.follow, hstep]
      exact ih fun other hother => hidle other (by simp [hother])

/-- Without rules in ignore files, nothing is said about any path. -/
theorem verdict?_without_rules {reach : Ignore.Reach}
    (h : ∀ level ∈ reach.below ++ reach.above, ∀ entry ∈ level, entry.2.rules = [])
    (path truePath : List Char) (isDirectory : Bool) :
    reach.verdict? path truePath isDirectory = none := by
  have hscope {level : Ignore.Level} (hlevel : level ∈ reach.below ++ reach.above)
      (kind : Ignore.Kind) (path : List Char) :
      (level.lookup kind).bind (fun scope => scope.verdict? path isDirectory) = none := by
    rw [Option.bind_eq_none_iff]
    intro scope hlookup
    obtain ⟨front, back, rfl, -⟩ := List.lookup_eq_some_iff.mp hlookup
    have hrules : scope.rules = [] := h _ hlevel (kind, scope) (by simp)
    rw [Ignore.Scope.verdict?, hrules]
    rfl
  rw [Ignore.Reach.verdict?, List.findSome?_eq_none_iff]
  intro kind _
  rw [Ignore.Reach.kindVerdict?, Option.or_eq_none_iff, List.findSome?_eq_none_iff,
    List.findSome?_eq_none_iff]
  constructor
  · intro level hlevel
    exact hscope (List.mem_append_left _ hlevel) kind _
  · intro level hlevel
    exact hscope (List.mem_append_right _ hlevel) kind _

theorem le_utf8ByteSize_join (base : String) {tail : String} (h : isAbsolute tail = false) :
    base.utf8ByteSize + tail.utf8ByteSize ≤ (Path.join base tail).utf8ByteSize := by
  rw [Path.join, if_neg (by simp [h])]
  split
  · rw [String.utf8ByteSize_append]
  · rw [String.utf8ByteSize_append, String.utf8ByteSize_append]
    omega

/-- The working directory, with slashes behind its name. -/
def slashed (count : Nat) : Spelling := ⟨".", String.ofList ('.' :: List.replicate count '/')⟩

def slashedText (count : Nat) : List Char := '.' :: '/' :: '.' :: List.replicate count '/'

theorem slashed_text (count : Nat) : (slashed count).text = String.ofList (slashedText count) := by
  have habsolute : isAbsolute (String.ofList ('.' :: List.replicate count '/')) = false := by
    rw [isAbsolute, String.toList_ofList]
    rfl
  have hdot : ¬ (".".isEmpty = true ∨ ".".endsWith "/" = true) := by decide +kernel
  rw [Spelling.text, slashed, Path.join, habsolute, if_neg Bool.false_ne_true, if_neg hdot,
    ← String.toList_inj]
  simp [slashedText]

theorem splitSlash_slashedText (count : Nat) :
    splitSlash (slashedText count) = ['.'] :: ['.'] :: List.replicate count [] := by
  have hslashes : splitSlash (List.replicate count '/') = [] :: List.replicate count [] := by
    induction count with
    | zero => rfl
    | succ count ih => rw [List.replicate_succ, splitSlash_cons_slash, ih, List.replicate_succ]
  have hname : splitSlash ('.' :: List.replicate count '/') = ['.'] :: List.replicate count [] := by
    rw [splitSlash, if_neg (by decide), hslashes]
  change splitSlash (['.'] ++ '/' :: '.' :: List.replicate count '/') = _
  rw [splitSlash_append_slash, hname]
  rfl

theorem utf8ByteSize_slashed (count : Nat) : (slashed count).text.utf8ByteSize = count + 3 := by
  have hslashes : String.utf8Len (List.replicate count '/') = count := by
    induction count with
    | zero => rfl
    | succ count ih =>
        rw [List.replicate_succ, String.utf8Len_cons, ih]
        rfl
  rw [slashed_text, slashedText, String.utf8ByteSize_ofList, String.utf8Len_cons,
    String.utf8Len_cons, String.utf8Len_cons, hslashes]
  rfl

theorem components_slashed (count : Nat) : components (slashed count).text.toList = [.here] := by
  rw [slashed_text, String.toList_ofList,
    components_eq (by simp [slashedText]) (splitSlash_slashedText count)]
  simp [leading, Component.ofSegment?]

/-- A working directory with one script. -/
def scriptDisk : Disk := ⟨.directory [("a.ts".toList, .file "import \"x\"".toUTF8)], []⟩

theorem locate_slashed {count : Nat} (h : count + 3 ≤ Disk.pathLimit) :
    scriptDisk.locate (slashed count).text = .ok ⟨[], scriptDisk.root⟩ := by
  have hzero : (slashed count).text.toList.contains (Char.ofNat 0) = false := by
    rw [slashed_text, String.toList_ofList]
    simp [slashedText]
  have hempty : (slashed count).text.isEmpty = false := by
    rw [slashed_text]
    simp [slashedText]
  have hshort : Disk.isTooLong (slashed count).text = false := by
    rw [Disk.isTooLong, utf8ByteSize_slashed, decide_eq_false_iff_not]
    omega
  have hfollow : scriptDisk.follow [] (['.'] :: ['.'] :: List.replicate count []) = .ok [] := by
    refine follow_idle (by rfl) ?_
    intro segment hsegment
    simp only [List.mem_cons, List.mem_replicate] at hsegment
    tauto
  have hresolve : scriptDisk.resolve (slashed count).text = .ok [] := by
    rw [Disk.resolve, hzero, hempty, hshort, slashed_text, String.toList_ofList,
      splitSlash_slashedText]
    exact hfollow
  rw [Disk.locate, hresolve]
  rfl

def scriptEntries (root : String) : List WalkEntry :=
  [⟨root, scriptDisk.root⟩,
    ⟨Path.join root (String.ofList "a.ts".toList), .file "import \"x\"".toUTF8⟩]

theorem entries_scriptDisk (root : String) :
    Walk.entries ⟨Ignore.kinds true, [], []⟩ root [] scriptDisk.root = scriptEntries root := by
  have hrules (kind : Ignore.Kind) (path : List Char) :
      (Ignore.ruleList kind scriptDisk.root path).rules = [] := by
    have hnone : scriptDisk.root.at? kind.names = none := by cases kind <;> rfl
    rw [Ignore.ruleList, hnone]
    split <;> rfl
  have hverdict := @verdict?_without_rules
    (Ignore.Reach.enter ⟨Ignore.kinds true, [], []⟩ scriptDisk.root root.toList) <| by
      intro level hlevel entry hentry
      simp only [Ignore.Reach.enter, List.append_nil, List.mem_singleton] at hlevel
      rw [hlevel] at hentry
      obtain ⟨kind, -, rfl⟩ := List.mem_map.mp hentry
      exact hrules kind _
  rw [scriptDisk] at hverdict ⊢
  rw [Walk.entries, Walk.below, Walk.below]
  simp only [hverdict]
  rfl

theorem walk_slashed {count : Nat} (h : count + 3 ≤ Disk.pathLimit) :
    scriptDisk.walk true (slashed count).text = .ok (scriptEntries (slashed count).text) := by
  have hshort : Disk.isTooLong (slashed count).text = false := by
    rw [Disk.isTooLong, utf8ByteSize_slashed, decide_eq_false_iff_not]
    omega
  have hopened : Walk.opened (scriptEntries (slashed count).text) =
      .ok (scriptEntries (slashed count).text) := by
    rw [Walk.opened, scriptEntries, List.find?_cons, hshort, Bool.and_false]
    rfl
  rw [Disk.walk, components_slashed, if_neg (by decide), locate_slashed h]
  change Walk.opened (Walk.entries _ _ _ scriptDisk.root) = _
  rw [← hopened, ← entries_scriptDisk]
  rfl

theorem sights_slashed (count : Nat) :
    (scriptEntries (slashed count).text).map (sight (slashed count).text) =
      [⟨some [], none⟩, ⟨some [.name "a.ts".toList], some "import \"x\"".toUTF8⟩] := by
  have hself : dropFront? [Component.here] [.here] = some [] := by decide
  have hchild : dropFront? [Component.here] ([.here] ++ [.name "a.ts".toList]) =
      some [.name "a.ts".toList] := by decide
  simp only [scriptEntries, List.map_cons, List.map_nil, sight,
    components_join _ (show IsEntryName "a.ts".toList by decide), components_slashed, hself, hchild]
  rfl

theorem discover_slashed {count : Nat} (h : Disk.pathLimit < count + 7) :
    discover (slashed count).text [] (scriptEntries (slashed count).text) = [] := by
  have hname : (String.ofList "a.ts".toList).utf8ByteSize = 4 := by decide +kernel
  have hsize := le_utf8ByteSize_join (slashed count).text
    (isAbsolute_ofList (show IsEntryName "a.ts".toList by decide))
  rw [utf8ByteSize_slashed, hname] at hsize
  have hlong : Disk.isTooLong (Path.join (slashed count).text (String.ofList "a.ts".toList)) =
      true := by
    rw [Disk.isTooLong, decide_eq_true_iff]
    omega
  apply discover_eq_nil
  intro entry hentry hfile
  simp only [scriptEntries, List.mem_cons, List.not_mem_nil, or_false] at hentry
  rcases hentry with rfl | rfl
  · cases hfile
  · exact hlong

/-- With so many slashes behind the root that no path below it can be followed, a check finds nothing.
The directory is the same one, and so is what the walk comes to. -/
theorem lint_differs_beyond_reach :
    ∃ (disk : Disk) (left right : Spelling) (names : List Segment)
      (children : List (Segment × Node)) (entries entries' : List WalkEntry)
      (report report' : Report), WellFormed disk.root ∧
      disk.locate left.text = .ok ⟨names, .directory children⟩ ∧
      disk.locate right.text = .ok ⟨names, .directory children⟩ ∧
      disk.walk true left.text = .ok entries ∧ disk.walk true right.text = .ok entries' ∧
      (entries.map (sight left.text)).Perm (entries'.map (sight right.text)) ∧
      disk.lint left.path (left.config (libraryConfig ".")) [] = .ok report ∧
      disk.lint right.path (right.config (libraryConfig ".")) [] = .ok report' ∧
      report ≠ report' := by
  have hlimit : 4090 + 3 ≤ Disk.pathLimit := by decide
  have hbeyond : Disk.pathLimit < 4090 + 7 := by decide
  have hdisk : WellFormed scriptDisk.root :=
    .directory (by decide) (by decide) (by simpa using .file _)
  have hwalk := walk_slashed hlimit
  obtain ⟨checker, hchecker⟩ : ∃ checker, Config.checker (libraryConfig ".") = .ok checker :=
    ⟨_, rfl⟩
  have hfar := discover_slashed hbeyond
  have hcheck : scriptDisk.check (slashed 4090).path ((slashed 4090).config (libraryConfig ".")) [] =
      .ok ⟨checker, (slashed 4090).text, []⟩ := by
    rw [check_eq_of_walk hchecker rfl hwalk, hfar]
  have hreport' : scriptDisk.lint (slashed 4090).path
      ((slashed 4090).config (libraryConfig ".")) [] = .ok ⟨[], 0⟩ := by
    rw [Disk.lint, hcheck]
    simp [Check.run, Check.violations, Report.sort]
  have hreport : scriptDisk.lint (slashed 0).path ((slashed 0).config (libraryConfig ".")) [] =
      .ok ⟨[.badImport ⟨"a.ts", 1, 8⟩ ["lib/**"]], 1⟩ :=
    eq_ok_of_toOption (by decide +kernel)
  refine ⟨scriptDisk, slashed 0, slashed 4090, [], _, _, _, _, _, hdisk, locate_slashed (by decide),
    locate_slashed hlimit, walk_slashed (by decide), hwalk, ?_, hreport, hreport', by decide⟩
  rw [sights_slashed, sights_slashed]

end ImportLint.Proofs.RootSpelling
