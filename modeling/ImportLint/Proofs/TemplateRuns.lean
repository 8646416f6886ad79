import ImportLint.Command.Run
import ImportLint.Proofs.RootSpelling

/-!
Runs that write the configuration that a project starts with.  Such a run fails and changes nothing, or
it changes one file and nothing else; and what it has written is the configuration that is used from
then on.
-/

namespace ImportLint.Proofs.TemplateRuns

open ImportLint.Path
open ImportLint.Command
open ImportLint.Proofs.PathWords
open ImportLint.Proofs.WalkPaths
open ImportLint.Proofs.FileIndependence
open ImportLint.Proofs.RootSpelling

/-- What names lead to, without what is below it. -/
inductive Standing where
  | nothing
  | directory
  | file (bytes : ByteArray)

def standing : Option Node → Standing
  | none => .nothing
  | some (.directory _) => .directory
  | some (.file bytes) => .file bytes

def standingAt (disk : Disk) (names : List Segment) : Standing :=
  standing (disk.root.at? names)

/-- The names that lead to the configuration in the working directory. -/
def place (disk : Disk) : List Segment := disk.here ++ [Template.fileName.toList]

section Trees

@[simp] theorem at?_nil (node : Node) : node.at? [] = some node := by
  cases node <;> rfl

theorem at?_append (node : Node) (front back : List Segment) :
    node.at? (front ++ back) = (node.at? front).bind fun inner => inner.at? back := by
  induction front generalizing node with
  | nil => simp
  | cons name front ih =>
      cases node with
      | file bytes => rfl
      | directory entries =>
          rw [List.cons_append, Node.at?, Node.at?]
          cases entries.lookup name with
          | none => rfl
          | some child => exact ih child

theorem lookup_putEntry (name other : Segment) (node : Node) (entries : List (Segment × Node)) :
    (Node.putEntry name node entries).lookup other =
      if other = name then some node else entries.lookup other := by
  induction entries with
  | nil =>
      by_cases hname : other = name
      · simp [Node.putEntry, hname]
      · simp [Node.putEntry, List.lookup_cons, hname, beq_false_of_ne hname]
  | cons first entries ih =>
      obtain ⟨key, child⟩ := first
      rw [Node.putEntry]
      split <;> grind

theorem at?_put_self (node : Node) (names : List Segment) (parent : Node) :
    (Node.put node names parent).at? names = some node := by
  induction names generalizing parent with
  | nil => exact at?_nil node
  | cons name names ih => simp [Node.put, Node.at?, lookup_putEntry, ih]

/-- A file that is put into a directory, where no directory has its name, changes nothing else. -/
theorem standing_put {bytes : ByteArray} {names others : List Segment} {last : Segment}
    {root : Node} {entries : List (Segment × Node)}
    (hdirectory : root.at? names = some (.directory entries))
    (hlast : ∀ inner, entries.lookup last ≠ some (.directory inner))
    (hne : others ≠ names ++ [last]) :
    standing ((Node.put (.file bytes) (names ++ [last]) root).at? others) =
      standing (root.at? others) := by
  induction names generalizing root others with
  | nil =>
      obtain rfl : root = .directory entries := by
        cases root with
        | file bytes => cases hdirectory
        | directory children => exact Option.some.inj hdirectory
      rcases others with _ | ⟨name, others⟩
      · rfl
      · rw [List.nil_append, Node.put, Node.at?, Node.at?, Node.entries, lookup_putEntry]
        by_cases hname : name = last
        · subst hname
          have hothers : others ≠ [] := by
            rintro rfl
            exact hne rfl
          obtain ⟨next, others, rfl⟩ := List.exists_cons_of_ne_nil hothers
          rw [if_pos rfl, Node.put, Option.bind_some]
          rcases hlookup : entries.lookup name with _ | ⟨bytes | inner⟩
          · rfl
          · rfl
          · exact absurd hlookup (hlast inner)
        · rw [if_neg hname]
  | cons name names ih =>
      rcases root with bytes | children
      · cases hdirectory
      · rw [Node.at?] at hdirectory
        obtain ⟨child, hchild, hinner⟩ := Option.bind_eq_some_iff.mp hdirectory
        rcases others with _ | ⟨other, others⟩
        · rfl
        · rw [List.cons_append, Node.put, Node.at?, Node.at?, Node.entries, lookup_putEntry, hchild]
          by_cases hother : other = name
          · subst hother
            rw [if_pos rfl, hchild]
            exact ih hinner fun heq => hne (by rw [heq]; rfl)
          · rw [if_neg hother]

end Trees

section Paths

variable {disk : Disk} {names : List Segment} {entries : List (Segment × Node)}

theorem follow_append (disk : Disk) (names front back : List Segment) :
    disk.follow names (front ++ back) =
      (disk.follow names front).bind fun names => disk.follow names back := by
  induction front generalizing names with
  | nil => rfl
  | cons segment front ih =>
      rw [List.cons_append, Disk.follow, Disk.follow]
      cases disk.step names segment with
      | error fault => rfl
      | ok next => exact ih next

/-- Follows the segments of a path from where it begins. -/
def followPath (disk : Disk) : List Segment → Except DiskFault (List Segment)
  | [] :: segments => disk.follow [] segments
  | segments => disk.follow disk.here segments

theorem followPath_append (disk : Disk) {front : List Segment} (hne : front ≠ [])
    (back : List Segment) :
    followPath disk (front ++ back) =
      (followPath disk front).bind fun names => disk.follow names back := by
  rcases front with _ | ⟨_ | ⟨c, segment⟩, front⟩
  · exact absurd rfl hne
  · exact follow_append disk [] front back
  · exact follow_append disk disk.here ((c :: segment) :: front) back

theorem resolve_eq_ok_iff (disk : Disk) (path : String) (names : List Segment) :
    disk.resolve path = .ok names ↔ path.toList.contains (Char.ofNat 0) = false ∧
      path.isEmpty = false ∧ Disk.isTooLong path = false ∧
      followPath disk (splitSlash path.toList) = .ok names := by
  rw [Disk.resolve]
  cases path.toList.contains (Char.ofNat 0) <;> cases path.isEmpty <;>
    cases Disk.isTooLong path <;> simp
  exact Iff.rfl

theorem fileName_free :
    Char.ofNat 0 ∉ Template.fileName.toList ∧ '/' ∉ Template.fileName.toList := by
  decide +kernel

theorem follow_fileName (h : disk.root.at? names = some (.directory entries)) :
    disk.follow names [Template.fileName.toList] = .ok (names ++ [Template.fileName.toList]) := by
  have hidle : ¬ (Template.fileName.toList = [] ∨ Template.fileName.toList = ['.']) := by
    decide +kernel
  have hparent : Template.fileName.toList ≠ ['.', '.'] := by decide +kernel
  have hshort : ¬ Disk.nameLimit <
      (String.ofList Template.fileName.toList).utf8ByteSize := by decide +kernel
  rw [Disk.follow, Disk.step, h]
  simp only [if_neg hidle, if_neg hparent, if_neg hshort]
  rfl

theorem resolve_fileName (disk : Disk) :
    disk.resolve Template.fileName = disk.follow disk.here [Template.fileName.toList] := by
  have hzero : Template.fileName.toList.contains (Char.ofNat 0) = false := by decide +kernel
  have hsome : Template.fileName.isEmpty = false := by decide +kernel
  have hshort : Disk.isTooLong Template.fileName = false := by decide +kernel
  rw [Disk.resolve, hzero, hsome, hshort, splitSlash_of_slash_free fileName_free.2]
  rfl

/-- Following no further step from a directory leads to it. -/
theorem followPath_of_idle {segments : List Segment} (hne : segments ≠ [])
    (h : followPath disk (segments ++ [[]]) = .ok names) : followPath disk segments = .ok names := by
  rw [followPath_append disk hne] at h
  obtain ⟨inner, hinner, hstep⟩ : ∃ inner, followPath disk segments = .ok inner ∧
      disk.follow inner [[]] = .ok names := by
    cases hsegments : followPath disk segments with
    | error fault => rw [hsegments] at h; cases h
    | ok inner => exact ⟨inner, rfl, by rwa [hsegments] at h⟩
  rw [Disk.follow, Disk.step] at hstep
  generalize disk.root.at? inner = found at hstep
  rcases found with _ | ⟨bytes | children⟩
  · cases hstep
  · cases hstep
  · rw [hinner]
    exact hstep

/-- What is found in a directory, however the path to it is spelled. -/
theorem resolve_join {project : String} (hproject : disk.resolve project = .ok names)
    (hdirectory : disk.root.at? names = some (.directory entries))
    (hshort : Disk.isTooLong (Path.join project Template.fileName) = false) :
    disk.resolve (Path.join project Template.fileName) =
      .ok (names ++ [Template.fileName.toList]) := by
  obtain ⟨hzero, hsome, -, hfollow⟩ := (resolve_eq_ok_iff disk project names).mp hproject
  obtain ⟨text, htext, htextZero, hsegments⟩ : ∃ text,
      (Path.join project Template.fileName).toList = text ++ '/' :: Template.fileName.toList ∧
        Char.ofNat 0 ∉ text ∧ followPath disk (splitSlash text) = .ok names := by
    rw [List.contains_eq_mem, decide_eq_false_iff_not] at hzero
    have hrelative : isAbsolute Template.fileName = false := by decide +kernel
    rw [Path.join, hrelative, hsome]
    by_cases hslash : project.endsWith "/" = true
    · obtain ⟨text, htext⟩ := (endsWith_slash_iff project).mp hslash
      rw [htext] at hzero hfollow
      rw [splitSlash_append_slash] at hfollow
      refine ⟨text, by simp [hslash, htext], fun hmem => hzero (by simp [hmem]), ?_⟩
      exact followPath_of_idle (splitSlash_ne_nil text) hfollow
    · exact ⟨project.toList, by simp [hslash], hzero, hfollow⟩
  rw [resolve_eq_ok_iff, htext, splitSlash_append_slash,
    splitSlash_of_slash_free fileName_free.2, followPath_append disk (splitSlash_ne_nil text),
    hsegments]
  refine ⟨?_, ?_, hshort, follow_fileName hdirectory⟩
  · rw [List.contains_eq_mem, decide_eq_false_iff_not, List.mem_append, List.mem_cons]
    rintro (hmem | hmem | hmem)
    · exact htextZero hmem
    · exact absurd hmem (by decide)
    · exact fileName_free.1 hmem
  · rw [Bool.eq_false_iff, ne_eq, String.isEmpty_iff, ← String.toList_eq_nil_iff, htext]
    simp

end Paths

section Runs

variable {disk before middle after : Disk} {force : Bool}

/-- A run can write: the working directory is there, and nothing is in the way but, with force, a
file. -/
structure Writable (disk : Disk) (force : Bool) : Prop where
  here : standingAt disk disk.here = .directory
  free : standingAt disk (place disk) = .nothing ∨
    force = true ∧ ∃ bytes, standingAt disk (place disk) = .file bytes

/-- The tree afterwards is the tree before with the template in its place. -/
structure Installed (before after : Disk) : Prop where
  here_eq : after.here = before.here
  here : standingAt after after.here = .directory
  installed : standingAt after (place after) = .file Config.template.toUTF8
  elsewhere : ∀ names, names ≠ place after → standingAt after names = standingAt before names

theorem standing_eq_directory {found : Option Node} (h : standing found = .directory) :
    ∃ entries, found = some (.directory entries) := by
  rcases found with _ | ⟨bytes | entries⟩
  · cases h
  · cases h
  · exact ⟨entries, rfl⟩

theorem standing_eq_file {found : Option Node} {bytes : ByteArray}
    (h : standing found = .file bytes) : found = some (.file bytes) := by
  rcases found with _ | ⟨_ | entries⟩
  · cases h
  · cases h
    rfl
  · cases h

theorem standing_eq_nothing {found : Option Node} (h : standing found = .nothing) :
    found = none := by
  rcases found with _ | ⟨bytes | entries⟩
  · rfl
  · cases h
  · cases h

theorem at?_place (disk : Disk) : disk.root.at? (place disk) =
    (disk.root.at? disk.here).bind fun here => here.at? [Template.fileName.toList] :=
  at?_append disk.root disk.here _

theorem lookup_fileName {entries : List (Segment × Node)}
    (h : disk.root.at? disk.here = some (.directory entries)) :
    entries.lookup Template.fileName.toList = disk.root.at? (place disk) := by
  rw [at?_place, h, Option.bind_some, Node.at?]
  cases entries.lookup Template.fileName.toList <;> simp

/-- Something of the name of the configuration is there. -/
theorem exists_fileName_iff (disk : Disk) :
    disk.exists? Template.fileName = true ↔ standingAt disk (place disk) ≠ .nothing := by
  rw [Disk.exists?, Disk.locate, resolve_fileName, standingAt]
  rcases hhere : disk.root.at? disk.here with _ | ⟨bytes | entries⟩
  · simp [Disk.follow, Disk.step, at?_place, hhere, standing]
  · simp [Disk.follow, Disk.step, at?_place, hhere, standing, Node.at?]
  · rw [follow_fileName hhere, ← place]
    dsimp only
    generalize disk.root.at? (place disk) = found
    rcases found with _ | ⟨bytes | inner⟩ <;> simp [standing]

theorem write_of_writable (h : Writable disk force) :
    Template.write force disk = .ok { disk with
      root := Node.put (.file Config.template.toUTF8) (place disk) disk.root } := by
  obtain ⟨entries, hhere⟩ := standing_eq_directory h.here
  rw [Template.write, Disk.write, hhere]
  dsimp only
  rw [lookup_fileName hhere]
  rcases h.free with hfree | ⟨rfl, bytes, hfile⟩
  · have hnone : ¬ disk.exists? Template.fileName = true := by
      rw [exists_fileName_iff, hfree]
      simp
    rw [if_neg fun h => hnone h.1, standing_eq_nothing hfree]
    rfl
  · rw [if_neg (by simp), standing_eq_file hfile]
    rfl

theorem write_of_not_writable (h : ¬ Writable disk force) :
    ∃ cause, Template.write force disk = .error cause := by
  rw [Template.write, Disk.write]
  split
  · exact ⟨_, rfl⟩
  · next hforce =>
    rcases hhere : disk.root.at? disk.here with _ | ⟨bytes | entries⟩
    · exact ⟨_, rfl⟩
    · exact ⟨_, rfl⟩
    · dsimp only
      rw [lookup_fileName hhere]
      have hstanding : standingAt disk disk.here = .directory := by rw [standingAt, hhere]; rfl
      rcases hplace : disk.root.at? (place disk) with _ | ⟨bytes | inner⟩
      · exact absurd ⟨hstanding, .inl (by rw [standingAt, hplace]; rfl)⟩ h
      · have hfile : standingAt disk (place disk) = .file bytes := by rw [standingAt, hplace]; rfl
        have hexists := (exists_fileName_iff disk).mpr (by simp [hfile])
        exact absurd ⟨hstanding, .inr ⟨by simpa [hexists] using hforce, bytes, hfile⟩⟩ h
      · exact ⟨_, rfl⟩

theorem installed_of_writable (h : Writable disk force) :
    Installed disk { disk with
      root := Node.put (.file Config.template.toUTF8) (place disk) disk.root } := by
  obtain ⟨entries, hhere⟩ := standing_eq_directory h.here
  have hfree (inner : List (Segment × Node)) :
      entries.lookup Template.fileName.toList ≠ some (.directory inner) := by
    rw [lookup_fileName hhere]
    intro hplace
    have hstanding : standingAt disk (place disk) = .directory := by rw [standingAt, hplace]; rfl
    rcases h.free with hfree | ⟨-, bytes, hfile⟩
    · rw [hstanding] at hfree
      cases hfree
    · rw [hstanding] at hfile
      cases hfile
  have hput {names : List Segment} (hne : names ≠ place disk) :
      standing ((Node.put (.file Config.template.toUTF8) (place disk) disk.root).at? names) =
        standingAt disk names :=
    standing_put hhere hfree hne
  exact {
    here_eq := rfl
    here := (hput (by simp [place])).trans h.here
    installed := by
      rw [standingAt]
      exact congrArg standing (at?_put_self _ _ _)
    elsewhere := fun names hne => hput hne }

theorem Installed.place_eq (h : Installed before after) : place after = place before := by
  rw [place, place, h.here_eq]

theorem Installed.trans (h : Installed before middle) (h' : Installed middle after) :
    Installed before after where
  here_eq := h'.here_eq.trans h.here_eq
  here := h'.here
  installed := h'.installed
  elsewhere := by
    intro names hne
    rw [h'.elsewhere names hne, h.elsewhere names (by rwa [← h'.place_eq])]

/-- A run fails and leaves the tree as it was, or it writes the template. -/
inductive Ran (before : Disk) (force : Bool) : Outcome → Prop
  | failed (h : ¬ Writable before force) (chain : List String) :
      Ran before force (.failed before [] chain)
  | wrote {after : Disk} (h : Writable before force) (hinstalled : Installed before after) :
      Ran before force (.success after Template.notice)

theorem writeTemplate_ran (disk : Disk) (force : Bool) :
    Ran disk force (writeTemplate disk force) := by
  rw [writeTemplate]
  by_cases h : Writable disk force
  · rw [write_of_writable h]
    exact .wrote h (installed_of_writable h)
  · obtain ⟨cause, hcause⟩ := write_of_not_writable h
    rw [hcause]
    exact .failed h cause.chain

theorem Ran.kept {outcome : Outcome} (h : Ran before force outcome)
    (hfailed : outcome.failure ≠ none) : outcome.disk = before := by
  cases h with
  | failed hfree chain => rfl
  | wrote hwritable hinstalled => exact absurd rfl hfailed

theorem Ran.installed {outcome : Outcome} (h : Ran before force outcome)
    (hok : outcome.failure = none) : Installed before outcome.disk := by
  cases h with
  | failed hfree chain => cases hok
  | wrote hwritable hinstalled => exact hinstalled

theorem Ran.writable {outcome : Outcome} (h : Ran before force outcome)
    (hok : outcome.failure = none) : Writable before force := by
  cases h with
  | failed hfree chain => cases hok
  | wrote hwritable hinstalled => exact hwritable

/-- The outcomes of runs one after the other, each in the tree that the one before has left. -/
def runs (disk : Disk) : List Bool → List Outcome
  | [] => []
  | force :: rest => writeTemplate disk force :: runs (writeTemplate disk force).disk rest

/-- The tree that runs one after the other leave. -/
def afterRuns (disk : Disk) : List Bool → Disk
  | [] => disk
  | force :: rest => afterRuns (writeTemplate disk force).disk rest

theorem afterRuns_cases (disk : Disk) (forces : List Bool) :
    (∀ outcome ∈ runs disk forces, outcome.failure ≠ none) ∧ afterRuns disk forces = disk ∨
      (∃ outcome ∈ runs disk forces, outcome.failure = none) ∧
        Installed disk (afterRuns disk forces) := by
  induction forces generalizing disk with
  | nil => exact .inl ⟨by simp [runs], rfl⟩
  | cons force forces ih =>
      have hran := writeTemplate_ran disk force
      rw [runs, afterRuns, List.forall_mem_cons, List.exists_mem_cons_iff]
      by_cases hfirst : (writeTemplate disk force).failure = none
      · refine .inr ⟨.inl hfirst, ?_⟩
        rcases ih (writeTemplate disk force).disk with ⟨-, hkept⟩ | ⟨-, hinstalled⟩
        · rw [hkept]
          exact hran.installed hfirst
        · exact (hran.installed hfirst).trans hinstalled
      · rw [hran.kept hfirst]
        rcases ih disk with ⟨hfailed, hkept⟩ | ⟨hok, hinstalled⟩
        · exact .inl ⟨⟨hfirst, hfailed⟩, hkept⟩
        · exact .inr ⟨.inr hok, hinstalled⟩

end Runs

section Use

/-- The configuration that a project starts with. -/
def templateConfig : Config :=
  { Config.default with
    analyzer := ⟨".", ["**/node_modules/**", "**/out/**", "**/dist/**"], true⟩
    policies := [⟨"src/common/**", ["src/common/**"]⟩,
      ⟨"src/browser/**", ["src/common/**", "src/browser/**"]⟩,
      ⟨"src/node/**", ["src/common/**", "src/node/**", "\x7bfs,path,os\x7d"]⟩] }

set_option maxRecDepth 100000 in
theorem parse_template : Config.parse Config.template = .ok templateConfig := by
  apply eq_ok_of_toOption
  rw [Config.parse, Toml.parse, Config.template, String.toList_join]
  decide +kernel

theorem exists_policySet : ∃ policies, templateConfig.policySet = .ok policies := by
  exact ⟨_, rfl⟩

theorem decodeText_toUTF8 (text : String) : decodeText text.toUTF8 = .ok text := by
  have hvalid : text.toUTF8.IsValidUTF8 := text.isValidUTF8
  rw [decodeText, String.fromUTF8?, dif_pos hvalid]
  rfl

theorem load_of_locate {disk : Disk} {source : ConfigSource} {path text : String}
    {names : List Segment} {config : Config} (hpath : source.path? = some path)
    (hlocate : disk.locate path = .ok ⟨names, .file text.toUTF8⟩)
    (hparse : Config.parse text = .ok config) : source.load disk = .ok config := by
  have hread : disk.readText path = .ok text := by
    rw [Disk.readText, Disk.read, hlocate]
    exact decodeText_toUTF8 text
  simp only [ConfigSource.load, hpath, hread, hparse]

/-- However the working directory is spelled, its configuration is the one that is used, whatever
else there is; it can be read, and it gives policies. -/
structure Usable (disk : Disk) : Prop where
  here : disk.resolve "." = .ok disk.here
  used : ∀ project sharedDirectory, disk.resolve project = .ok disk.here →
    Disk.isTooLong (Path.join project Template.fileName) = false →
    ConfigSource.find disk project none sharedDirectory =
      .project (Path.join project Template.fileName) ∧
    ∃ config policies,
      ConfigSource.load disk (.project (Path.join project Template.fileName)) = .ok config ∧
        config.policySet = .ok policies

theorem resolve_here {disk : Disk} {entries : List (Segment × Node)}
    (h : disk.root.at? disk.here = some (.directory entries)) :
    disk.resolve "." = .ok disk.here := by
  have hfollow : disk.follow disk.here [['.']] = .ok disk.here := follow_idle h (by simp)
  rw [resolve_eq_ok_iff]
  exact ⟨by decide +kernel, by decide +kernel, by decide +kernel, hfollow⟩

theorem usable_of_installed {before after : Disk} (h : Installed before after) : Usable after := by
  obtain ⟨entries, hhere⟩ := standing_eq_directory h.here
  refine ⟨resolve_here hhere, fun project sharedDirectory hproject hshort => ?_⟩
  have hlocate : after.locate (Path.join project Template.fileName) =
      .ok ⟨place after, .file Config.template.toUTF8⟩ := by
    rw [Disk.locate, resolve_join hproject hhere hshort, ← place]
    dsimp only
    rw [standing_eq_file h.installed]
  have hthere : ConfigSource.isThere after
      (.project (Path.join project Template.fileName)) = true := by
    rw [ConfigSource.isThere, ConfigSource.path?, Option.any_some, Disk.exists?, hlocate]
  have hload : ConfigSource.load after (.project (Path.join project Template.fileName)) =
      .ok templateConfig :=
    load_of_locate rfl hlocate parse_template
  obtain ⟨policies, hpolicies⟩ := exists_policySet
  refine ⟨?_, templateConfig, policies, hload, hpolicies⟩
  -- the name of the template is the first that is looked for
  have hfirst : ConfigSource.projectNames = Template.fileName :: [".import-patterns.toml"] := rfl
  rw [ConfigSource.find, ConfigSource.candidates, hfirst, List.map_cons, List.cons_append,
    List.find?_cons_of_pos hthere, Option.getD_some]

end Use

/-- A run that fails leaves the tree as it was, and without force it fails where there is something
already; one that does not fail puts the template in place, changes nothing else and leaves a
configuration that is used.  So after any number of runs the tree is either as it was before, and
then all of them have failed, or the template is in place and is used. -/
theorem runs_keep_or_install (disk : Disk) :
    (standingAt disk (place disk) ≠ .nothing → (writeTemplate disk false).failure ≠ none) ∧
    (∀ force, (writeTemplate disk force).failure ≠ none → (writeTemplate disk force).disk = disk) ∧
    (∀ force, (writeTemplate disk force).failure = none →
      Installed disk (writeTemplate disk force).disk ∧ Usable (writeTemplate disk force).disk) ∧
    ∀ forces,
      (∀ outcome ∈ runs disk forces, outcome.failure ≠ none) ∧ afterRuns disk forces = disk ∨
        (∃ outcome ∈ runs disk forces, outcome.failure = none) ∧
          Installed disk (afterRuns disk forces) ∧ Usable (afterRuns disk forces) := by
  refine ⟨fun htaken hok => ?_, fun force => (writeTemplate_ran disk force).kept,
    fun force hok => ?_, fun forces => ?_⟩
  · rcases ((writeTemplate_ran disk false).writable hok).free with hfree | ⟨hforce, -⟩
    · exact htaken hfree
    · cases hforce
  · have hinstalled := (writeTemplate_ran disk force).installed hok
    exact ⟨hinstalled, usable_of_installed hinstalled⟩
  · rcases afterRuns_cases disk forces with hkept | ⟨hok, hinstalled⟩
    · exact .inl hkept
    · exact .inr ⟨hok, hinstalled, usable_of_installed hinstalled⟩

set_option maxRecDepth 100000 in
/-- A file that is there already is kept until force is used. -/
theorem runs_keep_or_install_own :
    ∃ disk : Disk, standingAt disk (place disk) = .file "mine".toUTF8 ∧
      afterRuns disk [false, false] = disk ∧
      standingAt (afterRuns disk [false, true, false]) (place disk) =
        .file Config.template.toUTF8 ∧
      ConfigSource.find (afterRuns disk [false, true, false]) "." none (some "home") =
        .project "./import-patterns.toml" := by
  let disk : Disk := ⟨written [([Template.fileName.toList], "mine".toUTF8)], []⟩
  have hmine : standingAt disk (place disk) = .file "mine".toUTF8 := rfl
  obtain ⟨hfails, hkeeps, -, hruns⟩ := runs_keep_or_install disk
  have hplain : (writeTemplate disk false).failure ≠ none := hfails (by rw [hmine]; simp)
  have hsame : (writeTemplate disk false).disk = disk := hkeeps false hplain
  have hforced : (writeTemplate disk true).failure = none := rfl
  refine ⟨disk, hmine, ?_, ?_⟩
  · rw [afterRuns, hsame, afterRuns, hsame, afterRuns]
  · rcases hruns [false, true, false] with ⟨hfailed, -⟩ | ⟨-, hinstalled, husable⟩
    · refine absurd hforced (hfailed _ ?_)
      rw [runs, hsame, runs]
      simp
    · refine ⟨by rw [← hinstalled.place_eq]; exact hinstalled.installed, ?_⟩
      have hpath : Path.join "." Template.fileName = "./import-patterns.toml" := by decide +kernel
      rw [← hpath]
      exact (husable.used "." (some "home") husable.here (by decide +kernel)).1

end ImportLint.Proofs.TemplateRuns
