import ImportLint.Config.Source
import ImportLint.Proofs.ExcludeGlobs

/-!
Files that a check does not read.  A check reads its ignore files and the scripts that it discovers;
whatever the bytes of all other files become, it finds the same.
-/

namespace ImportLint.Proofs.UnreadFiles

open ImportLint.Path
open ImportLint.Proofs.WalkPaths
open ImportLint.Proofs.DiscoveredPaths
open ImportLint.Proofs.ExcludeGlobs

/-- What the bytes of a file become, by the names that lead to it. -/
abbrev Change := List Segment → ByteArray → ByteArray

mutual

/-- The node that names lead to, with the bytes of its files changed. -/
def changed (change : Change) (names : List Segment) : Node → Node
  | .file bytes => .file (change names bytes)
  | .directory children => .directory (changedAll change names children)

def changedAll (change : Change) (names : List Segment) :
    List (Segment × Node) → List (Segment × Node)
  | [] => []
  | (name, child) :: rest =>
    (name, changed change (names ++ [name]) child) :: changedAll change names rest

end

def changedDisk (change : Change) (disk : Disk) : Disk :=
  { disk with root := changed change [] disk.root }

theorem isFile_changed (change : Change) (names : List Segment) (node : Node) :
    (changed change names node).isFile = node.isFile := by
  cases node <;> rfl

theorem lookup_changedAll (change : Change) (names : List Segment) (name : Segment)
    (children : List (Segment × Node)) :
    (changedAll change names children).lookup name =
      (children.lookup name).map (changed change (names ++ [name])) := by
  induction children with
  | nil => rfl
  | cons child children ih =>
      obtain ⟨other, node⟩ := child
      rw [changedAll, List.lookup_cons, List.lookup_cons]
      by_cases hname : name = other
      · subst hname
        simp
      · simpa [beq_false_of_ne hname] using ih

theorem at?_changed (change : Change) (names steps : List Segment) (node : Node) :
    (changed change names node).at? steps =
      (node.at? steps).map (changed change (names ++ steps)) := by
  induction steps generalizing names node with
  | nil => cases node <;> simp [changed, Node.at?]
  | cons step steps ih =>
      cases node with
      | file bytes => rfl
      | directory children =>
          rw [changed, Node.at?, Node.at?, lookup_changedAll]
          cases children.lookup step with
          | none => rfl
          | some child => simpa using ih (names ++ [step]) child

section Places

variable (change : Change) (disk : Disk)

theorem at?_changedDisk (names : List Segment) :
    (changedDisk change disk).root.at? names =
      (disk.root.at? names).map (changed change names) :=
  at?_changed change [] names disk.root

theorem resolve_changedDisk (path : String) :
    (changedDisk change disk).resolve path = disk.resolve path := by
  refine resolve_sameShape (fun names => ?_) path
  rw [at?_changed, Option.map_map]
  congr 1
  funext node
  exact isFile_changed change _ node

theorem locate_changedDisk (path : String) :
    (changedDisk change disk).locate path =
      (disk.locate path).map fun place => ⟨place.names, changed change place.names place.node⟩ := by
  rw [Disk.locate, Disk.locate, resolve_changedDisk]
  cases disk.resolve path with
  | error fault => rfl
  | ok names =>
      dsimp only
      rw [at?_changedDisk]
      cases disk.root.at? names <;> rfl

end Places

theorem ruleList_changed {change : Change} {kind : Ignore.Kind} {names : List Segment}
    (h : ∀ bytes, change (names ++ kind.names) bytes = bytes) (directory : Node)
    (path : List Char) :
    Ignore.ruleList kind (changed change names directory) path =
      Ignore.ruleList kind directory path := by
  rw [Ignore.ruleList, Ignore.ruleList, at?_changed]
  cases directory.at? kind.names with
  | none => rfl
  | some node =>
      cases node with
      | file bytes => simp only [Option.map_some, changed, h]
      | directory children => rfl

theorem level_changed {change : Change} {kinds : List Ignore.Kind} {names : List Segment}
    (h : ∀ kind ∈ kinds, ∀ bytes, change (names ++ kind.names) bytes = bytes) (directory : Node)
    (path : List Char) :
    Ignore.level kinds (changed change names directory) path =
      Ignore.level kinds directory path := by
  rw [Ignore.level, Ignore.level]
  refine List.map_congr_left fun kind hkind => ?_
  rw [Ignore.scope, Ignore.scope, ruleList_changed (h kind hkind)]

/-- The path of what names lead to from a root, as a walk spells it. -/
def spelled (root : String) (steps : List Segment) : String :=
  steps.foldl (fun path name => Path.join path (String.ofList name)) root

/-- A walk comes to the same place, and finds the changed node there. -/
def IsChanged (change : Change) (root : String) (names : List Segment)
    (left right : WalkEntry) : Prop :=
  ∃ steps, left.path = spelled root steps ∧
    right = ⟨left.path, changed change (names ++ steps) left.node⟩

theorem IsChanged.of_name {change : Change} {root : String} {names : List Segment}
    {name : Segment} {left right : WalkEntry}
    (h : IsChanged change (Path.join root (String.ofList name)) (names ++ [name]) left right) :
    IsChanged change root names left right := by
  obtain ⟨steps, hpath, hright⟩ := h
  refine ⟨name :: steps, hpath, ?_⟩
  rw [hright, List.append_assoc]
  rfl

/-- A change keeps the ignore files of the directories among entries. -/
def KeepsRules (change : Change) (kinds : List Ignore.Kind) (root : String)
    (names : List Segment) (entries : List WalkEntry) : Prop :=
  ∀ steps children, ⟨spelled root steps, .directory children⟩ ∈ entries →
    ∀ kind ∈ kinds, ∀ bytes, change (names ++ steps ++ kind.names) bytes = bytes

mutual

/-- Where the rules stay, a walk goes the same way. -/
theorem entries_changed (change : Change) (reach : Ignore.Reach) (path : String)
    (names : List Segment) :
    ∀ node : Node, KeepsRules change reach.kinds path names (Walk.entries reach path names node) →
      List.Forall₂ (IsChanged change path names) (Walk.entries reach path names node)
        (Walk.entries reach path names (changed change names node))
  | .file bytes, _ => by
      rw [changed, Walk.entries, Walk.entries]
      exact .cons ⟨[], rfl, by simp [changed]⟩ .nil
  | .directory children, h => by
      have henter : reach.enter (.directory (changedAll change names children)) path.toList =
          reach.enter (.directory children) path.toList := by
        -- the directory is an entry itself, so that its own rules stay
        have hrules : ∀ kind ∈ reach.kinds, ∀ bytes,
            change (names ++ kind.names) bytes = bytes := by
          simpa using h [] children (by simp [Walk.entries, spelled])
        rw [Ignore.Reach.enter, Ignore.Reach.enter,
          ← level_changed hrules (.directory children), changed]
      rw [changed, Walk.entries, Walk.entries, henter]
      refine .cons ⟨[], rfl, by simp [changed]⟩ ?_
      refine below_changed change _ path names children ?_
      intro steps inner hentry
      refine h steps inner ?_
      rw [Walk.entries]
      exact List.mem_cons_of_mem _ hentry

theorem below_changed (change : Change) (reach : Ignore.Reach) (path : String)
    (names : List Segment) :
    ∀ children : List (Segment × Node),
      KeepsRules change reach.kinds path names (Walk.below reach path names children) →
      List.Forall₂ (IsChanged change path names) (Walk.below reach path names children)
        (Walk.below reach path names (changedAll change names children))
  | [], _ => by
      rw [changedAll, Walk.below]
      exact .nil
  | (name, child) :: rest, h => by
      rw [Walk.below] at h
      rw [changedAll, Walk.below, Walk.below, isFile_changed]
      split
      · next hleft =>
        rw [if_pos hleft] at h
        exact below_changed change reach path names rest h
      · next hkept =>
        rw [if_neg hkept] at h
        refine List.rel_append ?_ ?_
        · have hchild := entries_changed change reach (Path.join path (String.ofList name))
            (names ++ [name]) child <| by
              intro steps inner hentry
              simpa using h (name :: steps) inner (List.mem_append_left _ hentry)
          exact hchild.imp fun _ _ => IsChanged.of_name
        · refine below_changed change reach path names rest ?_
          exact fun steps inner hentry => h steps inner (List.mem_append_right _ hentry)

end

/-- What holds at the root of a walk, without the rules of the root itself. -/
def reachAt (disk : Disk) (kinds : List Ignore.Kind) (names : List Segment) : Ignore.Reach :=
  ⟨kinds, [], (Walk.above disk.root names).map fun (names, node) =>
    Ignore.level kinds node (Walk.truePath names)⟩

/-- The names that lead to the ignore files that a walk reads. -/
inductive IsRuleFile (disk : Disk) (kinds : List Ignore.Kind) (root : String) :
    List Segment → Prop
  | above {names : List Segment} {children : List (Segment × Node)} {count : Nat}
      {kind : Ignore.Kind} (hroot : disk.locate root = .ok ⟨names, .directory children⟩)
      (hcount : count < names.length) (hkind : kind ∈ kinds) :
      IsRuleFile disk kinds root (names.take count ++ kind.names)
  | within {names steps : List Segment} {children inner : List (Segment × Node)}
      {kind : Ignore.Kind} (hroot : disk.locate root = .ok ⟨names, .directory children⟩)
      (hentry : ⟨spelled root steps, .directory inner⟩ ∈
        Walk.entries (reachAt disk kinds names) root names (.directory children))
      (hkind : kind ∈ kinds) : IsRuleFile disk kinds root (names ++ steps ++ kind.names)

theorem above_changedDisk (change : Change) (disk : Disk) (names : List Segment) :
    Walk.above (changedDisk change disk).root names =
      (Walk.above disk.root names).map fun (names, node) => (names, changed change names node) := by
  rw [Walk.above, Walk.above, List.map_filterMap]
  refine List.filterMap_congr fun count _ => ?_
  rw [at?_changedDisk]
  cases disk.root.at? (names.take count) <;> rfl

theorem mem_above {root : Node} {names others : List Segment} {node : Node}
    (h : (others, node) ∈ Walk.above root names) :
    ∃ count < names.length, others = names.take count := by
  rw [Walk.above, List.mem_filterMap] at h
  obtain ⟨count, hcount, hnode⟩ := h
  obtain ⟨_, -, heq⟩ := Option.map_eq_some_iff.mp hnode
  exact ⟨count, by simpa using hcount, (Prod.mk.inj heq).1.symm⟩

/-- Two walks fail alike, come to nothing, or come to the same places. -/
inductive Agree (change : Change) (disk : Disk) (root : String) :
    Except WalkError (List WalkEntry) → Except WalkError (List WalkEntry) → Prop
  | error (cause : WalkError) : Agree change disk root (.error cause) (.error cause)
  | nothing : Agree change disk root (.ok []) (.ok [])
  | entries {names : List Segment} (hroot : disk.resolve root = .ok names)
      {entries entries' : List WalkEntry}
      (h : List.Forall₂ (IsChanged change root names) entries entries') :
      Agree change disk root (.ok entries) (.ok entries')

theorem find?_changed {change : Change} {root : String} {names : List Segment}
    {entries entries' : List WalkEntry}
    (h : List.Forall₂ (IsChanged change root names) entries entries') :
    Option.Rel (fun left right => left.path = right.path)
      (entries.find? fun entry => !entry.node.isFile && Disk.isTooLong entry.path)
      (entries'.find? fun entry => !entry.node.isFile && Disk.isTooLong entry.path) := by
  induction h with
  | nil => exact .none
  | @cons left right _ _ hchanged _ ih =>
      obtain ⟨steps, -, rfl⟩ := hchanged
      rw [List.find?_cons, List.find?_cons, isFile_changed]
      cases !left.node.isFile && Disk.isTooLong left.path with
      | true => exact .some rfl
      | false => exact ih

theorem opened_changed {change : Change} {disk : Disk} {root : String} {names : List Segment}
    (hroot : disk.resolve root = .ok names) {entries entries' : List WalkEntry}
    (h : List.Forall₂ (IsChanged change root names) entries entries') :
    Agree change disk root (Walk.opened entries) (Walk.opened entries') := by
  have hfind := find?_changed h
  rw [Walk.opened, Walk.opened]
  generalize (entries.find? fun entry => _) = deep at hfind ⊢
  generalize (entries'.find? fun entry => _) = deep' at hfind ⊢
  cases hfind with
  | none => exact .entries hroot h
  | some hpath =>
      dsimp only
      rw [hpath]
      exact .error _

theorem resolve_of_locate {disk : Disk} {path : String} {place : Place}
    (h : disk.locate path = .ok place) : disk.resolve path = .ok place.names := by
  rw [Disk.locate] at h
  split at h
  · cases h
  · next names hnames =>
    split at h
    · cases h
    · cases h
      exact hnames

section Walks

variable {change : Change} {disk : Disk} {respectVersionControl : Bool} {root : String}
  {names : List Segment} {children : List (Segment × Node)}
  (hroot : disk.locate root = .ok ⟨names, .directory children⟩)
  (hkeep : ∀ file, IsRuleFile disk (Ignore.kinds respectVersionControl) root file →
    ∀ bytes, change file bytes = bytes)

include hroot hkeep

theorem faults_changed {others : List Segment} {node : Node}
    (hmem : (others, node) ∈ Walk.above disk.root names) :
    Walk.faults (Ignore.kinds respectVersionControl) others (changed change others node) =
      Walk.faults (Ignore.kinds respectVersionControl) others node := by
  obtain ⟨count, hcount, rfl⟩ := mem_above hmem
  rw [Walk.faults, Walk.faults]
  refine List.flatMap_congr fun kind hkind => ?_
  rw [ruleList_changed (hkeep _ (.above hroot hcount hkind))]

theorem reachAt_changedDisk :
    reachAt (changedDisk change disk) (Ignore.kinds respectVersionControl) names =
      reachAt disk (Ignore.kinds respectVersionControl) names := by
  rw [reachAt, reachAt, above_changedDisk, List.map_map]
  congr 1
  refine List.map_congr_left fun entry hentry => ?_
  obtain ⟨others, node⟩ := entry
  obtain ⟨count, hcount, rfl⟩ := mem_above hentry
  exact level_changed (fun kind hkind => hkeep _ (.above hroot hcount hkind)) _ _

end Walks

/-- Where the ignore files stay, a walk through the changed tree is the walk through the tree. -/
theorem walk_changedDisk {change : Change} {disk : Disk} {respectVersionControl : Bool}
    {root : String}
    (hkeep : ∀ file, IsRuleFile disk (Ignore.kinds respectVersionControl) root file →
      ∀ bytes, change file bytes = bytes) :
    Agree change disk root (disk.walk respectVersionControl root)
      ((changedDisk change disk).walk respectVersionControl root) := by
  rw [Disk.walk, Disk.walk]
  split
  · exact .nothing
  rw [locate_changedDisk]
  cases hroot : disk.locate root with
  | error fault => exact .error _
  | ok place =>
      obtain ⟨names, node⟩ := place
      have hresolve := resolve_of_locate hroot
      cases node with
      | file bytes => exact .entries hresolve (.cons ⟨[], rfl, by simp [changed]⟩ .nil)
      | directory children =>
          have hfaults : (Walk.above (changedDisk change disk).root names).reverse.flatMap
                (fun (names, node) =>
                  Walk.faults (Ignore.kinds respectVersionControl) names node) =
              (Walk.above disk.root names).reverse.flatMap fun (names, node) =>
                Walk.faults (Ignore.kinds respectVersionControl) names node := by
            rw [above_changedDisk, ← List.map_reverse, List.flatMap_map]
            refine List.flatMap_congr fun entry hentry => ?_
            exact faults_changed hroot hkeep (List.mem_reverse.mp hentry)
          simp only [Except.map, changed, hfaults]
          split
          · refine opened_changed hresolve ?_
            have hreach := reachAt_changedDisk hroot hkeep
            rw [reachAt, reachAt] at hreach
            rw [hreach, ← changed]
            apply entries_changed
            intro steps inner hentry kind hkind
            exact hkeep _ (.within hroot hentry hkind)
          · exact .error _

/-- A file among the entries of a walk that is a script by its extension and that no pattern leaves
out. -/
structure IsDiscovered (root : String) (patterns : List String) (entries : List WalkEntry)
    (source : SourceFile) : Prop where
  seen : ∃ entry ∈ entries, entry.sourceFile? = some source
  kept : leavesOut patterns (source.localPath root) = false

theorem mem_discover_iff {root : String} {patterns : List String} {excluded : ExcludeSet}
    (h : ExcludeSet.compile patterns = .ok excluded) {entries : List WalkEntry}
    {source : SourceFile} :
    source ∈ discover root excluded entries ↔ IsDiscovered root patterns entries source := by
  rw [discover, List.mem_mergeSort, List.mem_filter, List.mem_filterMap, leavesOut_of_compile h,
    Bool.not_eq_true']
  constructor
  · rintro ⟨hseen, hkept⟩
    exact ⟨hseen, hkept⟩
  · rintro ⟨hseen, hkept⟩
    exact ⟨hseen, hkept⟩

theorem sourceFile?_changed {change : Change} {root : String} {names : List Segment}
    {keep : SourceFile → Bool} (hkeep : ∀ source source' : SourceFile,
      source.path = source'.path → keep source = keep source')
    {left right : WalkEntry} (h : IsChanged change root names left right)
    (hstay : ∀ source steps, left.sourceFile? = some source → keep source = true →
      source.path = spelled root steps → ∀ bytes, change (names ++ steps) bytes = bytes) :
    right.sourceFile?.filter keep = left.sourceFile?.filter keep := by
  obtain ⟨steps, hpath, rfl⟩ := h
  obtain ⟨path, node⟩ := left
  cases node with
  | directory children => rw [changed, sourceFile?_directory, sourceFile?_directory]
  | file bytes =>
      rw [sourceFile?_file] at hstay
      rw [changed, sourceFile?_file, sourceFile?_file]
      split
      · rfl
      · next hshort =>
        rw [if_neg hshort] at hstay
        cases hdialect : Script.Dialect.ofExtension? (extension path) with
        | none => rfl
        | some dialect =>
            rw [hdialect] at hstay
            have hsame := hkeep ⟨path, change (names ++ steps) bytes, dialect⟩
              ⟨path, bytes, dialect⟩ rfl
            by_cases hkept : keep ⟨path, bytes, dialect⟩ = true
            · rw [hstay ⟨path, bytes, dialect⟩ steps rfl hkept hpath bytes]
            · simp [Option.filter, hsame, hkept]

/-- What is discovered stays, if its bytes do. -/
theorem discover_changed {change : Change} {root : String} {names : List Segment}
    {patterns : List String} {excluded : ExcludeSet}
    (hexcluded : ExcludeSet.compile patterns = .ok excluded) {entries entries' : List WalkEntry}
    (h : List.Forall₂ (IsChanged change root names) entries entries')
    (hstay : ∀ source steps, IsDiscovered root patterns entries source →
      source.path = spelled root steps → ∀ bytes, change (names ++ steps) bytes = bytes) :
    discover root excluded entries' = discover root excluded entries := by
  rw [discover, discover, List.filter_filterMap, List.filter_filterMap]
  congr 1
  induction h with
  | nil => rfl
  | @cons left right lefts rights hleft _ ih =>
      have hpath (source source' : SourceFile) (h : source.path = source'.path) :
          (!excluded.leavesOut (source.localPath root)) =
            !excluded.leavesOut (source'.localPath root) := by
        rw [SourceFile.localPath, SourceFile.localPath, h]
      have hhead := sourceFile?_changed hpath hleft <| by
        intro source steps hsource hkept
        refine hstay source steps ⟨⟨left, by simp, hsource⟩, ?_⟩
        rwa [Bool.not_eq_true', leavesOut_of_compile hexcluded] at hkept
      have hrest := ih <| by
        rintro source steps ⟨⟨entry, hentry, hsource⟩, hkept⟩
        exact hstay source steps ⟨⟨entry, List.mem_cons_of_mem _ hentry, hsource⟩, hkept⟩
      rw [List.filterMap_cons, List.filterMap_cons, hhead, hrest]

/-- The names that lead to the files that a check reads. -/
inductive IsRead (disk : Disk) (path : String) (config : Config) (exclude : List String) :
    List Segment → Prop
  | rules {file : List Segment}
      (h : IsRuleFile disk (Ignore.kinds config.analyzer.respectGitignore)
        (Path.join path config.analyzer.root) file) : IsRead disk path config exclude file
  | script {entries : List WalkEntry} {source : SourceFile} {names steps : List Segment}
      (hwalk : disk.walk config.analyzer.respectGitignore (Path.join path config.analyzer.root) =
        .ok entries)
      (hsource : IsDiscovered (Path.join path config.analyzer.root)
        (config.analyzer.exclude ++ exclude) entries source)
      (hroot : disk.resolve (Path.join path config.analyzer.root) = .ok names)
      (hpath : source.path = spelled (Path.join path config.analyzer.root) steps) :
      IsRead disk path config exclude (names ++ steps)

/-- A check finds the same, whatever the bytes of the files that it does not read become. -/
theorem check_changedDisk {change : Change} {disk : Disk} {path : String} {config : Config}
    {exclude : List String}
    (hkeep : ∀ file, IsRead disk path config exclude file → ∀ bytes, change file bytes = bytes) :
    (changedDisk change disk).check path config exclude = disk.check path config exclude := by
  rw [Disk.check, Disk.check]
  cases config.checker with
  | error cause => rfl
  | ok checker =>
      cases hexcluded : ExcludeSet.compile (config.analyzer.exclude ++ exclude) with
      | error cause => rfl
      | ok excluded =>
          dsimp only
          have hwalk := walk_changedDisk fun file hfile => hkeep file (.rules hfile)
          have hscripts := fun entries source names steps => @IsRead.script disk path config exclude
            entries source names steps
          generalize disk.walk config.analyzer.respectGitignore
            (Path.join path config.analyzer.root) = walk at hwalk hscripts ⊢
          generalize (changedDisk change disk).walk config.analyzer.respectGitignore
            (Path.join path config.analyzer.root) = walk' at hwalk ⊢
          cases hwalk with
          | error cause => rfl
          | nothing => rfl
          | entries hroot h =>
              dsimp only
              rw [discover_changed hexcluded h fun source steps hsource hpath =>
                hkeep _ (hscripts _ source _ steps rfl hsource hroot hpath)]

theorem readText_changedDisk {change : Change} {disk : Disk} {path : String}
    (hkeep : ∀ names, disk.resolve path = .ok names → ∀ bytes, change names bytes = bytes) :
    (changedDisk change disk).readText path = disk.readText path := by
  rw [Disk.readText, Disk.readText, Disk.read, Disk.read, locate_changedDisk]
  cases hlocate : disk.locate path with
  | error fault => rfl
  | ok place =>
      obtain ⟨names, node⟩ := place
      cases node with
      | directory children => rfl
      | file bytes =>
          simp only [Except.map, changed, hkeep names (resolve_of_locate hlocate)]

theorem load_changedDisk {change : Change} {disk : Disk} {source : ConfigSource}
    (hkeep : ∀ path names, source.path? = some path → disk.resolve path = .ok names →
      ∀ bytes, change names bytes = bytes) :
    source.load (changedDisk change disk) = source.load disk := by
  rw [ConfigSource.load, ConfigSource.load]
  cases hpath : source.path? with
  | none => rfl
  | some path =>
      dsimp only
      rw [readText_changedDisk fun names => hkeep path names hpath]

end ImportLint.Proofs.UnreadFiles
