import ImportLint.Config.Source
import ImportLint.Proofs.DiscoveredPaths
import Mathlib.Logic.Relation

/-!
Directories that list what is in them in another order.  What a path leads to does not depend on it, and
neither does which files a walk comes to; only the order in which it comes to them does.
-/

namespace ImportLint.Proofs.ReorderedDirectories

open ImportLint.Path
open ImportLint.Proofs.WalkPaths
open ImportLint.Proofs.DiscoveredPaths
open Relation

/-- Somewhere in a tree, one directory lists what is in it in another order. -/
inductive Relisted : Node → Node → Prop
  | here {entries entries' : List (Segment × Node)} (h : entries.Perm entries') :
      Relisted (.directory entries) (.directory entries')
  | inside {front back : List (Segment × Node)} {name : Segment} {child child' : Node}
      (h : Relisted child child') :
      Relisted (.directory (front ++ (name, child) :: back))
        (.directory (front ++ (name, child') :: back))

/-- Any number of directories, anywhere in a tree, list what is in them in another order. -/
abbrev Reordered : Node → Node → Prop := ReflTransGen Relisted

/-- A node as a file system has it, and the same node with at most one directory relisted. -/
structure Kept (node node' : Node) : Prop where
  relisted : ReflGen Relisted node node'
  wellFormed : WellFormed node

theorem Relisted.directories {node node' : Node} (h : Relisted node node') :
    ∃ entries entries', node = .directory entries ∧ node' = .directory entries' := by
  cases h <;> exact ⟨_, _, rfl, rfl⟩

theorem Relisted.isFile_eq {node node' : Node} (h : Relisted node node') :
    node'.isFile = node.isFile := by
  cases h <;> rfl

/-- Files stay as they are, and directories stay directories. -/
theorem Kept.cases {node node' : Node} (h : Kept node node') :
    node' = node ∨ ∃ entries entries', node = .directory entries ∧ node' = .directory entries' := by
  cases h.relisted with
  | refl => exact .inl rfl
  | single h => exact .inr h.directories

theorem Kept.directory {entries : List (Segment × Node)} {node' : Node}
    (h : Kept (.directory entries) node') : ∃ entries', node' = .directory entries' := by
  rcases h.cases with rfl | ⟨_, entries', -, rfl⟩
  · exact ⟨entries, rfl⟩
  · exact ⟨entries', rfl⟩

theorem Relisted.wellFormed {node node' : Node} (h : Relisted node node') (hnode : WellFormed node) :
    WellFormed node' := by
  induction h with
  | here hperm =>
      cases hnode with
      | directory nodup names children =>
          refine .directory ((hperm.map Prod.fst).nodup_iff.mp nodup) ?_ ?_
          · exact fun name hname => names name ((hperm.map Prod.fst).mem_iff.mpr hname)
          · exact fun entry hentry => children entry (hperm.mem_iff.mpr hentry)
  | @inside front back name child child' h ih =>
      cases hnode with
      | directory nodup names children =>
          have hnames : (front ++ (name, child') :: back).map Prod.fst =
              (front ++ (name, child) :: back).map Prod.fst := by simp
          refine .directory (hnames ▸ nodup) (hnames ▸ names) ?_
          intro entry hentry
          rw [List.mem_append, List.mem_cons] at hentry
          rcases hentry with hentry | rfl | hentry
          · exact children entry (by simp [hentry])
          · exact ih (children (name, child) (by simp))
          · exact children entry (by simp [hentry])

theorem Reordered.wellFormed {node node' : Node} (h : Reordered node node')
    (hnode : WellFormed node) : WellFormed node' := by
  induction h with
  | refl => exact hnode
  | tail _ hstep ih => exact hstep.wellFormed ih

theorem rel_self (found : Option Node) : Option.Rel (ReflGen Relisted) found found := by
  cases found with
  | none => exact .none
  | some node => exact .some .refl

theorem lookup_eq_some_iff_mem {entries : List (Segment × Node)}
    (nodup : (entries.map Prod.fst).Nodup) (name : Segment) (node : Node) :
    entries.lookup name = some node ↔ (name, node) ∈ entries := by
  refine ⟨lookup_mem, fun hmem => ?_⟩
  obtain ⟨front, back, rfl⟩ := List.append_of_mem hmem
  rw [List.lookup_eq_some_iff]
  refine ⟨front, back, rfl, ?_⟩
  intro entry hentry
  rw [List.map_append, List.nodup_append] at nodup
  simpa using Ne.symm (nodup.2.2 entry.1 (List.mem_map_of_mem hentry) name (by simp))

theorem lookup_perm {entries entries' : List (Segment × Node)} (h : entries.Perm entries')
    (nodup : (entries.map Prod.fst).Nodup) (name : Segment) :
    entries'.lookup name = entries.lookup name := by
  have nodup' := (h.map Prod.fst).nodup_iff.mp nodup
  ext node
  rw [lookup_eq_some_iff_mem nodup', lookup_eq_some_iff_mem nodup, h.mem_iff]

theorem lookup_inside {child child' : Node} (h : Relisted child child')
    (front back : List (Segment × Node)) (name other : Segment) :
    Option.Rel (ReflGen Relisted) ((front ++ (name, child) :: back).lookup other)
      ((front ++ (name, child') :: back).lookup other) := by
  rw [List.lookup_append, List.lookup_append, List.lookup_cons, List.lookup_cons]
  cases front.lookup other with
  | some node => exact .some .refl
  | none =>
      cases other == name with
      | true => exact .some (.single h)
      | false => exact rel_self _

theorem lookup_relisted {entries entries' : List (Segment × Node)}
    (h : Relisted (.directory entries) (.directory entries'))
    (hnode : WellFormed (.directory entries)) (name : Segment) :
    Option.Rel (ReflGen Relisted) (entries.lookup name) (entries'.lookup name) := by
  cases h with
  | here hperm =>
      cases hnode with
      | directory nodup _ _ =>
          rw [lookup_perm hperm nodup]
          exact rel_self _
  | inside h => exact lookup_inside h _ _ _ _

theorem at?_relisted {node node' : Node} (h : ReflGen Relisted node node') (hnode : WellFormed node)
    (names : List Segment) :
    Option.Rel (ReflGen Relisted) (node.at? names) (node'.at? names) := by
  induction names generalizing node node' with
  | nil =>
      rw [Node.at?.eq_1, Node.at?.eq_1]
      exact .some h
  | cons name names ih =>
      cases h with
      | refl => exact rel_self _
      | single h =>
          obtain ⟨entries, entries', rfl, rfl⟩ := h.directories
          have hlookup := lookup_relisted h hnode name
          have hchild := fun child => @lookup_mem entries name child
          rw [Node.at?, Node.at?]
          generalize entries.lookup name = found at hlookup hchild ⊢
          generalize entries'.lookup name = found' at hlookup ⊢
          cases hlookup with
          | none => exact .none
          | some hkept => exact ih hkept (hnode.of_mem _ (hchild _ rfl))

/-- The same names lead to the same places. -/
theorem Kept.at? {node node' : Node} (h : Kept node node') (names : List Segment) :
    Option.Rel Kept (node.at? names) (node'.at? names) := by
  have hat := at?_relisted h.relisted h.wellFormed names
  have hwell := fun child => @WellFormed.at? node child names h.wellFormed
  generalize node.at? names = found at hat hwell ⊢
  generalize node'.at? names = found' at hat ⊢
  cases hat with
  | none => exact .none
  | some hkept => exact .some ⟨hkept, hwell _ rfl⟩

theorem Kept.isFile_eq {node node' : Node} (h : Kept node node') : node'.isFile = node.isFile := by
  obtain rfl | ⟨_, _, rfl, rfl⟩ := h.cases <;> rfl

theorem Kept.sameShape {node node' : Node} (h : Kept node node') : SameShape node node' := by
  intro names
  have hat := h.at? names
  generalize node.at? names = found at hat ⊢
  generalize node'.at? names = found' at hat ⊢
  cases hat with
  | none => rfl
  | some hkept => exact congrArg some hkept.isFile_eq

theorem ruleList_kept {node node' : Node} (h : Kept node node') (kind : Ignore.Kind)
    (path : List Char) : Ignore.ruleList kind node' path = Ignore.ruleList kind node path := by
  have hat := h.at? kind.names
  rw [Ignore.ruleList, Ignore.ruleList]
  generalize node.at? kind.names = found at hat ⊢
  generalize node'.at? kind.names = found' at hat ⊢
  cases hat with
  | none => rfl
  | some hkept => obtain rfl | ⟨_, _, rfl, rfl⟩ := hkept.cases <;> rfl

theorem level_kept {node node' : Node} (h : Kept node node') (kinds : List Ignore.Kind)
    (path : List Char) : Ignore.level kinds node' path = Ignore.level kinds node path := by
  rw [Ignore.level, Ignore.level]
  refine List.map_congr_left fun kind _ => ?_
  rw [Ignore.scope, Ignore.scope, ruleList_kept h]

theorem faults_kept {node node' : Node} (h : Kept node node') (kinds : List Ignore.Kind)
    (names : List Segment) : Walk.faults kinds names node' = Walk.faults kinds names node := by
  rw [Walk.faults, Walk.faults]
  refine List.flatMap_congr fun kind _ => ?_
  rw [ruleList_kept h]

section Walks

/-- What a walk comes to from one entry of a directory on. -/
def fromEntry (reach : Ignore.Reach) (path : String) (names : List Segment)
    (entry : Segment × Node) : List WalkEntry :=
  let childPath := Path.join path (String.ofList entry.1)
  let childNames := names ++ [entry.1]
  if reach.verdict? childPath.toList (Walk.truePath childNames) (!entry.2.isFile) = some .leftOut then
    []
  else Walk.entries reach childPath childNames entry.2

theorem below_eq_flatMap (reach : Ignore.Reach) (path : String) (names : List Segment)
    (entries : List (Segment × Node)) :
    Walk.below reach path names entries = entries.flatMap (fromEntry reach path names) := by
  induction entries with
  | nil => rw [Walk.below, List.flatMap_nil]
  | cons entry entries ih =>
      obtain ⟨name, child⟩ := entry
      rw [Walk.below, List.flatMap_cons, ih, fromEntry]
      dsimp only
      split
      · rfl
      · rfl

theorem entries_directory (reach : Ignore.Reach) (path : String) (names : List Segment)
    (children : List (Segment × Node)) :
    Walk.entries reach path names (.directory children) =
      [⟨path, .directory children⟩] ++
        children.flatMap (fromEntry (reach.enter (.directory children) path.toList) path names) := by
  rw [Walk.entries, below_eq_flatMap]
  rfl

variable {α : Type} {view : WalkEntry → Option α}

theorem fromEntry_perm {child child' : Node} (hfile : child'.isFile = child.isFile)
    (hchild : ∀ reach path names, ((Walk.entries reach path names child').filterMap view).Perm
      ((Walk.entries reach path names child).filterMap view))
    (reach : Ignore.Reach) (path : String) (names : List Segment) (name : Segment) :
    ((fromEntry reach path names (name, child')).filterMap view).Perm
      ((fromEntry reach path names (name, child)).filterMap view) := by
  rw [fromEntry, fromEntry]
  dsimp only
  rw [hfile]
  split
  · exact .refl _
  · exact hchild _ _ _

variable (hview : ∀ path node node', Relisted node node' → view ⟨path, node'⟩ = view ⟨path, node⟩)

include hview

/-- The ignore files of a relisted directory say the same, so that it is enough to compare what is below
it. -/
theorem entries_perm_of_below {children children' : List (Segment × Node)}
    (h : Relisted (.directory children) (.directory children'))
    (hnode : WellFormed (.directory children)) {path : String} {names : List Segment}
    (hbelow : ∀ reach, ((children'.flatMap (fromEntry reach path names)).filterMap view).Perm
      ((children.flatMap (fromEntry reach path names)).filterMap view)) (reach : Ignore.Reach) :
    ((Walk.entries reach path names (.directory children')).filterMap view).Perm
      ((Walk.entries reach path names (.directory children)).filterMap view) := by
  have henter : reach.enter (.directory children') path.toList =
      reach.enter (.directory children) path.toList := by
    rw [Ignore.Reach.enter, Ignore.Reach.enter, level_kept ⟨.single h, hnode⟩]
  have hhere : [(⟨path, .directory children'⟩ : WalkEntry)].filterMap view =
      [(⟨path, .directory children⟩ : WalkEntry)].filterMap view := by
    rw [List.filterMap_cons, List.filterMap_cons, hview path _ _ h]
  rw [entries_directory, entries_directory, List.filterMap_append, List.filterMap_append, henter,
    hhere]
  exact (hbelow _).append_left _

/-- A walk through a relisted tree comes to the same places, maybe in another order. -/
theorem entries_relisted {node node' : Node} (h : Relisted node node') (hnode : WellFormed node)
    (reach : Ignore.Reach) (path : String) (names : List Segment) :
    ((Walk.entries reach path names node').filterMap view).Perm
      ((Walk.entries reach path names node).filterMap view) := by
  -- the induction is on the way to the relisted directory, whose own ignore files stay the same
  induction h generalizing reach path names with
  | here hperm =>
      refine entries_perm_of_below hview (.here hperm) hnode (fun reach => ?_) reach
      exact (hperm.symm.flatMap_right _).filterMap view
  | @inside front back name child child' h ih =>
      have hchild : WellFormed child := hnode.of_mem (name, child) (by simp)
      refine entries_perm_of_below hview (.inside h) hnode (fun reach => ?_) reach
      simp only [List.flatMap_append, List.flatMap_cons, List.filterMap_append]
      refine List.Perm.append_left _ (List.Perm.append_right _ ?_)
      exact fromEntry_perm h.isFile_eq (ih hchild) reach path names name

theorem entries_kept {node node' : Node} (h : Kept node node') (reach : Ignore.Reach)
    (path : String) (names : List Segment) :
    ((Walk.entries reach path names node').filterMap view).Perm
      ((Walk.entries reach path names node).filterMap view) := by
  cases h.relisted with
  | refl => exact .refl _
  | single hrelisted => exact entries_relisted hview hrelisted h.wellFormed reach path names

end Walks

/-- The path of an entry that is a directory which cannot be opened. -/
def tooDeep? (entry : WalkEntry) : Option String :=
  if !entry.node.isFile && Disk.isTooLong entry.path then some entry.path else none

theorem tooDeep?_relisted (path : String) (node node' : Node) (h : Relisted node node') :
    tooDeep? ⟨path, node'⟩ = tooDeep? ⟨path, node⟩ := by
  rw [tooDeep?, tooDeep?, h.isFile_eq]

theorem sourceFile?_relisted (path : String) (node node' : Node) (h : Relisted node node') :
    WalkEntry.sourceFile? ⟨path, node'⟩ = WalkEntry.sourceFile? ⟨path, node⟩ := by
  obtain ⟨_, _, rfl, rfl⟩ := h.directories
  rw [sourceFile?_directory, sourceFile?_directory]

theorem opened_cases (entries : List WalkEntry) :
    (entries.filterMap tooDeep? = [] ∧ Walk.opened entries = .ok entries) ∨
      (entries.filterMap tooDeep? ≠ [] ∧ ∃ cause, Walk.opened entries = .error cause) := by
  rw [Walk.opened]
  cases hfind : entries.find? fun entry => !entry.node.isFile && Disk.isTooLong entry.path with
  | none =>
      refine .inl ⟨List.filterMap_eq_nil_iff.mpr fun entry hentry => ?_, rfl⟩
      exact if_neg (List.find?_eq_none.mp hfind entry hentry)
  | some entry =>
      refine .inr ⟨fun hnone => ?_, _, rfl⟩
      have hentry := List.filterMap_eq_nil_iff.mp hnone entry (List.mem_of_find?_eq_some hfind)
      rw [tooDeep?, if_pos (List.find?_some hfind)] at hentry
      cases hentry

/-- Two walks both fail, maybe at different directories, or both come to the same scripts. -/
inductive SameScripts : Except WalkError (List WalkEntry) → Except WalkError (List WalkEntry) → Prop
  | failure (cause cause' : WalkError) : SameScripts (.error cause) (.error cause')
  | found {entries entries' : List WalkEntry}
      (h : (entries'.filterMap WalkEntry.sourceFile?).Perm
        (entries.filterMap WalkEntry.sourceFile?)) : SameScripts (.ok entries) (.ok entries')

theorem SameScripts.opened {entries entries' : List WalkEntry}
    (hdeep : (entries'.filterMap tooDeep?).Perm (entries.filterMap tooDeep?))
    (hscripts : (entries'.filterMap WalkEntry.sourceFile?).Perm
      (entries.filterMap WalkEntry.sourceFile?)) :
    SameScripts (Walk.opened entries) (Walk.opened entries') := by
  rcases opened_cases entries with ⟨hnone, hopened⟩ | ⟨hsome, cause, hopened⟩
  · rcases opened_cases entries' with ⟨-, hopened'⟩ | ⟨hsome', -⟩
    · rw [hopened, hopened']
      exact .found hscripts
    · rw [hnone] at hdeep
      exact absurd hdeep.eq_nil hsome'
  · rcases opened_cases entries' with ⟨hnone', -⟩ | ⟨-, cause', hopened'⟩
    · rw [hnone'] at hdeep
      exact absurd hdeep.symm.eq_nil hsome
    · rw [hopened, hopened']
      exact .failure cause cause'

/-- What a path leads to on one disk and on another one whose directories are listed otherwise. -/
inductive SamePlace : Except DiskFault Place → Except DiskFault Place → Prop
  | nowhere (fault : DiskFault) : SamePlace (.error fault) (.error fault)
  | found {names : List Segment} {node node' : Node} (h : Kept node node') :
      SamePlace (.ok ⟨names, node⟩) (.ok ⟨names, node'⟩)

section Disks

variable {disk : Disk} {root' : Node} (h : Kept disk.root root')

include h

theorem resolve_relisted (path : String) :
    Disk.resolve { disk with root := root' } path = disk.resolve path :=
  resolve_sameShape h.sameShape path

theorem locate_relisted (path : String) :
    SamePlace (disk.locate path) (Disk.locate { disk with root := root' } path) := by
  rw [Disk.locate, Disk.locate, resolve_relisted h]
  cases disk.resolve path with
  | error fault => exact .nowhere fault
  | ok names =>
      have hat := h.at? names
      dsimp only
      generalize disk.root.at? names = found at hat ⊢
      generalize root'.at? names = found' at hat ⊢
      cases hat with
      | none => exact .nowhere _
      | some hkept => exact .found hkept

/-- What is read off the directories above a place does not depend on how they are listed. -/
theorem map_above_relisted {α : Type} (view : List Segment → Node → α)
    (hview : ∀ names node node', Kept node node' → view names node' = view names node) (names : List Segment) :
    (Walk.above root' names).map (fun (names, node) => view names node) =
      (Walk.above disk.root names).map fun (names, node) => view names node := by
  rw [Walk.above, Walk.above, List.map_filterMap, List.map_filterMap]
  refine List.filterMap_congr fun count _ => ?_
  have hat := h.at? (names.take count)
  generalize disk.root.at? (names.take count) = found at hat ⊢
  generalize root'.at? (names.take count) = found' at hat ⊢
  cases hat with
  | none => rfl
  | some hkept => simp [hview _ _ _ hkept]

theorem faults_relisted (kinds : List Ignore.Kind) (names : List Segment) :
    (Walk.above root' names).reverse.flatMap (fun (names, node) => Walk.faults kinds names node) =
      (Walk.above disk.root names).reverse.flatMap fun (names, node) =>
        Walk.faults kinds names node := by
  have habove := map_above_relisted h (Walk.faults kinds)
    (fun names _ _ hkept => faults_kept hkept kinds names) names
  rw [List.flatMap_def, List.flatMap_def, List.map_reverse, List.map_reverse, habove]

theorem levels_relisted (kinds : List Ignore.Kind) (names : List Segment) :
    (Walk.above root' names).map (fun (names, node) =>
        Ignore.level kinds node (Walk.truePath names)) =
      (Walk.above disk.root names).map fun (names, node) =>
        Ignore.level kinds node (Walk.truePath names) :=
  map_above_relisted h (fun names node => Ignore.level kinds node (Walk.truePath names))
    (fun names _ _ hkept => level_kept hkept kinds (Walk.truePath names)) names

/-- However directories are listed, a walk comes to the same scripts. -/
theorem walk_relisted (respectVersionControl : Bool) (root : String) :
    SameScripts (disk.walk respectVersionControl root)
      (Disk.walk { disk with root := root' } respectVersionControl root) := by
  have hlocate := locate_relisted h root
  rw [Disk.walk, Disk.walk]
  split
  · exact .found (.refl _)
  generalize disk.locate root = place at hlocate ⊢
  generalize Disk.locate { disk with root := root' } root = place' at hlocate ⊢
  cases hlocate with
  | nowhere fault => exact .failure _ _
  | @found names node node' hkept =>
      cases node with
      | file bytes =>
          obtain rfl | ⟨_, _, hfile, -⟩ := hkept.cases
          · exact .found (.refl _)
          · cases hfile
      | directory children =>
          obtain ⟨children', rfl⟩ := hkept.directory
          simp only [faults_relisted h, levels_relisted h]
          split
          · refine .opened ?_ ?_
            · exact entries_kept tooDeep?_relisted hkept _ _ _
            · exact entries_kept sourceFile?_relisted hkept _ _ _
          · exact .failure _ _

theorem readText_relisted (path : String) :
    Disk.readText { disk with root := root' } path = disk.readText path := by
  have hlocate := locate_relisted h path
  rw [Disk.readText, Disk.readText, Disk.read, Disk.read]
  generalize disk.locate path = place at hlocate ⊢
  generalize Disk.locate { disk with root := root' } path = place' at hlocate ⊢
  cases hlocate with
  | nowhere fault => rfl
  | found hkept => obtain rfl | ⟨_, _, rfl, rfl⟩ := hkept.cases <;> rfl

theorem exists?_relisted (path : String) :
    Disk.exists? { disk with root := root' } path = disk.exists? path := by
  have hlocate := locate_relisted h path
  rw [Disk.exists?, Disk.exists?]
  generalize disk.locate path = place at hlocate ⊢
  generalize Disk.locate { disk with root := root' } path = place' at hlocate ⊢
  cases hlocate <;> rfl

theorem find_relisted (project : String) (named sharedDirectory : Option String) :
    ConfigSource.find { disk with root := root' } project named sharedDirectory =
      ConfigSource.find disk project named sharedDirectory := by
  have hthere (source : ConfigSource) :
      source.isThere { disk with root := root' } = source.isThere disk := by
    rw [ConfigSource.isThere, ConfigSource.isThere]
    congr 1
    funext path
    exact exists?_relisted h path
  cases named with
  | some path => rfl
  | none => simp only [ConfigSource.find, funext hthere]

theorem load_relisted (source : ConfigSource) :
    source.load { disk with root := root' } = source.load disk := by
  rw [ConfigSource.load, ConfigSource.load]
  simp only [readText_relisted h]

end Disks

end ImportLint.Proofs.ReorderedDirectories
