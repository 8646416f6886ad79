import ImportLint.Proofs.NormalForm
import ImportLint.Walk

/-!
The paths of a walk.  In a tree whose directories tell their entries apart by name, every entry of a
walk is the root of the walk followed by names, and no two entries have the same names.
-/

namespace ImportLint.Proofs.WalkPaths

open ImportLint.Path
open ImportLint.Proofs.PathWords
open ImportLint.Proofs.NormalForm

/-- A name that a directory can give to what is in it. -/
def IsEntryName (name : Segment) : Prop :=
  name.isName = true ∧ '/' ∉ name

instance : DecidablePred IsEntryName :=
  fun name => inferInstanceAs (Decidable (name.isName = true ∧ '/' ∉ name))

/-- A tree as a file system has it: the entries of a directory have names, each a different one. -/
inductive WellFormed : Node → Prop
  | file (bytes : ByteArray) : WellFormed (.file bytes)
  | directory {entries : List (Segment × Node)} (nodup : (entries.map Prod.fst).Nodup)
      (names : ∀ name ∈ entries.map Prod.fst, IsEntryName name)
      (children : ∀ entry ∈ entries, WellFormed entry.2) : WellFormed (.directory entries)

theorem WellFormed.of_mem {entries : List (Segment × Node)} (h : WellFormed (.directory entries)) :
    ∀ entry ∈ entries, WellFormed entry.2 := by
  cases h with
  | directory _ _ children => exact children

theorem lookup_mem {entries : List (Segment × Node)} {name : Segment} {node : Node}
    (h : entries.lookup name = some node) : (name, node) ∈ entries := by
  induction entries with
  | nil => simp at h
  | cons entry entries ih =>
      obtain ⟨other, child⟩ := entry
      rw [List.lookup_cons] at h
      split at h
      · next hname =>
        obtain rfl : name = other := by simpa using hname
        obtain rfl : child = node := by simpa using h
        simp
      · exact List.mem_cons_of_mem _ (ih h)

theorem WellFormed.at? {node child : Node} {names : List Segment} (h : WellFormed node)
    (hat : node.at? names = some child) : WellFormed child := by
  induction names generalizing node with
  | nil =>
      obtain rfl : node = child := by
        cases node <;> simpa [Node.at?] using hat
      exact h
  | cons name names ih =>
      cases node with
      | file bytes => simp [Node.at?] at hat
      | directory entries =>
          rw [Node.at?, Option.bind_eq_some_iff] at hat
          obtain ⟨middle, hlookup, hat⟩ := hat
          exact ih (h.of_mem _ (lookup_mem hlookup)) hat

theorem empty_wellFormed : WellFormed Node.empty :=
  .directory (by simp) (by simp) (by simp)

theorem WellFormed.entries {node : Node} (h : WellFormed node) :
    WellFormed (.directory node.entries) := by
  cases node with
  | file bytes => exact empty_wellFormed
  | directory entries => exact h

theorem mem_putEntry {name : Segment} {node : Node} {entries : List (Segment × Node)}
    {entry : Segment × Node} (h : entry ∈ Node.putEntry name node entries) :
    entry = (name, node) ∨ entry ∈ entries := by
  induction entries with
  | nil => exact .inl (by simpa [Node.putEntry] using h)
  | cons first entries ih =>
      rw [Node.putEntry] at h
      split at h
      · rcases List.mem_cons.mp h with rfl | h
        · exact .inl rfl
        · exact .inr (List.mem_cons_of_mem _ h)
      · rcases List.mem_cons.mp h with rfl | h
        · exact .inr List.mem_cons_self
        · exact (ih h).imp_right (List.mem_cons_of_mem _)

theorem map_fst_putEntry (name : Segment) (node : Node) (entries : List (Segment × Node)) :
    (Node.putEntry name node entries).map Prod.fst =
      if name ∈ entries.map Prod.fst then entries.map Prod.fst
      else entries.map Prod.fst ++ [name] := by
  induction entries with
  | nil => rfl
  | cons first entries ih =>
      obtain ⟨other, child⟩ := first
      rw [Node.putEntry]
      by_cases hname : other = name
      · simp [hname]
      · simp only [hname, if_false, List.map_cons, ih, List.mem_cons, Ne.symm hname, false_or]
        split <;> rfl

theorem WellFormed.putEntry {name : Segment} {node : Node} {entries : List (Segment × Node)}
    (h : WellFormed (.directory entries)) (hname : IsEntryName name) (hnode : WellFormed node) :
    WellFormed (.directory (Node.putEntry name node entries)) := by
  cases h with
  | directory nodup names children =>
      have hchildren : ∀ entry ∈ Node.putEntry name node entries, WellFormed entry.2 := by
        intro entry hentry
        rcases mem_putEntry hentry with rfl | hentry
        · exact hnode
        · exact children entry hentry
      refine .directory ?_ ?_ hchildren
      · rw [map_fst_putEntry]
        split
        · exact nodup
        · next hnew =>
          rw [List.nodup_append]
          refine ⟨nodup, List.nodup_cons.mpr (by simp), ?_⟩
          intro left hleft right hright heq
          rw [heq, List.mem_singleton.mp hright] at hleft
          exact hnew hleft
      · intro other hother
        rw [map_fst_putEntry] at hother
        split at hother
        · exact names other hother
        · rcases List.mem_append.mp hother with hother | hother
          · exact names other hother
          · rw [List.mem_singleton.mp hother]
            exact hname

/-- Writing into a tree keeps it well formed. -/
theorem WellFormed.put {node parent : Node} {names : List Segment} (h : WellFormed parent)
    (hnode : WellFormed node) (hnames : ∀ name ∈ names, IsEntryName name) :
    WellFormed (Node.put node names parent) := by
  induction names generalizing parent with
  | nil => exact hnode
  | cons name names ih =>
      refine h.entries.putEntry (hnames name (by simp)) ?_
      refine ih ?_ fun other hother => hnames other (by simp [hother])
      cases hlookup : parent.entries.lookup name with
      | none => exact empty_wellFormed
      | some child => exact h.entries.of_mem _ (lookup_mem hlookup)

/-- The tree that files make when they are written one after the other. -/
def written (files : List (List Segment × ByteArray)) : Node :=
  files.foldl (fun tree file => Node.put (.file file.2) file.1 tree) .empty

theorem written_wellFormed {files : List (List Segment × ByteArray)}
    (h : ∀ file ∈ files, ∀ name ∈ file.1, IsEntryName name) : WellFormed (written files) := by
  have hfold {tree : Node} (htree : WellFormed tree) :
      WellFormed (files.foldl (fun tree file => Node.put (.file file.2) file.1 tree) tree) := by
    induction files generalizing tree with
    | nil => exact htree
    | cons file files ih =>
        refine ih (fun other hother => h other (by simp [hother])) ?_
        exact htree.put (.file file.2) (h file (by simp))
  exact hfold empty_wellFormed

/-- Names lead to files, to directories or nowhere in one tree as they do in another one. -/
def SameShape (root root' : Node) : Prop :=
  ∀ names, (root'.at? names).map Node.isFile = (root.at? names).map Node.isFile

section Shapes

variable {disk : Disk} {root' : Node} (h : SameShape disk.root root')

include h

theorem step_sameShape (names : List Segment) (segment : Segment) :
    Disk.step { disk with root := root' } names segment = disk.step names segment := by
  have hshape := h names
  rw [Disk.step, Disk.step]
  dsimp only
  generalize root'.at? names = found' at hshape ⊢
  generalize disk.root.at? names = found at hshape ⊢
  rcases found' with _ | ⟨_ | _⟩ <;> rcases found with _ | ⟨_ | _⟩ <;> first | rfl | cases hshape

theorem follow_sameShape (names segments : List Segment) :
    Disk.follow { disk with root := root' } names segments = disk.follow names segments := by
  induction segments generalizing names with
  | nil => rfl
  | cons segment segments ih =>
      rw [Disk.follow, Disk.follow, step_sameShape h]
      cases disk.step names segment with
      | error fault => rfl
      | ok names => exact ih names

theorem resolve_sameShape (path : String) :
    Disk.resolve { disk with root := root' } path = disk.resolve path := by
  rw [Disk.resolve, Disk.resolve]
  simp only [follow_sameShape h]

end Shapes

theorem ofSegment?_name {segment : Segment} (h : segment.isName = true) :
    Component.ofSegment? segment = some (.name segment) := by
  obtain ⟨hidle, hparent⟩ := (isName_iff segment).mp h
  rw [Segment.isIdle, Bool.or_eq_false_iff, beq_eq_false_iff_ne, beq_eq_false_iff_ne] at hidle
  rw [Component.ofSegment?, if_neg (by simp [hidle])]
  exact if_neg hparent

/-- What the first segment of a path stands for. -/
def leading (segment : Segment) : List Component :=
  if segment = [] then [.root]
  else if segment = ['.'] then [.here]
  else (Component.ofSegment? segment).toList

theorem components_eq {text : List Char} (hne : text ≠ []) {segment : Segment}
    {segments : List Segment} (h : splitSlash text = segment :: segments) :
    components text = leading segment ++ segments.filterMap Component.ofSegment? := by
  by_cases hempty : segment = []
  · subst hempty
    rcases segments with _ | ⟨next, segments⟩
    · have htext := joinSlash_splitSlash text
      rw [h] at htext
      exact absurd htext.symm hne
    · rw [components, h]
      rfl
  · by_cases hhere : segment = ['.']
    · subst hhere
      rw [components, h]
      rfl
    · rw [components, h, leading, if_neg hempty, if_neg hhere]
      cases hsegment : Component.ofSegment? segment with
      | none => simp [hempty, hhere, hsegment]
      | some component => simp [hempty, hhere, hsegment]

theorem components_append_slash_eq {text : List Char} {segment : Segment} {segments : List Segment}
    (h : splitSlash text = segment :: segments) (rest : List Char) :
    components (text ++ '/' :: rest) =
      leading segment ++ (segments ++ splitSlash rest).filterMap Component.ofSegment? := by
  apply components_eq (by simp)
  rw [splitSlash_append_slash, h, List.cons_append]

/-- What stands behind a slash adds its segments to the components of what stands before it. -/
theorem components_append_slash (text rest : List Char) :
    components (text ++ '/' :: rest) =
      components (text ++ ['/']) ++ (splitSlash rest).filterMap Component.ofSegment? := by
  rcases htext : splitSlash text with _ | ⟨segment, segments⟩
  · exact absurd htext (splitSlash_ne_nil text)
  · rw [components_append_slash_eq htext, components_append_slash_eq htext, List.filterMap_append,
      List.filterMap_append, List.append_assoc, List.append_assoc]
    rfl

/-- A slash at the end says nothing. -/
theorem components_append_last_slash {text : List Char} (hne : text ≠ []) :
    components (text ++ ['/']) = components text := by
  rcases htext : splitSlash text with _ | ⟨segment, segments⟩
  · exact absurd htext (splitSlash_ne_nil text)
  · rw [components_append_slash_eq htext, components_eq hne htext, List.filterMap_append]
    simp [splitSlash, Component.ofSegment?]

theorem endsWith_slash_iff (path : String) :
    path.endsWith "/" = true ↔ ∃ text, path.toList = text ++ ['/'] := by
  rw [String.endsWith_eq_endsWith_toSlice, String.Slice.endsWith_string_iff, String.copy_toSlice]
  constructor
  · rintro ⟨text, htext⟩
    exact ⟨text, htext.symm⟩
  · rintro ⟨text, htext⟩
    exact ⟨text, htext.symm⟩

theorem isAbsolute_ofList {name : Segment} (h : IsEntryName name) :
    isAbsolute (String.ofList name) = false := by
  rcases name with _ | ⟨c, rest⟩
  · rfl
  · have hc : c ≠ '/' := by
      rintro rfl
      exact h.2 (by simp)
    simpa [isAbsolute] using hc

theorem splitSlash_name {name : Segment} (h : IsEntryName name) :
    (splitSlash name).filterMap Component.ofSegment? = [.name name] := by
  rw [splitSlash_of_slash_free h.2]
  simp [ofSegment?_name h.1]

theorem IsEntryName.ne_nil {name : Segment} (h : IsEntryName name) : name ≠ [] := by
  rintro rfl
  exact absurd h.1 (by decide)

theorem IsEntryName.ne_here {name : Segment} (h : IsEntryName name) : name ≠ ['.'] := by
  rintro rfl
  exact absurd h.1 (by decide)

theorem components_name {name : Segment} (h : IsEntryName name) :
    components name = [.name name] := by
  rw [components_eq h.ne_nil (splitSlash_of_slash_free h.2), leading, if_neg h.ne_nil,
    if_neg h.ne_here, ofSegment?_name h.1]
  rfl

/-- A name joined to a path adds itself to its components. -/
theorem components_join (base : String) {name : Segment} (h : IsEntryName name) :
    components (Path.join base (String.ofList name)).toList =
      components base.toList ++ [.name name] := by
  rw [Path.join, isAbsolute_ofList h]
  by_cases hempty : base = ""
  · subst hempty
    have hnone : components "".toList = [] := rfl
    rw [hnone]
    simpa using components_name h
  · have hne : base.toList ≠ [] := by simpa using hempty
    by_cases hslash : base.endsWith "/" = true
    · obtain ⟨text, htext⟩ := (endsWith_slash_iff base).mp hslash
      simp only [hslash, or_true, if_true, Bool.false_eq_true, if_false, String.toList_append,
        String.toList_ofList, htext, List.append_assoc, List.singleton_append]
      rw [components_append_slash, splitSlash_name h]
    · have hjoin : ¬ (base.isEmpty = true ∨ base.endsWith "/" = true) := by
        simpa [hslash] using hempty
      simp only [hjoin, Bool.false_eq_true, if_false, String.toList_append, String.toList_ofList]
      rw [List.append_assoc]
      change components (base.toList ++ '/' :: name) = _
      rw [components_append_slash, components_append_last_slash hne, splitSlash_name h]

/-- A path whose components are those of `base` and some names behind them. -/
def IsBelow (base : List Component) (path : String) : Prop :=
  ∃ names : List Segment, (∀ name ∈ names, IsEntryName name) ∧
    components path.toList = base ++ names.map Component.name

theorem isBelow_self (path : String) : IsBelow (components path.toList) path :=
  ⟨[], by simp⟩

theorem IsBelow.of_name {base : List Component} {name : Segment} {path : String}
    (hname : IsEntryName name) (h : IsBelow (base ++ [.name name]) path) : IsBelow base path := by
  obtain ⟨names, hnames, hpath⟩ := h
  refine ⟨name :: names, by simpa [hname] using hnames, ?_⟩
  rw [hpath]
  simp

mutual

/-- A walk stays below its root. -/
theorem entries_isBelow (reach : Ignore.Reach) (path : String) (names : List Segment) :
    ∀ node : Node, WellFormed node →
      ∀ entry ∈ Walk.entries reach path names node, IsBelow (components path.toList) entry.path
  | .file bytes, _ => by
      intro entry hentry
      rw [Walk.entries, List.mem_singleton] at hentry
      subst hentry
      exact isBelow_self path
  | .directory children, h => by
      intro entry hentry
      rw [Walk.entries] at hentry
      rcases List.mem_cons.mp hentry with rfl | hentry
      · exact isBelow_self path
      · cases h with
        | directory _ hnames hchildren =>
            obtain ⟨name, hname, hbelow⟩ :=
              below_isBelow _ path names children hnames hchildren entry hentry
            exact hbelow.of_name (hnames name hname)

/-- What a walk finds in a directory is below one of its children. -/
theorem below_isBelow (reach : Ignore.Reach) (path : String) (names : List Segment) :
    ∀ children : List (Segment × Node), (∀ name ∈ children.map Prod.fst, IsEntryName name) →
      (∀ child ∈ children, WellFormed child.2) →
      ∀ entry ∈ Walk.below reach path names children,
        ∃ name ∈ children.map Prod.fst, IsBelow (components path.toList ++ [.name name]) entry.path
  | [], _, _ => by
      simp [Walk.below]
  | (name, child) :: rest, hnames, hchildren => by
      intro entry hentry
      have hothers (hentry : entry ∈ Walk.below reach path names rest) :
          ∃ other ∈ ((name, child) :: rest).map Prod.fst,
            IsBelow (components path.toList ++ [.name other]) entry.path := by
        obtain ⟨other, hother, hbelow⟩ := below_isBelow reach path names rest
          (fun other hother => hnames other (List.mem_cons_of_mem _ hother))
          (fun other hother => hchildren other (List.mem_cons_of_mem _ hother)) entry hentry
        exact ⟨other, List.mem_cons_of_mem _ hother, hbelow⟩
      rw [Walk.below] at hentry
      split at hentry
      · exact hothers hentry
      · rcases List.mem_append.mp hentry with hentry | hentry
        · have hbelow := entries_isBelow reach _ _ child (hchildren _ List.mem_cons_self) entry hentry
          rw [components_join path (hnames name List.mem_cons_self)] at hbelow
          exact ⟨name, List.mem_cons_self, hbelow⟩
        · exact hothers hentry

end

mutual

/-- A walk does not come to one place twice. -/
theorem entries_nodup (reach : Ignore.Reach) (path : String) (names : List Segment) :
    ∀ node : Node, WellFormed node →
      ((Walk.entries reach path names node).map fun entry => components entry.path.toList).Nodup
  | .file bytes, _ => by
      simp [Walk.entries]
  | .directory children, h => by
      rw [Walk.entries, List.map_cons, List.nodup_cons]
      cases h with
      | directory hnodup hnames hchildren =>
          refine ⟨?_, below_nodup _ path names children hnodup hnames hchildren⟩
          intro hmem
          obtain ⟨entry, hentry, hpath⟩ := List.mem_map.mp hmem
          obtain ⟨name, -, steps, -, hbelow⟩ :=
            below_isBelow _ path names children hnames hchildren entry hentry
          rw [hbelow] at hpath
          simp at hpath

theorem below_nodup (reach : Ignore.Reach) (path : String) (names : List Segment) :
    ∀ children : List (Segment × Node), (children.map Prod.fst).Nodup →
      (∀ name ∈ children.map Prod.fst, IsEntryName name) →
      (∀ child ∈ children, WellFormed child.2) →
      ((Walk.below reach path names children).map fun entry => components entry.path.toList).Nodup
  | [], _, _, _ => by
      simp [Walk.below]
  | (name, child) :: rest, hnodup, hnames, hchildren => by
      rw [List.map_cons, List.nodup_cons] at hnodup
      have hnames' : ∀ other ∈ rest.map Prod.fst, IsEntryName other :=
        fun other hother => hnames other (List.mem_cons_of_mem _ hother)
      have hchildren' : ∀ other ∈ rest, WellFormed other.2 :=
        fun other hother => hchildren other (List.mem_cons_of_mem _ hother)
      have hothers := below_nodup reach path names rest hnodup.2 hnames' hchildren'
      have hchild := hchildren _ List.mem_cons_self
      rw [Walk.below]
      split
      · exact hothers
      · rw [List.map_append, List.nodup_append]
        refine ⟨entries_nodup reach _ _ child hchild, hothers, ?_⟩
        intro place hplace place' hplace' heq
        obtain ⟨entry, hentry, rfl⟩ := List.mem_map.mp hplace
        obtain ⟨entry', hentry', rfl⟩ := List.mem_map.mp hplace'
        -- one is below the first child and the other below a child of another name
        obtain ⟨steps, -, hsteps⟩ := entries_isBelow reach _ _ child hchild entry hentry
        obtain ⟨other, hother, steps', -, hsteps'⟩ :=
          below_isBelow reach path names rest hnames' hchildren' entry' hentry'
        rw [components_join path (hnames name List.mem_cons_self)] at hsteps
        rw [hsteps, hsteps', List.append_assoc, List.append_assoc] at heq
        have hname : name = other := by
          have hrest := List.append_cancel_left heq
          simp only [List.singleton_append, List.cons.injEq, Component.name.injEq] at hrest
          exact hrest.1
        rw [hname] at hnodup
        exact hnodup.1 hother

end

theorem locate_wellFormed {disk : Disk} (h : WellFormed disk.root) {path : String} {place : Place}
    (hlocate : disk.locate path = .ok place) : WellFormed place.node := by
  rw [Disk.locate] at hlocate
  split at hlocate
  · cases hlocate
  · split at hlocate
    · cases hlocate
    · next hat =>
      cases hlocate
      exact h.at? hat

theorem opened_eq_ok {entries opened : List WalkEntry} (h : Walk.opened entries = .ok opened) :
    opened = entries := by
  rw [Walk.opened] at h
  split at h
  · cases h
  · cases h
    rfl

/-- The entries of a walk are below its root, each at a place of its own. -/
theorem walk_paths {disk : Disk} (h : WellFormed disk.root) {respectVersionControl : Bool}
    {root : String} {entries : List WalkEntry}
    (hwalk : disk.walk respectVersionControl root = .ok entries) :
    (∀ entry ∈ entries, IsBelow (components root.toList) entry.path) ∧
      (entries.map fun entry => components entry.path.toList).Nodup := by
  rw [Disk.walk] at hwalk
  split at hwalk
  · cases hwalk
    simp
  · split at hwalk
    · cases hwalk
    · cases hwalk
      simpa using isBelow_self root
    · next names children hlocate =>
      have hnode : WellFormed (.directory children) := locate_wellFormed h hlocate
      dsimp only at hwalk
      split at hwalk
      · obtain rfl := opened_eq_ok hwalk
        exact ⟨entries_isBelow _ root names _ hnode, entries_nodup _ root names _ hnode⟩
      · cases hwalk

end ImportLint.Proofs.WalkPaths
