import ImportLint.Proofs.DirectorySpellings

/-!
Specifiers for a target.  From a file one can climb to any directory that the target is below as well,
and descend from there; whichever it is, the specifier resolves to the target.
-/

namespace ImportLint.Proofs.TargetSpellings

open ImportLint.Path
open ImportLint.Proofs.PathWords
open ImportLint.Proofs.NormalForm
open ImportLint.Proofs.SpecifierResolution
open ImportLint.Proofs.DirectorySpellings

/-- The slash in front of a path that is spelled from the root. -/
def rootText (rooted : Bool) : List Char :=
  if rooted then ['/'] else []

/-- The text of a path with these segments. -/
def pathText (rooted : Bool) (word : List Segment) : List Char :=
  rootText rooted ++ joinSlash word

/-- The text of some directories, each with a slash behind it. -/
def stem (rooted : Bool) (directories : List Segment) : List Char :=
  rootText rooted ++ directories.flatMap fun name => name ++ ['/']

/-- Steps up, or `./` where there are none. -/
def ascent (climbs : Nat) : List Char :=
  if climbs = 0 then ['.', '/'] else (List.replicate climbs ['.', '.', '/']).flatten

/-- The specifier that climbs a number of steps and then descends. -/
def spelling (climbs : Nat) (below : List Segment) : List Char :=
  ascent climbs ++ joinSlash below

/-- The length of the longest common front of two words. -/
def commonLength : List Segment → List Segment → Nat
  | segment :: left, other :: right =>
    if segment = other then commonLength left right + 1 else 0
  | _, _ => 0

theorem le_commonLength_iff {left right : List Segment} {k : Nat} :
    k ≤ commonLength left right ↔
      k ≤ left.length ∧ k ≤ right.length ∧ left.take k = right.take k := by
  fun_induction commonLength left right generalizing k with
  | case1 left other right ih =>
    cases k with
    | zero => simp
    | succ k => simp [ih]
  | case2 segment left other right hne =>
    cases k with
    | zero => simp
    | succ k => simp [hne]
  | case3 left right hempty =>
    cases left with
    | nil => simp +contextual
    | cons segment left =>
      cases right with
      | nil => simp +contextual
      | cons other right => exact absurd rfl (hempty _ _ _ _ rfl)

theorem joinSlash_concat (directories : List Segment) (file : Segment) :
    joinSlash (directories ++ [file]) = (directories.flatMap fun name => name ++ ['/']) ++ file := by
  induction directories with
  | nil => rfl
  | cons name directories ih =>
    rw [List.cons_append, joinSlash_cons_of_ne_nil name (by simp), ih]
    simp

theorem pathText_concat (rooted : Bool) (directories : List Segment) (file : Segment) :
    pathText rooted (directories ++ [file]) = stem rooted directories ++ file := by
  rw [pathText, joinSlash_concat, stem, List.append_assoc]

theorem stem_last (rooted : Bool) (directories : List Segment) :
    stem rooted directories = [] ∨ (stem rooted directories).getLast? = some '/' := by
  rcases List.eq_nil_or_concat directories with rfl | ⟨front, last, rfl⟩
  · cases rooted
    · exact .inl rfl
    · exact .inr rfl
  · right
    simp [stem]

theorem splitSlash_stem (rooted : Bool) {directories : List Segment}
    (hfree : ∀ name ∈ directories, '/' ∉ name) (rest : List Char) :
    splitSlash (stem rooted directories ++ rest) =
      (if rooted then [[]] else []) ++ directories ++ splitSlash rest := by
  have hnames : splitSlash ((directories.flatMap fun name => name ++ ['/']) ++ rest) =
      directories ++ splitSlash rest := by
    induction directories with
    | nil => rfl
    | cons name directories ih =>
      rw [List.flatMap_cons, List.append_assoc, List.append_assoc, List.singleton_append,
        splitSlash_append_slash, splitSlash_of_slash_free (hfree name (by simp)),
        ih fun other hother => hfree other (by simp [hother])]
      rfl
  rw [stem, List.append_assoc]
  cases rooted with
  | true => exact (splitSlash_cons_slash _).trans (congrArg ([] :: ·) hnames)
  | false => exact hnames

theorem isRooted_stem (rooted : Bool) {directories : List Segment}
    (hnames : ∀ name ∈ directories, name.isName ∧ '/' ∉ name) {rest : List Char}
    (hrest : rest.head? = some '.') : isRooted (stem rooted directories ++ rest) = rooted := by
  cases rooted with
  | true => rfl
  | false =>
    cases directories with
    | nil =>
      rw [isRooted, stem]
      simp [rootText, hrest]
    | cons name directories =>
      obtain ⟨hname, hfree⟩ := hnames name (by simp)
      cases name with
      | nil => exact absurd hname (by decide)
      | cons c name =>
        have hc : c ≠ '/' := fun heq => hfree (by simp [heq])
        simp [isRooted, stem, rootText, hc]

theorem head?_spelling (climbs : Nat) (below : List Segment) :
    (spelling climbs below).head? = some '.' := by
  cases climbs <;> rfl

theorem splitSlash_climbs (climbs : Nat) (rest : List Char) :
    splitSlash ((List.replicate climbs ['.', '.', '/']).flatten ++ rest) =
      List.replicate climbs Segment.parent ++ splitSlash rest := by
  induction climbs with
  | zero => rfl
  | succ climbs ih =>
    rw [List.replicate_succ, List.flatten_cons, List.append_assoc, List.replicate_succ]
    exact (splitSlash_append_slash Segment.parent _).trans (congrArg (Segment.parent :: ·) ih)

/-- As many steps up as there are names take the names back. -/
theorem foldl_push_climbs_names (rooted : Bool) (stack names : List Segment)
    (hnames : ∀ name ∈ names, name.isName) :
    (List.replicate names.length Segment.parent).foldl (push rooted) (names ++ stack) = stack := by
  induction names with
  | nil => rfl
  | cons name names ih =>
    rw [List.length_cons, List.replicate_succ, List.foldl_cons, List.cons_append,
      push_parent_name rooted _ (hnames name (by simp))]
    exact ih fun other hother => hnames other (by simp [hother])

theorem foldl_push_ascent (rooted : Bool) (stack : List Segment) (climbs : Nat) (rest : List Char) :
    (splitSlash (ascent climbs ++ rest)).foldl (push rooted) stack =
      (splitSlash rest).foldl (push rooted)
        ((List.replicate climbs Segment.parent).foldl (push rooted) stack) := by
  by_cases hclimbs : climbs = 0
  · subst hclimbs
    have hhere : splitSlash (ascent 0 ++ rest) = ['.'] :: splitSlash rest :=
      splitSlash_append_slash ['.'] rest
    rw [hhere, List.foldl_cons, push_idle rooted stack (by decide)]
    rfl
  · rw [ascent, if_neg hclimbs, splitSlash_climbs, List.foldl_append]

/-- A descent pushes its names, and nothing where it is empty. -/
theorem foldl_push_descent (rooted : Bool) (stack : List Segment) {below : List Segment}
    (hnames : ∀ name ∈ below, name.isName ∧ '/' ∉ name) :
    (splitSlash (joinSlash below)).foldl (push rooted) stack = below.reverse ++ stack := by
  by_cases hbelow : below = []
  · subst hbelow
    exact @push_idle rooted stack [] rfl
  · rw [splitSlash_joinSlash hbelow fun name hname => (hnames name hname).2]
    exact foldl_push_names rooted stack fun name hname => (hnames name hname).1

/-- Climbing out of some directories and descending through others replaces the ones by the others. -/
theorem reduce_spelling (rooted : Bool) {common above below : List Segment}
    (hnames : ∀ name ∈ common ++ above ++ below, name.isName ∧ '/' ∉ name) :
    reduce rooted (splitSlash (stem rooted (common ++ above) ++ spelling above.length below)) =
      common ++ below := by
  have habove : ∀ name ∈ common ++ above, name.isName ∧ '/' ∉ name := fun name hname =>
    hnames name (List.mem_append_left below hname)
  have hbelow : ∀ name ∈ below, name.isName ∧ '/' ∉ name := fun name hname =>
    hnames name (List.mem_append_right _ hname)
  have hroot : (if rooted then [[]] else []).foldl (push rooted) [] = [] := by
    cases rooted <;> rfl
  have hclimb : (List.replicate above.length Segment.parent).foldl (push rooted)
      (above.reverse ++ common.reverse) = common.reverse := by
    have := foldl_push_climbs_names rooted common.reverse above.reverse fun name hname =>
      (habove name (List.mem_append_right _ (List.mem_reverse.mp hname))).1
    rwa [List.length_reverse] at this
  rw [reduce, splitSlash_stem rooted (fun name hname => (habove name hname).2), List.foldl_append,
    List.foldl_append, hroot, foldl_push_names rooted [] fun name hname => (habove name hname).1,
    List.append_nil, List.reverse_append, spelling, foldl_push_ascent, hclimb,
    foldl_push_descent rooted _ hbelow, List.reverse_append, List.reverse_reverse,
    List.reverse_reverse]

theorem spell_eq_pathText (rooted : Bool) {word : List Segment} (h : word ≠ []) :
    spell rooted word = pathText rooted word := by
  cases rooted
  · simp [spell, pathText, rootText, h]
  · rfl

/-- From a file to a target: up to a directory that is above both of them, which may be any such
directory, and down from there. -/
theorem resolve_spelling (rooted : Bool) {directories target : List Segment} {file : Segment}
    {k : Nat} (hnames : ∀ name ∈ directories ++ file :: target, name.isName ∧ '/' ∉ name)
    (htarget : target ≠ []) (hk : k ≤ commonLength directories target) :
    Specifier.resolve (String.ofList (pathText rooted (directories ++ [file])))
        (String.ofList (spelling (directories.length - k) (target.drop k))) =
      String.ofList (pathText rooted target) := by
  obtain ⟨-, -, hcommon⟩ := le_commonLength_iff.mp hk
  have hfile : '/' ∉ file := (hnames file (by simp)).2
  have hsource : ∀ name ∈ directories, name.isName ∧ '/' ∉ name := fun name hname =>
    hnames name (by simp [hname])
  have hreduce : reduce rooted (splitSlash (stem rooted directories ++
      spelling (directories.length - k) (target.drop k))) = target := by
    have hsplit : directories.take k ++ target.drop k = target := by
      rw [hcommon, List.take_append_drop]
    have := @reduce_spelling rooted (directories.take k) (directories.drop k) (target.drop k)
      fun name hname => hnames name (by
        rw [List.take_append_drop] at hname
        rcases List.mem_append.mp hname with hname | hname
        · simp [hname]
        · simp [List.mem_of_mem_drop hname])
    rwa [List.take_append_drop, List.length_drop, hsplit] at this
  rw [← String.toList_inj, resolve_toList _ (by rw [String.toList_ofList, head?_spelling]),
    String.toList_ofList, String.toList_ofList, String.toList_ofList, pathText_concat,
    joined_append (stem_last rooted directories) hfile, Path.normalize,
    isRooted_stem rooted hsource (head?_spelling _ _), hreduce, spell_eq_pathText rooted htarget]

theorem resolve_spelling_ancestor :
    Specifier.resolve "/src/a/b/f.ts" "../../" = "/src" ∧
    Specifier.resolve "src/a/f.ts" "../../src/b" = "src/b" ∧
    Specifier.resolve "src/a/f.ts" "../b" = "src/b" :=
  ⟨@resolve_spelling true ["src".toList, "a".toList, "b".toList] ["src".toList] "f.ts".toList 1
      (by decide) (by decide) (by decide),
    @resolve_spelling false ["src".toList, "a".toList] ["src".toList, "b".toList] "f.ts".toList 0
      (by decide) (by decide) (by decide),
    @resolve_spelling false ["src".toList, "a".toList] ["src".toList, "b".toList] "f.ts".toList 1
      (by decide) (by decide) (by decide)⟩

end ImportLint.Proofs.TargetSpellings
