import ImportLint.Proofs.SpecifierResolution
import Mathlib.Data.List.Induction
import Mathlib.Order.Bounds.Basic

/-!
How far a resolved path leads out of the directory it began in.  The steps up that are left in a
relative path are as many as the word of the joined path climbs at its highest place, so a path that
leaves the directory on its way shows it, even where it comes back.
-/

namespace ImportLint.Proofs.EscapeDepth

open ImportLint.Path
open ImportLint.Proofs.PathWords
open ImportLint.Proofs.NormalForm
open ImportLint.Proofs.SpecifierResolution

/-- How far above its beginning a word ends: its steps up less its names. -/
def height (word : List Segment) : Int :=
  (word.count Segment.parent : Int) - word.countP Segment.isName

/-- The heights that a word goes through, from the empty front of it to its end. -/
def heights (word : List Segment) : Set Int :=
  {level | ∃ front, front <+: word ∧ height front = level}

/-- The number of steps up in front of all other segments of a path. -/
def leadingClimbs (path : List Char) : Nat :=
  ((splitSlash path).takeWhile (· = Segment.parent)).length

theorem height_append (left right : List Segment) :
    height (left ++ right) = height left + height right := by
  simp only [height, List.count_append, List.countP_append]
  omega

theorem height_idle {segment : Segment} (h : segment.isIdle = true) : height [segment] = 0 := by
  have hparent : segment ≠ Segment.parent := by
    rintro rfl
    exact absurd h (by decide)
  simp [height, Segment.isName, h, hparent]

theorem height_name {segment : Segment} (h : segment.isName = true) : height [segment] = -1 := by
  simp [height, h, ((isName_iff segment).mp h).2]

theorem height_parent : height [Segment.parent] = 1 := rfl

theorem heights_nil : heights [] = {0} := by
  ext level
  simp [heights, height, eq_comm]

theorem heights_concat (word : List Segment) (segment : Segment) :
    heights (word ++ [segment]) = insert (height (word ++ [segment])) (heights word) := by
  ext level
  simp only [heights, List.prefix_concat_iff, Set.mem_ofPred_eq, Set.mem_insert_iff]
  constructor
  · rintro ⟨front, rfl | hfront, rfl⟩
    · exact .inl rfl
    · exact .inr ⟨front, hfront, rfl⟩
  · rintro (rfl | ⟨front, hfront, rfl⟩)
    · exact ⟨_, .inl rfl, rfl⟩
    · exact ⟨front, .inr hfront, rfl⟩

/-- What the stack holds when a word has been read: steps up to the highest place of the word, and
names from there down to its end. -/
structure Holds (word stack : List Segment) (climbs : Nat) (names : List Segment) : Prop where
  stack_eq : stack.reverse = List.replicate climbs Segment.parent ++ names
  named : ∀ name ∈ names, name.isName
  highest : IsGreatest (heights word) climbs
  level : height word = climbs - names.length

theorem holds_nil : Holds [] [] 0 [] where
  stack_eq := rfl
  named := by simp
  highest := by
    rw [heights_nil]
    exact isGreatest_singleton
  level := rfl

/-- A segment that does not end above the highest place leaves it where it is. -/
theorem Holds.highest_concat {word stack : List Segment} {climbs : Nat} {names : List Segment}
    (h : Holds word stack climbs names) {segment : Segment}
    (hle : height (word ++ [segment]) ≤ climbs) :
    IsGreatest (heights (word ++ [segment])) climbs := by
  rw [heights_concat, ← max_eq_right hle]
  exact h.highest.insert _

theorem Holds.idle {word stack : List Segment} {climbs : Nat} {names : List Segment}
    (h : Holds word stack climbs names) {segment : Segment} (hidle : segment.isIdle = true) :
    Holds (word ++ [segment]) (push false stack segment) climbs names := by
  have hlevel := h.level
  have hheight := height_append word [segment]
  rw [height_idle hidle] at hheight
  rw [push_idle false stack hidle]
  exact
    { stack_eq := h.stack_eq
      named := h.named
      highest := h.highest_concat (by omega)
      level := by omega }

theorem Holds.name {word stack : List Segment} {climbs : Nat} {names : List Segment}
    (h : Holds word stack climbs names) {segment : Segment} (hname : segment.isName = true) :
    Holds (word ++ [segment]) (push false stack segment) climbs (names ++ [segment]) := by
  have hlevel := h.level
  have hheight := height_append word [segment]
  rw [height_name hname] at hheight
  rw [push_name false stack hname]
  exact
    { stack_eq := by rw [List.reverse_cons, h.stack_eq, List.append_assoc]
      named := by
        intro name hmem
        rcases List.mem_append.mp hmem with hmem | hmem
        · exact h.named name hmem
        · rw [List.mem_singleton.mp hmem]
          exact hname
      highest := h.highest_concat (by omega)
      level := by
        rw [List.length_append, List.length_singleton]
        omega }

/-- A step up from below the highest place takes back the last name. -/
theorem Holds.ascend {word stack : List Segment} {climbs : Nat} {names : List Segment}
    {last : Segment} (h : Holds word stack climbs (names ++ [last])) :
    Holds (word ++ [Segment.parent]) (push false stack Segment.parent) climbs names := by
  have hheight := height_append word [Segment.parent]
  have hlevel := h.level
  rw [height_parent] at hheight
  rw [List.length_append, List.length_singleton] at hlevel
  have hstack : stack = last :: (List.replicate climbs Segment.parent ++ names).reverse := by
    have := congrArg List.reverse h.stack_eq
    simpa using this
  rw [hstack, push_parent_name false _ (h.named last (by simp))]
  exact
    { stack_eq := List.reverse_reverse _
      named := fun name hmem => h.named name (by simp [hmem])
      highest := h.highest_concat (by omega)
      level := by omega }

/-- A step up from the highest place makes a new highest place. -/
theorem Holds.surpass {word stack : List Segment} {climbs : Nat} (h : Holds word stack climbs []) :
    Holds (word ++ [Segment.parent]) (push false stack Segment.parent) (climbs + 1) [] := by
  have hheight := height_append word [Segment.parent]
  rw [height_parent] at hheight
  have hlevel : height word = climbs := by simpa using h.level
  have hstack : stack = List.replicate climbs Segment.parent := by
    have := congrArg List.reverse h.stack_eq
    simpa using this
  rw [hstack, push_parent_climbs]
  exact
    { stack_eq := by simp
      named := by simp
      highest := by
        have hmax : max (height (word ++ [Segment.parent])) climbs = ((climbs + 1 : Nat) : Int) := by
          omega
        rw [heights_concat, ← hmax]
        exact h.highest.insert _
      level := by simp [hheight, hlevel] }

theorem Holds.push {word stack : List Segment} {climbs : Nat} {names : List Segment}
    (h : Holds word stack climbs names) (segment : Segment) :
    ∃ climbs names, Holds (word ++ [segment]) (push false stack segment) climbs names := by
  by_cases hidle : segment.isIdle = true
  · exact ⟨climbs, names, h.idle hidle⟩
  by_cases hparent : segment = Segment.parent
  · subst hparent
    rcases List.eq_nil_or_concat names with rfl | ⟨names, last, rfl⟩
    · exact ⟨climbs + 1, [], h.surpass⟩
    · rw [List.concat_eq_append] at h
      exact ⟨climbs, names, h.ascend⟩
  · have hname : segment.isName = true :=
      (isName_iff segment).mpr ⟨by simpa using hidle, hparent⟩
    exact ⟨climbs, names ++ [segment], h.name hname⟩

theorem exists_holds (word : List Segment) :
    ∃ climbs names, Holds word (word.foldl (push false) []) climbs names := by
  -- The stack is what the whole front left, so the word grows at its end.
  induction word using List.reverseRecOn with
  | nil => exact ⟨0, [], holds_nil⟩
  | append_singleton word segment ih =>
    obtain ⟨climbs, names, h⟩ := ih
    rw [List.foldl_append]
    exact h.push segment

theorem takeWhile_parent (climbs : Nat) {names : List Segment} (h : ∀ name ∈ names, name.isName) :
    (List.replicate climbs Segment.parent ++ names).takeWhile (· = Segment.parent) =
      List.replicate climbs Segment.parent := by
  have hnames : names.takeWhile (· = Segment.parent) = [] := by
    cases names with
    | nil => rfl
    | cons name names =>
      have := ((isName_iff name).mp (h name (by simp))).2
      simp [this]
  rw [List.takeWhile_append_of_pos, hnames, List.append_nil]
  intro segment hsegment
  simpa using List.eq_of_mem_replicate hsegment

theorem segments_of_spells {word normal : List Segment} {path : List Char}
    (h : SpellsNormalForm false word normal path) :
    leadingClimbs path = (normal.takeWhile (· = Segment.parent)).length ∧
      (Segment.parent ∈ splitSlash path ↔ Segment.parent ∈ normal) := by
  by_cases hnormal : normal = []
  · rw [leadingClimbs, h.empty hnormal, hnormal]
    decide
  · have hsegments : splitSlash path = normal := h.segments hnormal
    rw [leadingClimbs, hsegments]
    exact ⟨rfl, Iff.rfl⟩

/-- A path in normal form climbs first, and as often as its word does at its highest place. -/
theorem climbs_of_normalize {path : List Char} (h : isRooted path = false) :
    IsGreatest (heights (splitSlash path)) (leadingClimbs (Path.normalize path)) ∧
      (Segment.parent ∈ splitSlash (Path.normalize path) ↔
        0 < leadingClimbs (Path.normalize path)) := by
  have hspells := normalize_spells path
  rw [h] at hspells
  obtain ⟨climbs, names, holds⟩ := exists_holds (splitSlash path)
  have hreduce : reduce false (splitSlash path) =
      List.replicate climbs Segment.parent ++ names := holds.stack_eq
  obtain ⟨hleading, hmem⟩ := segments_of_spells hspells
  rw [hreduce, takeWhile_parent climbs holds.named, List.length_replicate] at hleading
  have hnames : Segment.parent ∉ names := fun hparent =>
    absurd (holds.named _ hparent) (by decide)
  rw [hmem, hleading, hreduce]
  refine ⟨holds.highest, ?_⟩
  simp [hnames, Nat.pos_iff_ne_zero]

theorem parent_not_mem_of_rooted {path : List Char} (h : isRooted path = true) :
    Segment.parent ∉ splitSlash (Path.normalize path) := by
  have hspells := normalize_spells path
  rw [h] at hspells
  obtain ⟨climbs, names, hnormal, hnames, hclimbs⟩ := hspells.climbs_first
  rw [hclimbs rfl, List.replicate_zero, List.nil_append] at hnormal
  by_cases hempty : reduce true (splitSlash path) = []
  · rw [hspells.empty hempty]
    decide
  · have hsegments : splitSlash (Path.normalize path) = [] :: reduce true (splitSlash path) :=
      hspells.segments hempty
    rw [hsegments, hnormal, List.mem_cons, not_or]
    exact ⟨by decide, hnames⟩

/-- The steps up that lead a resolved path are as many as the joined path climbs at its highest
place, and there are none exactly when no front of it climbs more than it has descended.  In a file
that is spelled from the root no specifier leads to a path with a step up. -/
theorem leadingClimbs_isGreatest (source specifier : String)
    (h : specifier.toList.head? = some '.') :
    (isRooted source.toList = false →
      IsGreatest (heights (splitSlash (Specifier.joined source.toList specifier.toList)))
        (leadingClimbs (Specifier.resolve source specifier).toList) ∧
      (Segment.parent ∉ splitSlash (Specifier.resolve source specifier).toList ↔
        ∀ front, front <+: splitSlash (Specifier.joined source.toList specifier.toList) →
          front.count Segment.parent ≤ front.countP Segment.isName)) ∧
    (isRooted source.toList = true →
      Segment.parent ∉ splitSlash (Specifier.resolve source specifier).toList) := by
  rw [resolve_toList source h, ← isRooted_joined source.toList h]
  refine ⟨fun hrooted => ?_, parent_not_mem_of_rooted⟩
  obtain ⟨hgreatest, hmem⟩ := climbs_of_normalize hrooted
  refine ⟨hgreatest, ?_⟩
  rw [hmem]
  constructor
  · intro hnone front hfront
    have hle : height front ≤ _ := hgreatest.2 ⟨front, hfront, rfl⟩
    rw [height] at hle
    omega
  · intro hbelow hpos
    obtain ⟨front, hfront, hheight⟩ := hgreatest.1
    have := hbelow front hfront
    rw [height] at hheight
    omega

/-- Coming back into the directory does not take back that the path has left it. -/
theorem leadingClimbs_isGreatest_returning :
    IsGreatest (heights (splitSlash (Specifier.joined "src/a.ts".toList "../../x/../y/z".toList)))
      (leadingClimbs (Specifier.resolve "src/a.ts" "../../x/../y/z").toList) ∧
    leadingClimbs (Specifier.resolve "src/a.ts" "../../x/../y/z").toList = 1 ∧
    Segment.parent ∉ splitSlash (Specifier.resolve "/src/a.ts" "../../x/../y/z").toList :=
  ⟨((leadingClimbs_isGreatest "src/a.ts" "../../x/../y/z" (by decide)).1 (by decide)).1, by decide,
    (leadingClimbs_isGreatest "/src/a.ts" "../../x/../y/z" (by decide)).2 (by decide)⟩

end ImportLint.Proofs.EscapeDepth
