import ImportLint.Proofs.NormalForm
import ImportLint.Specifier

/-!
What a relative specifier resolves to: the text of the one irreducible word that the joined path
rewrites to.
-/

namespace ImportLint.Proofs.SpecifierResolution

open ImportLint.Path
open ImportLint.Proofs.PathWords
open ImportLint.Proofs.NormalForm

theorem spell_ne_nil {rooted : Bool} {word : List Segment} (h : IsNormal rooted word) :
    spell rooted word ≠ [] := by
  cases rooted with
  | true => simp [spell]
  | false =>
      by_cases hword : word = []
      · simp [spell, hword]
      · simp only [spell, hword]
        apply joinSlash_ne_nil hword
        intro segment hsegment hnil
        have hidle := h.not_idle segment hsegment
        rw [hnil] at hidle
        exact absurd hidle (by decide)

theorem isRooted_spell {rooted : Bool} {word : List Segment} (h : IsNormal rooted word)
    (hfree : ∀ segment ∈ word, '/' ∉ segment) : isRooted (spell rooted word) = rooted := by
  cases rooted with
  | true => simp [isRooted, spell]
  | false =>
      rcases word with _ | ⟨segment, segments⟩
      · simp [isRooted, spell]
      · rcases segment with _ | ⟨c, segment⟩
        · exact absurd (h.not_idle [] (by simp)) (by decide)
        · have hc : c ≠ '/' := by
            intro hc
            exact hfree (c :: segment) (by simp) (by simp [hc])
          by_cases hsegments : segments = []
          · simp [isRooted, spell, hsegments, joinSlash, hc]
          · simp [isRooted, spell, joinSlash_cons_of_ne_nil _ hsegments, hc]

theorem splitSlash_spell {rooted : Bool} {word : List Segment} (hne : word ≠ [])
    (hfree : ∀ segment ∈ word, '/' ∉ segment) :
    splitSlash (spell rooted word) = if rooted then [] :: word else word := by
  cases rooted with
  | true => simp [spell, splitSlash_cons_slash, splitSlash_joinSlash hne hfree]
  | false => simp [spell, hne, splitSlash_joinSlash hne hfree]

theorem reduce_splitSlash_spell {rooted : Bool} {word : List Segment} (h : IsNormal rooted word)
    (hfree : ∀ segment ∈ word, '/' ∉ segment) :
    reduce rooted (splitSlash (spell rooted word)) = word := by
  by_cases hne : word = []
  · subst hne
    cases rooted <;> decide
  · rw [splitSlash_spell hne hfree]
    cases rooted with
    | true =>
        have hidle : Rewrite true ([] :: word) word := .idle [] word [] (by decide)
        exact (reduce_eq_of_rewrite hidle).trans (reduce_of_isNormal h)
    | false => exact reduce_of_isNormal h

theorem spell_injective {rooted : Bool} {left right : List Segment}
    (hleft : IsNormal rooted left) (hright : IsNormal rooted right)
    (hleftFree : ∀ segment ∈ left, '/' ∉ segment) (hrightFree : ∀ segment ∈ right, '/' ∉ segment)
    (h : spell rooted left = spell rooted right) : left = right := by
  rw [← reduce_splitSlash_spell hleft hleftFree, h, reduce_splitSlash_spell hright hrightFree]

/-- A text that spells the normal form of a word. -/
structure SpellsNormalForm (rooted : Bool) (word normal : List Segment) (text : List Char) :
    Prop where
  /-- However the rules are applied, they come to an end. -/
  ends : Acc (fun next word => Rewrite rooted word next) word
  reached : Rewrites rooted word normal
  irreducible : Irreducible rooted normal
  /-- Rules can be applied in any order: the normal form stays ahead. -/
  ahead : ∀ other, Rewrites rooted word other → Rewrites rooted other normal
  unique : ∀ other, Rewrites rooted word other → Irreducible rooted other → other = normal
  spelled : text = spell rooted normal
  ne_nil : text ≠ []
  rooted_iff : isRooted text = rooted
  /-- The segments of the text are those of the normal form, behind the slash of the root. -/
  segments : normal ≠ [] → splitSlash text = if rooted then [] :: normal else normal
  empty : normal = [] → text = if rooted then ['/'] else ['.']
  not_idle : ∀ segment ∈ normal, segment ≠ [] ∧ segment ≠ ['.']
  /-- Steps up stand in front, and nowhere in an absolute path. -/
  climbs_first : ∃ climbs names, normal = List.replicate climbs Segment.parent ++ names ∧
    Segment.parent ∉ names ∧ (rooted = true → climbs = 0)

theorem normalize_spells (path : List Char) :
    SpellsNormalForm (isRooted path) (splitSlash path)
      (reduce (isRooted path) (splitSlash path)) (Path.normalize path) := by
  have hnormal := reduce_isNormal (isRooted path) (splitSlash path)
  have hfree := reduce_slash_free (isRooted path) (splitSlash_slash_free path)
  exact
    { ends := (rewrite_wellFounded _).apply _
      reached := rewrites_reduce _ _
      irreducible := (isNormal_iff_irreducible _ _).mp hnormal
      ahead := fun _ h => rewrites_reduce_of_rewrites h
      unique := fun _ h hirreducible => eq_reduce_of_irreducible h hirreducible
      spelled := rfl
      ne_nil := spell_ne_nil hnormal
      rooted_iff := isRooted_spell hnormal hfree
      segments := fun hne => splitSlash_spell hne hfree
      empty := by
        intro hempty
        rw [Path.normalize, hempty]
        cases isRooted path <;> rfl
      not_idle := by
        intro segment hsegment
        simpa [Segment.isIdle] using hnormal.not_idle segment hsegment
      climbs_first := by
        obtain ⟨climbs, names, hword, hnames, hclimbs⟩ := hnormal
        refine ⟨climbs, names, hword, ?_, hclimbs⟩
        intro hparent
        exact ((isName_iff _).mp (hnames _ hparent)).2 rfl }

theorem normalize_normalize (path : List Char) :
    Path.normalize (Path.normalize path) = Path.normalize path := by
  have hnormal := reduce_isNormal (isRooted path) (splitSlash path)
  have hfree := reduce_slash_free (isRooted path) (splitSlash_slash_free path)
  have hrooted : isRooted (Path.normalize path) = isRooted path := isRooted_spell hnormal hfree
  rw [Path.normalize, hrooted]
  exact congrArg (spell (isRooted path)) (reduce_splitSlash_spell hnormal hfree)

/-- Two paths of one kind are spelled alike exactly when their words are convertible. -/
theorem normalize_eq_iff {left right : List Char} (h : isRooted left = isRooted right) :
    Path.normalize left = Path.normalize right ↔
      Relation.EqvGen (Rewrite (isRooted left)) (splitSlash left) (splitSlash right) := by
  rw [eqvGen_iff_reduce_eq, Path.normalize, Path.normalize, ← h]
  constructor
  · intro hspell
    exact spell_injective (reduce_isNormal _ _) (reduce_isNormal _ _)
      (reduce_slash_free _ (splitSlash_slash_free left))
      (reduce_slash_free _ (splitSlash_slash_free right)) hspell
  · intro hreduce
    rw [hreduce]

theorem exists_last_slash {path : List Char} (h : '/' ∈ path) :
    ∃ directory name, path = directory ++ '/' :: name ∧ '/' ∉ name := by
  obtain ⟨front, rest, hreverse, hfront⟩ := List.eq_append_cons_of_mem (List.mem_reverse.mpr h)
  refine ⟨rest.reverse, front.reverse, ?_, by simpa using hfront⟩
  have := congrArg List.reverse hreverse
  simpa using this

theorem parentDir?_append_slash (directory : List Char) {name : List Char} (h : '/' ∉ name) :
    Specifier.parentDir? (directory ++ '/' :: name) = some directory := by
  have hskip : (name.reverse ++ '/' :: directory.reverse).dropWhile (· ≠ '/') =
      '/' :: directory.reverse := by
    rw [List.dropWhile_append_of_pos]
    · simp
    · intro c hc
      have : c ≠ '/' := fun heq => h (heq ▸ List.mem_reverse.mp hc)
      simpa using this
  have hcontains : (directory ++ '/' :: name).contains '/' = true := by simp
  rw [Specifier.parentDir?, if_pos hcontains, List.reverse_append, List.reverse_cons,
    List.append_assoc, List.singleton_append, hskip]
  simp

theorem joined_of_slash_free {source : List Char} (h : '/' ∉ source) (specifier : List Char) :
    Specifier.joined source specifier = specifier := by
  simp [Specifier.joined, Specifier.parentDir?, h]

theorem joined_append_slash (directory : List Char) {name : List Char} (h : '/' ∉ name)
    (specifier : List Char) :
    Specifier.joined (directory ++ '/' :: name) specifier = directory ++ '/' :: specifier := by
  simp [Specifier.joined, parentDir?_append_slash directory h]

/-- A relative specifier keeps the kind of path that the importing file has. -/
theorem isRooted_joined (source : List Char) {specifier : List Char}
    (h : specifier.head? = some '.') :
    isRooted (Specifier.joined source specifier) = isRooted source := by
  by_cases hslash : '/' ∈ source
  · obtain ⟨directory, name, rfl, hname⟩ := exists_last_slash hslash
    rw [joined_append_slash directory hname]
    cases directory <;> simp [isRooted]
  · rw [joined_of_slash_free hslash]
    have hhead : source.head? ≠ some '/' := fun heq => hslash (List.mem_of_mem_head? heq)
    simp [isRooted, h, hhead]

theorem resolve_toList (source : String) {specifier : String}
    (h : specifier.toList.head? = some '.') :
    (Specifier.resolve source specifier).toList =
      Path.normalize (Specifier.joined source.toList specifier.toList) := by
  simp [Specifier.resolve, Specifier.resolveChars, h]

theorem resolve_spells (source : String) {specifier : String}
    (h : specifier.toList.head? = some '.') :
    ∃ normal, SpellsNormalForm (isRooted source.toList)
      (splitSlash (Specifier.joined source.toList specifier.toList)) normal
      (Specifier.resolve source specifier).toList := by
  have hspells := normalize_spells (Specifier.joined source.toList specifier.toList)
  rw [isRooted_joined source.toList h, ← resolve_toList source h] at hspells
  exact ⟨_, hspells⟩

/-- Relative specifiers resolve to normal forms, normal forms stay as they are, and specifiers
resolve to one text exactly when the rules connect their words. -/
theorem resolve_spells_normal_form :
    (∀ source specifier : String, specifier.toList.head? = some '.' →
      ∃ normal, SpellsNormalForm (isRooted source.toList)
        (splitSlash (Specifier.joined source.toList specifier.toList)) normal
        (Specifier.resolve source specifier).toList) ∧
    (∀ path : List Char, Path.normalize (Path.normalize path) = Path.normalize path) ∧
    (∀ source source' specifier specifier' : String, specifier.toList.head? = some '.' →
      specifier'.toList.head? = some '.' → isRooted source.toList = isRooted source'.toList →
      (Specifier.resolve source specifier = Specifier.resolve source' specifier' ↔
        Relation.EqvGen (Rewrite (isRooted source.toList))
          (splitSlash (Specifier.joined source.toList specifier.toList))
          (splitSlash (Specifier.joined source'.toList specifier'.toList)))) := by
  refine ⟨fun source specifier h => resolve_spells source h, normalize_normalize, ?_⟩
  intro source source' specifier specifier' h h' hrooted
  have hkinds : isRooted (Specifier.joined source.toList specifier.toList) =
      isRooted (Specifier.joined source'.toList specifier'.toList) := by
    rw [isRooted_joined source.toList h, isRooted_joined source'.toList h', hrooted]
  rw [← String.toList_inj, resolve_toList source h, resolve_toList source' h',
    normalize_eq_iff hkinds, isRooted_joined source.toList h]

theorem resolve_spells_normal_form_detour :
    (∃ normal, SpellsNormalForm false
      (splitSlash (Specifier.joined "src/a/b.ts".toList "././/c/../d".toList)) normal
      (Specifier.resolve "src/a/b.ts" "././/c/../d").toList) ∧
    Relation.EqvGen (Rewrite false)
      (splitSlash (Specifier.joined "src/a/b.ts".toList "././/c/../d".toList))
      (splitSlash (Specifier.joined "src/x.ts".toList "./a/d".toList)) :=
  ⟨resolve_spells_normal_form.1 "src/a/b.ts" "././/c/../d" (by decide),
    (resolve_spells_normal_form.2.2 "src/a/b.ts" "src/x.ts" "././/c/../d" "./a/d" (by decide)
      (by decide) (by decide)).mp (by decide)⟩

end ImportLint.Proofs.SpecifierResolution
