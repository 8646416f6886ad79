import ImportLint.Proofs.SpecifierResolution

/-!
Resolution looks at the directory of a file, and at nothing of it but its normal form.  Normalization
can be done to a front of a path first, so directories that are spelled in different ways are one
directory to every specifier.
-/

namespace ImportLint.Proofs.DirectorySpellings

open ImportLint.Path
open ImportLint.Proofs.PathWords
open ImportLint.Proofs.NormalForm
open ImportLint.Proofs.SpecifierResolution

theorem reduce_append_congr {rooted : Bool} {left left' : List Segment}
    (h : reduce rooted left = reduce rooted left') (right : List Segment) :
    reduce rooted (left ++ right) = reduce rooted (left' ++ right) := by
  have hstack : left.foldl (push rooted) [] = left'.foldl (push rooted) [] :=
    List.reverse_injective h
  rw [reduce, reduce, List.foldl_append, List.foldl_append, hstack]

theorem normalize_congr {path path' : List Char} (hrooted : isRooted path = isRooted path')
    (h : reduce (isRooted path) (splitSlash path) = reduce (isRooted path) (splitSlash path')) :
    Path.normalize path = Path.normalize path' := by
  rw [Path.normalize, Path.normalize, ← hrooted, h]

theorem isRooted_append {path : List Char} (h : path ≠ []) (rest : List Char) :
    isRooted (path ++ rest) = isRooted path := by
  cases path with
  | nil => exact absurd rfl h
  | cons c path => rfl

/-- A front of a path may be normalized before what is behind it is read. -/
theorem normalize_append_slash {path : List Char} (h : path ≠ []) (rest : List Char) :
    Path.normalize (path ++ '/' :: rest) =
      Path.normalize (Path.normalize path ++ '/' :: rest) := by
  have hspells := normalize_spells path
  have hkind : isRooted (path ++ '/' :: rest) = isRooted path := isRooted_append h _
  apply normalize_congr
  · rw [hkind, isRooted_append hspells.ne_nil, hspells.rooted_iff]
  · rw [hkind, splitSlash_append_slash, splitSlash_append_slash]
    apply reduce_append_congr
    exact (reduce_splitSlash_spell (reduce_isNormal _ _)
      (reduce_slash_free _ (splitSlash_slash_free path))).symm

/-- The directory of a file: `.` where the file has no slash, and `/` where its only slash is in
front. -/
def directory (source : List Char) : List Char :=
  match Specifier.parentDir? source with
  | none => ['.']
  | some [] => ['/']
  | some above => above

theorem directory_ne_nil (source : List Char) : directory source ≠ [] := by
  unfold directory
  split
  · simp
  · simp
  · next hempty _ =>
    rintro rfl
    exact hempty rfl

theorem directory_of_slash_free {source : List Char} (h : '/' ∉ source) :
    directory source = ['.'] := by
  simp [directory, Specifier.parentDir?, h]

theorem directory_append_slash {above : List Char} (habove : above ≠ []) {name : List Char}
    (hname : '/' ∉ name) : directory (above ++ '/' :: name) = above := by
  rw [directory, parentDir?_append_slash above hname]
  cases above with
  | nil => exact absurd rfl habove
  | cons c above => rfl

theorem directory_slash {name : List Char} (h : '/' ∉ name) : directory ('/' :: name) = ['/'] := by
  have hparent := parentDir?_append_slash [] h
  rw [List.nil_append] at hparent
  rw [directory, hparent]

/-- A specifier is read behind the directory of its file. -/
theorem normalize_joined (source : List Char) {specifier : List Char}
    (h : specifier.head? = some '.') :
    Path.normalize (Specifier.joined source specifier) =
      Path.normalize (directory source ++ '/' :: specifier) := by
  by_cases hslash : '/' ∈ source
  · obtain ⟨above, name, rfl, hname⟩ := exists_last_slash hslash
    rw [joined_append_slash above hname]
    by_cases habove : above = []
    · -- The root is the only directory whose text already ends in a slash.
      subst habove
      rw [List.nil_append, List.nil_append, directory_slash hname]
      apply normalize_congr rfl
      have hidle : Rewrite true ([] :: [] :: splitSlash specifier) ([] :: splitSlash specifier) :=
        .idle [] _ [] rfl
      exact (reduce_eq_of_rewrite hidle).symm
    · rw [directory_append_slash habove hname]
  · rw [joined_of_slash_free hslash, directory_of_slash_free hslash]
    apply normalize_congr
    · simp [isRooted, h]
    · have hidle : Rewrite (isRooted specifier) (['.'] :: splitSlash specifier)
          (splitSlash specifier) := .idle [] _ ['.'] rfl
      exact (reduce_eq_of_rewrite hidle).symm

theorem resolve_eq (source : String) {specifier : String}
    (h : specifier.toList.head? = some '.') :
    (Specifier.resolve source specifier).toList =
      Path.normalize (Path.normalize (directory source.toList) ++ '/' :: specifier.toList) := by
  rw [resolve_toList source h, normalize_joined source.toList h,
    normalize_append_slash (directory_ne_nil source.toList)]

/-- Files in one directory resolve every specifier in one way, however the directory is spelled. -/
theorem resolve_congr {source source' : String}
    (h : Path.normalize (directory source.toList) = Path.normalize (directory source'.toList))
    {specifier : String} (hspecifier : specifier.toList.head? = some '.') :
    Specifier.resolve source specifier = Specifier.resolve source' specifier := by
  rw [← String.toList_inj, resolve_eq source hspecifier, resolve_eq source' hspecifier, h]

/-- Behind nothing or a slash, a file without slashes is in the directory that stands in front. -/
theorem joined_append {front : List Char} (hfront : front = [] ∨ front.getLast? = some '/')
    {name : List Char} (hname : '/' ∉ name) (specifier : List Char) :
    Specifier.joined (front ++ name) specifier = front ++ specifier := by
  rcases hfront with rfl | hlast
  · exact joined_of_slash_free hname specifier
  · obtain ⟨above, rfl⟩ := List.getLast?_eq_some_iff.mp hlast
    rw [List.append_assoc, List.append_assoc]
    exact joined_append_slash above hname specifier

theorem exists_splitSlash_append {front : List Char}
    (hfront : front = [] ∨ front.getLast? = some '/') :
    ∃ word, ∀ rest, splitSlash (front ++ rest) = word ++ splitSlash rest := by
  rcases hfront with rfl | hlast
  · exact ⟨[], fun rest => rfl⟩
  · obtain ⟨above, rfl⟩ := List.getLast?_eq_some_iff.mp hlast
    refine ⟨splitSlash above, fun rest => ?_⟩
    rw [List.append_assoc, List.singleton_append, splitSlash_append_slash]

/-- Up from a directory leads to where the directory is. -/
theorem normalize_step_up {front : List Char} (hfront : front = [] ∨ front.getLast? = some '/')
    {name : List Char} (hname : Segment.isName name = true) (hfree : '/' ∉ name)
    (rest : List Char) :
    Path.normalize (front ++ (name ++ '/' :: '.' :: '.' :: '/' :: rest)) =
      Path.normalize (front ++ '.' :: '/' :: rest) := by
  obtain ⟨word, hword⟩ := exists_splitSlash_append hfront
  apply normalize_congr
  · by_cases hempty : front = []
    · subst hempty
      cases name with
      | nil => exact absurd hname (by decide)
      | cons c name =>
        have hc : c ≠ '/' := fun heq => hfree (by simp [heq])
        simp [isRooted, hc]
    · rw [isRooted_append hempty, isRooted_append hempty]
  · have hup : splitSlash (name ++ '/' :: '.' :: '.' :: '/' :: rest) =
        name :: Segment.parent :: splitSlash rest := by
      rw [splitSlash_append_slash, splitSlash_of_slash_free hfree]
      exact congrArg (name :: ·) (splitSlash_append_slash Segment.parent rest)
    have hhere : splitSlash ('.' :: '/' :: rest) = ['.'] :: splitSlash rest :=
      splitSlash_append_slash ['.'] rest
    rw [hword, hword, hup, hhere, reduce_eq_of_rewrite (.climb word _ name hname),
      reduce_eq_of_rewrite (.idle word _ ['.'] rfl)]

/-- Normalizing a directory first changes nothing, files in directories with one normal form resolve
every specifier alike, and a step up from a directory leads to its neighbours. -/
theorem resolve_compositional :
    (∀ path rest : List Char, path ≠ [] →
      Path.normalize (path ++ '/' :: rest) =
        Path.normalize (Path.normalize path ++ '/' :: rest)) ∧
    (∀ source source' : String,
      Path.normalize (directory source.toList) = Path.normalize (directory source'.toList) →
      ∀ specifier : String, specifier.toList.head? = some '.' →
        Specifier.resolve source specifier = Specifier.resolve source' specifier) ∧
    (∀ front file file' name rest : String,
      front = "" ∨ front.toList.getLast? = some '/' →
      '/' ∉ file.toList → '/' ∉ file'.toList → '/' ∉ name.toList → Segment.isName name.toList →
      Specifier.resolve (front ++ name ++ "/" ++ file) ("../" ++ rest) =
        Specifier.resolve (front ++ file') ("./" ++ rest)) := by
  refine ⟨fun path rest h => normalize_append_slash h rest, fun source source' h specifier hspecifier =>
    resolve_congr h hspecifier, ?_⟩
  intro front file file' name rest hfront hfile hfile' hfree hname
  have hchars : front.toList = [] ∨ front.toList.getLast? = some '/' :=
    hfront.imp_left fun h => by rw [h]; rfl
  rw [← String.toList_inj, resolve_toList _ (by simp), resolve_toList _ (by simp)]
  simp only [String.toList_append, String.reduceToList]
  have hup : Specifier.joined (front.toList ++ name.toList ++ ['/'] ++ file.toList)
      (['.', '.', '/'] ++ rest.toList) =
      front.toList ++ (name.toList ++ '/' :: '.' :: '.' :: '/' :: rest.toList) := by
    rw [joined_append (.inr (by simp)) hfile]
    simp
  rw [hup, joined_append hchars hfile']
  exact normalize_step_up hchars hname hfree rest.toList

theorem resolve_compositional_above_root :
    Path.normalize ("../a/..".toList ++ '/' :: "b/./c".toList) =
      Path.normalize (Path.normalize "../a/..".toList ++ '/' :: "b/./c".toList) ∧
    Specifier.resolve "./src//a/../b.ts" "../x" = Specifier.resolve "src/y.ts" "../x" ∧
    Specifier.resolve "../a//s/f.ts" "../x" = Specifier.resolve "../a//g.ts" "./x" :=
  ⟨resolve_compositional.1 _ _ (by decide),
    resolve_compositional.2.1 "./src//a/../b.ts" "src/y.ts" (by decide) "../x" (by decide),
    resolve_compositional.2.2 "../a//" "f.ts" "g.ts" "s" "x" (.inr (by decide)) (by decide)
      (by decide) (by decide) (by decide)⟩

end ImportLint.Proofs.DirectorySpellings
