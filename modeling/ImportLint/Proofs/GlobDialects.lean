import ImportLint.Proofs.ExcludeGlobs
import ImportLint.Proofs.PlainPatterns
import ImportLint.Proofs.PolicyCompilation

/-!
The two readings of a glob.  Targets and restrictions keep `*` and `?` within a component, globs that
leave files out let them go across; both accept the same patterns, and the first reading matches no
more than the second.
-/

namespace ImportLint.Proofs.GlobDialects

open ImportLint.Glob
open ImportLint.Proofs.GlobMatching
open ImportLint.Proofs.ExcludeGlobs
open ImportLint.Proofs.FileIndependence
open ImportLint.Proofs.DiscoveredPaths
open ImportLint.Proofs.PlainPatterns
open ImportLint.Proofs.PolicyCompilation
open ImportLint.Proofs.WalkPaths

/-- What a reading of tokens lowers to, against a wider reading of them: it stands for no more bytes,
and is dropped from a group of alternatives where the wider one is. -/
structure Nested (narrow wide : List Piece) : Prop where
  subset : ∀ bytes, MatchesAll narrow bytes → MatchesAll wide bytes
  nil_iff : narrow = [] ↔ wide = []

namespace Nested

variable {narrow wide narrow' wide' : List Piece}

theorem refl (pieces : List Piece) : Nested pieces pieces :=
  ⟨fun _ h => h, Iff.rfl⟩

theorem append (h : Nested narrow wide) (h' : Nested narrow' wide') :
    Nested (narrow ++ narrow') (wide ++ wide') where
  subset := by
    intro bytes hbytes
    obtain ⟨front, back, rfl, hfront, hback⟩ := matchesAll_append_iff.mp hbytes
    exact matchesAll_append_iff.mpr ⟨front, back, rfl, h.subset front hfront, h'.subset back hback⟩
  nil_iff := by rw [List.append_eq_nil_iff, List.append_eq_nil_iff, h.nil_iff, h'.nil_iff]

theorem single {piece piece' : Piece} (h : ∀ bytes, piece.Matches bytes → piece'.Matches bytes) :
    Nested [piece] [piece'] where
  subset := by
    intro bytes hbytes
    obtain ⟨left, right, rfl, hleft, hright⟩ := matchesAll_cons_iff.mp hbytes
    exact .cons (h left hleft) hright
  nil_iff := by simp

theorem exists_wider {branches branches' : List (List Piece)}
    (h : List.Forall₂ Nested branches branches') {branch : List Piece} (hmem : branch ∈ branches) :
    ∃ branch' ∈ branches', Nested branch branch' := by
  induction h with
  | nil => simp at hmem
  | @cons _ first _ rest hfirst _ ih =>
      rcases List.mem_cons.mp hmem with rfl | hmem
      · exact ⟨first, by simp, hfirst⟩
      · obtain ⟨branch', hmem', hnested⟩ := ih hmem
        exact ⟨branch', List.mem_cons_of_mem _ hmem', hnested⟩

theorem choice {branches branches' : List (List Piece)}
    (h : List.Forall₂ Nested branches branches') : Nested [.choice branches] [.choice branches'] := by
  apply single
  intro bytes hbytes
  obtain ⟨branch, hmem, hbranch⟩ := matches_choice_iff.mp hbytes
  obtain ⟨branch', hmem', hnested⟩ := exists_wider h hmem
  exact .choice hmem' (hnested.subset bytes hbranch)

end Nested

mutual

theorem nested_lower (token : Token) :
    Nested (token.lower .component) (token.lower .wholePath) :=
  match token with
  | .literal _ => .refl _
  | .any => .single fun _ hbytes => by
      obtain ⟨b, rfl, -⟩ := matches_byte_iff.mp hbytes
      exact .byte (has_all b)
  | .star => .single fun _ _ => .run fun b _ => has_all b
  | .leadingDirs => .refl _
  | .middleDirs => .refl _
  | .everythingBelow => .refl _
  | .ofClass _ => .refl _
  | .choice branches => by
      have hbranches := nested_lowerBranches branches
      rw [Token.lower, Token.lower]
      generalize lowerBranches .component branches = narrow at hbranches ⊢
      generalize lowerBranches .wholePath branches = wide at hbranches ⊢
      cases hbranches with
      | nil => exact .refl []
      | cons hbranch hrest => exact .choice (.cons hbranch hrest)

theorem nested_lowerAll (tokens : List Token) :
    Nested (lowerAll .component tokens) (lowerAll .wholePath tokens) :=
  match tokens with
  | [] => .refl []
  | token :: tokens => (nested_lower token).append (nested_lowerAll tokens)

theorem nested_lowerBranches (branches : List (List Token)) :
    List.Forall₂ Nested (lowerBranches .component branches) (lowerBranches .wholePath branches) :=
  match branches with
  | [] => .nil
  | branch :: branches => by
      have hbranch := nested_lowerAll branch
      have hrest := nested_lowerBranches branches
      rw [lowerBranches, lowerBranches]
      generalize lowerAll .component branch = narrow at hbranch ⊢
      generalize lowerAll .wholePath branch = wide at hbranch ⊢
      cases narrow with
      | nil =>
          obtain rfl := hbranch.nil_iff.mp rfl
          exact hrest
      | cons piece narrow =>
          cases wide with
          | nil => exact absurd (hbranch.nil_iff.mpr rfl) (by simp)
          | cons piece' wide => exact .cons hbranch hrest

end

theorem nested_lower_pattern (tokens : List Token) :
    Nested (Glob.lower .component tokens) (Glob.lower .wholePath tokens) := by
  rw [Glob.lower.eq_def, Glob.lower.eq_def]
  split
  · exact .refl _
  · exact nested_lowerAll tokens

theorem isMatch_wholePath {pattern : String} {target glob : ImportLint.Glob}
    (htarget : Glob.compile .component pattern = .ok target)
    (hglob : Glob.compile .wholePath pattern = .ok glob) {path : String}
    (hmatch : target.isMatch path = true) : glob.isMatch path = true := by
  rw [Glob.compile] at htarget hglob
  cases hparse : Glob.parse false pattern.toList with
  | error fault => simp [hparse] at htarget
  | ok tokens =>
      rw [hparse] at htarget hglob
      cases htarget
      cases hglob
      rw [isMatch_iff] at hmatch ⊢
      exact (nested_lower_pattern tokens).subset _ hmatch

theorem compileGlob_eq_ok_iff {pattern : String} {target : ImportLint.Glob} :
    compileGlob pattern = .ok target ↔ Glob.compile .component pattern = .ok target := by
  rw [compileGlob]
  cases Glob.compile .component pattern <;> simp

theorem isGlob_iff (pattern : String) :
    IsGlob pattern ↔ ∃ target, compileGlob pattern = .ok target := by
  rw [IsGlob, compileGlob, Glob.compile, Glob.compile]
  cases Glob.parse false pattern.toList <;> simp

theorem patternLeavesOut_iff {pattern path : String} :
    patternLeavesOut pattern path = true ↔
      ∃ single, ExcludeSet.compile [pattern] = .ok single ∧ single.leavesOut path = true := by
  rw [patternLeavesOut, ExcludeSet.compile, ExcludeSet.compile]
  cases Glob.compile .wholePath pattern <;> simp [ExcludeSet.leavesOut]

/-- A target that is copied into the globs that leave files out takes away every file that it speaks
about. -/
theorem leavesOut_of_target {pattern : String} {target : ImportLint.Glob}
    (htarget : compileGlob pattern = .ok target) {patterns : List String}
    (hmem : pattern ∈ patterns) {set : ExcludeSet}
    (hset : ExcludeSet.compile patterns = .ok set) {path : String}
    (hmatch : target.isMatch path = true) : set.leavesOut path = true := by
  obtain ⟨glob, hglob⟩ := (isGlob_iff pattern).mpr ⟨target, htarget⟩
  rw [leavesOut_of_compile hset, leavesOut, List.any_eq_true]
  refine ⟨pattern, hmem, ?_⟩
  rw [patternLeavesOut, hglob]
  exact isMatch_wholePath (compileGlob_eq_ok_iff.mp htarget) hglob hmatch

/-- No file of a check is matched by a target that stands among the globs that leave files out. -/
theorem not_isMatch_of_check {disk : Disk} {path : String} {config : Config}
    {exclude : List String} {check : Check}
    (hcheck : disk.check path config exclude = .ok check) {pattern : String}
    (hmem : pattern ∈ config.analyzer.exclude ++ exclude) {target : ImportLint.Glob}
    (htarget : compileGlob pattern = .ok target) :
    ∀ source ∈ check.files, target.isMatch (source.localPath check.root) = false := by
  intro source hsource
  obtain ⟨set, entries, -, hset, -, -, hfiles⟩ := check_eq_ok hcheck
  rw [hfiles, discover, List.mem_mergeSort, List.mem_filter, Bool.not_eq_true'] at hsource
  by_contra hmatch
  rw [Bool.not_eq_false] at hmatch
  rw [leavesOut_of_target htarget hmem hset hmatch] at hsource
  exact absurd hsource.2 (by simp)

/-- The two readings accept the same patterns; globs leave out a path when one of them does; what a
target matches, the same pattern leaves out; and so a target given as a further glob takes away the
files that it speaks about, and only takes files away. -/
theorem targets_nested_in_excludes :
    (∀ patterns, (∃ set, ExcludeSet.compile patterns = .ok set) ↔
      ∀ pattern ∈ patterns, ∃ target, compileGlob pattern = .ok target) ∧
    (∀ patterns set, ExcludeSet.compile patterns = .ok set → ∀ path,
      set.leavesOut path = true ↔ ∃ pattern ∈ patterns, ∃ single,
        ExcludeSet.compile [pattern] = .ok single ∧ single.leavesOut path = true) ∧
    (∀ pattern target single, compileGlob pattern = .ok target →
      ExcludeSet.compile [pattern] = .ok single → ∀ path, target.isMatch path = true →
        single.leavesOut path = true) ∧
    ∀ disk path config exclude check, Disk.check disk path config exclude = .ok check →
      ∀ pattern target, compileGlob pattern = .ok target → ∃ fewer,
        disk.check path config (exclude ++ [pattern]) = .ok { check with files := fewer } ∧
          fewer.Sublist check.files ∧
          ∀ source ∈ fewer, target.isMatch (source.localPath check.root) = false := by
  refine ⟨?_, ?_, ?_, ?_⟩
  · intro patterns
    simp only [exists_compile_iff, isGlob_iff]
  · intro patterns set hset path
    simp only [leavesOut_of_compile hset, leavesOut, List.any_eq_true, patternLeavesOut_iff]
  · intro pattern target single htarget hsingle path
    exact leavesOut_of_target htarget (by simp) hsingle
  · intro disk path config exclude check hcheck pattern target htarget
    have hglobs : ∀ further ∈ [pattern], IsGlob further := by
      simpa [isGlob_iff] using ⟨target, htarget⟩
    have happend := check_append hcheck hglobs
    refine ⟨_, happend, List.filter_sublist, ?_⟩
    exact not_isMatch_of_check happend (by simp) htarget

set_option maxRecDepth 100000 in
/-- As a target `src/[!x]*.ts` speaks about one of two files below `src`; it leaves out both. -/
theorem targets_nested_in_excludes_class :
    ∃ target single, compileGlob "src/[!x]*.ts" = .ok target ∧
      ExcludeSet.compile ["src/[!x]*.ts"] = .ok single ∧
      target.isMatch "src/a.ts" = true ∧ single.leavesOut "src/a.ts" = true ∧
      target.isMatch "src/a/b.ts" = false ∧ single.leavesOut "src/a/b.ts" = true ∧
      ∃ disk check fewer, ∃ source ∈ check.files, Disk.check disk "." (libraryConfig ".") [] =
          .ok check ∧
        target.isMatch (source.localPath check.root) = true ∧
        disk.check "." (libraryConfig ".") ["src/[!x]*.ts"] =
          .ok { check with files := fewer } ∧ source ∉ fewer := by
  let content : ByteArray := "import \"x\"".toUTF8
  let disk : Disk :=
    ⟨written [(["src".toList, "a.ts".toList], content), (["b.md".toList], content)], []⟩
  obtain ⟨target, htarget⟩ : ∃ target, compileGlob "src/[!x]*.ts" = .ok target := ⟨_, rfl⟩
  obtain ⟨haccepts, -, hnested, hchecks⟩ := targets_nested_in_excludes
  obtain ⟨single, hsingle⟩ := (haccepts ["src/[!x]*.ts"]).mpr (by simpa using ⟨target, htarget⟩)
  have htold (path : String) : patternMatches "src/[!x]*.ts" path = target.isMatch path := by
    rw [patternMatches, htarget]
  have hmatch : target.isMatch "src/a.ts" = true := by
    rw [← htold]
    decide +kernel
  have hdeep : single.leavesOut "src/a/b.ts" = true := by
    rw [leavesOut_of_compile hsingle]
    decide +kernel
  have hfound : ((disk.check "." (libraryConfig ".") []).toOption.any fun check =>
      check.files.any fun source =>
        patternMatches "src/[!x]*.ts" (source.localPath check.root)) = true := by
    decide +kernel
  obtain ⟨check, hcheck, hfiles⟩ := (Option.any_eq_true _ _).mp hfound
  obtain ⟨source, hsource, hgoverned⟩ := List.any_eq_true.mp hfiles
  rw [htold] at hgoverned
  have hok := eq_ok_of_toOption hcheck
  obtain ⟨fewer, hfewer, -, hgone⟩ := hchecks disk "." _ [] check hok _ target htarget
  refine ⟨target, single, htarget, hsingle, hmatch, hnested _ _ _ htarget hsingle _ hmatch,
    by rw [← htold]; decide +kernel, hdeep, disk, check, fewer, source, hsource, hok, hgoverned,
    hfewer, ?_⟩
  intro hmem
  rw [hgone source hmem] at hgoverned
  cases hgoverned

end ImportLint.Proofs.GlobDialects
