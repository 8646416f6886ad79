import ImportLint.Proofs.EntryEdits
import ImportLint.Proofs.EntryFaults

/-!
Edits of restrictions.  The restrictions of an entry are alternatives: neither their order nor their
repetition says anything, and further ones can only take findings away, from the files that the entry
governs and from no others.
-/

namespace ImportLint.Proofs.RestrictionEdits

open ImportLint.Proofs.PolicyCompilation
open ImportLint.Proofs.FileFindings
open ImportLint.Proofs.EntryEdits
open ImportLint.Proofs.EntryFaults

/-- An entry about the same files that allows no less. -/
structure Widens (entry wider : PolicyEntry) : Prop where
  target : wider.target = entry.target
  restrictions : entry.restrictions ⊆ wider.restrictions

theorem Widens.refl (entry : PolicyEntry) : Widens entry entry :=
  ⟨rfl, fun _ => id⟩

/-- The line and the column of an import. -/
def placeOf (ref : ImportRef) : Nat × Nat :=
  (ref.line, ref.column)

/-- The lines and columns of the imports that findings are about. -/
def importPlaces (violations : List Violation) : List (Nat × Nat) :=
  (violations.filter (·.kind = .badImport)).map fun violation =>
    (violation.location.line, violation.location.column)

/-- The findings about a file as a whole. -/
def fileFindings (violations : List Violation) : List Violation :=
  violations.filter (·.kind = .badFilename)

/-- The imports of a file that are reported where each is checked by itself. -/
def reported (set : PolicySet) (file : String) (imports : List ImportRef) : List ImportRef :=
  imports.filter fun ref => importPlaces (set.checkFile file [ref]).violations ≠ []

section Governing

variable {entries others : List PolicyEntry} {set other : PolicySet} {file : String}

theorem importPlaces_of_reports {entry : PolicyEntry} {refs : List ImportRef}
    {violations : List Violation} (h : List.Forall₂ (ReportsImport file entry) refs violations) :
    importPlaces violations = refs.map placeOf ∧ fileFindings violations = [] := by
  induction h with
  | nil => exact ⟨rfl, rfl⟩
  | cons hreports _ ih =>
      obtain ⟨hplaces, hfile⟩ := ih
      constructor
      · rw [importPlaces, List.filter_cons_of_pos (by simp [hreports.kind]), List.map_cons,
          ← importPlaces, hplaces, hreports.location]
        rfl
      · rw [fileFindings, List.filter_cons_of_neg (by simp [hreports.kind])]
        exact hfile

theorem checkFile_of_none (h : PolicySet.compile entries = .ok set)
    (hfind : (entries.find? fun entry => targets entry file) = none) (imports : List ImportRef) :
    (set.checkFile file imports).violations = [.badFilename file] := by
  have hselect := select?_rel h file
  rw [hfind] at hselect
  rw [PolicySet.checkFile]
  generalize set.select? file = policy at hselect ⊢
  cases hselect with
  | none => rfl

theorem checkFile_of_some (h : PolicySet.compile entries = .ok set) {entry : PolicyEntry}
    (hfind : (entries.find? fun entry => targets entry file) = some entry)
    (imports : List ImportRef) :
    List.Forall₂ (ReportsImport file entry) (denied entry imports)
      (set.checkFile file imports).violations := by
  have hselect := select?_rel h file
  rw [hfind] at hselect
  rw [PolicySet.checkFile]
  generalize set.select? file = policy at hselect ⊢
  cases hselect with
  | some hcompiled =>
      simp only [read_eq]
      exact filterMap_finding?_reports hcompiled file imports

/-- The first entry about a file decides by itself which of its imports are reported. -/
theorem reported_eq (h : PolicySet.compile entries = .ok set) (file : String)
    (imports : List ImportRef) :
    reported set file imports =
      match entries.find? fun entry => targets entry file with
      | none => []
      | some entry => denied entry imports := by
  rw [reported]
  cases hfind : entries.find? fun entry => targets entry file with
  | none => simp [checkFile_of_none h hfind, importPlaces, Violation.badFilename]
  | some entry =>
      refine List.filter_congr fun ref _ => ?_
      rw [(importPlaces_of_reports (checkFile_of_some h hfind [ref])).1]
      cases hallows : allows entry ref.resolved <;> simp [denied, hallows]

/-- A check reports the imports that are reported by themselves, in their order. -/
theorem importPlaces_checkFile (h : PolicySet.compile entries = .ok set) (file : String)
    (imports : List ImportRef) :
    importPlaces (set.checkFile file imports).violations =
      (reported set file imports).map placeOf := by
  rw [reported_eq h]
  cases hfind : entries.find? fun entry => targets entry file with
  | none => simp [checkFile_of_none h hfind, importPlaces, Violation.badFilename]
  | some entry => exact (importPlaces_of_reports (checkFile_of_some h hfind imports)).1

theorem fileFindings_checkFile (h : PolicySet.compile entries = .ok set) (file : String)
    (imports : List ImportRef) :
    fileFindings (set.checkFile file imports).violations =
      if (entries.find? fun entry => targets entry file).isNone then [.badFilename file] else [] := by
  cases hfind : entries.find? fun entry => targets entry file with
  | none => simp [checkFile_of_none h hfind, fileFindings, Violation.badFilename]
  | some entry => exact (importPlaces_of_reports (checkFile_of_some h hfind imports)).2

end Governing

section Widening

variable {entries wider : List PolicyEntry} {set edited : PolicySet}

theorem denied_sublist {entry other : PolicyEntry} (h : Widens entry other)
    (imports : List ImportRef) : (denied other imports).Sublist (denied entry imports) := by
  refine List.monotone_filter_right imports fun ref hdenied => ?_
  rw [Bool.not_eq_true', allows, List.any_eq_false] at hdenied ⊢
  exact fun pattern hpattern => hdenied pattern (h.restrictions hpattern)

/-- Wider entries speak about the same files. -/
theorem find?_widens (h : List.Forall₂ Widens entries wider) (file : String) :
    Option.Rel Widens (entries.find? fun entry => targets entry file)
      (wider.find? fun entry => targets entry file) := by
  induction h with
  | nil => exact .none
  | @cons entry other _ _ hwidens _ ih =>
      have htargets : targets other file = targets entry file := by
        rw [targets, targets, hwidens.target]
      rw [List.find?_cons, List.find?_cons, htargets]
      split
      · exact .some hwidens
      · exact ih

variable (hset : PolicySet.compile entries = .ok set)
  (hedited : PolicySet.compile wider = .ok edited) (h : List.Forall₂ Widens entries wider)

include hset hedited h

theorem reported_sublist (file : String) (imports : List ImportRef) :
    (reported edited file imports).Sublist (reported set file imports) := by
  have hfind := find?_widens h file
  rw [reported_eq hset, reported_eq hedited]
  generalize (entries.find? fun entry => targets entry file) = chosen at hfind ⊢
  generalize (wider.find? fun entry => targets entry file) = chosen' at hfind ⊢
  cases hfind with
  | none => exact .slnil
  | some hwidens => exact denied_sublist hwidens imports

theorem fileFindings_eq (file : String) (imports : List ImportRef) :
    fileFindings (edited.checkFile file imports).violations =
      fileFindings (set.checkFile file imports).violations := by
  have hfind := find?_widens h file
  rw [fileFindings_checkFile hset, fileFindings_checkFile hedited]
  generalize (entries.find? fun entry => targets entry file) = chosen at hfind ⊢
  generalize (wider.find? fun entry => targets entry file) = chosen' at hfind ⊢
  cases hfind <;> rfl

end Widening

section OneEntry

variable {front back : List PolicyEntry} {entry other : PolicyEntry} {set : PolicySet}

theorem forall₂_widens (h : Widens entry other) :
    List.Forall₂ Widens (front ++ entry :: back) (front ++ other :: back) := by
  have hsame (entries : List PolicyEntry) : List.Forall₂ Widens entries entries :=
    List.forall₂_same.mpr fun entry _ => .refl entry
  exact List.rel_append (hsame front) (.cons h (hsame back))

/-- An entry that speaks about a file but does not govern it has an earlier one in front of it. -/
theorem exists_earlier (h : PolicySet.compile (front ++ entry :: back) = .ok set) {file : String}
    (hposition : set.position? file ≠ some front.length) (htargets : targets entry file = true) :
    ∃ earlier ∈ front, targets earlier file = true := by
  by_contra hnone
  push Not at hnone
  apply hposition
  rw [position?_eq h, List.findIdx?_append,
    List.findIdx?_eq_none_iff.mpr fun earlier hmem => by simpa using hnone earlier hmem,
    List.findIdx?_cons, if_pos htargets]
  simp

/-- An edit of an entry is felt only by the files that the entry governs. -/
theorem checkFile_of_not_governed {edited : PolicySet}
    (hset : PolicySet.compile (front ++ entry :: back) = .ok set)
    (hedited : PolicySet.compile (front ++ other :: back) = .ok edited)
    (htarget : other.target = entry.target) {file : String}
    (hposition : set.position? file ≠ some front.length) (imports : List ImportRef) :
    edited.checkFile file imports = set.checkFile file imports := by
  have hearlier := exists_earlier hset hposition
  have hearlier' : targets other file = true → ∃ earlier ∈ front, targets earlier file = true := by
    rwa [targets, htarget, ← targets]
  refine checkFile_congr (select?_congr hedited hset ?_) imports
  rw [find?_insert hearlier', find?_insert hearlier]

end OneEntry

/-- The restrictions of an entry are alternatives without an order.  With more of them a check reports no
other imports than before and keeps their order, and with the same ones written otherwise it reports
exactly the same imports; whether a file has a policy does not change, and nothing changes for files
that the entry does not govern. -/
theorem restrictions_are_alternatives {front back : List PolicyEntry} {entry : PolicyEntry}
    {set : PolicySet} (hset : PolicySet.compile (front ++ entry :: back) = .ok set)
    {patterns : List String} (hpatterns : ∀ pattern ∈ patterns, IsPattern pattern)
    (hsubset : entry.restrictions ⊆ patterns) :
    ∃ edited,
      PolicySet.compile (front ++ { entry with restrictions := patterns } :: back) = .ok edited ∧
      ∀ file imports,
        (importPlaces (edited.checkFile file imports).violations).Sublist
          (importPlaces (set.checkFile file imports).violations) ∧
        fileFindings (edited.checkFile file imports).violations =
          fileFindings (set.checkFile file imports).violations ∧
        (set.position? file ≠ some front.length →
          edited.checkFile file imports = set.checkFile file imports) ∧
        (patterns ⊆ entry.restrictions →
          reported edited file imports = reported set file imports ∧
          importPlaces (edited.checkFile file imports).violations =
            importPlaces (set.checkFile file imports).violations) := by
  have hwidens : Widens entry { entry with restrictions := patterns } := ⟨rfl, hsubset⟩
  have hlists := @forall₂_widens front back _ _ hwidens
  obtain ⟨edited, hedited⟩ : ∃ edited,
      PolicySet.compile (front ++ { entry with restrictions := patterns } :: back) =
        .ok edited := by
    rw [exists_compile_iff_isSound]
    have hsound := (exists_compile_iff_isSound _).mp ⟨set, hset⟩
    simp only [List.forall_mem_append, List.forall_mem_cons] at hsound ⊢
    obtain ⟨hfront, hentry, hback⟩ := hsound
    have hne : patterns ≠ [] := by
      obtain ⟨pattern, hpattern⟩ := List.exists_mem_of_ne_nil _ hentry.restrictions_ne_nil
      exact List.ne_nil_of_mem (hsubset hpattern)
    exact ⟨hfront, ⟨hne, hentry.target, hpatterns⟩, hback⟩
  refine ⟨edited, hedited, fun file imports => ⟨?_, ?_, ?_, ?_⟩⟩
  · rw [importPlaces_checkFile hedited, importPlaces_checkFile hset]
    exact (reported_sublist hset hedited hlists file imports).map placeOf
  · exact fileFindings_eq hset hedited hlists file imports
  · exact fun hposition => checkFile_of_not_governed hset hedited rfl hposition imports
  · intro hsame
    have hback : Widens { entry with restrictions := patterns } entry := ⟨rfl, hsame⟩
    have hreported : reported edited file imports = reported set file imports :=
      (reported_sublist hset hedited hlists file imports).antisymm
        (reported_sublist hedited hset (forall₂_widens hback) file imports)
    refine ⟨hreported, ?_⟩
    rw [importPlaces_checkFile hedited, importPlaces_checkFile hset, hreported]

theorem restrictions_are_alternatives_further :
    ∃ set edited : PolicySet,
      PolicySet.compile [⟨"test/**", ["**"]⟩, ⟨"src/**", ["src/**", "fs"]⟩, ⟨"**", ["lib/**"]⟩] =
        .ok set ∧
      PolicySet.compile
        [⟨"test/**", ["**"]⟩, ⟨"src/**", ["fs", "lib/**", "src/**", "fs"]⟩, ⟨"**", ["lib/**"]⟩] =
          .ok edited ∧
      importPlaces (set.checkFile "src/a.ts"
        [⟨"../lib/b", "src/a.ts", 1, 8⟩, ⟨"fs", "src/a.ts", 2, 8⟩, ⟨"x", "src/a.ts", 3, 8⟩]).violations =
          [(1, 8), (3, 8)] ∧
      (importPlaces (edited.checkFile "src/a.ts"
        [⟨"../lib/b", "src/a.ts", 1, 8⟩, ⟨"fs", "src/a.ts", 2, 8⟩,
          ⟨"x", "src/a.ts", 3, 8⟩]).violations).Sublist [(1, 8), (3, 8)] ∧
      ∀ imports, edited.checkFile "lib/b.ts" imports = set.checkFile "lib/b.ts" imports := by
  let imports : List ImportRef :=
    [⟨"../lib/b", "src/a.ts", 1, 8⟩, ⟨"fs", "src/a.ts", 2, 8⟩, ⟨"x", "src/a.ts", 3, 8⟩]
  obtain ⟨set, hset⟩ : ∃ set, PolicySet.compile
      ([⟨"test/**", ["**"]⟩] ++ ⟨"src/**", ["src/**", "fs"]⟩ :: [⟨"**", ["lib/**"]⟩]) = .ok set :=
    ⟨_, rfl⟩
  have hplaces : importPlaces (set.checkFile "src/a.ts" imports).violations = [(1, 8), (3, 8)] := by
    have hvalue : ((PolicySet.compile
        ([⟨"test/**", ["**"]⟩] ++ ⟨"src/**", ["src/**", "fs"]⟩ ::
          [⟨"**", ["lib/**"]⟩])).toOption.map fun set =>
        importPlaces (set.checkFile "src/a.ts" imports).violations) = some [(1, 8), (3, 8)] := by
      decide +kernel
    rw [hset] at hvalue
    exact Option.some.inj hvalue
  have hother : set.position? "lib/b.ts" ≠ some 1 := by
    rw [position?_eq hset]
    decide +kernel
  have hpatterns : ∀ pattern ∈ ["fs", "lib/**", "src/**", "fs"], IsPattern pattern := by
    simp only [List.forall_mem_cons, List.not_mem_nil, false_implies, implies_true, and_true]
    exact ⟨⟨_, rfl⟩, ⟨_, rfl⟩, ⟨_, rfl⟩, ⟨_, rfl⟩⟩
  obtain ⟨edited, hedited, hfiles⟩ :=
    restrictions_are_alternatives hset hpatterns (by decide)
  refine ⟨set, edited, hset, hedited, hplaces, ?_, fun imports => ?_⟩
  · rw [← hplaces]
    exact (hfiles "src/a.ts" imports).1
  · exact (hfiles "lib/b.ts" imports).2.2.1 hother

end ImportLint.Proofs.RestrictionEdits
