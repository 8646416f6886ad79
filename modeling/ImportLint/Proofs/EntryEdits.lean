import ImportLint.Proofs.PolicyCompilation

/-!
Edits of a list of entries.  Which entry judges a file is settled by the first one that speaks about the
file, so that a list falls apart into its front and its back, and an edit is felt only by the files that
an edited entry speaks about before any other.
-/

namespace ImportLint.Proofs.EntryEdits

open ImportLint.Proofs.PolicyCompilation

section Governing

variable {entries others : List PolicyEntry} {set other : PolicySet} {file : String}

theorem position?_eq (h : PolicySet.compile entries = .ok set) (file : String) :
    set.position? file = entries.findIdx? fun entry => targets entry file :=
  findIdx?_eq ((policySet_compile_eq_ok_iff entries set).mp h) file

theorem isSome_position? (set : PolicySet) (file : String) :
    (set.position? file).isSome = (set.select? file).isSome := by
  rw [PolicySet.position?, PolicySet.select?, List.findIdx?_isSome, List.isSome_find?]

/-- Two sets choose the same policy for a file if the first entry about it is the same. -/
theorem select?_congr (h : PolicySet.compile entries = .ok set)
    (hother : PolicySet.compile others = .ok other)
    (hfind : (entries.find? fun entry => targets entry file) =
      others.find? fun entry => targets entry file) :
    set.select? file = other.select? file := by
  have hselect := select?_rel h file
  have hselect' := select?_rel hother file
  rw [hfind] at hselect
  generalize (others.find? fun entry => targets entry file) = chosen at hselect hselect'
  generalize set.select? file = policy at hselect ⊢
  generalize other.select? file = policy' at hselect' ⊢
  cases hselect with
  | none =>
      cases hselect'
      rfl
  | some hcompiled =>
      cases hselect' with
      | some hcompiled' => rw [hcompiled.unique hcompiled']

/-- The chosen policy is all that a check of a file depends on. -/
theorem checkFile_congr (h : set.select? file = other.select? file) (imports : List ImportRef) :
    set.checkFile file imports = other.checkFile file imports := by
  rw [PolicySet.checkFile, PolicySet.checkFile, h]

end Governing

section Edits

variable {α : Type} {p : α → Bool} {front back : List α} {item other : α}

/-- Behind an item that is found, or without being found itself, an item makes no difference. -/
theorem find?_insert (h : p item = true → ∃ earlier ∈ front, p earlier = true) :
    (front ++ item :: back).find? p = (front ++ back).find? p := by
  rw [List.find?_append, List.find?_append]
  cases hfront : front.find? p with
  | some earlier => rfl
  | none =>
      have hitem : ¬ p item = true := by
        intro hitem
        obtain ⟨earlier, hmem, hearlier⟩ := h hitem
        exact List.find?_eq_none.mp hfront earlier hmem hearlier
      rw [List.find?_cons_of_neg hitem]

theorem find?_exchange (h : ¬ (p item = true ∧ p other = true)) :
    (front ++ item :: other :: back).find? p = (front ++ other :: item :: back).find? p := by
  rw [List.find?_append, List.find?_append]
  congr 1
  by_cases hitem : p item = true
  · have hother : ¬ p other = true := fun hother => h ⟨hitem, hother⟩
    rw [List.find?_cons_of_pos hitem, List.find?_cons_of_neg hother, List.find?_cons_of_pos hitem]
  · by_cases hother : p other = true
    · rw [List.find?_cons_of_neg hitem, List.find?_cons_of_pos hother,
        List.find?_cons_of_pos hother]
    · rw [List.find?_cons_of_neg hitem, List.find?_cons_of_neg hother,
        List.find?_cons_of_neg hother, List.find?_cons_of_neg hitem]

theorem findIdx?_ne_of_earlier (h : p item = true → ∃ earlier ∈ front, p earlier = true) :
    (front ++ item :: back).findIdx? p ≠ some front.length := by
  intro hindex
  obtain ⟨hbound, hitem, hbefore⟩ := List.findIdx?_eq_some_iff_getElem.mp hindex
  obtain ⟨earlier, hmem, hearlier⟩ := h (by simpa using hitem)
  obtain ⟨index, hlength, rfl⟩ := List.mem_iff_getElem.mp hmem
  have hnot := hbefore index hlength
  rw [List.getElem_append_left hlength] at hnot
  exact hnot hearlier

end Edits

/-- A list is decided by its front for the files that the front speaks about, and by its back for all
others.  So an entry that is put in changes nothing for a file unless it is the first to speak about
it, one with the target of an earlier entry never is, and two neighbours can change places for all files
but those that both speak about. -/
theorem first_entry_decides {front back : List PolicyEntry} {first second : PolicySet}
    (hfront : PolicySet.compile front = .ok first)
    (hback : PolicySet.compile back = .ok second) :
    ∃ whole, PolicySet.compile (front ++ back) = .ok whole ∧
      (∀ file, whole.position? file =
        match first.position? file with
        | some index => some index
        | none => (second.position? file).map (first.size + ·)) ∧
      (∀ file imports, whole.checkFile file imports =
        if (first.position? file).isSome then first.checkFile file imports
        else second.checkFile file imports) ∧
      (∀ entry inserted, PolicySet.compile (front ++ entry :: back) = .ok inserted →
        (∀ file, (targets entry file = true → ∃ earlier ∈ front, targets earlier file = true) →
          inserted.select? file = whole.select? file ∧
          ∀ imports, inserted.checkFile file imports = whole.checkFile file imports) ∧
        ((∃ earlier ∈ front, earlier.target = entry.target) →
          ∀ file, inserted.position? file ≠ some first.size)) ∧
      ∀ entry other set, PolicySet.compile (front ++ entry :: other :: back) = .ok set →
        ∃ exchanged, PolicySet.compile (front ++ other :: entry :: back) = .ok exchanged ∧
          ∀ file, ¬ (targets entry file = true ∧ targets other file = true) →
            exchanged.select? file = set.select? file ∧
            ∀ imports, exchanged.checkFile file imports = set.checkFile file imports := by
  have hcompiled := (policySet_compile_eq_ok_iff front first).mp hfront
  have hwhole : PolicySet.compile (front ++ back) = .ok ⟨first.policies ++ second.policies⟩ := by
    apply (policySet_compile_eq_ok_iff _ _).mpr
    exact List.rel_append hcompiled ((policySet_compile_eq_ok_iff back second).mp hback)
  have hsize : first.size = front.length := hcompiled.length_eq.symm
  refine ⟨_, hwhole, ?_, ?_, ?_, ?_⟩
  · intro file
    rw [PolicySet.position?, List.findIdx?_append]
    show Option.or (first.position? file) _ = _
    cases first.position? file with
    | some index => rfl
    | none =>
        show Option.map (· + first.size) (second.position? file) = _
        simp only [Nat.add_comm]
  · intro file imports
    have hselect : PolicySet.select? ⟨first.policies ++ second.policies⟩ file =
        (first.select? file).or (second.select? file) := List.find?_append
    rw [isSome_position?]
    cases hfirst : first.select? file with
    | some policy => exact checkFile_congr (by rw [hselect, hfirst]; rfl) imports
    | none => exact checkFile_congr (by rw [hselect, hfirst]; rfl) imports
  · intro entry inserted hinserted
    constructor
    · intro file h
      have hselect := select?_congr hinserted hwhole (find?_insert h)
      exact ⟨hselect, checkFile_congr hselect⟩
    · rintro ⟨earlier, hmem, htarget⟩ file
      rw [position?_eq hinserted, hsize]
      apply findIdx?_ne_of_earlier
      intro hentry
      refine ⟨earlier, hmem, ?_⟩
      rwa [targets, htarget]
  · intro entry other set hset
    obtain ⟨exchanged, hexchanged⟩ :
        ∃ exchanged, PolicySet.compile (front ++ other :: entry :: back) = .ok exchanged := by
      rw [exists_compile_entries_iff]
      have hall := (exists_compile_entries_iff _).mp ⟨set, hset⟩
      intro item hitem
      apply hall
      simp only [List.mem_append, List.mem_cons] at hitem ⊢
      tauto
    refine ⟨exchanged, hexchanged, fun file h => ?_⟩
    have hselect := select?_congr hexchanged hset (find?_exchange fun hboth => h hboth.symm)
    exact ⟨hselect, checkFile_congr hselect⟩

theorem first_entry_decides_repeated_target :
    ∃ whole inserted,
      PolicySet.compile [⟨"src/**", ["src/common/**"]⟩, ⟨"lib/**", ["**"]⟩] = .ok whole ∧
      PolicySet.compile
        [⟨"src/**", ["src/common/**"]⟩, ⟨"src/**", ["src/**"]⟩, ⟨"lib/**", ["**"]⟩] =
          .ok inserted ∧
      whole.position? "src/a.ts" = some 0 ∧ whole.position? "lib/a.ts" = some 1 ∧
      inserted.position? "src/a.ts" ≠ some 1 ∧
      ∀ imports, inserted.checkFile "src/a.ts" imports = whole.checkFile "src/a.ts" imports := by
  obtain ⟨first, hfirst⟩ :
      ∃ first, PolicySet.compile [⟨"src/**", ["src/common/**"]⟩] = .ok first := ⟨_, rfl⟩
  obtain ⟨second, hsecond⟩ :
      ∃ second, PolicySet.compile [⟨"lib/**", ["**"]⟩] = .ok second := ⟨_, rfl⟩
  obtain ⟨inserted, hinserted⟩ : ∃ inserted, PolicySet.compile
      ([⟨"src/**", ["src/common/**"]⟩] ++ ⟨"src/**", ["src/**"]⟩ :: [⟨"lib/**", ["**"]⟩]) =
        .ok inserted := ⟨_, rfl⟩
  have hsource : first.position? "src/a.ts" = some 0 := by
    rw [position?_eq hfirst]
    decide +kernel
  have hlibrary : first.position? "lib/a.ts" = none := by
    rw [position?_eq hfirst]
    decide +kernel
  have hlibrary' : second.position? "lib/a.ts" = some 0 := by
    rw [position?_eq hsecond]
    decide +kernel
  have hsize : first.size = 1 := ((policySet_compile_eq_ok_iff _ _).mp hfirst).length_eq.symm
  have htargets : targets ⟨"src/**", ["src/common/**"]⟩ "src/a.ts" = true := by decide +kernel
  obtain ⟨whole, hwhole, hposition, -, hinsert, -⟩ := first_entry_decides hfirst hsecond
  obtain ⟨hsame, hnever⟩ := hinsert _ inserted hinserted
  refine ⟨whole, inserted, hwhole, hinserted, ?_, ?_, ?_, ?_⟩
  · rw [hposition, hsource]
  · rw [hposition, hlibrary, hlibrary', hsize]
    rfl
  · rw [← hsize]
    exact hnever ⟨_, List.mem_singleton_self _, rfl⟩ "src/a.ts"
  · exact (hsame "src/a.ts" fun _ => ⟨_, List.mem_singleton_self _, htargets⟩).2

end ImportLint.Proofs.EntryEdits
