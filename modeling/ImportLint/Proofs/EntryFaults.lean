import ImportLint.Proofs.FailurePrecedence

/-!
Faults of entries.  A list of entries compiles when nothing is wrong with any of them, and otherwise it
fails with what is wrong with the first one at fault.
-/

namespace ImportLint.Proofs.EntryFaults

open ImportLint.Proofs.PolicyCompilation
open ImportLint.Proofs.FailurePrecedence

variable {pattern : String} {patterns : List String} {index : Nat} {entry : PolicyEntry}
  {entries : List PolicyEntry} {cause : PolicyError}

/-- A pattern that can be read. -/
def IsPattern (pattern : String) : Prop :=
  ∃ tokens, Glob.parse false pattern.toList = .ok tokens

/-- An entry that allows something and all of whose patterns can be read. -/
structure IsSound (entry : PolicyEntry) : Prop where
  restrictions_ne_nil : entry.restrictions ≠ []
  target : IsPattern entry.target
  restrictions : ∀ pattern ∈ entry.restrictions, IsPattern pattern

/-- The failure with a pattern that has a fault. -/
inductive PatternFault (pattern : String) : PolicyError → Prop
  | mk {fault : Glob.Fault} (hparse : Glob.parse false pattern.toList = .error fault) :
      PatternFault pattern (.invalidGlob ⟨pattern, fault⟩)

/-- What is wrong with the entry at a place: that it allows nothing before anything else, then its
target, then the first of its restrictions that cannot be read. -/
inductive EntryFault (index : Nat) (entry : PolicyEntry) : PolicyError → Prop
  | empty (hempty : entry.restrictions = []) :
      EntryFault index entry (.emptyRestrictions index entry.target)
  | target {cause : PolicyError} (hsome : entry.restrictions ≠ [])
      (hfault : PatternFault entry.target cause) : EntryFault index entry cause
  | restriction {before : List String} {pattern : String} {cause : PolicyError}
      (htarget : IsPattern entry.target)
      (hfirst : StopsAt IsPattern entry.restrictions before pattern)
      (hfault : PatternFault pattern cause) : EntryFault index entry cause

/-- A failure of a list when `offset` entries are put in front of it. -/
def shifted (offset : Nat) : PolicyError → PolicyError
  | .invalidGlob cause => .invalidGlob cause
  | .emptyRestrictions index target => .emptyRestrictions (offset + index) target

theorem exists_compileGlob_iff (pattern : String) :
    (∃ glob, compileGlob pattern = .ok glob) ↔ IsPattern pattern := by
  rw [compileGlob, Glob.compile, IsPattern]
  cases Glob.parse false pattern.toList <;> simp

theorem compileGlob_eq_error_iff :
    compileGlob pattern = .error cause ↔ PatternFault pattern cause := by
  rw [compileGlob, Glob.compile]
  constructor
  · intro h
    cases hparse : Glob.parse false pattern.toList with
    | ok tokens => simp [hparse] at h
    | error fault =>
        obtain rfl : PolicyError.invalidGlob ⟨pattern, fault⟩ = cause := by simpa [hparse] using h
        exact .mk hparse
  · rintro ⟨hparse⟩
    rw [hparse]

theorem PatternFault.not_isPattern (h : PatternFault pattern cause) : ¬ IsPattern pattern := by
  rintro ⟨tokens, htokens⟩
  obtain ⟨hparse⟩ := h
  rw [hparse] at htokens
  cases htokens

theorem exists_compileGlobs_iff (patterns : List String) :
    (∃ globs, compileGlobs patterns = .ok globs) ↔ ∀ pattern ∈ patterns, IsPattern pattern := by
  induction patterns with
  | nil => simp [compileGlobs]
  | cons pattern patterns ih =>
      rw [List.forall_mem_cons, ← ih, ← exists_compileGlob_iff, compileGlobs]
      rcases compileGlob pattern with cause | glob
      · simp
      · rcases compileGlobs patterns with cause | globs
        · simp
        · simp

theorem PatternFault.unique {other : PolicyError} (h : PatternFault pattern cause)
    (hother : PatternFault pattern other) : cause = other := by
  rw [← compileGlob_eq_error_iff] at h hother
  exact Except.error.inj (h.symm.trans hother)

theorem exists_stopsAt_of_compileGlobs (h : compileGlobs patterns = .error cause) :
    ∃ before pattern, StopsAt IsPattern patterns before pattern ∧ PatternFault pattern cause := by
  refine exists_stopsAt IsPattern (fun _ pattern cause => PatternFault pattern cause)
    (fun _ => compileGlobs) (by simp [compileGlobs]) ?_ 0 h
  intro _ pattern patterns cause herror
  rw [compileGlobs] at herror
  cases hglob : compileGlob pattern with
  | error first =>
      have hfault := compileGlob_eq_error_iff.mp hglob
      obtain rfl : first = cause := by simpa [hglob] using herror
      exact .inl ⟨hfault.not_isPattern, hfault⟩
  | ok glob =>
      refine .inr ⟨(exists_compileGlob_iff pattern).mp ⟨glob, hglob⟩, ?_⟩
      cases hrest : compileGlobs patterns <;> simp_all

theorem compileGlobs_eq_error_iff :
    compileGlobs patterns = .error cause ↔
      ∃ before pattern, StopsAt IsPattern patterns before pattern ∧ PatternFault pattern cause := by
  refine ⟨exists_stopsAt_of_compileGlobs, ?_⟩
  rintro ⟨before, pattern, hfirst, hfault⟩
  cases hglobs : compileGlobs patterns with
  | ok globs =>
      have hall := (exists_compileGlobs_iff patterns).mp ⟨globs, hglobs⟩
      exact absurd (hall pattern hfirst.mem) hfirst.not_fine
  | error other =>
      obtain ⟨_, _, hfirst', hfault'⟩ := exists_stopsAt_of_compileGlobs hglobs
      obtain ⟨rfl, rfl⟩ := hfirst.unique hfirst'
      rw [hfault.unique hfault']

theorem compiles_iff_isSound (entry : PolicyEntry) : Compiles entry ↔ IsSound entry := by
  constructor
  · rintro ⟨policy, h⟩
    refine ⟨h.restrictions_ne_nil, (exists_compileGlob_iff _).mp ⟨_, h.target⟩, ?_⟩
    apply (exists_compileGlobs_iff _).mp
    exact ⟨_, (compileGlobs_eq_ok_iff _ _).mpr h.restrictions⟩
  · rintro ⟨hne, htarget, hrestrictions⟩
    obtain ⟨target, htarget⟩ := (exists_compileGlob_iff _).mpr htarget
    obtain ⟨globs, hglobs⟩ := (exists_compileGlobs_iff _).mpr hrestrictions
    exact ⟨⟨entry, target, globs⟩, rfl, hne, htarget, (compileGlobs_eq_ok_iff _ _).mp hglobs⟩

theorem compile_eq_error_iff :
    Policy.compile index entry = .error cause ↔ EntryFault index entry cause := by
  rw [Policy.compile]
  constructor
  · intro h
    split at h
    · next hempty =>
      cases h
      exact .empty hempty
    · next hsome =>
      cases htarget : compileGlob entry.target with
      | error first =>
          obtain rfl : first = cause := by simpa [htarget] using h
          exact .target hsome (compileGlob_eq_error_iff.mp htarget)
      | ok target =>
          cases hglobs : compileGlobs entry.restrictions with
          | error first =>
              obtain rfl : first = cause := by simpa [htarget, hglobs] using h
              obtain ⟨_, _, hfirst, hfault⟩ := exists_stopsAt_of_compileGlobs hglobs
              exact .restriction ((exists_compileGlob_iff _).mp ⟨target, htarget⟩) hfirst hfault
          | ok globs => simp [htarget, hglobs] at h
  · intro h
    cases h with
    | empty hempty => rw [if_pos hempty]
    | target hsome hfault => rw [if_neg hsome, compileGlob_eq_error_iff.mpr hfault]
    | restriction htarget hfirst hfault =>
        obtain ⟨target, htarget⟩ := (exists_compileGlob_iff _).mpr htarget
        have hsome : entry.restrictions ≠ [] := List.ne_nil_of_mem hfirst.mem
        have hglobs := compileGlobs_eq_error_iff.mpr ⟨_, _, hfirst, hfault⟩
        rw [if_neg hsome, htarget, hglobs]

/-- What is wrong with an entry depends on its place only as far as the place is reported. -/
theorem EntryFault.shift (h : EntryFault index entry cause) (offset : Nat) :
    EntryFault (offset + index) entry (shifted offset cause) := by
  cases h with
  | empty hempty => exact .empty hempty
  | target hsome hfault =>
      obtain ⟨hparse⟩ := hfault
      exact .target hsome ⟨hparse⟩
  | restriction htarget hfirst hfault =>
      obtain ⟨hparse⟩ := hfault
      exact .restriction htarget hfirst ⟨hparse⟩

theorem exists_compile_iff_isSound (entries : List PolicyEntry) :
    (∃ set, PolicySet.compile entries = .ok set) ↔ ∀ entry ∈ entries, IsSound entry := by
  simp only [exists_compile_entries_iff, ← compiles_iff_isSound]
  rfl

theorem exists_stopsAt_of_compile (h : PolicySet.compile entries = .error cause) :
    ∃ before entry, StopsAt IsSound entries before entry ∧
      EntryFault before.length entry cause := by
  have hsound : Compiles = IsSound := funext fun entry => propext (compiles_iff_isSound entry)
  obtain ⟨before, entry, hfirst, hcause⟩ := compile_error h
  exact ⟨before, entry, hsound ▸ hfirst, compile_eq_error_iff.mp hcause⟩

theorem compile_entries_eq_error_iff :
    PolicySet.compile entries = .error cause ↔
      ∃ before entry, StopsAt IsSound entries before entry ∧
        EntryFault before.length entry cause := by
  refine ⟨exists_stopsAt_of_compile, ?_⟩
  rintro ⟨before, entry, hfirst, hfault⟩
  cases hset : PolicySet.compile entries with
  | ok set =>
      have hall := (exists_compile_iff_isSound entries).mp ⟨set, hset⟩
      exact absurd (hall entry hfirst.mem) hfirst.not_fine
  | error other =>
      obtain ⟨_, _, hfirst', hfault'⟩ := exists_stopsAt_of_compile hset
      obtain ⟨rfl, rfl⟩ := hfirst.unique hfirst'
      rw [← compile_eq_error_iff] at hfault hfault'
      rw [Except.error.inj (hfault'.symm.trans hfault)]

theorem size_entries_of_compile {set : PolicySet} (h : PolicySet.compile entries = .ok set) :
    set.size = entries.length ∧ set.entries = entries := by
  have hcompiled := (policySet_compile_eq_ok_iff entries set).mp h
  refine ⟨hcompiled.length_eq.symm, ?_⟩
  have hequal : List.Forall₂ (· = ·) (set.policies.map (·.entry)) entries := by
    apply List.forall₂_map_left_iff.mpr
    exact hcompiled.flip.imp fun policy entry hentry => hentry.entry_eq
  rwa [List.forall₂_eq_eq_eq] at hequal

/-- A list of entries compiles when nothing is wrong with any of them, to one policy for each of them
and in their order; otherwise it fails with what is wrong with the first one at fault, and entries
behind that one make no difference. -/
theorem compile_stops_at_first_fault (entries : List PolicyEntry) :
    ((∃ set, PolicySet.compile entries = .ok set) ↔ ∀ entry ∈ entries, IsSound entry) ∧
    (∀ set, PolicySet.compile entries = .ok set →
      set.size = entries.length ∧ set.entries = entries) ∧
    (∀ cause, PolicySet.compile entries = .error cause ↔
      ∃ before entry, StopsAt IsSound entries before entry ∧
        EntryFault before.length entry cause) ∧
    (∀ later cause, PolicySet.compile entries = .error cause →
      PolicySet.compile (entries ++ later) = .error cause) ∧
    (∀ later set cause, PolicySet.compile entries = .ok set →
      PolicySet.compile later = .error cause →
      PolicySet.compile (entries ++ later) = .error (shifted entries.length cause)) ∧
    ∀ config : Config, config.policies = entries →
      (config.policySet = .error .noPolicies ↔ entries = []) ∧
      (entries ≠ [] →
        config.policySet = (PolicySet.compile entries).mapError ConfigError.policy) := by
  refine ⟨exists_compile_iff_isSound entries, fun set => size_entries_of_compile,
    fun cause => compile_entries_eq_error_iff, ?_, ?_, ?_⟩
  · intro later cause h
    obtain ⟨before, entry, ⟨⟨after, rfl⟩, hbefore, hentry⟩, hfault⟩ :=
      compile_entries_eq_error_iff.mp h
    apply compile_entries_eq_error_iff.mpr
    exact ⟨before, entry, ⟨⟨after ++ later, by simp⟩, hbefore, hentry⟩, hfault⟩
  · intro later set cause hset h
    have hsound := (exists_compile_iff_isSound entries).mp ⟨set, hset⟩
    obtain ⟨before, entry, ⟨⟨after, rfl⟩, hbefore, hentry⟩, hfault⟩ :=
      compile_entries_eq_error_iff.mp h
    apply compile_entries_eq_error_iff.mpr
    refine ⟨entries ++ before, entry, ⟨⟨after, by simp⟩, ?_, hentry⟩, ?_⟩
    · exact List.forall_mem_append.mpr ⟨hsound, hbefore⟩
    · rw [List.length_append]
      exact hfault.shift entries.length
  · rintro config rfl
    rw [Config.policySet]
    constructor
    · split
      · next hnone => simp [hnone]
      · next hsome => cases PolicySet.compile config.policies <;> simp [hsome]
    · intro hsome
      rw [if_neg hsome]
      cases PolicySet.compile config.policies <;> rfl

theorem compile_stops_at_first_fault_of_three :
    PolicySet.compile [⟨"**", ["lib/**"]⟩, ⟨"[a", []⟩, ⟨"[b", ["c", "[d"]⟩] =
      .error (.emptyRestrictions 1 "[a") ∧
    PolicySet.compile [⟨"**", ["lib/**"]⟩, ⟨"b", ["c", "[d", "[z-a]"]⟩, ⟨"[a", []⟩] =
      .error (.invalidGlob ⟨"[d", .unclosedClass⟩) := by
  have hall : IsSound ⟨"**", ["lib/**"]⟩ :=
    ⟨by simp, ⟨_, rfl⟩, List.forall_mem_singleton.mpr ⟨_, rfl⟩⟩
  obtain ⟨-, -, hempty, -⟩ :=
    compile_stops_at_first_fault [⟨"**", ["lib/**"]⟩, ⟨"[a", []⟩, ⟨"[b", ["c", "[d"]⟩]
  obtain ⟨-, -, hglob, -⟩ :=
    compile_stops_at_first_fault [⟨"**", ["lib/**"]⟩, ⟨"b", ["c", "[d", "[z-a]"]⟩, ⟨"[a", []⟩]
  have hnone : EntryFault 1 ⟨"[a", []⟩ (.emptyRestrictions 1 "[a") := .empty rfl
  have hclass : PatternFault "[d" (.invalidGlob ⟨"[d", .unclosedClass⟩) := ⟨rfl⟩
  have hfault : EntryFault 1 ⟨"b", ["c", "[d", "[z-a]"]⟩ (.invalidGlob ⟨"[d", .unclosedClass⟩) :=
    .restriction ⟨_, rfl⟩ (.later ⟨_, rfl⟩ (.here hclass.not_isPattern)) hclass
  have hnotEmpty : ¬ IsSound ⟨"[a", []⟩ := fun h => h.restrictions_ne_nil rfl
  have hnotGlob : ¬ IsSound ⟨"b", ["c", "[d", "[z-a]"]⟩ :=
    fun h => hclass.not_isPattern (h.restrictions "[d" (by simp))
  exact ⟨(hempty _).mpr ⟨_, _, .later hall (.here hnotEmpty), hnone⟩,
    (hglob _).mpr ⟨_, _, .later hall (.here hnotGlob), hfault⟩⟩

end ImportLint.Proofs.EntryFaults
