import ImportLint.Policy
import Mathlib.Data.List.Forall2

/-!
Compiled policies against entries as written.  Compilation succeeds on a list exactly when it does on
every entry, and what a compiled policy answers can be read off the entry.
-/

namespace ImportLint.Proofs.PolicyCompilation

/-- Whether a path matches a pattern of a policy as written; what is no glob matches nothing. -/
def patternMatches (pattern path : String) : Bool :=
  match compileGlob pattern with
  | .ok glob => glob.isMatch path
  | .error _ => false

/-- Whether an entry as written speaks about a file. -/
def targets (entry : PolicyEntry) (file : String) : Bool :=
  patternMatches entry.target file

/-- Whether an entry as written allows a resolved path. -/
def allows (entry : PolicyEntry) (path : String) : Bool :=
  entry.restrictions.any fun pattern => patternMatches pattern path

/-- A policy that an entry compiles to, at whatever place. -/
structure Compiled (entry : PolicyEntry) (policy : Policy) : Prop where
  entry_eq : policy.entry = entry
  restrictions_ne_nil : entry.restrictions ≠ []
  target : compileGlob entry.target = .ok policy.target
  restrictions : List.Forall₂ (fun pattern glob => compileGlob pattern = .ok glob)
    entry.restrictions policy.restrictions

theorem compileGlobs_eq_ok_iff (patterns : List String) (globs : List Glob) :
    compileGlobs patterns = .ok globs ↔
      List.Forall₂ (fun pattern glob => compileGlob pattern = .ok glob) patterns globs := by
  induction patterns generalizing globs with
  | nil => simp [compileGlobs, eq_comm]
  | cons pattern patterns ih =>
      constructor
      · intro h
        rw [compileGlobs] at h
        split at h
        · cases h
        · next glob hglob =>
          split at h
          · cases h
          · next others hothers =>
            cases h
            exact .cons hglob ((ih others).mp hothers)
      · intro h
        cases h with
        | cons hglob hothers => rw [compileGlobs, hglob, (ih _).mpr hothers]

theorem compile_eq_ok_iff (index : Nat) (entry : PolicyEntry) (policy : Policy) :
    Policy.compile index entry = .ok policy ↔ Compiled entry policy := by
  rw [Policy.compile]
  constructor
  · intro h
    split at h
    · simp at h
    · next hne =>
      rcases htarget : compileGlob entry.target with cause | target
      · simp [htarget] at h
      · rcases hglobs : compileGlobs entry.restrictions with cause | globs
        · simp [htarget, hglobs] at h
        · obtain rfl : ⟨entry, target, globs⟩ = policy := by simpa [htarget, hglobs] using h
          exact ⟨rfl, hne, htarget, (compileGlobs_eq_ok_iff _ _).mp hglobs⟩
  · intro h
    rw [if_neg h.restrictions_ne_nil, h.target,
      (compileGlobs_eq_ok_iff _ _).mpr h.restrictions, ← h.entry_eq]

theorem Compiled.unique {entry : PolicyEntry} {policy other : Policy}
    (h : Compiled entry policy) (hother : Compiled entry other) : policy = other := by
  rw [← compile_eq_ok_iff 0] at h hother
  exact Except.ok.inj (h.symm.trans hother)

theorem compileFrom_eq_ok_iff (index : Nat) (entries : List PolicyEntry)
    (policies : List Policy) :
    PolicySet.compileFrom index entries = .ok policies ↔
      List.Forall₂ Compiled entries policies := by
  induction entries generalizing index policies with
  | nil => simp [PolicySet.compileFrom, eq_comm]
  | cons entry entries ih =>
      constructor
      · intro h
        rw [PolicySet.compileFrom] at h
        split at h
        · cases h
        · next policy hpolicy =>
          split at h
          · cases h
          · next others hothers =>
            cases h
            exact .cons ((compile_eq_ok_iff index entry policy).mp hpolicy)
              ((ih (index + 1) others).mp hothers)
      · intro h
        cases h with
        | cons hcompiled hothers =>
            rw [PolicySet.compileFrom, (compile_eq_ok_iff index entry _).mpr hcompiled,
              (ih (index + 1) _).mpr hothers]

theorem policySet_compile_eq_ok_iff (entries : List PolicyEntry) (set : PolicySet) :
    PolicySet.compile entries = .ok set ↔ List.Forall₂ Compiled entries set.policies := by
  rw [← compileFrom_eq_ok_iff 0, PolicySet.compile]
  rcases PolicySet.compileFrom 0 entries with cause | policies
  · simp
  · constructor
    · intro h
      obtain rfl : ⟨policies⟩ = set := by simpa using h
      rfl
    · intro h
      obtain rfl : policies = set.policies := by simpa using h
      rfl

/-- A list compiles exactly when each of its entries does. -/
theorem exists_compile_entries_iff (entries : List PolicyEntry) :
    (∃ set, PolicySet.compile entries = .ok set) ↔
      ∀ entry ∈ entries, ∃ policy, Compiled entry policy := by
  simp only [policySet_compile_eq_ok_iff]
  induction entries with
  | nil => exact iff_of_true ⟨⟨[]⟩, .nil⟩ (by simp)
  | cons entry entries ih =>
      rw [List.forall_mem_cons, ← ih]
      constructor
      · rintro ⟨⟨policies⟩, h⟩
        cases h with
        | cons hcompiled hrest => exact ⟨⟨_, hcompiled⟩, ⟨_⟩, hrest⟩
      · rintro ⟨⟨policy, hcompiled⟩, ⟨policies⟩, hrest⟩
        exact ⟨⟨policy :: policies⟩, .cons hcompiled hrest⟩

theorem mem_globs {patterns : List String} {globs : List Glob}
    (h : List.Forall₂ (fun pattern glob => compileGlob pattern = .ok glob) patterns globs)
    {pattern : String} (hmem : pattern ∈ patterns) {glob : Glob}
    (hglob : compileGlob pattern = .ok glob) : glob ∈ globs := by
  induction h with
  | nil => simp at hmem
  | cons hfirst _ ih =>
      rcases List.mem_cons.mp hmem with rfl | hmem
      · obtain rfl := Except.ok.inj (hglob.symm.trans hfirst)
        simp
      · exact List.mem_cons_of_mem _ (ih hmem)

theorem any_isMatch_eq {patterns : List String} {globs : List Glob}
    (h : List.Forall₂ (fun pattern glob => compileGlob pattern = .ok glob) patterns globs)
    (path : String) :
    globs.any (·.isMatch path) = patterns.any fun pattern => patternMatches pattern path := by
  induction h with
  | nil => rfl
  | cons hglob _ ih => simp [patternMatches, hglob, ih]

variable {entry : PolicyEntry} {policy : Policy}

theorem Compiled.target_eq (h : Compiled entry policy) {glob : Glob}
    (hglob : compileGlob entry.target = .ok glob) : policy.target = glob :=
  Except.ok.inj (h.target.symm.trans hglob)

theorem Compiled.mem_restrictions (h : Compiled entry policy) {pattern : String}
    (hmem : pattern ∈ entry.restrictions) {glob : Glob} (hglob : compileGlob pattern = .ok glob) :
    glob ∈ policy.restrictions :=
  mem_globs h.restrictions hmem hglob

theorem Compiled.governs_eq (h : Compiled entry policy) (file : String) :
    policy.governs file = targets entry file := by
  simp [Policy.governs, targets, patternMatches, h.target]

theorem Compiled.permits_eq (h : Compiled entry policy) (path : String) :
    policy.permits path = allows entry path :=
  any_isMatch_eq h.restrictions path

theorem Compiled.evaluate_eq (h : Compiled entry policy) (ref : ImportRef) :
    policy.evaluate ref =
      if allows entry ref.resolved then .permitted else .denied entry.restrictions := by
  rw [Policy.evaluate, h.permits_eq, h.entry_eq]

theorem Compiled.finding?_eq (h : Compiled entry policy) (file : String) (ref : ImportRef) :
    policy.finding? file ref =
      if allows entry ref.resolved then none
      else some (.badImport ⟨file, ref.line, ref.column⟩ entry.restrictions) := by
  rw [Policy.finding?, h.evaluate_eq]
  by_cases hallows : allows entry ref.resolved = true
  · simp [hallows]
  · simp [hallows]

theorem find?_rel {entries : List PolicyEntry} {policies : List Policy}
    (h : List.Forall₂ Compiled entries policies) (file : String) :
    Option.Rel Compiled (entries.find? fun entry => targets entry file)
      (policies.find? (·.governs file)) := by
  induction h with
  | nil => exact .none
  | cons hcompiled _ ih =>
      rw [List.find?_cons, List.find?_cons, hcompiled.governs_eq]
      split
      · exact .some hcompiled
      · exact ih

theorem findIdx?_eq {entries : List PolicyEntry} {policies : List Policy}
    (h : List.Forall₂ Compiled entries policies) (file : String) :
    policies.findIdx? (·.governs file) = entries.findIdx? fun entry => targets entry file := by
  induction h with
  | nil => rfl
  | cons hcompiled _ ih => rw [List.findIdx?_cons, List.findIdx?_cons, hcompiled.governs_eq, ih]

/-- The governing policy comes from the first entry that speaks about the file. -/
theorem select?_rel {entries : List PolicyEntry} {set : PolicySet}
    (h : PolicySet.compile entries = .ok set) (file : String) :
    Option.Rel Compiled (entries.find? fun entry => targets entry file) (set.select? file) :=
  find?_rel ((policySet_compile_eq_ok_iff entries set).mp h) file

end ImportLint.Proofs.PolicyCompilation
