import ImportLint.Proofs.PlainPatterns
import ImportLint.Proofs.PolicyCompilation
import ImportLint.Proofs.SpecifierResolution

/-!
Layers.  A policy that allows whole directories keeps relative imports inside of them: an import is
permitted exactly when its path descends from one of the directories.
-/

namespace ImportLint.Proofs.LayerContainment

open ImportLint.Path
open ImportLint.Proofs.PathWords
open ImportLint.Proofs.NormalForm
open ImportLint.Proofs.SpecifierResolution
open ImportLint.Proofs.PlainPatterns
open ImportLint.Proofs.PolicyCompilation

/-- A directory given by its names, none of which says anything special in a path or a glob. -/
structure Layer where
  names : List Segment
  ne_nil : names ≠ []
  isName : ∀ name ∈ names, name.isName
  slash_free : ∀ name ∈ names, '/' ∉ name
  plain : ∀ name ∈ names, ∀ c ∈ name, isPlain c

/-- The pattern that allows everything below a layer. -/
def Layer.pattern (layer : Layer) : String :=
  String.ofList (joinSlash layer.names ++ ['/', '*', '*'])

/-- The segments of a path begin with the names of a layer and go on. -/
def Layer.Contains (layer : Layer) (path : String) : Prop :=
  layer.names <+: splitSlash path.toList ∧ layer.names ≠ splitSlash path.toList

instance (layer : Layer) (path : String) : Decidable (layer.Contains path) :=
  inferInstanceAs (Decidable (_ ∧ _))

/-- The pattern of a layer is a glob, and it matches what the layer contains. -/
theorem Layer.compileGlob_pattern (layer : Layer) :
    ∃ glob, compileGlob layer.pattern = .ok glob ∧
      ∀ path, glob.isMatch path = true ↔ layer.Contains path := by
  have hplain : ∀ c ∈ joinSlash layer.names, isPlain c :=
    forall_mem_joinSlash (by decide) layer.plain
  obtain ⟨glob, hcompile, hmatch⟩ := compile_below .component hplain
  refine ⟨glob, ?_, ?_⟩
  · rw [compileGlob, Layer.pattern, hcompile]
  · intro path
    rw [hmatch, joinSlash_slash_prefix_iff layer.ne_nil layer.slash_free]
    rfl

theorem Layer.patternMatches_iff (layer : Layer) (path : String) :
    patternMatches layer.pattern path = true ↔ layer.Contains path := by
  obtain ⟨glob, hcompile, hmatch⟩ := layer.compileGlob_pattern
  rw [patternMatches, hcompile]
  exact hmatch path

theorem forall₂_patterns (layers : List Layer) :
    ∃ globs, List.Forall₂ (fun pattern glob => compileGlob pattern = .ok glob)
      (layers.map Layer.pattern) globs := by
  induction layers with
  | nil => exact ⟨[], .nil⟩
  | cons layer layers ih =>
      obtain ⟨glob, hglob, -⟩ := layer.compileGlob_pattern
      obtain ⟨globs, hglobs⟩ := ih
      exact ⟨glob :: globs, .cons hglob hglobs⟩

/-- Only its target can keep a policy of layers from being compiled. -/
theorem exists_compile_layers_iff {layers : List Layer} (hne : layers ≠ []) (index : Nat)
    (target : String) :
    (∃ policy, Policy.compile index ⟨target, layers.map Layer.pattern⟩ = .ok policy) ↔
      ∃ glob, compileGlob target = .ok glob := by
  constructor
  · rintro ⟨policy, hpolicy⟩
    exact ⟨policy.target, ((compile_eq_ok_iff _ _ _).mp hpolicy).target⟩
  · rintro ⟨glob, hglob⟩
    obtain ⟨globs, hglobs⟩ := forall₂_patterns layers
    refine ⟨⟨⟨target, layers.map Layer.pattern⟩, glob, globs⟩, ?_⟩
    exact (compile_eq_ok_iff _ _ _).mpr ⟨rfl, by simpa using hne, hglob, hglobs⟩

theorem allows_layers_iff (layers : List Layer) (target path : String) :
    allows ⟨target, layers.map Layer.pattern⟩ path = true ↔
      ∃ layer ∈ layers, layer.Contains path := by
  simp [allows, List.any_eq_true, Layer.patternMatches_iff]

theorem Layer.nil_not_mem (layer : Layer) : [] ∉ layer.names := by
  intro hempty
  exact absurd (layer.isName [] hempty) (by decide)

theorem Layer.here_not_mem (layer : Layer) : ['.'] ∉ layer.names := by
  intro hhere
  exact absurd (layer.isName ['.'] hhere) (by decide)

/-- An absolute path begins with an empty segment, which is no name. -/
theorem Layer.not_contains_of_isRooted (layer : Layer) {path : String}
    (h : isRooted path.toList = true) : ¬ layer.Contains path := by
  rintro ⟨hfront, -⟩
  obtain ⟨rest, hpath⟩ : ∃ rest, path.toList = '/' :: rest := by
    rw [isRooted, beq_iff_eq, List.head?_eq_some_iff] at h
    exact h
  obtain ⟨name, others, hnames⟩ := List.exists_cons_of_ne_nil layer.ne_nil
  rw [hpath, splitSlash_cons_slash, hnames, List.cons_prefix_cons] at hfront
  apply layer.nil_not_mem
  rw [hnames, hfront.1]
  exact List.mem_cons_self

/-- The text of a relative normal form is in a layer exactly when the normal form goes on from it. -/
theorem Layer.contains_iff_of_spells (layer : Layer) {word normal : List Segment} {path : String}
    (h : SpellsNormalForm false word normal path.toList) :
    layer.Contains path ↔ ∃ below, below ≠ [] ∧ layer.names ++ below = normal := by
  obtain ⟨name, others, hnames⟩ := List.exists_cons_of_ne_nil layer.ne_nil
  by_cases hnormal : normal = []
  · have hhere : splitSlash path.toList = [['.']] := by
      rw [h.empty hnormal]
      rfl
    constructor
    · rintro ⟨hfront, -⟩
      rw [hhere, hnames, List.cons_prefix_cons] at hfront
      have hmem : ['.'] ∈ layer.names := by
        rw [hnames, hfront.1]
        exact List.mem_cons_self
      exact absurd hmem layer.here_not_mem
    · rintro ⟨below, -, hbelow⟩
      rw [hnormal, hnames] at hbelow
      exact absurd hbelow (by simp)
  · have hsegments : splitSlash path.toList = normal := h.segments hnormal
    rw [Layer.Contains, hsegments]
    constructor
    · rintro ⟨⟨below, hbelow⟩, hproper⟩
      refine ⟨below, ?_, hbelow⟩
      rintro rfl
      exact hproper (by simpa using hbelow)
    · rintro ⟨below, hne, rfl⟩
      exact ⟨List.prefix_append _ _, by simpa using hne⟩

/-- A layer contains a path that a relative specifier resolves to exactly when the rules lead from the
joined path down into the layer. -/
theorem Layer.contains_resolve_iff (layer : Layer) (source : String) {specifier : String}
    (h : specifier.toList.head? = some '.') :
    layer.Contains (Specifier.resolve source specifier) ↔
      isRooted source.toList = false ∧
        ∃ below, below ≠ [] ∧ (∀ segment ∈ below, segment.isName) ∧
          Rewrites false (splitSlash (Specifier.joined source.toList specifier.toList))
            (layer.names ++ below) := by
  obtain ⟨normal, hspells⟩ := resolve_spells source h
  cases hrooted : isRooted source.toList with
  | true =>
      rw [hrooted] at hspells
      have hnot := layer.not_contains_of_isRooted hspells.rooted_iff
      simpa using hnot
  | false =>
      rw [hrooted] at hspells
      rw [layer.contains_iff_of_spells hspells]
      constructor
      · rintro ⟨below, hne, rfl⟩
        have hnormal := (isNormal_iff_irreducible _ _).mpr hspells.irreducible
        exact ⟨rfl, below, hne, isName_of_name_prefix hnormal layer.ne_nil layer.isName,
          hspells.reached⟩
      · rintro ⟨-, below, hne, hbelow, hrewrites⟩
        have hnormal : IsNormal false (layer.names ++ below) := by
          refine ⟨0, layer.names ++ below, rfl, ?_, by simp⟩
          intro segment hsegment
          rcases List.mem_append.mp hsegment with hsegment | hsegment
          · exact layer.isName segment hsegment
          · exact hbelow segment hsegment
        exact ⟨below, hne,
          hspells.unique _ hrewrites ((isNormal_iff_irreducible _ _).mp hnormal)⟩

/-- A policy of layers permits a relative import exactly when a layer contains what it resolves to,
which no way of writing the path can feign, and else it tells all of its patterns. -/
theorem evaluate_layers {layers : List Layer} (hne : layers ≠ []) (index : Nat) (target : String) :
    ((∃ policy, Policy.compile index ⟨target, layers.map Layer.pattern⟩ = .ok policy) ↔
      ∃ glob, compileGlob target = .ok glob) ∧
    ∀ policy, Policy.compile index ⟨target, layers.map Layer.pattern⟩ = .ok policy →
      ∀ ref : ImportRef, ref.specifier.toList.head? = some '.' →
        (policy.evaluate ref = .permitted ↔ ∃ layer ∈ layers, layer.Contains ref.resolved) ∧
        (policy.evaluate ref ≠ .permitted →
          policy.evaluate ref = .denied (layers.map Layer.pattern)) ∧
        ∀ layer ∈ layers, layer.Contains ref.resolved ↔
          isRooted ref.source.toList = false ∧
            ∃ below, below ≠ [] ∧ (∀ segment ∈ below, segment.isName) ∧
              Rewrites false (splitSlash (Specifier.joined ref.source.toList ref.specifier.toList))
                (layer.names ++ below) := by
  refine ⟨exists_compile_layers_iff hne index target, ?_⟩
  intro policy hpolicy ref href
  have hcompiled := (compile_eq_ok_iff _ _ _).mp hpolicy
  have hallows := allows_layers_iff layers target ref.resolved
  refine ⟨?_, ?_, fun layer _ => layer.contains_resolve_iff ref.source href⟩
  · rw [hcompiled.evaluate_eq, ← hallows]
    split <;> simp_all
  · intro hdenied
    rw [hcompiled.evaluate_eq] at hdenied ⊢
    split at hdenied
    · exact absurd rfl hdenied
    · next hallowed => rw [if_neg hallowed]

/-- The directory `src/browser`. -/
def browserLayer : Layer where
  names := ["src".toList, "browser".toList]
  ne_nil := by decide
  isName := by decide
  slash_free := by decide
  plain := by simp [isPlain]

theorem evaluate_layers_lookalike :
    ∃ policy, Policy.compile 0 ⟨"**", ["src/browser/**"]⟩ = .ok policy ∧
      policy.evaluate ⟨"../browser-x/a", "src/browser/a.ts", 1, 1⟩ = .denied ["src/browser/**"] ∧
      policy.evaluate ⟨"./../browser/.//a", "src/browser/a.ts", 2, 1⟩ = .permitted := by
  have hpattern : [browserLayer].map Layer.pattern = ["src/browser/**"] := by decide
  have hlayers := evaluate_layers (List.cons_ne_nil browserLayer []) 0 "**"
  obtain ⟨policy, hpolicy⟩ := hlayers.1.mpr ⟨_, rfl⟩
  have houtside := hlayers.2 policy hpolicy ⟨"../browser-x/a", "src/browser/a.ts", 1, 1⟩ (by decide)
  have hinside := hlayers.2 policy hpolicy ⟨"./../browser/.//a", "src/browser/a.ts", 2, 1⟩ (by decide)
  rw [hpattern] at hpolicy houtside
  exact ⟨policy, hpolicy, houtside.2.1 (mt houtside.1.mp (by decide)), hinside.1.mpr (by decide)⟩

end ImportLint.Proofs.LayerContainment
