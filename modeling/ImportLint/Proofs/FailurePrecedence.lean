import ImportLint.Proofs.CheckOutcome
import ImportLint.Proofs.UnreadFiles

/-!
Precedence of failures.  Several things can be wrong with a check at once; each belongs to a stage, and
the check fails with what is wrong at the earliest one.
-/

namespace ImportLint.Proofs.FailurePrecedence

open ImportLint.Path
open ImportLint.Command
open ImportLint.Proofs.WalkPaths
open ImportLint.Proofs.DiscoveredPaths
open ImportLint.Proofs.PolicyCompilation
open ImportLint.Proofs.ExcludeGlobs
open ImportLint.Proofs.DiscoveredFiles
open ImportLint.Proofs.CheckOutcome
open ImportLint.Proofs.UnreadFiles

section StopsAt

variable {α : Type} {fine : α → Prop} {items before before' : List α} {item item' : α}

/-- An item is the first of a list that is not fine. -/
structure StopsAt (fine : α → Prop) (items before : List α) (item : α) : Prop where
  split : ∃ after, items = before ++ item :: after
  fine_before : ∀ earlier ∈ before, fine earlier
  not_fine : ¬ fine item

theorem StopsAt.here (h : ¬ fine item) : StopsAt fine (item :: items) [] item :=
  ⟨⟨items, rfl⟩, by simp, h⟩

theorem StopsAt.later {first : α} (hfirst : fine first) (h : StopsAt fine items before item) :
    StopsAt fine (first :: items) (first :: before) item := by
  obtain ⟨⟨after, rfl⟩, hbefore, hitem⟩ := h
  exact ⟨⟨after, rfl⟩, by simpa [hfirst] using hbefore, hitem⟩

theorem StopsAt.mem (h : StopsAt fine items before item) : item ∈ items := by
  obtain ⟨⟨after, rfl⟩, -, -⟩ := h
  simp

theorem StopsAt.unique (h : StopsAt fine items before item)
    (h' : StopsAt fine items before' item') : before = before' ∧ item = item' := by
  induction before generalizing items before' with
  | nil =>
      obtain ⟨⟨after, rfl⟩, -, hitem⟩ := h
      obtain ⟨⟨after', heq⟩, hbefore', -⟩ := h'
      cases before' with
      | nil => exact ⟨rfl, (List.cons.inj heq).1⟩
      | cons first _ =>
          obtain rfl : item = first := (List.cons.inj heq).1
          exact absurd (hbefore' item (by simp)) hitem
  | cons first before ih =>
      obtain ⟨⟨after, rfl⟩, hbefore, hitem⟩ := h
      obtain ⟨⟨after', heq⟩, hbefore', hitem'⟩ := h'
      cases before' with
      | nil =>
          obtain rfl : first = item' := (List.cons.inj heq).1
          exact absurd (hbefore first (by simp)) hitem'
      | cons first' before' =>
          obtain ⟨rfl, hrest⟩ := List.cons.inj heq
          obtain ⟨rfl, rfl⟩ := @ih (before ++ item :: after) before'
            ⟨⟨after, rfl⟩, fun earlier hmem => hbefore earlier (by simp [hmem]), hitem⟩
            ⟨⟨after', hrest⟩, fun earlier hmem => hbefore' earlier (by simp [hmem]), hitem'⟩
          exact ⟨rfl, rfl⟩

/-- A traversal that ends with the first item at fault fails with the first item that is not fine. -/
theorem exists_stopsAt {ε β : Type} (fine : α → Prop) (fails : Nat → α → ε → Prop)
    (traversal : Nat → List α → Except ε β)
    (hnil : ∀ index cause, traversal index [] ≠ .error cause)
    (hcons : ∀ index item items cause, traversal index (item :: items) = .error cause →
      (¬ fine item ∧ fails index item cause) ∨
        (fine item ∧ traversal (index + 1) items = .error cause))
    (index : Nat) {items : List α} {cause : ε} (h : traversal index items = .error cause) :
    ∃ before item, StopsAt fine items before item ∧ fails (index + before.length) item cause := by
  induction items generalizing index with
  | nil => exact absurd h (hnil index cause)
  | cons item items ih =>
      rcases hcons index item items cause h with ⟨hbad, hfails⟩ | ⟨hfine, hrest⟩
      · exact ⟨[], item, .here hbad, hfails⟩
      · obtain ⟨before, other, hstops, hfails⟩ := ih (index + 1) hrest
        refine ⟨item :: before, other, hstops.later hfine, ?_⟩
        rwa [List.length_cons, Nat.add_comm before.length, ← Nat.add_assoc]

end StopsAt

/-- An entry that compiles. -/
def Compiles (entry : PolicyEntry) : Prop :=
  ∃ policy, Compiled entry policy

/-- A file whose content can be read as text. -/
def IsText (source : SourceFile) : Prop :=
  ∃ text, decodeText source.bytes = .ok text

theorem not_compiles {index : Nat} {entry : PolicyEntry} {cause : PolicyError}
    (h : Policy.compile index entry = .error cause) : ¬ Compiles entry := by
  rintro ⟨policy, hpolicy⟩
  rw [(compile_eq_ok_iff index entry policy).mpr hpolicy] at h
  cases h

theorem not_isGlob {pattern : String} {cause : Glob.Error}
    (h : Glob.compile .wholePath pattern = .error cause) : ¬ IsGlob pattern := by
  rintro ⟨glob, hglob⟩
  rw [hglob] at h
  cases h

theorem not_isText {source : SourceFile} {fault : DiskFault}
    (h : decodeText source.bytes = .error fault) : ¬ IsText source := by
  rintro ⟨text, htext⟩
  rw [htext] at h
  cases h

theorem compile_error {entries : List PolicyEntry} {cause : PolicyError}
    (h : PolicySet.compile entries = .error cause) :
    ∃ before entry, StopsAt Compiles entries before entry ∧
      Policy.compile before.length entry = .error cause := by
  have hfrom : PolicySet.compileFrom 0 entries = .error cause := by
    rw [PolicySet.compile] at h
    split at h
    · cases h
    · next hcause => rw [hcause, Except.error.inj h]
  have hstops := exists_stopsAt Compiles
    (fun index entry cause => Policy.compile index entry = .error cause) PolicySet.compileFrom
    (by simp [PolicySet.compileFrom]) ?_ 0 hfrom
  · simpa using hstops
  · intro index entry entries cause herror
    rw [PolicySet.compileFrom] at herror
    cases hcompile : Policy.compile index entry with
    | error first => exact .inl ⟨not_compiles hcompile, by simpa [hcompile] using herror⟩
    | ok policy =>
        refine .inr ⟨⟨policy, (compile_eq_ok_iff index entry policy).mp hcompile⟩, ?_⟩
        cases hrest : PolicySet.compileFrom (index + 1) entries <;> simp_all

theorem excludes_error {patterns : List String} {cause : Glob.Error}
    (h : ExcludeSet.compile patterns = .error cause) :
    ∃ before pattern, StopsAt IsGlob patterns before pattern ∧
      Glob.compile .wholePath pattern = .error cause := by
  refine exists_stopsAt IsGlob
    (fun _ pattern cause => Glob.compile .wholePath pattern = .error cause)
    (fun _ => ExcludeSet.compile) (by simp [ExcludeSet.compile]) ?_ 0 h
  intro _ pattern patterns cause herror
  rw [ExcludeSet.compile] at herror
  cases hcompile : Glob.compile .wholePath pattern with
  | error first => exact .inl ⟨not_isGlob hcompile, by simpa [hcompile] using herror⟩
  | ok glob =>
      refine .inr ⟨⟨glob, hcompile⟩, ?_⟩
      cases hrest : ExcludeSet.compile patterns <;> simp_all

theorem violations_error {check : Check} {sources : List SourceFile} {failure : LintFailure}
    (h : check.violations sources = .error failure) :
    ∃ before source fault, StopsAt IsText sources before source ∧
      decodeText source.bytes = .error fault ∧ failure = .unreadable source.path fault := by
  have hstops := exists_stopsAt IsText
    (fun _ source failure => ∃ fault, decodeText source.bytes = .error fault ∧
      failure = LintFailure.unreadable source.path fault)
    (fun _ => check.violations) (by simp [Check.violations]) ?_ 0 h
  · obtain ⟨before, source, hstops, fault, hfault⟩ := hstops
    exact ⟨before, source, fault, hstops, hfault⟩
  · intro _ source sources failure herror
    rw [Check.violations] at herror
    cases htext : decodeText source.bytes with
    | error fault =>
        exact .inl ⟨not_isText htext, fault, rfl, by simpa [htext, eq_comm] using herror⟩
    | ok text =>
        refine .inr ⟨⟨text, htext⟩, ?_⟩
        cases hrest : check.violations sources <;> simp_all

theorem isText_of_violations {check : Check} {sources : List SourceFile}
    {found : List Violation} (h : check.violations sources = .ok found) :
    ∀ source ∈ sources, IsText source := by
  induction sources generalizing found with
  | nil => simp
  | cons source sources ih =>
      obtain ⟨text, later, htext, hlater, -⟩ := FileIndependence.violations_cons h
      exact List.forall_mem_cons.mpr ⟨⟨text, htext⟩, ih hlater⟩

/-- What a check is told. -/
structure CheckRun where
  disk : Disk
  source : ConfigSource
  path : String
  exclude : List String

/-- Why a run failed. -/
inductive Failure where
  | load (cause : LoadFailure)
  | lint (cause : LintFailure)

def Failure.chain : Failure → List String
  | .load cause => cause.chain
  | .lint cause => cause.chain

/-- The stages of a check, in their order. -/
inductive Stage where
  | config
  | policies
  | entry
  | glob
  | walk
  | text

def Stage.place : Stage → Nat
  | .config => 0
  | .policies => 1
  | .entry => 2
  | .glob => 3
  | .walk => 4
  | .text => 5

theorem Stage.place_injective : Function.Injective Stage.place := by
  intro left right h
  cases left <;> cases right <;> first | rfl | cases h

namespace CheckRun

variable (run : CheckRun)

def Loads (config : Config) : Prop := run.source.load run.disk = .ok config

def root (config : Config) : String := Path.join run.path config.analyzer.root

def globs (config : Config) : List String := config.analyzer.exclude ++ run.exclude

def walk (config : Config) : Except WalkError (List WalkEntry) :=
  run.disk.walk config.analyzer.respectGitignore (run.root config)

/-- What the run gives. -/
def result : Except Failure Report :=
  match run.source.load run.disk with
  | .error cause => .error (.load cause)
  | .ok config =>
    match run.disk.lint run.path config run.exclude with
    | .error cause => .error (.lint cause)
    | .ok report => .ok report

/-- What the program ends with. -/
def outcome (format : OutputFormat) : Outcome :=
  checkProject run.disk run.source run.path format run.exclude

/-- What is wrong with a run at one stage, whatever else is wrong with it. -/
inductive Defect : Stage → Failure → Prop
  | missing (hpath : run.source.path? = none) : Defect .config (.load .missing)
  | unreadable {path : String} {fault : DiskFault} (hpath : run.source.path? = some path)
      (htext : run.disk.readText path = .error fault) :
      Defect .config (.load (.unreadable path fault))
  | invalid {path text : String} {cause : Config.ParseError}
      (hpath : run.source.path? = some path) (htext : run.disk.readText path = .ok text)
      (hparse : Config.parse text = .error cause) : Defect .config (.load (.invalid path cause))
  | noPolicies {config : Config} (hconfig : run.Loads config) (hnone : config.policies = []) :
      Defect .policies (.lint (.invalidConfig .noPolicies))
  | entry {config : Config} {before : List PolicyEntry} {entry : PolicyEntry}
      {cause : PolicyError} (hconfig : run.Loads config)
      (hfirst : StopsAt Compiles config.policies before entry)
      (hcause : Policy.compile before.length entry = .error cause) :
      Defect .entry (.lint (.invalidConfig (.policy cause)))
  | glob {config : Config} {before : List String} {pattern : String} {cause : Glob.Error}
      (hconfig : run.Loads config) (hfirst : StopsAt IsGlob (run.globs config) before pattern)
      (hcause : Glob.compile .wholePath pattern = .error cause) :
      Defect .glob (.lint (.invalidExclude cause))
  | walk {config : Config} {cause : WalkError} (hconfig : run.Loads config)
      (hwalk : run.walk config = .error cause) : Defect .walk (.lint (.walk cause))
  | text {config : Config} {entries : List WalkEntry} {source : SourceFile} {fault : DiskFault}
      (hconfig : run.Loads config) (hwalk : run.walk config = .ok entries)
      (hsource : IsDiscovered (run.root config) (run.globs config) entries source)
      (hfault : decodeText source.bytes = .error fault)
      (hleast : ∀ other, IsDiscovered (run.root config) (run.globs config) entries other →
        ¬ IsText other → source.before other = true) :
      Defect .text (.lint (.unreadable source.path fault))

/-- The names that lead to the files that a run reads: its configuration, and once that is loaded, the
ignore files and scripts of the check. -/
inductive Reads : List Segment → Prop
  | config {path : String} {names : List Segment} (hpath : run.source.path? = some path)
      (hnames : run.disk.resolve path = .ok names) : Reads names
  | file {config : Config} {names : List Segment} (hconfig : run.Loads config)
      (hfile : IsRead run.disk run.path config run.exclude names) : Reads names

/-- The run on a disk some of whose files have other bytes. -/
def changed (change : Change) : CheckRun := { run with disk := changedDisk change run.disk }

/-- Nothing is wrong at the stages before a stage. -/
def ClearBefore (stage : Stage) : Prop :=
  ∀ earlier, earlier.place < stage.place → ∀ failure, ¬ run.Defect earlier failure

/-- What is wrong at a stage while nothing is wrong before it. -/
structure FirstDefect (stage : Stage) (failure : Failure) : Prop where
  defect : run.Defect stage failure
  clear : run.ClearBefore stage

end CheckRun

section Stages

variable {run : CheckRun} {config : Config} {failure : Failure}

theorem clearBefore_config : run.ClearBefore .config :=
  fun _ hearlier => absurd hearlier (Nat.not_lt_zero _)

theorem clearBefore_next {stage next : Stage} (h : run.ClearBefore stage)
    (hstage : ∀ failure, ¬ run.Defect stage failure) (hnext : next.place = stage.place + 1) :
    run.ClearBefore next := by
  intro earlier hearlier
  rw [hnext, Nat.lt_succ_iff_lt_or_eq] at hearlier
  rcases hearlier with hearlier | hplace
  · exact h earlier hearlier
  · rw [Stage.place_injective hplace]
    exact hstage

theorem defect_of_load {cause : LoadFailure} (h : run.source.load run.disk = .error cause) :
    run.Defect .config (.load cause) := by
  rw [ConfigSource.load] at h
  cases hpath : run.source.path? with
  | none =>
      obtain rfl : LoadFailure.missing = cause := by simpa [hpath] using h
      exact .missing hpath
  | some path =>
      cases htext : run.disk.readText path with
      | error fault =>
          obtain rfl : LoadFailure.unreadable path fault = cause := by
            simpa [hpath, htext] using h
          exact .unreadable hpath htext
      | ok text =>
          cases hparse : Config.parse text with
          | error error =>
              obtain rfl : LoadFailure.invalid path error = cause := by
                simpa [hpath, htext, hparse] using h
              exact .invalid hpath htext hparse
          | ok config => simp [hpath, htext, hparse] at h

theorem load_of_defect (h : run.Defect .config failure) :
    ∃ cause, failure = .load cause ∧ run.source.load run.disk = .error cause := by
  cases h with
  | missing hpath => exact ⟨_, rfl, by rw [ConfigSource.load, hpath]⟩
  | unreadable hpath htext => exact ⟨_, rfl, by simp only [ConfigSource.load, hpath, htext]⟩
  | invalid hpath htext hparse =>
      exact ⟨_, rfl, by simp only [ConfigSource.load, hpath, htext, hparse]⟩

section Loaded

variable (hconfig : run.Loads config)

include hconfig

theorem config_unique {other : Config} (h : run.Loads other) : other = config :=
  Except.ok.inj (h.symm.trans hconfig)

theorem clearBefore_policies : run.ClearBefore .policies := by
  refine clearBefore_next clearBefore_config (fun failure hdefect => ?_) rfl
  obtain ⟨cause, -, hcause⟩ := load_of_defect hdefect
  rw [hconfig] at hcause
  cases hcause

theorem clearBefore_entry (hpolicies : config.policies ≠ []) : run.ClearBefore .entry := by
  refine clearBefore_next (clearBefore_policies hconfig) (fun failure hdefect => ?_) rfl
  cases hdefect with
  | noPolicies hother hnone =>
      rw [config_unique hconfig hother] at hnone
      exact hpolicies hnone

theorem clearBefore_glob (hpolicies : config.policies ≠ [])
    (hentries : ∀ entry ∈ config.policies, Compiles entry) : run.ClearBefore .glob := by
  refine clearBefore_next (clearBefore_entry hconfig hpolicies) (fun failure hdefect => ?_) rfl
  cases hdefect with
  | entry hother hfirst _ =>
      rw [config_unique hconfig hother] at hfirst
      exact hfirst.not_fine (hentries _ hfirst.mem)

theorem clearBefore_walk (hclear : run.ClearBefore .glob)
    (hglobs : ∀ pattern ∈ run.globs config, IsGlob pattern) : run.ClearBefore .walk := by
  refine clearBefore_next hclear (fun failure hdefect => ?_) rfl
  cases hdefect with
  | glob hother hfirst _ =>
      rw [config_unique hconfig hother] at hfirst
      exact hfirst.not_fine (hglobs _ hfirst.mem)

theorem clearBefore_text (hclear : run.ClearBefore .walk) {entries : List WalkEntry}
    (hwalk : run.walk config = .ok entries) : run.ClearBefore .text := by
  refine clearBefore_next hclear (fun failure hdefect => ?_) rfl
  cases hdefect with
  | walk hother herror =>
      rw [config_unique hconfig hother, hwalk] at herror
      cases herror

/-- A configuration gives policies, or something is wrong with them first. -/
theorem checker_spec :
    match config.checker with
    | .error cause => ∃ stage, run.FirstDefect stage (.lint (.invalidConfig cause))
    | .ok _ => run.ClearBefore .glob := by
  rw [Config.checker, Config.policySet]
  by_cases hpolicies : config.policies = []
  · rw [if_pos hpolicies]
    exact ⟨.policies, .noPolicies hconfig hpolicies, clearBefore_policies hconfig⟩
  · rw [if_neg hpolicies]
    cases hcompile : PolicySet.compile config.policies with
    | error cause =>
        obtain ⟨before, entry, hfirst, hcause⟩ := compile_error hcompile
        exact ⟨.entry, .entry hconfig hfirst hcause, clearBefore_entry hconfig hpolicies⟩
    | ok policies =>
        refine clearBefore_glob hconfig hpolicies fun entry hentry => ?_
        have hcompiled := (policySet_compile_eq_ok_iff _ _).mp hcompile
        obtain ⟨index, hindex, rfl⟩ := List.mem_iff_getElem.mp hentry
        exact ⟨_, hcompiled.get hindex (hcompiled.length_eq ▸ hindex)⟩

/-- The files of a check are those discovered in the walk, in their order. -/
structure IsCheckOf (run : CheckRun) (config : Config) (entries : List WalkEntry)
    (check : Check) : Prop where
  walk : run.walk config = .ok entries
  mem_files : ∀ source, source ∈ check.files ↔
    IsDiscovered (run.root config) (run.globs config) entries source
  sorted : check.files.Pairwise fun left right => left.before right = true

theorem check_spec :
    match run.disk.check run.path config run.exclude with
    | .error cause => ∃ stage, run.FirstDefect stage (.lint cause)
    | .ok check => run.ClearBefore .text ∧ ∃ entries, IsCheckOf run config entries check := by
  have hchecker := checker_spec hconfig
  rw [Disk.check]
  generalize config.checker = judge at hchecker ⊢
  cases judge with
  | error cause => exact hchecker
  | ok checker =>
      dsimp only at hchecker ⊢
      cases hexcluded : ExcludeSet.compile (config.analyzer.exclude ++ run.exclude) with
      | error cause =>
          obtain ⟨before, pattern, hfirst, hcause⟩ := excludes_error hexcluded
          exact ⟨.glob, .glob hconfig hfirst hcause, hchecker⟩
      | ok excluded =>
          have hclear := clearBefore_walk hconfig hchecker
            ((exists_compile_iff _).mp ⟨excluded, hexcluded⟩)
          dsimp only
          cases hwalk : run.disk.walk config.analyzer.respectGitignore
              (Path.join run.path config.analyzer.root) with
          | error cause => exact ⟨.walk, .walk hconfig hwalk, hclear⟩
          | ok entries =>
              exact ⟨clearBefore_text hconfig hclear hwalk, entries, hwalk,
                fun source => mem_discover_iff hexcluded,
                List.pairwise_mergeSort before_trans before_total _⟩

theorem run_spec {entries : List WalkEntry} {check : Check}
    (hcheck : IsCheckOf run config entries check) :
    match check.run with
    | .error cause => run.Defect .text (.lint cause)
    | .ok _ => ∀ failure, ¬ run.Defect .text failure := by
  rw [Check.run]
  cases hfound : check.violations check.files with
  | error cause =>
      obtain ⟨before, source, fault, hstops, hfault, rfl⟩ := violations_error hfound
      refine .text hconfig hcheck.walk ((hcheck.mem_files source).mp hstops.mem) hfault ?_
      intro other hother hbad
      obtain ⟨⟨after, hfiles⟩, hbefore, -⟩ := hstops
      -- what stands in front of the first unreadable file is text, so any other stands behind it
      have hmem := (hcheck.mem_files other).mpr hother
      have hsorted := hcheck.sorted
      rw [hfiles, List.pairwise_append, List.pairwise_cons] at hsorted
      rw [hfiles, List.mem_append, List.mem_cons] at hmem
      rcases hmem with hmem | rfl | hmem
      · exact absurd (hbefore other hmem) hbad
      · have htotal := before_total other other
        rwa [Bool.or_self] at htotal
      · exact hsorted.2.1.1 other hmem
  | ok found =>
      intro failure hdefect
      cases hdefect with
      | text hother hwalk hsource hfault _ =>
          obtain rfl := config_unique hconfig hother
          obtain rfl := Except.ok.inj (hwalk.symm.trans hcheck.walk)
          obtain ⟨text, htext⟩ :=
            isText_of_violations hfound _ ((hcheck.mem_files _).mpr hsource)
          rw [htext] at hfault
          cases hfault

end Loaded

/-- A run fails with what is wrong first, and succeeds if nothing is wrong. -/
theorem result_spec (run : CheckRun) :
    match run.result with
    | .error failure => ∃ stage, run.FirstDefect stage failure
    | .ok _ => ∀ stage failure, ¬ run.Defect stage failure := by
  rw [CheckRun.result]
  cases hconfig : run.source.load run.disk with
  | error cause => exact ⟨.config, defect_of_load hconfig, clearBefore_config⟩
  | ok config =>
      have hcheck := check_spec hconfig
      dsimp only
      rw [Disk.lint]
      generalize run.disk.check run.path config run.exclude = found at hcheck ⊢
      cases found with
      | error cause => exact hcheck
      | ok check =>
          obtain ⟨hclear, entries, hcheck⟩ := hcheck
          have hrun := run_spec hconfig hcheck
          dsimp only
          generalize check.run = report at hrun ⊢
          cases report with
          | error cause => exact ⟨.text, hrun, hclear⟩
          | ok report =>
              intro stage failure
              rcases Nat.lt_or_ge stage.place Stage.text.place with hplace | hplace
              · exact hclear stage hplace failure
              · have hstage : stage = .text := by
                  cases stage <;> first | rfl | exact absurd hplace (by decide)
                rw [hstage]
                exact hrun failure

/-- Two discovered files of which neither is behind the other are one file. -/
theorem discovered_eq_of_before (hdisk : WellFormed run.disk.root) {entries : List WalkEntry}
    (hwalk : run.walk config = .ok entries) {source other : SourceFile}
    (hsource : IsDiscovered (run.root config) (run.globs config) entries source)
    (hother : IsDiscovered (run.root config) (run.globs config) entries other)
    (h : source.before other = true) (h' : other.before source = true) : source = other := by
  obtain ⟨⟨entry, hentry, hseen⟩, -⟩ := hsource
  obtain ⟨⟨entry', hentry', hseen'⟩, -⟩ := hother
  have hplace := before_antisymm h h'
  rw [(sourceFile?_eq_some hseen).1, (sourceFile?_eq_some hseen').1] at hplace
  obtain rfl := List.inj_on_of_nodup_map (walk_paths hdisk hwalk).2 hentry hentry' hplace
  exact Option.some.inj (hseen.symm.trans hseen')

/-- At one stage only one thing is wrong. -/
theorem defect_unique (hdisk : WellFormed run.disk.root) {stage : Stage} {other : Failure}
    (h : run.Defect stage failure) (h' : run.Defect stage other) : failure = other := by
  cases stage with
  | config =>
      obtain ⟨cause, rfl, hcause⟩ := load_of_defect h
      obtain ⟨cause', rfl, hcause'⟩ := load_of_defect h'
      rw [Except.error.inj (hcause.symm.trans hcause')]
  | policies =>
      cases h
      cases h'
      rfl
  | entry =>
      cases h with
      | entry hconfig hfirst hcause =>
          cases h' with
          | entry hconfig' hfirst' hcause' =>
              obtain rfl := config_unique hconfig hconfig'
              obtain ⟨rfl, rfl⟩ := hfirst.unique hfirst'
              rw [Except.error.inj (hcause.symm.trans hcause')]
  | glob =>
      cases h with
      | glob hconfig hfirst hcause =>
          cases h' with
          | glob hconfig' hfirst' hcause' =>
              obtain rfl := config_unique hconfig hconfig'
              obtain ⟨rfl, rfl⟩ := hfirst.unique hfirst'
              rw [Except.error.inj (hcause.symm.trans hcause')]
  | walk =>
      cases h with
      | walk hconfig hwalk =>
          cases h' with
          | walk hconfig' hwalk' =>
              obtain rfl := config_unique hconfig hconfig'
              rw [Except.error.inj (hwalk.symm.trans hwalk')]
  | text =>
      cases h with
      | text hconfig hwalk hsource hfault hleast =>
          cases h' with
          | text hconfig' hwalk' hsource' hfault' hleast' =>
              obtain rfl := config_unique hconfig hconfig'
              obtain rfl := Except.ok.inj (hwalk.symm.trans hwalk')
              obtain rfl := discovered_eq_of_before hdisk hwalk hsource hsource'
                (hleast _ hsource' (not_isText hfault')) (hleast' _ hsource (not_isText hfault))
              rw [Except.error.inj (hfault.symm.trans hfault')]

theorem result_of_firstDefect (hdisk : WellFormed run.disk.root) {stage : Stage}
    (h : run.FirstDefect stage failure) : run.result = .error failure := by
  have hspec := result_spec run
  cases hresult : run.result with
  | ok report =>
      rw [hresult] at hspec
      exact absurd h.defect (hspec stage failure)
  | error other =>
      rw [hresult] at hspec
      obtain ⟨stage', hother⟩ := hspec
      rcases Nat.lt_trichotomy stage.place stage'.place with hearlier | hplace | hlater
      · exact absurd h.defect (hother.clear stage hearlier failure)
      · obtain rfl := Stage.place_injective hplace
        rw [defect_unique hdisk h.defect hother.defect]
      · exact absurd hother.defect (h.clear stage' hlater other)

theorem firstDefect_congr {other : CheckRun} {stage : Stage} (h : run.FirstDefect stage failure)
    (hsame : ∀ earlier, earlier.place ≤ stage.place → ∀ failure,
      other.Defect earlier failure ↔ run.Defect earlier failure) :
    other.FirstDefect stage failure := by
  refine ⟨(hsame stage (Nat.le_refl _) failure).mpr h.defect, ?_⟩
  intro earlier hearlier failure hdefect
  have hdefect' := (hsame earlier (Nat.le_of_lt hearlier) failure).mp hdefect
  exact h.clear earlier hearlier failure hdefect'

/-- A failure that the program ends with is that of the run, and it has written nothing then. -/
theorem outcome_spec (run : CheckRun) (format : OutputFormat) :
    match run.result with
    | .error failure =>
      IsFailed (run.outcome format) ∧ (run.outcome format).failure = some failure.chain
    | .ok _ => (run.outcome format).failure = none := by
  obtain ⟨events, houtcome⟩ :=
    checkProject_eq run.disk run.source run.path format run.exclude
  rw [CheckRun.outcome, houtcome, CheckRun.result]
  cases run.source.load run.disk with
  | error cause => exact ⟨⟨rfl, rfl⟩, rfl⟩
  | ok config =>
      dsimp only
      cases run.disk.lint run.path config run.exclude with
      | error cause => exact ⟨⟨rfl, rfl⟩, rfl⟩
      | ok report => rfl

theorem result_changed {change : Change}
    (hkeep : ∀ file, run.Reads file → ∀ bytes, change file bytes = bytes) :
    (run.changed change).result = run.result := by
  have hload : run.source.load (changedDisk change run.disk) = run.source.load run.disk :=
    load_changedDisk fun path names hpath hnames => hkeep names (.config hpath hnames)
  rw [CheckRun.result, CheckRun.result, CheckRun.changed]
  dsimp only
  rw [hload]
  cases hconfig : run.source.load run.disk with
  | error cause => rfl
  | ok config =>
      dsimp only
      have hcheck := check_changedDisk fun file hfile => hkeep file (.file hconfig hfile)
      rw [Disk.lint, Disk.lint, hcheck]

/-- A check fails with what is wrong at the earliest stage and succeeds if nothing is wrong.  What is
wrong later plays no part, and neither do the bytes of files that are not read, be they ignored, left
out or no scripts. -/
theorem check_fails_with_first_defect (run : CheckRun) (hdisk : WellFormed run.disk.root) :
    (∀ failure, run.result = .error failure ↔ ∃ stage, run.FirstDefect stage failure) ∧
    ((∃ report, run.result = .ok report) ↔ ∀ stage failure, ¬ run.Defect stage failure) ∧
    (∀ format, match run.result with
      | .error failure =>
        IsFailed (run.outcome format) ∧ (run.outcome format).failure = some failure.chain
      | .ok _ => (run.outcome format).failure = none) ∧
    (∀ (other : CheckRun) (stage : Stage) (failure : Failure), run.FirstDefect stage failure →
      WellFormed other.disk.root →
      (∀ earlier, earlier.place ≤ stage.place → ∀ failure,
        other.Defect earlier failure ↔ run.Defect earlier failure) →
      other.result = .error failure) ∧
    ∀ change, (∀ file, run.Reads file → ∀ bytes, change file bytes = bytes) →
      (run.changed change).result = run.result := by
  have herror (failure : Failure) :
      run.result = .error failure ↔ ∃ stage, run.FirstDefect stage failure := by
    constructor
    · intro h
      have hspec := result_spec run
      rwa [h] at hspec
    · rintro ⟨stage, h⟩
      exact result_of_firstDefect hdisk h
  refine ⟨herror, ?_, outcome_spec run, ?_, fun change hkeep => result_changed hkeep⟩
  · constructor
    · rintro ⟨report, h⟩
      have hspec := result_spec run
      rwa [h] at hspec
    · intro h
      cases hresult : run.result with
      | ok report => exact ⟨report, rfl⟩
      | error failure =>
          obtain ⟨stage, hfirst⟩ := (herror failure).mp hresult
          exact absurd hfirst.defect (h stage failure)
  · intro other stage failure hfirst hother hsame
    exact result_of_firstDefect hother (firstDefect_congr hfirst hsame)

end Stages

set_option maxRecDepth 100000 in
theorem check_fails_with_first_defect_of_three :
    ∃ (run : CheckRun) (entry glob walk : Failure), WellFormed run.disk.root ∧
      run.Defect .entry entry ∧ run.Defect .glob glob ∧ run.Defect .walk walk ∧
      run.result = .error entry := by
  let disk : Disk := ⟨written
    [(["c".toList], "[[policies]]\ntarget=\"[\"\nrestrictions=\"b\"".toUTF8),
    (["a.ts".toList], "import \"x\"".toUTF8)], []⟩
  let run : CheckRun := ⟨disk, .named "c", "n", ["["]⟩
  let config : Config := { Config.default with policies := [⟨"[", ["b"]⟩] }
  have hdisk : WellFormed run.disk.root := written_wellFormed (by decide)
  have hconfig : run.Loads config := FileIndependence.eq_ok_of_toOption (by decide +kernel)
  have hentryCause : Policy.compile 0 ⟨"[", ["b"]⟩ =
      .error (.invalidGlob ⟨"[", .unclosedClass⟩) := rfl
  have hdefault : IsGlob "**/node_modules/**" := ⟨_, rfl⟩
  have hglobCause : Glob.compile .wholePath "[" = .error ⟨"[", .unclosedClass⟩ := rfl
  obtain ⟨cause, hwalk⟩ : ∃ cause, run.walk config = .error cause := by
    have hnone : (run.walk config).toOption.isNone = true := by decide +kernel
    cases hwalk : run.walk config with
    | error cause => exact ⟨cause, rfl⟩
    | ok entries => simp [hwalk, Except.toOption] at hnone
  have hentry : run.Defect .entry _ :=
    .entry hconfig (.here (not_compiles hentryCause)) hentryCause
  have hglob : run.Defect .glob _ :=
    .glob hconfig (.later hdefault (.here (not_isGlob hglobCause))) hglobCause
  have hclear : run.ClearBefore .entry := clearBefore_entry hconfig (by decide)
  obtain ⟨hresult, -⟩ := check_fails_with_first_defect run hdisk
  exact ⟨run, _, _, _, hdisk, hentry, hglob, .walk hconfig hwalk,
    (hresult _).mpr ⟨.entry, hentry, hclear⟩⟩

end ImportLint.Proofs.FailurePrecedence
