import ImportLint.Config.Source
import ImportLint.Proofs.FileIndependence

/-!
Which configuration is used.  The first place that is named or occupied decides, and nothing that
stands at a later place has a say: neither in which configuration is chosen nor in what loading it
comes to.
-/

namespace ImportLint.Proofs.ConfigPrecedence

open ImportLint.ConfigSource
open ImportLint.Proofs.WalkPaths
open ImportLint.Proofs.FileIndependence

variable {disk disk' : Disk} {project : String} {named sharedDirectory : Option String}
  {tested : List ConfigSource} {source : ConfigSource}

/-- The places of a configuration that is not named, each before those that it hides. -/
def places (project : String) (sharedDirectory : Option String) : List ConfigSource :=
  .project (Path.join project "import-patterns.toml") ::
    .project (Path.join project ".import-patterns.toml") ::
      (sharedDirectory.map fun directory => .shared (Path.join directory "config.toml")).toList

/-- There is a file or a directory at the place of a configuration. -/
def Occupied (disk : Disk) (place : ConfigSource) : Prop :=
  ∃ path, place.path? = some path ∧ ∃ found, disk.locate path = .ok found

/-- What is chosen, and the places that are tested on the way. -/
inductive Chosen (disk : Disk) (project : String) :
    (named sharedDirectory : Option String) → (tested : List ConfigSource) → ConfigSource → Prop
  | named (path : String) (sharedDirectory : Option String) :
      Chosen disk project (some path) sharedDirectory [] (.named path)
  | first {sharedDirectory : Option String} {before after : List ConfigSource}
      {source : ConfigSource}
      (hsplit : places project sharedDirectory = before ++ source :: after)
      (hbefore : ∀ place ∈ before, ¬ Occupied disk place) (hsource : Occupied disk source) :
      Chosen disk project none sharedDirectory (before ++ [source]) source
  | missing {sharedDirectory : Option String}
      (hnone : ∀ place ∈ places project sharedDirectory, ¬ Occupied disk place) :
      Chosen disk project none sharedDirectory (places project sharedDirectory) .missing

theorem isThere_iff (disk : Disk) (place : ConfigSource) :
    isThere disk place = true ↔ Occupied disk place := by
  have hexists (path : String) : disk.exists? path = true ↔ ∃ found, disk.locate path = .ok found := by
    rw [Disk.exists?]
    cases disk.locate path <;> simp
  simp only [isThere, Occupied, Option.any_eq_true, hexists]

theorem exists_chosen (disk : Disk) (project : String) (named sharedDirectory : Option String) :
    ∃ tested, Chosen disk project named sharedDirectory tested
      (find disk project named sharedDirectory) := by
  cases named with
  | some path => exact ⟨[], .named path sharedDirectory⟩
  | none =>
      have hplaces : candidates project sharedDirectory = places project sharedDirectory := rfl
      rw [find, hplaces]
      cases hfind : (places project sharedDirectory).find? (isThere disk) with
      | none =>
          refine ⟨_, .missing fun place hplace => ?_⟩
          rw [← isThere_iff]
          exact List.find?_eq_none.mp hfind place hplace
      | some source =>
          obtain ⟨hsource, before, after, hsplit, hbefore⟩ := List.find?_eq_some_iff_append.mp hfind
          refine ⟨_, .first hsplit (fun place hplace => ?_) ((isThere_iff disk source).mp hsource)⟩
          rw [← isThere_iff]
          simpa using hbefore place hplace

theorem find_of_chosen (h : Chosen disk project named sharedDirectory tested source) :
    find disk project named sharedDirectory = source := by
  have hplaces : candidates project sharedDirectory = places project sharedDirectory := rfl
  cases h with
  | named path sharedDirectory => rfl
  | first hsplit hbefore hsource =>
      have hfind : (places project sharedDirectory).find? (isThere disk) = some source := by
        rw [List.find?_eq_some_iff_append]
        refine ⟨(isThere_iff disk source).mpr hsource, _, _, hsplit, fun place hplace => ?_⟩
        rw [Bool.not_eq_true', ← Bool.not_eq_true, isThere_iff]
        exact hbefore place hplace
      rw [find, hplaces, hfind, Option.getD_some]
  | missing hnone =>
      have hfind : (places project sharedDirectory).find? (isThere disk) = none := by
        rw [List.find?_eq_none]
        simpa only [isThere_iff] using hnone
      rw [find, hplaces, hfind, Option.getD_none]

/-- Only the places that are tested have a say in what is chosen. -/
theorem Chosen.transfer (h : Chosen disk project named sharedDirectory tested source)
    (hsame : ∀ place ∈ tested, Occupied disk' place ↔ Occupied disk place) :
    Chosen disk' project named sharedDirectory tested source := by
  cases h with
  | named path sharedDirectory => exact .named path sharedDirectory
  | first hsplit hbefore hsource =>
      refine .first hsplit (fun place hplace => ?_) ((hsame source (by simp)).mpr hsource)
      rw [hsame place (by simp [hplace])]
      exact hbefore place hplace
  | missing hnone =>
      refine .missing fun place hplace => ?_
      rw [hsame place hplace]
      exact hnone place hplace

/-- What loading a configuration comes to. -/
inductive Loads (disk : Disk) (source : ConfigSource) : Except LoadFailure Config → Prop
  | missing (hpath : source.path? = none) : Loads disk source (.error .missing)
  | unreadable {path : String} {fault : DiskFault} (hpath : source.path? = some path)
      (hread : disk.readText path = .error fault) :
      Loads disk source (.error (.unreadable path fault))
  | invalid {path text : String} {cause : Config.ParseError} (hpath : source.path? = some path)
      (hread : disk.readText path = .ok text) (hparse : Config.parse text = .error cause) :
      Loads disk source (.error (.invalid path cause))
  | config {path text : String} {config : Config} (hpath : source.path? = some path)
      (hread : disk.readText path = .ok text) (hparse : Config.parse text = .ok config) :
      Loads disk source (.ok config)

theorem loads_load (disk : Disk) (source : ConfigSource) : Loads disk source (source.load disk) := by
  rw [load]
  split
  · next hpath => exact .missing hpath
  · next path hpath =>
    split
    · next fault hread => exact .unreadable hpath hread
    · next text hread =>
      split
      · next cause hparse => exact .invalid hpath hread hparse
      · next config hparse => exact .config hpath hread hparse

theorem load_congr (hread : ∀ path, source.path? = some path → disk'.read path = disk.read path) :
    source.load disk' = source.load disk := by
  rw [load, load]
  cases hpath : source.path? with
  | none => rfl
  | some path => simp only [Disk.readText, hread path hpath]

/-- The first place that is named or occupied gives the configuration.  If what stands there cannot be
loaded, no other place is tried; and two trees that agree on the places up to it and on what is read
there give the same configuration or the same failure. -/
theorem source_by_precedence (disk : Disk) (project : String)
    (named sharedDirectory : Option String) :
    (∃ tested source, Chosen disk project named sharedDirectory tested source) ∧
    ∀ tested source, Chosen disk project named sharedDirectory tested source →
      find disk project named sharedDirectory = source ∧
      Loads disk source (source.load disk) ∧
      ∀ disk' : Disk, (∀ place ∈ tested, Occupied disk' place ↔ Occupied disk place) →
        (∀ path, source.path? = some path → disk'.read path = disk.read path) →
        find disk' project named sharedDirectory = source ∧ source.load disk' = source.load disk := by
  constructor
  · obtain ⟨tested, hchosen⟩ := exists_chosen disk project named sharedDirectory
    exact ⟨tested, _, hchosen⟩
  · intro tested source hchosen
    refine ⟨find_of_chosen hchosen, loads_load disk source, ?_⟩
    intro disk' htested hread
    exact ⟨find_of_chosen (hchosen.transfer htested), load_congr hread⟩

set_option maxRecDepth 100000 in
/-- The second place of a project holds no configuration, and the one that is kept for all projects
does not help, whether it is there or not. -/
theorem source_by_precedence_invalid :
    ∃ disk disk' : Disk, ∃ config,
      ConfigSource.load disk (.shared "home/config.toml") = .ok config ∧
      disk'.exists? "home" = false ∧
      find disk "." none (some "home") = .project "./.import-patterns.toml" ∧
      find disk' "." none (some "home") = .project "./.import-patterns.toml" ∧
      ConfigSource.load disk' (.project "./.import-patterns.toml") =
        .error (.invalid "./.import-patterns.toml" .notToml) := by
  let broken : List Path.Segment × ByteArray := ([".import-patterns.toml".toList], "[".toUTF8)
  let disk : Disk :=
    ⟨written [broken, (["home".toList, "config.toml".toList], "docs = 'x'".toUTF8)], []⟩
  let disk' : Disk := ⟨written [broken], []⟩
  let plain : ConfigSource := .project "./import-patterns.toml"
  let hidden : ConfigSource := .project "./.import-patterns.toml"
  have hplaces : places "." (some "home") = [plain] ++ hidden :: [.shared "home/config.toml"] := by
    decide +kernel
  have hplain : ¬ Occupied disk plain := by
    rw [← isThere_iff]
    decide +kernel
  have hhidden : Occupied disk hidden := by
    rw [← isThere_iff]
    decide +kernel
  have hchosen : Chosen disk "." none (some "home") [plain, hidden] hidden :=
    .first hplaces (by simpa using hplain) hhidden
  have hsame : ∀ place ∈ [plain, hidden], Occupied disk' place ↔ Occupied disk place := by
    simp only [← isThere_iff]
    decide +kernel
  have hread : ∀ path, hidden.path? = some path → disk'.read path = disk.read path := by
    rintro path ⟨⟩
    decide +kernel
  obtain ⟨hfind, -, hunseen⟩ := (source_by_precedence disk "." none (some "home")).2 _ _ hchosen
  obtain ⟨hfind', hload'⟩ := hunseen disk' hsame hread
  have hload : hidden.load disk = .error (.invalid "./.import-patterns.toml" .notToml) := by
    decide +kernel
  refine ⟨disk, disk', { Config.default with docs := some "x" }, ?_, by decide +kernel, hfind,
    hfind', hload'.trans hload⟩
  exact eq_ok_of_toOption (by decide +kernel)

end ImportLint.Proofs.ConfigPrecedence
