import ImportLint.Config.Decode
import ImportLint.Proofs.TomlKeys

/-!
What a document says, and the configuration that it gives: each field is what is written for its key,
or the default where the key is not there.  Nothing else in the document has a say.
-/

namespace ImportLint.Proofs.ConfigOverlay

open ImportLint.Toml
open ImportLint.Config
open ImportLint.Proofs.TomlKeys

section Readings

variable {α : Type}

/-- A text. -/
def text? : Item → Option String
  | .scalar _ (.text value) => some value
  | _ => none

/-- A truth value. -/
def flag? : Item → Option Bool
  | .scalar _ (.boolean value) => some value
  | _ => none

/-- A text that names a severity. -/
def severity? (item : Item) : Option Severity := (text? item).bind Severity.ofName?

/-- The items of a list. -/
def items? : Item → Option (List Item)
  | .array _ items => some items
  | .tables items => some items
  | _ => none

/-- A list all of whose items can be read. -/
def list? (read : Item → Option α) (item : Item) : Option (List α) :=
  (items? item).bind fun items => items.mapM read

/-- The entries of a table. -/
def entries? : Item → Option (List Entry)
  | .table _ _ entries => some entries
  | _ => none

/-- What is written for a key. -/
def written (read : Item → Option α) (name : String) (entries : List Entry) : Option α :=
  (entryOf? name entries).bind fun entry => read entry.2

/-- One pattern, or a list of patterns. -/
def restrictions? (item : Item) : Option (List String) :=
  ((text? item).map fun pattern => [pattern]).or (list? text? item)

/-- A table with a target and restrictions. -/
def policy? (item : Item) : Option PolicyEntry := do
  let entries ← entries? item
  return ⟨← written text? "target" entries, ← written restrictions? "restrictions" entries⟩

/-- What is written in a table of file settings, over other settings. -/
def settingsOver (settings : FileSettings) (entries : List Entry) : FileSettings where
  root := (written text? "root" entries).getD settings.root
  exclude := (written (list? text?) "exclude" entries).getD settings.exclude
  respectGitignore := (written flag? "respect_gitignore" entries).getD settings.respectGitignore

/-- What is written in a document, over the default. -/
def overlay (entries : List Entry) : Config where
  severity := (written severity? "severity" entries).getD Config.default.severity
  docs := (written text? "docs" entries).or Config.default.docs
  failOnParseError :=
    (written flag? "fail_on_parse_error" entries).getD Config.default.failOnParseError
  analyzer := settingsOver Config.default.analyzer ((written entries? "analyzer" entries).getD [])
  policies := (written (list? policy?) "policies" entries).getD Config.default.policies

theorem eq_of_text? {item : Item} {value : String} (h : text? item = some value) :
    ∃ span, item = .scalar span (.text value) := by
  rw [text?.eq_def] at h
  split at h
  · next span text =>
    cases h
    exact ⟨span, rfl⟩
  · cases h

theorem eq_of_entries? {item : Item} {entries : List Entry} (h : entries? item = some entries) :
    ∃ span form, item = .table span form entries := by
  rw [entries?.eq_def] at h
  split at h
  · next span form inner =>
    cases h
    exact ⟨span, form, rfl⟩
  · cases h

end Readings

section Types

/-- The known keys of a table of file settings have the types that are expected. -/
@[mk_iff]
structure WellTypedSettings (entries : List Entry) : Prop where
  root : ∀ entry ∈ entries, entry.1.name = "root" → (text? entry.2).isSome
  exclude : ∀ entry ∈ entries, entry.1.name = "exclude" → (list? text? entry.2).isSome
  respectGitignore :
    ∀ entry ∈ entries, entry.1.name = "respect_gitignore" → (flag? entry.2).isSome

instance (entries : List Entry) : Decidable (WellTypedSettings entries) :=
  decidable_of_iff _ (wellTypedSettings_iff entries).symm

/-- The known keys of a document have the types that are expected, and each policy has its target and
its restrictions. -/
@[mk_iff]
structure WellTyped (entries : List Entry) : Prop where
  severity : ∀ entry ∈ entries, entry.1.name = "severity" → (severity? entry.2).isSome
  docs : ∀ entry ∈ entries, entry.1.name = "docs" → (text? entry.2).isSome
  failOnParseError :
    ∀ entry ∈ entries, entry.1.name = "fail_on_parse_error" → (flag? entry.2).isSome
  analyzer : ∀ entry ∈ entries, entry.1.name = "analyzer" →
    ∃ inner ∈ entries? entry.2, WellTypedSettings inner
  policies : ∀ entry ∈ entries, entry.1.name = "policies" → (list? policy? entry.2).isSome

instance (entries : List Entry) : Decidable (WellTyped entries) :=
  decidable_of_iff _ (wellTyped_iff entries).symm

end Types

section Likeness

/-- Two tables give the same for a key, wherever it stands in them. -/
def Alike (same : Item → Item → Prop) (name : String) (entries entries' : List Entry) : Prop :=
  (∀ entry ∈ entries, entry.1.name = name →
    ∃ entry' ∈ entries', entry'.1.name = name ∧ same entry.2 entry'.2) ∧
  ∀ entry' ∈ entries', entry'.1.name = name →
    ∃ entry ∈ entries, entry.1.name = name ∧ same entry.2 entry'.2

instance (same : Item → Item → Prop) [DecidableRel same] (name : String)
    (entries entries' : List Entry) : Decidable (Alike same name entries entries') :=
  inferInstanceAs (Decidable (_ ∧ _))

/-- Two items that are read as the same. -/
def SameReading {α : Type} (read : Item → Option α) (item item' : Item) : Prop :=
  read item' = read item

instance {α : Type} [DecidableEq α] (read : Item → Option α) : DecidableRel (SameReading read) :=
  fun item item' => inferInstanceAs (Decidable (read item' = read item))

/-- Two tables whose entries are the same. -/
def SameTable (same : List Entry → List Entry → Prop) (item item' : Item) : Prop :=
  ∃ inner ∈ entries? item, ∃ inner' ∈ entries? item', same inner inner'

instance (same : List Entry → List Entry → Prop) [DecidableRel same] :
    DecidableRel (SameTable same) :=
  fun item item' => inferInstanceAs
    (Decidable (∃ inner ∈ entries? item, ∃ inner' ∈ entries? item', same inner inner'))

/-- Two lists whose items are the same, one by one. -/
def SameList (same : Item → Item → Prop) (item item' : Item) : Prop :=
  ∃ items ∈ items? item, ∃ items' ∈ items? item', items.Forall₂ same items'

instance (same : Item → Item → Prop) [DecidableRel same] : DecidableRel (SameList same) :=
  fun item item' => inferInstanceAs
    (Decidable (∃ items ∈ items? item, ∃ items' ∈ items? item', items.Forall₂ same items'))

/-- Two tables of file settings that say the same, in whatever order and among whatever other
keys. -/
@[mk_iff]
structure SameSettings (entries entries' : List Entry) : Prop where
  root : Alike (SameReading text?) "root" entries entries'
  exclude : Alike (SameReading (list? text?)) "exclude" entries entries'
  respectGitignore : Alike (SameReading flag?) "respect_gitignore" entries entries'

instance : DecidableRel SameSettings := fun entries entries' =>
  decidable_of_iff _ (sameSettings_iff entries entries').symm

/-- Two policies that say the same. -/
@[mk_iff]
structure SamePolicy (entries entries' : List Entry) : Prop where
  target : Alike (SameReading text?) "target" entries entries'
  restrictions : Alike (SameReading restrictions?) "restrictions" entries entries'

instance : DecidableRel SamePolicy := fun entries entries' =>
  decidable_of_iff _ (samePolicy_iff entries entries').symm

/-- Two documents that say the same, with their policies in the same order. -/
@[mk_iff]
structure SameDocument (entries entries' : List Entry) : Prop where
  severity : Alike (SameReading severity?) "severity" entries entries'
  docs : Alike (SameReading text?) "docs" entries entries'
  failOnParseError : Alike (SameReading flag?) "fail_on_parse_error" entries entries'
  analyzer : Alike (SameTable SameSettings) "analyzer" entries entries'
  policies : Alike (SameList (SameTable SamePolicy)) "policies" entries entries'

instance : DecidableRel SameDocument := fun entries entries' =>
  decidable_of_iff _ (sameDocument_iff entries entries').symm

end Likeness

section Keys

variable {α : Type} {read : Item → Option α} {name : String} {entries rest : List Entry}
  {entry : Entry} {item item' : Item}

/-- No two entries have the same key, and nor have two in a table in them. -/
structure KeyedEntries (entries : List Entry) : Prop where
  keys : (names entries).Nodup
  items : ∀ entry ∈ entries, WellKeyed entry.2

theorem keyedEntries_of_wellKeyed (h : WellKeyed item) (hentries : entries? item = some entries) :
    KeyedEntries entries := by
  obtain ⟨span, form, rfl⟩ := eq_of_entries? hentries
  cases h with
  | table hkeys hitems => exact ⟨hkeys, hitems⟩

theorem wellKeyed_of_items? (h : WellKeyed item) {items : List Item}
    (hitems : items? item = some items) : ∀ inner ∈ items, WellKeyed inner := by
  cases h with
  | scalar span value => cases hitems
  | table hkeys hinner => cases hitems
  | array hinner =>
      cases hitems
      exact hinner
  | tables hinner =>
      cases hitems
      exact hinner

theorem written_eq_none (hfresh : name ∉ names entries) : written read name entries = none := by
  have hnone : entryOf? name entries = none := by
    refine List.find?_eq_none.mpr fun entry hentry => ?_
    rw [decide_eq_true_eq]
    rintro rfl
    exact hfresh (List.mem_map_of_mem hentry)
  rw [written, hnone, Option.bind_none]

theorem written_singleton : written read name [entry] =
    if entry.1.name = name then read entry.2 else none := by
  rw [written, entryOf?, List.find?_singleton]
  by_cases hname : entry.1.name = name <;> simp [hname]

/-- An entry and those behind it, none of which has its key. -/
theorem written_cons (hfresh : entry.1.name ∉ names rest) :
    written read name (entry :: rest) =
      (written read name rest).or (written read name [entry]) := by
  rw [written_singleton]
  by_cases hname : entry.1.name = name
  · subst hname
    have hnone : written read entry.1.name rest = none := written_eq_none hfresh
    rw [if_pos rfl, hnone, Option.none_or]
    simp [written, entryOf?]
  · rw [if_neg hname, Option.or_none]
    simp [written, entryOf?, hname]

theorem written_of_mem (hkeys : (names entries).Nodup) (hentry : entry ∈ entries)
    (hname : entry.1.name = name) : written read name entries = read entry.2 := by
  induction entries with
  | nil => cases hentry
  | cons first rest ih =>
      obtain ⟨hfresh, hrest⟩ := List.nodup_cons.mp hkeys
      rw [written_cons hfresh, written_singleton]
      rcases List.mem_cons.mp hentry with rfl | hentry
      · have hnone : written read name rest = none := written_eq_none (hname ▸ hfresh)
        rw [if_pos hname, hnone, Option.none_or]
      · have hne : first.1.name ≠ name := by
          intro heq
          exact hfresh (List.mem_map.mpr ⟨entry, hentry, hname.trans heq.symm⟩)
        rw [if_neg hne, Option.or_none, ih hrest hentry]

end Keys

section Decoding

variable {α : Type} {decode : Item → Decoded α} {read : Item → Option α} {item : Item}
  {entries : List Entry}

theorem decodeText_of_text? {value : String} (h : text? item = some value) (expected : String) :
    Config.decodeText expected item = .ok value := by
  obtain ⟨span, rfl⟩ := eq_of_text? h
  rfl

theorem decodeFlag_of_flag? {value : Bool} (h : flag? item = some value) :
    decodeFlag item = .ok value := by
  rw [flag?.eq_def] at h
  split at h
  · cases h
    rfl
  · cases h

theorem decodeSeverity_of_severity? {value : Severity} (h : severity? item = some value) :
    decodeSeverity item = .ok value := by
  obtain ⟨name, hname, hvalue⟩ := Option.bind_eq_some_iff.mp h
  obtain ⟨span, rfl⟩ := eq_of_text? hname
  rw [decodeSeverity, severityOf, hvalue]

theorem decodeItems_of_mapM {items : List Item} {values : List α}
    (hdecode : ∀ item ∈ items, ∀ value, read item = some value → decode item = .ok value)
    (h : items.mapM read = some values) : decodeItems decode items = .ok values := by
  induction items generalizing values with
  | nil =>
      cases h
      rfl
  | cons item items ih =>
      rw [List.mapM_cons] at h
      obtain ⟨first, hfirst, hrest⟩ := Option.bind_eq_some_iff.mp h
      obtain ⟨rest, hitems, heq⟩ := Option.bind_eq_some_iff.mp hrest
      cases heq
      have htail := ih (fun item hitem => hdecode item (List.mem_cons_of_mem _ hitem)) hitems
      rw [decodeItems, hdecode item List.mem_cons_self first hfirst, htail]
      rfl

theorem decodeList_of_list? {values : List α}
    (hdecode : ∀ items, items? item = some items →
      ∀ inner ∈ items, ∀ value, read inner = some value → decode inner = .ok value)
    (h : list? read item = some values) : decodeList decode item = .ok values := by
  obtain ⟨items, hitems, hvalues⟩ := Option.bind_eq_some_iff.mp h
  have hdecoded := decodeItems_of_mapM (hdecode items hitems) hvalues
  rw [items?.eq_def] at hitems
  split at hitems
  · cases hitems
    exact hdecoded
  · cases hitems
    exact hdecoded
  · cases hitems

theorem decodeTexts_of_list? {values : List String} (h : list? text? item = some values) :
    decodeList (Config.decodeText "a string") item = .ok values :=
  decodeList_of_list? (fun _ _ _ _ _ htext => decodeText_of_text? htext _) h

theorem decodeRestrictions_of_restrictions? {values : List String}
    (h : restrictions? item = some values) : decodeRestrictions item = .ok values := by
  rw [decodeRestrictions.eq_def]
  split
  · cases h
    rfl
  · next hnone =>
    have htext : text? item = none := by
      rw [text?.eq_def]
      split
      · next span value => exact absurd rfl (hnone span value)
      · rfl
    rw [restrictions?, htext, Option.map_none, Option.none_or] at h
    rw [decodeTexts_of_list? h]

/-- A record is decoded field by field; as no key comes twice, the result is what is written over the
draft. -/
theorem decodeEntries_eq_ok {decode : α → String → Item → Decoded α}
    {merge : α → List Entry → α} (hnil : ∀ draft, merge draft [] = draft)
    (hcons : ∀ draft entry rest, entry.1.name ∉ names rest →
      merge (merge draft [entry]) rest = merge draft (entry :: rest))
    (hkeys : (names entries).Nodup)
    (hdecode : ∀ draft, ∀ entry ∈ entries,
      decode draft entry.1.name entry.2 = .ok (merge draft [entry]))
    (draft : α) : decodeEntries decode draft entries = .ok (merge draft entries) := by
  induction entries generalizing draft with
  | nil => rw [decodeEntries, hnil]
  | cons entry rest ih =>
      obtain ⟨hfresh, hrest⟩ := List.nodup_cons.mp hkeys
      have htail := ih hrest (fun draft entry hentry =>
        hdecode draft entry (List.mem_cons_of_mem _ hentry)) (merge draft [entry])
      rw [hcons draft entry rest hfresh] at htail
      rw [← htail, decodeEntries, hdecode draft entry List.mem_cons_self]
      rfl

end Decoding

section Records

variable {entries : List Entry} {entry : Entry} {item : Item}

theorem settingsOver_cons (settings : FileSettings) (entry : Entry) (rest : List Entry)
    (hfresh : entry.1.name ∉ names rest) :
    settingsOver (settingsOver settings [entry]) rest = settingsOver settings (entry :: rest) := by
  simp only [settingsOver, written_cons hfresh, Option.getD_or]

theorem decodeFileSetting_eq_ok (h : WellTypedSettings entries) (settings : FileSettings)
    (hentry : entry ∈ entries) :
    decodeFileSetting settings entry.1.name entry.2 = .ok (settingsOver settings [entry]) := by
  rw [decodeFileSetting.eq_def]
  split
  · next hname =>
    obtain ⟨value, hread⟩ :=
      Option.isSome_iff_exists.mp (h.root entry hentry hname)
    rw [decodeText_of_text? hread]
    simp [settingsOver, written_singleton, hname, hread]
  · next hname =>
    obtain ⟨value, hread⟩ :=
      Option.isSome_iff_exists.mp (h.exclude entry hentry hname)
    rw [decodeTexts_of_list? hread]
    simp [settingsOver, written_singleton, hname, hread]
  · next hname =>
    obtain ⟨value, hread⟩ :=
      Option.isSome_iff_exists.mp (h.respectGitignore entry hentry hname)
    rw [decodeFlag_of_flag? hread]
    simp [settingsOver, written_singleton, hname, hread]
  · next hroot hexclude hrespect =>
    simp only [settingsOver, written_singleton, if_neg hroot, if_neg hexclude, if_neg hrespect]
    rfl

theorem decodeFileSettings_eq_ok (hitem : WellKeyed item) (hentries : entries? item = some entries)
    (h : WellTypedSettings entries) :
    decodeFileSettings item = .ok (settingsOver .default entries) := by
  have hkeys := (keyedEntries_of_wellKeyed hitem hentries).keys
  obtain ⟨span, form, rfl⟩ := eq_of_entries? hentries
  exact decodeEntries_eq_ok (fun _ => rfl) settingsOver_cons hkeys
    (fun settings _ hentry => decodeFileSetting_eq_ok h settings hentry) .default

/-- What is written in a policy, over a draft. -/
def draftOver (draft : PolicyDraft) (entries : List Entry) : PolicyDraft where
  target := (written text? "target" entries).or draft.target
  restrictions := (written restrictions? "restrictions" entries).or draft.restrictions

theorem draftOver_cons (draft : PolicyDraft) (entry : Entry) (rest : List Entry)
    (hfresh : entry.1.name ∉ names rest) :
    draftOver (draftOver draft [entry]) rest = draftOver draft (entry :: rest) := by
  simp only [draftOver, written_cons hfresh, Option.or_assoc]

theorem decodePolicyField_eq_ok (hkeys : (names entries).Nodup) {target : String}
    {restrictions : List String} (htarget : written text? "target" entries = some target)
    (hrestrictions : written restrictions? "restrictions" entries = some restrictions)
    (draft : PolicyDraft) (hentry : entry ∈ entries) :
    decodePolicyField draft entry.1.name entry.2 = .ok (draftOver draft [entry]) := by
  rw [decodePolicyField.eq_def]
  split
  · next hname =>
    have hread : text? entry.2 = some target := by
      rw [← htarget, written_of_mem hkeys hentry hname]
    rw [decodeText_of_text? hread]
    simp [draftOver, written_singleton, hname, hread]
  · next hname =>
    have hread : restrictions? entry.2 = some restrictions := by
      rw [← hrestrictions, written_of_mem hkeys hentry hname]
    rw [decodeRestrictions_of_restrictions? hread]
    simp [draftOver, written_singleton, hname, hread]
  · next hother hother' =>
    simp only [draftOver, written_singleton, if_neg hother, if_neg hother']
    rfl

theorem decodePolicy_of_policy? (hitem : WellKeyed item) {policy : PolicyEntry}
    (h : policy? item = some policy) : decodePolicy item = .ok policy := by
  obtain ⟨entries, hentries, h⟩ := Option.bind_eq_some_iff.mp h
  obtain ⟨target, htarget, h⟩ := Option.bind_eq_some_iff.mp h
  obtain ⟨restrictions, hrestrictions, h⟩ := Option.bind_eq_some_iff.mp h
  cases h
  have hkeys := (keyedEntries_of_wellKeyed hitem hentries).keys
  have hdecoded : decodeEntries decodePolicyField ⟨none, none⟩ entries =
      .ok ⟨some target, some restrictions⟩ := by
    have hnil (draft : PolicyDraft) : draftOver draft [] = draft := rfl
    have hover : decodeEntries decodePolicyField ⟨none, none⟩ entries =
        .ok (draftOver ⟨none, none⟩ entries) :=
      decodeEntries_eq_ok hnil draftOver_cons hkeys (fun draft _ hentry =>
        decodePolicyField_eq_ok hkeys htarget hrestrictions draft hentry) _
    rw [hover, draftOver, htarget, hrestrictions]
    rfl
  obtain ⟨span, form, rfl⟩ := eq_of_entries? hentries
  rw [decodePolicy, hdecoded]
  rfl

/-- The file settings of a table. -/
def settings? (item : Item) : Option FileSettings :=
  (entries? item).map (settingsOver .default)

/-- What is written in a document, over another configuration. -/
def configOver (config : Config) (entries : List Entry) : Config where
  severity := (written severity? "severity" entries).getD config.severity
  docs := (written text? "docs" entries).or config.docs
  failOnParseError := (written flag? "fail_on_parse_error" entries).getD config.failOnParseError
  analyzer := (written settings? "analyzer" entries).getD config.analyzer
  policies := (written (list? policy?) "policies" entries).getD config.policies

theorem configOver_cons (config : Config) (entry : Entry) (rest : List Entry)
    (hfresh : entry.1.name ∉ names rest) :
    configOver (configOver config [entry]) rest = configOver config (entry :: rest) := by
  simp only [configOver, written_cons hfresh, Option.getD_or, Option.or_assoc]

theorem configOver_default (entries : List Entry) :
    configOver Config.default entries = overlay entries := by
  have hsettings : written settings? "analyzer" entries =
      (written entries? "analyzer" entries).map (settingsOver .default) := by
    rw [written, written, Option.map_bind]
    rfl
  rw [configOver, overlay, hsettings]
  cases written entries? "analyzer" entries <;> rfl

theorem decodeField_eq_ok (hkeyed : KeyedEntries entries) (h : WellTyped entries) (config : Config)
    (hentry : entry ∈ entries) :
    decodeField config entry.1.name entry.2 = .ok (configOver config [entry]) := by
  rw [decodeField.eq_def]
  split
  · next hname =>
    obtain ⟨value, hread⟩ :=
      Option.isSome_iff_exists.mp (h.severity entry hentry hname)
    rw [decodeSeverity_of_severity? hread]
    simp [configOver, written_singleton, hname, hread]
  · next hname =>
    obtain ⟨value, hread⟩ :=
      Option.isSome_iff_exists.mp (h.docs entry hentry hname)
    rw [decodeText_of_text? hread]
    simp [configOver, written_singleton, hname, hread]
  · next hname =>
    obtain ⟨value, hread⟩ :=
      Option.isSome_iff_exists.mp (h.failOnParseError entry hentry hname)
    rw [decodeFlag_of_flag? hread]
    simp [configOver, written_singleton, hname, hread]
  · next hname =>
    obtain ⟨inner, hinner, htyped⟩ := h.analyzer entry hentry hname
    rw [decodeFileSettings_eq_ok (hkeyed.items entry hentry) hinner htyped]
    simp [configOver, written_singleton, hname, settings?, Option.mem_def.mp hinner]
  · next hname =>
    obtain ⟨value, hread⟩ :=
      Option.isSome_iff_exists.mp (h.policies entry hentry hname)
    have hitem := hkeyed.items entry hentry
    rw [decodeList_of_list? (fun items hitems inner hinner policy hpolicy =>
      decodePolicy_of_policy? (wellKeyed_of_items? hitem hitems inner hinner) hpolicy) hread]
    simp [configOver, written_singleton, hname, hread]
  · next hseverity hdocs hfail hanalyzer hpolicies =>
    simp only [configOver, written_singleton, if_neg hseverity, if_neg hdocs, if_neg hfail,
      if_neg hanalyzer, if_neg hpolicies]
    rfl

theorem decode_eq_ok (hkeyed : KeyedEntries entries) (h : WellTyped entries) :
    decode entries = .ok (overlay entries) := by
  have hnil (config : Config) : configOver config [] = config := rfl
  rw [← configOver_default]
  exact decodeEntries_eq_ok hnil configOver_cons hkeyed.keys
    (fun config _ hentry => decodeField_eq_ok hkeyed h config hentry) .default

end Records

section Documents

variable {α : Type} {read : Item → Option α} {same : Item → Item → Prop} {name : String}
  {entries entries' : List Entry} {item item' : Item}

theorem Alike.imp {same' : Item → Item → Prop} (h : Alike same name entries entries')
    (himp : ∀ entry ∈ entries, ∀ entry' ∈ entries', same entry.2 entry'.2 →
      same' entry.2 entry'.2) : Alike same' name entries entries' := by
  constructor
  · intro entry hentry hname
    obtain ⟨entry', hentry', hname', hsame⟩ := h.1 entry hentry hname
    exact ⟨entry', hentry', hname', himp entry hentry entry' hentry' hsame⟩
  · intro entry' hentry' hname'
    obtain ⟨entry, hentry, hname, hsame⟩ := h.2 entry' hentry' hname'
    exact ⟨entry, hentry, hname, himp entry hentry entry' hentry' hsame⟩

theorem Alike.written_eq (h : Alike (SameReading read) name entries entries')
    (hkeyed : KeyedEntries entries) (hkeyed' : KeyedEntries entries') :
    written read name entries' = written read name entries := by
  by_cases hmem : name ∈ names entries
  · obtain ⟨entry, hentry, hname⟩ := List.mem_map.mp hmem
    obtain ⟨entry', hentry', hname', hsame⟩ := h.1 entry hentry hname
    rw [written_of_mem hkeyed.keys hentry hname, written_of_mem hkeyed'.keys hentry' hname']
    exact hsame
  · have hmem' : name ∉ names entries' := by
      intro hmem'
      obtain ⟨entry', hentry', hname'⟩ := List.mem_map.mp hmem'
      obtain ⟨entry, hentry, hname, -⟩ := h.2 entry' hentry' hname'
      exact hmem (List.mem_map.mpr ⟨entry, hentry, hname⟩)
    rw [written_eq_none hmem, written_eq_none hmem']

theorem Alike.isSome_reading (h : Alike (SameReading read) name entries entries')
    (htyped : ∀ entry ∈ entries, entry.1.name = name → (read entry.2).isSome) :
    ∀ entry' ∈ entries', entry'.1.name = name → (read entry'.2).isSome := by
  intro entry' hentry' hname'
  obtain ⟨entry, hentry, hname, hsame⟩ := h.2 entry' hentry' hname'
  rw [SameReading] at hsame
  rw [hsame]
  exact htyped entry hentry hname

theorem settingsOver_of_same (h : SameSettings entries entries') (hkeyed : KeyedEntries entries)
    (hkeyed' : KeyedEntries entries') (settings : FileSettings) :
    settingsOver settings entries' = settingsOver settings entries := by
  simp only [settingsOver, h.root.written_eq hkeyed hkeyed',
    h.exclude.written_eq hkeyed hkeyed', h.respectGitignore.written_eq hkeyed hkeyed']

theorem wellTypedSettings_of_same (h : SameSettings entries entries')
    (htyped : WellTypedSettings entries) : WellTypedSettings entries' where
  root := h.root.isSome_reading htyped.root
  exclude := h.exclude.isSome_reading htyped.exclude
  respectGitignore := h.respectGitignore.isSome_reading htyped.respectGitignore

theorem policy?_of_same (hitem : WellKeyed item) (hitem' : WellKeyed item')
    (hentries : entries? item = some entries) (hentries' : entries? item' = some entries')
    (h : SamePolicy entries entries') : policy? item' = policy? item := by
  have hkeyed := keyedEntries_of_wellKeyed hitem hentries
  have hkeyed' := keyedEntries_of_wellKeyed hitem' hentries'
  simp only [policy?, hentries, hentries', Option.bind_eq_bind, Option.bind_some,
    h.target.written_eq hkeyed hkeyed', h.restrictions.written_eq hkeyed hkeyed']

theorem mapM_policy?_of_same {items items' : List Item}
    (hitems : ∀ item ∈ items, WellKeyed item) (hitems' : ∀ item ∈ items', WellKeyed item)
    (h : items.Forall₂ (SameTable SamePolicy) items') :
    items'.mapM policy? = items.mapM policy? := by
  induction h with
  | nil => rfl
  | cons hpolicy _ ih =>
      obtain ⟨hfirst, hrest⟩ := List.forall_mem_cons.mp hitems
      obtain ⟨hfirst', hrest'⟩ := List.forall_mem_cons.mp hitems'
      obtain ⟨inner, hinner, inner', hinner', hsame⟩ := hpolicy
      rw [List.mapM_cons, List.mapM_cons, ih hrest hrest',
        policy?_of_same hfirst hfirst' hinner hinner' hsame]

theorem alike_settings (h : SameDocument entries entries') (hkeyed : KeyedEntries entries)
    (hkeyed' : KeyedEntries entries') :
    Alike (SameReading settings?) "analyzer" entries entries' := by
  refine h.analyzer.imp fun entry hentry entry' hentry' hsame => ?_
  obtain ⟨inner, hinner, inner', hinner', hsame⟩ := hsame
  have hinnerKeyed := keyedEntries_of_wellKeyed (hkeyed.items entry hentry) hinner
  have hinnerKeyed' := keyedEntries_of_wellKeyed (hkeyed'.items entry' hentry') hinner'
  rw [SameReading, settings?, settings?, Option.mem_def.mp hinner, Option.mem_def.mp hinner',
    Option.map_some, Option.map_some, settingsOver_of_same hsame hinnerKeyed hinnerKeyed']

theorem alike_policies (h : SameDocument entries entries') (hkeyed : KeyedEntries entries)
    (hkeyed' : KeyedEntries entries') :
    Alike (SameReading (list? policy?)) "policies" entries entries' := by
  refine h.policies.imp fun entry hentry entry' hentry' hsame => ?_
  obtain ⟨items, hitems, items', hitems', hsame⟩ := hsame
  have hwell := wellKeyed_of_items? (hkeyed.items entry hentry) hitems
  have hwell' := wellKeyed_of_items? (hkeyed'.items entry' hentry') hitems'
  rw [SameReading, list?, list?, Option.mem_def.mp hitems, Option.mem_def.mp hitems',
    Option.bind_some, Option.bind_some, mapM_policy?_of_same hwell hwell' hsame]

theorem overlay_of_same (h : SameDocument entries entries') (hkeyed : KeyedEntries entries)
    (hkeyed' : KeyedEntries entries') : overlay entries' = overlay entries := by
  have hanalyzer := (alike_settings h hkeyed hkeyed').written_eq hkeyed hkeyed'
  have hpolicies := (alike_policies h hkeyed hkeyed').written_eq hkeyed hkeyed'
  rw [← configOver_default, ← configOver_default]
  simp only [configOver, h.severity.written_eq hkeyed hkeyed', h.docs.written_eq hkeyed hkeyed',
    h.failOnParseError.written_eq hkeyed hkeyed', hanalyzer, hpolicies]

theorem wellTyped_of_same (h : SameDocument entries entries') (hkeyed : KeyedEntries entries)
    (hkeyed' : KeyedEntries entries') (htyped : WellTyped entries) : WellTyped entries' where
  severity := h.severity.isSome_reading htyped.severity
  docs := h.docs.isSome_reading htyped.docs
  failOnParseError := h.failOnParseError.isSome_reading htyped.failOnParseError
  analyzer := by
    intro entry' hentry' hname'
    obtain ⟨entry, hentry, hname, inner, hinner, inner', hinner', hsame⟩ :=
      h.analyzer.2 entry' hentry' hname'
    obtain ⟨found, hfound, hinnerTyped⟩ := htyped.analyzer entry hentry hname
    obtain rfl : found = inner := Option.mem_unique hfound hinner
    exact ⟨inner', hinner', wellTypedSettings_of_same hsame hinnerTyped⟩
  policies := (alike_policies h hkeyed hkeyed').isSome_reading htyped.policies

/-- The entries of the table that a text stands for. -/
def document? (text : String) : Option (List Entry) :=
  (Toml.parse text).bind entries?

theorem keyedEntries_document? {text : String} (h : document? text = some entries) :
    KeyedEntries entries := by
  obtain ⟨root, hroot, hentries⟩ := Option.bind_eq_some_iff.mp h
  exact keyedEntries_of_wellKeyed (keyedTable_parse hroot).wellKeyed hentries

theorem isSome_document? {text : String} (h : (Toml.parse text).isSome) :
    (document? text).isSome := by
  obtain ⟨root, hroot⟩ := Option.isSome_iff_exists.mp h
  obtain ⟨span, form, entries, rfl⟩ := (keyedTable_parse hroot).isTable
  rw [document?, hroot]
  rfl

theorem parse_eq_ok {text : String} (h : document? text = some entries)
    (htyped : WellTyped entries) : Config.parse text = .ok (overlay entries) := by
  have hdecoded := decode_eq_ok (keyedEntries_document? h) htyped
  obtain ⟨root, hroot, hentries⟩ := Option.bind_eq_some_iff.mp h
  obtain ⟨span, form, rfl⟩ := eq_of_entries? hentries
  rw [Config.parse, hroot]
  dsimp only
  rw [hdecoded]

/-- A text of the right shape gives what it says over the default, and so does every other text that
says the same: neither unknown keys nor the order of keys have a say.  One pattern can be written as a
list or not. -/
theorem parse_overlays_default (text : String) :
    ((Toml.parse text).isSome → (document? text).isSome) ∧
    (∀ entries, document? text = some entries → WellTyped entries →
      Config.parse text = .ok (overlay entries) ∧
      ∀ text' entries', document? text' = some entries' → SameDocument entries entries' →
        Config.parse text' = .ok (overlay entries)) ∧
    ∀ span span' span'' pattern, SameReading restrictions? (.scalar span (.text pattern))
      (.array span' [.scalar span'' (.text pattern)]) := by
  refine ⟨isSome_document?, fun entries hdocument htyped => ⟨parse_eq_ok hdocument htyped, ?_⟩,
    fun span span' span'' pattern => rfl⟩
  intro text' entries' hdocument' hsame
  have hkeyed := keyedEntries_document? hdocument
  have hkeyed' := keyedEntries_document? hdocument'
  rw [parse_eq_ok hdocument' (wellTyped_of_same hsame hkeyed hkeyed' htyped),
    overlay_of_same hsame hkeyed hkeyed']

set_option maxRecDepth 100000 in
/-- The same document with its keys in two orders, with and without a key that is not known, and with
its one pattern alone and in a list. -/
theorem parse_overlays_default_rearranged :
    ∃ config : Config, config.analyzer = ⟨"s", ["**/node_modules/**"], true⟩ ∧
      config.policies = [⟨"a", ["b"]⟩] ∧
      Config.parse "analyzer.root='s'\n[[policies]]\nx=1\ntarget='a'\nrestrictions='b'" =
        .ok config ∧
      Config.parse "policies=[\x7brestrictions=['b'],target='a'\x7d]\n[analyzer]\nroot='s'" =
        .ok config := by
  let text := "analyzer.root='s'\n[[policies]]\nx=1\ntarget='a'\nrestrictions='b'"
  let text' := "policies=[\x7brestrictions=['b'],target='a'\x7d]\n[analyzer]\nroot='s'"
  have htext : (Toml.parse text).isSome := by decide +kernel
  have htext' : (Toml.parse text').isSome := by decide +kernel
  have htyped : ∀ entries ∈ document? text, WellTyped entries := by decide +kernel
  have hsame : ∀ entries ∈ document? text, ∀ entries' ∈ document? text',
      SameDocument entries entries' := by decide +kernel
  have hvalues : ∀ entries ∈ document? text,
      (overlay entries).analyzer = ⟨"s", ["**/node_modules/**"], true⟩ ∧
        (overlay entries).policies = [⟨"a", ["b"]⟩] := by decide +kernel
  obtain ⟨hdocument, hparse, -⟩ := parse_overlays_default text
  obtain ⟨entries, hentries⟩ := Option.isSome_iff_exists.mp (hdocument htext)
  obtain ⟨entries', hentries'⟩ :=
    Option.isSome_iff_exists.mp ((parse_overlays_default text').1 htext')
  obtain ⟨hconfig, hsays⟩ := hparse entries hentries (htyped entries hentries)
  obtain ⟨hanalyzer, hpolicies⟩ := hvalues entries hentries
  exact ⟨overlay entries, hanalyzer, hpolicies, hconfig,
    hsays text' entries' hentries' (hsame entries hentries entries' hentries')⟩

end Documents

end ImportLint.Proofs.ConfigOverlay
