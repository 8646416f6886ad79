import ImportLint.Toml.Document
import Mathlib.Data.List.Nodup

/-!
The keys of documents.  The tree that is read from a text is a table, and no table in it gives a key
twice: every change that a line makes to the tree keeps it so.
-/

namespace ImportLint.Proofs.TomlKeys

open ImportLint.Toml

/-- The names of the keys of a table, in order. -/
def names (entries : List Entry) : List String := entries.map fun entry => entry.1.name

/-- No table in an item gives a key twice. -/
inductive WellKeyed : Item → Prop
  | scalar (span : Span) (value : Scalar) : WellKeyed (.scalar span value)
  | array {span : Span} {items : List Item} (hitems : ∀ item ∈ items, WellKeyed item) :
      WellKeyed (.array span items)
  | table {span : Option Span} {form : Form} {entries : List Entry} (hkeys : (names entries).Nodup)
      (hentries : ∀ entry ∈ entries, WellKeyed entry.2) : WellKeyed (.table span form entries)
  | tables {items : List Item} (hitems : ∀ item ∈ items, WellKeyed item) :
      WellKeyed (.tables items)

/-- A table without repeated keys, neither its own nor those of tables in it. -/
structure KeyedTable (item : Item) : Prop where
  isTable : ∃ span form entries, item = .table span form entries
  wellKeyed : WellKeyed item

section Tables

variable {span : Option Span} {form : Form} {entries : List Entry} {key : Key} {item : Item}

theorem WellKeyed.keyedTable (h : WellKeyed (.table span form entries)) :
    KeyedTable (.table span form entries) :=
  ⟨⟨span, form, entries, rfl⟩, h⟩

theorem wellKeyed_made (span : Option Span) (form : Form) : WellKeyed (.table span form []) :=
  .table .nil (by simp)

theorem wellKeyed_of_entryOf? {name : String} (h : WellKeyed (.table span form entries))
    {entry : Entry} (hentry : entryOf? name entries = some entry) : WellKeyed entry.2 := by
  cases h with
  | table hkeys hentries => exact hentries entry (List.mem_of_find?_eq_some hentry)

theorem WellKeyed.add (h : WellKeyed (.table span form entries))
    (hnone : entryOf? key.name entries = none) (hitem : WellKeyed item) :
    WellKeyed (.table span form (entries ++ [(key, item)])) := by
  cases h with
  | table hkeys hentries =>
      have hfresh : key.name ∉ names entries := by
        rw [names, List.mem_map]
        rintro ⟨entry, hentry, hname⟩
        exact absurd hname (by simpa using List.find?_eq_none.mp hnone entry hentry)
      refine .table ?_ ?_
      · rw [names, List.map_append, List.nodup_append]
        refine ⟨hkeys, by simp, ?_⟩
        intro name hname other hother heq
        rw [heq, List.mem_singleton.mp hother] at hname
        exact hfresh hname
      · intro entry hentry
        rcases List.mem_append.mp hentry with hentry | hentry
        · exact hentries entry hentry
        · rw [List.mem_singleton.mp hentry]
          exact hitem

theorem WellKeyed.replace (h : WellKeyed (.table span form entries)) (name : String)
    (hitem : WellKeyed item) : WellKeyed (.table span form (replaceEntry name item entries)) := by
  cases h with
  | table hkeys hentries =>
      refine .table ?_ ?_
      · have hnames : names (replaceEntry name item entries) = names entries := by
          rw [names, replaceEntry, List.map_map]
          refine List.map_congr_left fun entry _ => ?_
          rw [Function.comp_apply]
          split <;> rfl
        rwa [hnames]
      · intro entry hentry
        obtain ⟨old, hold, rfl⟩ := List.mem_map.mp hentry
        split
        · exact hitem
        · exact hentries old hold

theorem wellKeyed_tables_append {items : List Item} (hitems : ∀ item ∈ items, WellKeyed item)
    (hitem : WellKeyed item) : WellKeyed (.tables (items ++ [item])) := by
  refine .tables fun other hmem => ?_
  rcases List.mem_append.mp hmem with hmem | hmem
  · exact hitems other hmem
  · rw [List.mem_singleton.mp hmem]
    exact hitem

theorem WellKeyed.filter (h : WellKeyed (.table span form entries)) (keep : Entry → Bool) :
    WellKeyed (.table span form (entries.filter keep)) := by
  cases h with
  | table hkeys hentries =>
      exact .table (hkeys.sublist (List.filter_sublist.map _))
        fun entry hentry => hentries entry (List.mem_of_mem_filter hentry)

end Tables

section Changes

variable {α : Type} {change : Item → Option (Item × α)} {result : α → Prop}

/-- A change that only tables allow and that repeats no key, and what holds of its result. -/
def Keeps (change : Item → Option (Item × α)) (result : α → Prop) : Prop :=
  ∀ item item' a, change item = some (item', a) → WellKeyed item → KeyedTable item' ∧ result a

theorem Keeps.descend (h : Keeps change result) (dotted : Bool) (keys : List Key) :
    Keeps (Item.descend dotted change keys) result := by
  induction keys with
  | nil =>
      intro item item' a hitem
      rw [Item.descend] at hitem
      exact h item item' a hitem
  | cons key keys ih =>
      intro item item' a hitem hkeyed
      rcases item with _ | _ | ⟨span, form, entries⟩ | _
      · cases hitem
      · cases hitem
      · rw [Item.descend] at hitem
        split at hitem
        · next hnone =>
          obtain ⟨⟨inner, b⟩, hinner, heq⟩ := Option.bind_eq_some_iff.mp hitem
          cases heq
          obtain ⟨hkept, hresult⟩ := ih _ _ _ hinner (wellKeyed_made _ _)
          exact ⟨(hkeyed.add hnone hkept.wellKeyed).keyedTable, hresult⟩
        · next hsome =>
          split at hitem
          · cases hitem
          · obtain ⟨⟨inner, b⟩, hinner, heq⟩ := Option.bind_eq_some_iff.mp hitem
            cases heq
            obtain ⟨hkept, hresult⟩ := ih _ _ _ hinner (wellKeyed_of_entryOf? hkeyed hsome)
            exact ⟨(hkeyed.replace key.name hkept.wellKeyed).keyedTable, hresult⟩
        · next items hsome =>
          have hitems : ∀ item ∈ items, WellKeyed item := by
            cases wellKeyed_of_entryOf? hkeyed hsome with
            | tables hitems => exact hitems
          split at hitem
          · cases hitem
          · next last hlast =>
            obtain ⟨⟨inner, b⟩, hinner, heq⟩ := Option.bind_eq_some_iff.mp hitem
            cases heq
            obtain ⟨hkept, hresult⟩ := ih _ _ _ hinner (hitems last (List.mem_of_getLast? hlast))
            have htables := wellKeyed_tables_append (fun item hmem =>
              hitems item ((List.dropLast_sublist items).subset hmem)) hkept.wellKeyed
            exact ⟨(hkeyed.replace key.name htables).keyedTable, hresult⟩
        · cases hitem
      · cases hitem

theorem keeps_addEntry (path : List Key) (key : Key) {value : Item} (hvalue : WellKeyed value) :
    Keeps (Item.addEntry path key value) fun _ => True := by
  intro item item' a hitem hkeyed
  rw [Item.addEntry.eq_def] at hitem
  split at hitem
  · split at hitem
    · cases hitem
    · split at hitem
      · cases hitem
      · next hnone =>
        cases hitem
        exact ⟨(hkeyed.add (by simpa using hnone) hvalue).keyedTable, trivial⟩
  · cases hitem

theorem keeps_takeTable (key : Key) : Keeps (Item.takeTable key) fun entries =>
    ∀ span form, WellKeyed (.table span form entries) := by
  intro item item' a hitem hkeyed
  rw [Item.takeTable.eq_def] at hitem
  split at hitem
  · split at hitem
    · cases hitem
      exact ⟨hkeyed.keyedTable, wellKeyed_made⟩
    · next hsome =>
      cases hitem
      cases wellKeyed_of_entryOf? hkeyed hsome with
      | table hkeys hentries =>
          exact ⟨(hkeyed.filter _).keyedTable, fun _ _ => .table hkeys hentries⟩
    · cases hitem
  · cases hitem

theorem keeps_putTable (key : Key) {table : Item} (htable : WellKeyed table) :
    Keeps (Item.putTable key table) fun _ => True := by
  intro item item' a hitem hkeyed
  rw [Item.putTable.eq_def] at hitem
  split at hitem
  · split at hitem
    · next hnone =>
      cases hitem
      exact ⟨(hkeyed.add hnone htable).keyedTable, trivial⟩
    · cases hitem
      exact ⟨(hkeyed.replace key.name htable).keyedTable, trivial⟩
    · cases hitem
  · cases hitem

theorem keeps_openTables (key : Key) : Keeps (Item.openTables key) fun _ => True := by
  intro item item' a hitem hkeyed
  rw [Item.openTables.eq_def] at hitem
  split at hitem
  · split at hitem
    · next hnone =>
      cases hitem
      exact ⟨(hkeyed.add hnone (.tables (by simp))).keyedTable, trivial⟩
    · cases hitem
      exact ⟨hkeyed.keyedTable, trivial⟩
    · cases hitem
  · cases hitem

theorem keeps_pushTable (key : Key) {table : Item} (htable : WellKeyed table) :
    Keeps (Item.pushTable key table) fun _ => True := by
  intro item item' a hitem hkeyed
  rw [Item.pushTable.eq_def] at hitem
  split at hitem
  · split at hitem
    · next hnone =>
      cases hitem
      refine ⟨(hkeyed.add hnone (.tables ?_)).keyedTable, trivial⟩
      simpa using htable
    · next items hsome =>
      cases hitem
      have htables : WellKeyed (.tables (items ++ [table])) := by
        cases wellKeyed_of_entryOf? hkeyed hsome with
        | tables hitems => exact wellKeyed_tables_append hitems htable
      exact ⟨(hkeyed.replace key.name htables).keyedTable, trivial⟩
    · cases hitem
  · cases hitem

theorem keyedTable_set {item item' value : Item} {path : List Key} {key : Key}
    (h : item.set path key value = some item') (hitem : WellKeyed item)
    (hvalue : WellKeyed value) : KeyedTable item' := by
  obtain ⟨⟨inner, a⟩, hdescend, rfl⟩ := Option.map_eq_some_iff.mp h
  exact (((keeps_addEntry path key hvalue).descend true path) _ _ _ hdescend hitem).1

end Changes

section Scanners

open Scanner

variable {α β : Type} {scanner : Scanner α} {next : α → Scanner β} {P : α → Prop} {Q : β → Prop}

/-- All that is ever read has a property. -/
def Yields (scanner : Scanner α) (P : α → Prop) : Prop :=
  ∀ place a place', scanner place = some (a, place') → P a

theorem yields_any (scanner : Scanner α) : Yields scanner fun _ => True :=
  fun _ _ _ _ => trivial

theorem yields_refuse : Yields (refuse : Scanner α) P :=
  fun _ _ _ h => nomatch h

theorem yields_pure {a : α} (h : P a) : Yields (pure a : Scanner α) P := by
  intro place b place' hb
  cases hb
  exact h

theorem Yields.bind (h : Yields scanner P) (hnext : ∀ a, P a → Yields (next a) Q) :
    Yields (scanner >>= next) Q := by
  intro place b place' hb
  obtain ⟨⟨a, middle⟩, ha, hrest⟩ := Option.bind_eq_some_iff.mp hb
  exact hnext a (h place a middle ha) middle b place' hrest

/-- What is read first does not matter. -/
theorem yields_bind (hnext : ∀ a, Yields (next a) Q) : Yields (scanner >>= next) Q :=
  (yields_any scanner).bind fun a _ => hnext a

theorem Yields.spanned {next : α × Span → Scanner β} (h : Yields scanner P)
    (hnext : ∀ a span, P a → Yields (next (a, span)) Q) :
    Yields (spanned scanner >>= next) Q := by
  refine Yields.bind (P := fun read => P read.1) ?_ fun (a, span) ha => hnext a span ha
  exact yields_bind fun _ => h.bind fun _ ha => yields_bind fun _ => yields_pure ha

theorem wellKeyed_inlineTable {span : Span} {entries : List (List Key × Key × Item)}
    {table item : Item} (h : inlineTable span entries table = some item)
    (hentries : ∀ entry ∈ entries, WellKeyed entry.2.2) (htable : WellKeyed table) :
    WellKeyed item := by
  induction entries generalizing table with
  | nil =>
      rw [inlineTable.eq_def] at h
      split at h
      · cases h
        cases htable with
        | table hkeys hinner => exact .table hkeys hinner
      · cases h
      · next heq => cases heq
  | cons entry entries ih =>
      obtain ⟨path, key, value⟩ := entry
      rw [inlineTable] at h
      obtain ⟨next, hnext, hrest⟩ := Option.bind_eq_some_iff.mp h
      have hvalue : WellKeyed value := hentries _ List.mem_cons_self
      exact ih hrest (fun entry hentry => hentries entry (List.mem_cons_of_mem _ hentry))
        (keyedTable_set hnext htable hvalue).wellKeyed

theorem yields_arrayItems {item : Scanner Item} (h : Yields item WellKeyed) (fuel : Nat) :
    Yields (arrayItems item fuel) fun items => ∀ item ∈ items, WellKeyed item := by
  induction fuel with
  | zero => exact yields_refuse
  | succ fuel ih =>
      rw [arrayItems]
      refine yields_bind fun _ => yields_bind fun c => ?_
      split
      · exact yields_bind fun _ => yields_pure (by simp)
      · refine h.bind fun first hfirst => yields_bind fun _ => yields_bind fun c => ?_
        split
        · exact ih.bind fun rest hrest => yields_pure (List.forall_mem_cons.mpr ⟨hfirst, hrest⟩)
        · exact yields_pure (by simpa using hfirst)
        · exact yields_refuse

theorem yields_commaSeparated {item : Scanner α} (h : Yields item P) (after : Scanner Unit)
    (fuel : Nat) : Yields (commaSeparated item after fuel) fun items => ∀ item ∈ items, P item := by
  induction fuel with
  | zero => exact yields_refuse
  | succ fuel ih =>
      rw [commaSeparated]
      refine h.bind fun first hfirst => yields_bind fun _ => yields_bind fun c => ?_
      split
      · refine yields_bind fun _ => ih.bind fun rest hrest => ?_
        exact yields_pure (List.forall_mem_cons.mpr ⟨hfirst, hrest⟩)
      · exact yields_pure (by simpa using hfirst)

theorem yields_keyValue {value : Scanner Item} (h : Yields value WellKeyed) :
    Yields (keyValue value) fun read => WellKeyed read.2.2 :=
  yields_bind fun (_, _) => yields_bind fun _ => yields_bind fun _ =>
    h.bind fun _ hvalue => yields_pure hvalue

theorem yields_scalar : Yields (do let (value, span) ← spanned scalar; return .scalar span value)
    WellKeyed :=
  yields_bind fun (value, span) => yields_pure (.scalar span value)

theorem yields_value (depth : Nat) : Yields (value depth) WellKeyed := by
  induction depth with
  | zero => exact yields_scalar
  | succ depth ih =>
      rw [value]
      refine yields_bind fun c => ?_
      split
      · refine Yields.spanned (P := fun items => ∀ item ∈ items, WellKeyed item)
          (yields_bind fun _ => yields_bind fun place => yields_arrayItems ih _)
          fun items span hitems => yields_pure (.array hitems)
      · refine Yields.spanned (P := fun entries => ∀ entry ∈ entries, WellKeyed entry.2.2)
          ?_ fun entries span hentries => ?_
        · refine yields_bind fun _ => yields_bind fun _ => yields_bind fun c => ?_
          split
          · exact yields_bind fun _ => yields_pure (by simp)
          · refine yields_bind fun place => ?_
            refine (yields_commaSeparated (yields_keyValue ih) blanks _).bind fun _ hentries => ?_
            exact yields_bind fun _ => yields_pure hentries
        · dsimp only
          split
          · next table htable =>
            exact yields_pure (wellKeyed_inlineTable htable hentries (wellKeyed_made _ _))
          · exact yields_refuse
      · exact yields_scalar

end Scanners

section Documents

open Scanner

/-- What has been read of a document is made of tables without repeated keys. -/
structure KeyedDraft (draft : Draft) : Prop where
  root : KeyedTable draft.root
  current : KeyedTable draft.current

variable {draft : Draft}

theorem keyedDraft_empty : KeyedDraft Draft.empty :=
  ⟨(wellKeyed_made _ _).keyedTable, (wellKeyed_made _ _).keyedTable⟩

theorem KeyedDraft.close (h : KeyedDraft draft) {root : Item} (hclose : draft.close = some root) :
    KeyedTable root := by
  rw [Draft.close] at hclose
  split at hclose
  · cases hclose
    exact h.current
  · next key above _ =>
    obtain ⟨⟨item, a⟩, hput, rfl⟩ := Option.map_eq_some_iff.mp hclose
    have hkeeps : Keeps ((if draft.repeated then Item.pushTable else Item.putTable) key
        draft.current) fun _ => True := by
      split
      · exact keeps_pushTable key h.current.wellKeyed
      · exact keeps_putTable key h.current.wellKeyed
    exact (hkeeps.descend false above.reverse _ _ _ hput h.root.wellKeyed).1

theorem KeyedDraft.begin (h : KeyedDraft draft) {path : List Key} {key : Key} {span : Span}
    {repeated : Bool} {next : Draft} (hbegin : draft.begin path key span repeated = some next) :
    KeyedDraft next := by
  obtain ⟨root, hclose, hopen⟩ := Option.bind_eq_some_iff.mp hbegin
  have hroot := (h.close hclose).wellKeyed
  split at hopen
  · obtain ⟨⟨item, a⟩, hitem, heq⟩ := Option.bind_eq_some_iff.mp hopen
    cases heq
    exact ⟨((keeps_openTables key).descend false path _ _ _ hitem hroot).1,
      (wellKeyed_made _ _).keyedTable⟩
  · obtain ⟨⟨item, entries⟩, hitem, heq⟩ := Option.bind_eq_some_iff.mp hopen
    cases heq
    obtain ⟨hkept, hentries⟩ := (keeps_takeTable key).descend false path _ _ _ hitem hroot
    exact ⟨hkept, (hentries _ _).keyedTable⟩

theorem KeyedTable.extendTo {item : Item} (h : KeyedTable item) (value : Item) :
    KeyedTable (item.extendTo value) := by
  obtain ⟨span, form, entries, rfl⟩ := h.isTable
  rw [Item.extendTo.eq_def]
  split
  · next heq _ =>
    cases heq
    cases h.wellKeyed with
    | table hkeys hentries => exact (WellKeyed.table hkeys hentries).keyedTable
  · exact h

theorem KeyedDraft.set (h : KeyedDraft draft) {path : List Key} {key : Key} {value : Item}
    {next : Draft} (hset : draft.set path key value = some next) (hvalue : WellKeyed value) :
    KeyedDraft next := by
  obtain ⟨current, hcurrent, heq⟩ := Option.bind_eq_some_iff.mp hset
  cases heq
  exact ⟨h.root, keyedTable_set hcurrent (h.current.extendTo value).wellKeyed hvalue⟩

theorem yields_header (h : KeyedDraft draft) : Yields (header draft) KeyedDraft := by
  refine yields_bind fun ((path, key, repeated), span) => yields_bind fun _ => ?_
  split
  · next next hbegin => exact yields_pure (h.begin hbegin)
  · exact yields_refuse

/-- A line adds no key to a table that has it already. -/
theorem yields_line (h : KeyedDraft draft) : Yields (line draft) KeyedDraft := by
  refine yields_bind fun _ => yields_bind fun c => ?_
  split
  · exact yields_pure h
  · exact yields_bind fun _ => yields_pure h
  · exact yields_bind fun _ => yields_pure h
  · exact yields_bind fun _ => yields_pure h
  · exact yields_header h
  · refine (yields_keyValue (yields_value _)).bind fun (path, key, item) hitem => ?_
    refine yields_bind fun _ => ?_
    split
    · next next hset => exact yields_pure (h.set hset hitem)
    · exact yields_refuse

theorem yields_lines (fuel : Nat) (h : KeyedDraft draft) :
    Yields (lines fuel draft) KeyedDraft := by
  induction fuel generalizing draft with
  | zero => exact yields_refuse
  | succ fuel ih =>
      rw [lines]
      refine yields_bind fun place => ?_
      split
      · exact yields_pure h
      · exact (yields_line h).bind fun next hnext => ih hnext

/-- The tree of a text is a table, and no table in it gives a key twice. -/
theorem keyedTable_parse {text : String} {root : Item} (h : Toml.parse text = some root) :
    KeyedTable root := by
  rw [Toml.parse] at h
  split at h
  · next draft place hlines => exact (yields_lines _ keyedDraft_empty _ _ _ hlines).close h
  · cases h

end Documents

end ImportLint.Proofs.TomlKeys
