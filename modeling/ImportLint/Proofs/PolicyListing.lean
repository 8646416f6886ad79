import ImportLint.PolicyTable
import ImportLint.Proofs.FileFindings

/-!
Tables of policies against checks.  The row that a table marks for a file is the row of the entry that
a check judges the file by, and a table without a mark is about a file that a check reports as one
without a policy.
-/

namespace ImportLint.Proofs.PolicyListing

open ImportLint.Path
open ImportLint.Proofs.PolicyCompilation
open ImportLint.Proofs.FileFindings

/-- A row shows an entry with its place, with a mark in front or without. -/
def Shows (index : Nat) (entry : PolicyEntry) (row : String) : Prop :=
  ∃ mark, (mark = "*" ∨ mark = " ") ∧
    row = PolicyTable.row mark (toString index) entry.target
      (" or ".intercalate entry.restrictions)

/-- The row at a place has a mark in front. -/
def IsMarkedAt (rows : List String) (index : Nat) : Prop :=
  ∃ row, rows[index]? = some row ∧ row.toList.head? = some '*'

/-- An entry is the first one that speaks about a file. -/
structure IsFirst (entries : List PolicyEntry) (file : String) (index : Nat)
    (entry : PolicyEntry) : Prop where
  getElem?_eq : entries[index]? = some entry
  targets : targets entry file = true
  earlier : ∀ other ∈ entries.take index, PolicyCompilation.targets other file = false

theorem isFirst_of_findIdx? {entries : List PolicyEntry} {file : String} {index : Nat}
    (h : (entries.findIdx? fun entry => targets entry file) = some index) :
    ∃ entry, IsFirst entries file index entry ∧
      (entries.find? fun entry => targets entry file) = some entry := by
  obtain ⟨hindex, htargets, hearlier⟩ := List.findIdx?_eq_some_iff_getElem.mp h
  have hnot (earlier : Nat) (hearlier' : earlier < index) :
      targets entries[earlier] file = false := by
    simpa using hearlier earlier hearlier'
  refine ⟨entries[index], ⟨List.getElem?_eq_getElem hindex, htargets, ?_⟩, ?_⟩
  · intro other hother
    obtain ⟨earlier, hlength, rfl⟩ := List.mem_iff_getElem.mp hother
    rw [List.getElem_take]
    exact hnot earlier (Nat.lt_of_lt_of_le hlength (List.length_take_le _ _))
  · rw [List.find?_eq_some_iff_getElem]
    refine ⟨htargets, index, hindex, rfl, ?_⟩
    intro earlier hearlier'
    rw [hnot earlier hearlier']
    rfl

theorem rowsFrom_eq (selected : Option Nat) (index : Nat) (policies : List Policy) :
    PolicyTable.rowsFrom selected index policies =
      policies.mapIdx fun offset policy => PolicyTable.policyRow selected (index + offset) policy := by
  induction policies generalizing index with
  | nil => rfl
  | cons policy policies ih =>
      rw [PolicyTable.rowsFrom, ih, List.mapIdx_cons]
      simp only [Nat.add_zero, Nat.add_assoc, Nat.add_comm 1]

theorem policyRow_shows (selected : Option Nat) (index : Nat) {entry : PolicyEntry}
    {policy : Policy} (h : Compiled entry policy) :
    Shows index entry (PolicyTable.policyRow selected index policy) := by
  rw [PolicyTable.policyRow, h.entry_eq]
  refine ⟨_, ?_, rfl⟩
  split
  · exact .inl rfl
  · exact .inr rfl

theorem head?_policyRow (selected : Option Nat) (index : Nat) (policy : Policy) :
    (PolicyTable.policyRow selected index policy).toList.head? = some '*' ↔
      selected = some index := by
  rw [PolicyTable.policyRow, PolicyTable.row]
  split <;> simp_all

section Rows

variable {entries : List PolicyEntry} {policies : List Policy}
  (h : List.Forall₂ Compiled entries policies) (selected : Option Nat)

include h

theorem rows_show {index : Nat} {entry : PolicyEntry} {row : String}
    (hentry : entries[index]? = some entry)
    (hrow : (PolicyTable.rowsFrom selected 0 policies)[index]? = some row) :
    Shows index entry row := by
  rw [rowsFrom_eq, List.getElem?_mapIdx, Option.map_eq_some_iff] at hrow
  obtain ⟨policy, hpolicy, rfl⟩ := hrow
  obtain ⟨hindex, rfl⟩ := List.getElem?_eq_some_iff.mp hentry
  obtain ⟨hindex', rfl⟩ := List.getElem?_eq_some_iff.mp hpolicy
  rw [Nat.zero_add]
  exact policyRow_shows selected index (h.get hindex hindex')

/-- A row is marked at the selected place and nowhere else. -/
theorem isMarkedAt_iff (hselected : ∀ index, selected = some index → index < entries.length)
    (index : Nat) :
    IsMarkedAt (PolicyTable.rowsFrom selected 0 policies) index ↔ selected = some index := by
  simp only [IsMarkedAt, rowsFrom_eq, List.getElem?_mapIdx, Option.map_eq_some_iff, Nat.zero_add]
  constructor
  · rintro ⟨row, ⟨policy, -, rfl⟩, hhead⟩
    exact (head?_policyRow selected index policy).mp hhead
  · intro hindex
    have hbound : index < policies.length := h.length_eq ▸ hselected index hindex
    exact ⟨_, ⟨policies[index], List.getElem?_eq_getElem hbound, rfl⟩,
      (head?_policyRow selected index _).mpr hindex⟩

end Rows

end ImportLint.Proofs.PolicyListing
