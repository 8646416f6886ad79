import ImportLint.Proofs.JsonText
import ImportLint.Report.Text
import Mathlib.Algebra.Group.Nat.Defs

/-!
Reports in JSON and back.  A report whose counts fit into 64 bits is read back from what is printed for
it, with every field as it was.
-/

namespace ImportLint.Proofs.ReportRoundTrip

open ImportLint.Report
open ImportLint.Proofs.JsonText

/-- A location whose line and column fit into 64 bits. -/
structure FitsLocation (location : Location) : Prop where
  line : location.line < 2 ^ 64
  column : location.column < 2 ^ 64

/-- A report all of whose counts fit into 64 bits. -/
structure Fits (report : Report) : Prop where
  violations : ∀ violation ∈ report.violations, FitsLocation violation.location
  filesChecked : report.filesChecked < 2 ^ 64

section Text

theorem location_readsBack (location : Location) : ReadsBack location.toJson := by
  apply object_readsBack
  simp only [List.forall_mem_cons]
  exact ⟨text_readsBack _, count_readsBack _, count_readsBack _, by simp⟩

theorem violation_readsBack (violation : Violation) : ReadsBack violation.toJson := by
  apply object_readsBack
  rw [List.forall_mem_append, List.forall_mem_append]
  refine ⟨⟨?_, ?_⟩, ?_⟩
  · simp only [List.forall_mem_cons]
    exact ⟨text_readsBack _, text_readsBack _, text_readsBack _, text_readsBack _,
      location_readsBack _, text_readsBack _, by simp⟩
  · cases violation.restrictions with
    | none => simp
    | some patterns =>
        rw [List.forall_mem_singleton]
        apply array_readsBack
        rw [List.forall_mem_map]
        exact fun pattern _ => text_readsBack pattern
  · cases violation.docRef with
    | none => simp
    | some reference =>
        rw [List.forall_mem_singleton]
        exact text_readsBack reference

theorem report_readsBack (report : Report) : ReadsBack report.toJson := by
  apply object_readsBack
  rw [List.forall_mem_cons, List.forall_mem_singleton]
  constructor
  · apply array_readsBack
    rw [List.forall_mem_map]
    exact fun violation _ => violation_readsBack violation
  · exact count_readsBack _

end Text

section Values

theorem readCount_ofNat {n : Nat} (h : n < 2 ^ 64) : readCount (.ofNat n) = .ok n := by
  have hfound : found? (.ofNat n) = some (.integer n) := by
    rw [Json.ofNat, found?, if_pos ⟨rfl, rfl, h⟩]
  rw [readCount, hfound]

theorem readItems_map {α : Type} {readItem : Json → Reading α} {write : α → Json} {items : List α}
    (h : ∀ item ∈ items, readItem (write item) = .ok item) :
    Report.readItems readItem (items.map write) = .ok items := by
  induction items with
  | nil => rfl
  | cons item items ih =>
      rw [List.forall_mem_cons] at h
      rw [List.map_cons, Report.readItems, h.1, ih h.2]

theorem readLocation_toJson {location : Location} (h : FitsLocation location) :
    readLocation location.toJson = .ok location := by
  simp only [readLocation, Location.toJson, readRecord, readMembers, LocationDraft.read, readField,
    readText, readCount_ofNat h.line, readCount_ofNat h.column]
  rfl

theorem readChoice_kind (kind : ViolationKind) :
    readChoice ViolationKind.ofName? (ViolationKind.all.map (·.name)) (.text kind.name) =
      .ok kind := by
  cases kind <;> rfl

theorem readChoice_severity (severity : Severity) :
    readChoice Severity.ofName? (Severity.all.map (·.name)) (.text severity.name) =
      .ok severity := by
  cases severity <;> rfl

theorem readMembers_append {α : Type} (read : α → String → Json → Reading α) (draft : α)
    (front back : List (String × Json)) :
    Report.readMembers read draft (front ++ back) =
      (Report.readMembers read draft front).bind fun next => Report.readMembers read next back := by
  induction front generalizing draft with
  | nil => rfl
  | cons member front ih =>
      rw [List.cons_append, Report.readMembers, Report.readMembers]
      cases read draft member.1 member.2 with
      | error cause => rfl
      | ok next => exact ih next

/-- The fields that every violation has are read in their order. -/
theorem readMembers_required {violation : Violation} (h : FitsLocation violation.location) :
    Report.readMembers ViolationDraft.read ViolationDraft.empty
        [("kind", .text violation.kind.name), ("code", .text violation.code),
          ("rule", .text violation.rule), ("severity", .text violation.severity.name),
          ("location", violation.location.toJson), ("message", .text violation.message)] =
      .ok ⟨some violation.kind, some violation.code, some violation.rule, some violation.severity,
        some violation.location, some violation.message, none, none⟩ := by
  simp only [Report.readMembers, ViolationDraft.read, ViolationDraft.empty, readField,
    readChoice_kind, readChoice_severity, readLocation_toJson h, readText]
  rfl

theorem readViolation_toJson {violation : Violation} (h : FitsLocation violation.location) :
    readViolation violation.toJson = .ok violation := by
  obtain ⟨kind, code, rule, severity, location, message, restrictions, docRef⟩ := violation
  have hpatterns (patterns : List String) :
      Report.readItems (readText "a string") (patterns.map .text) = .ok patterns :=
    readItems_map fun _ _ => rfl
  rw [readViolation, Violation.toJson, readRecord, readMembers_append, readMembers_append,
    readMembers_required h]
  cases restrictions with
  | none => cases docRef <;> rfl
  | some patterns =>
      simp only [Except.bind, Report.readMembers, ViolationDraft.read, readField, readOptional,
        readList, hpatterns]
      cases docRef <;> rfl

theorem ofJson_toJson {report : Report} (h : Fits report) :
    Report.ofJson report.toJson = .ok report := by
  have hviolations : Report.readItems readViolation (report.violations.map Violation.toJson) =
      .ok report.violations :=
    readItems_map fun violation hmem => readViolation_toJson (h.violations violation hmem)
  simp only [Report.ofJson, Report.toJson, readRecord, Report.readMembers, Draft.read, readField,
    readList, hviolations, readCount_ofNat h.filesChecked]
  rfl

end Values

/-- A report whose counts fit into 64 bits is read back from its printed JSON as it was, and so it is
printed the same again. -/
theorem ofJsonText_print {report : Report} (h : Fits report) :
    ∃ read, Report.ofJsonText (report.print .json) = .ok read ∧ read = report ∧
      read.print .json = report.print .json := by
  refine ⟨report, ?_, rfl, rfl⟩
  rw [Report.ofJsonText, Report.print, (report_readsBack report).read_pretty]
  simp only [ofJson_toJson h, if_true]

theorem ofJsonText_print_unusual :
    let place : Location := ⟨"a\n\"b", 18446744073709551615, 0⟩
    let findings : List Violation :=
      [⟨.badFilename, "", "\x00\x1f\x7f\\", .info, place, "é𐍈\t", some [], some ""⟩,
        ⟨.badImport, "IMP002", "", .warning, place, "", none, none⟩]
    Fits ⟨findings, 18446744073709551615⟩ ∧
      ∃ read, Report.ofJsonText (Report.print ⟨findings, 18446744073709551615⟩ .json) = .ok read ∧
        read = ⟨findings, 18446744073709551615⟩ ∧
        read.print .json = Report.print ⟨findings, 18446744073709551615⟩ .json := by
  intro place findings
  have hplace : FitsLocation place := ⟨by decide, by decide⟩
  have hfits : Fits ⟨findings, 18446744073709551615⟩ := by
    refine ⟨?_, by decide⟩
    rw [List.forall_mem_cons, List.forall_mem_singleton]
    exact ⟨hplace, hplace⟩
  exact ⟨hfits, ofJsonText_print hfits⟩

end ImportLint.Proofs.ReportRoundTrip
