import ImportLint.Proofs.CheckOutcome

/-!
Lines of compact reports.  A finding is printed with a line feed behind it, so that it is one line unless
a line feed is in it.  One can only be in what others have written: in the path of the file, in a pattern
of its policy or in the reference.
-/

namespace ImportLint.Proofs.CompactLines

open ImportLint.Path
open ImportLint.Command
open ImportLint.Proofs.WalkPaths
open ImportLint.Proofs.FileFindings
open ImportLint.Proofs.ReportOrder
open ImportLint.Proofs.FileIndependence
open ImportLint.Proofs.DiscoveredFiles
open ImportLint.Proofs.ReportContents
open ImportLint.Proofs.CheckOutcome

/-- The lines of a text.  A line feed ends a line, and what is left behind the last one is a line by
itself. -/
def lines : List Char → List (List Char)
  | [] => []
  | c :: text =>
    if c = '\n' then [] :: lines text
    else
      match lines text with
      | [] => [[c]]
      | line :: later => (c :: line) :: later

theorem lines_cons_of_eq_cons {c : Char} (hc : c ≠ '\n') {text line : List Char}
    {later : List (List Char)} (h : lines text = line :: later) :
    lines (c :: text) = (c :: line) :: later := by
  rw [lines, if_neg hc, h]

theorem exists_lines_ended (text : List Char) :
    ∃ line later, lines (text ++ ['\n']) = line :: later := by
  induction text with
  | nil => exact ⟨[], [], rfl⟩
  | cons c text ih =>
    obtain ⟨line, later, h⟩ := ih
    by_cases hc : c = '\n'
    · exact ⟨[], lines (text ++ ['\n']), by rw [List.cons_append, lines, if_pos hc]⟩
    · exact ⟨c :: line, later, lines_cons_of_eq_cons hc h⟩

/-- What is behind a line feed has no part in the lines before it. -/
theorem lines_append_line_feed (text rest : List Char) :
    lines (text ++ '\n' :: rest) = lines (text ++ ['\n']) ++ lines rest := by
  induction text with
  | nil => rfl
  | cons c text ih =>
    by_cases hc : c = '\n'
    · rw [List.cons_append, List.cons_append, lines, lines, if_pos hc, if_pos hc, ih,
        List.cons_append]
    · obtain ⟨line, later, h⟩ := exists_lines_ended text
      rw [h, List.cons_append] at ih
      rw [List.cons_append, List.cons_append, lines_cons_of_eq_cons hc h,
        lines_cons_of_eq_cons hc ih, List.cons_append]

theorem lines_flatMap_ended (texts : List (List Char)) :
    lines (texts.flatMap (· ++ ['\n'])) = texts.flatMap fun text => lines (text ++ ['\n']) := by
  induction texts with
  | nil => rfl
  | cons text texts ih =>
    rw [List.flatMap_cons, List.flatMap_cons, List.append_assoc, List.singleton_append,
      lines_append_line_feed, ih]

theorem length_lines_ended (text : List Char) :
    (lines (text ++ ['\n'])).length = 1 + text.count '\n' := by
  induction text with
  | nil => rfl
  | cons c text ih =>
    by_cases hc : c = '\n'
    · rw [hc, List.cons_append, lines, if_pos rfl, List.length_cons, ih, List.count_cons_self]
      omega
    · obtain ⟨line, later, h⟩ := exists_lines_ended text
      rw [h] at ih
      rw [List.cons_append, lines_cons_of_eq_cons hc h, List.count_cons_of_ne hc]
      exact ih

theorem lines_ended_of_not_mem {text : List Char} (h : '\n' ∉ text) :
    lines (text ++ ['\n']) = [text] := by
  induction text with
  | nil => rfl
  | cons c text ih =>
    rw [List.mem_cons, not_or] at h
    rw [List.cons_append, lines_cons_of_eq_cons (Ne.symm h.1) (ih h.2)]

/-- How many line feeds are in a text. -/
def lineFeeds (text : String) : Nat :=
  text.toList.count '\n'

@[simp] theorem lineFeeds_append (left right : String) :
    lineFeeds (left ++ right) = lineFeeds left + lineFeeds right := by
  simp [lineFeeds]

theorem lineFeeds_eq_zero_iff (text : String) : lineFeeds text = 0 ↔ '\n' ∉ text.toList :=
  List.count_eq_zero

theorem lineFeeds_toString (n : Nat) : lineFeeds (toString n) = 0 := by
  have hdigits : (toString n).toList = Nat.toDigits 10 n := by simp
  rw [lineFeeds_eq_zero_iff, hdigits]
  intro h
  exact absurd (Nat.isDigit_of_mem_toDigits (by decide) (by decide) h) (by decide)

theorem lineFeeds_join_cons (text : String) (texts : List String) :
    lineFeeds (String.join (text :: texts)) = lineFeeds text + lineFeeds (String.join texts) := by
  simp [lineFeeds, String.toList_join]

theorem lineFeeds_join_eq_zero_iff (texts : List String) :
    lineFeeds (String.join texts) = 0 ↔ ∀ text ∈ texts, '\n' ∉ text.toList := by
  simp [lineFeeds_eq_zero_iff, String.toList_join]

theorem lineFeeds_join_congr {α : Type} {items : List α} {left right : α → String}
    (h : ∀ item ∈ items, lineFeeds (left item) = lineFeeds (right item)) :
    lineFeeds (String.join (items.map left)) = lineFeeds (String.join (items.map right)) := by
  induction items with
  | nil => rfl
  | cons item items ih =>
    rw [List.forall_mem_cons] at h
    rw [List.map_cons, List.map_cons, lineFeeds_join_cons, lineFeeds_join_cons, h.1, ih h.2]

/-- Patterns in one line bring no line feed between them. -/
theorem lineFeeds_alternatives (patterns : List String) :
    lineFeeds (" or ".intercalate patterns) = lineFeeds (String.join patterns) := by
  rw [lineFeeds, String.toList_intercalate]
  induction patterns with
  | nil => rfl
  | cons pattern patterns ih =>
    rw [lineFeeds_join_cons, ← ih]
    rcases patterns with _ | ⟨second, patterns⟩
    · simp [lineFeeds]
    · have hor : List.count '\n' " or ".toList = 0 := by decide
      rw [List.map_cons, List.map_cons, List.intercalate_cons_cons, List.count_append,
        List.count_append, hor, Nat.add_zero, lineFeeds]

/-- What others have written of a finding: the path of the file, the patterns that were allowed and the
reference. -/
def foreign (violation : Violation) : String :=
  violation.location.file ++ String.join (violation.restrictions.getD [])
    ++ violation.docRef.getD ""

theorem lineFeeds_message {violation : Violation} (h : Coherent violation) :
    lineFeeds violation.code = 0 ∧
      lineFeeds violation.message = lineFeeds (String.join (violation.restrictions.getD [])) := by
  rw [Coherent] at h
  split at h
  · obtain ⟨hcode, hrestrictions, hmessage⟩ := h
    rw [hcode, hrestrictions, hmessage]
    exact ⟨by decide, by decide⟩
  · obtain ⟨hcode, restrictions, hrestrictions, hmessage⟩ := h
    have hbefore : lineFeeds "import violates '" = 0 := by decide
    have hbehind : lineFeeds "' restrictions" = 0 := by decide
    rw [hcode, hrestrictions, hmessage, lineFeeds_append, lineFeeds_append, lineFeeds_alternatives,
      hbefore, hbehind, Nat.zero_add, Nat.add_zero]
    exact ⟨by decide, rfl⟩

/-- The wording of a finding brings no line feed into it. -/
theorem lineFeeds_display {violation : Violation} (h : Coherent violation) :
    lineFeeds violation.display = lineFeeds (foreign violation) := by
  obtain ⟨hcode, hmessage⟩ := lineFeeds_message h
  have hseverity : lineFeeds violation.severity.name = 0 := by
    cases violation.severity <;> decide
  have hsigns : lineFeeds ":" = 0 ∧ lineFeeds ": " = 0 ∧ lineFeeds " [" = 0 ∧ lineFeeds "] " = 0 ∧
      lineFeeds "" = 0 ∧ lineFeeds " (see: " = 0 ∧ lineFeeds ")" = 0 := by decide
  obtain ⟨hcolon, hcolonBlank, hopen, hclose, hempty, hsee, hend⟩ := hsigns
  rw [Violation.display, foreign]
  cases violation.docRef with
  | none =>
    simp only [lineFeeds_append, lineFeeds_toString, hcode, hmessage, hseverity, hcolon, hcolonBlank,
      hopen, hclose, hempty, Option.getD_none]
    omega
  | some reference =>
    simp only [lineFeeds_append, lineFeeds_toString, hcode, hmessage, hseverity, hcolon, hcolonBlank,
      hopen, hclose, hsee, hend, Option.getD_some]
    omega

section Printed

variable (report : Report)

theorem compactText_toList :
    report.compactText.toList =
      (report.violations.map (·.display.toList)).flatMap (· ++ ['\n']) := by
  rw [Report.compactText, String.toList_join, List.flatMap_map, List.flatMap_map]
  exact List.flatMap_congr fun violation _ => by simp

/-- The lines of the findings stand one after the other. -/
theorem lines_compactText :
    lines report.compactText.toList =
      report.violations.flatMap fun violation => lines (violation.display.toList ++ ['\n']) := by
  rw [compactText_toList, lines_flatMap_ended, List.flatMap_map]

theorem length_lines_compactText :
    (lines report.compactText.toList).length =
      report.violations.length + lineFeeds (String.join (report.violations.map (·.display))) := by
  rw [lines_compactText]
  induction report.violations with
  | nil => rfl
  | cons violation violations ih =>
    have hown : (lines (violation.display.toList ++ ['\n'])).length =
        1 + lineFeeds violation.display := length_lines_ended _
    rw [List.flatMap_cons, List.length_append, ih, hown, List.length_cons, List.map_cons,
      lineFeeds_join_cons]
    omega

/-- The lines are the findings where no finding has a line feed, and only there, since each that has one
makes too many lines. -/
theorem lines_compactText_iff :
    lines report.compactText.toList = report.violations.map (·.display.toList) ↔
      ∀ violation ∈ report.violations, '\n' ∉ violation.display.toList := by
  constructor
  · intro h
    have hlength := length_lines_compactText report
    rw [h, List.length_map] at hlength
    have hfeeds := (lineFeeds_join_eq_zero_iff (report.violations.map (·.display))).mp (by omega)
    exact fun violation hviolation => hfeeds _ (List.mem_map_of_mem hviolation)
  · intro h
    rw [lines_compactText, List.map_eq_flatMap]
    exact List.flatMap_congr fun violation hviolation =>
      lines_ended_of_not_mem (h violation hviolation)

end Printed

/-- No path of a file, no pattern of a policy and no reference has a line feed. -/
structure WithoutLineFeeds (config : Config) (files : List Discovered) : Prop where
  path : ∀ file ∈ files, '\n' ∉ file.path.toList
  pattern : ∀ entry ∈ config.policies, ∀ pattern ∈ entry.restrictions, '\n' ∉ pattern.toList
  docs : ∀ reference, config.docs = some reference → '\n' ∉ reference.toList

theorem lineFeeds_forwardSlashes (path : String) :
    lineFeeds (forwardSlashes path) = lineFeeds path := by
  rw [lineFeeds, lineFeeds, forwardSlashes, String.toList_map, List.count_eq_countP,
    List.count_eq_countP, List.countP_map]
  refine List.countP_congr fun c _ => ?_
  by_cases hc : c = '\\'
  · simp [hc]
  · simp [hc]

section Findings

variable {config : Config} {checker : Checker} (hchecker : config.checker = .ok checker)

include hchecker

/-- What others have written of a finding comes from the path of the file, from an entry and from the
configuration. -/
theorem parts_of_findings (file : Discovered) :
    ∀ violation ∈ findings checker file, Marked config violation ∧
      violation.location.file = forwardSlashes file.path ∧
      ∀ patterns, violation.restrictions = some patterns →
        ∃ entry ∈ config.policies, entry.restrictions = patterns := by
  intro violation hviolation
  rw [findings] at hviolation
  split at hviolation
  · next text _ =>
    refine ⟨check_marked hchecker _ _ violation hviolation, ?_⟩
    have hcheck := check_findings (checker_eq_ok hchecker).1 file.path
      (Script.imports file.dialect text)
    split at hcheck
    · obtain ⟨only, honly, hreports⟩ := hcheck
      rw [honly, List.mem_singleton] at hviolation
      rw [hviolation, hreports.location, hreports.restrictions]
      exact ⟨rfl, fun patterns hpatterns => by cases hpatterns⟩
    · next entry hentry =>
      obtain ⟨index, hindex, rfl⟩ := List.mem_iff_getElem.mp hviolation
      have hreports := hcheck.get (hcheck.length_eq.symm ▸ hindex) hindex
      rw [List.get_eq_getElem, List.get_eq_getElem] at hreports
      rw [hreports.location, hreports.restrictions]
      refine ⟨rfl, fun patterns hpatterns => ⟨entry, List.mem_of_find?_eq_some hentry, ?_⟩⟩
      exact Option.some.inj hpatterns
  · cases hviolation

theorem not_mem_foreign_of_findings {files : List Discovered} (h : WithoutLineFeeds config files)
    {file : Discovered} (hfile : file ∈ files) :
    ∀ violation ∈ findings checker file, '\n' ∉ (foreign violation).toList := by
  intro violation hviolation
  obtain ⟨hmarked, hpath, hpatterns⟩ := parts_of_findings hchecker file violation hviolation
  have hpathFeeds : lineFeeds violation.location.file = 0 := by
    rw [hpath, lineFeeds_forwardSlashes, lineFeeds_eq_zero_iff]
    exact h.path file hfile
  have hpatternFeeds : lineFeeds (String.join (violation.restrictions.getD [])) = 0 := by
    rw [lineFeeds_join_eq_zero_iff]
    intro pattern hpattern
    cases hrestrictions : violation.restrictions with
    | none =>
      rw [hrestrictions] at hpattern
      cases hpattern
    | some patterns =>
      rw [hrestrictions] at hpattern
      obtain ⟨entry, hentry, rfl⟩ := hpatterns patterns hrestrictions
      exact h.pattern entry hentry pattern hpattern
  have hdocsFeeds : lineFeeds (violation.docRef.getD "") = 0 := by
    rw [hmarked.docRef]
    cases hreference : config.docs with
    | none => rfl
    | some reference => exact (lineFeeds_eq_zero_iff _).mpr (h.docs reference hreference)
  rw [← lineFeeds_eq_zero_iff, foreign, lineFeeds_append, lineFeeds_append, hpathFeeds,
    hpatternFeeds, hdocsFeeds]

end Findings

/-- A compact report has the findings in the order of their places, and one line more than there are
findings for each line feed in a path, a pattern or a reference that it repeats.  Its lines are the
findings if and only if there is no such line feed, which is so where no discovered path, no pattern of
a policy and no reference has one. -/
theorem compact_lines {disk : Disk} {path : String} {config : Config} {exclude : List String}
    {report : Report} (h : disk.lint path config exclude = .ok report) :
    (∀ source : ConfigSource, source.load disk = .ok config →
      (checkProject disk source path .compact exclude).output = report.print .compact) ∧
    (report.violations.Pairwise fun left right =>
      (left.location.order right.location).isLE = true) ∧
    (lines (report.print .compact).toList).length =
      report.violations.length + lineFeeds (String.join (report.violations.map foreign)) ∧
    (lines (report.print .compact).toList = report.violations.map (·.display.toList) ↔
      ∀ violation ∈ report.violations, '\n' ∉ (foreign violation).toList) ∧
    ∃ check, disk.check path config exclude = .ok check ∧
      (WithoutLineFeeds config (discoveries check) →
        ∀ violation ∈ report.violations, '\n' ∉ (foreign violation).toList) := by
  obtain ⟨check, hcheck, hchecker, hreport⟩ := lint_eq_ok_discoveries h
  have hmem : ∀ violation ∈ report.violations,
      ∃ file ∈ discoveries check, violation ∈ findings check.checker file := by
    intro violation hviolation
    rwa [hreport, Report.sort, List.mem_mergeSort, List.mem_flatMap] at hviolation
  have hdisplay : ∀ violation ∈ report.violations,
      lineFeeds violation.display = lineFeeds (foreign violation) := by
    intro violation hviolation
    obtain ⟨file, -, hfinding⟩ := hmem violation hviolation
    exact lineFeeds_display (parts_of_findings hchecker file violation hfinding).1.coherent
  refine ⟨?_, ?_, ?_, ?_, check, hcheck, ?_⟩
  · intro source hload
    obtain ⟨events, heq⟩ := checkProject_of_lint hload h .compact
    rw [heq]
  · rw [hreport]
    exact List.pairwise_mergeSort placedBefore_trans placedBefore_total _
  · rw [← lineFeeds_join_congr hdisplay]
    exact length_lines_compactText report
  · rw [Report.print, lines_compactText_iff]
    refine forall₂_congr fun violation hviolation => ?_
    rw [← lineFeeds_eq_zero_iff, ← lineFeeds_eq_zero_iff, hdisplay violation hviolation]
  · intro hwithout violation hviolation
    obtain ⟨file, hfile, hfinding⟩ := hmem violation hviolation
    exact not_mem_foreign_of_findings hchecker hwithout hfile violation hfinding

set_option maxRecDepth 100000 in
theorem compact_lines_broken_path :
    ∃ (disk : Disk) (config : Config) (broken whole : Report),
      disk.lint "." config ["c*"] = .ok broken ∧ disk.lint "." config ["a*"] = .ok whole ∧
      broken.violations.map foreign = ["a\nb.tslib/**"] ∧
      (lines (broken.print .compact).toList).length = broken.violations.length + 1 ∧
      lines (broken.print .compact).toList ≠ broken.violations.map (·.display.toList) ∧
      (ConfigSource.project "./import-patterns.toml").load disk = .ok config ∧
      (checkProject disk (.project "./import-patterns.toml") "." .compact ["a*"]).output =
        whole.print .compact ∧
      lines (whole.print .compact).toList = whole.violations.map (·.display.toList) ∧
      whole.violations.map (·.display) =
        ["c.ts:1:8: error [IMP001] import violates 'lib/**' restrictions"] := by
  let content : ByteArray := "import \"x\"".toUTF8
  let disk : Disk := ⟨written
    [(["import-patterns.toml".toList],
      "[[policies]]\ntarget=\"**\"\nrestrictions=\"lib/**\"".toUTF8),
    (["a\nb.ts".toList], content), (["c.ts".toList], content)], []⟩
  let config : Config := { Config.default with policies := [⟨"**", ["lib/**"]⟩] }
  let broken : Report := ⟨[.badImport ⟨"a\nb.ts", 1, 8⟩ ["lib/**"]], 1⟩
  let whole : Report := ⟨[.badImport ⟨"c.ts", 1, 8⟩ ["lib/**"]], 1⟩
  have hload : (ConfigSource.project "./import-patterns.toml").load disk = .ok config :=
    eq_ok_of_toOption (by decide +kernel)
  have hbroken : disk.lint "." config ["c*"] = .ok broken := eq_ok_of_toOption (by decide +kernel)
  have hwhole : disk.lint "." config ["a*"] = .ok whole := eq_ok_of_toOption (by decide +kernel)
  have hforeign : broken.violations.map foreign = ["a\nb.tslib/**"] := by decide +kernel
  have hfeed : ¬ ∀ violation ∈ broken.violations, '\n' ∉ (foreign violation).toList := by
    decide +kernel
  have hfiles : (disk.check "." config ["a*"]).toOption.map discoveries =
      some [⟨"c.ts", content, .typescript⟩] := by
    decide +kernel
  obtain ⟨-, -, hlength, hbrokenLines, -⟩ := compact_lines hbroken
  obtain ⟨hprinted, -, -, hwholeLines, check, hcheck, hwithout⟩ := compact_lines hwhole
  have hdiscoveries : discoveries check = [⟨"c.ts", content, .typescript⟩] := by
    rw [hcheck] at hfiles
    exact Option.some.inj hfiles
  have hnoFeed : WithoutLineFeeds config (discoveries check) := by
    rw [hdiscoveries]
    exact ⟨by decide, by decide, fun reference hreference => by cases hreference⟩
  rw [hforeign] at hlength
  exact ⟨disk, config, broken, whole, hbroken, hwhole, hforeign, hlength,
    fun h => hfeed (hbrokenLines.mp h), hload, hprinted _ hload, hwholeLines.mpr (hwithout hnoFeed),
    by decide +kernel⟩

/-- A reference of two lines makes two lines of one finding. -/
theorem compact_lines_exceed_findings :
    ¬ ∀ (disk : Disk) (path : String) (config : Config) (exclude : List String) (report : Report),
      disk.lint path config exclude = .ok report →
      (lines (report.print .compact).toList).length = report.violations.length := by
  intro h
  let disk : Disk := ⟨written [(["a.ts".toList], "import \"x\"".toUTF8)], []⟩
  let config : Config := { libraryConfig "." with docs := some "see\nlayers.md" }
  let violation : Violation :=
    { Violation.badImport ⟨"a.ts", 1, 8⟩ ["lib/**"] with docRef := some "see\nlayers.md" }
  have hlint : disk.lint "." config [] = .ok ⟨[violation], 1⟩ :=
    eq_ok_of_toOption (by decide +kernel)
  exact absurd (h disk "." config [] _ hlint) (by decide +kernel)

end ImportLint.Proofs.CompactLines
