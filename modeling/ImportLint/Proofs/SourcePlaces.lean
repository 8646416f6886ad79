import ImportLint.Script.Import
import Mathlib.Data.List.Induction
import Mathlib.Data.List.TakeWhile

/-!
Lines and columns of offsets.  `textAt` goes the other way: it splits a source at line feeds only and
counts the bytes of one line.
-/

namespace ImportLint.Proofs.SourcePlaces

open Script Text

/-- The text behind a number of lines. -/
def skipLines : Nat → List Char → Option (List Char)
  | 0, text => some text
  | _ + 1, [] => none
  | n + 1, c :: text => if c = '\n' then skipLines n text else skipLines (n + 1) text

/-- The text behind a number of bytes, which stay on one line. -/
def skipBytes : Nat → List Char → Option (List Char)
  | 0, text => some text
  | _ + 1, [] => none
  | n + 1, c :: text =>
    if c = '\n' ∨ n + 1 < c.utf8Size then none else skipBytes (n + 1 - c.utf8Size) text

/-- The text from a place on. -/
def textAt (source : List Char) (line column : Nat) : Option (List Char) :=
  (skipLines (line - 1) source).bind (skipBytes (column - 1))

/-- What stands on the last line of a text. -/
def lastLine (text : List Char) : List Char :=
  (text.reverse.takeWhile (· ≠ '\n')).reverse

theorem lastLine_concat (text : List Char) (c : Char) :
    lastLine (text ++ [c]) = if c = '\n' then [] else lastLine text ++ [c] := by
  by_cases hc : c = '\n'
  · simp [lastLine, hc]
  · simp [lastLine, hc]

theorem lastLine_append {above text : List Char} (h : '\n' ∉ text) :
    lastLine (above ++ text) = lastLine above ++ text := by
  induction text using List.reverseRecOn with
  | nil => simp
  | append_singleton text c ih =>
    simp only [List.mem_append, List.mem_singleton, not_or] at h
    rw [← List.append_assoc, lastLine_concat, if_neg (Ne.symm h.2), ih h.1, List.append_assoc]

theorem not_mem_lastLine (text : List Char) : '\n' ∉ lastLine text := by
  intro h
  have := List.mem_takeWhile_imp (List.mem_reverse.mp h)
  simp at this

theorem columnAt_eq (source : List Char) (offset : Nat) :
    columnAt source offset = byteLength (lastLine (source.take offset)) + 1 := by
  rw [columnAt, lastLine, byteLength_reverse]

theorem skipLines_line_feed (above rest : List Char) :
    skipLines (above.count '\n' + 1) (above ++ '\n' :: rest) = some rest := by
  induction above with
  | nil => simp [skipLines]
  | cons c above ih =>
    by_cases hc : c = '\n'
    · simp [skipLines, hc, ih]
    · simp [skipLines, hc, ih]

theorem skipLines_count (above rest : List Char) :
    skipLines (above.count '\n') (above ++ rest) = some (lastLine above ++ rest) := by
  -- From the end, where the last line grows or a new one begins.
  induction above using List.reverseRecOn generalizing rest with
  | nil => cases rest <;> rfl
  | append_singleton above c ih =>
    rw [lastLine_concat, List.append_assoc, List.singleton_append, List.count_append]
    by_cases hc : c = '\n'
    · simp [hc, skipLines_line_feed]
    · simp [hc, ih]

theorem skipBytes_byteLength {front : List Char} (h : '\n' ∉ front) (rest : List Char) :
    skipBytes (byteLength front) (front ++ rest) = some rest := by
  induction front with
  | nil => cases rest <;> rfl
  | cons c front ih =>
    rw [List.mem_cons, not_or] at h
    have hpos := c.utf8Size_pos
    have hbytes : byteLength (c :: front) = c.utf8Size + byteLength front - 1 + 1 := by
      rw [byteLength_cons]
      omega
    have hrest : c.utf8Size + byteLength front - 1 + 1 - c.utf8Size = byteLength front := by omega
    rw [hbytes, List.cons_append, skipBytes, hrest, if_neg]
    · exact ih h.2
    · rintro (hc | hshort)
      · exact h.1 hc.symm
      · omega

/-- The text from an offset on stands at the line and the column of the offset. -/
theorem textAt_place (source : List Char) (offset : Nat) :
    textAt source (lineAt source offset) (columnAt source offset) = some (source.drop offset) := by
  have lines := skipLines_count (source.take offset) (source.drop offset)
  have bytes := skipBytes_byteLength (not_mem_lastLine (source.take offset)) (source.drop offset)
  rw [List.take_append_drop] at lines
  rw [textAt, lineAt, columnAt_eq, Nat.add_sub_cancel, Nat.add_sub_cancel, lines]
  exact bytes

/-- An offset further back is on a later line, or on the same line in a later column. -/
theorem place_lt_of_lt (source : List Char) {a b : Nat} (hlt : a < b) (hb : b ≤ source.length) :
    lineAt source a < lineAt source b ∨
      lineAt source a = lineAt source b ∧ columnAt source a < columnAt source b := by
  obtain ⟨k, rfl⟩ := Nat.exists_eq_add_of_lt hlt
  obtain ⟨text, htext⟩ : ∃ text, text = (source.drop a).take (k + 1) := ⟨_, rfl⟩
  have hlength : text.length = k + 1 := by
    rw [htext, List.length_take, List.length_drop]
    omega
  have split : source.take (a + k + 1) = source.take a ++ text := by
    rw [htext, Nat.add_assoc, List.take_add]
  simp only [lineAt, columnAt_eq, split, List.count_append]
  by_cases hline : '\n' ∈ text
  · have := List.count_pos_iff.mpr hline
    omega
  · right
    have := length_le_byteLength text
    rw [List.count_eq_zero.mpr hline, lastLine_append hline, byteLength_append]
    omega

end ImportLint.Proofs.SourcePlaces
