/-!
Paths as words of segments.  A path text is cut at every `/`, so that neighbouring slashes enclose an
empty segment, and a word is written back with one `/` between its segments.  Main statement:
writing back what was cut gives the same text (`joinSlash_splitSlash`).
-/

namespace ImportLint.Path

/-- The text between two neighbouring slashes of a path, possibly empty. -/
abbrev Segment := List Char

/-- The segments of a text, cut at every `/`.  There is always at least one. -/
def splitSlash : List Char → List Segment
  | [] => [[]]
  | c :: rest =>
    if c = '/' then [] :: splitSlash rest
    else
      match splitSlash rest with
      | [] => [[c]]
      | segment :: segments => (c :: segment) :: segments

/-- The text of a word, with one `/` between neighbouring segments. -/
def joinSlash : List Segment → List Char
  | [] => []
  | [segment] => segment
  | segment :: segments => segment ++ '/' :: joinSlash segments

theorem splitSlash_ne_nil (text : List Char) : splitSlash text ≠ [] := by
  induction text with
  | nil => simp [splitSlash]
  | cons c rest ih =>
    unfold splitSlash
    split
    · simp
    · split <;> simp

@[simp] theorem joinSlash_cons_cons (segment next : Segment) (segments : List Segment) :
    joinSlash (segment :: next :: segments) = segment ++ '/' :: joinSlash (next :: segments) := rfl

theorem joinSlash_cons_of_ne_nil (segment : Segment) {segments : List Segment}
    (h : segments ≠ []) : joinSlash (segment :: segments) = segment ++ '/' :: joinSlash segments := by
  cases segments with
  | nil => exact absurd rfl h
  | cons next segments => rfl

/-- Cutting a text and writing its segments back changes nothing. -/
theorem joinSlash_splitSlash (text : List Char) : joinSlash (splitSlash text) = text := by
  induction text with
  | nil => rfl
  | cons c rest ih =>
    unfold splitSlash
    split
    · next hc =>
      rw [joinSlash_cons_of_ne_nil [] (splitSlash_ne_nil rest), ih, hc]
      rfl
    · match h : splitSlash rest with
      | [] => exact absurd h (splitSlash_ne_nil rest)
      | [segment] =>
        rw [h] at ih
        simpa [joinSlash] using ih
      | segment :: next :: segments =>
        rw [h] at ih
        simpa using ih

end ImportLint.Path
