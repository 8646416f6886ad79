import ImportLint.Toml.Item
import ImportLint.Text.Utf8

/-!
Excerpts of a text for messages: the line of a complaint, with carets under the stretch that it is
about.
-/

namespace ImportLint.Toml

/-- The line of a text that an offset is in, its number counted from zero, and the place of the
offset in it. -/
def lineOf (text : List Char) (offset : Nat) : List Char × Nat × Nat :=
  let before := text.take offset
  let column := (before.reverse.takeWhile (· ≠ '\n')).length
  ((text.drop (offset - column)).takeWhile (· ≠ '\n'), before.count '\n', column)

/-- A complaint about a stretch of a text.  There are as many carets as the stretch has bytes, up to
the end of its line and at least one. -/
def excerpt (text : List Char) (span : Span) (complaint : String) : String :=
  let (line, index, column) := lineOf text span.start
  let number := toString (index + 1)
  let margin := String.ofList (List.replicate (number.length + 1) ' ')
  let stretch := (text.drop span.start).take (span.stop - span.start)
  let carets := min (Text.byteLength stretch) (Text.byteLength line - column)
  "TOML parse error at line " ++ number ++ ", column " ++ toString (column + 1) ++ "\n"
    ++ margin ++ "|\n"
    ++ number ++ " | " ++ String.ofList line ++ "\n"
    ++ margin ++ "|" ++ String.ofList (List.replicate (column + 1) ' ')
    ++ String.ofList (List.replicate (max carets 1) '^') ++ "\n"
    ++ complaint ++ "\n"

end ImportLint.Toml
