import ImportLint.Proofs.GlobMatching

/-!
Patterns of plain text.  A text without the signs of globs is read as itself, and with `/**` behind it
as everything below it.
-/

namespace ImportLint.Proofs.PlainPatterns

open ImportLint.Glob
open ImportLint.Text
open ImportLint.Proofs.GlobMatching

/-- A character that a pattern does not read in a way of its own. -/
def isPlain (c : Char) : Bool :=
  !(['*', '?', '[', ']', '{', '}', ',', '\\'].contains c)

/-- Only brackets and backslashes matter for the first cut. -/
theorem atoms_unescaped_text (lenient : Bool) {text : List Char}
    (h : ∀ c ∈ text, c ≠ '[' ∧ c ≠ '\\') (rest : List Char) :
    atoms lenient (text ++ rest) none = text.map .plain ++ atoms lenient rest none := by
  induction text with
  | nil => rfl
  | cons c text ih =>
      obtain ⟨hbracket, hslash⟩ := h c (by simp)
      rw [List.cons_append, atoms, ih fun d hd => h d (by simp [hd])]
      · rfl
      all_goals grind

theorem atoms_plain_text (lenient : Bool) {text : List Char} (h : ∀ c ∈ text, isPlain c)
    (rest : List Char) :
    atoms lenient (text ++ rest) none = text.map .plain ++ atoms lenient rest none := by
  apply atoms_unescaped_text
  intro c hc
  constructor
  · rintro rfl
    exact absurd (h _ hc) (by decide)
  · rintro rfl
    exact absurd (h _ hc) (by decide)

theorem tokens_plain_text {text : List Char} (h : ∀ c ∈ text, isPlain c) (rest : List Atom)
    (previous : Option Char) (level : Level) (outer : List Level) :
    tokens (text.map .plain ++ rest) previous level outer =
      tokens rest ((text.getLast?).or previous)
        { level with tokens := (text.map Token.literal).reverse ++ level.tokens } outer := by
  induction text generalizing previous level with
  | nil => rfl
  | cons c text ih =>
      have hc : isPlain c = true := h c (by simp)
      simp only [isPlain, List.contains_cons, List.contains_nil, Bool.not_eq_true',
        Bool.or_eq_false_iff, beq_eq_false_iff_ne] at hc
      rw [List.map_cons, List.cons_append, tokens, ih fun d hd => h d (by simp [hd])]
      · rw [List.getLast?_cons]
        cases text.getLast? <;> simp [Level.push]
      all_goals grind

theorem tokens_everythingBelow (before : List Token) :
    tokens [.plain '*', .plain '*'] (some '/') ⟨[], .literal '/' :: before⟩ [] =
      .ok (before.reverse ++ [.everythingBelow]) := by
  unfold tokens
  simp [tokens, startsComponent, Level.recurse]

/-- The tokens of a text with `/**` behind it. -/
theorem parse_below {text : List Char} (h : ∀ c ∈ text, isPlain c) (lenient : Bool) :
    parse lenient (text ++ ['/', '*', '*']) =
      .ok (text.map Token.literal ++ [.everythingBelow]) := by
  have hatoms : atoms lenient ['/', '*', '*'] none = [.plain '/', .plain '*', .plain '*'] := by
    simp [atoms]
  rw [parse, atoms_plain_text lenient h, hatoms, tokens_plain_text h, tokens]
  · simpa [Level.empty, Level.push] using
      tokens_everythingBelow (text.map Token.literal).reverse
  all_goals simp

theorem lowerAll_append (scope : Scope) (left right : List Token) :
    lowerAll scope (left ++ right) = lowerAll scope left ++ lowerAll scope right := by
  induction left with
  | nil => rfl
  | cons token left ih => simp [lowerAll, ih]

theorem lowerAll_literals (scope : Scope) (text : List Char) (rest : List Token) :
    lowerAll scope (text.map Token.literal ++ rest) =
      (utf8 text).map (fun b => .byte (.one b)) ++ lowerAll scope rest := by
  induction text with
  | nil => rfl
  | cons c text ih => simp [lowerAll, Token.lower, ih, utf8]

theorem has_one_iff (b c : UInt8) : (ByteSet.one b).has c = true ↔ c = b := by
  simp only [ByteSet.has, ByteSet.one, List.any_cons, List.any_nil, Bool.or_false,
    Bool.bne_false, Bool.and_eq_true, decide_eq_true_eq]
  constructor
  · rintro ⟨hle, hge⟩
    exact UInt8.le_antisymm hge hle
  · rintro rfl
    exact ⟨UInt8.le_refl c, UInt8.le_refl c⟩

theorem has_all (b : UInt8) : ByteSet.all.has b = true := rfl

theorem matchesAll_bytes_append_iff {bytes : List UInt8} {pieces : List Piece}
    {subject : List UInt8} :
    MatchesAll (bytes.map (fun b => .byte (.one b)) ++ pieces) subject ↔
      ∃ rest, subject = bytes ++ rest ∧ MatchesAll pieces rest := by
  induction bytes generalizing subject with
  | nil => simp
  | cons b bytes ih =>
      rw [List.map_cons, List.cons_append, matchesAll_byte_cons_iff]
      constructor
      · rintro ⟨c, rest, rfl, hc, hrest⟩
        obtain ⟨rest, rfl, hpieces⟩ := ih.mp hrest
        exact ⟨rest, by simp [(has_one_iff b c).mp hc], hpieces⟩
      · rintro ⟨rest, rfl, hpieces⟩
        exact ⟨b, bytes ++ rest, rfl, (has_one_iff b b).mpr rfl, ih.mpr ⟨rest, rfl, hpieces⟩⟩

/-- The bytes of a text stand in front of those of another only if the text does. -/
theorem prefix_of_utf8_append {left right : List Char} {rest : List UInt8}
    (h : utf8 left ++ rest = utf8 right) : left <+: right := by
  apply List.isPrefix_of_utf8Encode_append_eq_utf8Encode rest.toByteArray
  rw [List.utf8Encode, List.utf8Encode, ← List.toByteArray_append]
  exact congrArg List.toByteArray h

theorem lower_below (scope : Scope) (text : List Char) :
    lower scope (text.map Token.literal ++ [.everythingBelow]) =
      (utf8 (text ++ ['/'])).map (fun b => .byte (.one b)) ++ [.run .all] := by
  have hlower : lower scope (text.map Token.literal ++ [.everythingBelow]) =
      lowerAll scope (text.map Token.literal ++ [.everythingBelow]) := by
    rcases text with _ | ⟨c, text⟩
    · rfl
    · cases text <;> rfl
  have hslash : utf8 ['/'] = [slash] := by decide
  rw [hlower, lowerAll_literals, utf8_append, hslash]
  simp [lowerAll, Token.lower]

/-- A plain text with `/**` behind it matches what begins with the text and a slash. -/
theorem compile_below (scope : Scope) {text : List Char} (h : ∀ c ∈ text, isPlain c) :
    ∃ glob, Glob.compile scope (String.ofList (text ++ ['/', '*', '*'])) = .ok glob ∧
      ∀ path, glob.isMatch path = true ↔ text ++ ['/'] <+: path.toList := by
  refine ⟨⟨String.ofList (text ++ ['/', '*', '*']),
    lower scope (text.map Token.literal ++ [.everythingBelow])⟩, ?_, ?_⟩
  · simp only [Glob.compile, String.toList_ofList, parse_below h]
  · intro path
    rw [isMatch_iff, lower_below, matchesAll_bytes_append_iff]
    constructor
    · rintro ⟨rest, hrest, -⟩
      exact prefix_of_utf8_append hrest.symm
    · rintro ⟨rest, hrest⟩
      refine ⟨utf8 rest, by rw [← hrest, utf8_append], ?_⟩
      exact matchesAll_cons_iff.mpr ⟨utf8 rest, [], by simp, .run fun b _ => has_all b, .nil⟩

end ImportLint.Proofs.PlainPatterns
