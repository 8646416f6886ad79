import ImportLint.Proofs.FoundLiterals
import ImportLint.Proofs.SourcePlaces

/-!
The names of modules as they are written.  An import has the line and the column of the quote that
opens its string, and its name is what stands between this quote and the closing one.  Where the
closing quote is missing, the name lacks the last character of the string instead.
-/

namespace ImportLint.Proofs.ImportLiterals

open Script FoundLiterals SourcePlaces

/-- The characters that open and close strings. -/
def IsQuote (c : Char) : Prop := c = '"' ∨ c = '\x27'

/-- What can stand between two quotes: no quote and no backslash but behind a backslash. -/
inductive Body (quote : Char) : List Char → Prop
  | nil : Body quote []
  | plain {c : Char} {body : List Char} (hquote : c ≠ quote) (hslash : c ≠ '\\')
      (rest : Body quote body) : Body quote (c :: body)
  | escape {c : Char} {body : List Char} (rest : Body quote body) : Body quote ('\\' :: c :: body)

theorem IsQuote.ne {quote : Char} (h : IsQuote quote) : quote ≠ '\\' ∧ quote ≠ '\n' := by
  rcases h with rfl | rfl <;> decide

theorem ne_backslash_of_isBlank {c : Char} (h : isBlank c = true) : c ≠ '\\' := by
  rintro rfl
  revert h
  decide

theorem ne_backslash {c : Char} {rest : List Char} (hlast : c = '\\' → rest = [] → False)
    (hmore : ∀ (next : Char) (tail : List Char), c = '\\' → rest = next :: tail → False) :
    c ≠ '\\' := by
  intro hc
  cases rest with
  | nil => exact hlast hc rfl
  | cons next tail => exact hmore next tail hc rfl

/-- The scanner stops at a quote, and what it passes can stand between quotes. -/
theorem stringBody_sound {quote : Char} (hquote : IsQuote quote) {ended : Bool} {text : List Char}
    {count stop : Nat} (h : stringBody quote ended text count = some stop) :
    ∃ body back, text = body ++ quote :: back ∧ Body quote body ∧ stop = count + body.length := by
  have passed {c : Char} {rest : List Char} {count : Nat} (hne : c ≠ quote) (hslash : c ≠ '\\')
      (hrest : ∃ body back, rest = body ++ quote :: back ∧ Body quote body ∧
        stop = count + 1 + body.length) :
      ∃ body back, c :: rest = body ++ quote :: back ∧ Body quote body ∧
        stop = count + body.length := by
    obtain ⟨body, back, rfl, hbody, hstop⟩ := hrest
    refine ⟨c :: body, back, rfl, .plain hne hslash hbody, ?_⟩
    rw [List.length_cons]
    omega
  fun_induction stringBody quote ended text count with
  | case1 | case2 | case9 => cases h
  | case3 rest count ih =>
    obtain ⟨body, back, rfl, hbody, rfl⟩ := ih h
    have newline : Body quote ('\n' :: body) := .plain hquote.ne.2.symm (by decide) hbody
    refine ⟨'\\' :: '\r' :: '\n' :: body, back, rfl, .escape newline, ?_⟩
    simp only [List.length_cons]
    omega
  | case4 c rest count _ ih =>
    obtain ⟨body, back, rfl, hbody, rfl⟩ := ih h
    refine ⟨'\\' :: c :: body, back, rfl, .escape hbody, ?_⟩
    simp only [List.length_cons]
    omega
  | case5 rest count | case7 rest count =>
    cases h
    exact ⟨[], rest, rfl, .nil, rfl⟩
  | case6 c rest count hlast _ hmore hne ih => exact passed hne (ne_backslash hlast hmore) (ih h)
  | case8 c rest count hne hblank ih => exact passed hne (ne_backslash_of_isBlank hblank) (ih h)

theorem Body.inner_of_backslash {quote c : Char} (hquote : IsQuote quote)
    {body back rest : List Char} (h : Body quote body)
    (htext : '\\' :: c :: rest = body ++ quote :: back) :
    ∃ inner, body = '\\' :: c :: inner ∧ Body quote inner ∧ rest = inner ++ quote :: back := by
  cases h with
  | nil =>
    rw [List.nil_append, List.cons.injEq] at htext
    exact absurd htext.1.symm hquote.ne.1
  | plain _ hslash =>
    rw [List.cons_append, List.cons.injEq] at htext
    exact absurd htext.1.symm hslash
  | @escape d inner hinner =>
    simp only [List.cons_append, List.cons.injEq, true_and] at htext
    exact ⟨inner, by rw [htext.1], hinner, htext.2⟩

theorem Body.inner_of_plain {quote c : Char} (hc : c ≠ '\\') {body back rest : List Char}
    (h : Body quote body) (htext : c :: rest = body ++ quote :: back) (hne : c ≠ quote) :
    ∃ inner, body = c :: inner ∧ Body quote inner ∧ rest = inner ++ quote :: back := by
  cases h with
  | nil =>
    rw [List.nil_append, List.cons.injEq] at htext
    exact absurd htext.1 hne
  | @plain d inner _ _ hinner =>
    rw [List.cons_append, List.cons.injEq] at htext
    exact ⟨inner, by rw [htext.1], hinner, htext.2⟩
  | escape hinner =>
    simp only [List.cons_append, List.cons.injEq] at htext
    exact absurd htext.1 hc

/-- The scanner finds the quote that closes a string on its line. -/
theorem stringBody_complete {quote : Char} (hquote : IsQuote quote) {text body back : List Char}
    {count start : Nat} (htext : text = body ++ quote :: back) (hbody : Body quote body)
    (hline : count + body.length < stringLine quote text count) :
    stringBody quote false text start ≠ none := by
  -- Step by step with the reader of the line, which ends before the text does or its line does.
  fun_induction stringLine quote text count generalizing body start with
  | case1 | case2 | case5 => omega
  | case3 rest count ih =>
    -- A backslash takes both characters of the line end behind it, which the body sees as two.
    obtain ⟨broken, rfl, hbroken, hrest⟩ := hbody.inner_of_backslash hquote htext
    obtain ⟨inner, rfl, hinner, rfl⟩ :=
      hbroken.inner_of_plain (by decide) hrest hquote.ne.2.symm
    rw [stringBody.eq_3]
    simp only [List.length_cons] at hline
    exact ih rfl hinner (by omega)
  | case4 c rest count hbreak ih =>
    obtain ⟨inner, rfl, hinner, rfl⟩ := hbody.inner_of_backslash hquote htext
    rw [stringBody.eq_4 _ _ _ _ hbreak]
    simp only [List.length_cons] at hline
    exact ih rfl hinner (by omega)
  | case6 c rest count hlast hbreak hmore hfeed ih =>
    rw [stringBody.eq_5 _ _ _ _ hlast hbreak hmore]
    split
    · exact Option.some_ne_none _
    · next hne =>
      obtain ⟨inner, rfl, hinner, rfl⟩ :=
        hbody.inner_of_plain (ne_backslash hlast hmore) htext hne
      have hstate : (c == '\n' || c == '\r') = false := by simpa using hfeed
      rw [hstate]
      rw [List.length_cons] at hline
      exact ih rfl hinner (by omega)

theorem eq_of_unquoted? {text path : List Char} (h : unquoted? text = some path) :
    ∃ first last, text = first :: (path ++ [last]) := by
  cases text with
  | nil => cases h
  | cons first rest =>
    simp only [unquoted?] at h
    split at h
    · next last hlast =>
      split at h
      · obtain ⟨front, rfl⟩ := List.getLast?_eq_some_iff.mp hlast
        cases h
        exact ⟨first, last, by rw [List.dropLast_concat]⟩
      · cases h
    · cases h

/-- A string is read up to its closing quote, or else to the end of its line. -/
theorem stringLength?_cases {text : List Char} {count : Nat} {closed : Bool}
    (h : stringLength? text = some (count, closed)) :
    ∃ quote rest, text = quote :: rest ∧ IsQuote quote ∧
      ((closed = true ∧ ∃ stop, stringBody quote false rest 0 = some stop ∧ count = stop + 2) ∨
        (closed = false ∧ stringBody quote false rest 0 = none ∧
          count = stringLine quote rest 0 + 1)) := by
  cases text with
  | nil => cases h
  | cons quote rest =>
    simp only [stringLength?] at h
    split at h
    · next hquote =>
      refine ⟨quote, rest, rfl, hquote, ?_⟩
      split at h
      · next stop hbody =>
        cases h
        exact .inl ⟨rfl, stop, hbody, rfl⟩
      · next hbody =>
        split at h
        · cases h
          exact .inr ⟨rfl, hbody, rfl⟩
        · cases h
    · cases h

/-- A text begins with a name between two quotes. -/
def Quotes (text path : List Char) : Prop :=
  ∃ quote back, IsQuote quote ∧ text = quote :: (path ++ quote :: back) ∧ Body quote path

/-- A string is its name between two quotes if and only if it has its closing quote. -/
theorem quotes_iff_closed {text path : List Char} {count : Nat} {closed : Bool}
    (hlength : stringLength? text = some (count, closed))
    (hpath : unquoted? (text.take count) = some path) : Quotes text path ↔ closed = true := by
  obtain ⟨first, last, htake⟩ := eq_of_unquoted? hpath
  obtain ⟨quote, rest, rfl, hquote, ⟨rfl, stop, hbody, rfl⟩ | ⟨rfl, hbody, rfl⟩⟩ :=
    stringLength?_cases hlength
  · obtain ⟨body, back, rfl, hinside, rfl⟩ := stringBody_sound hquote hbody
    have passed : (body ++ quote :: back).take (body.length + 1) = body ++ [quote] := by
      rw [List.take_length_add_append]
      rfl
    rw [List.take_succ_cons, Nat.zero_add, passed, List.cons.injEq] at htake
    have same : body = path := List.append_inj_left' htake.2 rfl
    exact ⟨fun _ => rfl, fun _ => ⟨quote, back, hquote, by rw [same], same ▸ hinside⟩⟩
  · refine ⟨?_, fun h => by cases h⟩
    rintro ⟨other, back, -, htext, hinside⟩
    obtain ⟨rfl, rfl⟩ := List.cons.inj htext
    have hline : 0 + path.length < stringLine quote (path ++ quote :: back) 0 := by
      rw [List.take_succ_cons, List.cons.injEq] at htake
      have := congrArg List.length htake.2
      simp only [List.length_take, List.length_append, List.length_singleton] at this
      omega
    exact absurd hbody (stringBody_complete hquote rfl hinside hline)

/-- An import has the place of its string, and its name is the string without its first and its last
character.  It is what stands there between two quotes if and only if the string is closed. -/
theorem import_quoted_iff (dialect : Dialect) (source : String) (site : ImportSite)
    (hsite : site ∈ imports dialect source) :
    ∃ text count closed first last,
      textAt source.toList site.line site.column = some text ∧
      stringLength? text = some (count, closed) ∧
      text.take count = first :: (site.specifier.toList ++ [last]) ∧
      (Quotes text site.specifier.toList ↔ closed = true) := by
  obtain ⟨high, spans⟩ := spans_parse (dialect == .tsx) source.toList
  rw [imports, Node.imports_eq_found] at hsite
  obtain ⟨found, hfound, rfl⟩ := List.mem_map.mp hsite
  obtain ⟨-, -, count, closed, hlength, hpath⟩ := bounds_of_found spans found hfound
  obtain ⟨first, last, htake⟩ := eq_of_unquoted? hpath
  refine ⟨_, count, closed, first, last, textAt_place _ _, hlength, ?_, ?_⟩
  · rw [htake, String.toList_ofList]
  · rw [String.toList_ofList]
    exact quotes_iff_closed hlength hpath

theorem import_quoted_iff_escaped :
    ∃ text count closed first last,
      textAt "import \"./a\\\"b\";\n".toList 1 8 = some text ∧
      stringLength? text = some (count, closed) ∧
      text.take count = first :: ("./a\\\"b".toList ++ [last]) ∧
      (Quotes text "./a\\\"b".toList ↔ closed = true) :=
  import_quoted_iff .typescript "import \"./a\\\"b\";\n" ⟨1, 8, "./a\\\"b"⟩ (by decide +kernel)

/-- Of a string without its closing quote, the last character is lost. -/
theorem imports_lose_last_character :
    ¬ ∀ (dialect : Dialect) (source : String), ∀ site ∈ imports dialect source,
      ∃ text, textAt source.toList site.line site.column = some text ∧
        Quotes text site.specifier.toList := by
  intro h
  have listed : (⟨1, 8, "./a"⟩ : ImportSite) ∈ imports .typescript "import \"./ab\n;\n" := by
    decide +kernel
  obtain ⟨text, htext, quote, back, -, hquotes, -⟩ := h _ _ _ listed
  have stands : textAt "import \"./ab\n;\n".toList 1 8 = some "\"./ab\n;\n".toList := by decide
  rw [stands, Option.some.injEq] at htext
  rw [← htext] at hquotes
  simp only [String.reduceToList, List.cons_append, List.nil_append, List.cons.injEq] at hquotes
  obtain ⟨hopen, -, -, -, hclose, -⟩ := hquotes
  exact absurd (hopen.trans hclose.symm) (by decide)

end ImportLint.Proofs.ImportLiterals
