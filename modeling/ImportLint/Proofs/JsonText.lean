import ImportLint.Json.Reader
import Mathlib.Data.List.TakeWhile

/-!
JSON texts that read back.  What is written for strings, counts, and the lists and objects made of
them is read as the value that it was written for, and reading stops where the text of the value does.
-/

namespace ImportLint.Proofs.JsonText

open ImportLint.Json

/-- The three ways of writing a character in a string. -/
theorem escapeChar_cases (c : Char) :
    (∃ letter, letter ≠ 'u' ∧ unescape? letter = some c ∧ escapeChar c = ['\\', letter]) ∨
    (c.toNat < 32 ∧ escapeChar c =
      ['\\', 'u', '0', '0', Nat.digitChar (c.toNat / 16), Nat.digitChar (c.toNat % 16)]) ∨
    (c ≠ '"' ∧ c ≠ '\\' ∧ ¬ c.toNat < 32 ∧ escapeChar c = [c]) := by
  have hcode (n : Nat) (h : c.toNat = n) : Char.ofNat n = c := by rw [← h, Char.ofNat_toNat]
  unfold escapeChar
  split
  · next hc => exact .inl ⟨'"', by decide, by rw [hc]; rfl, rfl⟩
  · next hquote =>
    split
    · next hc => exact .inl ⟨'\\', by decide, by rw [hc]; rfl, rfl⟩
    · next hslash =>
      split
      · next hc => exact .inl ⟨'n', by decide, by rw [hc]; rfl, rfl⟩
      split
      · next hc => exact .inl ⟨'r', by decide, by rw [hc]; rfl, rfl⟩
      split
      · next hc => exact .inl ⟨'t', by decide, by rw [hc]; rfl, rfl⟩
      split
      · next hc => exact .inl ⟨'b', by decide, by rw [← hcode 8 hc]; rfl, rfl⟩
      split
      · next hc => exact .inl ⟨'f', by decide, by rw [← hcode 12 hc]; rfl, rfl⟩
      split
      · next hcontrol => exact .inr (.inl ⟨hcontrol, rfl⟩)
      · next hcontrol => exact .inr (.inr ⟨hquote, hslash, hcontrol, rfl⟩)

theorem hexValue4?_digitChar :
    ∀ n < 32, hexValue4? '0' '0' (Nat.digitChar (n / 16)) (Nat.digitChar (n % 16)) = some n := by
  decide

theorem pushCode_control {c : Char} (h : c.toNat < 32) (chars : List Char) :
    TextState.pushCode ⟨chars, true, none⟩ c.toNat = ⟨c :: chars, true, none⟩ := by
  have hhigh : isHighHalf c.toNat = false := by
    simp only [isHighHalf, Bool.and_eq_false_iff, decide_eq_false_iff_not]
    omega
  have hlow : isLowHalf c.toNat = false := by
    simp only [isLowHalf, Bool.and_eq_false_iff, decide_eq_false_iff_not]
    omega
  simp [TextState.pushCode, hhigh, hlow, TextState.push, Char.ofNat_toNat]

/-- What is written for a character is read as that character. -/
theorem readText_escapeChar (c : Char) (rest chars : List Char) :
    readText (escapeChar c ++ rest) ⟨chars, true, none⟩ =
      readText rest ⟨c :: chars, true, none⟩ := by
  rcases escapeChar_cases c with ⟨letter, hletter, hvalue, hc⟩ | ⟨hcontrol, hc⟩ |
    ⟨hquote, hslash, hcontrol, hc⟩
  · rw [hc]
    show readText ('\\' :: letter :: rest) _ = _
    rw [readText, hvalue]
    · rfl
    · rintro _ _ _ _ _ rfl
      exact absurd rfl hletter
  · rw [hc]
    show readText ('\\' :: 'u' :: '0' :: '0' :: _ :: _ :: rest) _ = _
    rw [readText, hexValue4?_digitChar c.toNat hcontrol]
    show readText rest (TextState.pushCode _ _) = _
    rw [pushCode_control hcontrol]
  · rw [hc]
    show readText (c :: rest) _ = _
    rw [readText, if_neg (not_or.mpr ⟨hcontrol, hslash⟩)]
    · rfl
    · exact hquote
    · intro _ _ _ _ _ h
      exact absurd h hslash
    · intro _ _ h
      exact absurd h hslash

/-- A string is read back, and what is behind it is left. -/
theorem readText_writeText (text : List Char) (rest chars : List Char) :
    readText (text.flatMap escapeChar ++ '"' :: rest) ⟨chars, true, none⟩ =
      (.text (String.ofList (chars.reverse ++ text)), some rest) := by
  induction text generalizing chars with
  | nil =>
      show readText ('"' :: rest) _ = _
      rw [readText, List.append_nil]
      rfl
  | cons c text ih =>
      rw [List.flatMap_cons, List.append_assoc, readText_escapeChar, ih, List.reverse_cons,
        List.append_assoc, List.singleton_append]

/-- A text that ends what is in front of it: it begins as the text behind a value does. -/
def IsEnd (rest : List Char) : Prop :=
  ∃ c tail, rest = c :: tail ∧ (c = ',' ∨ c = '\n')

theorem isEnd_newLine (level : Nat) (rest : List Char) : IsEnd (newLine level ++ rest) :=
  ⟨'\n', _, rfl, .inr rfl⟩

theorem takeDigits_append {digits rest : List Char} (hdigits : ∀ c ∈ digits, c.isDigit = true)
    (hrest : IsEnd rest) : takeDigits (digits ++ rest) = (digits, rest) := by
  obtain ⟨c, tail, rfl, hc⟩ := hrest
  have hnot : c.isDigit = false := by rcases hc with rfl | rfl <;> rfl
  rw [takeDigits, List.takeWhile_append_of_pos hdigits, List.dropWhile_append_of_pos hdigits,
    List.takeWhile_cons, List.dropWhile_cons, hnot]
  simp

theorem digitsValue_toDigits (n : Nat) : digitsValue (Nat.toDigits 10 n) = n := by
  have hvalue := Nat.ofDigitChars_toDigits (b := 10) (n := n) (by decide) (by decide)
  rw [Nat.ofDigitChars_eq_foldl] at hvalue
  rw [digitsValue]
  simpa only [Nat.mul_comm] using hvalue

/-- Only zero is written with a zero in front. -/
theorem eq_nil_of_toDigits_eq_zero_cons {n : Nat} {tail : List Char}
    (h : Nat.toDigits 10 n = '0' :: tail) : tail = [] := by
  induction n using Nat.strong_induction_on generalizing tail with
  | _ n ih =>
      by_cases hsmall : n < 10
      · rw [Nat.toDigits_of_lt_base hsmall] at h
        exact (List.cons.inj h).2.symm
      · rw [Nat.toDigits_of_base_le (by decide) (by omega)] at h
        obtain ⟨front, hfront⟩ : ∃ front, Nat.toDigits 10 (n / 10) = '0' :: front := by
          cases hdigits : Nat.toDigits 10 (n / 10) with
          | nil => exact absurd hdigits Nat.toDigits_ne_nil
          | cons c front =>
              rw [hdigits, List.cons_append] at h
              exact ⟨front, by rw [(List.cons.inj h).1]⟩
        have hnil := ih (n / 10) (by omega) hfront
        have hvalue := digitsValue_toDigits (n / 10)
        rw [hfront, hnil] at hvalue
        have hzero : 0 = n / 10 := hvalue
        omega

theorem readNumber_toDigits (n : Nat) {rest : List Char} (hrest : IsEnd rest) :
    readNumber false (Nat.toDigits 10 n ++ rest) = (ofNat n, some rest) := by
  have hdigits : ∀ c ∈ Nat.toDigits 10 n, c.isDigit = true := fun c hc =>
    Nat.isDigit_of_mem_toDigits (by decide) (by decide) hc
  rw [readNumber, takeDigits_append hdigits hrest]
  split
  · next heq => exact absurd (congrArg Prod.fst heq) Nat.toDigits_ne_nil
  · next heq =>
    have hcons := eq_nil_of_toDigits_eq_zero_cons (congrArg Prod.fst heq)
    exact absurd hcons (List.cons_ne_nil _ _)
  · next whole behind _ _ heq =>
    obtain ⟨rfl, rfl⟩ := Prod.mk.inj heq
    obtain ⟨c, tail, rfl, hc⟩ := hrest
    rcases hc with rfl | rfl
    · simp [readExponent, ofNat, digitsValue_toDigits]
    · simp [readExponent, ofNat, digitsValue_toDigits]

/-- A value that reads back.  Its text is told apart from blanks and from the end of a list by its first
character, and with enough fuel it is read as the value. -/
structure ReadsBack (value : Json) : Prop where
  starts : ∀ level, ∃ c tail, value.write level = c :: tail ∧ isBlank c = false ∧ c ≠ ']'
  reads : ∀ level fuel rest, (value.write level).length < fuel → IsEnd rest →
    readValue fuel (value.write level ++ rest) = (value, some rest)

theorem skipBlanks_newLine (level : Nat) (rest : List Char) :
    skipBlanks (newLine level ++ rest) = skipBlanks rest := by
  rw [skipBlanks, List.dropWhile_append_of_pos]
  · rfl
  · intro c hc
    rcases List.mem_cons.mp hc with rfl | hc
    · rfl
    · rw [List.eq_of_mem_replicate hc]
      rfl

theorem ReadsBack.skipBlanks_write {value : Json} (h : ReadsBack value) (level : Nat)
    (rest : List Char) : skipBlanks (value.write level ++ rest) = value.write level ++ rest := by
  obtain ⟨c, tail, hwrite, hblank, -⟩ := h.starts level
  rw [hwrite]
  show List.dropWhile isBlank (c :: (tail ++ rest)) = _
  rw [List.dropWhile_cons_of_neg (by simp [hblank])]
  rfl

theorem text_readsBack (value : String) : ReadsBack (.text value) where
  starts level := ⟨'"', _, rfl, rfl, by decide⟩
  reads level fuel rest hfuel _ := by
    obtain ⟨fuel, rfl⟩ : ∃ n, fuel = n + 1 := ⟨fuel - 1, by omega⟩
    have htext := readText_writeText value.toList rest []
    have hsource : (Json.text value).write level ++ rest =
        '"' :: (value.toList.flatMap escapeChar ++ '"' :: rest) := by
      rw [write, writeText]
      simp
    rw [hsource, readValue]
    show readText _ ⟨[], true, none⟩ = _
    rw [htext]
    simp

theorem ne_of_isDigit {c d : Char} (hc : c.isDigit = true) (hd : d.isDigit = false) : c ≠ d := by
  rintro rfl
  rw [hc] at hd
  cases hd

theorem isBlank_digit {c : Char} (h : c.isDigit = true) : isBlank c = false := by
  have hne (d : Char) (hd : d.isDigit = false) : (c == d) = false :=
    beq_eq_false_iff_ne.mpr (ne_of_isDigit h hd)
  rw [isBlank, hne ' ' rfl, hne '\n' rfl, hne '\t' rfl, hne '\r' rfl]
  rfl

theorem readValue_digit (fuel : Nat) {c : Char} (h : c.isDigit = true) (rest : List Char) :
    readValue (fuel + 1) (c :: rest) = readNumber false (c :: rest) := by
  have hskip : skipBlanks (c :: rest) = c :: rest := by
    rw [skipBlanks, List.dropWhile_cons_of_neg (by simp [isBlank_digit h])]
  rw [readValue, hskip]
  split
  · next heq => cases heq
  iterate 7
    · next heq => exact absurd (List.cons.inj heq).1 (ne_of_isDigit h rfl)
  · rfl

theorem count_readsBack (n : Nat) : ReadsBack (ofNat n) := by
  have hwrite (level : Nat) : (ofNat n).write level = Nat.toDigits 10 n := by
    rw [ofNat, write, Number.write]
    simp
  obtain ⟨c, tail, hcons⟩ := List.exists_cons_of_ne_nil (Nat.toDigits_ne_nil (b := 10) (n := n))
  have hdigit : c.isDigit = true :=
    Nat.isDigit_of_mem_toDigits (b := 10) (n := n) (by decide) (by decide) (by simp [hcons])
  refine ⟨fun level => ⟨c, tail, ?_, isBlank_digit hdigit, ne_of_isDigit hdigit rfl⟩, ?_⟩
  · rw [hwrite, hcons]
  · intro level fuel rest hfuel hrest
    obtain ⟨fuel, rfl⟩ : ∃ n, fuel = n + 1 := ⟨fuel - 1, by omega⟩
    have hnumber := readNumber_toDigits n hrest
    rw [hwrite, hcons, List.cons_append, readValue_digit fuel hdigit, ← List.cons_append, ← hcons,
      hnumber]

theorem ReadsBack.ne_bracket {value : Json} (h : ReadsBack value) (level : Nat)
    (rest after : List Char) : value.write level ++ rest ≠ ']' :: after := by
  obtain ⟨c, tail, hwrite, -, hc⟩ := h.starts level
  rw [hwrite]
  intro heq
  exact hc (List.cons.inj heq).1

/-- The items of a list are read back up to its bracket, if the fuel suffices for their text. -/
theorem readItems_write (level : Nat) {item : Json} {items : List Json}
    (h : ∀ value ∈ item :: items, ReadsBack value) (outer fuel : Nat) (rest : List Char)
    (hfuel : (item.write level ++ writeItems level items).length + 1 < fuel) :
    readItems fuel
        (item.write level ++ (writeItems level items ++ (newLine outer ++ ']' :: rest))) =
      (item :: items, some rest) := by
  induction items generalizing item fuel with
  | nil =>
      obtain ⟨fuel, rfl⟩ : ∃ n, fuel = n + 1 := ⟨fuel - 1, by omega⟩
      have hitem : ReadsBack item := h item (by simp)
      simp only [writeItems, List.append_nil, List.nil_append] at hfuel ⊢
      rw [readItems, hitem.reads level fuel _ (by omega) (isEnd_newLine outer _)]
      simp only [skipBlanks_newLine]
      rfl
  | cons next items ih =>
      obtain ⟨fuel, rfl⟩ : ∃ n, fuel = n + 1 := ⟨fuel - 1, by omega⟩
      have hitem : ReadsBack item := h item (by simp)
      have hnext : ReadsBack next := h next (by simp)
      have hbehind : writeItems level (next :: items) ++ (newLine outer ++ ']' :: rest) =
          ',' :: (newLine level ++ (next.write level ++
            (writeItems level items ++ (newLine outer ++ ']' :: rest)))) := by
        rw [writeItems]
        simp
      simp only [writeItems, List.length_append, List.length_cons] at hfuel
      have hitems := ih (fun value hvalue => h value (List.mem_cons_of_mem _ hvalue)) fuel
        (by rw [List.length_append]; omega)
      have hcomma (source : List Char) : skipBlanks (',' :: source) = ',' :: source := rfl
      rw [hbehind, readItems, hitem.reads level fuel _ (by omega) ⟨',', _, rfl, .inl rfl⟩]
      simp only [hcomma, skipBlanks_newLine, hnext.skipBlanks_write]
      split
      · next heq => exact absurd heq (hnext.ne_bracket _ _ _)
      · rw [hitems]

theorem array_readsBack {items : List Json} (h : ∀ item ∈ items, ReadsBack item) :
    ReadsBack (.array items) := by
  constructor
  · intro level
    cases items with
    | nil => exact ⟨'[', _, by rw [write], rfl, by decide⟩
    | cons item items => exact ⟨'[', _, by rw [write]; rfl, rfl, by decide⟩
  · intro level fuel rest hfuel hrest
    obtain ⟨fuel, rfl⟩ : ∃ n, fuel = n + 1 := ⟨fuel - 1, by omega⟩
    cases items with
    | nil =>
        rw [write, readValue]
        rfl
    | cons item items =>
        have hitem : ReadsBack item := h item (by simp)
        have hwrite : (Json.array (item :: items)).write level ++ rest =
            '[' :: (newLine (level + 1) ++ (item.write (level + 1) ++
              (writeItems (level + 1) items ++ (newLine level ++ ']' :: rest)))) := by
          rw [write]
          simp
        rw [write] at hfuel
        simp only [List.length_append, List.length_cons, newLine] at hfuel
        have hitems := readItems_write (level + 1) h level fuel rest
          (by rw [List.length_append]; omega)
        have hbracket (source : List Char) : skipBlanks ('[' :: source) = '[' :: source := rfl
        rw [hwrite, readValue]
        simp only [hbracket, skipBlanks_newLine, hitem.skipBlanks_write]
        split
        · next heq => exact absurd heq (hitem.ne_bracket _ _ _)
        · rw [hitems]

theorem readText_key (key : String) (rest : List Char) :
    readText (key.toList.flatMap escapeChar ++ '"' :: rest) .empty = (.text key, some rest) := by
  have htext := readText_writeText key.toList rest []
  rwa [List.reverse_nil, List.nil_append, String.ofList_toList] at htext

theorem readValue_blank (fuel : Nat) (source : List Char) :
    readValue fuel (' ' :: source) = readValue fuel source := by
  cases fuel with
  | zero => rw [readValue, readValue]
  | succ fuel =>
      rw [readValue, readValue]
      rfl

theorem readMembers_newLine (level fuel : Nat) (source : List Char) :
    readMembers fuel (newLine level ++ source) = readMembers fuel source := by
  cases fuel with
  | zero => rw [readMembers, readMembers]
  | succ fuel => rw [readMembers, readMembers, skipBlanks_newLine]

/-- Reading the members of an object begins with the first one; a brace behind it ends the object, and
a comma leads to the next member. -/
theorem readMembers_member {value : Json} (h : ReadsBack value) {level fuel : Nat}
    (hfuel : (value.write level).length < fuel) {behind : List Char} (hbehind : IsEnd behind)
    (key : String) :
    (∀ rest, skipBlanks behind = '}' :: rest →
        readMembers (fuel + 1) (writeText key ++ (':' :: ' ' :: (value.write level ++ behind))) =
          ([(key, value)], some rest)) ∧
      ∀ rest, skipBlanks behind = ',' :: rest →
        readMembers (fuel + 1) (writeText key ++ (':' :: ' ' :: (value.write level ++ behind))) =
          ((key, value) :: (readMembers fuel rest).1, (readMembers fuel rest).2) := by
  have hsource : writeText key ++ (':' :: ' ' :: (value.write level ++ behind)) =
      '"' :: (key.toList.flatMap escapeChar ++
        '"' :: ':' :: ' ' :: (value.write level ++ behind)) := by
    rw [writeText]
    simp
  have hskip (source : List Char) : skipBlanks ('"' :: source) = '"' :: source := rfl
  have hcolon (source : List Char) : skipBlanks (':' :: source) = ':' :: source := rfl
  have hvalue := h.reads level fuel behind hfuel hbehind
  rw [hsource, readMembers, hskip]
  simp only [readText_key, hcolon, readValue_blank, hvalue]
  constructor
  · intro rest hrest
    simp only [hrest]
  · intro rest hrest
    simp only [hrest]

/-- The members of an object are read back up to its brace, if the fuel suffices for their text. -/
theorem readMembers_write (level : Nat) {key : String} {value : Json}
    {members : List (String × Json)} (h : ∀ member ∈ (key, value) :: members, ReadsBack member.2)
    (outer fuel : Nat) (rest : List Char)
    (hfuel : (value.write level ++ writeMembers level members).length + 1 < fuel) :
    readMembers fuel
        (writeText key ++ (':' :: ' ' :: (value.write level ++
          (writeMembers level members ++ (newLine outer ++ '}' :: rest))))) =
      ((key, value) :: members, some rest) := by
  induction members generalizing key value fuel with
  | nil =>
      obtain ⟨fuel, rfl⟩ : ∃ n, fuel = n + 1 := ⟨fuel - 1, by omega⟩
      have hvalue : ReadsBack value := h (key, value) (by simp)
      simp only [writeMembers, List.append_nil, List.nil_append] at hfuel ⊢
      have hfits : (value.write level).length < fuel := by omega
      obtain ⟨hlast, -⟩ :=
        readMembers_member hvalue hfits (isEnd_newLine outer ('}' :: rest)) key
      exact hlast rest (skipBlanks_newLine outer _)
  | cons next members ih =>
      obtain ⟨fuel, rfl⟩ : ∃ n, fuel = n + 1 := ⟨fuel - 1, by omega⟩
      obtain ⟨nextKey, nextValue⟩ := next
      have hvalue : ReadsBack value := h (key, value) (by simp)
      have hbehind : writeMembers level ((nextKey, nextValue) :: members) ++
          (newLine outer ++ '}' :: rest) =
          ',' :: (newLine level ++ (writeText nextKey ++ (':' :: ' ' :: (nextValue.write level ++
            (writeMembers level members ++ (newLine outer ++ '}' :: rest)))))) := by
        rw [writeMembers]
        simp
      simp only [writeMembers, List.length_append, List.length_cons] at hfuel
      have hrest : ∀ member ∈ (nextKey, nextValue) :: members, ReadsBack member.2 :=
        fun member hmember => h member (List.mem_cons_of_mem _ hmember)
      have hmembers := ih hrest fuel (by rw [List.length_append]; omega)
      have hfits : (value.write level).length < fuel := by omega
      obtain ⟨-, hnext⟩ := readMembers_member hvalue hfits ⟨',', _, rfl, .inl rfl⟩ key
      rw [hbehind, hnext _ rfl]
      simp only [readMembers_newLine, hmembers]

theorem object_readsBack {members : List (String × Json)}
    (h : ∀ member ∈ members, ReadsBack member.2) : ReadsBack (.object members) := by
  constructor
  · intro level
    rcases members with _ | ⟨⟨key, value⟩, members⟩
    · exact ⟨'{', _, by rw [write], rfl, by decide⟩
    · exact ⟨'{', _, by rw [write]; rfl, rfl, by decide⟩
  · intro level fuel rest hfuel hrest
    obtain ⟨fuel, rfl⟩ : ∃ n, fuel = n + 1 := ⟨fuel - 1, by omega⟩
    rcases members with _ | ⟨⟨key, value⟩, members⟩
    · rw [write, readValue]
      rfl
    · have hwrite : (Json.object ((key, value) :: members)).write level ++ rest =
          '{' :: (newLine (level + 1) ++ (writeText key ++ (':' :: ' ' ::
            (value.write (level + 1) ++
              (writeMembers (level + 1) members ++ (newLine level ++ '}' :: rest)))))) := by
        rw [write]
        simp
      rw [write] at hfuel
      simp only [List.length_append, List.length_cons, newLine] at hfuel
      have hmembers := readMembers_write (level + 1) h level fuel rest
        (by rw [List.length_append]; omega)
      have hkey (source : List Char) :
          skipBlanks (writeText key ++ source) = writeText key ++ source := rfl
      have hbrace (source : List Char) : skipBlanks ('{' :: source) = '{' :: source := rfl
      rw [hwrite, readValue]
      simp only [hbrace, skipBlanks_newLine, hkey]
      split
      · next heq => cases heq
      · rw [hmembers]

/-- The indented text of a value that reads back, with a line feed behind it, holds that value and
nothing else. -/
theorem ReadsBack.read_pretty {value : Json} (h : ReadsBack value) :
    Json.read (value.pretty ++ "\n").toList = (value, true) := by
  have htext : (value.pretty ++ "\n").toList = value.write 0 ++ ['\n'] := by
    rw [String.toList_append, pretty, String.toList_ofList]
    rfl
  have hread := h.reads 0 ((value.write 0 ++ ['\n']).length + 1) ['\n']
    (by rw [List.length_append]; omega) ⟨'\n', [], rfl, .inr rfl⟩
  rw [htext, Json.read, hread]
  rfl

end ImportLint.Proofs.JsonText
