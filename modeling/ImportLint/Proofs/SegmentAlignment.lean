import ImportLint.Proofs.PolicyCompilation
import ImportLint.Proofs.SegmentTokens

/-!
Globs against paths, segment by segment.  A pattern without brackets, commas and backslashes matches a
path without empty segments exactly when its segments can be laid along those of the path, each on one
segment and each `**` on a run of them.  The empty text is one empty segment and not such a path.  Main
statement: `compileGlob_aligned`.
-/

namespace ImportLint.Proofs.SegmentAlignment

open ImportLint.Glob
open ImportLint.Path
open ImportLint.Text
open ImportLint.Proofs.GlobMatching
open ImportLint.Proofs.PathWords
open ImportLint.Proofs.PlainPatterns
open ImportLint.Proofs.PolicyCompilation
open ImportLint.Proofs.SegmentTokens

/-- The bytes that one segment of a pattern stands for, sign by sign. -/
inductive SegmentMatches : Segment → List UInt8 → Prop
  | nil : SegmentMatches [] []
  | star {segment : Segment} {right : List UInt8} (left : List UInt8)
      (h : SegmentMatches segment right) : SegmentMatches ('*' :: segment) (left ++ right)
  | any {segment : Segment} {right : List UInt8} (b : UInt8)
      (h : SegmentMatches segment right) : SegmentMatches ('?' :: segment) (b :: right)
  | sign {c : Char} {segment : Segment} {right : List UInt8} (hstar : c ≠ '*') (hany : c ≠ '?')
      (h : SegmentMatches segment right) :
      SegmentMatches (c :: segment) (String.utf8EncodeChar c ++ right)

/-- The segments of a pattern laid in order along the names of a path.  A `**` takes any run of names,
a `**` at the end no fewer than `least`, and every other segment takes one name. -/
inductive Aligned (least : Nat) : List Segment → List (List UInt8) → Prop
  | nil : Aligned least [] []
  | segment {segment : Segment} {segments : List Segment} {name : List UInt8}
      {names : List (List UInt8)} (hsegment : segment ≠ dirs) (hname : SegmentMatches segment name)
      (h : Aligned least segments names) : Aligned least (segment :: segments) (name :: names)
  | dirs {segments : List Segment} {names : List (List UInt8)} (taken : List (List UInt8))
      (htaken : segments = [] → least ≤ taken.length) (h : Aligned least segments names) :
      Aligned least (dirs :: segments) (taken ++ names)

/-- How many names a final `**` takes at least: one, if the pattern has some other segment. -/
def leastBelow (segments : List Segment) : Nat :=
  if ∃ segment ∈ segments, segment ≠ dirs then 1 else 0

section Alignment

variable {least : Nat} {segment : Segment} {segments : List Segment} {names : List (List UInt8)}

theorem segmentMatches_nil_iff {bytes : List UInt8} : SegmentMatches [] bytes ↔ bytes = [] := by
  constructor
  · intro h
    cases h with
    | nil => rfl
  · rintro rfl
    exact .nil

theorem segmentMatches_star_iff {bytes : List UInt8} :
    SegmentMatches ('*' :: segment) bytes ↔
      ∃ left right, bytes = left ++ right ∧ SegmentMatches segment right := by
  constructor
  · intro h
    cases h with
    | star left h => exact ⟨left, _, rfl, h⟩
    | sign hstar _ _ => exact absurd rfl hstar
  · rintro ⟨left, right, rfl, h⟩
    exact .star left h

theorem segmentMatches_any_iff {bytes : List UInt8} :
    SegmentMatches ('?' :: segment) bytes ↔
      ∃ b right, bytes = b :: right ∧ SegmentMatches segment right := by
  constructor
  · intro h
    cases h with
    | any b h => exact ⟨b, _, rfl, h⟩
    | sign _ hany _ => exact absurd rfl hany
  · rintro ⟨b, right, rfl, h⟩
    exact .any b h

theorem segmentMatches_sign_iff {c : Char} (hstar : c ≠ '*') (hany : c ≠ '?')
    {bytes : List UInt8} :
    SegmentMatches (c :: segment) bytes ↔
      ∃ right, bytes = String.utf8EncodeChar c ++ right ∧ SegmentMatches segment right := by
  constructor
  · intro h
    cases h with
    | star => exact absurd rfl hstar
    | any => exact absurd rfl hany
    | sign _ _ h => exact ⟨_, rfl, h⟩
  · rintro ⟨right, rfl, h⟩
    exact .sign hstar hany h

/-- A segment without signs of globs stands for its own bytes only. -/
theorem segmentMatches_text_iff {text : Segment} (htext : ∀ c ∈ text, c ≠ '*' ∧ c ≠ '?')
    {bytes : List UInt8} : SegmentMatches text bytes ↔ bytes = utf8 text := by
  induction text generalizing bytes with
  | nil => exact segmentMatches_nil_iff
  | cons c text ih =>
      obtain ⟨hstar, hany⟩ := htext c (by simp)
      rw [segmentMatches_sign_iff hstar hany]
      simp only [ih fun d hd => htext d (by simp [hd])]
      simp [utf8]

theorem aligned_nil_iff : Aligned least [] names ↔ names = [] := by
  constructor
  · intro h
    cases h with
    | nil => rfl
  · rintro rfl
    exact .nil

theorem aligned_segment_iff (hsegment : segment ≠ dirs) :
    Aligned least (segment :: segments) names ↔
      ∃ name rest, names = name :: rest ∧ SegmentMatches segment name ∧
        Aligned least segments rest := by
  constructor
  · intro h
    cases h with
    | segment _ hname h => exact ⟨_, _, rfl, hname, h⟩
    | dirs => exact absurd rfl hsegment
  · rintro ⟨name, rest, rfl, hname, h⟩
    exact .segment hsegment hname h

theorem aligned_dirs_iff :
    Aligned least (dirs :: segments) names ↔
      ∃ taken rest, names = taken ++ rest ∧ (segments = [] → least ≤ taken.length) ∧
        Aligned least segments rest := by
  constructor
  · intro h
    cases h with
    | segment hsegment => exact absurd rfl hsegment
    | dirs taken htaken h => exact ⟨taken, _, rfl, htaken, h⟩
  · rintro ⟨taken, rest, rfl, htaken, h⟩
    exact .dirs taken htaken h

theorem aligned_last_dirs_iff : Aligned least [dirs] names ↔ least ≤ names.length := by
  rw [aligned_dirs_iff]
  constructor
  · rintro ⟨taken, rest, rfl, htaken, h⟩
    obtain rfl := aligned_nil_iff.mp h
    simpa using htaken rfl
  · intro h
    exact ⟨names, [], by simp, fun _ => h, .nil⟩

/-- Two `**` in a row take what one takes. -/
theorem aligned_dirs_dirs_iff :
    Aligned least (dirs :: dirs :: segments) names ↔ Aligned least (dirs :: segments) names := by
  constructor
  · intro h
    obtain ⟨taken, rest, rfl, -, h⟩ := aligned_dirs_iff.mp h
    obtain ⟨more, rest, rfl, hmore, h⟩ := aligned_dirs_iff.mp h
    rw [← List.append_assoc]
    refine .dirs (taken ++ more) (fun hsegments => ?_) h
    have hleast := hmore hsegments
    rw [List.length_append]
    omega
  · intro h
    exact .dirs [] (by simp) h

/-- Without `**` the segments and the names correspond one to one. -/
theorem aligned_iff_forall₂ (hdirs : dirs ∉ segments) :
    Aligned least segments names ↔ List.Forall₂ SegmentMatches segments names := by
  induction segments generalizing names with
  | nil => rw [aligned_nil_iff, List.forall₂_nil_left_iff]
  | cons segment segments ih =>
      simp only [List.mem_cons, not_or] at hdirs
      rw [aligned_segment_iff (Ne.symm hdirs.1), List.forall₂_cons_left_iff]
      constructor
      · rintro ⟨name, rest, rfl, hname, h⟩
        exact ⟨name, rest, hname, (ih hdirs.2).mp h, rfl⟩
      · rintro ⟨name, rest, hname, h, rfl⟩
        exact ⟨name, rest, rfl, hname, (ih hdirs.2).mpr h⟩

end Alignment

/-- Names of a path: not empty and without separators. -/
def AreNames (names : List (List UInt8)) : Prop :=
  ∀ name ∈ names, name ≠ [] ∧ slash ∉ name

/-- Names, each behind a separator. -/
def below (names : List (List UInt8)) : List UInt8 :=
  names.flatMap (slash :: ·)

/-- Names with a separator between neighbours. -/
def joined : List (List UInt8) → List UInt8
  | [] => []
  | name :: names => name ++ below names

section Bytes

variable {names taken rest : List (List UInt8)} {name : List UInt8}

theorem below_of_ne_nil (h : names ≠ []) : below names = slash :: joined names := by
  obtain ⟨name, rest, rfl⟩ := List.exists_cons_of_ne_nil h
  rfl

theorem below_eq_nil_iff : below names = [] ↔ names = [] := by
  cases names with
  | nil => exact iff_of_true rfl rfl
  | cons name names => exact iff_of_false (List.cons_ne_nil _ _) (List.cons_ne_nil _ _)

theorem below_starts (names : List (List UInt8)) :
    below names = [] ∨ ∃ more, below names = slash :: more := by
  rcases names with _ | ⟨name, names⟩
  · exact .inl rfl
  · exact .inr ⟨_, rfl⟩

theorem joined_append (htaken : taken ≠ []) (hrest : rest ≠ []) :
    joined (taken ++ rest) = joined taken ++ slash :: joined rest := by
  obtain ⟨name, taken, rfl⟩ := List.exists_cons_of_ne_nil htaken
  rw [← below_of_ne_nil hrest]
  simp [joined, below]

/-- What begins a text of names at a separator can be told from where the first separator is. -/
theorem front_unique {front front' back back' : List UInt8} (hfront : slash ∉ front)
    (hfront' : slash ∉ front') (hback : back = [] ∨ ∃ more, back = slash :: more)
    (hback' : back' = [] ∨ ∃ more, back' = slash :: more) (h : front ++ back = front' ++ back') :
    front = front' ∧ back = back' := by
  have htakeWhile {front back : List UInt8} (hfront : slash ∉ front)
      (hback : back = [] ∨ ∃ more, back = slash :: more) :
      (front ++ back).takeWhile (· ≠ slash) = front := by
    have hpass : ∀ b ∈ front, (decide (b ≠ slash)) = true := by
      intro b hb
      simpa using ne_of_mem_of_not_mem hb hfront
    rw [List.takeWhile_append_of_pos hpass]
    rcases hback with rfl | ⟨more, rfl⟩
    · simp
    · simp
  have hfronts : front = front' := by
    rw [← htakeWhile hfront hback, h, htakeWhile hfront' hback']
  rw [hfronts] at h
  exact ⟨hfronts, List.append_cancel_left h⟩

/-- A cut at a separator is a cut between two names. -/
theorem exists_cut (hnames : AreNames names) {front back : List UInt8}
    (h : joined names = front ++ slash :: back) :
    ∃ taken rest, names = taken ++ rest ∧ taken ≠ [] ∧ rest ≠ [] ∧ back = joined rest := by
  induction names generalizing front with
  | nil => simp [joined] at h
  | cons name names ih =>
      obtain ⟨-, hname⟩ := hnames name (by simp)
      have hcut (more : List UInt8) (hmore : below names = more ++ slash :: back) :
          ∃ taken rest, name :: names = taken ++ rest ∧ taken ≠ [] ∧ rest ≠ [] ∧
            back = joined rest := by
        have hne : names ≠ [] := by
          rintro rfl
          simp [below] at hmore
        rw [below_of_ne_nil hne] at hmore
        rcases more with _ | ⟨b, more⟩
        · obtain rfl : joined names = back := by simpa using hmore
          exact ⟨[name], names, rfl, by simp, hne, rfl⟩
        · obtain ⟨-, hjoined⟩ : slash = b ∧ joined names = more ++ slash :: back := by
            simpa using hmore
          obtain ⟨taken, rest, rfl, -, hrest, rfl⟩ :=
            ih (fun other hother => hnames other (by simp [hother])) hjoined
          exact ⟨name :: taken, rest, rfl, by simp, hrest, rfl⟩
      -- The separator cannot stand inside the first name.
      rcases List.append_eq_append_iff.mp h with ⟨more, rfl, hmore⟩ | ⟨more, rfl, hslash⟩
      · exact hcut more hmore
      · rcases more with _ | ⟨b, more⟩
        · exact hcut [] hslash.symm
        · obtain ⟨rfl, -⟩ : slash = b ∧ back = more ++ below names := by simpa using hslash
          simp at hname

end Bytes

theorem has_noSlash_iff (b : UInt8) : ByteSet.noSlash.has b = true ↔ b ≠ slash := by
  have hone := has_one_iff slash b
  simp only [ByteSet.has, ByteSet.one, ByteSet.noSlash, Bool.bne_false, Bool.bne_true] at hone ⊢
  rw [Bool.not_eq_true', Bool.eq_false_iff, Ne, hone]

theorem slash_not_mem_encode {c : Char} (hc : c ≠ '/') : slash ∉ String.utf8EncodeChar c := by
  intro hmem
  obtain ⟨i, hi, hget⟩ := List.getElem_of_mem hmem
  have hfirst : (String.utf8EncodeChar c)[i].IsUTF8FirstByte := by
    rw [hget]
    decide
  obtain rfl := UInt8.isUTF8FirstByte_getElem_utf8EncodeChar.mp hfirst
  obtain ⟨b, rest, hbytes⟩ := List.exists_cons_of_ne_nil (List.ne_nil_of_mem hmem)
  obtain rfl : b = slash := by simpa [hbytes] using hget
  have htext : utf8 ['/'] ++ rest = utf8 [c] := by
    show slash :: rest = String.utf8EncodeChar c ++ []
    rw [List.append_nil, hbytes]
  have hprefix : '/' = c := by simpa using prefix_of_utf8_append htext
  exact hc hprefix.symm

section Matching

variable {segment : Segment} {segments : List Segment} {names : List (List UInt8)}

theorem matchesAll_star_cons_iff {pieces : List Piece} {bytes : List UInt8} :
    MatchesAll (.run .noSlash :: pieces) bytes ↔
      ∃ left right, bytes = left ++ right ∧ slash ∉ left ∧ MatchesAll pieces right := by
  have hrun (left : List UInt8) : (∀ b ∈ left, b ≠ slash) ↔ slash ∉ left :=
    ⟨fun h hmem => h slash hmem rfl, fun h b hb => ne_of_mem_of_not_mem hb h⟩
  simp only [matchesAll_cons_iff, matches_run_iff, has_noSlash_iff, hrun]

theorem matchesAll_any_cons_iff {pieces : List Piece} {bytes : List UInt8} :
    MatchesAll (.byte .noSlash :: pieces) bytes ↔
      ∃ b right, bytes = b :: right ∧ b ≠ slash ∧ MatchesAll pieces right := by
  simp only [matchesAll_byte_cons_iff, has_noSlash_iff]

/-- The tokens of a segment match what the segment stands for, and never a separator. -/
theorem matchesAll_signs_iff (hsegment : '/' ∉ segment) {bytes : List UInt8} :
    MatchesAll (lowerAll .component (segment.map signToken)) bytes ↔
      SegmentMatches segment bytes ∧ slash ∉ bytes := by
  induction segment generalizing bytes with
  | nil =>
      rw [List.map_nil, lowerAll, matchesAll_nil_iff, segmentMatches_nil_iff]
      constructor
      · rintro rfl
        simp
      · exact And.left
  | cons c segment ih =>
      simp only [List.mem_cons, not_or] at hsegment
      have ih {bytes : List UInt8} := @ih hsegment.2 bytes
      by_cases hstar : c = '*'
      · subst hstar
        show MatchesAll (.run .noSlash :: lowerAll .component (segment.map signToken)) bytes ↔ _
        simp only [matchesAll_star_cons_iff, segmentMatches_star_iff, ih]
        constructor
        · rintro ⟨left, right, rfl, hleft, hright, hslash⟩
          exact ⟨⟨left, right, rfl, hright⟩, by simp [hleft, hslash]⟩
        · rintro ⟨⟨left, right, rfl, hright⟩, hslash⟩
          rw [List.mem_append, not_or] at hslash
          exact ⟨left, right, rfl, hslash.1, hright, hslash.2⟩
      · by_cases hany : c = '?'
        · subst hany
          show MatchesAll (.byte .noSlash :: lowerAll .component (segment.map signToken)) bytes ↔ _
          simp only [matchesAll_any_cons_iff, segmentMatches_any_iff, ih]
          constructor
          · rintro ⟨b, right, rfl, hb, hright, hslash⟩
            exact ⟨⟨b, right, rfl, hright⟩, by simp [Ne.symm hb, hslash]⟩
          · rintro ⟨⟨b, right, rfl, hright⟩, hslash⟩
            simp only [List.mem_cons, not_or] at hslash
            exact ⟨b, right, rfl, Ne.symm hslash.1, hright, hslash.2⟩
        · have hbytes := slash_not_mem_encode (Ne.symm hsegment.1)
          rw [List.map_cons, signToken, if_neg hstar, if_neg hany, lowerAll, Token.lower,
            matchesAll_bytes_append_iff, segmentMatches_sign_iff hstar hany]
          simp only [ih]
          constructor
          · rintro ⟨right, rfl, hright, hslash⟩
            exact ⟨⟨right, rfl, hright⟩, by simp [hbytes, hslash]⟩
          · rintro ⟨⟨right, rfl, hright⟩, hslash⟩
            rw [List.mem_append, not_or] at hslash
            exact ⟨right, rfl, hright, hslash.2⟩

theorem matchesAll_slash_cons_iff {pieces : List Piece} {bytes : List UInt8} :
    MatchesAll (.byte (.one slash) :: pieces) bytes ↔
      ∃ rest, bytes = slash :: rest ∧ MatchesAll pieces rest :=
  @matchesAll_bytes_append_iff [slash] pieces bytes

theorem matchesAll_everything_cons_iff {pieces : List Piece} {bytes : List UInt8} :
    MatchesAll (.run .all :: pieces) bytes ↔
      ∃ front back, bytes = front ++ back ∧ MatchesAll pieces back := by
  simp only [matchesAll_cons_iff, matches_run_iff, has_all, implies_true, true_and]

theorem matchesAll_choice_cons_iff {branches : List (List Piece)} {pieces : List Piece}
    {bytes : List UInt8} :
    MatchesAll (.choice branches :: pieces) bytes ↔
      ∃ branch ∈ branches, MatchesAll (branch ++ pieces) bytes := by
  simp only [matchesAll_cons_iff, matches_choice_iff, matchesAll_append_iff]
  constructor
  · rintro ⟨front, back, rfl, ⟨branch, hmem, hbranch⟩, hpieces⟩
    exact ⟨branch, hmem, front, back, rfl, hbranch, hpieces⟩
  · rintro ⟨branch, hmem, front, back, rfl, hbranch, hpieces⟩
    exact ⟨front, back, rfl, ⟨branch, hmem, hbranch⟩, hpieces⟩

theorem matchesAll_leadingDirs_iff {pieces : List Piece} {bytes : List UInt8} :
    MatchesAll (lowerAll .component [.leadingDirs] ++ pieces) bytes ↔
      MatchesAll pieces bytes ∨
        ∃ front back, bytes = front ++ slash :: back ∧ MatchesAll pieces back := by
  show MatchesAll (.choice [[], [.byte (.one slash)], [.run .all, .byte (.one slash)]] :: pieces)
    bytes ↔ _
  simp only [matchesAll_choice_cons_iff, List.mem_cons, List.not_mem_nil, or_false,
    exists_eq_or_imp, exists_eq_left, List.nil_append, List.cons_append,
    matchesAll_slash_cons_iff, matchesAll_everything_cons_iff]
  constructor
  · rintro (h | ⟨back, rfl, h⟩ | ⟨front, _, rfl, back, rfl, h⟩)
    · exact .inl h
    · exact .inr ⟨[], back, rfl, h⟩
    · exact .inr ⟨front, back, rfl, h⟩
  · rintro (h | ⟨front, back, rfl, h⟩)
    · exact .inl h
    · exact .inr (.inr ⟨front, slash :: back, rfl, back, rfl, h⟩)

theorem matchesAll_middleDirs_iff {pieces : List Piece} {bytes : List UInt8} :
    MatchesAll (lowerAll .component [.middleDirs] ++ pieces) bytes ↔
      ∃ rest, bytes = slash :: rest ∧ (MatchesAll pieces rest ∨
        ∃ front back, rest = front ++ slash :: back ∧ MatchesAll pieces back) := by
  show MatchesAll (.choice [[.byte (.one slash)],
    [.byte (.one slash), .run .all, .byte (.one slash)]] :: pieces) bytes ↔ _
  simp only [matchesAll_choice_cons_iff, List.mem_cons, List.not_mem_nil, or_false,
    exists_eq_or_imp, exists_eq_left, List.nil_append, List.cons_append,
    matchesAll_slash_cons_iff, matchesAll_everything_cons_iff]
  constructor
  · rintro (⟨rest, rfl, h⟩ | ⟨_, rfl, front, _, rfl, back, rfl, h⟩)
    · exact ⟨rest, rfl, .inl h⟩
    · exact ⟨_, rfl, .inr ⟨front, back, rfl, h⟩⟩
  · rintro ⟨_, rfl, h | ⟨front, back, rfl, h⟩⟩
    · exact .inl ⟨_, rfl, h⟩
    · exact .inr ⟨_, rfl, front, slash :: back, rfl, back, rfl, h⟩

/-- What is reached behind some separator, or behind none, is reached behind some of the names. -/
theorem exists_rest_iff (hnames : AreNames names) (hne : names ≠ [])
    {reached : List UInt8 → Prop} :
    (reached (joined names) ∨
        ∃ front back, joined names = front ++ slash :: back ∧ reached back) ↔
      ∃ taken rest, names = taken ++ rest ∧ rest ≠ [] ∧ reached (joined rest) := by
  constructor
  · rintro (h | ⟨front, back, hcut, h⟩)
    · exact ⟨[], names, rfl, hne, h⟩
    · obtain ⟨taken, rest, rfl, -, hrest, rfl⟩ := exists_cut hnames hcut
      exact ⟨taken, rest, rfl, hrest, h⟩
  · rintro ⟨taken, rest, rfl, hrest, h⟩
    by_cases htaken : taken = []
    · subst htaken
      exact .inl h
    · exact .inr ⟨joined taken, joined rest, joined_append htaken hrest, h⟩

/-- The text of names behind a boundary. -/
def textBehind (boundary : Boundary) (names : List (List UInt8)) : List UInt8 :=
  if boundary.behindSlash then below names else joined names

/-- A recursive boundary passes over some of the names, any other one over none. -/
theorem matchesAll_boundary_iff (boundary : Boundary) (hnames : AreNames names)
    (hne : boundary.behindSlash = false → names ≠ []) (pieces : List Piece) :
    MatchesAll (lowerAll .component boundary.tokens ++ pieces) (textBehind boundary names) ↔
      ∃ taken rest, names = taken ++ rest ∧ (boundary.recursive = false → taken = []) ∧
        rest ≠ [] ∧ MatchesAll pieces (joined rest) := by
  rcases boundary with ⟨_ | _, _ | _⟩
  · show MatchesAll pieces (joined names) ↔ _
    simp [hne rfl]
  · show MatchesAll (lowerAll .component [.leadingDirs] ++ pieces) (joined names) ↔ _
    rw [matchesAll_leadingDirs_iff, exists_rest_iff hnames (hne rfl)]
    simp
  · show MatchesAll (.byte (.one slash) :: pieces) (below names) ↔ _
    rw [matchesAll_slash_cons_iff]
    by_cases hnil : names = []
    · simp [hnil, below]
    · simp [below_of_ne_nil hnil, hnil]
  · show MatchesAll (lowerAll .component [.middleDirs] ++ pieces) (below names) ↔ _
    rw [matchesAll_middleDirs_iff]
    by_cases hnil : names = []
    · simp [hnil, below]
    · simp [below_of_ne_nil hnil, exists_rest_iff hnames hnil]

/-- Behind a slash the tokens match nothing, or what begins with a separator. -/
theorem starts_of_matchesAll_spelled (boundary : Boundary) (hslash : boundary.behindSlash = true)
    {bytes : List UInt8} (h : MatchesAll (lowerAll .component (spelled boundary segments)) bytes) :
    bytes = [] ∨ ∃ more, bytes = slash :: more := by
  induction segments generalizing boundary with
  | nil => exact .inl (matchesAll_nil_iff.mp h)
  | cons segment rest ih =>
      by_cases hdirs : segment = dirs
      · subst hdirs
        by_cases hlast : rest = []
        · subst hlast
          rw [spelled, if_pos rfl, if_pos rfl, Boundary.finish, if_pos hslash] at h
          obtain ⟨more, rfl, -⟩ := matchesAll_slash_cons_iff.mp h
          exact .inr ⟨more, rfl⟩
        · rw [spelled_dirs_of_ne_nil boundary hlast] at h
          exact ih boundary.afterDirs hslash h
      · rw [spelled_of_ne_dirs boundary hdirs, List.append_assoc, lowerAll_append] at h
        obtain ⟨_, _ | _⟩ := boundary
        · obtain rfl := hslash
          obtain ⟨more, rfl, -⟩ := matchesAll_slash_cons_iff.mp h
          exact .inr ⟨more, rfl⟩
        · obtain rfl := hslash
          obtain ⟨more, rfl, -⟩ := matchesAll_middleDirs_iff.mp h
          exact .inr ⟨more, rfl⟩

/-- The tokens of a segment match the first of some names, if what follows begins at a separator. -/
theorem matchesAll_segment_iff (hsegment : '/' ∉ segment) (hnames : AreNames names)
    (hne : names ≠ []) {pieces : List Piece}
    (hpieces : ∀ bytes, MatchesAll pieces bytes → bytes = [] ∨ ∃ more, bytes = slash :: more) :
    MatchesAll (lowerAll .component (segment.map signToken) ++ pieces) (joined names) ↔
      ∃ name rest, names = name :: rest ∧ SegmentMatches segment name ∧
        MatchesAll pieces (below rest) := by
  obtain ⟨name, rest, rfl⟩ := List.exists_cons_of_ne_nil hne
  have hname : slash ∉ name := (hnames name (by simp)).2
  rw [matchesAll_append_iff]
  simp only [matchesAll_signs_iff hsegment]
  constructor
  · rintro ⟨front, back, hcut, ⟨hfront, hslash⟩, hback⟩
    obtain ⟨rfl, rfl⟩ :=
      front_unique hname hslash (below_starts rest) (hpieces back hback) hcut
    exact ⟨name, rest, rfl, hfront, hback⟩
  · rintro ⟨_, _, hnames, hmatch, hrest⟩
    obtain ⟨rfl, rfl⟩ := List.cons.inj hnames
    exact ⟨name, below rest, rfl, ⟨hmatch, hname⟩, hrest⟩

/-- The segments that a boundary stands for on its own. -/
def pending (boundary : Boundary) : List Segment :=
  if boundary.recursive then [dirs] else []

theorem aligned_pending_segment_iff {least : Nat} (boundary : Boundary) (hsegment : segment ≠ dirs) :
    Aligned least (pending boundary ++ segment :: segments) names ↔
      ∃ taken rest, names = taken ++ rest ∧ (boundary.recursive = false → taken = []) ∧
        ∃ name others, rest = name :: others ∧ SegmentMatches segment name ∧
          Aligned least segments others := by
  rcases boundary with ⟨_, _ | _⟩
  · show Aligned least (segment :: segments) names ↔ _
    simp [aligned_segment_iff hsegment]
  · show Aligned least (dirs :: segment :: segments) names ↔ _
    simp [aligned_dirs_iff, aligned_segment_iff hsegment]

theorem matchesAll_everythingBelow_iff :
    MatchesAll (lowerAll .component [.everythingBelow]) (below names) ↔ 1 ≤ names.length := by
  show MatchesAll [.byte (.one slash), .run .all] (below names) ↔ _
  rw [matchesAll_slash_cons_iff]
  constructor
  · rintro ⟨more, hmore, -⟩
    apply List.length_pos_of_ne_nil
    rintro rfl
    simp [below] at hmore
  · intro hlength
    refine ⟨joined names, below_of_ne_nil (List.ne_nil_of_length_pos hlength), ?_⟩
    exact matchesAll_everything_cons_iff.mpr ⟨joined names, [], by simp, .nil⟩

/-- One segment other than `**`, if what is behind it is settled. -/
theorem matchesAll_spelled_segment_iff {rest : List Segment} (boundary : Boundary)
    (hdirs : segment ≠ dirs) (hsegment : '/' ∉ segment) (hnames : AreNames names)
    (hne : boundary.behindSlash = false → names ≠ [])
    (hrest : ∀ more, AreNames more →
      (MatchesAll (lowerAll .component (spelled .slash rest)) (below more) ↔
        Aligned 1 rest more)) :
    MatchesAll (lowerAll .component (spelled boundary (segment :: rest)))
        (textBehind boundary names) ↔
      Aligned 1 (pending boundary ++ segment :: rest) names := by
  have hstarts := fun bytes => @starts_of_matchesAll_spelled rest .slash rfl bytes
  rw [spelled_of_ne_dirs boundary hdirs, List.append_assoc, lowerAll_append, lowerAll_append,
    matchesAll_boundary_iff boundary hnames hne, aligned_pending_segment_iff boundary hdirs]
  refine exists_congr fun taken => exists_congr fun others => ?_
  refine and_congr_right fun hsplit => and_congr_right fun _ => ?_
  have hothers : AreNames others := fun name hname => hnames name (by simp [hsplit, hname])
  constructor
  · rintro ⟨hne, h⟩
    obtain ⟨name, more, rfl, hname, hmore⟩ :=
      (matchesAll_segment_iff hsegment hothers hne hstarts).mp h
    have haligned := (hrest more fun other hmem => hothers other (by simp [hmem])).mp hmore
    exact ⟨name, more, rfl, hname, haligned⟩
  · rintro ⟨name, more, rfl, hname, haligned⟩
    have hmore := (hrest more fun other hmem => hothers other (by simp [hmem])).mpr haligned
    refine ⟨by simp, ?_⟩
    exact (matchesAll_segment_iff hsegment hothers (by simp) hstarts).mpr
      ⟨name, more, rfl, hname, hmore⟩

/-- The tokens of a pattern match names exactly when its segments can be laid along them. -/
theorem matchesAll_spelled_iff (hsegments : ∀ segment ∈ segments, '/' ∉ segment)
    (boundary : Boundary) (hrecursive : boundary.recursive = true → segments ≠ [])
    (hother : boundary.behindSlash = false → ∃ segment ∈ segments, segment ≠ dirs)
    (hnames : AreNames names) (hne : boundary.behindSlash = false → names ≠ []) :
    MatchesAll (lowerAll .component (spelled boundary segments)) (textBehind boundary names) ↔
      Aligned 1 (pending boundary ++ segments) names := by
  -- A recursive boundary stands for the `**` segments already read, which merge into one.
  induction segments generalizing boundary names with
  | nil =>
      rcases boundary with ⟨_ | _, _ | _⟩
      · exact absurd (hother rfl) (by simp)
      · exact absurd rfl (hrecursive rfl)
      · show MatchesAll [] (below names) ↔ Aligned 1 [] names
        rw [matchesAll_nil_iff, aligned_nil_iff, below_eq_nil_iff]
      · exact absurd rfl (hrecursive rfl)
  | cons segment rest ih =>
      have hrest : ∀ other ∈ rest, '/' ∉ other := fun other hmem => hsegments other (by simp [hmem])
      by_cases hdirs : segment = dirs
      · subst hdirs
        have hpending : Aligned 1 (pending boundary ++ dirs :: rest) names ↔
            Aligned 1 (dirs :: rest) names := by
          rcases boundary with ⟨_, _ | _⟩
          · rfl
          · exact aligned_dirs_dirs_iff
        rw [hpending]
        by_cases hlast : rest = []
        · subst hlast
          have hslash : boundary.behindSlash = true := by
            by_contra hfront
            simpa using hother (by simpa using hfront)
          rw [spelled, if_pos rfl, if_pos rfl, Boundary.finish, if_pos hslash, textBehind,
            if_pos hslash, matchesAll_everythingBelow_iff, aligned_last_dirs_iff]
        · rw [spelled_dirs_of_ne_nil boundary hlast]
          refine ih hrest boundary.afterDirs (fun _ => hlast) (fun hfront => ?_) hnames hne
          simpa using hother hfront
      · apply matchesAll_spelled_segment_iff boundary hdirs (hsegments segment (by simp)) hnames hne
        intro more hmore
        exact ih hrest .slash (by simp [Boundary.slash]) (by simp [Boundary.slash]) hmore
          (by simp [Boundary.slash])

end Matching

section Patterns

variable {segments : List Segment}

theorem spelled_of_forall_dirs (boundary : Boundary) (hne : segments ≠ [])
    (h : ∀ segment ∈ segments, segment = dirs) : spelled boundary segments = [boundary.finish] := by
  induction segments generalizing boundary with
  | nil => exact absurd rfl hne
  | cons segment rest ih =>
      obtain rfl := h segment (by simp)
      by_cases hlast : rest = []
      · subst hlast
        rfl
      · rw [spelled_dirs_of_ne_nil boundary hlast]
        exact ih boundary.afterDirs hlast fun other hmem => h other (by simp [hmem])

theorem aligned_zero_of_forall_dirs (hne : segments ≠ [])
    (h : ∀ segment ∈ segments, segment = dirs) (names : List (List UInt8)) :
    Aligned 0 segments names := by
  induction segments with
  | nil => exact absurd rfl hne
  | cons segment rest ih =>
      obtain rfl := h segment (by simp)
      by_cases hlast : rest = []
      · subst hlast
        exact aligned_last_dirs_iff.mpr (Nat.zero_le _)
      · exact .dirs [] (fun _ => Nat.zero_le _) (ih hlast fun other hmem => h other (by simp [hmem]))

theorem exists_signToken_mem (hsegments : AreUnbracketed segments)
    (hother : ∃ segment ∈ segments, segment ≠ dirs) (boundary : Boundary) :
    ∃ c, signToken c ∈ spelled boundary segments := by
  induction segments generalizing boundary with
  | nil => simp at hother
  | cons segment rest ih =>
      by_cases hdirs : segment = dirs
      · subst hdirs
        obtain ⟨other, hmem, hne⟩ : ∃ segment ∈ rest, segment ≠ dirs := by simpa using hother
        rw [spelled_dirs_of_ne_nil boundary (List.ne_nil_of_mem hmem)]
        exact ih (fun other hmem => hsegments other (by simp [hmem])) ⟨other, hmem, hne⟩ _
      · obtain ⟨c, text, rfl⟩ := List.exists_cons_of_ne_nil (hsegments segment (by simp)).1
        refine ⟨c, ?_⟩
        rw [spelled_of_ne_dirs boundary hdirs]
        simp

theorem signToken_ne_leadingDirs (c : Char) : signToken c ≠ .leadingDirs := by
  rw [signToken]
  split
  · simp
  · split
    · simp
    · simp

theorem lower_eq_lowerAll (scope : Scope) {tokens : List Token} (h : tokens ≠ [.leadingDirs]) :
    lower scope tokens = lowerAll scope tokens := by
  rw [lower]
  exact h

/-- The pieces of a pattern match a path exactly when the segments of the one can be laid along those
of the other. -/
theorem matchesAll_lower_iff (hne : segments ≠ []) (hsegments : AreUnbracketed segments)
    {names : List (List UInt8)} (hnames : AreNames names) (hnamesNe : names ≠ []) :
    MatchesAll (lower .component (spelled .front segments)) (joined names) ↔
      Aligned (leastBelow segments) segments names := by
  by_cases hother : ∃ segment ∈ segments, segment ≠ dirs
  · obtain ⟨c, hc⟩ := exists_signToken_mem hsegments hother .front
    have hlower : spelled .front segments ≠ [.leadingDirs] := by
      intro hlone
      rw [hlone, List.mem_singleton] at hc
      exact signToken_ne_leadingDirs c hc
    rw [lower_eq_lowerAll _ hlower, leastBelow, if_pos hother]
    apply matchesAll_spelled_iff _ .front
    · simp [Boundary.front]
    · exact fun _ => hother
    · exact hnames
    · exact fun _ => hnamesNe
    · exact fun segment hmem hslash => ((hsegments segment hmem).2 '/' hslash).2 rfl
  · have hdirs : ∀ segment ∈ segments, segment = dirs := by simpa using hother
    rw [spelled_of_forall_dirs _ hne hdirs, leastBelow, if_neg hother]
    refine iff_of_true ?_ (aligned_zero_of_forall_dirs hne hdirs names)
    exact matchesAll_everything_cons_iff.mpr ⟨joined names, [], by simp, .nil⟩

end Patterns

theorem utf8_joinSlash (segments : List Segment) :
    utf8 (joinSlash segments) = joined (segments.map utf8) := by
  induction segments with
  | nil => rfl
  | cons segment rest ih =>
      by_cases hlast : rest = []
      · subst hlast
        simp [joinSlash, joined, below]
      · have hslash : utf8 ['/'] = [slash] := by decide
        rw [joinSlash_cons_of_ne_nil segment hlast, utf8_append, ← List.singleton_append, utf8_append,
          hslash, ih, List.map_cons, joined, below_of_ne_nil (by simpa using hlast)]
        rfl

theorem areNames_utf8 {segments : List Segment}
    (h : ∀ segment ∈ segments, segment ≠ [] ∧ '/' ∉ segment) : AreNames (segments.map utf8) := by
  intro name hname
  obtain ⟨segment, hmem, rfl⟩ := List.mem_map.mp hname
  obtain ⟨hne, hslash⟩ := h segment hmem
  constructor
  · obtain ⟨c, text, rfl⟩ := List.exists_cons_of_ne_nil hne
    exact List.append_ne_nil_of_left_ne_nil String.utf8EncodeChar_ne_nil _
  · intro hmem
    obtain ⟨c, hc, hbyte⟩ := List.mem_flatMap.mp hmem
    exact slash_not_mem_encode (ne_of_mem_of_not_mem hc hslash) hbyte

/-- The segments of a text. -/
def segmentsOf (text : String) : List Segment :=
  splitSlash text.toList

theorem segmentsOf_ne_nil (text : String) : segmentsOf text ≠ [] :=
  splitSlash_ne_nil text.toList

theorem utf8_toList (text : String) :
    utf8 text.toList = joined ((segmentsOf text).map utf8) := by
  rw [segmentsOf, ← utf8_joinSlash, joinSlash_splitSlash]

theorem segmentsOf_ofList {segments : List Segment} (hne : segments ≠ [])
    (hsegments : AreUnbracketed segments) :
    segmentsOf (String.ofList (joinSlash segments)) = segments := by
  rw [segmentsOf, String.toList_ofList, splitSlash_joinSlash hne]
  exact fun segment hmem hslash => ((hsegments segment hmem).2 '/' hslash).2 rfl

theorem areUnbracketed_segmentsOf {pattern : String}
    (h : ∀ segment ∈ segmentsOf pattern, segment ≠ [] ∧ ∀ c ∈ segment, isUnbracketed c) :
    AreUnbracketed (segmentsOf pattern) := by
  intro segment hmem
  obtain ⟨hsegment, hsigns⟩ := h segment hmem
  have hslash := splitSlash_slash_free pattern.toList segment hmem
  exact ⟨hsegment, fun c hc => ⟨hsigns c hc, ne_of_mem_of_not_mem hc hslash⟩⟩

theorem areNames_segmentsOf {path : String} (h : ∀ segment ∈ segmentsOf path, segment ≠ []) :
    AreNames ((segmentsOf path).map utf8) :=
  areNames_utf8 fun segment hmem =>
    ⟨h segment hmem, splitSlash_slash_free path.toList segment hmem⟩

/-- The compiled form of a pattern without brackets, commas and backslashes. -/
theorem compileGlob_eq {pattern : String} (hpattern : AreUnbracketed (segmentsOf pattern)) :
    compileGlob pattern =
      .ok ⟨pattern, lower .component (spelled .front (segmentsOf pattern))⟩ := by
  have hparse := parse_eq_spelled false (segmentsOf_ne_nil pattern) hpattern
  rw [segmentsOf, joinSlash_splitSlash] at hparse
  rw [compileGlob, Glob.compile, hparse]
  rfl

/-- A pattern whose segments are not empty and hold no bracket, comma or backslash compiles, and it
matches a path without empty segments exactly when its segments can be laid along those of the path.
So without `**` each segment matches one segment of the path, and a repeated `**` may be written
once.  The targets and the restrictions of policies are compiled to such globs. -/
theorem compileGlob_aligned {pattern : String}
    (hpattern : ∀ segment ∈ segmentsOf pattern, segment ≠ [] ∧ ∀ c ∈ segment, isUnbracketed c) :
    ∃ glob, compileGlob pattern = .ok glob ∧
      (∀ path, (∀ segment ∈ segmentsOf path, segment ≠ []) →
        (glob.isMatch path = true ↔
          Aligned (leastBelow (segmentsOf pattern)) (segmentsOf pattern)
            ((segmentsOf path).map utf8))) ∧
      (dirs ∉ segmentsOf pattern → ∀ path, (∀ segment ∈ segmentsOf path, segment ≠ []) →
        (glob.isMatch path = true ↔
          List.Forall₂ SegmentMatches (segmentsOf pattern) ((segmentsOf path).map utf8))) ∧
      (∀ front back, segmentsOf pattern = front ++ dirs :: dirs :: back →
        ∃ shorter, compileGlob (String.ofList (joinSlash (front ++ dirs :: back))) = .ok shorter ∧
          ∀ path, shorter.isMatch path = glob.isMatch path) ∧
      ∀ index entry policy, Policy.compile index entry = .ok policy →
        (entry.target = pattern → policy.target = glob) ∧
          (pattern ∈ entry.restrictions → glob ∈ policy.restrictions) := by
  have hsegments := areUnbracketed_segmentsOf hpattern
  have hmatch (path : String) (hpath : ∀ segment ∈ segmentsOf path, segment ≠ []) :
      Glob.isMatch ⟨pattern, lower .component (spelled .front (segmentsOf pattern))⟩ path = true ↔
        Aligned (leastBelow (segmentsOf pattern)) (segmentsOf pattern)
          ((segmentsOf path).map utf8) := by
    rw [isMatch_iff, utf8_toList]
    exact matchesAll_lower_iff (segmentsOf_ne_nil pattern) hsegments (areNames_segmentsOf hpath)
      (by simp [segmentsOf_ne_nil])
  refine ⟨_, compileGlob_eq hsegments, hmatch, ?_, ?_, ?_⟩
  · intro hdirs path hpath
    rw [hmatch path hpath, aligned_iff_forall₂ hdirs]
  · intro front back hsplit
    have hshorter : AreUnbracketed (front ++ dirs :: back) := by
      intro segment hmem
      apply hsegments segment
      rw [hsplit]
      simp only [List.mem_append, List.mem_cons] at hmem ⊢
      tauto
    have hsegmentsOf := segmentsOf_ofList (by simp) hshorter
    rw [← hsegmentsOf] at hshorter
    refine ⟨_, compileGlob_eq hshorter, fun path => ?_⟩
    simp only [Glob.isMatch, hsegmentsOf, hsplit, spelled_dirs_dirs]
  · intro index entry policy hcompile
    have hcompiled := (compile_eq_ok_iff index entry policy).mp hcompile
    constructor
    · rintro rfl
      exact hcompiled.target_eq (compileGlob_eq hsegments)
    · intro hmem
      exact hcompiled.mem_restrictions hmem (compileGlob_eq hsegments)

/-- `src/**/*.ts` reaches two directories down. -/
theorem compileGlob_aligned_source_tree :
    (∀ segment ∈ segmentsOf "src/**/*.ts", segment ≠ [] ∧ ∀ c ∈ segment, isUnbracketed c) ∧
      ∃ glob, compileGlob "src/**/*.ts" = .ok glob ∧ glob.isMatch "src/x/y/a.ts" = true := by
  have hsegments : segmentsOf "src/**/*.ts" = [['s', 'r', 'c'], dirs, ['*', '.', 't', 's']] := by
    decide
  have hpath : segmentsOf "src/x/y/a.ts" = [['s', 'r', 'c'], ['x'], ['y'], ['a', '.', 't', 's']] := by
    decide
  have hpattern :
      ∀ segment ∈ segmentsOf "src/**/*.ts", segment ≠ [] ∧ ∀ c ∈ segment, isUnbracketed c := by
    rw [hsegments]
    simp [dirs, isUnbracketed]
  refine ⟨hpattern, ?_⟩
  obtain ⟨glob, hglob, hmatch, -⟩ := compileGlob_aligned hpattern
  refine ⟨glob, hglob, (hmatch "src/x/y/a.ts" (by simp [hpath])).mpr ?_⟩
  rw [hsegments, hpath]
  have hfirst : SegmentMatches ['s', 'r', 'c'] (utf8 ['s', 'r', 'c']) :=
    (segmentMatches_text_iff (by simp)).mpr rfl
  have hlast : SegmentMatches ['*', '.', 't', 's'] (utf8 ['a'] ++ utf8 ['.', 't', 's']) :=
    .star (utf8 ['a']) ((segmentMatches_text_iff (by simp)).mpr rfl)
  exact .segment (by decide) hfirst
    (.dirs [utf8 ['x'], utf8 ['y']] (by simp) (.segment (by decide) hlast .nil))

end ImportLint.Proofs.SegmentAlignment
