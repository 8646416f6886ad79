import ImportLint.Proofs.PathWords
import ImportLint.Proofs.PlainPatterns
import Mathlib.Data.List.Induction

/-!
Patterns cut at their slashes.  Without brackets, commas and backslashes a pattern is read segment by
segment: `**` changes the boundary in front of the next segment, and any other segment is read sign by
sign.  Main statement: `parse_eq_spelled`.
-/

namespace ImportLint.Proofs.SegmentTokens

open ImportLint.Glob
open ImportLint.Path
open ImportLint.Proofs.PathWords
open ImportLint.Proofs.PlainPatterns

/-- A character that neither groups, separates alternatives, begins a class nor escapes. -/
def isUnbracketed (c : Char) : Bool :=
  !(['[', ']', '{', '}', ',', '\\'].contains c)

/-- The segment `**`. -/
def dirs : Segment := ['*', '*']

def signToken (c : Char) : Token :=
  if c = '*' then .star else if c = '?' then .any else .literal c

/-- What stands in front of a segment: whether a slash does, and whether a segment `**` does. -/
structure Boundary where
  behindSlash : Bool
  recursive : Bool

namespace Boundary

/-- The front of a pattern. -/
def front : Boundary := ⟨false, false⟩

/-- The boundary behind a segment other than `**`. -/
def slash : Boundary := ⟨true, false⟩

def afterDirs (boundary : Boundary) : Boundary := { boundary with recursive := true }

def tokens : Boundary → List Token
  | ⟨false, false⟩ => []
  | ⟨false, true⟩ => [.leadingDirs]
  | ⟨true, false⟩ => [.literal '/']
  | ⟨true, true⟩ => [.middleDirs]

/-- What the boundary becomes if the pattern ends with `**` behind it. -/
def finish (boundary : Boundary) : Token :=
  if boundary.behindSlash then .everythingBelow else .leadingDirs

/-- The character in front of the segment. -/
def previous (boundary : Boundary) : Option Char :=
  if boundary.behindSlash || boundary.recursive then some '/' else none

end Boundary

/-- The tokens of a word of segments behind a boundary. -/
def spelled (boundary : Boundary) : List Segment → List Token
  | [] => []
  | segment :: rest =>
    if segment = dirs then
      if rest = [] then [boundary.finish] else spelled boundary.afterDirs rest
    else boundary.tokens ++ segment.map signToken ++ spelled .slash rest

variable {segment : Segment} {segments rest : List Segment}

theorem spelled_dirs_of_ne_nil (boundary : Boundary) (h : rest ≠ []) :
    spelled boundary (dirs :: rest) = spelled boundary.afterDirs rest := by
  rw [spelled, if_pos rfl, if_neg h]

theorem spelled_of_ne_dirs (boundary : Boundary) (h : segment ≠ dirs) :
    spelled boundary (segment :: rest) =
      boundary.tokens ++ segment.map signToken ++ spelled .slash rest := by
  rw [spelled, if_neg h]

/-- Repeating `**` changes nothing. -/
theorem spelled_dirs_dirs (boundary : Boundary) (front back : List Segment) :
    spelled boundary (front ++ dirs :: dirs :: back) = spelled boundary (front ++ dirs :: back) := by
  induction front generalizing boundary with
  | nil =>
      show spelled boundary (dirs :: dirs :: back) = spelled boundary (dirs :: back)
      rw [spelled_dirs_of_ne_nil boundary (by simp)]
      rcases back with _ | ⟨segment, back⟩
      · rfl
      · rw [spelled_dirs_of_ne_nil _ (by simp), spelled_dirs_of_ne_nil _ (by simp)]
        rfl
  | cons segment front ih => simp [spelled, ih]

theorem tokens_sign {c : Char} (hc : isUnbracketed c) {rest : List Atom}
    (hrest : c = '*' → rest.head? ≠ some (.plain '*')) (previous : Option Char)
    (level : Level) :
    tokens (.plain c :: rest) previous level [] =
      tokens rest (some c) (level.push (signToken c)) [] := by
  simp only [isUnbracketed, List.contains_cons, List.contains_nil, Bool.not_eq_true',
    Bool.or_eq_false_iff, beq_eq_false_iff_ne] at hc
  by_cases hstar : c = '*'
  · subst hstar
    rw [tokens]
    · rfl
    · rintro rest rfl
      exact hrest rfl rfl
  · by_cases hany : c = '?'
    · subst hany
      rw [tokens]
      rfl
    · rw [tokens]
      · simp [signToken, hstar, hany]
      all_goals grind

theorem push_tokens_ne_nil (level : Level) (token : Token) : (level.push token).tokens ≠ [] :=
  List.cons_ne_nil _ _

theorem pushStars_tokens_ne_nil (level : Level) : level.pushStars.tokens ≠ [] :=
  List.cons_ne_nil _ _

theorem tokens_two_stars {rest : List Atom} {previous : Option Char} {level : Level}
    (hlevel : level.tokens ≠ []) (hprevious : previous ≠ some '/') :
    tokens (.plain '*' :: .plain '*' :: rest) previous level [] =
      tokens rest (some '*') level.pushStars [] := by
  obtain ⟨token, before, hbefore⟩ := List.exists_cons_of_ne_nil hlevel
  have hstarts : startsComponent false previous = false := by
    simpa [startsComponent] using hprevious
  rw [tokens.eq_def]
  simp [hbefore, hstarts]

/-- Two stars in front of another sign are no segment, wherever they stand. -/
theorem tokens_stars_sign {c : Char} (hc : c ≠ '/') (rest : List Atom) (previous : Option Char)
    (level : Level) :
    tokens (.plain '*' :: .plain '*' :: .plain c :: rest) previous level [] =
      tokens (.plain c :: rest) (some '*') level.pushStars [] := by
  rw [tokens.eq_def]
  rcases hlevel : level.tokens with _ | ⟨token, before⟩
  · simp [hlevel, hc]
  · rcases hstarts : startsComponent false previous
    · simp [hlevel, hstarts]
    · simp [hlevel, hstarts, hc]

/-- What can stand behind a segment. -/
def EndsSegment (rest : List Atom) : Prop :=
  rest = [] ∨ ∃ more, rest = .plain '/' :: more

theorem EndsSegment.head?_append_ne {rest : List Atom} (h : EndsSegment rest) {text : List Char}
    (htext : text.head? ≠ some '*') : (text.map Atom.plain ++ rest).head? ≠ some (.plain '*') := by
  rcases text with _ | ⟨c, text⟩
  · rcases h with rfl | ⟨more, rfl⟩
    · simp
    · simp
  · simpa using htext

/-- Inside a segment every sign stands for itself. -/
theorem tokens_inside {text : List Char} (htext : ∀ c ∈ text, isUnbracketed c ∧ c ≠ '/')
    {rest : List Atom} (hrest : EndsSegment rest) {previous : Option Char}
    (hprevious : previous ≠ some '/') {level : Level} (hlevel : level.tokens ≠ []) :
    ∃ last, tokens (text.map .plain ++ rest) previous level [] =
      tokens rest last
        { level with tokens := (text.map signToken).reverse ++ level.tokens } [] := by
  -- Stars are read in pairs, so the induction goes on by one sign or by two.
  induction text using List.twoStepInduction generalizing previous level with
  | nil => exact ⟨previous, rfl⟩
  | singleton c =>
      obtain ⟨hc, -⟩ := htext c (by simp)
      have hhead : (([] : List Char).map Atom.plain ++ rest).head? ≠ some (.plain '*') :=
        hrest.head?_append_ne (by simp)
      exact ⟨some c, tokens_sign hc (fun _ => hhead) previous level⟩
  | cons_cons c d text ih ihsign =>
      obtain ⟨hc, hcslash⟩ := htext c (by simp)
      by_cases hstars : c = '*' ∧ d = '*'
      · obtain ⟨rfl, rfl⟩ := hstars
        obtain ⟨last, hlast⟩ := ih (fun e he => htext e (by simp [he]))
          (show some '*' ≠ some '/' by decide) (pushStars_tokens_ne_nil level)
        refine ⟨last, (tokens_two_stars hlevel hprevious).trans (hlast.trans ?_)⟩
        simp [Level.pushStars, Level.push, signToken]
      · obtain ⟨last, hlast⟩ := ihsign d (fun e he => htext e (List.mem_cons_of_mem c he))
          (show some c ≠ some '/' by simpa using hcslash) (push_tokens_ne_nil level (signToken c))
        have hhead : c = '*' → ((d :: text).map Atom.plain ++ rest).head? ≠ some (.plain '*') := by
          intro hcstar
          apply hrest.head?_append_ne
          simpa using fun hd => hstars ⟨hcstar, hd⟩
        refine ⟨last, ?_⟩
        rw [List.map_cons, List.cons_append, tokens_sign hc hhead, hlast]
        simp [Level.push]

/-- A segment other than `**` is read sign by sign, whatever boundary it stands behind. -/
theorem tokens_segment {segment : Segment} (hne : segment ≠ []) (hdirs : segment ≠ dirs)
    (hsegment : ∀ c ∈ segment, isUnbracketed c ∧ c ≠ '/') {rest : List Atom}
    (hrest : EndsSegment rest) (previous : Option Char) (level : Level) :
    ∃ last, tokens (segment.map .plain ++ rest) previous level [] =
      tokens rest last
        { level with tokens := (segment.map signToken).reverse ++ level.tokens } [] := by
  obtain ⟨c, text, rfl⟩ := List.exists_cons_of_ne_nil hne
  obtain ⟨hc, hcslash⟩ := hsegment c (by simp)
  by_cases hstars : c = '*' ∧ text.head? = some '*'
  · obtain ⟨rfl, hhead⟩ := hstars
    obtain ⟨text, rfl⟩ := List.head?_eq_some_iff.mp hhead
    rcases text with _ | ⟨d, text⟩
    · exact absurd rfl hdirs
    · have hd : d ≠ '/' := (hsegment d (by simp)).2
      have htext : ∀ e ∈ d :: text, isUnbracketed e ∧ e ≠ '/' :=
        fun e he => hsegment e (by simp [List.mem_cons.mp he])
      obtain ⟨last, hlast⟩ :=
        tokens_inside htext hrest (show some '*' ≠ some '/' by decide)
          (pushStars_tokens_ne_nil level)
      refine ⟨last, (tokens_stars_sign hd _ previous level).trans (hlast.trans ?_)⟩
      simp [Level.pushStars, Level.push, signToken]
  · have htext : ∀ e ∈ text, isUnbracketed e ∧ e ≠ '/' :=
      fun e he => hsegment e (by simp [he])
    obtain ⟨last, hlast⟩ :=
      tokens_inside htext hrest (show some c ≠ some '/' by simpa using hcslash)
        (push_tokens_ne_nil level (signToken c))
    refine ⟨last, ?_⟩
    rw [List.map_cons, List.cons_append, tokens_sign hc, hlast]
    · simp [Level.push]
    · exact fun hcstar => hrest.head?_append_ne fun hhead => hstars ⟨hcstar, hhead⟩

/-- The level while a pattern is read, just behind a boundary. -/
def atBoundary (boundary : Boundary) (before : List Token) : Level :=
  ⟨[], boundary.tokens.reverse ++ before⟩

theorem tokens_last_dirs (boundary : Boundary) {before : List Token}
    (hbefore : boundary.behindSlash = false → before = []) :
    tokens (dirs.map .plain) boundary.previous (atBoundary boundary before) [] =
      .ok (before.reverse ++ [boundary.finish]) := by
  rcases boundary with ⟨_ | _, _ | _⟩
  · obtain rfl := hbefore rfl
    rfl
  · obtain rfl := hbefore rfl
    rfl
  · exact congrArg Except.ok List.reverse_cons
  · exact congrArg Except.ok List.reverse_cons

theorem tokens_dirs (boundary : Boundary) {before : List Token}
    (hbefore : boundary.behindSlash = false → before = []) (rest : List Atom) :
    tokens (dirs.map .plain ++ .plain '/' :: rest) boundary.previous
        (atBoundary boundary before) [] =
      tokens rest boundary.afterDirs.previous (atBoundary boundary.afterDirs before) [] := by
  rcases boundary with ⟨_ | _, _ | _⟩
  · obtain rfl := hbefore rfl
    rfl
  · obtain rfl := hbefore rfl
    rfl
  · rfl
  · rfl

/-- Segments that are not empty, without slashes and without signs that group or escape. -/
def AreUnbracketed (segments : List Segment) : Prop :=
  ∀ segment ∈ segments, segment ≠ [] ∧ ∀ c ∈ segment, isUnbracketed c ∧ c ≠ '/'

theorem tokens_joinSlash {segments : List Segment} (hne : segments ≠ [])
    (hsegments : AreUnbracketed segments) (boundary : Boundary) (before : List Token)
    (hbefore : boundary.behindSlash = false → before = []) :
    tokens ((joinSlash segments).map .plain) boundary.previous (atBoundary boundary before) [] =
      .ok (before.reverse ++ spelled boundary segments) := by
  induction segments generalizing boundary before with
  | nil => exact absurd rfl hne
  | cons segment rest ih =>
      have hrest : AreUnbracketed rest := fun other hother => hsegments other (by simp [hother])
      by_cases hdirs : segment = dirs
      · subst hdirs
        by_cases hlast : rest = []
        · subst hlast
          exact tokens_last_dirs boundary hbefore
        · rw [joinSlash_cons_of_ne_nil dirs hlast, List.map_append, List.map_cons,
            tokens_dirs boundary hbefore, ih hlast hrest boundary.afterDirs before hbefore,
            spelled_dirs_of_ne_nil boundary hlast]
      · obtain ⟨hsegment, hsigns⟩ := hsegments segment (by simp)
        by_cases hlast : rest = []
        · subst hlast
          obtain ⟨last, htokens⟩ := tokens_segment hsegment hdirs hsigns
            (.inl rfl : EndsSegment []) boundary.previous (atBoundary boundary before)
          rw [List.append_nil] at htokens
          show tokens (segment.map .plain) _ _ [] = _
          rw [htokens, spelled_of_ne_dirs boundary hdirs]
          simp [tokens, atBoundary, spelled]
        · obtain ⟨last, htokens⟩ := tokens_segment hsegment hdirs hsigns
            (.inr ⟨(joinSlash rest).map .plain, rfl⟩) boundary.previous
            (atBoundary boundary before)
          have hslash := ih hlast hrest .slash
            ((segment.map signToken).reverse ++ (boundary.tokens.reverse ++ before))
            (by simp [Boundary.slash])
          rw [joinSlash_cons_of_ne_nil segment hlast, List.map_append, List.map_cons, htokens,
            spelled_of_ne_dirs boundary hdirs, tokens_sign (by decide) (by simp)]
          refine Eq.trans ?_ (hslash.trans ?_)
          · rfl
          · simp

theorem parse_eq_spelled (lenient : Bool) {segments : List Segment} (hne : segments ≠ [])
    (hsegments : AreUnbracketed segments) :
    parse lenient (joinSlash segments) = .ok (spelled .front segments) := by
  have hsigns : ∀ segment ∈ segments, ∀ c ∈ segment, c ≠ '[' ∧ c ≠ '\\' := by
    intro segment hsegment c hc
    obtain ⟨hc, -⟩ := (hsegments segment hsegment).2 c hc
    constructor
    · rintro rfl
      exact absurd hc (by decide)
    · rintro rfl
      exact absurd hc (by decide)
  have hatoms := atoms_unescaped_text lenient (forall_mem_joinSlash (by decide) hsigns) []
  rw [List.append_nil, atoms, List.append_nil] at hatoms
  rw [parse, hatoms]
  exact tokens_joinSlash hne hsegments .front [] fun _ => rfl

end ImportLint.Proofs.SegmentTokens
