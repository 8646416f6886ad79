import ImportLint.Path.Segments
import Mathlib.Data.List.Basic

/-!
Words and texts of paths.  On words without slashes `splitSlash` undoes `joinSlash`, and a front of a
text that ends in a slash is the same thing as a proper front of its word.
-/

namespace ImportLint.Proofs.PathWords

open ImportLint.Path

theorem splitSlash_cons_slash (rest : List Char) :
    splitSlash ('/' :: rest) = [] :: splitSlash rest := by
  simp [splitSlash]

theorem splitSlash_slash_free (text : List Char) :
    ∀ segment ∈ splitSlash text, '/' ∉ segment := by
  induction text with
  | nil => simp [splitSlash]
  | cons c rest ih =>
      by_cases hc : c = '/'
      · subst hc
        intro segment hsegment
        rw [splitSlash_cons_slash] at hsegment
        rcases List.mem_cons.mp hsegment with rfl | hsegment
        · simp
        · exact ih segment hsegment
      · intro segment hsegment
        rw [splitSlash, if_neg hc] at hsegment
        rcases hrest : splitSlash rest with _ | ⟨first, others⟩
        · exact absurd hrest (splitSlash_ne_nil rest)
        · rw [hrest] at hsegment ih
          rcases List.mem_cons.mp hsegment with rfl | hsegment
          · simp only [List.mem_cons, not_or]
            exact ⟨fun h => hc h.symm, ih first (by simp)⟩
          · exact ih segment (by simp [hsegment])

theorem splitSlash_of_slash_free {text : List Char} (h : '/' ∉ text) :
    splitSlash text = [text] := by
  induction text with
  | nil => rfl
  | cons c rest ih =>
      simp only [List.mem_cons, not_or] at h
      rw [splitSlash, if_neg (Ne.symm h.1), ih h.2]

/-- Cutting at a slash in the middle cuts both sides. -/
theorem splitSlash_append_slash (left right : List Char) :
    splitSlash (left ++ '/' :: right) = splitSlash left ++ splitSlash right := by
  induction left with
  | nil => simp [splitSlash]
  | cons c left ih =>
      by_cases hc : c = '/'
      · subst hc
        rw [List.cons_append, splitSlash_cons_slash, splitSlash_cons_slash, ih]
        rfl
      · rw [List.cons_append, splitSlash, if_neg hc, ih, splitSlash, if_neg hc]
        rcases hleft : splitSlash left with _ | ⟨first, others⟩
        · exact absurd hleft (splitSlash_ne_nil left)
        · rfl

theorem splitSlash_joinSlash {word : List Segment} (hne : word ≠ [])
    (hfree : ∀ segment ∈ word, '/' ∉ segment) : splitSlash (joinSlash word) = word := by
  induction word with
  | nil => exact absurd rfl hne
  | cons segment segments ih =>
      have hsegment : '/' ∉ segment := hfree segment (by simp)
      by_cases hsegments : segments = []
      · subst hsegments
        exact splitSlash_of_slash_free hsegment
      · rw [joinSlash_cons_of_ne_nil segment hsegments, splitSlash_append_slash,
          splitSlash_of_slash_free hsegment,
          ih hsegments fun other hother => hfree other (by simp [hother])]
        rfl

theorem joinSlash_append {left right : List Segment} (hleft : left ≠ []) (hright : right ≠ []) :
    joinSlash (left ++ right) = joinSlash left ++ '/' :: joinSlash right := by
  induction left with
  | nil => exact absurd rfl hleft
  | cons segment segments ih =>
      by_cases hsegments : segments = []
      · subst hsegments
        exact joinSlash_cons_of_ne_nil segment hright
      · rw [List.cons_append, joinSlash_cons_of_ne_nil segment (by simp [hsegments]), ih hsegments,
          joinSlash_cons_of_ne_nil segment hsegments]
        simp

theorem joinSlash_injective_on {left right : List Segment} (hleft : left ≠ [])
    (hright : right ≠ []) (hleftFree : ∀ segment ∈ left, '/' ∉ segment)
    (hrightFree : ∀ segment ∈ right, '/' ∉ segment) (h : joinSlash left = joinSlash right) :
    left = right := by
  rw [← splitSlash_joinSlash hleft hleftFree, h, splitSlash_joinSlash hright hrightFree]

theorem joinSlash_ne_nil {word : List Segment} (hne : word ≠ [])
    (hsegments : ∀ segment ∈ word, segment ≠ []) : joinSlash word ≠ [] := by
  rcases word with _ | ⟨segment, segments⟩
  · exact absurd rfl hne
  · by_cases hrest : segments = []
    · subst hrest
      exact hsegments segment (by simp)
    · simp [joinSlash_cons_of_ne_nil segment hrest]

theorem forall_mem_joinSlash {property : Char → Prop} {word : List Segment}
    (hslash : property '/') (h : ∀ segment ∈ word, ∀ c ∈ segment, property c) :
    ∀ c ∈ joinSlash word, property c := by
  induction word with
  | nil => simp [joinSlash]
  | cons segment segments ih =>
      by_cases hsegments : segments = []
      · subst hsegments
        exact h segment (by simp)
      · rw [joinSlash_cons_of_ne_nil segment hsegments]
        intro c hc
        rcases List.mem_append.mp hc with hc | hc
        · exact h segment (by simp) c hc
        · rcases List.mem_cons.mp hc with rfl | hc
          · exact hslash
          · exact ih (fun other hother => h other (by simp [hother])) c hc

/-- A text begins with a word and a slash exactly when the word is a proper front of the word of the
text. -/
theorem joinSlash_slash_prefix_iff {word : List Segment} (hne : word ≠ [])
    (hfree : ∀ segment ∈ word, '/' ∉ segment) (text : List Char) :
    joinSlash word ++ ['/'] <+: text ↔ word <+: splitSlash text ∧ word ≠ splitSlash text := by
  constructor
  · rintro ⟨rest, rfl⟩
    have hsplit : splitSlash (joinSlash word ++ ['/'] ++ rest) = word ++ splitSlash rest := by
      rw [List.append_assoc, List.singleton_append, splitSlash_append_slash,
        splitSlash_joinSlash hne hfree]
    rw [hsplit]
    refine ⟨List.prefix_append _ _, fun heq => splitSlash_ne_nil rest ?_⟩
    simpa using heq
  · rintro ⟨⟨rest, hrest⟩, hproper⟩
    have hrestNe : rest ≠ [] := by
      rintro rfl
      exact hproper (by simpa using hrest)
    refine ⟨joinSlash rest, ?_⟩
    rw [← joinSlash_splitSlash text, ← hrest, joinSlash_append hne hrestNe]
    simp

end ImportLint.Proofs.PathWords
