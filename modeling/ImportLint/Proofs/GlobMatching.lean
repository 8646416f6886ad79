import ImportLint.Glob.Pattern
import Mathlib.Data.List.Basic

/-!
The marks of `covers` mean what the matching relation says: behind a sequence of pieces a position is
marked exactly when the bytes up to it are a marked front followed by a match of the pieces.
-/

namespace ImportLint.Proofs.GlobMatching

open ImportLint.Glob

theorem matches_byte_iff {set : ByteSet} {bytes : List UInt8} :
    Piece.Matches (.byte set) bytes ↔ ∃ b, bytes = [b] ∧ set.has b = true := by
  constructor
  · intro h
    cases h with
    | byte h => exact ⟨_, rfl, h⟩
  · rintro ⟨b, rfl, h⟩
    exact .byte h

theorem matches_run_iff {set : ByteSet} {bytes : List UInt8} :
    Piece.Matches (.run set) bytes ↔ ∀ b ∈ bytes, set.has b = true := by
  constructor
  · intro h
    cases h with
    | run h => exact h
  · exact .run

theorem matches_choice_iff {branches : List (List Piece)} {bytes : List UInt8} :
    Piece.Matches (.choice branches) bytes ↔ ∃ branch ∈ branches, MatchesAll branch bytes := by
  constructor
  · intro h
    cases h with
    | choice hmem h => exact ⟨_, hmem, h⟩
  · rintro ⟨branch, hmem, h⟩
    exact .choice hmem h

theorem matchesAll_nil_iff {bytes : List UInt8} : MatchesAll [] bytes ↔ bytes = [] := by
  constructor
  · intro h
    cases h with
    | nil => rfl
  · rintro rfl
    exact .nil

theorem matchesAll_cons_iff {piece : Piece} {pieces : List Piece} {bytes : List UInt8} :
    MatchesAll (piece :: pieces) bytes ↔
      ∃ left right, bytes = left ++ right ∧ piece.Matches left ∧ MatchesAll pieces right := by
  constructor
  · intro h
    cases h with
    | cons hhead htail => exact ⟨_, _, rfl, hhead, htail⟩
  · rintro ⟨left, right, rfl, hhead, htail⟩
    exact .cons hhead htail

theorem matchesAll_byte_cons_iff {set : ByteSet} {pieces : List Piece} {bytes : List UInt8} :
    MatchesAll (.byte set :: pieces) bytes ↔
      ∃ b rest, bytes = b :: rest ∧ set.has b = true ∧ MatchesAll pieces rest := by
  rw [matchesAll_cons_iff]
  constructor
  · rintro ⟨left, right, rfl, hleft, hright⟩
    obtain ⟨b, rfl, hb⟩ := matches_byte_iff.mp hleft
    exact ⟨b, right, rfl, hb, hright⟩
  · rintro ⟨b, rest, rfl, hb, hrest⟩
    exact ⟨[b], rest, rfl, .byte hb, hrest⟩

theorem matchesAll_append_iff {left right : List Piece} {bytes : List UInt8} :
    MatchesAll (left ++ right) bytes ↔
      ∃ front back, bytes = front ++ back ∧ MatchesAll left front ∧ MatchesAll right back := by
  induction left generalizing bytes with
  | nil => simp [matchesAll_nil_iff]
  | cons piece left ih =>
      rw [List.cons_append, matchesAll_cons_iff]
      constructor
      · rintro ⟨front, _, rfl, hpiece, hrest⟩
        obtain ⟨middle, back, rfl, hleft, hright⟩ := ih.mp hrest
        exact ⟨front ++ middle, back, by simp, .cons hpiece hleft, hright⟩
      · rintro ⟨_, back, rfl, hleft, hright⟩
        obtain ⟨front, middle, rfl, hpiece, hleft⟩ := matchesAll_cons_iff.mp hleft
        exact ⟨front, middle ++ back, by simp, hpiece, ih.mpr ⟨middle, back, rfl, hleft, hright⟩⟩

/-- Marks that tell of every front of the subject whether it has a property. -/
structure Tells (subject : List UInt8) (marks : Marks) (reached : List UInt8 → Prop) : Prop where
  length_eq : marks.length = subject.length + 1
  mark_iff : ∀ front back, subject = front ++ back →
    (marks[front.length]? = some true ↔ reached front)

theorem getElem?_clear_ne_true {α : Type} (items : List α) (n : Nat) :
    (items.map fun _ => false)[n]? ≠ some true := by
  intro hget
  have hmem := List.mem_of_getElem? hget
  simp at hmem

theorem start_tells (subject : List UInt8) :
    Tells subject (Marks.start subject) fun front => front = [] where
  length_eq := by simp [Marks.start]
  mark_iff := by
    rintro (_ | ⟨b, front⟩) back rfl
    · simp [Marks.start]
    · have hclear := getElem?_clear_ne_true (b :: (front ++ back)) front.length
      simpa [Marks.start] using hclear

theorem afterByte_eq_zipWith (set : ByteSet) (subject : List UInt8) (marks : Marks) :
    Marks.afterByte set subject marks =
      List.zipWith (fun b mark => mark && set.has b) subject marks := by
  induction subject generalizing marks with
  | nil => simp [Marks.afterByte]
  | cons b subject ih =>
      cases marks with
      | nil => simp [Marks.afterByte]
      | cons mark marks => simp [Marks.afterByte, ih]

theorem afterByte_tells {subject : List UInt8} {marks : Marks} {reached : List UInt8 → Prop}
    (h : Tells subject marks reached) (set : ByteSet) :
    Tells subject (false :: Marks.afterByte set subject marks) fun front =>
      ∃ left right, front = left ++ right ∧ reached left ∧ Piece.Matches (.byte set) right where
  length_eq := by
    rw [afterByte_eq_zipWith]
    simp [h.length_eq]
  mark_iff := by
    intro front back hsubject
    rcases List.eq_nil_or_concat' front with rfl | ⟨front, b, rfl⟩
    · simp [matches_byte_iff]
    · have hmark := h.mark_iff front (b :: back) (by simp [hsubject])
      have hb : subject[front.length]? = some b := by simp [hsubject]
      rw [afterByte_eq_zipWith, List.length_append, List.length_singleton, List.getElem?_cons_succ,
        List.getElem?_zipWith, hb]
      constructor
      · intro hget
        rcases hm : marks[front.length]? with _ | mark
        · simp [hm] at hget
        · rw [hm] at hget hmark
          simp only [Option.some.injEq, Bool.and_eq_true] at hget
          exact ⟨front, [b], rfl, hmark.mp (by rw [hget.1]), .byte hget.2⟩
      · rintro ⟨left, right, hfront, hleft, hright⟩
        obtain ⟨c, rfl, hc⟩ := matches_byte_iff.mp hright
        obtain ⟨rfl, hbc⟩ := List.append_inj' hfront rfl
        obtain rfl : b = c := by simpa using hbc
        rw [hmark.mpr hleft]
        simp [hc]

theorem afterRun_length (set : ByteSet) (before : Bool) (subject : List UInt8) (marks : Marks) :
    (Marks.afterRun set before subject marks).length = marks.length := by
  induction subject generalizing before marks with
  | nil => simp [Marks.afterRun]
  | cons b subject ih =>
      cases marks with
      | nil => simp [Marks.afterRun]
      | cons mark marks => simp [Marks.afterRun, ih]

/-- A run reaches as far as its bytes go on, from any mark on the way or from the one carried in. -/
theorem afterRun_mark_iff (set : ByteSet) (front back : List UInt8) (before : Bool) (marks : Marks)
    (hlength : marks.length = (front ++ back).length + 1) :
    (Marks.afterRun set before (front ++ back) marks)[front.length]? = some true ↔
      (before = true ∧ ∀ b ∈ front, set.has b = true) ∨
        ∃ left right, front = left ++ right ∧ marks[left.length]? = some true ∧
          ∀ b ∈ right, set.has b = true := by
  induction front generalizing before marks with
  | nil =>
      rcases marks with _ | ⟨mark, marks⟩
      · simp at hlength
      · cases back <;> cases before <;> cases mark <;> simp [Marks.afterRun]
  | cons b front ih =>
      rcases marks with _ | ⟨mark, marks⟩
      · simp at hlength
      · rw [List.cons_append, Marks.afterRun, List.length_cons, List.getElem?_cons_succ,
          ih _ marks (by simpa using hlength)]
        constructor
        · rintro (⟨hspread, hfront⟩ | ⟨left, right, rfl, hmark, hright⟩)
          · simp only [Bool.and_eq_true, Bool.or_eq_true] at hspread
            rcases hspread with ⟨hbefore | hmark, hb⟩
            · exact .inl ⟨hbefore, by simpa [hb] using hfront⟩
            · exact .inr ⟨[], b :: front, rfl, by simp [hmark], by simpa [hb] using hfront⟩
          · exact .inr ⟨b :: left, right, rfl, by simpa using hmark, hright⟩
        · rintro (⟨hbefore, hfront⟩ | ⟨left, right, hsplit, hmark, hright⟩)
          · refine .inl ⟨by simp [hbefore, hfront b (by simp)], ?_⟩
            exact fun c hc => hfront c (by simp [hc])
          · rcases left with _ | ⟨c, left⟩
            · obtain rfl : right = b :: front := by simpa using hsplit.symm
              have hmark' : mark = true := by simpa using hmark
              refine .inl ⟨by simp [hmark', hright b (by simp)], ?_⟩
              exact fun c hc => hright c (by simp [hc])
            · obtain ⟨rfl, rfl⟩ : b = c ∧ front = left ++ right := by simpa using hsplit
              exact .inr ⟨left, right, rfl, by simpa using hmark, hright⟩

theorem afterRun_tells {subject : List UInt8} {marks : Marks} {reached : List UInt8 → Prop}
    (h : Tells subject marks reached) (set : ByteSet) :
    Tells subject (Marks.afterRun set false subject marks) fun front =>
      ∃ left right, front = left ++ right ∧ reached left ∧ Piece.Matches (.run set) right where
  length_eq := by rw [afterRun_length, h.length_eq]
  mark_iff := by
    rintro front back rfl
    rw [afterRun_mark_iff set front back false marks h.length_eq]
    constructor
    · rintro (⟨hfalse, -⟩ | ⟨left, right, rfl, hmark, hright⟩)
      · exact absurd hfalse (by simp)
      · have hleft := (h.mark_iff left (right ++ back) (by simp)).mp hmark
        exact ⟨left, right, rfl, hleft, .run hright⟩
    · rintro ⟨left, right, rfl, hleft, hright⟩
      have hmark := (h.mark_iff left (right ++ back) (by simp)).mpr hleft
      exact .inr ⟨left, right, rfl, hmark, matches_run_iff.mp hright⟩

theorem union_tells {subject : List UInt8} {left right : Marks} {here there : List UInt8 → Prop}
    (hleft : Tells subject left here) (hright : Tells subject right there) :
    Tells subject (left.union right) fun front => here front ∨ there front where
  length_eq := by simp [Marks.union, hleft.length_eq, hright.length_eq]
  mark_iff := by
    intro front back hsubject
    have hlt : front.length < subject.length + 1 := by
      rw [hsubject, List.length_append]
      omega
    have hl : front.length < left.length := by rw [hleft.length_eq]; exact hlt
    have hr : front.length < right.length := by rw [hright.length_eq]; exact hlt
    rw [← hleft.mark_iff front back hsubject, ← hright.mark_iff front back hsubject]
    simp [Marks.union, List.getElem?_zipWith, List.getElem?_eq_getElem hl,
      List.getElem?_eq_getElem hr]

theorem Tells.congr {subject : List UInt8} {marks : Marks} {reached reached' : List UInt8 → Prop}
    (h : Tells subject marks reached) (hiff : ∀ front, reached front ↔ reached' front) :
    Tells subject marks reached' where
  length_eq := h.length_eq
  mark_iff := fun front back hsubject => (h.mark_iff front back hsubject).trans (hiff front)

mutual

theorem advance_tells {subject : List UInt8} (piece : Piece) {marks : Marks}
    {reached : List UInt8 → Prop} (h : Tells subject marks reached) :
    Tells subject (piece.advance subject marks) fun front =>
      ∃ left right, front = left ++ right ∧ reached left ∧ piece.Matches right :=
  match piece with
  | .byte set => afterByte_tells h set
  | .run set => afterRun_tells h set
  | .choice branches =>
      (advanceAny_tells branches h).congr fun front => by simp only [matches_choice_iff]

theorem advanceAll_tells {subject : List UInt8} (pieces : List Piece) {marks : Marks}
    {reached : List UInt8 → Prop} (h : Tells subject marks reached) :
    Tells subject (advanceAll subject marks pieces) fun front =>
      ∃ left right, front = left ++ right ∧ reached left ∧ MatchesAll pieces right :=
  match pieces with
  | [] => h.congr fun front => by simp [matchesAll_nil_iff]
  | piece :: pieces => by
      rw [advanceAll]
      refine (advanceAll_tells pieces (advance_tells piece h)).congr fun front => ?_
      constructor
      · rintro ⟨_, right, rfl, ⟨left, middle, rfl, hleft, hmiddle⟩, hright⟩
        exact ⟨left, middle ++ right, by simp, hleft, .cons hmiddle hright⟩
      · rintro ⟨left, rest, rfl, hleft, hrest⟩
        obtain ⟨middle, right, rfl, hmiddle, hright⟩ := matchesAll_cons_iff.mp hrest
        exact ⟨left ++ middle, right, by simp, ⟨left, middle, rfl, hleft, hmiddle⟩, hright⟩

theorem advanceAny_tells {subject : List UInt8} (branches : List (List Piece)) {marks : Marks}
    {reached : List UInt8 → Prop} (h : Tells subject marks reached) :
    Tells subject (advanceAny subject marks branches) fun front =>
      ∃ left right, front = left ++ right ∧ reached left ∧
        ∃ branch ∈ branches, MatchesAll branch right :=
  match branches with
  | [] =>
      { length_eq := by simp [advanceAny, h.length_eq]
        mark_iff := by
          intro front back _
          simpa [advanceAny] using getElem?_clear_ne_true marks front.length }
  | branch :: branches => by
      rw [advanceAny]
      refine (union_tells (advanceAll_tells branch h) (advanceAny_tells branches h)).congr
        fun front => ?_
      constructor
      · rintro (⟨left, right, rfl, hleft, hright⟩ | ⟨left, right, rfl, hleft, other, hmem, hright⟩)
        · exact ⟨left, right, rfl, hleft, branch, by simp, hright⟩
        · exact ⟨left, right, rfl, hleft, other, by simp [hmem], hright⟩
      · rintro ⟨left, right, rfl, hleft, other, hmem, hright⟩
        rcases List.mem_cons.mp hmem with rfl | hmem
        · exact .inl ⟨left, right, rfl, hleft, hright⟩
        · exact .inr ⟨left, right, rfl, hleft, other, hmem, hright⟩

end

/-- The marks decide the matching relation. -/
theorem covers_iff (pieces : List Piece) (subject : List UInt8) :
    covers pieces subject = true ↔ MatchesAll pieces subject := by
  have htells := advanceAll_tells pieces (start_tells subject)
  have hmark := htells.mark_iff subject [] (by simp)
  have hlast : (advanceAll subject (Marks.start subject) pieces).getLastD false = true ↔
      (advanceAll subject (Marks.start subject) pieces)[subject.length]? = some true := by
    have hindex : subject.length =
        (advanceAll subject (Marks.start subject) pieces).length - 1 := by
      rw [htells.length_eq]
      rfl
    rw [List.getLastD_eq_getLast?, hindex, ← List.getLast?_eq_getElem?]
    cases (advanceAll subject (Marks.start subject) pieces).getLast? <;> simp
  rw [covers, hlast, hmark]
  constructor
  · rintro ⟨left, right, hsubject, rfl, hright⟩
    rwa [hsubject, List.nil_append]
  · intro h
    exact ⟨[], subject, rfl, rfl, h⟩

theorem isMatch_iff (glob : ImportLint.Glob) (path : String) :
    glob.isMatch path = true ↔ MatchesAll glob.pieces (ImportLint.Text.utf8 path.toList) :=
  covers_iff _ _

end ImportLint.Proofs.GlobMatching
