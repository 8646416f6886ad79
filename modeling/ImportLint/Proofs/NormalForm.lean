import ImportLint.Path.Normal
import ImportLint.Proofs.PathWords
import Mathlib.Logic.Relation

/-!
Normal forms of path words.  A normal word climbs first and then only names; the stack of `reduce`
always holds one, and every word rewrites to the normal word that `reduce` computes.
-/

namespace ImportLint.Proofs.NormalForm

open ImportLint.Path
open ImportLint.Proofs.PathWords

/-- A word that climbs some steps, none of them at the root, and then descends through names. -/
def IsNormal (rooted : Bool) (word : List Segment) : Prop :=
  ∃ (climbs : Nat) (names : List Segment),
    word = List.replicate climbs Segment.parent ++ names ∧
      (∀ segment ∈ names, segment.isName) ∧ (rooted = true → climbs = 0)

theorem isName_iff (segment : Segment) :
    segment.isName = true ↔ segment.isIdle = false ∧ segment ≠ Segment.parent := by
  simp [Segment.isName]

@[simp] theorem parent_not_idle : Segment.parent.isIdle = false := by decide

theorem isNormal_nil (rooted : Bool) : IsNormal rooted [] :=
  ⟨0, [], by simp⟩

theorem IsNormal.not_idle {rooted : Bool} {word : List Segment} (h : IsNormal rooted word) :
    ∀ segment ∈ word, segment.isIdle = false := by
  obtain ⟨climbs, names, rfl, hnames, -⟩ := h
  intro segment hsegment
  rcases List.mem_append.mp hsegment with hclimb | hname
  · rw [List.eq_of_mem_replicate hclimb]
    exact parent_not_idle
  · exact ((isName_iff segment).mp (hnames segment hname)).1

/-- A normal word that begins with a name has no step up. -/
theorem isName_of_name_prefix {rooted : Bool} {names below : List Segment}
    (h : IsNormal rooted (names ++ below)) (hne : names ≠ []) (hnames : ∀ name ∈ names, name.isName) :
    ∀ segment ∈ below, segment.isName := by
  obtain ⟨climbs, rest, hword, hrest, -⟩ := h
  rcases names with _ | ⟨name, names⟩
  · exact absurd rfl hne
  · cases climbs with
    | zero =>
        intro segment hsegment
        apply hrest
        rw [List.replicate_zero, List.nil_append] at hword
        rw [← hword]
        simp [hsegment]
    | succ climbs =>
        have hparent : name = Segment.parent := by
          simpa [List.replicate_succ] using congrArg List.head? hword
        exact absurd hparent ((isName_iff name).mp (hnames name (by simp))).2

theorem push_idle (rooted : Bool) (stack : List Segment) {segment : Segment}
    (h : segment.isIdle = true) : push rooted stack segment = stack := by
  simp [push, h]

theorem push_name (rooted : Bool) (stack : List Segment) {segment : Segment}
    (h : segment.isName = true) : push rooted stack segment = segment :: stack := by
  obtain ⟨hidle, hparent⟩ := (isName_iff segment).mp h
  simp [push, hidle, hparent]

theorem push_parent_name (rooted : Bool) (stack : List Segment) {top : Segment}
    (h : top.isName = true) : push rooted (top :: stack) Segment.parent = stack := by
  simp [push, ((isName_iff top).mp h).2]

theorem push_parent_climbs (climbs : Nat) :
    push false (List.replicate climbs Segment.parent) Segment.parent =
      List.replicate (climbs + 1) Segment.parent := by
  cases climbs with
  | zero => simp [push]
  | succ climbs => simp [push, List.replicate_succ]

theorem push_parent_root : push true [] Segment.parent = [] := by
  simp [push]

theorem rewrites_of_rewrite {rooted : Bool} {word next : List Segment} (h : Rewrite rooted word next) :
    Rewrites rooted word next :=
  .step h (.refl next)

theorem rewrites_append {rooted : Bool} {word middle last : List Segment}
    (h : Rewrites rooted word middle) (h' : Rewrites rooted middle last) :
    Rewrites rooted word last := by
  induction h with
  | refl => exact h'
  | step head _ ih => exact .step head (ih h')

/-- Reading one more segment keeps the stack normal and amounts to at most one rule. -/
theorem push_step {rooted : Bool} {stack : List Segment} (h : IsNormal rooted stack.reverse)
    (segment : Segment) (rest : List Segment) :
    IsNormal rooted (push rooted stack segment).reverse ∧
      Rewrites rooted (stack.reverse ++ segment :: rest)
        ((push rooted stack segment).reverse ++ rest) := by
  by_cases hidle : segment.isIdle = true
  · rw [push_idle rooted stack hidle]
    exact ⟨h, rewrites_of_rewrite (.idle stack.reverse rest segment hidle)⟩
  have hkeep (climbs : Nat) (names : List Segment)
      (hpush : push rooted stack segment = segment :: stack)
      (hword : stack.reverse ++ [segment] = List.replicate climbs Segment.parent ++ names)
      (hnames : ∀ name ∈ names, name.isName) (hclimbs : rooted = true → climbs = 0) :
      IsNormal rooted (push rooted stack segment).reverse ∧
        Rewrites rooted (stack.reverse ++ segment :: rest)
          ((push rooted stack segment).reverse ++ rest) := by
    rw [hpush, List.reverse_cons]
    refine ⟨⟨climbs, names, hword, hnames, hclimbs⟩, ?_⟩
    rw [List.append_assoc, List.singleton_append]
    exact .refl _
  obtain ⟨climbs, names, hstack, hnames, hclimbs⟩ := h
  by_cases hparent : segment = Segment.parent
  · subst hparent
    rcases List.eq_nil_or_concat names with rfl | ⟨below, top, rfl⟩
    · -- nothing but climbs on the stack: at the root the segment is dropped, else it is one more
      have hreplicate : stack = List.replicate climbs Segment.parent := by
        have := congrArg List.reverse hstack
        simpa using this
      cases rooted with
      | true =>
          have hempty : stack = [] := by simpa [hclimbs rfl] using hreplicate
          subst hempty
          rw [push_parent_root]
          exact ⟨isNormal_nil true, rewrites_of_rewrite (.clamp rest rfl)⟩
      | false =>
          apply hkeep (climbs + 1) []
          · rw [hreplicate, push_parent_climbs]
            rfl
          · rw [hstack, List.append_nil, List.append_nil, ← List.replicate_succ']
          · simp
          · simp
    · have hstack' : stack = top :: (List.replicate climbs Segment.parent ++ below).reverse := by
        have := congrArg List.reverse hstack
        simpa using this
      have htop : top.isName = true := hnames top (by simp)
      rw [hstack', push_parent_name rooted _ htop, List.reverse_reverse]
      refine ⟨⟨climbs, below, rfl, fun name hname => hnames name (by simp [hname]), hclimbs⟩, ?_⟩
      rw [List.reverse_cons, List.reverse_reverse, List.append_assoc, List.singleton_append]
      exact rewrites_of_rewrite (.climb _ rest top htop)
  · have hname : segment.isName = true :=
      (isName_iff segment).mpr ⟨by simpa using hidle, hparent⟩
    apply hkeep climbs (names ++ [segment]) (push_name rooted stack hname)
    · rw [hstack, List.append_assoc]
    · intro name hmem
      rcases List.mem_append.mp hmem with hmem | hmem
      · exact hnames name hmem
      · rw [List.mem_singleton.mp hmem]
        exact hname
    · exact hclimbs

theorem foldl_push {rooted : Bool} {stack : List Segment} (h : IsNormal rooted stack.reverse)
    (word : List Segment) :
    IsNormal rooted (word.foldl (push rooted) stack).reverse ∧
      Rewrites rooted (stack.reverse ++ word) (word.foldl (push rooted) stack).reverse := by
  induction word generalizing stack with
  | nil =>
      rw [List.append_nil]
      exact ⟨h, .refl _⟩
  | cons segment rest ih =>
      obtain ⟨hnormal, hrewrites⟩ := push_step h segment rest
      obtain ⟨hfold, hfoldRewrites⟩ := ih hnormal
      exact ⟨hfold, rewrites_append hrewrites hfoldRewrites⟩

theorem reduce_isNormal (rooted : Bool) (word : List Segment) :
    IsNormal rooted (reduce rooted word) :=
  (@foldl_push rooted [] (isNormal_nil rooted) word).1

theorem rewrites_reduce (rooted : Bool) (word : List Segment) :
    Rewrites rooted word (reduce rooted word) :=
  (@foldl_push rooted [] (isNormal_nil rooted) word).2

/-- The stack machine does not see the rules: a word and what it rewrites to have one normal form. -/
theorem reduce_eq_of_rewrite {rooted : Bool} {word next : List Segment}
    (h : Rewrite rooted word next) : reduce rooted word = reduce rooted next := by
  cases h with
  | idle before after segment hidle =>
      simp [reduce, push_idle rooted _ hidle]
  | climb before after segment hname =>
      simp [reduce, push_name rooted _ hname, push_parent_name rooted _ hname]
  | clamp after hrooted =>
      subst hrooted
      simp [reduce, push_parent_root]

theorem reduce_eq_of_rewrites {rooted : Bool} {word last : List Segment}
    (h : Rewrites rooted word last) : reduce rooted word = reduce rooted last := by
  induction h with
  | refl => rfl
  | step head _ ih => exact (reduce_eq_of_rewrite head).trans ih

theorem foldl_push_names (rooted : Bool) (stack : List Segment) {names : List Segment}
    (h : ∀ segment ∈ names, segment.isName) :
    names.foldl (push rooted) stack = names.reverse ++ stack := by
  induction names generalizing stack with
  | nil => rfl
  | cons name names ih =>
      rw [List.foldl_cons, push_name rooted stack (h name (by simp)),
        ih _ fun other hother => h other (by simp [hother])]
      simp

theorem foldl_push_climbs (climbs : Nat) :
    (List.replicate climbs Segment.parent).foldl (push false) [] =
      List.replicate climbs Segment.parent := by
  induction climbs with
  | zero => rfl
  | succ climbs ih =>
      rw [List.replicate_succ', List.foldl_append, ih]
      simp only [List.foldl_cons, List.foldl_nil]
      rw [push_parent_climbs, List.replicate_succ']

theorem reduce_of_isNormal {rooted : Bool} {word : List Segment} (h : IsNormal rooted word) :
    reduce rooted word = word := by
  obtain ⟨climbs, names, rfl, hnames, hclimbs⟩ := h
  have hstack : (List.replicate climbs Segment.parent).foldl (push rooted) [] =
      List.replicate climbs Segment.parent := by
    cases rooted with
    | true => simp [hclimbs rfl]
    | false => exact foldl_push_climbs climbs
  rw [reduce, List.foldl_append, hstack, foldl_push_names rooted _ hnames]
  simp

theorem rewrite_length_lt {rooted : Bool} {word next : List Segment}
    (h : Rewrite rooted word next) : next.length < word.length := by
  cases h with
  | idle => simp
  | climb =>
      simp only [List.length_append, List.length_cons]
      omega
  | clamp => simp

/-- Every sequence of rule applications ends. -/
theorem rewrite_wellFounded (rooted : Bool) :
    WellFounded fun next word : List Segment => Rewrite rooted word next :=
  Subrelation.wf (fun h => rewrite_length_lt h) (measure List.length).wf

theorem rewrites_length_le {rooted : Bool} {word last : List Segment}
    (h : Rewrites rooted word last) : last.length ≤ word.length := by
  induction h with
  | refl => exact Nat.le_refl _
  | step head _ ih => exact Nat.le_trans ih (Nat.le_of_lt (rewrite_length_lt head))

theorem isNormal_iff_irreducible (rooted : Bool) (word : List Segment) :
    IsNormal rooted word ↔ Irreducible rooted word := by
  constructor
  · intro hnormal next hrewrite
    have hlength := rewrites_length_le (rewrites_reduce rooted next)
    rw [← reduce_eq_of_rewrite hrewrite, reduce_of_isNormal hnormal] at hlength
    have := rewrite_length_lt hrewrite
    omega
  · intro hirreducible
    have hnormal := reduce_isNormal rooted word
    have hrewrites := rewrites_reduce rooted word
    generalize reduce rooted word = last at hnormal hrewrites
    cases hrewrites with
    | refl => exact hnormal
    | step head _ => exact absurd head (hirreducible _)

/-- Whatever rules have been applied, the normal form is still ahead. -/
theorem rewrites_reduce_of_rewrites {rooted : Bool} {word other : List Segment}
    (h : Rewrites rooted word other) : Rewrites rooted other (reduce rooted word) := by
  rw [reduce_eq_of_rewrites h]
  exact rewrites_reduce rooted other

theorem eq_reduce_of_irreducible {rooted : Bool} {word other : List Segment}
    (h : Rewrites rooted word other) (hirreducible : Irreducible rooted other) :
    other = reduce rooted word := by
  rw [reduce_eq_of_rewrites h,
    reduce_of_isNormal ((isNormal_iff_irreducible rooted other).mpr hirreducible)]

theorem eqvGen_of_rewrites {rooted : Bool} {word last : List Segment}
    (h : Rewrites rooted word last) : Relation.EqvGen (Rewrite rooted) word last := by
  induction h with
  | refl word => exact .refl word
  | step head _ ih => exact .trans _ _ _ (.rel _ _ head) ih

/-- Two words are convertible exactly when they have one normal form. -/
theorem eqvGen_iff_reduce_eq (rooted : Bool) (left right : List Segment) :
    Relation.EqvGen (Rewrite rooted) left right ↔ reduce rooted left = reduce rooted right := by
  constructor
  · intro h
    induction h with
    | rel _ _ hrewrite => exact reduce_eq_of_rewrite hrewrite
    | refl => rfl
    | symm _ _ _ ih => exact ih.symm
    | trans _ _ _ _ _ ih ih' => exact ih.trans ih'
  · intro h
    have hleft := eqvGen_of_rewrites (rewrites_reduce rooted left)
    have hright := eqvGen_of_rewrites (rewrites_reduce rooted right)
    rw [h] at hleft
    exact .trans _ _ _ hleft (.symm _ _ hright)

theorem reduce_slash_free (rooted : Bool) {word : List Segment}
    (h : ∀ segment ∈ word, '/' ∉ segment) : ∀ segment ∈ reduce rooted word, '/' ∉ segment := by
  have hrewrites := rewrites_reduce rooted word
  generalize reduce rooted word = last at hrewrites ⊢
  induction hrewrites with
  | refl => exact h
  | step head _ ih =>
      apply ih
      intro segment hsegment
      apply h
      cases head with
      | idle => grind
      | climb => grind
      | clamp => grind

end ImportLint.Proofs.NormalForm
