import ImportLint.Path.Component
import ImportLint.Text.Utf8
import Mathlib.Data.Char
import Mathlib.Data.List.Lex
import Mathlib.Tactic.SplitIfs

/-!
The order of paths.  Paths are compared component by component, and names by the bytes that they are
written with.  Comparing what a path is sorted by says which of two paths precedes the other, and it
tells apart exactly the paths that have different components.
-/

namespace ImportLint.Proofs.PathOrder

open ImportLint.Path

/-- Lists of keys are compared as the lists of what the keys belong to. -/
theorem compare_map_eq_lt_iff {α β : Type} [Ord β] [Std.LawfulEqOrd β] {key : α → β}
    (hkey : Function.Injective key) {before : α → α → Prop}
    (h : ∀ left right, compare (key left) (key right) = .lt ↔ before left right)
    (lefts rights : List α) :
    compare (lefts.map key) (rights.map key) = .lt ↔ List.Lex before lefts rights := by
  rw [List.compare_eq_compareLex]
  induction lefts generalizing rights with
  | nil =>
      cases rights with
      | nil => simp [List.compareLex]
      | cons right rights => exact iff_of_true rfl .nil
  | cons left lefts ih =>
      cases rights with
      | nil => simp [List.compareLex]
      | cons right rights =>
          rw [List.map_cons, List.map_cons, List.compareLex_cons_cons, Ordering.then_eq_lt, h, ih,
            Std.LawfulEqCmp.compare_eq_iff_eq, hkey.eq_iff, List.cons_lex_cons_iff]

/-- A smaller character has smaller bytes, whatever stands behind it. -/
theorem utf8EncodeChar_lex {c d : Char} (h : c < d) (rest rest' : List UInt8) :
    List.Lex (· < ·) (String.utf8EncodeChar c ++ rest) (String.utf8EncodeChar d ++ rest') := by
  have hbound (c : Char) : c.val.toNat < 1114112 := by
    have hvalid := c.valid
    simp only [UInt32.isValidChar, Nat.isValidChar] at hvalid
    omega
  have hc := hbound c
  have hd := hbound d
  replace h : c.val.toNat < d.val.toNat := h
  -- the bytes behind the first one are digits to the base 64
  have hdigits (v : Nat) : v / 4096 = v / 64 / 64 ∧ v / 262144 = v / 64 / 64 / 64 := by omega
  rw [String.utf8EncodeChar, String.utf8EncodeChar]
  simp only [hdigits]
  generalize c.val.toNat = v at *
  generalize d.val.toNat = w at *
  split_ifs <;>
    simp (disch := omega) only [List.cons_append, List.cons_lex_cons_iff, UInt8.lt_iff_toNat_lt,
      ← UInt8.toNat_inj, UInt8.toNat_ofNat', Nat.mod_eq_of_lt] <;>
    omega

theorem utf8EncodeChar_ne_nil (c : Char) : String.utf8EncodeChar c ≠ [] := by
  rw [String.utf8EncodeChar]
  split_ifs <;> simp

theorem utf8_lt {left right : List Char} (h : left < right) : Text.utf8 left < Text.utf8 right := by
  change List.Lex (· < ·) left right at h
  change List.Lex (· < ·) (Text.utf8 left) (Text.utf8 right)
  induction h with
  | @nil c rest =>
      obtain ⟨byte, bytes, hbytes⟩ := List.exists_cons_of_ne_nil (utf8EncodeChar_ne_nil c)
      rw [Text.utf8, Text.utf8, List.flatMap_cons, hbytes]
      exact .nil
  | rel h =>
      rw [Text.utf8, Text.utf8, List.flatMap_cons, List.flatMap_cons]
      exact utf8EncodeChar_lex h _ _
  | cons _ ih =>
      rw [Text.utf8, Text.utf8, List.flatMap_cons, List.flatMap_cons]
      exact List.Lex.append_left _ ih _

/-- Texts are in the order of their bytes. -/
theorem utf8_lt_iff (left right : List Char) :
    Text.utf8 left < Text.utf8 right ↔ left < right := by
  refine ⟨fun h => ?_, utf8_lt⟩
  rcases lt_trichotomy left right with hlt | rfl | hgt
  · exact hlt
  · exact absurd h (List.lt_irrefl _)
  · exact absurd h (List.lt_asymm (utf8_lt hgt))

/-- The place of a kind of component: the root, then `.`, then `..`, then names. -/
def rank : Component → Nat
  | .root => 0
  | .here => 1
  | .up => 2
  | .name _ => 3

/-- One component comes before another one. -/
inductive ComponentPrecedes : Component → Component → Prop
  | kind {left right : Component} (h : rank left < rank right) : ComponentPrecedes left right
  /-- Names are in the order of their bytes. -/
  | name {left right : Segment} (h : Text.utf8 left < Text.utf8 right) :
      ComponentPrecedes (.name left) (.name right)

/-- One path comes before another one: where they differ first, by its component there, or by ending
there. -/
def PathPrecedes (left right : String) : Prop :=
  List.Lex ComponentPrecedes (components left.toList) (components right.toList)

theorem toNat_injective : Function.Injective Char.toNat :=
  fun _ _ => Char.toNat_inj.mp

theorem componentKey_injective : Function.Injective Component.key := by
  intro left right h
  cases left <;> cases right <;> simp_all [Component.key]
  exact List.map_injective_iff.mpr toNat_injective h

/-- The characters of a name; any other component has none. -/
def characters : Component → Segment
  | .name segment => segment
  | _ => []

theorem componentKey_eq (component : Component) :
    component.key = rank component :: (characters component).map Char.toNat := by
  cases component <;> rfl

theorem compare_componentKey_eq_lt_iff (left right : Component) :
    compare left.key right.key = .lt ↔ ComponentPrecedes left right := by
  have hchars : compare ((characters left).map Char.toNat) ((characters right).map Char.toNat) =
      .lt ↔ List.Lex (· < ·) (characters left) (characters right) :=
    compare_map_eq_lt_iff toNat_injective (fun _ _ => Nat.compare_eq_lt) _ _
  rw [componentKey_eq, componentKey_eq, List.compare_cons_cons, Ordering.then_eq_lt,
    Nat.compare_eq_lt, Nat.compare_eq_eq, hchars]
  constructor
  · rintro (hrank | ⟨hrank, hlex⟩)
    · exact .kind hrank
    · cases right with
      | name right =>
          cases left with
          | name left => exact .name (utf8_lt hlex)
          | _ => cases hrank
      | _ => exact absurd hlex List.not_lex_nil
  · rintro (hrank | hname)
    · exact .inl hrank
    · exact .inr ⟨rfl, (utf8_lt_iff _ _).mp hname⟩

theorem key_injective {left right : String} (h : key left = key right) :
    components left.toList = components right.toList :=
  List.map_injective_iff.mpr componentKey_injective h

theorem compare_key_eq_lt_iff (left right : String) :
    compare (key left) (key right) = .lt ↔ PathPrecedes left right :=
  compare_map_eq_lt_iff componentKey_injective compare_componentKey_eq_lt_iff _ _

theorem compare_key_eq_eq_iff (left right : String) :
    compare (key left) (key right) = .eq ↔
      components left.toList = components right.toList := by
  rw [Std.LawfulEqCmp.compare_eq_iff_eq]
  refine ⟨key_injective, fun h => ?_⟩
  rw [key, key, h]

end ImportLint.Proofs.PathOrder
