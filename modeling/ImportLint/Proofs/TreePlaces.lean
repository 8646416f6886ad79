import ImportLint.Script.Traversal
import Mathlib.Data.List.Nodup

/-!
Places in a tree, which tell nodes apart that are equal.  The nodes of a tree in pre-order are those at
its places, each place once.
-/

namespace ImportLint.Proofs.TreePlaces

open Script

/-- A place in a tree: which child to go to, and where from there. -/
abbrev TreePlace := List Nat

/-- The node at a place. -/
def nodeAt? : Script.Node → TreePlace → Option Script.Node
  | node, [] => some node
  | node, i :: place => node.children[i]?.bind fun child => nodeAt? child place

mutual

/-- The places of a tree, in pre-order. -/
def places : Script.Node → List TreePlace
  | .leaf _ _ _ => [[]]
  | .branch _ children => [] :: placesOfAll 0 children

/-- The places of a list of trees, the first of which is the child number `i`. -/
def placesOfAll (i : Nat) : List Child → List TreePlace
  | [] => []
  | (_, node) :: children => (places node).map (i :: ·) ++ placesOfAll (i + 1) children

end

theorem nodeAt?_append (node : Script.Node) (place inner : TreePlace) :
    nodeAt? node (place ++ inner) = (nodeAt? node place).bind fun child => nodeAt? child inner := by
  induction place generalizing node with
  | nil => rfl
  | cons i place ih =>
    rw [List.cons_append, nodeAt?, nodeAt?]
    cases node.children[i]? with
    | none => rfl
    | some child => exact ih child

mutual

theorem map_places (node : Script.Node) :
    (places node).map (nodeAt? node) = node.preorder.map some := by
  match node with
  | .leaf lexeme start text => rfl
  | .branch construct children =>
    rw [places, List.map_cons, Script.Node.preorder, List.map_cons]
    exact congrArg _ (map_placesOfAll (.branch construct children) [] children rfl)

/-- The children of a node from some child on. -/
theorem map_placesOfAll (node : Script.Node) (front : List Script.Node) (children : List Child)
    (h : node.children = front ++ children.map (·.2)) :
    (placesOfAll front.length children).map (nodeAt? node) =
      (preorderOfAll children).map some := by
  match children with
  | [] => rfl
  | (role, child) :: children =>
    have hchild : node.children[front.length]? = some child := by
      rw [h]
      simp
    have hhead : (places child).map (nodeAt? node ∘ (front.length :: ·)) =
        (places child).map (nodeAt? child) := by
      apply List.map_congr_left
      intro place _
      rw [Function.comp_apply, nodeAt?, hchild, Option.bind_some]
    have htail := map_placesOfAll node (front ++ [child]) children (by rw [h]; simp)
    rw [List.length_append, List.length_singleton] at htail
    rw [placesOfAll, List.map_append, List.map_map, hhead, map_places child, htail, preorderOfAll,
      List.map_append]

end

theorem exists_of_mem_placesOfAll {i : Nat} {children : List Child} {place : TreePlace}
    (h : place ∈ placesOfAll i children) : ∃ j inner, place = j :: inner ∧ i ≤ j := by
  induction children generalizing i with
  | nil => cases h
  | cons child children ih =>
    rcases List.mem_append.mp h with h | h
    · obtain ⟨inner, -, rfl⟩ := List.mem_map.mp h
      exact ⟨i, inner, rfl, Nat.le_refl i⟩
    · obtain ⟨j, inner, rfl, hj⟩ := ih h
      exact ⟨j, inner, rfl, by omega⟩

mutual

theorem nodup_places (node : Script.Node) : (places node).Nodup := by
  match node with
  | .leaf lexeme start text => exact List.nodup_singleton _
  | .branch construct children =>
    refine List.nodup_cons.mpr ⟨fun h => ?_, nodup_placesOfAll 0 children⟩
    obtain ⟨j, inner, heq, -⟩ := exists_of_mem_placesOfAll h
    cases heq

theorem nodup_placesOfAll (i : Nat) (children : List Child) : (placesOfAll i children).Nodup := by
  match children with
  | [] => exact .nil
  | (role, node) :: children =>
    refine List.nodup_append.mpr ⟨(nodup_places node).map List.cons_injective,
      nodup_placesOfAll (i + 1) children, ?_⟩
    rintro _ hhead _ htail rfl
    obtain ⟨inner, -, rfl⟩ := List.mem_map.mp hhead
    obtain ⟨j, _, heq, hj⟩ := exists_of_mem_placesOfAll htail
    cases heq
    omega

end

theorem mem_placesOfAll {i j : Nat} {children : List Child} {child : Child} {place : TreePlace}
    (hchild : children[j]? = some child) (hplace : place ∈ places child.2) :
    (i + j) :: place ∈ placesOfAll i children := by
  induction children generalizing i j with
  | nil => cases hchild
  | cons first children ih =>
    cases j with
    | zero =>
      cases hchild
      exact List.mem_append_left _ (List.mem_map_of_mem hplace)
    | succ j =>
      have htail := @ih (i + 1) j hchild
      rw [Nat.add_right_comm] at htail
      exact List.mem_append_right _ htail

theorem mem_places_iff {node : Script.Node} {place : TreePlace} :
    place ∈ places node ↔ (nodeAt? node place).isSome := by
  constructor
  · intro h
    have hmem : nodeAt? node place ∈ node.preorder.map some := by
      rw [← map_places node]
      exact List.mem_map_of_mem h
    obtain ⟨inner, -, hinner⟩ := List.mem_map.mp hmem
    rw [← hinner]
    rfl
  · intro h
    induction place generalizing node with
    | nil => cases node <;> simp [places]
    | cons i place ih =>
      obtain ⟨inner, hinner⟩ := Option.isSome_iff_exists.mp h
      obtain ⟨child, hchild, hplace⟩ := Option.bind_eq_some_iff.mp hinner
      cases node with
      | leaf lexeme start text => cases hchild
      | branch construct children =>
        rw [Script.Node.children, List.getElem?_map] at hchild
        obtain ⟨named, hnamed, rfl⟩ := Option.map_eq_some_iff.mp hchild
        have hmem := @mem_placesOfAll 0 i children named place hnamed
          (ih (by rw [hplace]; rfl))
        rw [Nat.zero_add] at hmem
        exact List.mem_cons_of_mem _ hmem

end ImportLint.Proofs.TreePlaces
