import ObjectLisp.Proofs.Classes.Hierarchy
import ObjectLisp.Proofs.Graph.Unfolding

/-!
# Linearizations are depth-first

Among the classes above a class, one that is reached on several paths takes the
place of the first of them.  So a linearization can be read off the extension lists
without keeping account of what was met before: follow every path, then drop the
root class and whatever was listed already.  This ends because no class extends
itself, not even through others.

The root class extends nothing, so following a path through it adds nothing but
the root class itself.
-/

namespace ObjectLisp

universe u v

namespace ClassSpace

variable {δ : Type u} {μ : Type v} {space : ClassSpace δ μ} {id : ClassId}
  {nodes trace : List ClassId}

theorem extensionsOf_of_size_le (outside : space.size ≤ id) : space.extensionsOf id = [] := by
  have missing : space.get? id = none := Array.getElem?_eq_none outside
  unfold extensionsOf
  rw [missing]
  rfl

/-- Without the root class, the paths along the extensions are those along the parents. -/
theorem unrolls_parents (top : space.extensionsOf ClassId.object = [])
    (unrolls : Graph.Unrolls space.extensionsOf nodes trace) :
    Graph.Unrolls space.parents (nodes.filter (· ≠ ClassId.object))
      (trace.filter (· ≠ ClassId.object)) := by
  induction unrolls with
  | nil => exact .nil
  | @cons nodes trace inner node below rest ihBelow ihRest =>
      by_cases root : node = ClassId.object
      · subst root
        rw [top] at below
        cases below
        simpa using ihRest
      · rw [← parents_eq] at ihBelow
        have listed : ∀ others : List ClassId,
            (node :: others).filter (· ≠ ClassId.object) =
              node :: others.filter (· ≠ ClassId.object) :=
          fun others => List.filter_cons_of_pos (by simpa using root)
        rw [listed, listed, List.filter_append]
        exact .cons ihBelow ihRest

namespace Hierarchical

theorem acyclic_parents (hierarchical : space.Hierarchical) (id : ClassId) :
    ¬ Relation.TransGen (Graph.Edge space.parents) id id := by
  intro cycle
  have weaker : Graph.Edge space.parents ≤ space.Extends :=
    fun _ _ edge => (mem_parents_iff.mp edge).1
  exact hierarchical.acyclic id (Relation.TransGen.mono weaker _ _ cycle)

/-- Following every path of extensions comes to an end. -/
theorem exists_unrolls (hierarchical : space.Hierarchical) (id : ClassId) :
    ∃ trace, Graph.Unrolls space.extensionsOf [id] trace := by
  have outside : ∀ other ∉ List.range space.size, space.extensionsOf other = [] := by
    intro other absent
    exact extensionsOf_of_size_le (Nat.le_of_not_lt (List.mem_range.not.mp absent))
  obtain ⟨trace, unfolds⟩ := Graph.exists_unfolds outside [] [id]
  exact ⟨trace, (Graph.unfolds_iff_unrolls hierarchical.acyclic (by simp)).mp unfolds⟩

/-- The extension lists give each class the order in which the paths from it meet the others. -/
theorem freshOrder_eq (hierarchical : space.Hierarchical)
    (unrolls : Graph.Unrolls space.extensionsOf [id] trace) :
    space.freshOrder id =
      (trace.filter (· ≠ ClassId.object)).eraseDups ++ [ClassId.object] := by
  have paths := unrolls_parents hierarchical.top unrolls
  unfold freshOrder
  by_cases root : id = ClassId.object
  · rw [List.filter_cons_of_neg (by simpa using root)] at paths
    rw [if_pos root, paths.eq_nil]
    rfl
  · rw [List.filter_cons_of_pos (by simpa using root), List.filter_nil] at paths
    have apart : ∀ node ∈ [id], ∀ earlier ∈ [], ¬ Graph.Reaches space.parents node earlier := by
      simp
    have unfolds := (Graph.unfolds_iff_unrolls hierarchical.acyclic_parents apart).mpr paths
    rw [if_neg root, unfolds.preorder_eq space.edgeBound_parents]

end Hierarchical

theorem head?_freshOrder (proper : id ≠ ClassId.object) :
    (space.freshOrder id).head? = some id := by
  unfold freshOrder
  rw [if_neg proper, Graph.preorder_eq_cons space.edgeBound_parents id]
  rfl

theorem getLast?_freshOrder (space : ClassSpace δ μ) (id : ClassId) :
    (space.freshOrder id).getLast? = some ClassId.object := by
  unfold freshOrder
  split
  · rfl
  · exact List.getLast?_concat

/-- The root class is no parent, so it stands at the end only. -/
theorem nodup_freshOrder (space : ClassSpace δ μ) (id : ClassId) :
    (space.freshOrder id).Nodup := by
  unfold freshOrder
  split
  · exact List.nodup_singleton _
  · next proper =>
      have absent : ClassId.object ∉ Graph.preorder space.parents space.extensionCount id := by
        rw [Graph.mem_preorder_iff space.edgeBound_parents]
        intro path
        rcases path.cases_tail with same | ⟨child, _, edge⟩
        · exact proper same.symm
        · exact (mem_parents_iff.mp edge).2 rfl
      have distinct := Graph.nodup_preorder space.edgeBound_parents id
      exact List.nodup_append.mpr ⟨distinct, List.nodup_singleton _, by
        intro other member last isLast same
        rw [List.mem_singleton.mp isLast] at same
        exact absent (same ▸ member)⟩

/-- The slot that a name denotes is the first one of the name along the linearization. -/
theorem effectiveSlot?_eq_some_iff {name : String} {slot : Slot δ} :
    (space.effectiveSlot? id name).1 = some slot ↔
      ∃ front owner back, (space.linearization id).1 = front ++ owner :: back ∧
        (space.slotsOf owner).find? (·.name == name) = some slot ∧
        ∀ earlier ∈ front, ∀ other ∈ space.slotsOf earlier, other.name ≠ name := by
  have unchanged : (space.effectiveSlot? id name).1 =
      (space.linearization id).1.findSome? fun owner =>
        (space.slotsOf owner).find? (·.name == name) := by
    unfold effectiveSlot?
    simp only [slotsOf_linearization]
  rw [unchanged, List.findSome?_eq_some_iff]
  simp only [List.find?_eq_none, beq_iff_eq]

/-- In every class space that can be reached, the linearization of a class is what following every
path of extensions from it meets, in this order: the root class is left out, every other class
stands where it is met first, and the root class stands at the end.  So it begins with the class
itself, lists each class above it once, and the first definition of a slot along it is the one
that counts. -/
theorem Reachable.linearization_depth_first (reachable : space.Reachable) (id : ClassId) :
    (∃ trace, Graph.Unrolls space.extensionsOf [id] trace) ∧
    (∀ trace, Graph.Unrolls space.extensionsOf [id] trace →
      (space.linearization id).1 =
        (trace.filter (· ≠ ClassId.object)).eraseDups ++ [ClassId.object]) ∧
    (id ≠ ClassId.object → (space.linearization id).1.head? = some id) ∧
    (space.linearization id).1.Nodup ∧
    (∀ ancestor, ancestor ∈ (space.linearization id).1 ↔
      ancestor = ClassId.object ∨ Relation.ReflTransGen space.Extends id ancestor) ∧
    (space.linearization id).1.getLast? = some ClassId.object ∧
    ∀ name slot, (space.effectiveSlot? id name).1 = some slot ↔
      ∃ front owner back, (space.linearization id).1 = front ++ owner :: back ∧
        (space.slotsOf owner).find? (·.name == name) = some slot ∧
        ∀ earlier ∈ front, ∀ other ∈ space.slotsOf earlier, other.name ≠ name := by
  have hierarchical := reachable.hierarchical
  refine ⟨hierarchical.exists_unrolls id, ?_, ?_, ?_, ?_, ?_, ?_⟩
  · intro trace unrolls
    rw [hierarchical.linearization_fst, hierarchical.freshOrder_eq unrolls]
  · intro proper
    rw [hierarchical.linearization_fst, head?_freshOrder proper]
  · rw [hierarchical.linearization_fst]
    exact space.nodup_freshOrder id
  · intro ancestor
    rw [hierarchical.linearization_fst, mem_freshOrder_iff hierarchical.top]
  · rw [hierarchical.linearization_fst, getLast?_freshOrder]
  · intro name slot
    exact effectiveSlot?_eq_some_iff

/-- `base` with a slot, `left` and `right` extending it, of which `right` declares the slot anew,
and `both` extending these. -/
private def diamond : ClassSpace Unit Unit :=
  let base := (({} : ClassSpace Unit Unit).define "base" [] [("size", ())]).2
  let left := (base.define "left" [1] []).2
  let right := (left.define "right" [1] [("size", ())]).2
  (right.define "both" [2, 3] []).2

private theorem diamond_reachable : diamond.Reachable :=
  (((Reachable.new.define "base" [] [("size", ())]).define "left" [1] []).define
    "right" [1] [("size", ())]).define "both" [2, 3] []

private theorem diamond_unrolls : Graph.Unrolls diamond.extensionsOf [4] [4, 2, 1, 3, 1] := by
  have ofBase : diamond.extensionsOf 1 = [] := by decide +kernel
  have ofLeft : diamond.extensionsOf 2 = [1] := by decide +kernel
  have ofRight : diamond.extensionsOf 3 = [1] := by decide +kernel
  have ofBoth : diamond.extensionsOf 4 = [2, 3] := by decide +kernel
  have above : Graph.Unrolls diamond.extensionsOf (diamond.extensionsOf 1) [] := by
    rw [ofBase]
    exact .nil
  have base : Graph.Unrolls diamond.extensionsOf [1] [1] := .cons above .nil
  have right : Graph.Unrolls diamond.extensionsOf [3] [3, 1] := .cons (ofRight ▸ base) .nil
  have sides : Graph.Unrolls diamond.extensionsOf [2, 3] [2, 1, 3, 1] :=
    .cons (ofLeft ▸ base) right
  exact .cons (ofBoth ▸ sides) .nil

/-- The class on top of the diamond is met twice and takes its first place, so it hides the slot
that `right` declares. -/
theorem Reachable.linearization_depth_first_of_diamond :
    diamond.Reachable ∧ Graph.Unrolls diamond.extensionsOf [4] [4, 2, 1, 3, 1] ∧
      (diamond.linearization 4).1 = [4, 2, 1, 3, ClassId.object] ∧
      (diamond.effectiveSlot? 4 "size").1 = some { name := "size", owner := 1, default := () } := by
  have depthFirst := diamond_reachable.linearization_depth_first 4
  have order : (diamond.linearization 4).1 = [4, 2, 1, 3, ClassId.object] :=
    (depthFirst.2.1 _ diamond_unrolls).trans (by decide)
  refine ⟨diamond_reachable, diamond_unrolls, order, ?_⟩
  refine (depthFirst.2.2.2.2.2.2 "size" _).mpr ⟨[4, 2], 1, [3, ClassId.object], order, ?_, ?_⟩
  · rfl
  · decide +kernel

end ClassSpace

end ObjectLisp
