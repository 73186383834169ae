import Mathlib.Data.List.Induction
import Mathlib.Data.List.Nodup
import Mathlib.Logic.Relation
import ObjectLisp.Graph.Preorder

/-!
# What a depth-first walk visits

`Walk` says what a walk does when nothing cuts it short.  Its result is
determined by the stack and the visited nodes, it depends on the graph only where
the walk comes along, and it lists exactly the nodes that can be reached.

A budget of one step per root and per edge is enough for a whole walk.  So a
pre-order does not depend on its budget beyond that.
-/

namespace ObjectLisp.Graph

/-- There is an edge between two nodes. -/
def Edge (next : Nat → List Nat) (source target : Nat) : Prop := target ∈ next source

/-- A node can be reached from another one. -/
abbrev Reaches (next : Nat → List Nat) : Nat → Nat → Prop := Relation.ReflTransGen (Edge next)

/-- Walking from a stack of nodes past the visited ones ends with these nodes visited. -/
inductive Walk (next : Nat → List Nat) : (pending seen result : List Nat) → Prop where
  | done (seen : List Nat) : Walk next [] seen seen
  | skip {node : Nat} {pending seen result : List Nat} (known : node ∈ seen)
      (rest : Walk next pending seen result) : Walk next (node :: pending) seen result
  | enter {node : Nat} {pending seen result : List Nat} (fresh : node ∉ seen)
      (rest : Walk next (next node ++ pending) (node :: seen) result) :
      Walk next (node :: pending) seen result

namespace Walk

variable {next : Nat → List Nat} {pending seen result : List Nat}

theorem unique {other : List Nat} (walk : Walk next pending seen result)
    (walk' : Walk next pending seen other) : result = other := by
  induction walk with
  | done seen =>
      cases walk'
      rfl
  | skip known rest ih =>
      cases walk' with
      | skip _ rest' => exact ih rest'
      | enter fresh _ => exact absurd known fresh
  | enter fresh rest ih =>
      cases walk' with
      | skip known _ => exact absurd known fresh
      | enter _ rest' => exact ih rest'

/-- A walk that stays among nodes where two graphs agree is a walk of both. -/
theorem congr {next' : Nat → List Nat} {inside : Nat → Prop} (walk : Walk next pending seen result)
    (agree : ∀ node, inside node → next' node = next node)
    (closed : ∀ node, inside node → ∀ target ∈ next node, inside target)
    (start : ∀ node ∈ pending, inside node) : Walk next' pending seen result := by
  induction walk with
  | done seen => exact .done seen
  | skip known rest ih =>
      exact .skip known (ih fun node member => start node (List.mem_cons_of_mem _ member))
  | @enter node pending seen result fresh rest ih =>
      have here := start node List.mem_cons_self
      apply Walk.enter fresh
      rw [agree node here]
      apply ih
      intro target member
      rcases List.mem_append.mp member with entered | waiting
      · exact closed node here target entered
      · exact start target (List.mem_cons_of_mem _ waiting)

/-- New nodes come in front of those that were visited before. -/
theorem seen_suffix (walk : Walk next pending seen result) : seen <:+ result := by
  induction walk with
  | done seen => exact List.suffix_refl seen
  | skip known rest ih => exact ih
  | enter fresh rest ih => exact (List.suffix_cons _ _).trans ih

theorem seen_subset (walk : Walk next pending seen result) : seen ⊆ result :=
  walk.seen_suffix.subset

theorem pending_subset (walk : Walk next pending seen result) : pending ⊆ result := by
  induction walk with
  | done seen => exact List.nil_subset seen
  | skip known rest ih =>
      intro node member
      rcases List.mem_cons.mp member with rfl | waiting
      · exact rest.seen_subset known
      · exact ih waiting
  | enter fresh rest ih =>
      intro node member
      rcases List.mem_cons.mp member with rfl | waiting
      · exact rest.seen_subset List.mem_cons_self
      · exact ih (List.mem_append_right _ waiting)

theorem nodup (walk : Walk next pending seen result) (distinct : seen.Nodup) : result.Nodup := by
  induction walk with
  | done seen => exact distinct
  | skip known rest ih => exact ih distinct
  | enter fresh rest ih => exact ih (List.nodup_cons.mpr ⟨fresh, distinct⟩)

/-- All that is visited was visited before or can be reached from the stack. -/
theorem reaches_of_mem (walk : Walk next pending seen result) {target : Nat}
    (member : target ∈ result) : target ∈ seen ∨ ∃ node ∈ pending, Reaches next node target := by
  induction walk with
  | done seen => exact .inl member
  | skip known rest ih =>
      rcases ih member with old | ⟨node, waiting, path⟩
      · exact .inl old
      · exact .inr ⟨node, List.mem_cons_of_mem _ waiting, path⟩
  | @enter first pending seen result fresh rest ih =>
      rcases ih member with old | ⟨node, waiting, path⟩
      · rcases List.mem_cons.mp old with rfl | older
        · exact .inr ⟨_, List.mem_cons_self, .refl⟩
        · exact .inl older
      · rcases List.mem_append.mp waiting with entered | before
        · exact .inr ⟨first, List.mem_cons_self, .head entered path⟩
        · exact .inr ⟨node, List.mem_cons_of_mem _ before, path⟩

/-- No edge leads out of the visited nodes in the end if the stack holds all that do before. -/
theorem closed (walk : Walk next pending seen result)
    (waiting : ∀ node ∈ seen, ∀ target ∈ next node, target ∈ seen ∨ target ∈ pending)
    {node target : Nat} (member : node ∈ result) (edge : target ∈ next node) :
    target ∈ result := by
  induction walk with
  | done seen =>
      rcases waiting node member target edge with known | impossible
      · exact known
      · cases impossible
  | @skip first pending seen result known rest ih =>
      apply ih _ member
      intro source old target edge
      rcases waiting source old target edge with visited | onStack
      · exact .inl visited
      · rcases List.mem_cons.mp onStack with rfl | later
        · exact .inl known
        · exact .inr later
  | @enter first pending seen result fresh rest ih =>
      apply ih _ member
      intro source old target edge
      rcases List.mem_cons.mp old with rfl | older
      · exact .inr (List.mem_append_left _ edge)
      · rcases waiting source older target edge with visited | onStack
        · exact .inl (List.mem_cons_of_mem _ visited)
        · rcases List.mem_cons.mp onStack with rfl | later
          · exact .inl List.mem_cons_self
          · exact .inr (List.mem_append_right _ later)

theorem mem_iff_reaches {root target : Nat} (walk : Walk next [root] [] result) :
    target ∈ result ↔ Reaches next root target := by
  constructor
  · intro member
    rcases walk.reaches_of_mem member with impossible | ⟨node, isRoot, path⟩
    · cases impossible
    · rwa [List.mem_singleton.mp isRoot] at path
  · intro path
    induction path with
    | refl => exact walk.pending_subset List.mem_cons_self
    | tail _ edge ih => exact walk.closed (by simp) ih edge

end Walk

/-! ## Budgets -/

/-- The graph has at most so many edges, counted from any nodes. -/
def EdgeBound (next : Nat → List Nat) (edges : Nat) : Prop :=
  ∀ nodes : List Nat, nodes.Nodup → (nodes.flatMap next).length ≤ edges

theorem edgeBound_nil {next : Nat → List Nat} (none : ∀ node, next node = []) :
    EdgeBound next 0 := by
  intro nodes _
  have empty : nodes.flatMap next = [] := List.flatMap_eq_nil_iff.mpr fun node _ => none node
  rw [empty]
  exact Nat.le_refl 0

/-- Changing the edges of one node changes the number of edges by at most as many. -/
theorem EdgeBound.override {next next' : Nat → List Nat} {edges count : Nat}
    (bound : EdgeBound next edges) (node : Nat) (agree : ∀ other ≠ node, next' other = next other)
    (few : (next' node).length ≤ count) : EdgeBound next' (edges + count) := by
  intro nodes nodup
  have elsewhere : ∀ others : List Nat, node ∉ others →
      others.flatMap next' = others.flatMap next := by
    intro others apart
    apply List.flatMap_congr
    intro other member
    apply agree
    rintro rfl
    exact apart member
  by_cases member : node ∈ nodes
  · have apart : node ∉ nodes.erase node := nodup.not_mem_erase
    have rest := bound (nodes.erase node) (nodup.erase node)
    have split := ((List.perm_cons_erase member).flatMap_right next').length_eq
    rw [split, List.flatMap_cons, List.length_append, elsewhere _ apart]
    omega
  · rw [elsewhere nodes member]
    have := bound nodes nodup
    omega

theorem EdgeBound.fewer {next next' : Nat → List Nat} {edges : Nat} (bound : EdgeBound next edges)
    (shorter : ∀ node, (next' node).length ≤ (next node).length) : EdgeBound next' edges := by
  intro nodes nodup
  have below : (nodes.flatMap next').length ≤ (nodes.flatMap next).length := by
    clear nodup
    induction nodes with
    | nil => exact Nat.le_refl _
    | cons node nodes ih =>
        rw [List.flatMap_cons, List.flatMap_cons, List.length_append, List.length_append]
        exact Nat.add_le_add (shorter node) ih
  exact Nat.le_trans below (bound nodes nodup)

/-- Successors that are listed by number are as many as the lists have entries. -/
theorem edgeBound_lists (lists : List (List Nat)) :
    EdgeBound (fun node => lists[node]?.getD []) lists.flatten.length := by
  induction lists using List.reverseRecOn with
  | nil => exact edgeBound_nil (by simp)
  | append_singleton lists last ih =>
      rw [List.flatten_append, List.length_append]
      apply ih.override lists.length
      · intro other different
        rcases Nat.lt_or_gt_of_ne different with inside | outside
        · rw [List.getElem?_append_left inside]
        · rw [List.getElem?_eq_none (by simp; omega), List.getElem?_eq_none (by omega)]
      · simp

/-- The budget pays for the stack and for the edges of all nodes that are not visited yet. -/
theorem walk_visit {next : Nat → List Nat} {edges budget : Nat} {pending seen : List Nat}
    (bound : EdgeBound next edges) (nodup : seen.Nodup)
    (enough : edges + pending.length ≤ budget + (seen.flatMap next).length) :
    Walk next pending seen (visit next budget pending seen) := by
  induction budget generalizing pending seen with
  | zero =>
      have spent := bound seen nodup
      have empty : pending = [] := List.length_eq_zero_iff.mp (by omega)
      rw [empty]
      exact .done seen
  | succ budget ih =>
      cases pending with
      | nil => exact .done seen
      | cons node pending =>
          rw [List.length_cons] at enough
          unfold visit
          by_cases known : node ∈ seen
          · rw [if_pos known]
            exact .skip known (ih nodup (by omega))
          · rw [if_neg known]
            apply Walk.enter known
            apply ih (List.nodup_cons.mpr ⟨known, nodup⟩)
            rw [List.length_append, List.flatMap_cons, List.length_append]
            omega

theorem walk_preorder {next : Nat → List Nat} {edges : Nat} (bound : EdgeBound next edges)
    (root : Nat) : Walk next [root] [] (preorder next edges root).reverse := by
  unfold preorder
  rw [List.reverse_reverse]
  exact walk_visit bound List.nodup_nil (by simp)

theorem mem_preorder_iff {next : Nat → List Nat} {edges root target : Nat}
    (bound : EdgeBound next edges) :
    target ∈ preorder next edges root ↔ Reaches next root target := by
  rw [← List.mem_reverse]
  exact (walk_preorder bound root).mem_iff_reaches

/-- A pre-order begins with its root. -/
theorem preorder_eq_cons {next : Nat → List Nat} {edges : Nat} (bound : EdgeBound next edges)
    (root : Nat) : preorder next edges root = root :: (preorder next edges root).tail := by
  cases walk_preorder bound root with
  | skip known _ => cases known
  | enter _ rest =>
      obtain ⟨others, split⟩ := rest.seen_suffix
      rw [← List.reverse_inj, List.reverse_reverse, List.reverse_append] at split
      rw [← split]
      rfl

theorem nodup_preorder {next : Nat → List Nat} {edges : Nat} (bound : EdgeBound next edges)
    (root : Nat) : (preorder next edges root).Nodup :=
  List.nodup_reverse.mp ((walk_preorder bound root).nodup List.nodup_nil)

/-- A pre-order is the same in two graphs that agree where its walk goes. -/
theorem preorder_congr {next next' : Nat → List Nat} {edges edges' root : Nat}
    {inside : Nat → Prop} (bound : EdgeBound next edges) (bound' : EdgeBound next' edges')
    (agree : ∀ node, inside node → next' node = next node)
    (closed : ∀ node, inside node → ∀ target ∈ next node, inside target) (start : inside root) :
    preorder next' edges' root = preorder next edges root := by
  have walk := (walk_preorder bound root).congr agree closed (by simpa using start)
  rw [← List.reverse_inj]
  exact (walk_preorder bound' root).unique walk

end ObjectLisp.Graph
