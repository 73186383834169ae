import ObjectLisp.Proofs.Graph.Walk

/-!
# Depth-first orders without a memory

A walk remembers every node it has visited and enters none twice.  What order this
gives is easier to say of a traversal that remembers less.  `Unfolds` follows all
paths on which no node comes twice, and walks a node again on every path to it.
`Unrolls` follows all paths whatsoever, and comes to an end only in a graph without
cycles.

A walk visits the nodes where such a traversal meets them first.  The reason is
that a node which is visited, but is not on the path to the current one, has been
left for good: everything that can be reached from it past the path is visited too.
-/

namespace ObjectLisp.Graph

variable {next : Nat → List Nat} {path nodes trace seen pending result : List Nat}

/-- The nodes on all paths from `nodes` that meet neither `path` nor themselves, in depth-first
pre-order.  A node stands there once for each path that leads to it. -/
inductive Unfolds (next : Nat → List Nat) : (path nodes trace : List Nat) → Prop where
  | nil (path : List Nat) : Unfolds next path [] []
  | turn {path nodes trace : List Nat} {node : Nat} (back : node ∈ path)
      (rest : Unfolds next path nodes trace) : Unfolds next path (node :: nodes) trace
  | enter {path nodes trace inner : List Nat} {node : Nat} (ahead : node ∉ path)
      (below : Unfolds next (node :: path) (next node) inner)
      (rest : Unfolds next path nodes trace) :
      Unfolds next path (node :: nodes) (node :: (inner ++ trace))

/-- The nodes on all paths from `nodes`, in depth-first pre-order. -/
inductive Unrolls (next : Nat → List Nat) : (nodes trace : List Nat) → Prop where
  | nil : Unrolls next [] []
  | cons {nodes trace inner : List Nat} {node : Nat} (below : Unrolls next (next node) inner)
      (rest : Unrolls next nodes trace) : Unrolls next (node :: nodes) (node :: (inner ++ trace))

theorem Unrolls.eq_nil (unrolls : Unrolls next [] trace) : trace = [] := by
  cases unrolls
  rfl

/-! ## Traversals come to an end -/

theorem length_filter_cons_lt {all : List Nat} {node : Nat} (inside : node ∈ all)
    (ahead : node ∉ path) :
    (all.filter (· ∉ node :: path)).length < (all.filter (· ∉ path)).length := by
  have smaller : all.filter (· ∉ node :: path) =
      (all.filter (· ∉ path)).filter (· ≠ node) := by
    rw [List.filter_filter]
    simp [not_or]
  rw [smaller, List.length_filter_lt_length_iff_exists]
  exact ⟨node, by simp [inside, ahead], by simp⟩

/-- Paths without repetition are no longer than the graph, so following all of them ends. -/
theorem exists_unfolds {all : List Nat} (outside : ∀ node ∉ all, next node = [])
    (path nodes : List Nat) : ∃ trace, Unfolds next path nodes trace := by
  induction remaining : (all.filter (· ∉ path)).length using Nat.strongRecOn
    generalizing path nodes with
  | _ count deeper =>
      induction nodes with
      | nil => exact ⟨[], .nil path⟩
      | cons node nodes ih =>
          obtain ⟨trace, rest⟩ := ih
          by_cases back : node ∈ path
          · exact ⟨trace, .turn back rest⟩
          · have below : ∃ inner, Unfolds next (node :: path) (next node) inner := by
              by_cases inside : node ∈ all
              · exact deeper _ (remaining ▸ length_filter_cons_lt inside back) _ _ rfl
              · rw [outside node inside]
                exact ⟨[], .nil _⟩
            obtain ⟨inner, below⟩ := below
            exact ⟨_, .enter back below rest⟩

/-- Where no path leads back to itself, no path has to be cut. -/
theorem unfolds_iff_unrolls (acyclic : ∀ node, ¬ Relation.TransGen (Edge next) node node)
    (apart : ∀ node ∈ nodes, ∀ earlier ∈ path, ¬ Reaches next node earlier) :
    Unfolds next path nodes trace ↔ Unrolls next nodes trace := by
  -- What lies below a node reaches neither the node nor anything that the node does not reach.
  have apartBelow : ∀ {node : Nat} {path : List Nat},
      (∀ earlier ∈ path, ¬ Reaches next node earlier) →
      ∀ target ∈ next node, ∀ earlier ∈ node :: path, ¬ Reaches next target earlier := by
    intro node path apart target edge earlier member around
    rcases List.mem_cons.mp member with rfl | above
    · exact acyclic earlier (Relation.TransGen.head' edge around)
    · exact apart earlier above (.head edge around)
  constructor
  · intro unfolds
    induction unfolds with
    | nil path => exact .nil
    | turn back rest ih => exact absurd .refl (apart _ List.mem_cons_self _ back)
    | enter ahead below rest ihBelow ihRest =>
        obtain ⟨here, others⟩ := List.forall_mem_cons.mp apart
        exact .cons (ihBelow (apartBelow here)) (ihRest others)
  · intro unrolls
    induction unrolls generalizing path with
    | nil => exact .nil path
    | cons below rest ihBelow ihRest =>
        obtain ⟨here, others⟩ := List.forall_mem_cons.mp apart
        have ahead := fun back => here _ back .refl
        exact .enter ahead (ihBelow (apartBelow here)) (ihRest others)

/-! ## Visited nodes -/

/-- The visited nodes after those of a trace are visited in turn, latest first. -/
def marked (seen trace : List Nat) : List Nat :=
  trace.foldl (fun seen node => seen.insert node) seen

theorem marked_cons (seen : List Nat) (node : Nat) (trace : List Nat) :
    marked seen (node :: trace) = marked (seen.insert node) trace :=
  rfl

theorem marked_append (seen front back : List Nat) :
    marked seen (front ++ back) = marked (marked seen front) back :=
  List.foldl_append

theorem mem_marked_iff {node : Nat} : node ∈ marked seen trace ↔ node ∈ seen ∨ node ∈ trace := by
  induction trace generalizing seen with
  | nil => simp [marked]
  | cons first trace ih =>
      rw [marked_cons, ih, List.mem_insert_iff, List.mem_cons]
      tauto

theorem marked_of_subset (known : trace ⊆ seen) : marked seen trace = seen := by
  induction trace with
  | nil => rfl
  | cons first trace ih =>
      obtain ⟨here, others⟩ := List.cons_subset.mp known
      rw [marked_cons, List.insert_of_mem here, ih others]

/-- A node that is visited already is passed over. -/
theorem marked_eq_append (seen trace : List Nat) :
    marked seen trace = (trace.filter (· ∉ seen)).eraseDups.reverse ++ seen := by
  induction trace generalizing seen with
  | nil => rfl
  | cons node trace ih =>
      rw [marked_cons, ih]
      by_cases known : node ∈ seen
      · rw [List.insert_of_mem known, List.filter_cons_of_neg (by simpa using known)]
      · have later : trace.filter (· ∉ seen.insert node) =
            (trace.filter (· ∉ seen)).filter fun other => !other == node := by
          rw [List.filter_filter]
          refine List.filter_congr fun other _ => ?_
          simp [List.mem_insert_iff, beq_eq_decide]
        rw [List.insert_of_not_mem known, List.filter_cons_of_pos (by simpa using known),
          List.eraseDups_cons, ← later, List.insert_of_not_mem known]
        simp

/-! ## The order of a walk -/

/-- Every visited node that is not on the path has been left: its successors are visited. -/
structure Settled (next : Nat → List Nat) (path seen : List Nat) : Prop where
  onPath : path ⊆ seen
  left : ∀ node ∈ seen, node ∉ path → next node ⊆ seen

namespace Settled

theorem nil (next : Nat → List Nat) : Settled next [] [] :=
  ⟨List.nil_subset [], by simp⟩

/-- A node that is entered is visited and on the path. -/
theorem enter (settled : Settled next path seen) (node : Nat) :
    Settled next (node :: path) (seen.insert node) where
  onPath := by
    intro earlier member
    rcases List.mem_cons.mp member with rfl | above
    · exact List.mem_insert_self
    · exact List.mem_insert_of_mem (settled.onPath above)
  left := by
    intro other member off target edge
    obtain ⟨different, off⟩ := not_or.mp (List.mem_cons.not.mp off)
    have visited := (List.mem_insert_iff.mp member).resolve_left different
    exact List.mem_insert_of_mem (settled.left other visited off edge)

/-- A node whose successors are visited can be left. -/
theorem leave {node : Nat} (settled : Settled next (node :: path) seen)
    (done : next node ⊆ seen) : Settled next path seen where
  onPath := fun _ above => settled.onPath (List.mem_cons_of_mem node above)
  left := by
    intro other member off
    by_cases same : other = node
    · rw [same]
      exact done
    · exact settled.left other member (by simp [same, off])

/-- What lies below visited nodes past the path is visited. -/
theorem trace_subset {deeper : List Nat} (settled : Settled next path seen)
    (unfolds : Unfolds next deeper nodes trace) (extends_ : path ⊆ deeper) (known : nodes ⊆ seen) :
    trace ⊆ seen := by
  induction unfolds with
  | nil => exact List.nil_subset seen
  | turn back rest ih => exact ih extends_ (List.cons_subset.mp known).2
  | enter ahead below rest ihBelow ihRest =>
      obtain ⟨here, others⟩ := List.cons_subset.mp known
      have successors := settled.left _ here fun above => ahead (extends_ above)
      have inside := ihBelow (fun _ above => List.mem_cons_of_mem _ (extends_ above)) successors
      exact List.cons_subset.mpr ⟨here, List.append_subset.mpr ⟨inside, ihRest extends_ others⟩⟩

/-- After a traversal its start nodes are visited, and all new nodes are left. -/
theorem unfold (settled : Settled next path seen) (unfolds : Unfolds next path nodes trace) :
    Settled next path (marked seen trace) ∧ nodes ⊆ marked seen trace := by
  induction unfolds generalizing seen with
  | nil => exact ⟨settled, List.nil_subset _⟩
  | turn back rest ih =>
      obtain ⟨after, others⟩ := ih settled
      exact ⟨after, List.cons_subset.mpr ⟨after.onPath back, others⟩⟩
  | @enter path nodes trace inner node ahead below rest ihBelow ihRest =>
      obtain ⟨inside, done⟩ := ihBelow (settled.enter node)
      obtain ⟨after, others⟩ := ihRest (inside.leave done)
      rw [marked_cons, marked_append]
      refine ⟨after, List.cons_subset.mpr ⟨?_, others⟩⟩
      exact mem_marked_iff.mpr (.inl (inside.onPath List.mem_cons_self))

end Settled

/-- A walk visits the nodes of a traversal in their order and goes on behind them. -/
theorem Unfolds.walk (unfolds : Unfolds next path nodes trace) (settled : Settled next path seen)
    (walk : Walk next pending (marked seen trace) result) :
    Walk next (nodes ++ pending) seen result := by
  induction unfolds generalizing seen pending with
  | nil => exact walk
  | turn back rest ih => exact .skip (settled.onPath back) (ih settled walk)
  | @enter path nodes trace inner node ahead below rest ihBelow ihRest =>
      by_cases known : node ∈ seen
      · -- The node was left before, so the traversal meets nothing new below it.
        have inside : inner ⊆ seen := settled.trace_subset below
          (fun _ above => List.mem_cons_of_mem _ above) (settled.left node known ahead)
        rw [marked_cons, List.insert_of_mem known, marked_append, marked_of_subset inside] at walk
        exact .skip known (ihRest settled walk)
      · have entered := settled.enter node
        obtain ⟨inside, done⟩ := entered.unfold below
        rw [marked_cons, marked_append] at walk
        rw [List.insert_of_not_mem known] at entered inside done walk
        exact .enter known (ihBelow entered (ihRest (inside.leave done) walk))

/-- A pre-order lists the nodes of a traversal where they are met first. -/
theorem Unfolds.preorder_eq {edges root : Nat} (bound : EdgeBound next edges)
    (unfolds : Unfolds next [] [root] trace) : preorder next edges root = trace.eraseDups := by
  have walk : Walk next [root] [] (marked [] trace) := unfolds.walk (.nil next) (.done _)
  have same := (walk_preorder bound root).unique walk
  rw [marked_eq_append, List.append_nil, List.reverse_inj] at same
  simpa using same

end ObjectLisp.Graph
