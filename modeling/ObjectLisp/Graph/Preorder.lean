/-!
# Depth-first pre-order of a graph

Use lists of packages, parents of classes and registered extenders are all
graphs over small indices, possibly with cycles and with edges to indices that
do not exist.  One walk serves the three: it visits a node before its
successors, the successors from left to right, and no node twice.

The walk keeps a stack of nodes still to visit.  Each step takes one node from
the stack, so a budget of one step per root and per edge of the graph suffices.
-/

namespace ObjectLisp.Graph

/-- Take nodes from the stack `pending` until it or the budget is used up.
`seen` lists the visited nodes, latest first. -/
def visit (next : Nat → List Nat) : (budget : Nat) → (pending seen : List Nat) → List Nat
  | 0, _, seen => seen
  | _ + 1, [], seen => seen
  | budget + 1, node :: pending, seen =>
      if node ∈ seen then visit next budget pending seen
      else visit next budget (next node ++ pending) (node :: seen)

/-- The nodes reached from `root`, in depth-first pre-order.  `edges` bounds the number of
edges of the graph. -/
def preorder (next : Nat → List Nat) (edges : Nat) (root : Nat) : List Nat :=
  (visit next (edges + 1) [root] []).reverse

/-- With no budget left the walk stops where it is. -/
@[simp]
theorem visit_zero (next : Nat → List Nat) (pending seen : List Nat) :
    visit next 0 pending seen = seen :=
  rfl

/-- An empty stack ends the walk. -/
@[simp]
theorem visit_nil (next : Nat → List Nat) (budget : Nat) (seen : List Nat) :
    visit next budget [] seen = seen := by
  cases budget <;> rfl

end ObjectLisp.Graph
