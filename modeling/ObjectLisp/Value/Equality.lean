import ObjectLisp.Heap

/-!
# Structural equality

Two values are equal if they have the same structure with equal atoms.  Vectors
may contain themselves; a pair of vectors that is being compared further out is
taken to be equal, so the comparison ends, and it answers no exactly where some
path leads to a difference.
-/

namespace ObjectLisp.Value

/-- Are two values equal, given how vectors are compared? -/
def equalWith (vectors : Nat → Nat → Bool) : Value → Value → Bool
  | cons a car₁ cdr₁, cons b car₂ cdr₂ =>
      a = b || (equalWith vectors car₁ car₂ && equalWith vectors cdr₁ cdr₂)
  | vector a, vector b => vectors a b
  | str _ a, str _ b => a = b
  | int a, int b => a.toInt = b.toInt
  | float a, float b => a == b
  | a, b => same a b

/-- Do two lists have the same length and equal members? -/
def equalMembers (equal : Value → Value → Bool) : List Value → List Value → Bool
  | [], [] => true
  | a :: as, b :: bs => equal a b && equalMembers equal as bs
  | _, _ => false

/-- Are two vectors equal?  `active` are the pairs that are being compared further out, and
`budget` bounds the nesting. -/
def equalVectors (heap : Heap) : (budget : Nat) → (active : List (Nat × Nat)) → Nat → Nat → Bool
  | 0, _, _, _ => true
  | budget + 1, active, a, b =>
      a = b || (a, b) ∈ active ||
        ((heap.items a).size = (heap.items b).size &&
          equalMembers (equalWith (equalVectors heap budget ((a, b) :: active)))
            (heap.items a).toList (heap.items b).toList)

/-- Are two values structurally equal?  Every level of nesting adds a new pair of vectors, so the
number of pairs bounds it. -/
def equal (heap : Heap) (a b : Value) : Bool :=
  equalWith (equalVectors heap (heap.vectors.size * heap.vectors.size + 1) []) a b

end ObjectLisp.Value
