/-!
# Argument counts

What a callable says about the number of its arguments.
-/

namespace ObjectLisp

/-- The argument counts that a callable accepts. -/
inductive Arity where
  | exact (count : Nat)
  | atLeast (count : Nat)
  | range (low high : Nat)
deriving Repr, DecidableEq, Inhabited

namespace Arity

/-- Is this number of arguments accepted? -/
def accepts : Arity → Nat → Bool
  | exact count, found => found = count
  | atLeast count, found => count ≤ found
  | range low high, found => low ≤ found && found ≤ high

/-- The accepted counts in words. -/
def text : Arity → String
  | exact count => toString count
  | atLeast count => "at least " ++ toString count
  | range low high => toString low ++ " to " ++ toString high

end Arity

end ObjectLisp
