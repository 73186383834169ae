/-!
# Evaluation statistics

Counters of one interpreter.  They are 64-bit words and stay at the greatest
value once they have reached it.
-/

namespace ObjectLisp

/-- How often the evaluator took which path. -/
structure Counters where
  /-- Closure calls whose arguments are the frame as they stand. -/
  fastCalls : Nat := 0
  /-- Closure calls with optional, keyword or rest parameters. -/
  generalCalls : Nat := 0
  restLists : Nat := 0
  /-- Searches of an operator's method table. -/
  operatorScans : Nat := 0
  operatorHits : Nat := 0
  /-- Behavior chains built from a linearization. -/
  chainBuilds : Nat := 0
  expansions : Nat := 0
deriving Repr, DecidableEq, Inhabited

namespace Counters

/-- The greatest value of a counter. -/
def limit : Nat := Nat.pow 2 64 - 1

/-- Sum of two counters. -/
def saturate (a b : Nat) : Nat := min (a + b) limit

/-- Add statistics field by field. -/
def add (a b : Counters) : Counters where
  fastCalls := saturate a.fastCalls b.fastCalls
  generalCalls := saturate a.generalCalls b.generalCalls
  restLists := saturate a.restLists b.restLists
  operatorScans := saturate a.operatorScans b.operatorScans
  operatorHits := saturate a.operatorHits b.operatorHits
  chainBuilds := saturate a.chainBuilds b.chainBuilds
  expansions := saturate a.expansions b.expansions

/-- All closure calls. -/
def totalCalls (counters : Counters) : Nat := saturate counters.fastCalls counters.generalCalls

/-- The counters in their fixed order. -/
def toList (counters : Counters) : List Nat :=
  [counters.fastCalls, counters.generalCalls, counters.restLists, counters.operatorScans,
    counters.operatorHits, counters.chainBuilds, counters.expansions]

end Counters

end ObjectLisp
