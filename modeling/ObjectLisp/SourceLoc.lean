/-!
# Source locations

Texts are known by a file name, and places in them by their line.
-/

namespace ObjectLisp

/-- A line of a named text. -/
structure SourceLoc where
  file : String
  line : Nat
deriving Repr, DecidableEq, Inhabited

namespace SourceLoc

/-- How a location is written in messages. -/
def text (loc : SourceLoc) : String := loc.file ++ ":" ++ toString loc.line

end SourceLoc

end ObjectLisp
