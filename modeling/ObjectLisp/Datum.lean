import ObjectLisp.Number.Integer
import ObjectLisp.Symbol.Basic

/-!
# Data

A datum is what the reader makes of text: an atom, a cell of two data, or a
vector.  Cells and vectors that were opened by a delimiter or made from a
single token carry the line on which they began; the further cells of a list
carry none.
-/

namespace ObjectLisp

/-- A datum as read from text, with the lines of its compound parts. -/
inductive Datum where
  | null
  | int (value : Integer)
  | float (value : Float)
  | str (text : String)
  | symbol (symbol : SymbolId)
  | cons (line : Option Nat) (car cdr : Datum)
  | vec (line : Option Nat) (items : List Datum)
deriving Repr, Inhabited

namespace Datum

/-- The chain of cells that holds some data in order and ends in `tail`.  Only the first cell is
located. -/
def chain (line : Option Nat) : List Datum → (tail : Datum) → Datum
  | [], tail => tail
  | item :: items, tail => cons line item (chain none items tail)

/-- A proper list of data. -/
def list (line : Option Nat) (items : List Datum) : Datum := chain line items null

/-- One for a part with a line, none for a part without. -/
def marked : Option Nat → Nat
  | some _ => 1
  | none => 0

mutual

/-- Number of parts of a datum that carry a line. -/
def located : Datum → Nat
  | cons line car cdr => marked line + car.located + cdr.located
  | vec line items => marked line + locatedIn items
  | _ => 0

/-- Number of parts of several data that carry a line. -/
def locatedIn : List Datum → Nat
  | [] => 0
  | item :: items => item.located + locatedIn items

end

end Datum

end ObjectLisp
