import ObjectLisp.Number.Decimal
import ObjectLisp.Symbol.Store
import ObjectLisp.Datum

/-!
# Printing

The same printer serves data and the values of a running interpreter.  Each
kind of thing is printed through a view that says what it looks like from
outside: an atom, a cell, a vector, or something without a readable form.

Output is cut at a greatest depth and a greatest length, so the printer ends
also on vectors that contain themselves.
-/

namespace ObjectLisp

universe u

/-- What a thing looks like to the printer. -/
inductive Shape (α : Type u) where
  | null
  | bool (value : Bool)
  | int (value : Integer)
  | float (value : Float)
  | str (text : String)
  | symbol (symbol : SymbolId)
  /-- A thing without a readable form, by its label. -/
  | unreadable (label : String)
  | cell (head tail : α)
  | vector (items : List α)

/-- How to print. -/
structure PrintStyle where
  /-- Write strings and symbols so that they read back. -/
  escape : Bool := true
  /-- The package whose names need no qualification. -/
  package : PackageId := PackageId.user
  /-- Nesting beyond this is cut. -/
  maxDepth : Nat := 100
  /-- Lists and vectors are cut after this many elements. -/
  maxLength : Nat := 1000
deriving Repr, DecidableEq

namespace Printer

/-- Written in place of what lies too deep. -/
def ellipsis : List Char := ['.', '.', '.']

/-- Written in place of the elements of a list that is too long. -/
def lengthEllipsis : List Char := ' ' :: ellipsis

/-- A character of a string, escaped where the reader needs it. -/
def escapeChar : Char → List Char
  | '"' => ['\\', '"']
  | '\\' => ['\\', '\\']
  | '\n' => ['\\', 'n']
  | '\t' => ['\\', 't']
  | '\r' => ['\\', 'r']
  | c => [c]

/-- A string between quotes. -/
def quoted (text : List Char) : List Char :=
  '"' :: text.flatMap escapeChar ++ ['"']

/-- What stands in front of a symbol's name: the package of a symbol that its plain name would
not denote here. -/
def qualifier (symbols : SymbolStore) (style : PrintStyle) (id : SymbolId) (symbol : Symbol) :
    List Char :=
  if style.escape then
    match symbol.home with
    | none => ['#', ':']
    | some home =>
        if symbols.find? symbol.name style.package = some id then []
        else
          match symbols.packageName? home with
          | some name => name.toList ++ ['@']
          | none => []
  else []

/-- The text of a symbol.  Keywords start with a colon in every package. -/
def symbolChars (symbols : SymbolStore) (style : PrintStyle) (id : SymbolId) : List Char :=
  match symbols.symbol? id with
  | none => "#<symbol ".toList ++ Nat.toDigits 10 id ++ ['>']
  | some symbol =>
      match symbol.kind with
      | .keyword => ':' :: symbol.name.toList
      | _ => qualifier symbols style id symbol ++ symbol.name.toList

variable {α : Type u}

/-- The elements of a list from a cell on.  `room` elements may still be written, each by
`write`; a tail that is neither cell nor null follows a dot. -/
def listChars (view : α → Shape α) (write : α → List Char) :
    (room : Nat) → (first : Bool) → α → List Char
  | 0, _, item =>
      match view item with
      | .cell _ _ => lengthEllipsis
      | .null => []
      | _ => [' ', '.', ' '] ++ write item
  | room + 1, first, item =>
      match view item with
      | .cell head tail =>
          (if first then [] else [' ']) ++ write head ++ listChars view write room false tail
      | .null => []
      | _ => [' ', '.', ' '] ++ write item

/-- The elements of a vector, separated by blanks. -/
def vectorChars (write : α → List Char) : (room : Nat) → (first : Bool) → List α → List Char
  | _, _, [] => []
  | 0, _, _ :: _ => lengthEllipsis
  | room + 1, first, item :: items =>
      (if first then [] else [' ']) ++ write item ++ vectorChars write room false items

/-- The text of a thing, given how the things inside it are written. -/
def layer (symbols : SymbolStore) (style : PrintStyle) (view : α → Shape α)
    (write : α → List Char) (item : α) : List Char :=
  match view item with
  | .null => "null".toList
  | .bool true => "true".toList
  | .bool false => "false".toList
  | .int value => value.toChars
  | .float value => Decimal.toChars .printer value
  | .str text => if style.escape then quoted text.toList else text.toList
  | .symbol id => symbolChars symbols style id
  | .unreadable label => "#<".toList ++ label.toList ++ ['>']
  | .cell _ _ => '(' :: listChars view write style.maxLength true item ++ [')']
  | .vector items => '[' :: vectorChars write style.maxLength true items ++ [']']

/-- The text of a thing with `levels` levels of nesting left. -/
def chars (symbols : SymbolStore) (style : PrintStyle) (view : α → Shape α) :
    (levels : Nat) → α → List Char
  | 0, _ => ellipsis
  | levels + 1, item => layer symbols style view (chars symbols style view levels) item

/-- The printed text of a thing. -/
def print (symbols : SymbolStore) (style : PrintStyle) (view : α → Shape α) (item : α) : String :=
  String.ofList (chars symbols style view (style.maxDepth + 1) item)

end Printer

/-- What a datum looks like. -/
def Datum.shape : Datum → Shape Datum
  | .null => .null
  | .int value => .int value
  | .float value => .float value
  | .str text => .str text
  | .symbol id => .symbol id
  | .cons _ car cdr => .cell car cdr
  | .vec _ items => .vector items

/-- The printed text of a datum. -/
def Datum.print (symbols : SymbolStore) (style : PrintStyle) (datum : Datum) : String :=
  Printer.print symbols style Datum.shape datum

end ObjectLisp
