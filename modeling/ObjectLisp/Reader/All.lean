import ObjectLisp.Reader.Machine

/-!
# Reading a whole text

The data of a text are read one after the other until nothing is left or a
problem is met.  Each datum takes at least one character, so a text has at most
as many data as characters.
-/

namespace ObjectLisp.Reader

/-- A datum with the line that was reached behind it. -/
structure Located where
  datum : Datum
  line : Nat
deriving Repr, Inhabited

/-- All data of a text, what ended the reading, and the symbols known then. -/
structure Reading where
  data : List Located
  /-- The problem that ended the reading, if one did. -/
  error? : Option SyntaxError
  symbols : SymbolStore

/-- Read at most `bound` data. -/
def readAtMost (table : ReadTable) (package : PackageId) (file : String) :
    (bound : Nat) → SymbolStore → (line : Nat) → List Char → Reading
  | 0, symbols, _, _ => ⟨[], none, symbols⟩
  | bound + 1, symbols, line, text =>
      match next table package symbols line text with
      | .datum datum rest line symbols =>
          let reading := readAtMost table package file bound symbols line rest
          { reading with data := ⟨datum, line⟩ :: reading.data }
      | .finished _ symbols => ⟨[], none, symbols⟩
      | .failed problem line symbols => ⟨[], some ⟨⟨file, line⟩, problem⟩, symbols⟩

/-- Read all data of a named text. -/
def readAll (table : ReadTable) (package : PackageId) (file : String) (symbols : SymbolStore)
    (text : String) : Reading :=
  let chars := text.toList
  readAtMost table package file (chars.length + 1) symbols 1 chars

end ObjectLisp.Reader
