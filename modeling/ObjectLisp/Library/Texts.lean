import ObjectLisp.Library.Argument
import ObjectLisp.Template

/-!
# Built-in functions on strings, symbols and packages, and output
-/

namespace ObjectLisp.Library

/-! ## Strings -/

/-- The texts of values one after the other. -/
def concatenation (values : List Value) : Eval Value := fun interp =>
  Eval.str (String.join (values.map (interp.print false))) interp

/-- The characters of a string from `start` to before `end_`, which is the end of the string if it
is not given. -/
def slice (value start : Value) (end_ : Option Value) : Eval Value := do
  let chars := (← Argument.text value).toList
  let size := chars.length
  let start ← Argument.index start
  let stop ← match end_ with
    | some value => Argument.index value
    | none => pure size
  if start ≤ stop ∧ stop ≤ size then
    Eval.str (String.ofList ((chars.drop start).take (stop - start)))
  else
    Eval.fail (.user ("substring bounds " ++ toString start ++ ".." ++ toString stop
      ++ " out of range for length " ++ toString size))

/-- Fill in a template. -/
def filled (control : String) (arguments : List Value) : Eval String := fun interp =>
  .ok (Template.format interp.print control arguments) interp

/-- Fail with a message of the program: a template with arguments, or the text of a value. -/
def raise (message : Value) (arguments : List Value) : Eval Value := do
  match message with
  | .str _ control => Eval.fail (.user (← filled control arguments))
  | other => Eval.fail (.user (← Eval.print false other))

/-- Write the texts of values with blanks between them, and end the line. -/
def writeLine (values : List Value) : Eval Value := fun interp =>
  let text := " ".intercalate (values.map (interp.print false))
  .ok .null { interp with output := interp.output ++ text ++ "\n" }

/-! ## Symbols -/

/-- A new symbol with a numbered name that belongs to no package. -/
def generate (stem : String) : Eval Value := fun interp =>
  let generated := interp.generated + 1
  let (symbol, symbols) := interp.symbols.makeUninterned (stem ++ toString generated)
  .ok (.symbol symbol) { interp with symbols, generated }

/-- Is a value a keyword? -/
def isKeywordValue (symbols : SymbolStore) : Value → Bool
  | .symbol id => symbols.isKeyword id
  | _ => false

/-! ## Packages -/

/-- The package that a value names. -/
def packageNamed (value : Value) : Eval PackageId := do
  let name ← Argument.name value
  match (← get).symbols.findPackage? name with
  | some package => return package
  | none => Eval.fail (.user ("no package named " ++ name))

/-- Make sure that there is a package, which uses `system` if it is new. -/
def ensurePackage (name : String) (symbols : SymbolStore) : PackageId × SymbolStore :=
  match symbols.findPackage? name with
  | some package => (package, symbols)
  | none =>
      let (package, symbols) := symbols.addPackage name
      (package, symbols.usePackage package PackageId.system)

/-- Make a package. -/
def newPackage (value : Value) : Eval Value := do
  let name ← Argument.name value
  modify fun interp => { interp with symbols := (ensurePackage name interp.symbols).2 }
  Eval.str name

/-- Make a package current. -/
def enterPackage (value : Value) : Eval Value := do
  let package ← packageNamed value
  modify fun interp => { interp with package }
  Eval.str (((← get).symbols.packageName? package).getD "")

/-- Let the current package use another one. -/
def inheritPackage (value : Value) : Eval Value := do
  let used ← packageNamed value
  modify fun interp =>
    { interp with symbols := interp.symbols.usePackage interp.package used }
  return .bool true

/-- Export symbols one after the other. -/
def exportAll : List Value → Eval Value
  | [] => pure (.bool true)
  | value :: values => do
      let symbol ← Argument.symbol value
      modify fun interp => { interp with symbols := interp.symbols.exportSymbol symbol }
      exportAll values

/-- Export a symbol, or the symbols of a list, from their home packages. -/
def exported (value : Value) : Eval Value := do
  match value with
  | .symbol _ => exportAll [value]
  | other => exportAll (← Argument.list other)

/-- The symbol of a name in a package, which is the current one if none is given. -/
def lookUp (name : Value) (package : Option Value) : Eval Value := do
  let name ← Argument.name name
  let package ← match package with
    | some value => packageNamed value
    | none => pure (← get).package
  match (← get).symbols.find? name package with
  | some symbol => return .symbol symbol
  | none => return .null

/-- The name of the package that a symbol belongs to. -/
def homePackage (value : Value) : Eval Value := do
  let symbol ← Argument.symbol value
  let symbols := (← get).symbols
  match (symbols.homeOf symbol).bind symbols.packageName? with
  | some name => Eval.str name
  | none => return .null

end ObjectLisp.Library
