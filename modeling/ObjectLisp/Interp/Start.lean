import ObjectLisp.Interp.Run
import ObjectLisp.Prelude

/-!
# Starting an interpreter

A new interpreter knows the words of the language, the constants `true`,
`false` and `null`, the class `object`, the operators and the built-in
functions, all in the package `system`, and then evaluates the prelude there.
Interpreters may share their symbols: one that starts with the symbols of
another finds all of this interned already.
-/

namespace ObjectLisp.Interp

/-- Define an exported symbol of the package `system`. -/
def defineSystem (interp : Interp) (name : String) (value : Value) : Interp :=
  let (symbol, symbols) := Vocabulary.internSystem interp.symbols name
  { interp with symbols, globals := interp.globals.set symbol value }

/-- Define an exported constant of the package `system`. -/
def defineSystemConstant (interp : Interp) (name : String) (value : Value) : Interp :=
  let (symbol, symbols) := Vocabulary.internSystem interp.symbols name
  let symbols := match symbols.makeConstant symbol with
    | .ok symbols => symbols
    | .error _ => symbols
  { interp with symbols, globals := interp.globals.set symbol value }

/-- Define several exported symbols. -/
def defineAll (interp : Interp) : List (String × Value) → Interp
  | [] => interp
  | (name, value) :: rest => (interp.defineSystem name value).defineAll rest

/-- The operators with their names. -/
def operatorBindings (operators : OperatorTable (OperatorMethod Value)) : List (String × Value) :=
  operators.operators.toList.zipIdx.map fun (operator, id) => (operator.name, .operator id)

/-- The built-in functions with their names. -/
def primitiveBindings : List (String × Value) :=
  Primitive.all.map fun function => (function.name, .primitive function)

/-- An interpreter before its prelude. -/
def bare (config : Config) (symbols : SymbolStore) : Interp :=
  let (words, symbols) := Vocabulary.install symbols
  let interp : Interp := { config, symbols, words }
  let interp := interp.defineSystemConstant "true" (.bool true)
  let interp := interp.defineSystemConstant "false" (.bool false)
  let interp := interp.defineSystemConstant "null" .null
  let interp := interp.defineSystem "object" (.class_ ClassId.object)
  let interp := interp.defineAll (operatorBindings interp.operators)
  interp.defineAll primitiveBindings

/-- Evaluate the prelude. -/
def withPrelude (interp : Interp) : Interp :=
  Eval.final (Source.evalText (.ofFuel Engine.ample) Prelude.fileName Prelude.text interp)

/-- Enter the package that the configuration names, which is made if need be. -/
def enterConfigured (interp : Interp) : Interp :=
  let (package, symbols) := Library.ensurePackage interp.config.package interp.symbols
  { interp with symbols, package }

/-- A new interpreter with the given symbols. -/
def start (config : Config) (symbols : SymbolStore) : Interp :=
  let interp := bare config symbols
  let interp := if config.loadPrelude then interp.withPrelude else interp
  interp.enterConfigured

end ObjectLisp.Interp
