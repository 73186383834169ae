import ObjectLisp.Interp.Start

/-!
# Sessions

What a host can do with interpreters: read, analyse and evaluate texts, load
files, define and look up global variables, and call functions.  The
interpreters of a session share their symbols, so that what one of them interns
is known to all.
-/

namespace ObjectLisp

namespace Session

/-- The engine that sessions run on. -/
def engine : Engine := .ofFuel Engine.ample

/-- Turn data into values. -/
def embedAll (file : String) : List Reader.Located → Eval (List Value)
  | [] => pure []
  | located :: rest => fun interp =>
      let (value, _, heap) := interp.heap.embed file located.datum
      match embedAll file rest { interp with heap } with
      | .ok values interp => .ok (value :: values) interp
      | .error stop interp => .error stop interp

/-- All data of a text, read in the current package. -/
def readData (text : String) : Eval (List Reader.Located) := fun interp =>
  let file := interp.config.sourceName
  let reading := Reader.readAll interp.table interp.package file interp.symbols text
  let interp := { interp with symbols := reading.symbols }
  match reading.error? with
  | some error => Eval.fail (.unreadable error) interp
  | none => .ok reading.data interp

/-- All data of a text as values. -/
def read (text : String) : Eval (List Value) := do
  let data ← readData text
  embedAll (← get).config.sourceName data

/-- Evaluate a text that comes from a named file. -/
def evalText (file text : String) : Eval Value := Source.evalText engine file text

/-- Evaluate a text that comes from no file. -/
def eval (text : String) : Eval Value := do
  evalText (← get).config.sourceName text

/-- Evaluate a file. -/
def load (path : String) : Eval Value := Source.load engine path

/-- Analyse at most `bound` forms of a text without evaluating them.  Each expression is viewed in
the state that its own analysis leaves, since later macro calls may change that state. -/
def analyzeForms {α : Type} (view : Interp → Expr → α) (file : String) (package : PackageId) :
    (bound line : Nat) → List Char → Eval (List α)
  | 0, _, _ => throw .spent
  | bound + 1, line, chars => fun interp =>
      match Reader.next interp.table package interp.symbols line chars with
      | .finished _ symbols => .ok [] { interp with symbols }
      | .failed problem line symbols =>
          Eval.fail (.unreadable ⟨⟨file, line⟩, problem⟩) { interp with symbols }
      | .datum datum rest line symbols =>
          let (form, source, heap) := interp.heap.embed file datum
          match engine.analyze form { source } { interp with symbols, heap } with
          | .ok expr interp =>
              let seen := view interp expr
              match analyzeForms view file package bound line rest interp with
              | .ok others interp => .ok (seen :: others) interp
              | .error stop interp => .error stop interp
          | .error stop interp => .error stop interp

/-- Analyse the forms of a text without evaluating them.  All of them are read in the package that
is current at the start. -/
def analyze {α : Type} (view : Interp → Expr → α) (text : String) : Eval (List α) := do
  let interp ← get
  let chars := text.toList
  analyzeForms view interp.config.sourceName interp.package (chars.length + 1) 1 chars

/-- Define a global variable by its name in the current package. -/
def define (name : String) (value : Value) : Eval SymbolId := do
  let symbol ← Eval.intern name
  Eval.checkAssignable symbol
  Eval.setGlobal symbol value
  return symbol

/-- The value of a global variable by its name in the current package. -/
def global? (interp : Interp) (name : String) : Option Value :=
  (interp.symbols.find? name interp.package).bind interp.globals.get?

/-- Call the value of a global variable. -/
def call (name : String) (arguments : List Value) : Eval Value := do
  engine.apply ((global? (← get) name).getD .null) arguments none

end Session

/-- Interpreters that share their symbols. -/
structure Session where
  interps : List Interp

namespace Session

/-- Give all interpreters the same symbols. -/
def share (session : Session) (symbols : SymbolStore) : Session :=
  ⟨session.interps.map fun interp => { interp with symbols }⟩

/-- New interpreters, each started with the symbols that the ones before it left. -/
def startAll (config : Config) : Nat → SymbolStore → List Interp × SymbolStore
  | 0, symbols => ([], symbols)
  | count + 1, symbols =>
      let interp := Interp.start config symbols
      let (interps, symbols) := startAll config count interp.symbols
      (interp :: interps, symbols)

/-- A session with a number of new interpreters. -/
def start (config : Config) (count : Nat) : Session :=
  let (interps, symbols) := startAll config count .initial
  share ⟨interps⟩ symbols

/-- Change all interpreters. -/
def map (session : Session) (change : Interp → Interp) : Session :=
  ⟨session.interps.map change⟩

/-- Let one interpreter run. -/
def step {α : Type} (session : Session) (index : Nat) (action : Eval α) :
    Option (Except Stop α × Interp × Session) :=
  match session.interps[index]? with
  | none => none
  | some interp =>
      let (result, interp) := match action interp with
        | .ok value interp => (Except.ok value, interp)
        | .error stop interp => (Except.error stop, interp)
      let session : Session := ⟨session.interps.set index interp⟩
      some (result, interp, session.share interp.symbols)

end Session

end ObjectLisp
