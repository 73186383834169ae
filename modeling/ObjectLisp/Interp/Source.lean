import ObjectLisp.Interp.Engine
import ObjectLisp.Reader.All

/-!
# Evaluating text

The forms of a text are read and evaluated one by one, so that each form is
read with the symbols and in the package that the forms before it left.  A
failure outside of any call is reported as one of the form itself.
-/

namespace ObjectLisp.Source

/-- Analyse and evaluate a form outside of any frame. -/
def evalForm (engine : Engine) (form : Value) (source : SourceMap) : Eval Value := do
  let expr ← engine.analyze form { source }
  engine.eval expr none

/-- The call that stands for a whole form in reports. -/
def formCall (interp : Interp) (form : Value) (loc : SourceLoc) : CallFrame :=
  match form.toList? with
  | some (head :: arguments) =>
      { loc := some loc, callable := interp.print true head, arguments }
  | _ => { loc := some loc, callable := interp.print true form, arguments := [] }

/-- A failure that left no call is noted as one of the form. -/
def noteForm (interp : Interp) (form : Value) (loc : SourceLoc) (failure : Failure) : Failure :=
  match failure.calls with
  | [] => failure.addCall (formCall interp form loc)
  | _ :: _ => failure

/-- Evaluate a datum that was read from a file.  `line` is the line reached behind it. -/
def evalDatum (engine : Engine) (file : String) (datum : Datum) (line : Nat) : Eval Value :=
  fun interp =>
    let (form, source, heap) := interp.heap.embed file datum
    let loc := (source.find? form).getD ⟨file, line⟩
    match evalForm engine form source { interp with heap } with
    | .ok value interp => .ok value interp
    | .error (.failure failure) interp =>
        .error (.failure (noteForm interp form loc failure)) interp
    | .error .spent interp => .error .spent interp

/-- Evaluate at most `bound` forms of a text; the value of the last one. -/
def evalForms (engine : Engine) (file : String) :
    (bound line : Nat) → List Char → (last : Value) → Eval Value
  | 0, _, _, _ => throw .spent
  | bound + 1, line, chars, last => fun interp =>
      match Reader.next interp.table interp.package interp.symbols line chars with
      | .finished _ symbols => .ok last { interp with symbols }
      | .failed problem line symbols =>
          Eval.fail (.unreadable ⟨⟨file, line⟩, problem⟩) { interp with symbols }
      | .datum datum rest line symbols =>
          match evalDatum engine file datum line { interp with symbols } with
          | .ok value interp => evalForms engine file bound line rest value interp
          | .error stop interp => .error stop interp

/-- Evaluate the forms of a text.  A form takes at least one character. -/
def evalText (engine : Engine) (file text : String) : Eval Value :=
  let chars := text.toList
  evalForms engine file (chars.length + 1) 1 chars .null

/-- Evaluate the forms of a file.  The current package is the same afterwards. -/
def load (engine : Engine) (path : String) : Eval Value := fun interp =>
  match interp.files.read path with
  | .ok text =>
      let package := interp.package
      Eval.finally_ (evalText engine path text) (fun interp => { interp with package }) interp
  | .error problem =>
      Eval.fail (.file (path ++ ": " ++ problem.message))
        { interp with files := interp.files.note path }

end ObjectLisp.Source
