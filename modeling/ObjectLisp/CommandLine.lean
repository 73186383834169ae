import ObjectLisp.Session
import ObjectLisp.Text.Blank

/-!
# The command line

The command evaluates files and expressions in the order in which they are
given.  Without any it reads lines, evaluates the forms on them as soon as they
are complete, and prints each value; the last three values are kept in the
variables `*1*`, `*2*` and `*3*`.
-/

namespace ObjectLisp.CommandLine

/-- Something to be done. -/
inductive Task where
  | file (path : String)
  | expression (text : String)
deriving Repr, DecidableEq

/-- What the arguments ask for. -/
structure Invocation where
  loadPrelude : Bool := true
  /-- The tasks in order. -/
  tasks : List Task := []
deriving Repr, DecidableEq

/-- Understand the arguments.  Asking for help, an unknown option and an option without its
expression are not understood. -/
def parse? (invocation : Invocation) : List String → Option Invocation
  | [] => some { invocation with tasks := invocation.tasks.reverse }
  | "--no-prelude" :: rest => parse? { invocation with loadPrelude := false } rest
  | ["-e"] => none
  | "-e" :: text :: rest =>
      parse? { invocation with tasks := .expression text :: invocation.tasks } rest
  | argument :: rest =>
      if argument.toList.head? = some '-' then none
      else parse? { invocation with tasks := .file argument :: invocation.tasks } rest

/-- How the command is used. -/
def usage : String := "usage: dynlisp [--no-prelude] [-e EXPR]... [FILE]\n"

/-- What the command greets with when it reads lines. -/
def banner : String := "dynlisp v0.3.0\nType (quit) or Ctrl-D to exit\n\n"

/-- An interpreter as the command sets it up. -/
def interpreter (invocation : Invocation) (files : Files) : Interp :=
  { Interp.start { loadPrelude := invocation.loadPrelude } .initial with files }

/-- What an interpreter has written, and the interpreter without it. -/
def takeOutput (interp : Interp) : String × Interp := (interp.output, { interp with output := "" })

/-- The report on an evaluation that stopped. -/
def report (interp : Interp) : Stop → String
  | .failure failure => interp.describe failure ++ "\n"
  | .spent => "error: out of fuel\n"

/-! ## Tasks -/

/-- The end of a task: the interpreter, what goes to the output, and the report if it failed. -/
structure TaskEnd where
  interp : Interp
  output : String
  error? : Option String := none

/-- Perform a task.  The value of an expression is printed. -/
def perform (interp : Interp) (task : Task) : TaskEnd :=
  let action := match task with
    | .file path => Session.load path
    | .expression text => Session.eval text
  match action interp with
  | .ok value interp =>
      let (output, interp) := takeOutput interp
      match task with
      | .file _ => { interp, output }
      | .expression _ => { interp, output := output ++ interp.print true value ++ "\n" }
  | .error stop interp =>
      let (output, interp) := takeOutput interp
      { interp, output, error? := some (report interp stop) }

/-- What a run of the command leaves. -/
structure Result where
  code : Nat
  output : String
  error : String
deriving Repr, DecidableEq

/-- Perform tasks until one fails. -/
def performAll (interp : Interp) (written : String) : List Task → Result
  | [] => ⟨0, written, ""⟩
  | task :: tasks =>
      let done := perform interp task
      match done.error? with
      | some error => ⟨1, written ++ done.output, error⟩
      | none => performAll done.interp (written ++ done.output) tasks

/-! ## Lines -/

/-- The interactive loop between two lines. -/
structure Loop where
  interp : Interp
  /-- The lines of a form that is not complete yet. -/
  pending : String := ""

/-- The value of a global variable, or null. -/
def valueNamed (interp : Interp) (name : String) : Value := (Session.global? interp name).getD .null

/-- Set a global variable, if that is possible. -/
def remember (interp : Interp) (name : String) (value : Value) : Interp :=
  match Session.define name value interp with
  | .ok _ interp => interp
  | .error _ interp => interp

/-- Keep a value as the latest one. -/
def keepValue (interp : Interp) (value : Value) : Interp :=
  let second := valueNamed interp "*1*"
  let third := valueNamed interp "*2*"
  remember (remember (remember interp "*1*" value) "*2*" second) "*3*" third

/-- The loop at its start. -/
def Loop.start (interp : Interp) : Loop :=
  ⟨remember (remember (remember interp "*1*" .null) "*2*" .null) "*3*" .null, ""⟩

/-- Evaluate complete forms; the loop afterwards and what is printed. -/
def evalPending (interp : Interp) (text : String) : Loop × String :=
  match Session.eval text interp with
  | .ok value interp =>
      let (output, interp) := takeOutput interp
      let printed := interp.print true value
      (⟨keepValue interp value, ""⟩, output ++ printed ++ "\n")
  | .error stop interp =>
      let (output, interp) := takeOutput interp
      (⟨interp, ""⟩, output ++ report interp stop)

/-- Does reading stop inside a datum? -/
def isUnfinished : Stop → Bool
  | .failure failure => failure.cause.isUnfinished
  | .spent => false

/-- Take a line.  Forms are evaluated once the lines so far do not end inside a datum.  The data
that are read to see this are dropped. -/
def Loop.addLine (state : Loop) (line : String) : Loop × String :=
  let text := state.pending ++ line ++ "\n"
  match Session.readData text state.interp with
  | .ok _ interp => evalPending interp text
  | .error stop interp =>
      if isUnfinished stop then (⟨interp, text⟩, "") else (⟨interp, ""⟩, report interp stop)

/-- Does a line end the loop? -/
def isQuit (line : String) : Bool :=
  let trimmed := Text.trim line
  trimmed = "(quit)" || trimmed = "(exit)"

/-- What a line does: end the loop, or go on after printing something. -/
def Loop.step (state : Loop) (line : String) : Option (Loop × String) :=
  if state.pending = "" then
    if isQuit line then none
    else if Text.trim line = "" then some (state, "")
    else some (state.addLine line)
  else some (state.addLine line)

/-- What is printed at the end of the loop when a line asked for it. -/
def farewell : String := "Goodbye!\n"

/-- Take all lines; what is printed. -/
def Loop.run (state : Loop) (written : String) : List String → String
  | [] => written
  | line :: lines =>
      match state.step line with
      | none => written ++ farewell
      | some (state, printed) => state.run (written ++ printed) lines

/-- Drop a carriage return at the end of a line, given in reverse. -/
def dropReturn : List Char → List Char
  | '\r' :: rest => rest
  | chars => chars

/-- Split a text into lines; `current` is the line so far in reverse.  A last line need not be
ended. -/
def splitLines (current : List Char) : List Char → List String
  | [] => if current.isEmpty then [] else [String.ofList current.reverse]
  | c :: rest =>
      if c = '\n' then String.ofList (dropReturn current).reverse :: splitLines [] rest
      else splitLines (c :: current) rest

/-- The lines of a text. -/
def lines (text : String) : List String := splitLines [] text.toList

/-! ## The command -/

/-- Run the command on arguments, input and files. -/
def run (arguments : List String) (input : String) (files : Files) : Result :=
  match parse? {} arguments with
  | none => ⟨2, "", usage⟩
  | some invocation =>
      let interp := interpreter invocation files
      if invocation.tasks.isEmpty then
        ⟨0, (Loop.start interp).run banner (lines input), ""⟩
      else
        performAll interp "" invocation.tasks

end ObjectLisp.CommandLine
