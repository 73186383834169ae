import ObjectLisp.CommandLine

/-!
# The program

Reads arguments, lines and files, and writes what the command line says.  A
step that asks for files which the interpreter does not have is taken again
from the same state once they have been read.
-/

namespace ObjectLisp.Main

open CommandLine

/-- Read a file, if that is possible. -/
def readFile? (path : String) : IO (Option String) :=
  try
    return some (← IO.FS.readFile path)
  catch _ =>
    return none

/-- Provide the files among paths that can be read; were there any? -/
def provideAll (files : Files) : List String → IO (Files × Bool)
  | [] => return (files, false)
  | path :: paths => do
      match ← readFile? path with
      | some text =>
          let (files, _) ← provideAll (files.provide path text) paths
          return (files, true)
      | none => provideAll files paths

/-- Take a step with all files that it asks for. -/
partial def withFiles {α : Type} (interp : Interp) (step : Interp → α) (after : α → Interp) :
    IO α := do
  let interp := { interp with files.asked := [] }
  let result := step interp
  let (files, more) ← provideAll interp.files (after result).files.asked
  if more then withFiles { interp with files } step after else return result

/-- Perform tasks until one fails; the exit code. -/
def performAll (interp : Interp) : List Task → IO UInt32
  | [] => return 0
  | task :: tasks => do
      let done ← withFiles interp (perform · task) TaskEnd.interp
      IO.print done.output
      match done.error? with
      | some error =>
          IO.eprint error
          return 1
      | none => performAll done.interp tasks

/-- Take lines until one ends the loop or there are no more. -/
partial def readLines (input : IO.FS.Stream) (state : Loop) : IO Unit := do
  let text ← input.getLine
  match lines text with
  | [] => return
  | line :: _ =>
      let next ← withFiles state.interp (fun interp => { state with interp }.step line)
        fun next => (next.map fun (state, _) => state.interp).getD state.interp
      match next with
      | none => IO.print farewell
      | some (state, printed) =>
          IO.print printed
          readLines input state

/-- Run the command. -/
def run (arguments : List String) : IO UInt32 := do
  match parse? {} arguments with
  | none =>
      IO.eprint usage
      return 2
  | some invocation =>
      let interp := interpreter invocation {}
      if invocation.tasks.isEmpty then
        IO.print banner
        readLines (← IO.getStdin) (Loop.start interp)
        return 0
      else
        performAll interp invocation.tasks

end ObjectLisp.Main

def main (arguments : List String) : IO UInt32 := ObjectLisp.Main.run arguments
