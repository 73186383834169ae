/-!
# Text templates

A template is a text in which a tilde starts a directive: `~a` and `~s` take
the next argument, written plainly or readably, `~d` writes like `~s`, `~%`
ends a line and `~~` is a tilde.  Anything else after a tilde stays as it is.
-/

namespace ObjectLisp.Template

universe u

/-- A piece of a template. -/
inductive Piece where
  | text (c : Char)
  /-- The next argument, readable or plain. -/
  | argument (escape : Bool)
deriving Repr, DecidableEq

/-- What follows a tilde. -/
def directive : Char → List Piece
  | 'a' | 'A' => [.argument false]
  | 's' | 'S' | 'd' | 'D' => [.argument true]
  | '%' => [.text '\n']
  | '~' => [.text '~']
  | other => [.text '~', .text other]

/-- The pieces of a template.  A tilde at the end stands for itself. -/
def pieces : List Char → List Piece
  | [] => []
  | ['~'] => [.text '~']
  | '~' :: c :: rest => directive c ++ pieces rest
  | c :: rest => .text c :: pieces rest

variable {α : Type u}

/-- Fill in the arguments from left to right.  Directives without an argument write nothing, and
arguments that are left over are not used. -/
def fill (write : (escape : Bool) → α → List Char) : List Piece → List α → List Char
  | [], _ => []
  | .text c :: rest, arguments => c :: fill write rest arguments
  | .argument _ :: rest, [] => fill write rest []
  | .argument escape :: rest, argument :: arguments =>
      write escape argument ++ fill write rest arguments

/-- The text of a template with its arguments. -/
def format (write : (escape : Bool) → α → String) (control : String) (arguments : List α) :
    String :=
  String.ofList
    (fill (fun escape argument => (write escape argument).toList) (pieces control.toList)
      arguments)

end ObjectLisp.Template
