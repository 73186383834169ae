import ObjectLisp.Number.Decimal
import ObjectLisp.Symbol.Store
import ObjectLisp.Datum
import ObjectLisp.SourceLoc

/-!
# Tokens

A token is a run of characters up to a delimiter.  It is, in this order, an
integer, a float, a chain of member accesses such as `point.x`, a keyword, or a
symbol of the current package or of the one it names.

Reading a symbol may intern it, so every function here works on the symbol
store and keeps what it interned also when it fails.
-/

namespace ObjectLisp

/-- What can be wrong with a text. -/
inductive SyntaxProblem where
  | unmatchedDelimiter (c : Char)
  | unexpectedEnd
  | malformedEscape (c : Char)
  | unknownPackage (name : String)
  | unknownDispatch (c : Char)
  | unexpectedChar (c : Char)
deriving Repr, DecidableEq

/-- The wording of a problem. -/
def SyntaxProblem.message : SyntaxProblem → String
  | unmatchedDelimiter c => "unmatched closing delimiter '" ++ c.toString ++ "'"
  | unexpectedEnd => "unexpected end of input"
  | malformedEscape c => "malformed escape sequence '\\" ++ c.toString ++ "'"
  | unknownPackage name => "unknown package '" ++ name ++ "'"
  | unknownDispatch c => "unknown dispatch macro '#" ++ c.toString ++ "'"
  | unexpectedChar c => "unexpected character '" ++ c.toString ++ "'"

/-- A problem with the place where the reader noticed it. -/
structure SyntaxError where
  loc : SourceLoc
  problem : SyntaxProblem
deriving Repr, DecidableEq

/-- The wording of a problem with its place. -/
def SyntaxError.message (error : SyntaxError) : String :=
  error.loc.text ++ ": " ++ error.problem.message

namespace Token

/-- A computation that may intern symbols. -/
abbrev Interning := EStateM SyntaxProblem SymbolStore

/-- Intern a name as it is written. -/
def intern (package : PackageId) (name : List Char) : Interning Datum := fun symbols =>
  match symbols.intern (String.ofList name) package with
  | .ok (symbol, symbols) => .ok (.symbol symbol) symbols
  | .error missing => .error (.unknownPackage missing) symbols

/-- The name of the keyword that a token writes: a colon alone is none. -/
def keywordName? : List Char → Option (List Char)
  | ':' :: first :: rest => some (first :: rest)
  | _ => none

/-- A keyword, or a symbol interned as it is written. -/
def symbol (package : PackageId) (token : List Char) : Interning Datum := fun symbols =>
  match keywordName? token with
  | some name =>
      let (keyword, symbols) := symbols.internKeyword (String.ofList name)
      .ok (.symbol keyword) symbols
  | none => intern package token symbols

/-- The parts of a token between its dots. -/
def splitDots : List Char → List (List Char)
  | [] => [[]]
  | c :: rest =>
      if c = '.' then [] :: splitDots rest
      else
        match splitDots rest with
        | [] => [[c]]
        | part :: parts => (c :: part) :: parts

/-- The parts of a chain of member accesses.  The token must have a dot but not start with a dot
or colon, and no part may be empty. -/
def memberParts? (token : List Char) : Option (List Char × List (List Char)) :=
  match token, splitDots token with
  | first :: _, part :: member :: members =>
      if first = '.' || first = ':' || (part :: member :: members).any List.isEmpty then none
      else some (part, member :: members)
  | _, _ => none

/-- Wrap a datum in one accessor form per member, innermost first. -/
def accessMembers (package : PackageId) (line : Nat) (datum : Datum) :
    List (List Char) → Interning Datum
  | [] => pure datum
  | member :: members => do
      let accessor ← symbol package ('.' :: member)
      accessMembers package line (.list (some line) [accessor, datum]) members

/-- The object at the start of a chain of member accesses. -/
def memberRoot (package : PackageId) (part : List Char) : Interning Datum :=
  match Integer.ofToken? part with
  | some value => pure (.int value)
  | none => symbol package part

/-- The datum written by a token that starts on `line`. -/
def read (package : PackageId) (line : Nat) (token : List Char) : Interning Datum :=
  match Integer.ofToken? token with
  | some value => pure (.int value)
  | none =>
      match Decimal.ofToken? token with
      | some value => pure (.float value)
      | none =>
          match memberParts? token with
          | some (part, members) => do
              let root ← memberRoot package part
              accessMembers package line root members
          | none => symbol package token

end Token

end ObjectLisp
