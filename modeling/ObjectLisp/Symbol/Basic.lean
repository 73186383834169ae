/-!
# Symbols

A symbol is a name with a home package.  Interpreters compare symbols by their
number in the symbol store, never by name, so the record here is what the store
keeps about each number.
-/

namespace ObjectLisp

/-- Number of a symbol in its store. -/
abbrev SymbolId := Nat

/-- Number of a package in its store. -/
abbrev PackageId := Nat

/-- The package of self-evaluating names. -/
def PackageId.keyword : PackageId := 0

/-- The package of the language's own names. -/
def PackageId.system : PackageId := 1

/-- The package in which programs start. -/
def PackageId.user : PackageId := 2

/-- What may be done with the global value of a symbol. -/
inductive SymbolKind where
  /-- May be assigned. -/
  | plain
  /-- Fixed by its definition. -/
  | constant
  /-- Stands for itself. -/
  | keyword
deriving Repr, DecidableEq, Inhabited

/-- What the store knows about a symbol. -/
structure Symbol where
  name : String
  /-- The package that owns the symbol; an uninterned symbol has none. -/
  home : Option PackageId
  kind : SymbolKind
  /-- Bound on the dynamic stack and not in lexical frames. -/
  dynamic : Bool
deriving Repr, DecidableEq, Inhabited

/-- Why a name cannot be given a value, or has none. -/
inductive BindingProblem where
  | unbound (name : String)
  | constantAssignment (name : String)
  | keywordAssignment (name : String)
  | duplicateConstant (name : String)
deriving Repr, DecidableEq

/-- The wording of a problem. -/
def BindingProblem.message : BindingProblem → String
  | unbound name => "unbound variable '" ++ name ++ "'"
  | constantAssignment name => "cannot assign to constant '" ++ name ++ "'"
  | keywordAssignment name => "cannot assign to keyword ':" ++ name ++ "'"
  | duplicateConstant name => "constant '" ++ name ++ "' is already defined"

namespace Symbol

/-- A leading star marks a dynamic variable, unless a second star follows it or nothing does. -/
def isDynamicName (name : String) : Bool :=
  match name.toList with
  | '*' :: next :: _ => next ≠ '*'
  | _ => false

/-- The parts of `package@name`.  A mark at either end of the name does not qualify it. -/
def splitQualified? (name : String) : Option (String × String) :=
  let package := name.toList.takeWhile (· ≠ '@')
  let plain := (name.toList.dropWhile (· ≠ '@')).tail
  if package.isEmpty || plain.isEmpty then none
  else some (String.ofList package, String.ofList plain)

/-- The member that an accessor name such as `.size` stands for.  A second dot or a missing name
leaves an ordinary symbol. -/
def memberName? (name : String) : Option String :=
  match name.toList with
  | '.' :: first :: rest => if first = '.' then none else some (String.ofList (first :: rest))
  | _ => none

/-- The record of a new symbol.  Names of the keyword package are keywords; of the others, the
starred ones are dynamic. -/
def fresh (name : String) (home : Option PackageId) : Symbol :=
  let kind := if home = some PackageId.keyword then SymbolKind.keyword else SymbolKind.plain
  { name, home, kind, dynamic := kind = .plain && isDynamicName name }

end Symbol

end ObjectLisp
