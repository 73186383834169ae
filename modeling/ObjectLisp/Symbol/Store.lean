import ObjectLisp.Assoc
import ObjectLisp.Graph.Preorder
import ObjectLisp.Symbol.Basic

/-!
# The symbol store

Symbols are interned per package.  A package owns two tables, one for internal
and one for exported names, and inherits the exported names of the packages it
uses.  A lookup takes the package's own entry first and then the first exported
entry in depth-first order of the use lists, which may form cycles and may name
packages that do not exist.

Interning returns what the lookup finds and makes a new symbol otherwise, so a
name denotes one symbol per package.
-/

namespace ObjectLisp

/-- A namespace of interned symbols. -/
structure Package where
  name : String
  /-- Names that only this package sees. -/
  internal : Assoc String SymbolId := {}
  /-- Names that packages using this one see as well. -/
  external : Assoc String SymbolId := {}
  /-- The packages whose exported names are inherited. -/
  uses : List PackageId := []
deriving Repr, Inhabited

namespace Package

/-- The package's own entry of a name. -/
def present? (package : Package) (name : String) : Option SymbolId :=
  (package.internal.find? name).or (package.external.find? name)

/-- Move a name to the exported table. -/
def exporting (package : Package) (name : String) (symbol : SymbolId) : Package :=
  { package with
    internal := package.internal.erase name
    external := package.external.insert name symbol }

end Package

/-- All symbols and packages, by number. -/
structure SymbolStore where
  symbols : Array Symbol := #[]
  packages : Array Package := #[]
deriving Repr, Inhabited

namespace SymbolStore

/-! ## Packages -/

/-- The package of a given name. -/
def findPackage? (store : SymbolStore) (name : String) : Option PackageId :=
  store.packages.findIdx? (·.name == name)

/-- The package of a given name, made if there is none. -/
def addPackage (store : SymbolStore) (name : String) : PackageId × SymbolStore :=
  match store.findPackage? name with
  | some package => (package, store)
  | none => (store.packages.size, { store with packages := store.packages.push { name } })

/-- The name of a package. -/
def packageName? (store : SymbolStore) (package : PackageId) : Option String :=
  store.packages[package]?.map (·.name)

/-- The use list of a package.  Packages that do not exist use none. -/
def uses (store : SymbolStore) (package : PackageId) : List PackageId :=
  match store.packages[package]? with
  | some found => found.uses
  | none => []

/-- Let one package inherit from another.  A package does not use itself, and uses another
only once. -/
def usePackage (store : SymbolStore) (package used : PackageId) : SymbolStore :=
  if package = used then store
  else
    { store with
      packages := store.packages.modify package fun found =>
        if used ∈ found.uses then found else { found with uses := found.uses ++ [used] } }

/-- Number of entries of all use lists. -/
def useCount (store : SymbolStore) : Nat :=
  (store.packages.toList.flatMap (·.uses)).length

/-- The packages inherited by `package`, in the order in which they are searched. -/
def inherited (store : SymbolStore) (package : PackageId) : List PackageId :=
  (Graph.preorder store.uses store.useCount package).tail

/-! ## Lookup -/

/-- The package's own entry of a name, internal before exported. -/
def present? (store : SymbolStore) (name : String) (package : PackageId) : Option SymbolId :=
  store.packages[package]?.bind (·.present? name)

/-- The package's exported entry of a name. -/
def external? (store : SymbolStore) (name : String) (package : PackageId) : Option SymbolId :=
  store.packages[package]?.bind (·.external.find? name)

/-- The symbol that a name denotes in a package. -/
def find? (store : SymbolStore) (name : String) (package : PackageId) : Option SymbolId :=
  match store.present? name package with
  | some symbol => some symbol
  | none => (store.inherited package).findSome? (store.external? name)

/-- The symbols that a package exports, by number. -/
def externals (store : SymbolStore) (package : PackageId) : List SymbolId :=
  match store.packages[package]? with
  | some found => found.external.values.mergeSort
  | none => []

/-! ## Symbol records -/

/-- The record of a symbol. -/
def symbol? (store : SymbolStore) (symbol : SymbolId) : Option Symbol :=
  store.symbols[symbol]?

/-- The name of a symbol. -/
def nameOf (store : SymbolStore) (symbol : SymbolId) : String :=
  match store.symbols[symbol]? with
  | some found => found.name
  | none => "#<invalid-symbol>"

/-- The home package of a symbol. -/
def homeOf (store : SymbolStore) (symbol : SymbolId) : Option PackageId :=
  store.symbols[symbol]?.bind (·.home)

/-- The kind of a symbol; unknown ones count as plain. -/
def kindOf (store : SymbolStore) (symbol : SymbolId) : SymbolKind :=
  match store.symbols[symbol]? with
  | some found => found.kind
  | none => .plain

/-- Is the symbol a dynamic variable? -/
def isDynamic (store : SymbolStore) (symbol : SymbolId) : Bool :=
  match store.symbols[symbol]? with
  | some found => found.dynamic
  | none => false

/-- Is the symbol a keyword? -/
def isKeyword (store : SymbolStore) (symbol : SymbolId) : Bool :=
  store.kindOf symbol = .keyword

/-- Number of symbols made so far. -/
def count (store : SymbolStore) : Nat := store.symbols.size

/-! ## Making symbols -/

/-- A new symbol that no package owns. -/
def makeUninterned (store : SymbolStore) (name : String) : SymbolId × SymbolStore :=
  (store.symbols.size, { store with symbols := store.symbols.push (.fresh name none) })

/-- A new symbol entered into the package that owns it.  Keywords are exported at once. -/
def makeInterned (store : SymbolStore) (name : String) (package : PackageId) :
    SymbolId × SymbolStore :=
  let symbol := store.symbols.size
  (symbol,
    { symbols := store.symbols.push (.fresh name (some package))
      packages := store.packages.modify package fun found =>
        if package = PackageId.keyword then
          { found with external := found.external.insert name symbol }
        else
          { found with internal := found.internal.insert name symbol } })

/-- The symbol that a name denotes in a package, made there if there is none.  A package that
does not exist gets an uninterned symbol. -/
def internIn (store : SymbolStore) (name : String) (package : PackageId) :
    SymbolId × SymbolStore :=
  if package < store.packages.size then
    match store.find? name package with
    | some symbol => (symbol, store)
    | none => store.makeInterned name package
  else store.makeUninterned name

/-- The keyword of a given name. -/
def internKeyword (store : SymbolStore) (name : String) : SymbolId × SymbolStore :=
  store.internIn name PackageId.keyword

/-- Intern a name as written: `package@name` goes to the package it mentions, any other name to
the current one.  Fails with the name of a package that does not exist. -/
def intern (store : SymbolStore) (name : String) (current : PackageId) :
    Except String (SymbolId × SymbolStore) :=
  match Symbol.splitQualified? name with
  | none => .ok (store.internIn name current)
  | some (package, plain) =>
      match store.findPackage? package with
      | some package => .ok (store.internIn plain package)
      | none => .error package

/-! ## Exports and constants -/

/-- Export a symbol from its home package. -/
def exportSymbol (store : SymbolStore) (symbol : SymbolId) : SymbolStore :=
  match store.symbols[symbol]? with
  | some { name, home := some package, .. } =>
      { store with packages := store.packages.modify package (·.exporting name symbol) }
  | _ => store

/-- Intern a name in a package and export it, unless it is inherited. -/
def exportName (store : SymbolStore) (package : PackageId) (name : String) :
    SymbolId × SymbolStore :=
  let (symbol, store) := store.internIn name package
  if store.homeOf symbol = some package then (symbol, store.exportSymbol symbol)
  else (symbol, store)

/-- Intern and export several names from left to right. -/
def exportNames (store : SymbolStore) (package : PackageId) :
    List String → List SymbolId × SymbolStore
  | [] => ([], store)
  | name :: names =>
      let (symbol, store) := store.exportName package name
      let (symbols, store) := store.exportNames package names
      (symbol :: symbols, store)

/-- Fix the value of a symbol.  Only a plain symbol can become a constant; a constant is never
dynamic. -/
def makeConstant (store : SymbolStore) (symbol : SymbolId) : Except BindingProblem SymbolStore :=
  match store.symbols[symbol]? with
  | none => .ok store
  | some found =>
      match found.kind with
      | .constant => .error (.duplicateConstant found.name)
      | .keyword => .error (.keywordAssignment found.name)
      | .plain =>
          .ok { store with
            symbols := store.symbols.modify symbol fun plain =>
              { plain with kind := .constant, dynamic := false } }

/-- Why the global value of a symbol may not be changed, if it may not. -/
def assignmentProblem? (store : SymbolStore) (symbol : SymbolId) : Option BindingProblem :=
  match store.symbols[symbol]? with
  | none => none
  | some found =>
      match found.kind with
      | .constant => some (.constantAssignment found.name)
      | .keyword => some (.keywordAssignment found.name)
      | .plain => none

/-- The store every interpreter starts from: packages `keyword`, `system` and `user`, of which
the last uses the second. -/
def initial : SymbolStore :=
  { packages := #[{ name := "keyword" }, { name := "system" },
      { name := "user", uses := [PackageId.system] }] }

end SymbolStore

end ObjectLisp
