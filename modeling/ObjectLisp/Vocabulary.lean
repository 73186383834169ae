import ObjectLisp.LambdaList

/-!
# The words of the language

The symbols that analysis knows: the special forms, the section markers of
parameter lists and the qualifiers of methods.  They are interned in the
package `system` when an interpreter is made.
-/

namespace ObjectLisp

/-- A form with a meaning of its own. -/
inductive SpecialForm where
  | quote
  | quasiquote
  | unquote
  | unquoteSplicing
  | if_
  | or
  | and
  | block
  | while_
  | lambda
  | defMacro
  | set
  | dynamicLet
  | let_
  | def_
  | defConstant
  | callNextMethod
  | hasNextMethod
  | defClass
  | defBehavior
deriving Repr, DecidableEq, Inhabited

namespace SpecialForm

/-- The name of a special form. -/
def name : SpecialForm → String
  | quote => "quote"
  | quasiquote => "quasiquote"
  | unquote => "unquote"
  | unquoteSplicing => "unquote-splicing"
  | if_ => "if"
  | or => "or"
  | and => "and"
  | block => "block"
  | while_ => "while"
  | lambda => "lambda"
  | defMacro => "defmacro"
  | set => "set!"
  | dynamicLet => "dynamic-let"
  | let_ => "let"
  | def_ => "def"
  | defConstant => "defconstant"
  | callNextMethod => "call-next-method"
  | hasNextMethod => "next-method-p"
  | defClass => "defclass"
  | defBehavior => "defbehavior"

/-- All special forms in the order in which they are interned. -/
def all : List SpecialForm :=
  [quote, quasiquote, unquote, unquoteSplicing, if_, or, and, block, while_, lambda, defMacro,
    set, dynamicLet, let_, def_, defConstant, callNextMethod, hasNextMethod, defClass,
    defBehavior]

end SpecialForm

/-- The symbols that analysis knows. -/
structure Vocabulary where
  forms : Assoc SymbolId SpecialForm := {}
  markers : LambdaList.Markers := default
  /-- The hidden first parameter of methods. -/
  nextMethod : SymbolId := 0
  before : SymbolId := 0
  after : SymbolId := 0
  around : SymbolId := 0
deriving Inhabited

namespace Vocabulary

/-- The special form that a symbol names. -/
def form? (words : Vocabulary) (symbol : SymbolId) : Option SpecialForm := words.forms.find? symbol

/-- Intern a name in the package `system` and export it. -/
def internSystem (symbols : SymbolStore) (name : String) : SymbolId × SymbolStore :=
  let (symbol, symbols) := symbols.internIn name PackageId.system
  (symbol, symbols.exportSymbol symbol)

/-- Intern the names of special forms. -/
def internForms (symbols : SymbolStore) (forms : Assoc SymbolId SpecialForm) :
    List SpecialForm → Assoc SymbolId SpecialForm × SymbolStore
  | [] => (forms, symbols)
  | form :: rest =>
      let (symbol, symbols) := internSystem symbols form.name
      internForms symbols (forms.insert symbol form) rest

/-- Intern all words.  The hidden parameter of methods is not exported. -/
def install (symbols : SymbolStore) : Vocabulary × SymbolStore :=
  let (forms, symbols) := internForms symbols {} SpecialForm.all
  let (optional, symbols) := internSystem symbols "&optional"
  let (key, symbols) := internSystem symbols "&key"
  let (rest, symbols) := internSystem symbols "&rest"
  let (nextMethod, symbols) := symbols.internIn "%next-method" PackageId.system
  let (before, symbols) := symbols.internKeyword "before"
  let (after, symbols) := symbols.internKeyword "after"
  let (around, symbols) := symbols.internKeyword "around"
  ({ forms, markers := { optional, key, rest }, nextMethod, before, after, around }, symbols)

end Vocabulary

end ObjectLisp
