import ObjectLisp.Expr
import ObjectLisp.Symbol.Store

/-!
# Expressions as text

A text that shows the structure of an expression: every kind of expression in
parentheses with a word in front, addresses of slots, and the lines of calls.
-/

namespace ObjectLisp

/-- How names and literals are written in the text of an expression. -/
structure ExprStyle where
  symbols : SymbolStore
  /-- The text of a literal. -/
  literal : Value → String

namespace Expr

variable (style : ExprStyle)

/-- A word and its parts in parentheses. -/
def inParens (word : String) (parts : List String) : String :=
  "(" ++ " ".intercalate (word :: parts) ++ ")"

/-- Parts in parentheses. -/
def listText (parts : List String) : String := "(" ++ " ".intercalate parts ++ ")"

/-- A word with the line of a call. -/
def wordAt (word : String) : Option SourceLoc → String
  | some loc => word ++ "@" ++ toString loc.line
  | none => word

/-- The word for a section of a parameter list. -/
def kindText : ParamKind → String
  | .required => "req"
  | .optional => "opt"
  | .keyword => "key"
  | .rest => "rest"

/-- The word for a kind of method. -/
def qualifierText : Qualifier → String
  | .primary => "Primary"
  | .before => "Before"
  | .after => "After"
  | .around => "Around"

/-- The word for a way to build data. -/
def constructionText : Construction → String
  | .list => "make-list"
  | .append => "make-append"
  | .vector => "make-vector"

mutual

/-- The text of an expression. -/
def text : Expr → String
  | literal value => inParens "lit" [style.literal value]
  | local_ address name =>
      inParens "local"
        [toString address.level, toString address.index, style.symbols.nameOf name]
  | global name => inParens "global" [style.symbols.nameOf name]
  | dynamic name => inParens "dynamic" [style.symbols.nameOf name]
  | if_ test yes no => inParens "if" [text test, text yes, text no]
  | or parts => inParens "or" (texts parts)
  | and parts => inParens "and" (texts parts)
  | block parts => inParens "block" (texts parts)
  | while_ test body => inParens "while" [text test, text body]
  | lambda template => inParens "lambda" [templateText template]
  | defMacro name template =>
      inParens "defmacro" [style.symbols.nameOf name, templateText template]
  | def_ name value => inParens "def" [style.symbols.nameOf name, text value]
  | defConstant name value => inParens "defconstant" [style.symbols.nameOf name, text value]
  | setLocal address value =>
      inParens "set-local" [toString address.level, toString address.index, text value]
  | setGlobal name value => inParens "set-global" [style.symbols.nameOf name, text value]
  | setDynamic name value => inParens "set-dynamic" [style.symbols.nameOf name, text value]
  | setMember name object value loc =>
      inParens (wordAt "set-member" loc) [name, text object, text value]
  | dynamicLet bindings body =>
      inParens "dynamic-let" [listText (bindingTexts bindings), text body]
  | let_ inits body => inParens "let" [listText (texts inits), text body]
  | apply callee arguments loc => inParens (wordAt "apply" loc) (text callee :: texts arguments)
  | member name object arguments loc =>
      inParens (wordAt "member" loc) (name :: text object :: texts arguments)
  | callNext next none loc => inParens (wordAt "call-next" loc) [text next]
  | callNext next (some arguments) loc =>
      inParens (wordAt "call-next-with" loc) (text next :: texts arguments)
  | hasNext next => inParens "next-method-p" [text next]
  | construct construction parts => inParens (constructionText construction) (texts parts)
  | defClass name parents slots =>
      inParens "defclass"
        [style.symbols.nameOf name, listText (texts parents), listText (slotTexts slots)]
  | defBehavior target name qualifier method =>
      inParens "defbehavior"
        [text target, name, qualifierText qualifier, templateText method]

/-- The texts of expressions. -/
def texts : List Expr → List String
  | [] => []
  | expr :: exprs => text expr :: texts exprs

/-- The texts of dynamic bindings. -/
def bindingTexts : List (SymbolId × Expr) → List String
  | [] => []
  | (name, init) :: bindings =>
      listText [style.symbols.nameOf name, text init] :: bindingTexts bindings

/-- The text of a function: its name, argument counts, parameters and body. -/
def templateText : Template Expr → String
  | ⟨name, ⟨params⟩, body⟩ =>
      " ".intercalate
        [(name.map style.symbols.nameOf).getD "-",
          "<" ++ (Params.mk params).arity.text ++ ">", listText (paramTexts params), text body]

/-- The texts of parameters. -/
def paramTexts : List (Param Expr) → List String
  | [] => []
  | ⟨name, kind, init, _⟩ :: params =>
      (kindText kind ++ ":" ++ style.symbols.nameOf name ++ initText init) :: paramTexts params

/-- The text of a default. -/
def initText : Option Expr → String
  | some init => "=" ++ text init
  | none => ""

/-- The texts of slots. -/
def slotTexts : List (String × SlotInit Expr) → List String
  | [] => []
  | (name, .constant value) :: slots =>
      listText [name, "const", style.literal value] :: slotTexts slots
  | (name, .computed template) :: slots =>
      listText [name, "computed", templateText template] :: slotTexts slots

end

end Expr

end ObjectLisp
