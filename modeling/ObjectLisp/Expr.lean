import ObjectLisp.SourceLoc
import ObjectLisp.Value.Basic
import ObjectLisp.Scope
import ObjectLisp.MethodChain

/-!
# Expressions

What analysis makes of a form.  Names are resolved to addresses, dynamic or
global variables, and macros are gone.
-/

namespace ObjectLisp

universe u

/-- The section of a parameter list that a parameter stands in. -/
inductive ParamKind where
  | required
  | optional
  | keyword
  | rest
deriving Repr, DecidableEq, Inhabited

namespace ParamKind

/-- Position of a section in a parameter list. -/
def rank : ParamKind → Nat
  | required => 0
  | optional => 1
  | keyword => 2
  | rest => 3

end ParamKind

/-- A parameter with its default of type `ε`. -/
structure Param (ε : Type u) where
  name : SymbolId
  kind : ParamKind
  /-- Used where the call gives no value. -/
  init : Option ε := none
  /-- The keyword that announces the value of a keyword parameter. -/
  keyword : Option SymbolId := none
deriving Repr, Inhabited

/-- The parameters of a function in the order of their slots. -/
structure Params (ε : Type u) where
  list : List (Param ε) := []
deriving Repr, Inhabited

namespace Params

variable {ε : Type u}

/-- Number of parameters of a kind. -/
def count (params : Params ε) (kind : ParamKind) : Nat :=
  params.list.countP (·.kind = kind)

/-- Number of parameters that must be given. -/
def required (params : Params ε) : Nat := params.count .required

/-- Number of parameters that may be given by position. -/
def optional (params : Params ε) : Nat := params.count .optional

/-- Number of parameters given by keyword. -/
def keywords (params : Params ε) : Nat := params.count .keyword

/-- Is there a parameter that takes the remaining arguments? -/
def hasRest (params : Params ε) : Bool := params.list.any (·.kind = .rest)

/-- Are all parameters required? -/
def isSimple (params : Params ε) : Bool := params.list.all (·.kind = .required)

/-- Can there be more arguments than positional parameters? -/
def isOpen (params : Params ε) : Bool := params.hasRest || 0 < params.keywords

/-- The names of the slots. -/
def names (params : Params ε) : List SymbolId := params.list.map (·.name)

/-- The accepted argument counts. -/
def arity (params : Params ε) : Arity :=
  if params.isOpen then .atLeast params.required
  else if 0 < params.optional then .range params.required (params.required + params.optional)
  else .exact params.required

end Params

/-- A function without the frame it is made in. -/
structure Template (ε : Type u) where
  name : Option SymbolId
  params : Params ε
  body : ε
deriving Repr, Inhabited

/-- The default of a slot as written in a class definition. -/
inductive SlotInit (ε : Type u) where
  | constant (value : Value)
  /-- A function without parameters that computes it. -/
  | computed (template : Template ε)
deriving Repr, Inhabited

/-- How a data structure is built from parts. -/
inductive Construction where
  | list
  /-- Join lists; the last part becomes the tail. -/
  | append
  /-- Turn a list into a vector. -/
  | vector
deriving Repr, DecidableEq, Inhabited

/-- An analysed form. -/
inductive Expr where
  | literal (value : Value)
  | local_ (address : Address) (name : SymbolId)
  | global (name : SymbolId)
  | dynamic (name : SymbolId)
  | if_ (test yes no : Expr)
  | or (parts : List Expr)
  | and (parts : List Expr)
  | block (parts : List Expr)
  | while_ (test body : Expr)
  | lambda (template : Template Expr)
  | defMacro (name : SymbolId) (template : Template Expr)
  | def_ (name : SymbolId) (value : Expr)
  | defConstant (name : SymbolId) (value : Expr)
  | setLocal (address : Address) (value : Expr)
  | setGlobal (name : SymbolId) (value : Expr)
  | setDynamic (name : SymbolId) (value : Expr)
  | setMember (name : String) (object value : Expr) (loc : Option SourceLoc)
  | dynamicLet (bindings : List (SymbolId × Expr)) (body : Expr)
  | let_ (inits : List Expr) (body : Expr)
  | apply (callee : Expr) (arguments : List Expr) (loc : Option SourceLoc)
  | member (name : String) (object : Expr) (arguments : List Expr) (loc : Option SourceLoc)
  /-- Call the next method, with the arguments of this call if none are given. -/
  | callNext (next : Expr) (arguments : Option (List Expr)) (loc : Option SourceLoc)
  | hasNext (next : Expr)
  | construct (construction : Construction) (parts : List Expr)
  | defClass (name : SymbolId) (parents : List Expr) (slots : List (String × SlotInit Expr))
  | defBehavior (target : Expr) (name : String) (qualifier : Qualifier)
      (method : Template Expr)
deriving Inhabited

end ObjectLisp
