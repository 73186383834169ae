import ObjectLisp.Reader.Token
import ObjectLisp.Value.Basic

/-!
# Failures

What can go wrong is a cause, worded in one place.  A failure is a cause with
the calls that were left because of it, so that a backtrace can be shown.
-/

namespace ObjectLisp

/-- What can be wrong with a form. -/
inductive Malformed where
  | dottedList
  | memberWithoutObject (name : String)
  | quote
  | quasiquote
  | unquoteOutside
  | splicingOutside
  | conditional
  | loop
  | lambda
  | macroDefinition
  | definition
  | definitionName
  | assignment
  | assignmentTarget
  | dynamicLet
  | notDynamic (name : String)
  | let_
  | notLexical (name : String)
  | bindings
  | outsideBehavior (name : String)
  | classDefinition
  | classParents
  | classSlots
  | slot
  | behavior
  | behaviorQualifier
  | behaviorParameters
  | behaviorReceiver
  | parameterList
  | sectionOrder (name : String)
  | parameterDefault
  | parameter (found : String)
  | parameterName (name : String)
  | secondRest
  | missingRest
deriving Repr, DecidableEq

/-- The wording of what is wrong with a form. -/
def Malformed.message : Malformed → String
  | dottedList => "cannot evaluate a dotted list"
  | memberWithoutObject name => name ++ " needs an object"
  | quote => "quote takes exactly one form"
  | quasiquote => "quasiquote takes exactly one form"
  | unquoteOutside => "unquote outside of quasiquote"
  | splicingOutside => ",@ is only allowed inside a list"
  | conditional => "if takes a test, a then branch and an optional else branch"
  | loop => "while needs a test"
  | lambda => "lambda needs a parameter list"
  | macroDefinition => "defmacro needs a name and a parameter list"
  | definition => "definition takes a name and one value"
  | definitionName => "definition name must be a symbol"
  | assignment => "set! takes a target and a value"
  | assignmentTarget => "set! target must be a symbol or a member access"
  | dynamicLet => "dynamic-let needs a binding list"
  | notDynamic name => "dynamic-let binds dynamic variables like *" ++ name ++ "*"
  | let_ => "let needs a binding list"
  | notLexical name => name ++ " is a dynamic variable; bind it with dynamic-let"
  | bindings => "malformed binding list"
  | outsideBehavior name => name ++ " outside of a behavior"
  | classDefinition => "defclass takes a name, a parent list and a slot list"
  | classParents => "defclass parents must be a list"
  | classSlots => "defclass slots must be a list"
  | slot => "malformed slot specification"
  | behavior => "defbehavior takes a class, a name and a parameter list"
  | behaviorQualifier => "behavior qualifier must be :before, :after or :around"
  | behaviorParameters => "defbehavior needs a parameter list"
  | behaviorReceiver => "behavior methods take the receiver as first parameter"
  | parameterList => "parameter list must be a proper list"
  | sectionOrder name => name ++ " out of order in parameter list"
  | parameterDefault => "malformed parameter with default"
  | parameter found => "parameter must be a symbol, got " ++ found
  | parameterName name => "cannot use " ++ name ++ " as a parameter"
  | secondRest => "more than one &rest parameter"
  | missingRest => "&rest requires a parameter name"

/-- Why an evaluation failed. -/
inductive Cause where
  /-- The text could not be read. -/
  | unreadable (error : SyntaxError)
  /-- A form could not be analysed. -/
  | malformed (problem : Malformed) (loc : Option SourceLoc)
  | binding (problem : BindingProblem)
  | noApplicableMethod (operator arguments : String)
  | noBehavior (name class_ arguments : String)
  | wrongType (expected found : String)
  | wrongArity (callable expected : String) (found : Nat)
  | unpairedKeyword (count : Nat)
  | notCallable (text : String)
  | unknownSlot (slot class_ : String)
  | divisionByZero
  | depthExceeded (limit : Nat)
  | shiftTooLarge (amount limit : Nat)
  /-- The host refused. -/
  | host (message : String)
  /-- A file could not be read. -/
  | file (message : String)
  /-- The program raised an error itself, or asked for something impossible. -/
  | user (message : String)
deriving Repr, DecidableEq

/-- The wording of a cause. -/
def Cause.message : Cause → String
  | unreadable error => error.message
  | malformed problem (some loc) => loc.text ++ ": " ++ problem.message
  | malformed problem none => problem.message
  | binding problem => problem.message
  | noApplicableMethod operator arguments =>
      "no applicable method for operator '" ++ operator ++ "' with " ++ arguments
  | noBehavior name class_ arguments =>
      "no behavior '" ++ name ++ "' for " ++ class_ ++ " with " ++ arguments
  | wrongType expected found => "expected " ++ expected ++ ", got " ++ found
  | wrongArity callable expected found =>
      callable ++ ": expected " ++ expected ++ " arguments, got " ++ toString found
  | unpairedKeyword count =>
      "keyword arguments must come in pairs, got " ++ toString count ++ " trailing values"
  | notCallable text => text ++ " is not callable"
  | unknownSlot slot class_ => "no slot '" ++ slot ++ "' in " ++ class_
  | divisionByZero => "division by zero"
  | depthExceeded limit => "evaluation depth limit of " ++ toString limit ++ " exceeded"
  | shiftTooLarge amount limit =>
      "shift amount " ++ toString amount ++ " exceeds the limit of " ++ toString limit ++ " bits"
  | host message => message
  | file message => message
  | user message => message

namespace Cause

/-- A value of another type was expected. -/
def typeError (expected : String) (found : Value) : Cause := wrongType expected found.typeName

/-- Is this the cause of reading a text that stops inside a datum? -/
def isUnfinished : Cause → Bool
  | unreadable error => error.problem = .unexpectedEnd
  | _ => false

end Cause

/-- A call that was left because of a failure. -/
structure CallFrame where
  loc : Option SourceLoc
  callable : String
  arguments : List Value
deriving Inhabited

/-- A cause and the calls that were left, outermost first. -/
structure Failure where
  cause : Cause
  calls : List CallFrame := []

namespace Failure

/-- Note that one more call was left. -/
def addCall (failure : Failure) (call : CallFrame) : Failure :=
  { failure with calls := call :: failure.calls }

/-- The calls that were left, innermost first. -/
def frames (failure : Failure) : List CallFrame := failure.calls.reverse

end Failure

end ObjectLisp
