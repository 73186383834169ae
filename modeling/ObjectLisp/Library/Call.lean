import ObjectLisp.Interp.Source
import ObjectLisp.Library.Lists
import ObjectLisp.Library.Objects
import ObjectLisp.Library.Texts
import ObjectLisp.Value.Equality

/-!
# Calls of built-in functions
-/

namespace ObjectLisp.Library

/-- Expand a macro call once.  Any other form is left as it is. -/
def expandOnce (engine : Engine) (form : Value) : Eval Value := do
  match form with
  | .cons _ (.symbol symbol) cdr =>
      match (← get).globals.get? symbol with
      | some (.expander index) =>
          let arguments ← Argument.list cdr
          modify fun interp =>
            { interp with counters.expansions := interp.counters.expansions + 1 }
          engine.apply (.closure index) arguments none
      | _ => return form
  | _ => return form

/-- Call a function with arguments of which the last is a list of further ones. -/
def spread (engine : Engine) (function : Value) (arguments : List Value) : Eval Value := do
  let fixed := arguments.dropLast
  let last ← Argument.list (arguments.getLastD .null)
  engine.apply function (fixed ++ last) none

/-- Fail because of the number of arguments. -/
def wrongCount (primitive : Primitive) (arguments : List Value) : Eval Value :=
  Eval.fail (.wrongArity primitive.name primitive.arity.text arguments.length)

/-- The value of a built-in function for arguments of an accepted number. -/
def run (engine : Engine) (primitive : Primitive) (arguments : List Value) : Eval Value := do
  match primitive, arguments with
  -- Lists
  | .cons, [car, cdr] => Eval.cons car cdr
  | .car, [list] => first list
  | .cdr, [list] => rest list
  | .list, items => Eval.list items
  | .append, lists => join lists
  | .length, [value] => size value
  | .nth, [position, list] => element position list
  | .reverse, [list] => Eval.list (← Argument.list list).reverse
  | .map, [function, list] => Eval.list (← mapped engine function (← Argument.list list))
  | .forEach, [function, list] =>
      visited engine function (← Argument.list list)
      return .null
  | .filter, [function, list] => Eval.list (← kept engine function (← Argument.list list))
  | .fold, [function, value, list] => folded engine function value (← Argument.list list)
  -- Predicates
  | .isNull, [value] => return .bool (value matches .null)
  | .not, [value] => return .bool !value.isTrue
  | .isSame, [a, b] => return .bool (a.same b)
  | .isEqual, [a, b] => return .bool (Value.equal (← get).heap a b)
  | .isNumber, [value] => return .bool (TypeTag.number.includes value.tag)
  | .isInteger, [value] => return .bool (value matches .int _)
  | .isFloat, [value] => return .bool (value matches .float _)
  | .isString, [value] => return .bool (value matches .str ..)
  | .isSymbol, [value] => return .bool (value matches .symbol _)
  | .isKeyword, [value] => return .bool (isKeywordValue (← get).symbols value)
  | .isCons, [value] => return .bool (value matches .cons ..)
  | .isList, [value] => return .bool (value matches .null | .cons ..)
  | .isVector, [value] => return .bool (value matches .vector _)
  | .isFunction, [value] => return .bool value.isFunction
  -- Strings and symbols
  | .str, values => concatenation values
  | .stringLength, [value] => return .ofNat (← Argument.text value).toList.length
  | .substring, [value, start] => slice value start none
  | .substring, [value, start, stop] => slice value start (some stop)
  | .symbolToString, [value] => Eval.str (← Eval.nameOf (← Argument.symbol value))
  | .stringToSymbol, [value] => return .symbol (← Eval.intern (← Argument.text value))
  | .gensym, [] => generate "g"
  | .gensym, [stem] => generate (← Argument.name stem)
  -- Output
  | .print, [value] =>
      Eval.write ((← Eval.print true value) ++ "\n")
      return value
  | .println, values => writeLine values
  | .display, [value] =>
      Eval.write (← Eval.print false value)
      return .null
  | .format, control :: values => Eval.str (← filled (← Argument.text control) values)
  -- Evaluation
  | .error, message :: values => raise message values
  | .apply, function :: values => spread engine function values
  | .eval, [form] => Source.evalForm engine form {}
  | .macroexpand, [form] => expandOnce engine form
  | .load, [path] => Source.load engine (← Argument.text path)
  -- Vectors
  | .vector, items => Eval.vector items
  | .vectorRef, [vector, position] => vectorItem vector position
  | .vectorSet, [vector, position, value] => setVectorItem vector position value
  | .vectorLength, [vector] => vectorSize vector
  | .listToVector, [list] => Eval.vector (← Argument.list list)
  | .vectorToList, [vector] => vectorItems vector
  -- Packages
  | .makePackage, [name] => newPackage name
  | .inPackage, [name] => enterPackage name
  | .usePackage, [name] => inheritPackage name
  | .export_, [symbols] => exported symbols
  | .findSymbol, [name] => lookUp name none
  | .findSymbol, [name, package] => lookUp name (some package)
  | .symbolPackage, [symbol] => homePackage symbol
  -- Objects
  | .new, class_ :: values => Object.make engine (← Argument.class_ class_) values
  | .getSlot, [object, name] => Object.getSlot engine object (← Object.slotName name)
  | .setSlot, [object, name, value] =>
      Object.setSlot engine object (← Object.slotName name) value
  | .slotValue, [object, name] => Object.slotValue engine object (← Object.slotName name)
  | .setSlotValue, [object, name, value] =>
      Object.setSlotValue object (← Object.slotName name) value
  | .classOf, [value] => nominalClass value
  | .className, [class_] => nameOfClass class_
  | .isInstance, [value, class_] =>
      return .bool (← Object.isInstance value (← Argument.class_ class_))
  | .classLinearization, [class_] => precedence class_
  | .slotNames, [value] => slotNameList value
  | .addSlot, [target, name] => defineSlot target name .null
  | .addSlot, [target, name, init] => defineSlot target name init
  | .removeSlot, [target, name] => forgetSlot target name
  | .extendClass, class_ :: parents => addParents class_ parents
  | .send, receiver :: name :: values => sendTo engine receiver name values
  | .hasBehavior, [receiver, name] => respondsTo receiver name
  -- Operators
  | .addOperatorMethod, [operator, first, second, function] =>
      extendOperator operator first second function
  | _, _ => wrongCount primitive arguments

/-- Call a built-in function. -/
def call (engine : Engine) (primitive : Primitive) (arguments : List Value) : Eval Value :=
  if primitive.arity.accepts arguments.length then run engine primitive arguments
  else wrongCount primitive arguments

end ObjectLisp.Library
