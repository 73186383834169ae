import ObjectLisp.Arity

/-!
# Built-in functions

The names and argument counts of the built-in functions, in the order in which
an interpreter defines them.
-/

namespace ObjectLisp

/-- A built-in function. -/
inductive Primitive where
  -- Lists
  | cons
  | car
  | cdr
  | list
  | append
  | length
  | nth
  | reverse
  | map
  | forEach
  | filter
  | fold
  -- Predicates
  | isNull
  | not
  | isSame
  | isEqual
  | isNumber
  | isInteger
  | isFloat
  | isString
  | isSymbol
  | isKeyword
  | isCons
  | isList
  | isVector
  | isFunction
  -- Strings and symbols
  | str
  | stringLength
  | substring
  | symbolToString
  | stringToSymbol
  | gensym
  -- Output
  | print
  | println
  | display
  | format
  -- Evaluation
  | error
  | apply
  | eval
  | macroexpand
  | load
  -- Vectors
  | vector
  | vectorRef
  | vectorSet
  | vectorLength
  | listToVector
  | vectorToList
  -- Packages
  | makePackage
  | inPackage
  | usePackage
  | export_
  | findSymbol
  | symbolPackage
  -- Objects
  | new
  | getSlot
  | setSlot
  | slotValue
  | setSlotValue
  | classOf
  | className
  | isInstance
  | classLinearization
  | slotNames
  | addSlot
  | removeSlot
  | extendClass
  | send
  | hasBehavior
  -- Operators
  | addOperatorMethod
deriving Repr, DecidableEq, Inhabited

namespace Primitive

/-- The name under which a function is defined. -/
def name : Primitive → String
  | cons => "cons"
  | car => "car"
  | cdr => "cdr"
  | list => "list"
  | append => "append"
  | length => "length"
  | nth => "nth"
  | reverse => "reverse"
  | map => "map"
  | forEach => "for-each"
  | filter => "filter"
  | fold => "fold"
  | isNull => "null?"
  | not => "not"
  | isSame => "eq?"
  | isEqual => "equal?"
  | isNumber => "number?"
  | isInteger => "integer?"
  | isFloat => "float?"
  | isString => "string?"
  | isSymbol => "symbol?"
  | isKeyword => "keyword?"
  | isCons => "cons?"
  | isList => "list?"
  | isVector => "vector?"
  | isFunction => "function?"
  | str => "str"
  | stringLength => "string-length"
  | substring => "substring"
  | symbolToString => "symbol->string"
  | stringToSymbol => "string->symbol"
  | gensym => "gensym"
  | print => "print"
  | println => "println"
  | display => "display"
  | format => "format"
  | error => "error"
  | apply => "apply"
  | eval => "eval"
  | macroexpand => "macroexpand"
  | load => "load"
  | vector => "vector"
  | vectorRef => "vector-ref"
  | vectorSet => "vector-set!"
  | vectorLength => "vector-length"
  | listToVector => "list->vector"
  | vectorToList => "vector->list"
  | makePackage => "make-package"
  | inPackage => "in-package"
  | usePackage => "use-package"
  | export_ => "export"
  | findSymbol => "find-symbol"
  | symbolPackage => "symbol-package"
  | new => "new"
  | getSlot => "get-slot"
  | setSlot => "set-slot!"
  | slotValue => "slot-value"
  | setSlotValue => "set-slot-value!"
  | classOf => "class-of"
  | className => "class-name"
  | isInstance => "instance-of?"
  | classLinearization => "class-linearization"
  | slotNames => "slot-names"
  | addSlot => "add-slot"
  | removeSlot => "remove-slot"
  | extendClass => "extend-class"
  | send => "send"
  | hasBehavior => "has-behavior?"
  | addOperatorMethod => "add-operator-method"

/-- The argument counts of a function. -/
def arity : Primitive → Arity
  | cons | nth | map | forEach | filter | isSame | isEqual | vectorRef | getSlot
  | slotValue | isInstance | removeSlot | hasBehavior => .exact 2
  | car | cdr | length | reverse | isNull | not | isNumber | isInteger | isFloat | isString
  | isSymbol | isKeyword | isCons | isList | isVector | isFunction | stringLength
  | symbolToString | stringToSymbol | print | display | eval | macroexpand | load
  | vectorLength | listToVector | vectorToList | makePackage | inPackage | usePackage
  | export_ | symbolPackage | classOf | className | classLinearization | slotNames => .exact 1
  | list | append | str | println | vector => .atLeast 0
  | fold | vectorSet | setSlot | setSlotValue => .exact 3
  | substring | addSlot => .range 2 3
  | gensym => .range 0 1
  | format | error | new => .atLeast 1
  | apply | extendClass | send => .atLeast 2
  | findSymbol => .range 1 2
  | addOperatorMethod => .exact 4

/-- All functions in the order of their definition. -/
def all : List Primitive :=
  [.cons, .car, .cdr, .list, .append, .length, .nth, .reverse, .map, .forEach, .filter, .fold,
    .isNull, .not, .isSame, .isEqual, .isNumber, .isInteger, .isFloat, .isString, .isSymbol,
    .isKeyword, .isCons, .isList, .isVector, .isFunction, .str, .stringLength, .substring,
    .symbolToString, .stringToSymbol, .gensym, .print, .println, .display, .format, .error,
    .apply, .eval, .macroexpand, .load, .vector, .vectorRef, .vectorSet, .vectorLength,
    .listToVector, .vectorToList, .makePackage, .inPackage, .usePackage, .export_, .findSymbol,
    .symbolPackage, .new, .getSlot, .setSlot, .slotValue, .setSlotValue, .classOf, .className,
    .isInstance, .classLinearization, .slotNames, .addSlot, .removeSlot, .extendClass, .send,
    .hasBehavior, .addOperatorMethod]

end Primitive

end ObjectLisp
