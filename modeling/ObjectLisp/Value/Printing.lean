import ObjectLisp.Printer
import ObjectLisp.Heap

/-!
# Printing values

How values look to the printer.  What has no readable form is labelled by its
kind and, where it has one, by its name.
-/

namespace ObjectLisp.Value

universe u v w

variable {δ : Type u} {μ : Type v} {κ : Type w}

/-- The label of a closure or expander. -/
def functionLabel (symbols : SymbolStore) (heap : Heap) (kind : String) (index : Nat) : String :=
  match heap.closures[index]?.bind (·.template.name) with
  | some name => kind ++ " " ++ symbols.nameOf name
  | none => kind

/-- The name of the class of an instance. -/
def instanceClassName (heap : Heap) (classes : ClassSpace δ μ) (index : Nat) : String :=
  match heap.objects[index]? with
  | some found => classes.nameOf found.membership.nominal
  | none => "#<invalid-class>"

/-- What a value looks like. -/
def shape (symbols : SymbolStore) (heap : Heap) (classes : ClassSpace δ μ)
    (operators : OperatorTable κ) : Value → Shape Value
  | null => .null
  | bool value => .bool value
  | int value => .int value
  | float value => .float value
  | str _ text => .str text
  | symbol id => .symbol id
  | cons _ car cdr => .cell car cdr
  | vector index => .vector (heap.items index).toList
  | closure index => .unreadable (functionLabel symbols heap "closure" index)
  | expander index => .unreadable (functionLabel symbols heap "macro" index)
  | primitive function => .unreadable ("primitive " ++ function.name)
  | operator id => .unreadable ("operator " ++ (operators.name? id).getD (toString id))
  | nextMethod _ => .unreadable "next-method"
  | class_ id => .unreadable ("class " ++ classes.nameOf id)
  | object index => .unreadable (instanceClassName heap classes index ++ " instance")
  | native _ => .unreadable "native point"

end ObjectLisp.Value
