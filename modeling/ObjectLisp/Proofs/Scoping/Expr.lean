import ObjectLisp.Expr

/-!
# Scoped expressions

The frames around an expression are described by their sizes, innermost frame
first.  An expression is scoped for a list of sizes if every address in it, seen
from where it stands, names a position that such frames have, and every global
variable that it assigns may be written.

A `let` adds a frame around its body, and a function adds one around its body but
not around the defaults of its parameters.  All other parts of an expression
stand in the same frames as the expression itself.
-/

namespace ObjectLisp

/-- The address names a position in frames of these sizes. -/
def Address.InRange (address : Address) (sizes : List Nat) : Prop :=
  ∃ size, sizes[address.level]? = some size ∧ address.index < size

namespace Expr

/-- The slot that an expression itself reads or writes. -/
def address? : Expr → Option Address
  | local_ address _ | setLocal address _ => some address
  | _ => none

/-- The global or dynamic variable that an expression itself assigns. -/
def target? : Expr → Option SymbolId
  | setGlobal name _ | setDynamic name _ => some name
  | _ => none

/-- The parts that are evaluated in the frames of the expression itself. -/
def parts : Expr → List Expr
  | literal _ | local_ .. | global _ | dynamic _ | lambda _ | defMacro .. => []
  | if_ test yes no => [test, yes, no]
  | or parts | and parts | block parts | construct _ parts => parts
  | while_ test body => [test, body]
  | def_ _ value | defConstant _ value | setLocal _ value | setGlobal _ value
  | setDynamic _ value => [value]
  | setMember _ object value _ => [object, value]
  | dynamicLet bindings body => body :: bindings.map (·.2)
  | let_ inits _ => inits
  | apply callee arguments _ => callee :: arguments
  | member _ object arguments _ => object :: arguments
  | callNext next arguments _ => next :: arguments.getD []
  | hasNext next => [next]
  | defClass _ parents _ => parents
  | defBehavior target _ _ _ => [target]

end Expr

/-- The function that computes the default of a slot, if it is computed. -/
def SlotInit.template? {ε : Type} : SlotInit ε → Option (Template ε)
  | constant _ => none
  | computed template => some template

namespace Expr

/-- The functions that an expression makes closures of. -/
def templates : Expr → List (Template Expr)
  | lambda template | defMacro _ template | defBehavior _ _ _ template => [template]
  | defClass _ _ slots => slots.filterMap (·.2.template?)
  | _ => []

/-- Every address in the expression names a position in frames of these sizes, and every global
variable that it assigns may be written. -/
inductive Scoped (writable : SymbolId → Prop) : List Nat → Expr → Prop where
  | intro {sizes : List Nat} {expr : Expr}
      (address : ∀ address, expr.address? = some address → address.InRange sizes)
      (target : ∀ name, expr.target? = some name → writable name)
      (parts : ∀ part ∈ expr.parts, Scoped writable sizes part)
      (defaults : ∀ template ∈ expr.templates, ∀ param ∈ template.params.list,
        ∀ init ∈ param.init, Scoped writable sizes init)
      (bodies : ∀ template ∈ expr.templates,
        Scoped writable (template.params.list.length :: sizes) template.body)
      (inner : ∀ inits body, expr = let_ inits body →
        Scoped writable (inits.length :: sizes) body) :
      Scoped writable sizes expr

end Expr

/-- The defaults of a function are scoped for the frames around it, and its body for one frame
more. -/
structure Template.Scoped (writable : SymbolId → Prop) (sizes : List Nat)
    (template : Template Expr) : Prop where
  defaults : ∀ param ∈ template.params.list, ∀ init ∈ param.init, init.Scoped writable sizes
  body : template.body.Scoped writable (template.params.list.length :: sizes)

namespace Expr

variable {writable : SymbolId → Prop} {sizes : List Nat} {expr : Expr}

/-! ## Taking scoped expressions apart -/

theorem Scoped.inRange (inScope : expr.Scoped writable sizes) {address : Address}
    (own : expr.address? = some address) : address.InRange sizes := by
  cases inScope with
  | intro inRange _ _ _ _ _ => exact inRange address own

theorem Scoped.mayWrite (inScope : expr.Scoped writable sizes) {name : SymbolId}
    (own : expr.target? = some name) : writable name := by
  cases inScope with
  | intro _ target _ _ _ _ => exact target name own

theorem Scoped.part (inScope : expr.Scoped writable sizes) {part : Expr}
    (member : part ∈ expr.parts) : part.Scoped writable sizes := by
  cases inScope with
  | intro _ _ parts _ _ _ => exact parts part member

theorem Scoped.template (inScope : expr.Scoped writable sizes) {template : Template Expr}
    (member : template ∈ expr.templates) : template.Scoped writable sizes := by
  cases inScope with
  | intro _ _ _ defaults bodies _ => exact ⟨defaults template member, bodies template member⟩

theorem Scoped.letBody {inits : List Expr} {body : Expr}
    (inScope : (let_ inits body).Scoped writable sizes) :
    body.Scoped writable (inits.length :: sizes) := by
  cases inScope with
  | intro _ _ _ _ _ inner => exact inner inits body rfl

/-! ## Building scoped expressions -/

/-- An expression without an address and a target of its own that is no `let` is scoped if its
parts and its functions are. -/
theorem Scoped.of_parts (noAddress : expr.address? = none) (noTarget : expr.target? = none)
    (noLet : ∀ inits body, expr ≠ let_ inits body)
    (parts : ∀ part ∈ expr.parts, part.Scoped writable sizes)
    (templates : ∀ template ∈ expr.templates, template.Scoped writable sizes) :
    expr.Scoped writable sizes :=
  .intro (fun address own => by rw [noAddress] at own; contradiction)
    (fun name own => by rw [noTarget] at own; contradiction) parts
    (fun template member => (templates template member).defaults)
    (fun template member => (templates template member).body)
    (fun inits body isLet => absurd isLet (noLet inits body))

theorem Scoped.literal (value : Value) : (literal value).Scoped writable sizes :=
  .of_parts rfl rfl (by simp) (by simp [parts]) (by simp [templates])

theorem Scoped.local_ {address : Address} (inRange : address.InRange sizes) (name : SymbolId) :
    (local_ address name).Scoped writable sizes :=
  .intro (fun own isOwn => by cases isOwn; exact inRange) (fun _ own => by cases own)
    (by simp [parts]) (by simp [templates]) (by simp [templates]) (by simp)

theorem Scoped.setLocal {address : Address} {value : Expr} (inRange : address.InRange sizes)
    (inScope : value.Scoped writable sizes) : (setLocal address value).Scoped writable sizes :=
  .intro (fun own isOwn => by cases isOwn; exact inRange) (fun _ own => by cases own)
    (by simpa [parts] using inScope) (by simp [templates]) (by simp [templates]) (by simp)

theorem Scoped.setGlobal {name : SymbolId} {value : Expr} (mayWrite : writable name)
    (inScope : value.Scoped writable sizes) : (setGlobal name value).Scoped writable sizes :=
  .intro (fun _ own => by cases own) (fun own isOwn => by cases isOwn; exact mayWrite)
    (by simpa [parts] using inScope) (by simp [templates]) (by simp [templates]) (by simp)

theorem Scoped.setDynamic {name : SymbolId} {value : Expr} (mayWrite : writable name)
    (inScope : value.Scoped writable sizes) : (setDynamic name value).Scoped writable sizes :=
  .intro (fun _ own => by cases own) (fun own isOwn => by cases isOwn; exact mayWrite)
    (by simpa [parts] using inScope) (by simp [templates]) (by simp [templates]) (by simp)

theorem Scoped.let_ {inits : List Expr} {body : Expr}
    (inScope : ∀ init ∈ inits, init.Scoped writable sizes)
    (inner : body.Scoped writable (inits.length :: sizes)) :
    (let_ inits body).Scoped writable sizes :=
  .intro (fun _ own => by cases own) (fun _ own => by cases own) inScope (by simp [templates])
    (by simp [templates]) (fun _ _ isLet => by cases isLet; exact inner)

end Expr

/-! ## Addresses found in a scope -/

namespace Scope

/-- The sizes of the frames that a scope describes. -/
def sizes (scope : Scope) : List Nat := scope.frames.map List.length

@[simp]
theorem sizes_push (scope : Scope) (names : List SymbolId) :
    (scope.push names).sizes = names.length :: scope.sizes :=
  rfl

@[simp]
theorem sizes_empty : ({} : Scope).sizes = [] :=
  rfl

theorem lastIndex?_lt {symbol : SymbolId} {names : List SymbolId} {index : Nat}
    (found : lastIndex? symbol names = some index) : index < names.length := by
  induction names generalizing index with
  | nil => simp [lastIndex?] at found
  | cons name names ih =>
      unfold lastIndex? at found
      split at found
      · next later foundLater =>
          cases found
          exact Nat.succ_lt_succ (ih foundLater)
      · split at found
        · cases found
          exact Nat.zero_lt_succ _
        · contradiction

theorem addressIn_inRange {symbol : SymbolId} {frames : List (List SymbolId)} {address : Address}
    (found : addressIn symbol frames = some address) :
    address.InRange (frames.map List.length) := by
  induction frames generalizing address with
  | nil => simp [addressIn] at found
  | cons names outer ih =>
      unfold addressIn at found
      split at found
      · next index here =>
          cases found
          exact ⟨names.length, rfl, lastIndex?_lt here⟩
      · obtain ⟨inner, foundOuter, rfl⟩ := Option.map_eq_some_iff.mp found
        obtain ⟨size, atLevel, lt⟩ := ih foundOuter
        exact ⟨size, by simpa using atLevel, lt⟩

/-- A name is resolved to a position that the frames of the scope have. -/
theorem address?_inRange {scope : Scope} {symbol : SymbolId} {address : Address}
    (found : scope.address? symbol = some address) : address.InRange scope.sizes :=
  addressIn_inRange found

end Scope

end ObjectLisp
