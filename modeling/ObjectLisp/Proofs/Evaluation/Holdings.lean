import ObjectLisp.Interp.Basic
import ObjectLisp.Proofs.Reading.Naming
import ObjectLisp.Proofs.Scoping.Expr

/-!
# What a state holds

A value can be kept in many places: a global, a vector, a frame, a dynamic
binding, a slot, a method, the arguments of a method that waits for its
continuation, or a literal in the code of a closure.  A state holds the values
in all of these places.

Whatever a program can lay its hands on was held by the state before, or was
made on the spot.  This module says what the operations on the heap and on the
operators add to the holdings.
-/

namespace ObjectLisp

/-- Is the value neither a cell, nor a class, nor a symbol? -/
def Value.isAtom : Value → Bool
  | cons .. | class_ _ | symbol _ => false
  | _ => true

/-! ## Values in expressions -/

/-- The default of a slot, if it is a constant. -/
def SlotInit.value? {ε : Type} : SlotInit ε → Option Value
  | constant value => some value
  | computed _ => none

namespace Expr

/-- The values that stand in an expression itself. -/
def values : Expr → List Value
  | literal value => [value]
  | defClass _ _ slots => slots.filterMap (·.2.value?)
  | _ => []

/-- The value stands in the expression, or somewhere inside, functions included. -/
inductive Bears (value : Value) : Expr → Prop where
  | here {expr : Expr} (member : value ∈ expr.values) : Bears value expr
  | part {expr part : Expr} (member : part ∈ expr.parts) (inside : Bears value part) :
      Bears value expr
  | default {expr init : Expr} {template : Template Expr} {param : Param Expr}
      (member : template ∈ expr.templates) (isParam : param ∈ template.params.list)
      (isInit : init ∈ param.init) (inside : Bears value init) : Bears value expr
  | body {expr : Expr} {template : Template Expr} (member : template ∈ expr.templates)
      (inside : Bears value template.body) : Bears value expr
  | inner {inits : List Expr} {body : Expr} (inside : Bears value body) :
      Bears value (let_ inits body)

end Expr

/-- The value stands in a default or in the body of the function. -/
def Template.Bears (value : Value) (template : Template Expr) : Prop :=
  (∃ param ∈ template.params.list, ∃ init ∈ param.init, init.Bears value) ∨
    template.body.Bears value

theorem Expr.Bears.of_template {expr : Expr} {template : Template Expr} {value : Value}
    (member : template ∈ expr.templates) (bears : template.Bears value) : expr.Bears value := by
  rcases bears with ⟨param, isParam, init, isInit, inside⟩ | inside
  · exact .default member isParam isInit inside
  · exact .body member inside

/-! ## Values that an expression gives -/

namespace Expr

/-- The values that an expression gives without computing them: those that stand in it, and the
name that it defines. -/
def results : Expr → List Value
  | literal value => [value]
  | def_ name _ | defConstant name _ | defMacro name _ => [.symbol name]
  | defClass _ _ slots => slots.filterMap (·.2.value?)
  | _ => []

/-- A value that an expression gives stands in it or is a name. -/
theorem mem_results {expr : Expr} {value : Value} (member : value ∈ expr.results) :
    value ∈ expr.values ∨ ∃ name, value = .symbol name := by
  cases expr with
  | def_ name _ | defConstant name _ | defMacro name _ =>
      exact .inr ⟨name, List.mem_singleton.mp member⟩
  | _ => exact .inl member

theorem mem_results_of_mem_values {expr : Expr} {value : Value} (member : value ∈ expr.values) :
    value ∈ expr.results := by
  cases expr with
  | literal other => exact member
  | defClass name parents slots => exact member
  | _ => cases member

/-- The expression is the other one, or stands somewhere inside, functions included. -/
inductive Inside (inner : Expr) : Expr → Prop where
  | self : Inside inner inner
  | part {expr part : Expr} (member : part ∈ expr.parts) (inside : Inside inner part) :
      Inside inner expr
  | default {expr init : Expr} {template : Template Expr} {param : Param Expr}
      (member : template ∈ expr.templates) (isParam : param ∈ template.params.list)
      (isInit : init ∈ param.init) (inside : Inside inner init) : Inside inner expr
  | body {expr : Expr} {template : Template Expr} (member : template ∈ expr.templates)
      (inside : Inside inner template.body) : Inside inner expr
  | inner {inits : List Expr} {body : Expr} (inside : Inside inner body) :
      Inside inner (let_ inits body)

theorem Bears.exists_inside {expr : Expr} {value : Value} (bears : expr.Bears value) :
    ∃ inner : Expr, inner.Inside expr ∧ value ∈ inner.values := by
  induction bears with
  | here member => exact ⟨_, .self, member⟩
  | part member _ ih =>
      obtain ⟨inner, inside, found⟩ := ih
      exact ⟨inner, .part member inside, found⟩
  | default member isParam isInit _ ih =>
      obtain ⟨inner, inside, found⟩ := ih
      exact ⟨inner, .default member isParam isInit inside, found⟩
  | body member _ ih =>
      obtain ⟨inner, inside, found⟩ := ih
      exact ⟨inner, .body member inside, found⟩
  | inner _ ih =>
      obtain ⟨inner, inside, found⟩ := ih
      exact ⟨inner, .inner inside, found⟩

end Expr

/-- The expression stands in a default or in the body of the function. -/
def Template.Contains (template : Template Expr) (inner : Expr) : Prop :=
  (∃ param ∈ template.params.list, ∃ init ∈ param.init, inner.Inside init) ∨
    inner.Inside template.body

/-- What holds of an expression itself, in its parts and in its functions holds everywhere in it,
unless it is a `let`. -/
theorem Expr.forall_inside {expr : Expr} {P : Expr → Prop}
    (noLet : ∀ inits body, expr ≠ .let_ inits body) (own : P expr)
    (parts : ∀ part ∈ expr.parts, ∀ inner : Expr, inner.Inside part → P inner)
    (templates : ∀ template ∈ expr.templates, ∀ inner, template.Contains inner → P inner)
    (inner : Expr) (inside : inner.Inside expr) : P inner := by
  cases inside with
  | self => exact own
  | part member inside => exact parts _ member inner inside
  | default member isParam isInit inside =>
      exact templates _ member inner (.inl ⟨_, isParam, _, isInit, inside⟩)
  | body member inside => exact templates _ member inner (.inr inside)
  | inner inside => exact absurd rfl (noLet _ _)

/-! ## Values in the parts of a state -/

/-- The value is one of the methods. -/
def MethodSet.Holds (methods : MethodSet Value) (value : Value) : Prop :=
  value ∈ methods.primary ∨ value ∈ methods.before ∨ value ∈ methods.after ∨
    value ∈ methods.around

/-- The value is one of the methods. -/
def MethodChain.Holds (chain : MethodChain Value) (value : Value) : Prop :=
  value ∈ chain.entries ∨ value ∈ chain.befores ∨ value ∈ chain.afters

/-- The value is a method of the chain or an argument of the call. -/
def Continuation.Holds (next : Continuation Value) (value : Value) : Prop :=
  next.chain.Holds value ∨ value ∈ next.arguments

/-- The value that a default is, or the function that computes it. -/
def SlotDefault.value : SlotDefault → Value
  | constant value => value
  | computed function => function

/-- The value is an item of a vector, stands in the code of a closure, is stored in a slot, or is
kept for a call of a next method. -/
inductive Heap.Holds (heap : Heap) (value : Value) : Prop where
  | item {index : Nat} (member : value ∈ heap.items index)
  | code {closure : Closure} (member : closure ∈ heap.closures)
      (bears : closure.template.Bears value)
  | slot {object : Instance} (member : object ∈ heap.objects)
      (stored : value ∈ object.slots.values)
  | continuation {next : Continuation Value} (member : next ∈ heap.continuations)
      (holds : next.Holds value)

/-- The value is a default, a method, or a method of a chain that a class remembers. -/
inductive ClassSpace.Holds (space : ClassSpace SlotDefault Value) (value : Value) : Prop where
  | default {id : ClassId} {slot : Slot SlotDefault} (member : slot ∈ space.slotsOf id)
      (isDefault : slot.default.value = value)
  | method {id : ClassId} {name : String} {methods : MethodSet Value}
      (found : space.methodsOf? name id = some methods) (holds : methods.Holds value)
  | chain {id : ClassId} {name : String} {chain : MethodChain Value}
      (found : (space.get? id).bind (·.chains.find? name) = some (some chain))
      (holds : chain.Holds value)

/-- The value is a method of an operator. -/
def OperatorTable.Holds (table : OperatorTable (OperatorMethod Value)) (value : Value) : Prop :=
  ∃ operator ∈ table.operators, ∃ pair, operator.method? pair = some (.function value)

/-- The value is held somewhere in the state. -/
inductive Interp.Holds (interp : Interp) (value : Value) : Prop where
  | global {name : SymbolId} (found : interp.globals.get? name = some value)
  | heap (holds : interp.heap.Holds value)
  | frame {frame : Frame Value} (member : frame ∈ interp.frames.frames)
      (inFrame : value ∈ frame.slots)
  | dynamic {name : SymbolId} (member : (name, value) ∈ interp.dynamic.bindings)
  | class_ (holds : interp.classes.Holds value)
  | operator (holds : interp.operators.Holds value)

/-- Only these parts of a state hold values. -/
theorem Interp.Holds.of_eq {interp later : Interp} {value : Value} (holds : later.Holds value)
    (globals : later.globals = interp.globals) (heap : later.heap = interp.heap)
    (frames : later.frames = interp.frames) (dynamic : later.dynamic = interp.dynamic)
    (classes : later.classes = interp.classes) (operators : later.operators = interp.operators) :
    interp.Holds value := by
  cases holds with
  | global found => exact .global (globals ▸ found)
  | heap holds => exact .heap (heap ▸ holds)
  | frame member inFrame => exact .frame (frames ▸ member) inFrame
  | dynamic member => exact .dynamic (dynamic ▸ member)
  | class_ holds => exact .class_ (classes ▸ holds)
  | operator holds => exact .operator (operators ▸ holds)

namespace Interp

variable {interp : Interp} {value : Value}

/-! A state in which one part was exchanged holds nothing new but what that part holds. -/

theorem holds_globals {globals : Globals} (holds : Holds { interp with globals } value) :
    interp.Holds value ∨ ∃ name, globals.get? name = some value := by
  cases holds with
  | global found => exact .inr ⟨_, found⟩
  | heap holds => exact .inl (.heap holds)
  | frame member inFrame => exact .inl (.frame member inFrame)
  | dynamic member => exact .inl (.dynamic member)
  | class_ holds => exact .inl (.class_ holds)
  | operator holds => exact .inl (.operator holds)

theorem holds_heap {heap : Heap} (holds : Holds { interp with heap } value) :
    interp.Holds value ∨ heap.Holds value := by
  cases holds with
  | heap holds => exact .inr holds
  | global found => exact .inl (.global found)
  | frame member inFrame => exact .inl (.frame member inFrame)
  | dynamic member => exact .inl (.dynamic member)
  | class_ holds => exact .inl (.class_ holds)
  | operator holds => exact .inl (.operator holds)

theorem holds_dynamic {dynamic : DynamicStack Value}
    (holds : Holds { interp with dynamic } value) :
    interp.Holds value ∨ ∃ name, (name, value) ∈ dynamic.bindings := by
  cases holds with
  | dynamic member => exact .inr ⟨_, member⟩
  | global found => exact .inl (.global found)
  | heap holds => exact .inl (.heap holds)
  | frame member inFrame => exact .inl (.frame member inFrame)
  | class_ holds => exact .inl (.class_ holds)
  | operator holds => exact .inl (.operator holds)

theorem holds_classes {classes : ClassSpace SlotDefault Value}
    (holds : Holds { interp with classes } value) : interp.Holds value ∨ classes.Holds value := by
  cases holds with
  | class_ holds => exact .inr holds
  | global found => exact .inl (.global found)
  | heap holds => exact .inl (.heap holds)
  | frame member inFrame => exact .inl (.frame member inFrame)
  | dynamic member => exact .inl (.dynamic member)
  | operator holds => exact .inl (.operator holds)

theorem holds_operators {operators : OperatorTable (OperatorMethod Value)}
    (holds : Holds { interp with operators } value) :
    interp.Holds value ∨ operators.Holds value := by
  cases holds with
  | operator holds => exact .inr holds
  | global found => exact .inl (.global found)
  | heap holds => exact .inl (.heap holds)
  | frame member inFrame => exact .inl (.frame member inFrame)
  | dynamic member => exact .inl (.dynamic member)
  | class_ holds => exact .inl (.class_ holds)

end Interp

/-! ## Operations on the heap -/

namespace Heap

variable {heap : Heap} {value : Value}

theorem Holds.of_eq {later : Heap} (holds : later.Holds value)
    (vectors : later.vectors = heap.vectors) (closures : later.closures = heap.closures)
    (objects : later.objects = heap.objects)
    (continuations : later.continuations = heap.continuations) : heap.Holds value := by
  cases holds with
  | @item index member =>
      have same : later.items index = heap.items index := by simp only [items, vectors]
      exact .item (same ▸ member)
  | code member bears => exact .code (closures ▸ member) bears
  | slot member stored => exact .slot (objects ▸ member) stored
  | continuation member holds => exact .continuation (continuations ▸ member) holds

/-- Other vectors add their items at most. -/
theorem Holds.of_vectors {vectors : Array (Array Value)}
    (holds : Holds { heap with vectors } value) :
    heap.Holds value ∨ ∃ index, value ∈ vectors.getD index #[] := by
  cases holds with
  | item member => exact .inr ⟨_, member⟩
  | code member bears => exact .inl (.code member bears)
  | slot member stored => exact .inl (.slot member stored)
  | continuation member holds => exact .inl (.continuation member holds)

theorem mem_items_push {items : Array Value} {index : Nat}
    (member : value ∈ (heap.vectors.push items).getD index #[]) :
    value ∈ heap.items index ∨ value ∈ items := by
  rw [Array.getD_eq_getD_getElem?, Array.getElem?_push] at member
  split at member
  · exact .inr member
  · rw [← Array.getD_eq_getD_getElem?] at member
    exact .inl member

theorem mem_items_modify {index other position : Nat} {item value : Value}
    (member : value ∈
      (heap.vectors.modify index (·.setIfInBounds position item)).getD other #[]) :
    value ∈ heap.items other ∨ value = item := by
  have unchanged : value ∈ heap.vectors[other]?.getD #[] → value ∈ heap.items other := by
    rw [← Array.getD_eq_getD_getElem?]
    exact id
  rw [Array.getD_eq_getD_getElem?, Array.getElem?_modify] at member
  split at member
  · cases found : heap.vectors[other]? with
    | none => simp [found] at member
    | some items =>
        rw [found] at member unchanged
        exact (Array.mem_or_eq_of_mem_setIfInBounds member).imp_left unchanged
  · exact .inl (unchanged member)

theorem holds_newVector {items : Array Value} (holds : (heap.newVector items).2.Holds value) :
    heap.Holds value ∨ value ∈ items := by
  rcases Holds.of_vectors holds with old | ⟨index, member⟩
  · exact .inl old
  · exact (mem_items_push member).imp_left .item

theorem holds_setItem {index position : Nat} {item : Value}
    (holds : Holds { heap with
      vectors := heap.vectors.modify index (·.setIfInBounds position item) } value) :
    heap.Holds value ∨ value = item := by
  rcases Holds.of_vectors holds with old | ⟨other, member⟩
  · exact .inl old
  · exact (mem_items_modify member).imp_left .item

theorem holds_newContinuation {next : Continuation Value}
    (holds : (heap.newContinuation next).2.Holds value) : heap.Holds value ∨ next.Holds value := by
  cases holds with
  | item member => exact .inl (.item member)
  | code member bears => exact .inl (.code member bears)
  | slot member stored => exact .inl (.slot member stored)
  | continuation member holds =>
      rcases Array.mem_push.mp member with old | rfl
      · exact .inl (.continuation old holds)
      · exact .inr holds

/-- New cells take identities and nothing else. -/
theorem consReversed_snd (heap : Heap) (tail : Value) (items : List Value) :
    (heap.consReversed tail items).2 = { heap with nextId := heap.nextId + items.length } := by
  induction items generalizing heap tail with
  | nil => rfl
  | cons item items ih =>
      unfold consReversed
      rw [ih]
      simp only [cons, List.length_cons, Nat.add_assoc, Nat.add_comm 1]

theorem listWithTail_snd (heap : Heap) (items : List Value) (tail : Value) :
    (heap.listWithTail items tail).2 = { heap with nextId := heap.nextId + items.length } := by
  rw [listWithTail, consReversed_snd, List.length_reverse]

/-! A property of values that atoms have and that cells have with their parts. -/

variable {P : Value → Prop}

theorem consReversed_fst (cell : ∀ id car cdr, P car → P cdr → P (.cons id car cdr))
    {tail : Value} {items : List Value} (last : P tail) (all : ∀ item ∈ items, P item) :
    P (heap.consReversed tail items).1 := by
  induction items generalizing heap tail with
  | nil => exact last
  | cons item items ih =>
      obtain ⟨first, others⟩ := List.forall_mem_cons.mp all
      exact ih (cell _ _ _ first last) others

theorem listWithTail_fst (cell : ∀ id car cdr, P car → P cdr → P (.cons id car cdr))
    {tail : Value} {items : List Value} (last : P tail) (all : ∀ item ∈ items, P item) :
    P (heap.listWithTail items tail).1 :=
  consReversed_fst cell last fun item member => all item (List.mem_reverse.mp member)

/-! A datum whose symbols have the property becomes a value with it, and so does what it puts into
vectors. -/

mutual

theorem embedInto_spec (atom : ∀ value : Value, value.isAtom = true → P value)
    (cell : ∀ id car cdr, P car → P cdr → P (.cons id car cdr)) (state : Embedding)
    (datum : Datum) (names : ∀ id ∈ datum.symbols, P (.symbol id)) :
    P (embedInto state datum).1 ∧
      (∀ value, (embedInto state datum).2.heap.Holds value → state.heap.Holds value ∨ P value) ∧
      (embedInto state datum).2.heap.closures = state.heap.closures ∧
      (embedInto state datum).2.heap.objects = state.heap.objects := by
  cases datum with
  | str text =>
      refine ⟨atom _ rfl, ?_, rfl, rfl⟩
      exact fun value holds => .inl (holds.of_eq rfl rfl rfl rfl)
  | symbol id =>
      exact ⟨names id (by simp [Datum.symbols]), fun value holds => .inl holds, rfl, rfl⟩
  | cons line car cdr =>
      obtain ⟨carNames, cdrNames⟩ := List.forall_mem_append.mp names
      obtain ⟨carFits, carHolds, carClosures, carObjects⟩ :=
        embedInto_spec atom cell state car carNames
      obtain ⟨cdrFits, cdrHolds, cdrClosures, cdrObjects⟩ :=
        embedInto_spec atom cell (embedInto state car).2 cdr cdrNames
      refine ⟨cell _ _ _ carFits cdrFits, ?_, cdrClosures.trans carClosures,
        cdrObjects.trans carObjects⟩
      intro value holds
      rcases cdrHolds value (holds.of_eq rfl rfl rfl rfl) with old | new
      · exact carHolds value old
      · exact .inr new
  | vec line items =>
      obtain ⟨allFit, allHold, closures, objects⟩ := embedAll_spec atom cell state items names
      refine ⟨atom _ rfl, ?_, closures, objects⟩
      intro value holds
      rcases holds_newVector holds with old | isItem
      · exact allHold value old
      · exact .inr (allFit value (by simpa using isItem))
  | _ => exact ⟨atom _ rfl, fun value holds => .inl holds, rfl, rfl⟩

theorem embedAll_spec (atom : ∀ value : Value, value.isAtom = true → P value)
    (cell : ∀ id car cdr, P car → P cdr → P (.cons id car cdr)) (state : Embedding)
    (data : List Datum) (names : ∀ id ∈ Datum.symbolsIn data, P (.symbol id)) :
    (∀ value ∈ (embedAll state data).1, P value) ∧
      (∀ value, (embedAll state data).2.heap.Holds value → state.heap.Holds value ∨ P value) ∧
      (embedAll state data).2.heap.closures = state.heap.closures ∧
      (embedAll state data).2.heap.objects = state.heap.objects := by
  cases data with
  | nil => exact ⟨by simp [embedAll], fun value holds => .inl holds, rfl, rfl⟩
  | cons datum data =>
      obtain ⟨headNames, tailNames⟩ := List.forall_mem_append.mp names
      obtain ⟨headFits, headHolds, headClosures, headObjects⟩ :=
        embedInto_spec atom cell state datum headNames
      obtain ⟨tailFits, tailHolds, tailClosures, tailObjects⟩ :=
        embedAll_spec atom cell (embedInto state datum).2 data tailNames
      refine ⟨List.forall_mem_cons.mpr ⟨headFits, tailFits⟩, ?_, tailClosures.trans headClosures,
        tailObjects.trans headObjects⟩
      intro value holds
      rcases tailHolds value holds with old | new
      · exact headHolds value old
      · exact .inr new

end

end Heap

/-! ## Operations on operators -/

namespace GenericOperator

variable {μ : Type}

theorem method?_choose (operator : GenericOperator μ) (a b : TypeTag) (pair : TypePair) :
    (operator.choose a b).2.method? pair = operator.method? pair := by
  unfold choose
  split <;> rfl

theorem method?_addMethod (operator : GenericOperator μ) (first second : TypeTag) (method : μ)
    (pair : TypePair) :
    (operator.addMethod first second method).method? pair =
      if (first, second) = pair then some method else operator.method? pair := by
  obtain ⟨a, b⟩ := pair
  by_cases sameFirst : first = a
  · subst sameFirst
    simp [method?, row, addMethod]
  · simp [method?, row, addMethod, sameFirst]

end GenericOperator

namespace OperatorTable

variable {table : OperatorTable (OperatorMethod Value)} {id : OperatorId} {a b : TypeTag}
  {value : Value}

/-- Selecting adds to the cache at most. -/
theorem holds_select (holds : (table.select id a b).2.Holds value) : table.Holds value := by
  obtain ⟨operator, member, pair, found⟩ := holds
  unfold select at member
  split at member
  · exact ⟨operator, member, pair, found⟩
  · next chosen present =>
      rcases Array.mem_or_eq_of_mem_setIfInBounds member with old | rfl
      · exact ⟨operator, old, pair, found⟩
      · refine ⟨chosen, Array.mem_of_getElem? present, pair, ?_⟩
        rw [← chosen.method?_choose a b]
        exact found

theorem holds_of_select (selected : (table.select id a b).1 = some (.function value)) :
    table.Holds value := by
  unfold select at selected
  split at selected
  · cases selected
  · next operator present =>
      obtain ⟨pair, _, found⟩ := Option.bind_eq_some_iff.mp selected
      refine ⟨operator, Array.mem_of_getElem? present, pair, ?_⟩
      rw [← operator.method?_choose a b]
      exact found

theorem holds_addMethod {function : Value}
    (holds : (table.addMethod id a b (.function function)).Holds value) :
    table.Holds value ∨ value = function := by
  obtain ⟨operator, member, pair, found⟩ := holds
  obtain ⟨index, present⟩ := Array.getElem?_of_mem member
  simp only [addMethod, Array.getElem?_modify] at present
  split at present
  · obtain ⟨old, isOld, rfl⟩ := Option.map_eq_some_iff.mp present
    rw [old.method?_addMethod] at found
    split at found
    · cases found
      exact .inr rfl
    · exact .inl ⟨old, Array.mem_of_getElem? isOld, pair, found⟩
  · exact .inl ⟨operator, Array.mem_of_getElem? present, pair, found⟩

end OperatorTable

/-! ## Chains of methods -/

theorem MethodChain.holds_build? {name : String} {sets : List (MethodSet Value)}
    {chain : MethodChain Value} (built : build? name sets = some chain) {value : Value}
    (holds : chain.Holds value) : ∃ methods ∈ sets, methods.Holds value := by
  unfold build? at built
  dsimp only at built
  split at built
  · cases built
  · cases built
    rcases holds with inEntries | inBefores | inAfters
    · rcases List.mem_append.mp inEntries with isAround | isPrimary
      · obtain ⟨methods, member, found⟩ := List.mem_filterMap.mp isAround
        exact ⟨methods, member, .inr (.inr (.inr found))⟩
      · obtain ⟨methods, member, found⟩ := List.mem_filterMap.mp isPrimary
        exact ⟨methods, member, .inl found⟩
    · obtain ⟨methods, member, found⟩ := List.mem_filterMap.mp inBefores
      exact ⟨methods, member, .inr (.inl found)⟩
    · obtain ⟨methods, member, found⟩ := List.mem_filterMap.mp (List.mem_reverse.mp inAfters)
      exact ⟨methods, member, .inr (.inr (.inl found))⟩

end ObjectLisp
