import ObjectLisp.Interp.Run

/-!
# Resolution of names

The frames around a form are described by ribs, one for each `let` or function
that surrounds it, innermost first.  A rib lists the names that are bound there
in the order of their slots, each with what binds it.

The judgements of this module say what analysis makes of a form in the midst of
such ribs.  A name becomes the address of its innermost binder, a global or a
dynamic variable, or a value.  All other rules say in which ribs the parts of a
form stand: the values of a `let` and the defaults of parameters stand outside,
the bodies inside of the new rib, and a macro call stands for its expansion.  As
expanders may do anything, the judgements also speak of the states before and
after.
-/

namespace ObjectLisp

/-! ## Ribs -/

namespace Scope

/-- What binds a name. -/
inductive Binder where
  | let_
  | parameter
  /-- The definition of a method, which binds the continuation. -/
  | method
deriving DecidableEq

/-- A name that is bound. -/
structure Entry where
  binder : Binder
  name : SymbolId
deriving DecidableEq

/-- Names that are bound in the same way. -/
def Binder.entries (binder : Binder) (names : List SymbolId) : List Entry :=
  names.map (Entry.mk binder)

@[simp]
theorem Binder.map_name_entries (binder : Binder) (names : List SymbolId) :
    (binder.entries names).map Entry.name = names := by
  simp [entries, Function.comp_def]

theorem Binder.forall_mem_entries {binder : Binder} {names : List SymbolId}
    {holds : Entry → Prop} :
    (∀ entry ∈ binder.entries names, holds entry) ↔ ∀ name ∈ names, holds ⟨binder, name⟩ :=
  List.forall_mem_map

/-- The names that are bound around a form, innermost rib first. -/
abbrev Ribs := List (List Entry)

/-- The names of the frames that ribs describe. -/
def Ribs.frames (ribs : Ribs) : List (List SymbolId) := ribs.map fun rib => rib.map Entry.name

/-- Some rib binds the name. -/
def Binds (ribs : Ribs) (name : SymbolId) : Prop := ∃ rib ∈ ribs, ∃ entry ∈ rib, entry.name = name

/-- The innermost binder of a name, with the address of its slot: no rib further in binds the name,
and no later entry of the same rib does. -/
inductive Innermost (name : SymbolId) : Ribs → Binder → Address → Prop where
  | here {binder : Binder} {outer : Ribs} (before : List Entry) {behind : List Entry}
      (last : ∀ entry ∈ behind, entry.name ≠ name) :
      Innermost name ((before ++ ⟨binder, name⟩ :: behind) :: outer) binder ⟨0, before.length⟩
  | outer {binder : Binder} {rib : List Entry} {ribs : Ribs} {level index : Nat}
      (absent : ∀ entry ∈ rib, entry.name ≠ name)
      (innermost : Innermost name ribs binder ⟨level, index⟩) :
      Innermost name (rib :: ribs) binder ⟨level + 1, index⟩

variable {name : SymbolId} {rib : List Entry} {ribs : Ribs} {address : Address}

theorem lastIndex?_eq_none_iff {names : List SymbolId} :
    lastIndex? name names = none ↔ name ∉ names := by
  induction names with
  | nil => simp [lastIndex?]
  | cons first names ih =>
      unfold lastIndex?
      split
      · next index found => simp_all
      · next absent => simp [ih.mp absent, eq_comm]

theorem exists_entry_of_lastIndex? {index : Nat}
    (found : lastIndex? name (rib.map Entry.name) = some index) :
    ∃ before binder behind, rib = before ++ ⟨binder, name⟩ :: behind ∧ before.length = index ∧
      ∀ entry ∈ behind, entry.name ≠ name := by
  induction rib generalizing index with
  | nil => cases found
  | cons first rib ih =>
      rw [List.map_cons, lastIndex?] at found
      split at found
      · next later isLater =>
          cases found
          obtain ⟨before, binder, behind, rfl, length, last⟩ := ih isLater
          exact ⟨first :: before, binder, behind, rfl, by simp [length], last⟩
      · next absent =>
          split at found
          · next same =>
              cases found
              subst same
              have last := lastIndex?_eq_none_iff.mp absent
              exact ⟨[], first.binder, rib, rfl, rfl, by simpa using last⟩
          · cases found

/-- The address of a name is that of its innermost binder. -/
theorem exists_innermost (found : addressIn name ribs.frames = some address) :
    ∃ binder, Innermost name ribs binder address := by
  induction ribs generalizing address with
  | nil => cases found
  | cons rib ribs ih =>
      rw [Ribs.frames, List.map_cons, addressIn] at found
      split at found
      · next index isIndex =>
          cases found
          obtain ⟨before, binder, behind, rfl, rfl, last⟩ := exists_entry_of_lastIndex? isIndex
          exact ⟨binder, .here before last⟩
      · next absent =>
          obtain ⟨outer, isOuter, rfl⟩ := Option.map_eq_some_iff.mp found
          obtain ⟨binder, innermost⟩ := ih isOuter
          have noEntry := lastIndex?_eq_none_iff.mp absent
          exact ⟨binder, .outer (by simpa using noEntry) innermost⟩

/-- A name without an address is not bound. -/
theorem not_binds (absent : addressIn name ribs.frames = none) : ¬ Binds ribs name := by
  induction ribs with
  | nil =>
      rintro ⟨rib, member, _⟩
      cases member
  | cons rib ribs ih =>
      rw [Ribs.frames, List.map_cons, addressIn] at absent
      split at absent
      · cases absent
      · next noIndex =>
          have outside := ih (Option.map_eq_none_iff.mp absent)
          have noEntry := lastIndex?_eq_none_iff.mp noIndex
          rintro ⟨other, member, entry, isEntry, rfl⟩
          rcases List.mem_cons.mp member with rfl | isOuter
          · exact noEntry (List.mem_map_of_mem isEntry)
          · exact outside ⟨other, isOuter, entry, isEntry, rfl⟩

theorem Innermost.exists_mem {binder : Binder} (innermost : Innermost name ribs binder address) :
    ∃ rib ∈ ribs, ⟨binder, name⟩ ∈ rib := by
  induction innermost with
  | here before last => exact ⟨_, List.mem_cons_self, by simp⟩
  | outer absent innermost ih =>
      obtain ⟨rib, member, isEntry⟩ := ih
      exact ⟨rib, List.mem_cons_of_mem _ member, isEntry⟩

theorem Innermost.binds {binder : Binder} (innermost : Innermost name ribs binder address) :
    Binds ribs name := by
  obtain ⟨rib, member, isEntry⟩ := innermost.exists_mem
  exact ⟨rib, member, _, isEntry, rfl⟩

end Scope

namespace Resolution

open Scope

/-! ## Names -/

/-- The name stands for a value: a keyword for itself, and a constant for its global value. -/
inductive Fixed (interp : Interp) (name : SymbolId) : Value → Prop where
  | keyword (kind : interp.symbols.kindOf name = .keyword) : Fixed interp name (.symbol name)
  | constant {value : Value} (kind : interp.symbols.kindOf name = .constant)
      (defined : interp.globals.get? name = some value) : Fixed interp name value

/-- What a name is resolved to.  One that is bound becomes the slot of its innermost binder, unless
the name stands for a value, which no written parameter does. -/
inductive Name (ribs : Ribs) (name : SymbolId) (interp : Interp) : Expr → Prop where
  | slot {binder : Binder} {address : Address} (bound : Innermost name ribs binder address)
      (variable_ : ∀ value, ¬ Fixed interp name value) :
      Name ribs name interp (.local_ address name)
  | global (free : ¬ Binds ribs name) (variable_ : ∀ value, ¬ Fixed interp name value)
      (lexical : interp.symbols.isDynamic name = false) : Name ribs name interp (.global name)
  | dynamic (free : ¬ Binds ribs name) (variable_ : ∀ value, ¬ Fixed interp name value)
      (dynamic : interp.symbols.isDynamic name = true) : Name ribs name interp (.dynamic name)
  | value {value : Value} (fixed : Fixed interp name value)
      (noParameter : ∀ address, ¬ Innermost name ribs .parameter address) :
      Name ribs name interp (.literal value)

/-- What an assignment to a name is resolved to.  One that is bound is assigned in the slot of its
innermost binder. -/
inductive Target (ribs : Ribs) (name : SymbolId) (value : Expr) (interp : Interp) :
    Expr → Prop where
  | slot {binder : Binder} {address : Address} (bound : Innermost name ribs binder address) :
      Target ribs name value interp (.setLocal address value)
  | global (free : ¬ Binds ribs name) (lexical : interp.symbols.isDynamic name = false) :
      Target ribs name value interp (.setGlobal name value)
  | dynamic (free : ¬ Binds ribs name) (dynamic : interp.symbols.isDynamic name = true) :
      Target ribs name value interp (.setDynamic name value)

/-! ## Heads of lists -/

/-- A call of the name is a macro call: it is not bound, and its global value is an expander. -/
def Expands (ribs : Ribs) (name : SymbolId) (index : Nat) (interp : Interp) : Prop :=
  ¬ Binds ribs name ∧ interp.globals.get? name = some (.expander index)

/-- A list with this head is a call of a function: no special form, no macro call and no access to
a member. -/
def Applies (ribs : Ribs) (head : Value) (interp : Interp) : Prop :=
  ∀ name, head = .symbol name → interp.words.form? name = none ∧
    (∀ index, ¬ Expands ribs name index interp) ∧
    Symbol.memberName? (interp.symbols.nameOf name) = none

/-- The state in which an expander is called. -/
def expanding (interp : Interp) : Interp :=
  { interp with counters.expansions := interp.counters.expansions + 1 }

/-! ## Forms -/

mutual

/-- What a form is resolved to, with the states before and after. -/
inductive Form : Ribs → Value → Interp → Expr → Interp → Prop where
  | name {ribs name interp expr} (resolved : Name ribs name interp expr) :
      Form ribs (.symbol name) interp expr interp
  | datum {ribs form interp} (noName : ∀ name, form ≠ .symbol name)
      (noList : ∀ id car cdr, form ≠ .cons id car cdr) :
      Form ribs form interp (.literal form) interp
  | special {ribs form name arguments special before expr after}
      (listed : form.toList? = some (.symbol name :: arguments))
      (isSpecial : before.words.form? name = some special)
      (resolved : Special ribs special arguments before expr after) :
      Form ribs form before expr after
  | expansion {ribs form name arguments index fuel loc expanded before middle expr after}
      (listed : form.toList? = some (.symbol name :: arguments))
      (noSpecial : before.words.form? name = none) (expands : Expands ribs name index before)
      (called : (Engine.ofFuel fuel).apply (.closure index) arguments loc (expanding before) =
        .ok expanded middle)
      (resolved : Form ribs expanded middle expr after) : Form ribs form before expr after
  | member {ribs form name object others member before middle objectExpr exprs loc after}
      (listed : form.toList? = some (.symbol name :: object :: others))
      (noSpecial : before.words.form? name = none)
      (noExpander : ∀ index, ¬ Expands ribs name index before)
      (isMember : Symbol.memberName? (before.symbols.nameOf name) = some member)
      (first : Form ribs object before objectExpr middle)
      (rest : Forms ribs others middle exprs after) :
      Form ribs form before (.member member objectExpr exprs loc) after
  | call {ribs form head arguments before middle callee exprs loc after}
      (listed : form.toList? = some (head :: arguments)) (applies : Applies ribs head before)
      (first : Form ribs head before callee middle)
      (rest : Forms ribs arguments middle exprs after) :
      Form ribs form before (.apply callee exprs loc) after

/-- What forms are resolved to, from left to right. -/
inductive Forms : Ribs → List Value → Interp → List Expr → Interp → Prop where
  | nil {ribs interp} : Forms ribs [] interp [] interp
  | cons {ribs form forms before middle expr exprs after}
      (first : Form ribs form before expr middle)
      (rest : Forms ribs forms middle exprs after) :
      Forms ribs (form :: forms) before (expr :: exprs) after

/-- What a body is resolved to. -/
inductive Body : Ribs → List Value → Interp → Expr → Interp → Prop where
  | empty {ribs interp} : Body ribs [] interp (.literal .null) interp
  | single {ribs form before expr after} (resolved : Form ribs form before expr after) :
      Body ribs [form] before expr after
  | block {ribs first second others before exprs after}
      (resolved : Forms ribs (first :: second :: others) before exprs after) :
      Body ribs (first :: second :: others) before (.block exprs) after

/-- What the default of a parameter is resolved to. -/
inductive Default : Ribs → Option Value → Interp → Option Expr → Interp → Prop where
  | none {ribs interp} : Default ribs none interp none interp
  | some {ribs form before init after} (resolved : Form ribs form before init after) :
      Default ribs (some form) before (some init) after

/-- What parameters are resolved to.  Each of them has to be lexical, and its default stands in the
ribs around the function. -/
inductive Parameters : Ribs → List (Param Value) → Interp → List (Param Expr) → Interp → Prop where
  | nil {ribs interp} : Parameters ribs [] interp [] interp
  | cons {ribs name kind keyword form params before middle init written after}
      (lexical : before.symbols.isDynamic name = false)
      (default : Default ribs form before init middle)
      (rest : Parameters ribs params middle written after) :
      Parameters ribs ({ name, kind, init := form, keyword } :: params) before
        ({ name, kind, init, keyword } :: written) after

/-- What a function is resolved to.  Its body stands in a rib of the hidden and the written
parameters. -/
inductive Function : Ribs → Option SymbolId → List SymbolId → Value → List Value → Interp →
    Template Expr → Interp → Prop where
  | intro {ribs name hidden list forms params symbols written body before middle after}
      (parsed : LambdaList.parse before.words.markers before.symbols list = (.ok params, symbols))
      (defaults : Parameters ribs params { before with symbols } written middle)
      (inner : Body ((Binder.entries .method hidden ++
        Binder.entries .parameter (params.map Param.name)) :: ribs) forms middle body after) :
      Function ribs name hidden list forms before
        { name
          params.list := hidden.map (fun name => { name, kind := .required }) ++ written
          body } after

/-- What the values of bindings are resolved to, of which all names are dynamic or none is. -/
inductive Values : Ribs → (dynamic : Bool) → List (SymbolId × Value) → Interp →
    List (SymbolId × Expr) → Interp → Prop where
  | nil {ribs dynamic interp} : Values ribs dynamic [] interp [] interp
  | cons {ribs dynamic name form pairs before middle init inits after}
      (allowed : before.symbols.isDynamic name = dynamic)
      (first : Form ribs form before init middle)
      (rest : Values ribs dynamic pairs middle inits after) :
      Values ribs dynamic ((name, form) :: pairs) before ((name, init) :: inits) after

/-- What the default of a slot is resolved to.  One that is no literal becomes a function. -/
inductive SlotValue : Ribs → Option Value → Interp → SlotInit Expr → Interp → Prop where
  | none {ribs interp} : SlotValue ribs none interp (.constant .null) interp
  | constant {ribs form before value after}
      (resolved : Form ribs form before (.literal value) after) :
      SlotValue ribs (some form) before (.constant value) after
  | computed {ribs form before expr middle template after}
      (resolved : Form ribs form before expr middle) (noLiteral : ∀ value, expr ≠ .literal value)
      (again : Function ribs .none [] .null [form] middle template after) :
      SlotValue ribs (some form) before (.computed template) after

/-- What the slots of a class are resolved to. -/
inductive Slots : Ribs → List Value → Interp → List (String × SlotInit Expr) → Interp → Prop where
  | nil {ribs interp} : Slots ribs [] interp [] interp
  | cons {ribs item name init items before middle value slots after}
      (written : Analysis.slot? item = some (name, init))
      (first : SlotValue ribs init before value middle)
      (rest : Slots ribs items middle slots after) :
      Slots ribs (item :: items) before ((middle.symbols.nameOf name, value) :: slots) after

/-- What the value of a definition is resolved to.  A function takes the name that is defined. -/
inductive Definition : Ribs → List Value → Interp → SymbolId → Expr → Interp → Prop where
  | bare {ribs name interp} : Definition ribs [.symbol name] interp name (.literal .null) interp
  | function {ribs name value head list forms before template after}
      (listed : value.toList? = some (.symbol head :: list :: forms))
      (isLambda : before.words.form? head = some .lambda)
      (resolved : Function ribs (some name) [] list forms before template after) :
      Definition ribs [.symbol name, value] before name (.lambda template) after
  | value {ribs name value before expr after}
      (noFunction : ∀ head list forms, value.toList? = some (.symbol head :: list :: forms) →
        before.words.form? head ≠ some .lambda)
      (resolved : Form ribs value before expr after) :
      Definition ribs [.symbol name, value] before name expr after

/-- What a special form is resolved to. -/
inductive Special : Ribs → SpecialForm → List Value → Interp → Expr → Interp → Prop where
  | quote {ribs datum interp} : Special ribs .quote [datum] interp (.literal datum) interp
  | quasiquote {ribs template before expr after}
      (resolved : Quoted ribs 0 template before expr after) :
      Special ribs .quasiquote [template] before expr after
  | if_ {ribs test yes before middle testExpr yesExpr after}
      (first : Form ribs test before testExpr middle)
      (second : Form ribs yes middle yesExpr after) :
      Special ribs .if_ [test, yes] before (.if_ testExpr yesExpr (.literal .null)) after
  | ifElse {ribs test yes no before tested middle testExpr yesExpr noExpr after}
      (first : Form ribs test before testExpr tested)
      (second : Form ribs yes tested yesExpr middle) (third : Form ribs no middle noExpr after) :
      Special ribs .if_ [test, yes, no] before (.if_ testExpr yesExpr noExpr) after
  | orEmpty {ribs interp} : Special ribs .or [] interp (.literal .null) interp
  | orSingle {ribs form before expr after} (resolved : Form ribs form before expr after) :
      Special ribs .or [form] before expr after
  | or {ribs first second others before exprs after}
      (resolved : Forms ribs (first :: second :: others) before exprs after) :
      Special ribs .or (first :: second :: others) before (.or exprs) after
  | andEmpty {ribs interp} : Special ribs .and [] interp (.literal (.bool true)) interp
  | andSingle {ribs form before expr after} (resolved : Form ribs form before expr after) :
      Special ribs .and [form] before expr after
  | and {ribs first second others before exprs after}
      (resolved : Forms ribs (first :: second :: others) before exprs after) :
      Special ribs .and (first :: second :: others) before (.and exprs) after
  | block {ribs forms before expr after} (resolved : Body ribs forms before expr after) :
      Special ribs .block forms before expr after
  | while_ {ribs test forms before middle testExpr body after}
      (first : Form ribs test before testExpr middle)
      (rest : Body ribs forms middle body after) :
      Special ribs .while_ (test :: forms) before (.while_ testExpr body) after
  | lambda {ribs list forms before template after}
      (resolved : Function ribs none [] list forms before template after) :
      Special ribs .lambda (list :: forms) before (.lambda template) after
  | defMacro {ribs name list forms before template after}
      (resolved : Function ribs (some name) [] list forms before template after) :
      Special ribs .defMacro (.symbol name :: list :: forms) before (.defMacro name template) after
  | def_ {ribs arguments before name value after}
      (resolved : Definition ribs arguments before name value after) :
      Special ribs .def_ arguments before (.def_ name value) after
  | defConstant {ribs arguments before name value after}
      (resolved : Definition ribs arguments before name value after) :
      Special ribs .defConstant arguments before (.defConstant name value) after
  | set {ribs name form before value after expr}
      (assignable : before.symbols.assignmentProblem? name = none)
      (resolved : Form ribs form before value after)
      (target : Target ribs name value after expr) :
      Special ribs .set [.symbol name, form] before expr after
  | setMember {ribs target head object form member before middle objectExpr value loc after}
      (listed : target.toList? = some [.symbol head, object])
      (isMember : Symbol.memberName? (before.symbols.nameOf head) = some member)
      (first : Form ribs object before objectExpr middle)
      (second : Form ribs form middle value after) :
      Special ribs .set [target, form] before (.setMember member objectExpr value loc) after
  | dynamicLet {ribs list pairs forms before middle inits body after}
      (written : list.toList?.bind (·.mapM Analysis.binding?) = some pairs)
      (values : Values ribs true pairs before inits middle)
      (rest : Body ribs forms middle body after) :
      Special ribs .dynamicLet (list :: forms) before (.dynamicLet inits body) after
  | let_ {ribs list pairs forms before middle inits body after}
      (written : list.toList?.bind (·.mapM Analysis.binding?) = some pairs)
      (values : Values ribs false pairs before inits middle)
      (inner : Body (Binder.entries .let_ (pairs.map Prod.fst) :: ribs) forms middle body after) :
      Special ribs .let_ (list :: forms) before (.let_ (inits.map Prod.snd) body) after
  | callNext {ribs interp binder address loc}
      (bound : Innermost interp.words.nextMethod ribs binder address) :
      Special ribs .callNextMethod [] interp
        (.callNext (.local_ address interp.words.nextMethod) none loc) interp
  | callNextWith {ribs form forms before binder address exprs loc after}
      (bound : Innermost before.words.nextMethod ribs binder address)
      (resolved : Forms ribs (form :: forms) before exprs after) :
      Special ribs .callNextMethod (form :: forms) before
        (.callNext (.local_ address before.words.nextMethod) (some exprs) loc) after
  | hasNext {ribs arguments interp binder address}
      (bound : Innermost interp.words.nextMethod ribs binder address) :
      Special ribs .hasNextMethod arguments interp
        (.hasNext (.local_ address interp.words.nextMethod)) interp
  | defClass {ribs name parents forms items before middle exprs slots after}
      {slotList : Option Value}
      (parentsListed : parents.toList? = some forms)
      (slotsListed : (slotList.getD .null).toList? = some items)
      (first : Forms ribs forms before exprs middle)
      (rest : Slots ribs items middle slots after) :
      Special ribs .defClass (.symbol name :: parents :: slotList.toList) before
        (.defClass name exprs slots) after
  | defBehavior {ribs target name others qualifier list forms loc before middle targetExpr method
        after}
      (written : Analysis.qualified loc others before = .ok (qualifier, list, forms) before)
      (first : Form ribs target before targetExpr middle)
      (rest : Function ribs (some name) [middle.words.nextMethod] list forms middle method after) :
      Special ribs .defBehavior (target :: .symbol name :: others) before
        (.defBehavior targetExpr (after.symbols.nameOf name) qualifier method) after

/-- What a template is resolved to.  `level` is the number of templates around it whose unquotes
have not been reached. -/
inductive Quoted : Ribs → (level : Nat) → Value → Interp → Expr → Interp → Prop where
  | nested {ribs level template mark argument before expr after}
      (marked : Quasi.marked? before.words template = some (mark, .nested, argument))
      (resolved : Quoted ribs (level + 1) argument before expr after) :
      Quoted ribs level template before (Quasi.rebuild mark expr) after
  | kept {ribs level template name mark argument before expr after}
      (marked : Quasi.marked? before.words template = some (name, mark, argument))
      (isUnquote : mark ≠ .nested) (resolved : Quoted ribs level argument before expr after) :
      Quoted ribs (level + 1) template before (Quasi.rebuild name expr) after
  | unquote {ribs template name argument before expr after}
      (marked : Quasi.marked? before.words template = some (name, .unquote, argument))
      (resolved : Form ribs argument before expr after) : Quoted ribs 0 template before expr after
  | list {ribs level id car cdr before expr after}
      (unmarked : Quasi.marked? before.words (.cons id car cdr) = none)
      (resolved : QuotedList ribs level (.cons id car cdr) before expr after) :
      Quoted ribs level (.cons id car cdr) before expr after
  | vector {ribs level index items before middle expr after}
      (listed : Eval.list (before.heap.items index).toList before = .ok items middle)
      (resolved : QuotedList ribs level items middle expr after) :
      Quoted ribs level (.vector index) before (.construct .vector [expr]) after
  | datum {ribs level template interp} (noCell : ∀ id car cdr, template ≠ .cons id car cdr)
      (noVector : ∀ index, template ≠ .vector index) :
      Quoted ribs level template interp (.literal template) interp

/-- What a list in a template is resolved to. -/
inductive QuotedList : Ribs → (level : Nat) → Value → Interp → Expr → Interp → Prop where
  | cons {ribs level id car cdr part before middle parts tail after}
      (first : QuotedElement ribs level car before part middle)
      (rest : QuotedRest ribs level cdr middle parts tail after) :
      QuotedList ribs level (.cons id car cdr) before (Quasi.assemble (part :: parts) tail) after
  | null {ribs level interp} : QuotedList ribs level .null interp (.literal .null) interp
  | datum {ribs level list interp} (noCell : ∀ id car cdr, list ≠ .cons id car cdr)
      (noNull : list ≠ .null) :
      QuotedList ribs level list interp (Quasi.assemble [] (some (.literal list))) interp

/-- What the rest of a list in a template is resolved to: its parts, and its tail. -/
inductive QuotedRest : Ribs → (level : Nat) → Value → Interp → List Quasi.Part → Option Expr →
    Interp → Prop where
  | null {ribs level interp} : QuotedRest ribs level .null interp [] none interp
  | marked {ribs level list before expr after}
      (marked : (Quasi.marked? before.words list).isSome)
      (resolved : Quoted ribs level list before expr after) :
      QuotedRest ribs level list before [] (some expr) after
  | cons {ribs level id car cdr part before middle parts tail after}
      (unmarked : Quasi.marked? before.words (.cons id car cdr) = none)
      (first : QuotedElement ribs level car before part middle)
      (rest : QuotedRest ribs level cdr middle parts tail after) :
      QuotedRest ribs level (.cons id car cdr) before (part :: parts) tail after
  | datum {ribs level list interp} (noCell : ∀ id car cdr, list ≠ .cons id car cdr)
      (noNull : list ≠ .null) :
      QuotedRest ribs level list interp [] (some (.literal list)) interp

/-- What an element of a list in a template is resolved to. -/
inductive QuotedElement : Ribs → (level : Nat) → Value → Interp → Quasi.Part → Interp → Prop where
  | splice {ribs element name argument before expr after}
      (marked : Quasi.marked? before.words element = some (name, .splice, argument))
      (resolved : Form ribs argument before expr after) :
      QuotedElement ribs 0 element before (.splice expr) after
  | item {ribs level element before expr after}
      (noSplice : level = 0 → ∀ name argument,
        Quasi.marked? before.words element ≠ some (name, .splice, argument))
      (resolved : Quoted ribs level element before expr after) :
      QuotedElement ribs level element before (.item expr) after

end

end Resolution

end ObjectLisp
