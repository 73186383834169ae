import ObjectLisp.Session
import ObjectLisp.Proofs.Evaluation.Outcome
import ObjectLisp.Proofs.Reading.Spelling
import ObjectLisp.Proofs.Symbols.Keywords

/-!
# Variables that a host defines

A host defines a global variable by a name and looks it up by a name.  To define it
the name is interned as it is written, so that `package@name` goes to the package it
mentions.  A lookup takes every name for a name of the current package.

The two agree on names without a package.  A qualified name defines a variable of the
package it mentions, where it is found under the plain name, and the variable that a
lookup of the name means is left as it was.
-/

namespace ObjectLisp

/-! ## Qualified names -/

/-- A qualified name is longer than its plain part. -/
theorem Symbol.plain_ne_of_splitQualified? {name package plain : String}
    (split : splitQualified? name = some (package, plain)) : plain ≠ name := by
  rintro rfl
  have parts := congrArg List.length (toList_of_splitQualified? split).1
  rw [List.length_append, List.length_cons] at parts
  omega

namespace Session

variable {interp after : Interp} {name : String} {value : Value} {symbol : SymbolId}

/-- A definition interns the name and gives the symbol its value, unless that may not be assigned
to. -/
theorem define_eq_ok_iff :
    define name value interp = .ok symbol after ↔ ∃ symbols,
      interp.symbols.intern name interp.package = .ok (symbol, symbols) ∧
      symbols.assignmentProblem? symbol = none ∧
      { interp with symbols, globals := interp.globals.set symbol value } = after := by
  unfold define
  constructor
  · intro defined
    obtain ⟨made, middle, interned, defined⟩ := Eval.bind_eq_ok_iff.mp defined
    obtain ⟨_, checked, assignable, defined⟩ := Eval.bind_eq_ok_iff.mp defined
    unfold Eval.intern at interned
    unfold Eval.checkAssignable at assignable
    split at interned
    · next found =>
        cases interned
        split at assignable
        · next noProblem =>
            cases assignable
            cases defined
            exact ⟨_, found, noProblem, rfl⟩
        · cases assignable
    · cases interned
  · rintro ⟨symbols, interned, noProblem, rfl⟩
    have first : Eval.intern name interp = .ok symbol { interp with symbols } := by
      simp only [Eval.intern, interned]
    have second : Eval.checkAssignable symbol { interp with symbols } =
        .ok () { interp with symbols } := by
      simp only [Eval.checkAssignable, noProblem]
    rw [Eval.bind_of_ok first, Eval.bind_of_ok second]
    rfl

/-- A variable is found under the name that its symbol is found under. -/
theorem global?_set {symbols : SymbolStore} {package : PackageId}
    (found : symbols.find? name package = some symbol) :
    global? { interp with symbols, package, globals := interp.globals.set symbol value } name =
      some value := by
  unfold global?
  rw [found, Option.bind_some, Globals.get?_set, if_pos rfl]

/-- A definition in a package does not concern variables of other names. -/
theorem global?_internIn_of_ne {package : PackageId} {plain : String} (value : Value)
    (coherent : interp.symbols.Coherent) (inside : package < interp.symbols.packages.size)
    (differ : plain ≠ name) :
    global? { interp with
        symbols := (interp.symbols.internIn plain package).2
        globals := interp.globals.set (interp.symbols.internIn plain package).1 value } name =
      global? interp name := by
  have coherentLater := (coherent.internIn plain package).1
  obtain ⟨_, defined⟩ := coherentLater.owns_of_find? (SymbolStore.find?_internIn inside plain)
  have same := SymbolStore.find?_internIn_of_ne inside differ interp.package
  unfold global?
  rw [same]
  cases found : interp.symbols.find? name interp.package with
  | none => rfl
  | some meant =>
      rw [found] at same
      obtain ⟨_, other⟩ := coherentLater.owns_of_find? same
      -- The two symbols have different names.
      have apart : (interp.symbols.internIn plain package).1 ≠ meant := by
        rintro rfl
        exact differ (defined.nameOf.symm.trans other.nameOf)
      rw [Option.bind_some, Option.bind_some, Globals.get?_set, if_neg apart]

/-- A definition keeps the current package, which still exists, and only interns. -/
theorem placed_of_define (reachable : interp.symbols.Reachable)
    (current : interp.package < interp.symbols.packages.size)
    (defined : define name value interp = .ok symbol after) :
    after.package = interp.package ∧ after.symbols.Reachable ∧
      after.package < after.symbols.packages.size := by
  obtain ⟨symbols, interned, _, rfl⟩ := define_eq_ok_iff.mp defined
  constructor
  · rfl
  constructor
  · exact Relation.ReflTransGen.tail reachable (.intern interned)
  · exact Nat.lt_of_lt_of_eq current (SymbolStore.size_intern interned).symm

theorem global?_of_unqualified (current : interp.package < interp.symbols.packages.size)
    (unqualified : Symbol.splitQualified? name = none)
    (defined : define name value interp = .ok symbol after) : global? after name = some value := by
  obtain ⟨symbols, interned, _, rfl⟩ := define_eq_ok_iff.mp defined
  simp only [SymbolStore.intern, unqualified, Except.ok.injEq] at interned
  have found := SymbolStore.find?_internIn current name
  rw [interned] at found
  exact global?_set found

theorem global?_of_qualified {package plain : String} (coherent : interp.symbols.Coherent)
    (qualified : Symbol.splitQualified? name = some (package, plain))
    (defined : define name value interp = .ok symbol after) :
    global? after name = global? interp name ∧
      ∃ id, interp.symbols.findPackage? package = some id ∧
        global? { after with package := id } plain = some value := by
  obtain ⟨symbols, interned, _, rfl⟩ := define_eq_ok_iff.mp defined
  simp only [SymbolStore.intern, qualified] at interned
  cases mentioned : interp.symbols.findPackage? package with
  | none =>
      rw [mentioned] at interned
      cases interned
  | some id =>
      simp only [mentioned, Except.ok.injEq] at interned
      have inside := (Array.findIdx?_eq_some_iff_getElem.mp mentioned).1
      constructor
      · have unchanged := global?_internIn_of_ne value coherent inside
          (Symbol.plain_ne_of_splitQualified? qualified)
        rwa [interned] at unchanged
      · have found := SymbolStore.find?_internIn inside plain
        rw [interned] at found
        exact ⟨id, rfl, global?_set found⟩

/-- What a host defines is read back under the same name exactly if the name mentions no package,
or the value was there before.  A name that mentions a package gives the value to the plain name in
that package, and the variable that is looked up by the whole name stays as it was.  All this holds
where the symbols come from operations on the first store and the current package exists, and a
definition leaves that so. -/
theorem definition_read_back (reachable : interp.symbols.Reachable)
    (current : interp.package < interp.symbols.packages.size)
    (defined : define name value interp = .ok symbol after) :
    (after.package = interp.package ∧ after.symbols.Reachable ∧
      after.package < after.symbols.packages.size) ∧
    (global? after name = some value ↔
      Symbol.splitQualified? name = none ∨ global? interp name = some value) ∧
    ∀ package plain, Symbol.splitQualified? name = some (package, plain) →
      global? after name = global? interp name ∧
        ∃ id, interp.symbols.findPackage? package = some id ∧
          global? { after with package := id } plain = some value := by
  have qualified : ∀ package plain, Symbol.splitQualified? name = some (package, plain) →
      global? after name = global? interp name ∧
        ∃ id, interp.symbols.findPackage? package = some id ∧
          global? { after with package := id } plain = some value :=
    fun _ _ split => global?_of_qualified reachable.coherent split defined
  refine ⟨placed_of_define reachable current defined, ?_, qualified⟩
  cases split : Symbol.splitQualified? name with
  | none => simp [global?_of_unqualified current split defined]
  | some parts => simp [(qualified parts.1 parts.2 split).1]

/-- A name without a package can be defined in a new interpreter, and is read back. -/
theorem definition_read_back_of_plain_name :
    ∃ symbol after, define "x" (.ofNat 5) {} = .ok symbol after ∧
      global? after "x" = some (.ofNat 5) := by
  have plain : Symbol.splitQualified? "x" = none := by decide +kernel
  have interned : SymbolStore.initial.intern "x" PackageId.system =
      .ok (0, (SymbolStore.initial.internIn "x" PackageId.system).2) := by
    simp only [SymbolStore.intern, plain]
    rfl
  have defined : define "x" (.ofNat 5) {} = .ok 0 _ :=
    define_eq_ok_iff.mpr ⟨_, interned, by decide +kernel, rfl⟩
  have reachable : SymbolStore.initial.Reachable := .refl
  have readBack := definition_read_back reachable (by decide) defined
  exact ⟨_, _, defined, readBack.2.1.mpr (.inl plain)⟩

/-- A name with a package can be defined, and is not read back. -/
theorem qualified_definition_not_read_back :
    ∃ (interp after : Interp) (symbol : SymbolId), interp.symbols.Reachable ∧
      interp.package < interp.symbols.packages.size ∧
      define "user@x" (.ofNat 5) interp = .ok symbol after ∧
      global? after "user@x" = none := by
  have qualified : Symbol.splitQualified? "user@x" = some ("user", "x") := by decide +kernel
  have mentioned : SymbolStore.initial.findPackage? "user" = some PackageId.user := by
    decide +kernel
  have interned : SymbolStore.initial.intern "user@x" PackageId.system =
      .ok (0, (SymbolStore.initial.internIn "x" PackageId.user).2) := by
    simp only [SymbolStore.intern, qualified, mentioned]
    rfl
  have absent : (SymbolStore.initial.internIn "x" PackageId.user).2.find? "user@x"
      PackageId.system = none := by decide +kernel
  have defined : define "user@x" (.ofNat 5) {} = .ok 0 _ :=
    define_eq_ok_iff.mpr ⟨_, interned, by decide +kernel, rfl⟩
  refine ⟨{}, _, 0, .refl, by decide, defined, ?_⟩
  unfold global?
  rw [absent, Option.bind_none]

end Session

end ObjectLisp
