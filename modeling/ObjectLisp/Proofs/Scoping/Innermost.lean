import ObjectLisp.Proofs.Scoping.Surroundings

/-!
# Names resolve to their innermost binders

Whatever analysis accepts it resolves as the judgements of resolution say, with the
states before and after, as long as the expanders that it calls define no
constants.  The proof follows the functions of analysis one by one, with an engine
that resolves what it accepts, and then the engines of more and more fuel.

A keyword or constant that a `let` binds is still its value in the body, since only
parameter lists refuse such names.
-/

namespace ObjectLisp

open Regime

namespace Resolution

/-- Whatever the engine accepts it resolves. -/
def Resolver (origin : SymbolStore) (engine : Engine) : Prop :=
  ∀ {ribs context form interp}, Surrounds origin ribs context interp →
    form.Known interp.symbols →
      Resolves origin (engine.analyze form context) (Form ribs form) interp

end Resolution

namespace Analysis

open Resolution Scope

variable {origin : SymbolStore} {ribs : Ribs} {context : Context} {interp : Interp}
  (surrounds : Surrounds origin ribs context interp) {engine : Engine}
  (resolver : Resolver origin engine)

include surrounds resolver

/-! ## Bodies -/

theorem analyzeAll_resolves {forms : List Value}
    (known : ∀ form ∈ forms, form.Known interp.symbols) :
    Resolves origin (engine.analyzeAll context forms) (Forms ribs forms) interp := by
  induction forms generalizing interp with
  | nil => exact .pure surrounds.informed .nil
  | cons form forms ih =>
      obtain ⟨formKnown, formsKnown⟩ := List.forall_mem_cons.mp known
      refine .bind (resolver surrounds formKnown) fun expr middle step => ?_
      refine .bind (ih (surrounds.step step) (step.fitAll formsKnown)) fun exprs after step => ?_
      exact .pure step.1 fun rest first => .cons first rest

theorem body_resolves {forms : List Value} (known : ∀ form ∈ forms, form.Known interp.symbols) :
    Resolves origin (body engine context forms) (Body ribs forms) interp := by
  rcases forms with _ | ⟨form, _ | ⟨second, others⟩⟩
  · exact .pure surrounds.informed .empty
  · exact .imp (resolver surrounds (known form (by simp))) .single
  · refine .bind (analyzeAll_resolves surrounds resolver known) fun exprs after step => ?_
    exact .pure step.1 .block

/-! ## Functions -/

theorem parameterDefault_resolves {init : Option Value}
    (known : ∀ form ∈ init, form.Known interp.symbols) :
    Resolves origin (parameterDefault engine context init) (Default ribs init) interp := by
  cases init with
  | none => exact .pure surrounds.informed .none
  | some form =>
      refine .bind (resolver surrounds (known form rfl)) fun expr after step => ?_
      exact .pure step.1 .some

/-- The parameters keep their names, which may be bound. -/
theorem parameters_resolves (loc : Option SourceLoc) {params : List (Param Value)}
    (accepted : ∀ param ∈ params, Accepted origin interp.symbols param) :
    Regime.informed.Keeps (parameters engine context loc params)
      (fun after written =>
        (written.map Param.name = params.map Param.name ∧
          ∀ param ∈ params, (Entry.mk .parameter param.name).Proper origin after.symbols) ∧
        (origin.NoNewConstants after.symbols → Parameters ribs params interp written after))
      interp := by
  induction params generalizing interp with
  | nil => exact .pure surrounds.informed ⟨by simp, fun _ => .nil⟩
  | cons param params ih =>
      obtain ⟨headAccepted, tailAccepted⟩ := List.forall_mem_cons.mp accepted
      refine .bind (checkLexical_looks loc surrounds.informed param.name) ?_
      rintro _ _ - ⟨rfl, lexical⟩
      -- The name is checked before its default is analysed, and it stays lexical.
      have proper : (Entry.mk .parameter param.name).Proper origin _ :=
        ⟨headAccepted.known, lexical, fun _ => headAccepted.variable_⟩
      refine .bind (parameterDefault_resolves surrounds resolver headAccepted.init)
        fun init middle step resolved => ?_
      refine .bind (Carries.ran (ih (surrounds.step step) fun other member =>
        (tailAccepted other member).leads step.2.1)) ?_
      rintro written after - ⟨-, later, ⟨named, others⟩, rest⟩
      refine .pure later.1 ⟨⟨congrArg (param.name :: ·) named, ?_⟩, fun settled => ?_⟩
      · exact List.forall_mem_cons.mpr ⟨proper.leads (step.trans later).2.1, others⟩
      · exact .cons lexical (resolved (settled.before later.2.1)) (rest settled)

/-- A body stands in the rib of the parameters, the hidden ones before the written ones. -/
theorem function_resolves (loc : Option SourceLoc) (name : Option SymbolId)
    (hidden : List SymbolId) {list : Value} {forms : List Value}
    (hiddenProper : ∀ name ∈ hidden, (Entry.mk .method name).Proper origin interp.symbols)
    (listKnown : list.Known interp.symbols)
    (known : ∀ form ∈ forms, form.Known interp.symbols) :
    Resolves origin (function engine context loc name hidden list forms)
      (Function ribs name hidden list forms) interp := by
  refine .keep (parameterList_parses loc surrounds listKnown) ?_
  rintro params parsed first ⟨⟨written, same⟩, accepted⟩ -
  refine .bind_fit (parameters_resolves (surrounds.step first) resolver loc accepted) ?_
  rintro defaults middle second ⟨named, paramsProper⟩
  have both := first.trans second
  have proper : ∀ entry ∈ Binder.entries .method hidden ++
      Binder.entries .parameter (params.map Param.name), entry.Proper origin middle.symbols := by
    refine List.forall_mem_append.mpr ⟨Binder.forall_mem_entries.mpr ?_,
      Binder.forall_mem_entries.mpr (List.forall_mem_map.mpr paramsProper)⟩
    exact fun name isHidden => (hiddenProper name isHidden).leads both.2.1
  have names : Params.names { list := hidden.map (fun name => { name, kind := .required }) ++
      defaults } = (Binder.entries .method hidden ++
        Binder.entries .parameter (params.map Param.name)).map Entry.name := by
    simp [Params.names, Function.comp_def, named]
  have inner := (surrounds.step both).push proper names
  refine .bind (body_resolves inner resolver (both.fitAll known)) fun body after third => ?_
  exact .pure third.1 fun judged outer => .intro written (same ▸ outer) judged

/-! ## Bindings and definitions -/

/-- The bindings keep their names.  If these are lexical when they are checked, then they are so at
the end. -/
theorem bindingInits_resolves {check : SymbolId → Eval Unit} {dynamic : Bool}
    {pairs : List (SymbolId × Value)}
    (checks : ∀ symbol {interp : Interp}, interp.Informed →
      Looks (check symbol) (fun _ => interp.symbols.isDynamic symbol = dynamic) interp)
    (known : ∀ pair ∈ pairs, (Value.symbol pair.1).Known interp.symbols ∧
      pair.2.Known interp.symbols) :
    Regime.informed.Keeps (bindingInits engine context check pairs)
      (fun after inits =>
        (inits.map Prod.fst = pairs.map Prod.fst ∧ (dynamic = false → ∀ pair ∈ pairs,
          (Entry.mk .let_ pair.1).Proper origin after.symbols)) ∧
        (origin.NoNewConstants after.symbols → Values ribs dynamic pairs interp inits after))
      interp := by
  induction pairs generalizing interp with
  | nil => exact .pure surrounds.informed ⟨by simp, fun _ => .nil⟩
  | cons pair pairs ih =>
      obtain ⟨⟨nameKnown, formKnown⟩, pairsKnown⟩ := List.forall_mem_cons.mp known
      refine .bind (checks pair.1 surrounds.informed) ?_
      rintro _ _ - ⟨rfl, allowed⟩
      refine .bind (resolver surrounds formKnown) fun init middle step resolved => ?_
      refine .bind (Carries.ran (ih (surrounds.step step) fun other member =>
        (pairsKnown other member).imp step.fit step.fit)) ?_
      rintro inits after - ⟨-, later, ⟨named, others⟩, rest⟩
      refine .pure later.1 ⟨⟨congrArg (pair.1 :: ·) named, fun lexical => ?_⟩, fun settled => ?_⟩
      · have proper : (Entry.mk .let_ pair.1).Proper origin _ :=
          ⟨Value.known_symbol.mp nameKnown, allowed.trans lexical, fun same => by cases same⟩
        exact List.forall_mem_cons.mpr ⟨proper.leads (step.trans later).2.1, others lexical⟩
      · exact .cons allowed (resolved (settled.before later.2.1)) (rest settled)

theorem namedValue_resolves (name : SymbolId) {value : Value} (known : value.Known interp.symbols) :
    Resolves origin (namedValue engine context name value)
      (fun before => Definition ribs [.symbol name, value] before name) interp := by
  unfold namedValue
  split
  · next head list forms listed =>
      have parts : ∀ part ∈ .symbol head :: list :: forms, Regime.informed.Fit interp part :=
        fitAll_of_toList? known listed
      refine .get_bind ?_
      split
      · next isLambda =>
          refine .bind (function_resolves surrounds resolver _ _ [] (by simp)
            (parts list (by simp)) fun form member => parts form (by simp [member]))
            fun template after step => ?_
          exact .pure step.1 (.function listed isLambda)
      · next noLambda =>
          refine .imp (resolver surrounds known) (.value ?_)
          intro head' list' forms' listed'
          rw [listed] at listed'
          cases listed'
          exact noLambda
  · next noList =>
      refine .imp (resolver surrounds known) (.value ?_)
      intro head list forms listed
      exact absurd listed (noList head list forms)

theorem definition_resolves (loc : Option SourceLoc) {arguments : List Value}
    (known : ∀ argument ∈ arguments, argument.Known interp.symbols) :
    Resolves origin (definition engine context loc arguments)
      (fun before pair => Definition ribs arguments before pair.1 pair.2) interp := by
  rcases arguments with _ | ⟨name, _ | ⟨value, _ | ⟨_, _⟩⟩⟩
  · exact malformed_keeps surrounds.informed loc _
  · refine .look (definitionName_looks loc surrounds.informed name) ?_
    rintro symbol rfl
    exact .pure surrounds.informed .bare
  · refine .look (definitionName_looks loc surrounds.informed name) ?_
    rintro symbol rfl
    refine .bind (namedValue_resolves surrounds resolver symbol (known value (by simp)))
      fun expr after step => ?_
    exact .pure step.1 id
  · exact malformed_keeps surrounds.informed loc _

/-! ## Assignments -/

variable (loc : Option SourceLoc)

theorem assignment_resolves {target value : Value} (targetKnown : target.Known interp.symbols)
    (valueKnown : value.Known interp.symbols) :
    Resolves origin (assignment engine context loc target value)
      (Special ribs .set [target, value]) interp := by
  unfold assignment
  split
  · next symbol =>
      refine .look (checkAssignable_looks surrounds.informed symbol) fun _ assignable => ?_
      refine .bind (resolver surrounds valueKnown) fun expr after step => .get_bind ?_
      -- The name may have changed while the value was analysed, but what is bound stays lexical.
      have later := surrounds.step step
      have assigned : ∀ {made}, Target ribs symbol expr after made →
          Resolves origin (pure made) (fun _ made last => Form ribs value interp expr after →
            Special ribs .set [.symbol symbol, value] interp made last) after :=
        fun target => .pure step.1 fun resolved => .set assignable resolved target
      split
      · next dynamic => exact assigned (.dynamic (later.not_binds_of_isDynamic dynamic) dynamic)
      · next lexical =>
          split
          · next address found =>
              obtain ⟨binder, innermost⟩ := surrounds.exists_innermost found
              exact assigned (.slot innermost)
          · next absent =>
              exact assigned (.global (surrounds.not_binds absent) (Bool.not_eq_true _ ▸ lexical))
  · split
    · next head object listed =>
        have parts : ∀ part ∈ [.symbol head, object], Regime.informed.Fit interp part :=
          fitAll_of_toList? targetKnown listed
        refine .look (nameOf_looks surrounds.informed head) ?_
        rintro _ rfl
        split
        · next member isMember =>
            refine .bind (resolver surrounds (parts object (by simp)))
              fun objectExpr middle step => ?_
            refine .bind (resolver (surrounds.step step) (step.fit valueKnown))
              fun expr after step => ?_
            exact .pure step.1 fun second first => .setMember listed isMember first second
        · exact malformed_keeps surrounds.informed loc _
    · exact malformed_keeps surrounds.informed loc _

/-! ## Classes and behaviors -/

theorem slotInit_resolves {init : Option Value}
    (known : ∀ form ∈ init, form.Known interp.symbols) :
    Resolves origin (slotInit engine context loc init) (SlotValue ribs init) interp := by
  cases init with
  | none => exact .pure surrounds.informed .none
  | some form =>
      have formKnown := known form rfl
      refine .bind (resolver surrounds formKnown) fun expr middle step => ?_
      split
      · next value => exact .pure step.1 .constant
      · next noLiteral =>
          refine .bind (function_resolves (surrounds.step step) resolver loc none [] (by simp)
            (Value.known_of_isAtom rfl) (List.forall_mem_singleton.mpr (step.fit formKnown)))
            fun template after step => ?_
          exact .pure step.1 fun again resolved => .computed resolved noLiteral again

theorem slots_resolves {items : List Value} (known : ∀ item ∈ items, item.Known interp.symbols) :
    Resolves origin (slots engine context loc items) (Slots ribs items) interp := by
  induction items generalizing interp with
  | nil => exact .pure surrounds.informed .nil
  | cons item items ih =>
      obtain ⟨itemKnown, itemsKnown⟩ := List.forall_mem_cons.mp known
      unfold slots
      split
      · exact malformed_keeps surrounds.informed loc _
      · next name init written =>
          have initKnown : ∀ form ∈ init, Regime.informed.Fit interp form :=
            fit_of_slot? written itemKnown
          refine .bind (slotInit_resolves surrounds resolver loc initKnown)
            fun value middle step => ?_
          have later := surrounds.step step
          refine .look (nameOf_looks later.informed name) ?_
          rintro _ rfl
          refine .bind (ih later (step.fitAll itemsKnown)) fun rest after step => ?_
          exact .pure step.1 fun rest first => .cons written first rest

theorem classDefinition_resolves {name parents : Value} (slotList : Option Value)
    (parentsKnown : parents.Known interp.symbols)
    (slotsKnown : ∀ slots ∈ slotList, slots.Known interp.symbols) :
    Resolves origin (classDefinition engine context loc name parents (slotList.getD .null))
      (Special ribs .defClass (name :: parents :: slotList.toList)) interp := by
  refine .look (definitionName_looks loc surrounds.informed name) ?_
  rintro symbol rfl
  split
  · exact malformed_keeps surrounds.informed loc _
  · next forms parentsListed =>
      have formsKnown : ∀ form ∈ forms, Regime.informed.Fit interp form :=
        fitAll_of_toList? parentsKnown parentsListed
      refine .bind (analyzeAll_resolves surrounds resolver formsKnown) fun exprs middle step => ?_
      split
      · exact malformed_keeps step.1 loc _
      · next items slotsListed =>
          have itemsKnown : ∀ item ∈ items, Regime.informed.Fit middle item := by
            refine step.fitAll (fitAll_of_toList? ?_ slotsListed)
            cases slotList with
            | none => exact Value.known_of_isAtom rfl
            | some slots => exact slotsKnown slots rfl
          refine .bind (slots_resolves (surrounds.step step) resolver loc itemsKnown)
            fun slots after step => ?_
          exact .pure step.1 fun rest first => .defClass parentsListed slotsListed first rest

/-- The method of a behavior has a hidden parameter. -/
theorem behaviorDefinition_resolves (name : SymbolId) {target : Value} {rest : List Value}
    (targetKnown : target.Known interp.symbols)
    (known : ∀ form ∈ rest, form.Known interp.symbols) :
    Resolves origin (behaviorDefinition engine context loc target name rest)
      (Special ribs .defBehavior (target :: .symbol name :: rest)) interp := by
  refine .look (qualified_looks loc surrounds.informed known) ?_
  rintro ⟨qualifier, list, forms⟩ ⟨written, listKnown, formsKnown⟩
  dsimp only
  split
  · exact malformed_keeps surrounds.informed loc _
  · refine .bind (resolver surrounds targetKnown) fun targetExpr middle step => .get_bind ?_
    have later := surrounds.step step
    have hidden : ∀ name ∈ [middle.words.nextMethod],
        (Entry.mk .method name).Proper origin middle.symbols :=
      List.forall_mem_singleton.mpr
        ⟨later.informed.hidden, later.informed.lexical, fun same => by cases same⟩
    refine .bind (function_resolves later resolver loc (some name) _ hidden (step.fit listKnown)
      (step.fitAll formsKnown)) fun method after step => ?_
    refine .look (nameOf_looks step.1 name) ?_
    rintro _ rfl
    exact .pure step.1 fun rest first => .defBehavior written first rest

end Analysis

/-! ## Templates -/

namespace Quasi

open Resolution Scope

variable {origin : SymbolStore} {ribs : Ribs} {context : Context} {engine : Engine}

mutual

theorem expand_resolves (resolver : Resolver origin engine) (fuel level : Nat)
    {template : Value} {interp : Interp}
    (surrounds : Surrounds origin ribs context interp) (known : template.Known interp.symbols) :
    Resolves origin (expand engine context fuel level template) (Quoted ribs level template)
      interp := by
  cases fuel with
  | zero =>
      unfold expand
      exact .spent surrounds.informed
  | succ fuel =>
      have parts : ∀ {symbol mark argument},
          marked? interp.words template = some (symbol, mark, argument) →
            Regime.informed.Fit interp argument :=
        fun marked => (fit_of_marked? marked known).2
      unfold expand
      cases template with
      | cons id car cdr =>
          refine .get_bind ?_
          split
          · next symbol argument marked =>
              refine .bind (expand_resolves resolver fuel (level + 1) surrounds (parts marked))
                fun expr after step => ?_
              exact .pure step.1 (.nested marked)
          · next symbol mark argument noNested marked =>
              cases level with
              | succ level =>
                  refine .bind (expand_resolves resolver fuel level surrounds (parts marked))
                    fun expr after step => ?_
                  exact .pure step.1 (.kept marked noNested)
              | zero =>
                  dsimp only
                  split
                  · next isUnquote =>
                      subst isUnquote
                      exact .imp (resolver surrounds (parts marked)) (.unquote marked)
                  · exact .fail surrounds.informed _
          · next unmarked =>
              exact .imp (expandList_resolves resolver fuel level surrounds known) (.list unmarked)
      | vector index =>
          refine .get_bind ?_
          have held : ∀ item ∈ (interp.heap.items index).toList, Regime.informed.Fit interp item :=
            fun _ member => Eval.fit_item surrounds.informed (Array.mem_toList_iff.mp member)
          refine .keep (Eval.list_keeps surrounds.informed held)
            fun items middle step itemsKnown listed => ?_
          refine .bind (expandList_resolves resolver fuel level (surrounds.step step) itemsKnown)
            fun expr after step => ?_
          exact .pure step.1 (.vector listed)
      | _ => exact .pure surrounds.informed (.datum (by simp) (by simp))

theorem expandList_resolves (resolver : Resolver origin engine) (fuel level : Nat)
    {list : Value} {interp : Interp}
    (surrounds : Surrounds origin ribs context interp) (known : list.Known interp.symbols) :
    Resolves origin (expandList engine context fuel level list) (QuotedList ribs level list)
      interp := by
  cases fuel with
  | zero =>
      unfold expandList
      exact .spent surrounds.informed
  | succ fuel =>
      unfold expandList
      cases list with
      | cons id car cdr =>
          obtain ⟨carKnown, cdrKnown⟩ := Value.known_cons.mp known
          refine .bind (expandElement_resolves resolver fuel level surrounds carKnown)
            fun part middle step => ?_
          refine .bind (expandRest_resolves resolver fuel level (surrounds.step step)
            (step.fit cdrKnown)) fun rest after step => ?_
          exact .pure step.1 fun rest first => .cons first rest
      | null => exact .pure surrounds.informed .null
      | _ => exact .pure surrounds.informed (.datum (by simp) (by simp))

theorem expandRest_resolves (resolver : Resolver origin engine) (fuel level : Nat)
    {list : Value} {interp : Interp}
    (surrounds : Surrounds origin ribs context interp) (known : list.Known interp.symbols) :
    Resolves origin (expandRest engine context fuel level list)
      (fun before rest => QuotedRest ribs level list before rest.1 rest.2) interp := by
  cases fuel with
  | zero =>
      unfold expandRest
      exact .spent surrounds.informed
  | succ fuel =>
      unfold expandRest
      cases list with
      | null => exact .pure surrounds.informed .null
      | cons id car cdr =>
          refine .get_bind ?_
          split
          · next marked =>
              refine .bind (expand_resolves resolver fuel level surrounds known)
                fun expr after step => ?_
              exact .pure step.1 (.marked marked)
          · next unmarked =>
              obtain ⟨carKnown, cdrKnown⟩ := Value.known_cons.mp known
              refine .bind (expandElement_resolves resolver fuel level surrounds carKnown)
                fun part middle step => ?_
              refine .bind (expandRest_resolves resolver fuel level (surrounds.step step)
                (step.fit cdrKnown)) fun rest after step => ?_
              exact .pure step.1 fun rest first =>
                .cons (Option.not_isSome_iff_eq_none.mp unmarked) first rest
      | _ => exact .pure surrounds.informed (.datum (by simp) (by simp))

theorem expandElement_resolves (resolver : Resolver origin engine) (fuel level : Nat)
    {element : Value} {interp : Interp}
    (surrounds : Surrounds origin ribs context interp) (known : element.Known interp.symbols) :
    Resolves origin (expandElement engine context fuel level element)
      (QuotedElement ribs level element) interp := by
  cases fuel with
  | zero =>
      unfold expandElement
      exact .spent surrounds.informed
  | succ fuel =>
      unfold expandElement
      refine .get_bind ?_
      split
      · next argument marked =>
          have argumentKnown : Regime.informed.Fit interp argument :=
            (fit_of_marked? marked known).2
          refine .bind (resolver surrounds argumentKnown) fun expr after step => ?_
          exact .pure step.1 (.splice marked)
      · next noSplice =>
          refine .bind (expand_resolves resolver fuel _ surrounds known) fun expr after step => ?_
          exact .pure step.1 (.item fun top name argument => noSplice name argument top)

end

end Quasi

/-! ## Special forms and calls -/

namespace Analysis

open Resolution Scope

variable {origin : SymbolStore} {ribs : Ribs} {context : Context} {interp : Interp}
  (surrounds : Surrounds origin ribs context interp) (loc : Option SourceLoc)
  {arguments : List Value} (known : ∀ argument ∈ arguments, argument.Known interp.symbols)

include surrounds known

section Engines

variable {engine : Engine} (resolver : Resolver origin engine)

include resolver

/-- A `let` and the functions are the forms that add a rib. -/
theorem special_resolves (symbol : SymbolId) (form : SpecialForm) :
    Resolves origin (special engine context loc symbol form arguments)
      (Special ribs form arguments) interp := by
  have informed := surrounds.informed
  cases form with
  | quote =>
      rcases arguments with _ | ⟨datum, _ | ⟨_, _⟩⟩
      · exact malformed_keeps informed loc _
      · exact .pure informed .quote
      · exact malformed_keeps informed loc _
  | quasiquote =>
      rcases arguments with _ | ⟨template, _ | ⟨_, _⟩⟩
      · exact malformed_keeps informed loc _
      · have templateKnown := known template (by simp)
        exact .imp (Quasi.expand_resolves resolver engine.fuel 0 surrounds templateKnown)
          .quasiquote
      · exact malformed_keeps informed loc _
  | unquote => exact malformed_keeps informed loc _
  | unquoteSplicing => exact malformed_keeps informed loc _
  | if_ =>
      rcases arguments with _ | ⟨test, _ | ⟨yes, _ | ⟨no, _ | ⟨_, _⟩⟩⟩⟩
      · exact malformed_keeps informed loc _
      · exact malformed_keeps informed loc _
      · refine .bind (resolver surrounds (known test (by simp))) fun testExpr middle first => ?_
        refine .bind (resolver (surrounds.step first) (first.fit (known yes (by simp))))
          fun yesExpr after step => ?_
        exact .pure step.1 fun second first => .if_ first second
      · refine .bind (resolver surrounds (known test (by simp))) fun testExpr tested first => ?_
        refine .bind (resolver (surrounds.step first) (first.fit (known yes (by simp))))
          fun yesExpr middle second => ?_
        have both := first.trans second
        refine .bind (resolver (surrounds.step both) (both.fit (known no (by simp))))
          fun noExpr after step => ?_
        exact .pure step.1 fun third second first => .ifElse first second third
      · exact malformed_keeps informed loc _
  | or =>
      rcases arguments with _ | ⟨single, _ | ⟨second, others⟩⟩
      · exact .pure informed .orEmpty
      · exact .imp (resolver surrounds (known single (by simp))) .orSingle
      · refine .bind (analyzeAll_resolves surrounds resolver known) fun exprs after step => ?_
        exact .pure step.1 .or
  | and =>
      rcases arguments with _ | ⟨single, _ | ⟨second, others⟩⟩
      · exact .pure informed .andEmpty
      · exact .imp (resolver surrounds (known single (by simp))) .andSingle
      · refine .bind (analyzeAll_resolves surrounds resolver known) fun exprs after step => ?_
        exact .pure step.1 .and
  | block =>
      exact .imp (body_resolves surrounds resolver known) .block
  | while_ =>
      cases arguments with
      | nil => exact malformed_keeps informed loc _
      | cons test forms =>
          obtain ⟨testKnown, formsKnown⟩ := List.forall_mem_cons.mp known
          refine .bind (resolver surrounds testKnown) fun testExpr middle first => ?_
          refine .bind (body_resolves (surrounds.step first) resolver (first.fitAll formsKnown))
            fun body after step => ?_
          exact .pure step.1 fun rest first => .while_ first rest
  | lambda =>
      cases arguments with
      | nil => exact malformed_keeps informed loc _
      | cons list forms =>
          obtain ⟨listKnown, formsKnown⟩ := List.forall_mem_cons.mp known
          refine .bind (function_resolves surrounds resolver loc none [] (by simp) listKnown
            formsKnown) fun template after step => ?_
          exact .pure step.1 .lambda
  | defMacro =>
      rcases arguments with _ | ⟨name, _ | ⟨list, forms⟩⟩
      · exact malformed_keeps informed loc _
      · exact malformed_keeps informed loc _
      · obtain ⟨listKnown, formsKnown⟩ :=
          List.forall_mem_cons.mp (List.forall_mem_cons.mp known).2
        refine .look (definitionName_looks loc surrounds.informed name) ?_
        rintro defined rfl
        refine .bind (function_resolves surrounds resolver loc (some defined) [] (by simp)
          listKnown formsKnown) fun template after step => ?_
        exact .pure step.1 .defMacro
  | def_ =>
      refine .bind (definition_resolves surrounds resolver loc known) fun pair after step => ?_
      exact .pure step.1 .def_
  | defConstant =>
      refine .bind (definition_resolves surrounds resolver loc known) fun pair after step => ?_
      exact .pure step.1 .defConstant
  | set =>
      rcases arguments with _ | ⟨target, _ | ⟨value, _ | ⟨_, _⟩⟩⟩
      · exact malformed_keeps informed loc _
      · exact malformed_keeps informed loc _
      · exact assignment_resolves surrounds resolver loc (known target (by simp))
          (known value (by simp))
      · exact malformed_keeps informed loc _
  | dynamicLet =>
      cases arguments with
      | nil => exact malformed_keeps informed loc _
      | cons list forms =>
          obtain ⟨listKnown, formsKnown⟩ := List.forall_mem_cons.mp known
          refine .look (bindings_looks loc surrounds.informed listKnown) ?_
          rintro pairs ⟨written, pairsKnown⟩
          refine .bind_fit (bindingInits_resolves surrounds resolver
            (fun name _ informed => checkDynamic_looks loc informed name) pairsKnown) ?_
          rintro inits middle first -
          refine .bind (body_resolves (surrounds.step first) resolver (first.fitAll formsKnown))
            fun body after step => ?_
          exact .pure step.1 fun rest values => .dynamicLet written values rest
  | let_ =>
      cases arguments with
      | nil => exact malformed_keeps informed loc _
      | cons list forms =>
          obtain ⟨listKnown, formsKnown⟩ := List.forall_mem_cons.mp known
          refine .look (bindings_looks loc surrounds.informed listKnown) ?_
          rintro pairs ⟨written, pairsKnown⟩
          refine .bind_fit (bindingInits_resolves surrounds resolver
            (fun name _ informed => checkLexical_looks loc informed name) pairsKnown) ?_
          rintro inits middle first ⟨named, proper⟩
          have inner : Surrounds origin (Binder.entries .let_ (pairs.map Prod.fst) :: ribs)
              (context.push (inits.map Prod.fst)) middle := by
            refine (surrounds.step first).push ?_ (by simp [named])
            exact Binder.forall_mem_entries.mpr (List.forall_mem_map.mpr (proper rfl))
          refine .bind (body_resolves inner resolver (first.fitAll formsKnown))
            fun body after step => ?_
          exact .pure step.1 fun judged values => .let_ written values judged
  | callNextMethod =>
      cases arguments with
      | nil =>
          refine .look (continuation_looks loc surrounds symbol) ?_
          rintro _ ⟨binder, address, bound, rfl⟩
          exact .pure informed (.callNext bound)
      | cons form forms =>
          refine .look (continuation_looks loc surrounds symbol) ?_
          rintro _ ⟨binder, address, bound, rfl⟩
          refine .bind (analyzeAll_resolves surrounds resolver known) fun exprs after step => ?_
          exact .pure step.1 (.callNextWith bound)
  | hasNextMethod =>
      refine .look (continuation_looks loc surrounds symbol) ?_
      rintro _ ⟨binder, address, bound, rfl⟩
      exact .pure informed (.hasNext bound)
  | defClass =>
      rcases arguments with _ | ⟨name, _ | ⟨parents, _ | ⟨slots, _ | ⟨_, _⟩⟩⟩⟩
      · exact malformed_keeps informed loc _
      · exact malformed_keeps informed loc _
      · exact classDefinition_resolves surrounds resolver loc none
          (known parents (by simp)) (by simp)
      · exact classDefinition_resolves surrounds resolver loc (some slots)
          (known parents (by simp)) (by simpa using known slots (by simp))
      · exact malformed_keeps informed loc _
  | defBehavior =>
      rcases arguments with _ | ⟨target, _ | ⟨name, rest⟩⟩
      · exact malformed_keeps informed loc _
      · exact malformed_keeps informed loc _
      · obtain ⟨targetKnown, others⟩ := List.forall_mem_cons.mp known
        cases name with
        | symbol name =>
            exact behaviorDefinition_resolves surrounds resolver loc name targetKnown
              (List.forall_mem_cons.mp others).2
        | _ => exact malformed_keeps informed loc _

theorem memberAccess_resolves {form : Value} {name : SymbolId} {member : String}
    (head : String) (listed : form.toList? = some (.symbol name :: arguments))
    (noSpecial : interp.words.form? name = none)
    (noExpander : ∀ index, ¬ Expands ribs name index interp)
    (isMember : Symbol.memberName? (interp.symbols.nameOf name) = some member) :
    Resolves origin (memberAccess engine context loc head member arguments) (Form ribs form)
      interp := by
  cases arguments with
  | nil => exact malformed_keeps surrounds.informed loc _
  | cons object others =>
      obtain ⟨objectKnown, othersKnown⟩ := List.forall_mem_cons.mp known
      refine .bind (resolver surrounds objectKnown) fun objectExpr middle step => ?_
      refine .bind (analyzeAll_resolves (surrounds.step step) resolver (step.fitAll othersKnown))
        fun exprs after step => ?_
      exact .pure step.1 fun rest first =>
        .member listed noSpecial noExpander isMember first rest

theorem call_resolves {form head : Value} (listed : form.toList? = some (head :: arguments))
    (headKnown : head.Known interp.symbols) (applies : Applies ribs head interp) :
    Resolves origin (call engine context loc head arguments) (Form ribs form) interp := by
  refine .bind (resolver surrounds headKnown) fun callee middle step => ?_
  refine .bind (analyzeAll_resolves (surrounds.step step) resolver (step.fitAll known))
    fun exprs after step => ?_
  exact .pure step.1 fun rest first => .call listed applies first rest

end Engines

omit known in
theorem expander?_eq_some_iff {name : SymbolId} {index : Nat} :
    expander? interp.globals context.scope name = some index ↔ Expands ribs name index interp := by
  unfold expander?
  constructor
  · intro found
    split at found
    · next absent defined =>
        cases found
        exact ⟨surrounds.not_binds absent, defined⟩
    · cases found
  · rintro ⟨free, defined⟩
    cases found : context.scope.address? name with
    | none => rw [defined]
    | some address =>
        obtain ⟨binder, innermost⟩ := surrounds.exists_innermost found
        exact absurd innermost.binds free

variable {fuel : Nat} (resolver : Resolver origin (.ofFuel fuel))

include resolver

/-- A macro call is resolved to what its expansion is resolved to. -/
theorem expansion_resolves {form : Value} {name : SymbolId} {index : Nat}
    (listed : form.toList? = some (.symbol name :: arguments))
    (noSpecial : interp.words.form? name = none) (expands : Expands ribs name index interp) :
    Resolves origin (expansion (.ofFuel fuel) context loc index arguments) (Form ribs form)
      interp := by
  have engines : Regime.informed.Engines (.ofFuel fuel) (.detoured noDetour fuel) :=
    (avoids_noDetour Regime.informed).engines informed_exact informed_open fuel
  have counted : Regime.informed.Step interp (expanding interp) :=
    Lawful.move surrounds.informed (.counters _)
  have counts : Regime.informed.Keeps (modify expanding) (fun after _ => after = expanding interp)
      interp := .ok counted rfl
  refine .keep counts ?_
  rintro _ _ - rfl -
  have expander : Regime.informed.Fit (expanding interp) (.closure index) :=
    Value.known_of_isAtom rfl
  have applied := engines.apply loc counted.1 expander (counted.fitAll known)
  refine .keep (informed_exact.keeps id applied) fun expanded middle step expandedKnown called => ?_
  -- The expansion stands where the call stands, with the place of the call for its parts.
  have later := surrounds.step (counted.trans step)
  have placed : Surrounds origin ribs { context with fallback := loc } middle :=
    ⟨later.informed, later.since, later.frames, later.proper⟩
  exact .imp (resolver placed expandedKnown) (.expansion listed noSpecial expands called)

theorem symbolCall_resolves {form : Value} {name : SymbolId}
    (listed : form.toList? = some (.symbol name :: arguments))
    (nameKnown : (Value.symbol name).Known interp.symbols) :
    Resolves origin (symbolCall (.ofFuel fuel) context loc name arguments) (Form ribs form)
      interp := by
  refine .get_bind ?_
  split
  · next special isSpecial =>
      exact .imp (special_resolves surrounds loc known resolver name special)
        (.special listed isSpecial)
  · next noSpecial =>
      split
      · next index found =>
          exact expansion_resolves surrounds loc known resolver listed noSpecial
            ((expander?_eq_some_iff surrounds).mp found)
      · next notFound =>
          have noExpander : ∀ index, ¬ Expands ribs name index interp := by
            intro index expands
            rw [(expander?_eq_some_iff surrounds).mpr expands] at notFound
            cases notFound
          dsimp only
          split
          · next member isMember =>
              exact memberAccess_resolves surrounds loc known resolver _ listed noSpecial
                noExpander isMember
          · next noMember =>
              refine call_resolves surrounds loc known resolver listed nameKnown ?_
              intro other same
              cases same
              exact ⟨noSpecial, noExpander, noMember⟩

omit known

theorem list_resolves {form : Value} (isCell : form ≠ .null)
    (formKnown : form.Known interp.symbols) :
    Resolves origin (list (.ofFuel fuel) context form) (Form ribs form) interp := by
  have parts : ∀ {items}, form.toList? = some items →
      ∀ item ∈ items, Regime.informed.Fit interp item :=
    fun listed => fitAll_of_toList? formKnown listed
  unfold list
  dsimp only
  split
  · next symbol arguments listed =>
      obtain ⟨nameKnown, known⟩ := List.forall_mem_cons.mp (parts listed)
      exact symbolCall_resolves surrounds _ known resolver listed nameKnown
  · next head arguments noName listed =>
      obtain ⟨headKnown, known⟩ := List.forall_mem_cons.mp (parts listed)
      refine call_resolves surrounds _ known resolver listed headKnown ?_
      intro name same
      exact absurd same (noName name)
  · next listed =>
      cases Value.toList?_eq_some_iff.mp listed
      exact absurd rfl isCell
  · exact malformed_keeps surrounds.informed _ _

theorem analyze_resolves {form : Value} (formKnown : form.Known interp.symbols) :
    Resolves origin (analyze (.ofFuel fuel) form context) (Form ribs form) interp := by
  cases form with
  | symbol name => exact name_resolves surrounds name
  | cons id car cdr => exact list_resolves surrounds resolver (by simp) formKnown
  | _ => exact .pure surrounds.informed (.datum (by simp) (by simp))

end Analysis

namespace Resolution

open Scope

/-- Every engine resolves what it accepts. -/
theorem resolver_ofFuel (origin : SymbolStore) (fuel : Nat) :
    Resolver origin (.ofFuel fuel) := by
  induction fuel with
  | zero => exact fun surrounds _ => .spent surrounds.informed
  | succ fuel ih => exact fun surrounds known => Analysis.analyze_resolves surrounds ih known

theorem Surrounds.top {interp : Interp} (informed : interp.Informed) (source : SourceMap) :
    Surrounds interp.symbols [] { source } interp where
  informed := informed
  since := .refl
  frames := rfl
  proper := by simp

/-- Names resolve to their innermost binders.  Every form that analysis accepts becomes what the
judgement of resolution says, if no symbol was made a constant meanwhile: a name or the target of an
assignment that is bound becomes the slot of its innermost binder, and anything else only if it is
not bound, except that a keyword or constant that is no parameter stays its value.  All states that
an interpreter meets while it evaluates texts are informed (`Interp.informed_of_texts`). -/
theorem form_of_analyze {interp after : Interp} {form : Value} {expr : Expr} (fuel : Nat)
    (source : SourceMap) (informed : interp.Informed) (known : form.Known interp.symbols)
    (settled : interp.symbols.NoNewConstants after.symbols)
    (analyzed : (Engine.ofFuel fuel).analyze form { source } interp = .ok expr after) :
    Form [] form interp expr after := by
  have resolved := resolver_ofFuel interp.symbols fuel (.top informed source) known
  have ends := resolved.ends
  rw [analyzed] at ends
  exact ends.2 settled

/-! A function inside a `let` that binds `x` twice, with a `let` inside that binds its parameter `y`
anew.  The symbols 9, 11 and 13 are `lambda`, `set!` and `let`. -/

section Shadowing

/-- A list as a form. -/
private def formList (items : List Value) : Value := items.foldr (.cons 0) .null

/-- The symbols of the language, with `x` and `y`, which have the numbers 27 and 28. -/
private def lettered : SymbolStore :=
  (((Vocabulary.install .initial).2.internIn "x" PackageId.user).2.internIn "y" PackageId.user).2

private theorem lettered_leads : (Vocabulary.install .initial).2.Leads lettered :=
  .tail (.single (.internIn _ _ _)) (.internIn _ _ _)

/-- An interpreter that knows the words of the language and these two names. -/
private def literate : Interp :=
  { words := (Vocabulary.install .initial).1, symbols := lettered }

private theorem literate_informed : literate.Informed := by
  have reachable : SymbolStore.Reachable lettered :=
    (Vocabulary.install_leads .initial).trans lettered_leads
  have hidden := @Vocabulary.install_nextMethod .initial .refl
  exact Interp.informed_new {} reachable.coherent (lettered_leads.known hidden.1)
    (lettered_leads.isDynamic_eq_false hidden.1 hidden.2)

/-- The form `(let ((x null) (x null)) (lambda (y) (let ((y x)) (set! x y))))`. -/
private def shadowing : Value :=
  formList [.symbol 13,
    formList [formList [.symbol 27, .null], formList [.symbol 27, .null]],
    formList [.symbol 9, formList [.symbol 28],
      formList [.symbol 13, formList [formList [.symbol 28, .symbol 27]],
        formList [.symbol 11, .symbol 27, .symbol 28]]]]

/-- The second `x` is assigned, two frames outwards, and the innermost `y` is read. -/
private def shadowingExpr : Expr :=
  .let_ [.literal .null, .literal .null]
    (.lambda {
      name := none
      params := { list := [{ name := 28, kind := .required }] }
      body := .let_ [.local_ ⟨1, 1⟩ 27] (.setLocal ⟨2, 1⟩ (.local_ ⟨0, 0⟩ 28)) })

set_option maxRecDepth 20000 in
theorem form_of_analyze_shadowing :
    (literate.Informed ∧ shadowing.Known literate.symbols ∧
      literate.symbols.NoNewConstants literate.symbols ∧
      (Engine.ofFuel 6).analyze shadowing {} literate = .ok shadowingExpr literate) ∧
    Form [] shadowing literate shadowingExpr literate := by
  have known : shadowing.Known literate.symbols := by
    unfold Value.Known
    decide +kernel
  have settled : literate.symbols.NoNewConstants literate.symbols := fun _ constant => constant
  have analyzed : (Engine.ofFuel 6).analyze shadowing {} literate = .ok shadowingExpr literate := by
    rfl
  exact ⟨⟨literate_informed, known, settled, analyzed⟩,
    form_of_analyze 6 {} literate_informed known settled analyzed⟩

/-- The interpreter after `x` was defined as a constant. -/
private def withConstant : Interp :=
  { literate with
    symbols := { lettered with
      symbols := lettered.symbols.modify 27 ({ · with kind := .constant, dynamic := false }) }
    globals := literate.globals.set 27 (.bool true) }

private theorem withConstant_informed : withConstant.Informed := by
  have made : lettered.makeConstant 27 = .ok withConstant.symbols := rfl
  exact literate_informed.setGlobal 27 (.single (.makeConstant made)) (Value.known_of_isAtom rfl)

set_option maxRecDepth 20000 in
/-- A constant that a `let` binds is still its value in the body. -/
theorem let_bound_constant_literal :
    withConstant.Informed ∧ Innermost 27 [Binder.entries .let_ [27]] .let_ ⟨0, 0⟩ ∧
    (Engine.ofFuel 3).analyze
      (formList [.symbol 13, formList [formList [.symbol 27, .null]], .symbol 27]) {} withConstant =
        .ok (.let_ [.literal .null] (.literal (.bool true))) withConstant :=
  ⟨withConstant_informed, .here [] (by simp), rfl⟩

end Shadowing

end Resolution

end ObjectLisp
