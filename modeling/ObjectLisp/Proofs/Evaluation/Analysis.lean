import ObjectLisp.Proofs.Calls.Parsing
import ObjectLisp.Proofs.Evaluation.Calls

/-!
# Analysis

With engines that match, analysis gives matching results, and what it gives is
admissible for the frames that its context describes.  Only names and the
continuation of a method become addresses, and those are looked up in the scope;
everything else puts admissible parts together.
-/

namespace ObjectLisp

open Regime

variable {regime : Regime} [lawful : regime.Lawful] {interp : Interp}

/-! ## Parameter lists and bindings as written -/

namespace LambdaList

/-- The name and the default of a parameter are parts of the parameter as written. -/
theorem fit_of_entry {kind : ParamKind} {item : Value} {name : SymbolId} {init : Option Value}
    (found : entry kind item = .ok (name, init)) (fit : regime.Fit interp item) :
    regime.Fit interp (.symbol name) ∧ ∀ form ∈ init, regime.Fit interp form := by
  unfold entry at found
  repeat' split at found
  all_goals cases found
  · exact ⟨fit, by simp⟩
  · next listed => simpa using fitAll_of_toList? fit listed
  · next listed => simpa using fitAll_of_toList? fit listed

theorem fit_of_parseItems {markers : Markers} {symbols : SymbolStore} {kind : ParamKind}
    {taken params : List (Param Value)} {items : List Value}
    (parsed : (parseItems markers symbols kind taken items).1 = .ok params)
    (takenFit : ∀ param ∈ taken, regime.Fit interp (.symbol param.name) ∧
      ∀ form ∈ param.init, regime.Fit interp form)
    (fits : ∀ item ∈ items, regime.Fit interp item) :
    ∀ param ∈ params, regime.Fit interp (.symbol param.name) ∧
      ∀ form ∈ param.init, regime.Fit interp form := by
  induction items generalizing symbols kind taken with
  | nil =>
      obtain ⟨rfl, _⟩ := parseItems_nil_ok parsed
      exact fun param member => takenFit param (List.mem_reverse.mp member)
  | cons item items ih =>
      obtain ⟨itemFits, itemsFit⟩ := List.forall_mem_cons.mp fits
      rcases parseItems_cons_ok parsed with ⟨_, _, _, _, parsed⟩ | ⟨_, _, _, found, _, _, parsed⟩
      · exact ih parsed takenFit itemsFit
      · exact ih parsed
          (List.forall_mem_cons.mpr ⟨fit_of_entry found itemFits, takenFit⟩) itemsFit

theorem fit_of_parse {markers : Markers} {symbols : SymbolStore} {list : Value}
    {params : List (Param Value)} (parsed : (parse markers symbols list).1 = .ok params)
    (fit : regime.Fit interp list) :
    ∀ param ∈ params, regime.Fit interp (.symbol param.name) ∧
      ∀ form ∈ param.init, regime.Fit interp form := by
  unfold parse at parsed
  split at parsed
  · next items listed => exact fit_of_parseItems parsed (by simp) (fitAll_of_toList? fit listed)
  · cases parsed

end LambdaList

namespace Analysis

theorem fit_of_binding? {item : Value} {pair : SymbolId × Value}
    (found : binding? item = some pair) (fit : regime.Fit interp item) :
    regime.Fit interp (.symbol pair.1) ∧ regime.Fit interp pair.2 := by
  unfold binding? at found
  repeat' split at found
  all_goals cases found
  · exact ⟨fit, lawful.fit_atom rfl⟩
  · next listed => exact ⟨fitAll_of_toList? fit listed _ (by simp), lawful.fit_atom rfl⟩
  · next listed => simpa using fitAll_of_toList? fit listed

theorem fit_of_bindings {items : List Value} {pairs : List (SymbolId × Value)}
    (found : items.mapM binding? = some pairs) (fits : ∀ item ∈ items, regime.Fit interp item) :
    ∀ pair ∈ pairs, regime.Fit interp (.symbol pair.1) ∧ regime.Fit interp pair.2 := by
  induction items generalizing pairs with
  | nil =>
      cases found
      simp
  | cons item items ih =>
      obtain ⟨itemFits, itemsFit⟩ := List.forall_mem_cons.mp fits
      rw [List.mapM_cons] at found
      obtain ⟨pair, isPair, found⟩ := Option.bind_eq_some_iff.mp found
      obtain ⟨rest, isRest, found⟩ := Option.bind_eq_some_iff.mp found
      cases found
      exact List.forall_mem_cons.mpr ⟨fit_of_binding? isPair itemFits, ih isRest itemsFit⟩

theorem fit_of_slot? {item : Value} {name : SymbolId} {init : Option Value}
    (found : slot? item = some (name, init)) (fit : regime.Fit interp item) :
    ∀ form ∈ init, regime.Fit interp form := by
  unfold slot? at found
  repeat' split at found
  all_goals cases found
  · simp
  · simp
  · next listed => simpa using fitAll_of_toList? fit listed _ (by simp)

end Analysis

/-! ## Quasiquotation -/

namespace Quasi

/-- The expression of a part. -/
def Part.expr : Part → Expr
  | item expr | splice expr => expr

section Assembly

variable {sizes : List Nat}

omit lawful in
theorem segments_admissible {group : List Expr} {parts : List Part}
    (groupFits : ∀ expr ∈ group, regime.Admissible sizes interp expr)
    (partsFit : ∀ part ∈ parts, regime.Admissible sizes interp part.expr) :
    ∀ expr ∈ segments group parts, regime.Admissible sizes interp expr := by
  have grouped : ∀ {group : List Expr}, (∀ expr ∈ group, regime.Admissible sizes interp expr) →
      regime.Admissible sizes interp (.construct .list group.reverse) :=
    fun fits => .construct _ fun part member => fits part (List.mem_reverse.mp member)
  induction parts generalizing group with
  | nil =>
      unfold segments
      split
      · simp
      · simpa using grouped groupFits
  | cons part parts ih =>
      obtain ⟨headFits, tailFits⟩ := List.forall_mem_cons.mp partsFit
      cases part with
      | item expr => exact ih (List.forall_mem_cons.mpr ⟨headFits, groupFits⟩) tailFits
      | splice expr =>
          have others := @ih [] (by simp) tailFits
          unfold segments
          split
          · exact List.forall_mem_cons.mpr ⟨headFits, others⟩
          · exact List.forall_mem_cons.mpr
              ⟨grouped groupFits, List.forall_mem_cons.mpr ⟨headFits, others⟩⟩

theorem assemble_admissible {parts : List Part} {tail : Option Expr}
    (partsFit : ∀ part ∈ parts, regime.Admissible sizes interp part.expr)
    (tailFits : ∀ expr ∈ tail, regime.Admissible sizes interp expr) :
    regime.Admissible sizes interp (assemble parts tail) := by
  have lists : ∀ expr ∈ segments [] parts, regime.Admissible sizes interp expr :=
    segments_admissible (by simp) partsFit
  have joined : ∀ last : Expr, regime.Admissible sizes interp last →
      regime.Admissible sizes interp (.construct .append (segments [] parts ++ [last])) := by
    intro last lastFits
    refine .construct _ fun part member => ?_
    rcases List.mem_append.mp member with inLists | isLast
    · exact lists part inLists
    · rw [List.mem_singleton.mp isLast]
      exact lastFits
  cases tail with
  | some last => exact joined last (tailFits last rfl)
  | none =>
      change regime.Admissible sizes interp (if parts.any Part.isSplice then _ else _)
      split
      · exact joined _ (.literal (lawful.fit_atom rfl))
      · split
        · exact .literal (lawful.fit_atom rfl)
        · next list others built => exact lists list (by simp [built])

omit lawful in
theorem rebuild_admissible {symbol : SymbolId} {argument : Expr}
    (fit : regime.Fit interp (.symbol symbol)) (fits : regime.Admissible sizes interp argument) :
    regime.Admissible sizes interp (rebuild symbol argument) :=
  .construct _ (by simpa using ⟨.literal fit, fits⟩)

end Assembly

omit lawful in
theorem fit_of_marked? [regime.Lawful] {words : Vocabulary} {template argument : Value}
    {symbol : SymbolId} {mark : Mark}
    (found : marked? words template = some (symbol, mark, argument))
    (fit : regime.Fit interp template) :
    regime.Fit interp (.symbol symbol) ∧ regime.Fit interp argument := by
  unfold marked? at found
  split at found
  · obtain ⟨_, _, same⟩ := Option.map_eq_some_iff.mp found
    cases same
    obtain ⟨symbolFits, restFits⟩ := Lawful.fit_cons.mp fit
    exact ⟨symbolFits, (Lawful.fit_cons.mp restFits).1⟩
  · cases found

variable {engine twin : Engine}

mutual

theorem expand_carries (engines : regime.Engines engine twin) (context : Context)
    {fuel lower : Nat} (bounds : regime.Bounds fuel lower) (level : Nat) {template : Value}
    {interp : Interp} (good : regime.Good interp) (fit : regime.Fit interp template) :
    regime.Carries (expand engine context fuel level template)
      (expand twin context lower level template) (regime.Admissible context.scope.sizes)
      interp := by
  cases fuel with
  | zero =>
      rw [bounds.eq_zero]
      unfold expand
      exact .spent good
  | succ fuel =>
      refine .of_bounds (expand twin context · level template) bounds (by unfold expand; rfl)
        fun {less} bounds => ?_
      have rebuilt : ∀ symbol level {argument : Value},
          regime.Fit interp (.symbol symbol) ∧ regime.Fit interp argument →
          regime.Carries (do return rebuild symbol (← expand engine context fuel level argument))
            (do return rebuild symbol (← expand twin context less level argument))
            (regime.Admissible context.scope.sizes) interp :=
        fun symbol level _ fit =>
          .bind (expand_carries engines context bounds level good fit.2)
            fun _ _ step fits => .pure step.1 (rebuild_admissible (step.fit fit.1) fits)
      unfold expand
      cases template with
      | cons id car cdr =>
          refine .get_bind ?_
          split
          · next marked => exact rebuilt _ _ (fit_of_marked? marked fit)
          · next symbol mark argument notNested marked =>
              have partsFit := fit_of_marked? marked fit
              cases level with
              | succ level => exact rebuilt symbol level partsFit
              | zero => exact .ite (engines.analyze context good partsFit.2) (.fail good _)
          · exact expandList_carries engines context bounds level good fit
      | vector index =>
          refine .get_bind ?_
          have held : ∀ item ∈ (interp.heap.items index).toList, regime.Fit interp item :=
            fun _ member => Eval.fit_item good (Array.mem_toList_iff.mp member)
          refine .bind (Eval.list_keeps good held) fun items _ step itemsFit => ?_
          refine .bind (expandList_carries engines context bounds level step.1 itemsFit)
            fun list _ step fits => .pure step.1 (.construct _ ?_)
          simpa using fits
      | _ => exact .pure good (.literal fit)

theorem expandList_carries (engines : regime.Engines engine twin) (context : Context)
    {fuel lower : Nat} (bounds : regime.Bounds fuel lower) (level : Nat) {list : Value}
    {interp : Interp} (good : regime.Good interp) (fit : regime.Fit interp list) :
    regime.Carries (expandList engine context fuel level list)
      (expandList twin context lower level list) (regime.Admissible context.scope.sizes)
      interp := by
  cases fuel with
  | zero =>
      rw [bounds.eq_zero]
      unfold expandList
      exact .spent good
  | succ fuel =>
      refine .of_bounds (expandList twin context · level list) bounds (by unfold expandList; rfl)
        fun bounds => ?_
      unfold expandList
      cases list with
      | cons id car cdr =>
          obtain ⟨carFits, cdrFits⟩ := lawful.fit_cons.mp fit
          refine .bind (expandElement_carries engines context bounds level good carFits)
            fun part _ step partFits => ?_
          refine .bind (expandRest_carries engines context bounds level step.1 (step.fit cdrFits))
            fun rest _ step restFits => .pure step.1 ?_
          exact assemble_admissible
            (List.forall_mem_cons.mpr ⟨step.admissible partFits, restFits.1⟩) restFits.2
      | null => exact .pure good (.literal fit)
      | _ =>
          refine .pure good (assemble_admissible (by simp) ?_)
          simpa using .literal fit

theorem expandRest_carries (engines : regime.Engines engine twin) (context : Context)
    {fuel lower : Nat} (bounds : regime.Bounds fuel lower) (level : Nat) {list : Value}
    {interp : Interp} (good : regime.Good interp) (fit : regime.Fit interp list) :
    regime.Carries (expandRest engine context fuel level list)
      (expandRest twin context lower level list)
      (fun after rest =>
        (∀ part ∈ rest.1, regime.Admissible context.scope.sizes after part.expr) ∧
        ∀ tail ∈ rest.2, regime.Admissible context.scope.sizes after tail) interp := by
  cases fuel with
  | zero =>
      rw [bounds.eq_zero]
      unfold expandRest
      exact .spent good
  | succ fuel =>
      refine .of_bounds (expandRest twin context · level list) bounds (by unfold expandRest; rfl)
        fun bounds => ?_
      unfold expandRest
      cases list with
      | null => exact .pure good (by simp)
      | cons id car cdr =>
          obtain ⟨carFits, cdrFits⟩ := lawful.fit_cons.mp fit
          refine .get_bind (.ite ?_ ?_)
          · refine .bind (expand_carries engines context bounds level good fit)
              fun tail _ step fits => .pure step.1 ?_
            simpa using fits
          · refine .bind (expandElement_carries engines context bounds level good carFits)
              fun part _ step partFits => ?_
            refine .bind (expandRest_carries engines context bounds level step.1 (step.fit cdrFits))
              fun rest _ step restFits => .pure step.1 ?_
            exact ⟨List.forall_mem_cons.mpr ⟨step.admissible partFits, restFits.1⟩, restFits.2⟩
      | _ =>
          refine .pure good ⟨by simp, ?_⟩
          simpa using .literal fit

theorem expandElement_carries (engines : regime.Engines engine twin) (context : Context)
    {fuel lower : Nat} (bounds : regime.Bounds fuel lower) (level : Nat) {element : Value}
    {interp : Interp} (good : regime.Good interp) (fit : regime.Fit interp element) :
    regime.Carries (expandElement engine context fuel level element)
      (expandElement twin context lower level element)
      (fun after part => regime.Admissible context.scope.sizes after part.expr) interp := by
  cases fuel with
  | zero =>
      rw [bounds.eq_zero]
      unfold expandElement
      exact .spent good
  | succ fuel =>
      refine .of_bounds (expandElement twin context · level element) bounds (by unfold expandElement; rfl)
        fun bounds => ?_
      unfold expandElement
      refine .get_bind ?_
      split
      · next argument marked =>
          exact .bind (engines.analyze context good (fit_of_marked? marked fit).2)
            fun _ _ step fits => .pure step.1 fits
      · exact .bind (expand_carries engines context bounds _ good fit)
          fun _ _ step fits => .pure step.1 fits

end

theorem analyze_carries (engines : regime.Engines engine twin) (context : Context)
    {template : Value} {interp : Interp} (good : regime.Good interp)
    (fit : regime.Fit interp template) :
    regime.Carries (analyze engine context template) (analyze twin context template)
      (regime.Admissible context.scope.sizes) interp := by
  exact expand_carries engines context engines.fuel 0 good fit

end Quasi

namespace Analysis

/-! ## Names and shapes -/

omit lawful in
/-- A name becomes an address only if the scope has one for it. -/
theorem variable_admissible (symbols : SymbolStore) (scope : Scope) (symbol : SymbolId) :
    regime.Admissible scope.sizes interp (variable_ symbols scope symbol) := by
  unfold variable_
  split
  · exact .of_parts rfl rfl (by simp) (by simp [Expr.results]) (by simp [Expr.parts])
      (by simp [Expr.templates])
  · split
    · next address found => exact .local_ (Scope.address?_inRange found) symbol
    · exact .of_parts rfl rfl (by simp) (by simp [Expr.results]) (by simp [Expr.parts])
        (by simp [Expr.templates])

variable (good : regime.Good interp)

include good

theorem name_keeps (context : Context) {symbol : SymbolId}
    (fit : regime.Fit interp (.symbol symbol)) :
    regime.Keeps (name context symbol) (regime.Admissible context.scope.sizes) interp := by
  refine .ok (.refl good) ?_
  unfold resolve
  split
  · exact .literal fit
  · split
    · next value found => exact .literal (lawful.fit_held good (.global found))
    · exact variable_admissible _ _ symbol
  · exact variable_admissible _ _ symbol

theorem malformed_keeps {α : Type} {fits : Interp → α → Prop} (loc : Option SourceLoc)
    (problem : Malformed) : regime.Keeps (malformed loc problem) fits interp :=
  .fail good _

theorem definitionName_keeps (loc : Option SourceLoc) {value : Value}
    (fit : regime.Fit interp value) :
    regime.Keeps (definitionName loc value) (fun after name => regime.Fit after (.symbol name))
      interp := by
  cases value with
  | symbol id => exact .pure good fit
  | _ => exact malformed_keeps good _ _

theorem checkLexical_keeps (loc : Option SourceLoc) (symbol : SymbolId) :
    regime.Keeps (checkLexical loc symbol) (fun _ _ => True) interp := by
  unfold Keeps Carries checkLexical
  split
  · exact .failure _ (.refl good)
  · exact .ok (.refl good) trivial

theorem checkDynamic_keeps (loc : Option SourceLoc) (symbol : SymbolId) :
    regime.Keeps (checkDynamic loc symbol) (fun _ _ => True) interp := by
  unfold Keeps Carries checkDynamic
  split
  · exact .ok (.refl good) trivial
  · exact .failure _ (.refl good)

/-- A global to which the symbols have no objection may be written. -/
theorem checkAssignable_keeps (symbol : SymbolId) :
    regime.Keeps (Eval.checkAssignable symbol) (fun _ _ => regime.Writable symbol) interp := by
  unfold Keeps Carries Eval.checkAssignable
  cases problem : interp.symbols.assignmentProblem? symbol with
  | none => exact .ok (.refl good) (lawful.writable good problem)
  | some found => exact .failure _ (.refl good)

theorem parameterList_keeps (loc : Option SourceLoc) {list : Value}
    (fit : regime.Fit interp list) :
    regime.Keeps (parameterList loc list)
      (fun after params => ∀ param ∈ params, regime.Fit after (.symbol param.name) ∧
        ∀ form ∈ param.init, regime.Fit after form) interp := by
  have parsed := lawful.move good
    (.symbols (LambdaList.parse_internsKeywords interp.words.markers interp.symbols list).leads)
  unfold Keeps Carries parameterList
  dsimp only
  split
  · next params found =>
      refine .ok parsed fun param member => ?_
      obtain ⟨nameFits, initFits⟩ := LambdaList.fit_of_parse found fit param member
      exact ⟨parsed.fit nameFits, fun form isForm => parsed.fit (initFits form isForm)⟩
  · exact .failure _ parsed

theorem bindings_keeps (loc : Option SourceLoc) {list : Value} (fit : regime.Fit interp list) :
    regime.Keeps (bindings loc list)
      (fun after pairs => ∀ pair ∈ pairs, regime.Fit after (.symbol pair.1) ∧
        regime.Fit after pair.2) interp := by
  unfold bindings
  split
  · next pairs found =>
      obtain ⟨items, listed, found⟩ := Option.bind_eq_some_iff.mp found
      exact .pure good (fit_of_bindings found (fitAll_of_toList? fit listed))
  · exact malformed_keeps good _ _

theorem qualified_keeps (loc : Option SourceLoc) {rest : List Value}
    (fits : ∀ form ∈ rest, regime.Fit interp form) :
    regime.Keeps (qualified loc rest)
      (fun after shape => regime.Fit after shape.2.1 ∧ ∀ form ∈ shape.2.2, regime.Fit after form)
      interp := by
  unfold Keeps Carries qualified
  cases rest with
  | nil => exact .failure _ (.refl good)
  | cons first others =>
      have whole := List.forall_mem_cons.mp fits
      dsimp only
      split
      · next symbol list forms =>
          split
          · split
            · exact .ok (.refl good) (List.forall_mem_cons.mp whole.2)
            · exact .failure _ (.refl good)
          · exact .ok (.refl good) whole
      · exact .ok (.refl good) whole

theorem continuation_keeps (context : Context) (loc : Option SourceLoc) (symbol : SymbolId) :
    regime.Keeps (continuation context loc symbol) (regime.Admissible context.scope.sizes)
      interp := by
  unfold Keeps Carries continuation
  split
  · next address found => exact .ok (.refl good) (.local_ (Scope.address?_inRange found) _)
  · exact .failure _ (.refl good)

/-! ## Functions and bindings -/

variable {engine twin : Engine} (engines : regime.Engines engine twin) (context : Context)

include engines

theorem body_carries {forms : List Value} (fits : ∀ form ∈ forms, regime.Fit interp form) :
    regime.Carries (body engine context forms) (body twin context forms)
      (regime.Admissible context.scope.sizes) interp := by
  rcases forms with _ | ⟨form, _ | ⟨second, rest⟩⟩
  · exact .pure good (.literal (lawful.fit_atom rfl))
  · exact engines.analyze context good (fits form (by simp))
  · refine .bind (Engine.analyzeAll_carries engines good context fits)
      fun exprs _ step exprsFit => .pure step.1 ?_
    exact .of_parts rfl rfl (by simp) (by simp [Expr.results]) exprsFit (by simp [Expr.templates])

theorem parameterDefault_carries {init : Option Value}
    (fits : ∀ form ∈ init, regime.Fit interp form) :
    regime.Carries (parameterDefault engine context init) (parameterDefault twin context init)
      (fun after expr? => ∀ expr ∈ expr?, regime.Admissible context.scope.sizes after expr)
      interp := by
  cases init with
  | none => exact .pure good (by simp)
  | some form =>
      exact .bind (engines.analyze context good (fits form rfl))
        fun expr _ step exprFits => .pure step.1 (by simpa using exprFits)

theorem parameters_carries (loc : Option SourceLoc) {params : List (Param Value)}
    (fits : ∀ param ∈ params, ∀ form ∈ param.init, regime.Fit interp form) :
    regime.Carries (parameters engine context loc params) (parameters twin context loc params)
      (fun after written => ∀ param ∈ written, ∀ init ∈ param.init,
        regime.Admissible context.scope.sizes after init) interp := by
  induction params generalizing interp with
  | nil => exact .pure good (by simp)
  | cons param params ih =>
      obtain ⟨paramFits, paramsFit⟩ := List.forall_mem_cons.mp fits
      refine .bind (checkLexical_keeps good loc _) fun _ _ checked _ => ?_
      refine .bind (parameterDefault_carries checked.1 engines context
        fun form isForm => checked.fit (paramFits form isForm)) fun init _ step initFits => ?_
      have both := checked.trans step
      refine .bind (ih step.1 fun other member form isForm =>
        both.fit (paramsFit other member form isForm)) fun rest _ step restFits => ?_
      exact .pure step.1 (List.forall_mem_cons.mpr
        ⟨fun expr isInit => step.admissible (initFits expr isInit), restFits⟩)

/-- Hidden parameters have no defaults, and the body sees one slot for each parameter. -/
theorem function_carries (loc : Option SourceLoc) (name : Option SymbolId)
    (hidden : List SymbolId) {list : Value} {forms : List Value}
    (listFits : regime.Fit interp list) (fits : ∀ form ∈ forms, regime.Fit interp form) :
    regime.Carries (function engine context loc name hidden list forms)
      (function twin context loc name hidden list forms)
      (regime.AdmissibleTemplate context.scope.sizes) interp := by
  refine .bind (parameterList_keeps good loc listFits) fun params _ first paramsFit => ?_
  refine .bind (parameters_carries first.1 engines context loc
    fun param member => (paramsFit param member).2) fun written _ second writtenFit => ?_
  have both := first.trans second
  refine .bind (body_carries second.1 engines _ (both.fitAll fits))
    fun body _ step bodyFits => .pure step.1 (.of_parts ?_ ?_)
  · intro param member init isInit
    rcases List.mem_append.mp member with isHidden | isWritten
    · obtain ⟨name, _, rfl⟩ := List.mem_map.mp isHidden
      simp at isInit
    · exact step.admissible (writtenFit param isWritten init isInit)
  · simpa [Context.push, Params.names] using bodyFits

theorem namedValue_carries (name : SymbolId) {value : Value} (fit : regime.Fit interp value) :
    regime.Carries (namedValue engine context name value) (namedValue twin context name value)
      (regime.Admissible context.scope.sizes) interp := by
  unfold namedValue
  split
  · next head list forms listed =>
      have parts := fitAll_of_toList? fit listed
      refine .get_bind (.ite ?_ (engines.analyze context good fit))
      exact .bind (function_carries good engines context _ _ [] (parts list (by simp))
        fun form member => parts form (by simp [member]))
        fun template _ step fits => .pure step.1 (.lambda fits)
  · exact engines.analyze context good fit

theorem bindingInits_carries {check : SymbolId → Eval Unit} {pairs : List (SymbolId × Value)}
    (checks : ∀ symbol {interp : Interp}, regime.Good interp →
      regime.Keeps (check symbol) (fun _ _ => True) interp)
    (fits : ∀ pair ∈ pairs, regime.Fit interp pair.2) :
    regime.Carries (bindingInits engine context check pairs)
      (bindingInits twin context check pairs)
      (fun after inits => ∀ init ∈ inits.map (·.2),
        regime.Admissible context.scope.sizes after init) interp := by
  induction pairs generalizing interp with
  | nil => exact .pure good (by simp)
  | cons pair pairs ih =>
      obtain ⟨pairFits, pairsFit⟩ := List.forall_mem_cons.mp fits
      refine .bind (checks pair.1 good) fun _ _ checked _ => ?_
      refine .bind (engines.analyze context checked.1 (checked.fit pairFits))
        fun init _ step initFits => ?_
      have both := checked.trans step
      refine .bind (ih step.1 fun other member => both.fit (pairsFit other member))
        fun rest _ step restFits => ?_
      exact .pure step.1 (List.forall_mem_cons.mpr ⟨step.admissible initFits, restFits⟩)

/-! ## Special forms -/

variable (loc : Option SourceLoc)

theorem assignment_carries {target value : Value} (targetFits : regime.Fit interp target)
    (valueFits : regime.Fit interp value) :
    regime.Carries (assignment engine context loc target value)
      (assignment twin context loc target value) (regime.Admissible context.scope.sizes)
      interp := by
  unfold assignment
  split
  · next symbol =>
      -- The symbols are asked here, once and for all evaluations of the assignment.
      refine .bind (checkAssignable_keeps good symbol) fun _ _ checked mayWrite => ?_
      refine .bind (engines.analyze context checked.1 (checked.fit valueFits))
        fun expr _ step exprFits => .get_bind (.ite ?_ ?_)
      · exact .pure step.1 (.setDynamic mayWrite exprFits)
      · split
        · next address found =>
            exact .pure step.1 (.setLocal (Scope.address?_inRange found) exprFits)
        · exact .pure step.1 (.setGlobal mayWrite exprFits)
  · split
    · next head object listed =>
        have parts := fitAll_of_toList? targetFits listed
        refine .bind (Eval.nameOf_keeps good head) fun text _ named _ => ?_
        split
        · refine .bind (engines.analyze context named.1 (named.fit (parts object (by simp))))
            fun object _ step objectFits => ?_
          have both := named.trans step
          refine .bind (engines.analyze context step.1 (both.fit valueFits))
            fun expr _ step exprFits => .pure step.1 ?_
          have objectFits := step.admissible objectFits
          exact .of_parts rfl rfl (by simp) (by simp [Expr.results])
            (by simpa [Expr.parts] using ⟨objectFits, exprFits⟩) (by simp [Expr.templates])
        · exact malformed_keeps named.1 loc _
    · exact malformed_keeps good loc _

/-- A default that is a literal is a value that fits, and any other is a function. -/
theorem slotInit_carries {init : Option Value} (fits : ∀ form ∈ init, regime.Fit interp form) :
    regime.Carries (slotInit engine context loc init) (slotInit twin context loc init)
      (fun after init => (∀ value ∈ init.value?, regime.Fit after value) ∧
        ∀ template ∈ init.template?,
          regime.AdmissibleTemplate context.scope.sizes after template) interp := by
  cases init with
  | none =>
      refine .pure good ⟨?_, by simp [SlotInit.template?]⟩
      simpa [SlotInit.value?] using lawful.fit_atom rfl
  | some form =>
      have formFits := fits form rfl
      refine .bind (engines.analyze context good formFits) fun expr _ step exprFits => ?_
      cases expr with
      | literal value =>
          refine .pure step.1 ⟨?_, by simp [SlotInit.template?]⟩
          simpa [SlotInit.value?] using exprFits.fits _ .self value (by simp [Expr.results])
      | _ =>
          exact .bind (function_carries step.1 engines context loc none [] (lawful.fit_atom rfl)
            (by simpa using step.fit formFits)) fun template _ step templateFits =>
              .pure step.1 ⟨by simp [SlotInit.value?],
                by simpa [SlotInit.template?] using templateFits⟩

theorem slots_carries {items : List Value} (fits : ∀ item ∈ items, regime.Fit interp item) :
    regime.Carries (slots engine context loc items) (slots twin context loc items)
      (fun after slots => ∀ slot ∈ slots, (∀ value ∈ slot.2.value?, regime.Fit after value) ∧
        ∀ template ∈ slot.2.template?,
          regime.AdmissibleTemplate context.scope.sizes after template) interp := by
  induction items generalizing interp with
  | nil => exact .pure good (by simp)
  | cons item items ih =>
      obtain ⟨itemFits, itemsFit⟩ := List.forall_mem_cons.mp fits
      unfold slots
      split
      · exact malformed_keeps good loc _
      · next name init found =>
          refine .bind (slotInit_carries good engines context loc (fit_of_slot? found itemFits))
            fun init _ first initFits => ?_
          refine .bind (Eval.nameOf_keeps first.1 name) fun text _ second _ => ?_
          have both := first.trans second
          refine .bind (ih second.1 (both.fitAll itemsFit)) fun rest _ step restFits => ?_
          have since := second.trans step
          exact .pure step.1 (List.forall_mem_cons.mpr
            ⟨⟨fun value found => since.fit (initFits.1 value found), fun template found =>
              since.admissibleTemplate (initFits.2 template found)⟩, restFits⟩)

theorem classDefinition_carries {name parents slotList : Value}
    (nameFits : regime.Fit interp name) (parentsFit : regime.Fit interp parents)
    (slotsFit : regime.Fit interp slotList) :
    regime.Carries (classDefinition engine context loc name parents slotList)
      (classDefinition twin context loc name parents slotList)
      (regime.Admissible context.scope.sizes) interp := by
  refine .bind (definitionName_keeps good loc nameFits) fun name _ first _ => ?_
  split
  · exact malformed_keeps first.1 loc _
  · next parents listed =>
      refine .bind (Engine.analyzeAll_carries engines first.1 context
        (first.fitAll (fitAll_of_toList? parentsFit listed))) fun parents _ second exprsFit => ?_
      have both := first.trans second
      split
      · exact malformed_keeps second.1 loc _
      · next items listed =>
          refine .bind (slots_carries second.1 engines context loc
            (both.fitAll (fitAll_of_toList? slotsFit listed))) fun slots _ step found => ?_
          exact .pure step.1 (.defClass name (step.admissibleAll exprsFit)
            (fun slot member => (found slot member).1) fun slot member => (found slot member).2)

theorem behaviorDefinition_carries (name : SymbolId) {target : Value} {rest : List Value}
    (targetFits : regime.Fit interp target) (fits : ∀ form ∈ rest, regime.Fit interp form) :
    regime.Carries (behaviorDefinition engine context loc target name rest)
      (behaviorDefinition twin context loc target name rest)
      (regime.Admissible context.scope.sizes) interp := by
  refine .bind (qualified_keeps good loc fits) fun shape _ first shapeFits => ?_
  obtain ⟨qualifier, list, forms⟩ := shape
  refine .ite (malformed_keeps first.1 loc _) ?_
  refine .bind (engines.analyze context first.1 (first.fit targetFits))
    fun target _ second targetFits => .get_bind ?_
  refine .bind (function_carries second.1 engines context loc _ _ (second.fit shapeFits.1)
    (second.fitAll shapeFits.2)) fun method _ third methodFits => ?_
  refine .bind (Eval.nameOf_keeps third.1 name) fun text _ step _ => .pure step.1 ?_
  have targetFits := step.admissible (third.admissible targetFits)
  have methodFits := step.admissibleTemplate methodFits
  exact .of_parts rfl rfl (by simp) (by simp [Expr.results])
    (by simpa [Expr.parts] using targetFits) (by simpa [Expr.templates] using methodFits)

variable {arguments : List Value} (fits : ∀ argument ∈ arguments, regime.Fit interp argument)

include fits

theorem definition_carries :
    regime.Carries (definition engine context loc arguments)
      (definition twin context loc arguments)
      (fun after pair => regime.Fit after (.symbol pair.1) ∧
        regime.Admissible context.scope.sizes after pair.2) interp := by
  rcases arguments with _ | ⟨name, _ | ⟨value, _ | ⟨_, _⟩⟩⟩
  · exact malformed_keeps good loc _
  · exact .bind (definitionName_keeps good loc (fits name (by simp)))
      fun _ _ step nameFits => .pure step.1 ⟨nameFits, .literal (lawful.fit_atom rfl)⟩
  · refine .bind (definitionName_keeps good loc (fits name (by simp)))
      fun name _ step nameFits => ?_
    exact .bind (namedValue_carries step.1 engines context name (step.fit (fits value (by simp))))
      fun _ _ step exprFits => .pure step.1 ⟨step.fit nameFits, exprFits⟩
  · exact malformed_keeps good loc _

/-- Every special form gives an admissible expression; a `let` and the functions are the ones that
add a frame. -/
theorem special_carries (symbol : SymbolId) (form : SpecialForm) :
    regime.Carries (special engine context loc symbol form arguments)
      (special twin context loc symbol form arguments) (regime.Admissible context.scope.sizes)
      interp := by
  have wrong : ∀ problem, regime.Keeps (malformed loc problem : Eval Expr)
      (regime.Admissible context.scope.sizes) interp :=
    fun problem => malformed_keeps good loc problem
  have literal : ∀ {value}, regime.Fit interp value →
      regime.Keeps (pure (.literal value) : Eval Expr) (regime.Admissible context.scope.sizes)
        interp :=
    fun fit => .pure good (.literal fit)
  cases form with
  | quote =>
      rcases arguments with _ | ⟨datum, _ | ⟨_, _⟩⟩
      · exact wrong _
      · exact literal (fits datum (by simp))
      · exact wrong _
  | quasiquote =>
      rcases arguments with _ | ⟨template, _ | ⟨_, _⟩⟩
      · exact wrong _
      · exact Quasi.analyze_carries engines context good (fits template (by simp))
      · exact wrong _
  | unquote => exact wrong _
  | unquoteSplicing => exact wrong _
  | if_ =>
      rcases arguments with _ | ⟨test, _ | ⟨yes, _ | ⟨no, _ | ⟨_, _⟩⟩⟩⟩
      · exact wrong _
      · exact wrong _
      · refine .bind (engines.analyze context good (fits test (by simp)))
          fun test _ first testFits => ?_
        refine .bind (engines.analyze context first.1 (first.fit (fits yes (by simp))))
          fun yes after step yesFits => .pure step.1 ?_
        have noFits : regime.Admissible context.scope.sizes after (.literal .null) :=
          .literal (lawful.fit_atom rfl)
        exact .of_parts rfl rfl (by simp) (by simp [Expr.results])
          (by simpa [Expr.parts] using ⟨step.admissible testFits, yesFits, noFits⟩)
          (by simp [Expr.templates])
      · refine .bind (engines.analyze context good (fits test (by simp)))
          fun test _ first testFits => ?_
        refine .bind (engines.analyze context first.1 (first.fit (fits yes (by simp))))
          fun yes _ second yesFits => ?_
        have both := first.trans second
        refine .bind (engines.analyze context second.1 (both.fit (fits no (by simp))))
          fun no _ step noFits => .pure step.1 ?_
        have testFits := step.admissible (second.admissible testFits)
        exact .of_parts rfl rfl (by simp) (by simp [Expr.results])
          (by simpa [Expr.parts] using ⟨testFits, step.admissible yesFits, noFits⟩)
          (by simp [Expr.templates])
      · exact wrong _
  | or =>
      rcases arguments with _ | ⟨single, _ | ⟨second, rest⟩⟩
      · exact literal (lawful.fit_atom rfl)
      · exact engines.analyze context good (fits single (by simp))
      · exact .bind (Engine.analyzeAll_carries engines good context fits)
          fun _ _ step exprsFit => .pure step.1
            (.of_parts rfl rfl (by simp) (by simp [Expr.results]) exprsFit
              (by simp [Expr.templates]))
  | and =>
      rcases arguments with _ | ⟨single, _ | ⟨second, rest⟩⟩
      · exact literal (lawful.fit_atom rfl)
      · exact engines.analyze context good (fits single (by simp))
      · exact .bind (Engine.analyzeAll_carries engines good context fits)
          fun _ _ step exprsFit => .pure step.1
            (.of_parts rfl rfl (by simp) (by simp [Expr.results]) exprsFit
              (by simp [Expr.templates]))
  | block => exact body_carries good engines context fits
  | while_ =>
      cases arguments with
      | nil => exact wrong _
      | cons test forms =>
          obtain ⟨testFits, formsFit⟩ := List.forall_mem_cons.mp fits
          refine .bind (engines.analyze context good testFits) fun test _ first testFits => ?_
          refine .bind (body_carries first.1 engines context (first.fitAll formsFit))
            fun body _ step bodyFits => .pure step.1 ?_
          exact .of_parts rfl rfl (by simp) (by simp [Expr.results])
            (by simpa [Expr.parts] using ⟨step.admissible testFits, bodyFits⟩)
            (by simp [Expr.templates])
  | lambda =>
      cases arguments with
      | nil => exact wrong _
      | cons list forms =>
          obtain ⟨listFits, formsFit⟩ := List.forall_mem_cons.mp fits
          exact .bind (function_carries good engines context loc none [] listFits formsFit)
            fun _ _ step templateFits => .pure step.1 (.lambda templateFits)
  | defMacro =>
      rcases arguments with _ | ⟨name, _ | ⟨list, forms⟩⟩
      · exact wrong _
      · exact wrong _
      · obtain ⟨listFits, formsFit⟩ :=
          List.forall_mem_cons.mp (List.forall_mem_cons.mp fits).2
        refine .bind (definitionName_keeps good loc (fits name (by simp)))
          fun name _ first nameFits => ?_
        refine .bind (function_carries first.1 engines context loc (some name) []
          (first.fit listFits) (first.fitAll formsFit))
          fun _ _ step templateFits => .pure step.1 ?_
        exact .of_parts rfl rfl (by simp) (by simpa [Expr.results] using step.fit nameFits)
          (by simp [Expr.parts]) (by simpa [Expr.templates] using templateFits)
  | def_ =>
      refine .bind (definition_carries good engines context loc fits)
        fun pair _ step partsFit => .pure step.1 ?_
      exact .of_parts rfl rfl (by simp) (by simpa [Expr.results] using partsFit.1)
        (by simpa [Expr.parts] using partsFit.2) (by simp [Expr.templates])
  | defConstant =>
      refine .bind (definition_carries good engines context loc fits)
        fun pair _ step partsFit => .pure step.1 ?_
      exact .of_parts rfl rfl (by simp) (by simpa [Expr.results] using partsFit.1)
        (by simpa [Expr.parts] using partsFit.2) (by simp [Expr.templates])
  | set =>
      rcases arguments with _ | ⟨target, _ | ⟨value, _ | ⟨_, _⟩⟩⟩
      · exact wrong _
      · exact wrong _
      · exact assignment_carries good engines context loc (fits target (by simp))
          (fits value (by simp))
      · exact wrong _
  | dynamicLet =>
      cases arguments with
      | nil => exact wrong _
      | cons list forms =>
          obtain ⟨listFits, formsFit⟩ := List.forall_mem_cons.mp fits
          refine .bind (bindings_keeps good loc listFits) fun pairs _ first pairsFit => ?_
          refine .bind (bindingInits_carries first.1 engines context
            (fun symbol _ good => checkDynamic_keeps good loc symbol)
            fun pair member => (pairsFit pair member).2) fun inits _ second initsFit => ?_
          have both := first.trans second
          refine .bind (body_carries second.1 engines context (both.fitAll formsFit))
            fun body _ step bodyFits => .pure step.1 ?_
          exact .of_parts rfl rfl (by simp) (by simp [Expr.results])
            (List.forall_mem_cons.mpr ⟨bodyFits, step.admissibleAll initsFit⟩)
            (by simp [Expr.templates])
  | let_ =>
      cases arguments with
      | nil => exact wrong _
      | cons list forms =>
          obtain ⟨listFits, formsFit⟩ := List.forall_mem_cons.mp fits
          refine .bind (bindings_keeps good loc listFits) fun pairs _ first pairsFit => ?_
          refine .bind (bindingInits_carries first.1 engines context
            (fun symbol _ good => checkLexical_keeps good loc symbol)
            fun pair member => (pairsFit pair member).2) fun inits _ second initsFit => ?_
          have both := first.trans second
          refine .bind (body_carries second.1 engines _ (both.fitAll formsFit))
            fun body _ step bodyFits => .pure step.1 ?_
          exact .let_ (step.admissibleAll initsFit) (by simpa [Context.push] using bodyFits)
  | callNextMethod =>
      cases arguments with
      | nil =>
          refine .bind (continuation_keeps good context loc symbol)
            fun next _ step nextFits => .pure step.1 ?_
          exact .of_parts rfl rfl (by simp) (by simp [Expr.results])
            (by simpa [Expr.parts] using nextFits) (by simp [Expr.templates])
      | cons first rest =>
          refine .bind (continuation_keeps good context loc symbol)
            fun next _ found nextFits => ?_
          refine .bind (Engine.analyzeAll_carries engines found.1 context (found.fitAll fits))
            fun exprs _ step exprsFit => .pure step.1 ?_
          exact .of_parts rfl rfl (by simp) (by simp [Expr.results])
            (by simpa [Expr.parts] using ⟨step.admissible nextFits, exprsFit⟩)
            (by simp [Expr.templates])
  | hasNextMethod =>
      refine .bind (continuation_keeps good context loc symbol)
        fun next _ step nextFits => .pure step.1 ?_
      exact .of_parts rfl rfl (by simp) (by simp [Expr.results])
        (by simpa [Expr.parts] using nextFits) (by simp [Expr.templates])
  | defClass =>
      rcases arguments with _ | ⟨name, _ | ⟨parents, _ | ⟨slots, _ | ⟨_, _⟩⟩⟩⟩
      · exact wrong _
      · exact wrong _
      · have noSlots : regime.Fit interp .null := lawful.fit_atom rfl
        exact classDefinition_carries good engines context loc (fits name (by simp))
          (fits parents (by simp)) noSlots
      · exact classDefinition_carries good engines context loc (fits name (by simp))
          (fits parents (by simp)) (fits slots (by simp))
      · exact wrong _
  | defBehavior =>
      rcases arguments with _ | ⟨target, _ | ⟨name, rest⟩⟩
      · exact wrong _
      · exact wrong _
      · obtain ⟨targetFits, others⟩ := List.forall_mem_cons.mp fits
        cases name with
        | symbol name =>
            exact behaviorDefinition_carries good engines context loc name targetFits
              (List.forall_mem_cons.mp others).2
        | _ => exact wrong _

/-! ## Calls -/

theorem expansion_carries (index : Nat) :
    regime.Carries (expansion engine context loc index arguments)
      (expansion twin context loc index arguments) (regime.Admissible context.scope.sizes)
      interp := by
  refine .bind (.move good (.counters _)) fun _ _ step _ => ?_
  exact .bind (engines.apply loc step.1 (lawful.fit_atom rfl) (step.fitAll fits))
    fun form _ step formFits => engines.analyze { context with fallback := loc } step.1 formFits

theorem memberAccess_carries (head member : String) :
    regime.Carries (memberAccess engine context loc head member arguments)
      (memberAccess twin context loc head member arguments)
      (regime.Admissible context.scope.sizes) interp := by
  cases arguments with
  | nil => exact malformed_keeps good loc _
  | cons object rest =>
      obtain ⟨objectFits, restFits⟩ := List.forall_mem_cons.mp fits
      refine .bind (engines.analyze context good objectFits) fun object _ first objectFits => ?_
      refine .bind (Engine.analyzeAll_carries engines first.1 context (first.fitAll restFits))
        fun exprs _ step exprsFit => .pure step.1 ?_
      exact .of_parts rfl rfl (by simp) (by simp [Expr.results])
        (List.forall_mem_cons.mpr ⟨step.admissible objectFits, exprsFit⟩)
        (by simp [Expr.templates])

theorem call_carries {head : Value} (headFits : regime.Fit interp head) :
    regime.Carries (call engine context loc head arguments)
      (call twin context loc head arguments) (regime.Admissible context.scope.sizes)
      interp := by
  refine .bind (engines.analyze context good headFits) fun callee _ first calleeFits => ?_
  refine .bind (Engine.analyzeAll_carries engines first.1 context (first.fitAll fits))
    fun exprs _ step exprsFit => .pure step.1 ?_
  exact .of_parts rfl rfl (by simp) (by simp [Expr.results])
    (List.forall_mem_cons.mpr ⟨step.admissible calleeFits, exprsFit⟩) (by simp [Expr.templates])

theorem symbolCall_carries {symbol : SymbolId} (symbolFits : regime.Fit interp (.symbol symbol)) :
    regime.Carries (symbolCall engine context loc symbol arguments)
      (symbolCall twin context loc symbol arguments) (regime.Admissible context.scope.sizes)
      interp := by
  refine .get_bind ?_
  split
  · exact special_carries good engines context loc fits symbol _
  · split
    · exact expansion_carries good engines context loc fits _
    · dsimp only
      split
      · exact memberAccess_carries good engines context loc fits _ _
      · exact call_carries good engines context loc fits symbolFits

omit fits

theorem list_carries {form : Value} (fit : regime.Fit interp form) :
    regime.Carries (list engine context form) (list twin context form)
      (regime.Admissible context.scope.sizes) interp := by
  unfold list
  dsimp only
  split
  · next symbol arguments listed =>
      obtain ⟨symbolFits, fits⟩ := List.forall_mem_cons.mp (fitAll_of_toList? fit listed)
      exact symbolCall_carries good engines context _ fits symbolFits
  · next head arguments _ listed =>
      obtain ⟨headFits, fits⟩ := List.forall_mem_cons.mp (fitAll_of_toList? fit listed)
      exact call_carries good engines context _ fits headFits
  · exact .pure good (.literal (lawful.fit_atom rfl))
  · exact malformed_keeps good _ _

/-- What analysis gives is admissible for the frames of its context. -/
theorem analyze_carries {form : Value} (fit : regime.Fit interp form) :
    regime.Carries (analyze engine form context) (analyze twin form context)
      (regime.Admissible context.scope.sizes) interp := by
  cases form with
  | symbol symbol => exact name_keeps good context fit
  | cons id car cdr => exact list_carries good engines context fit
  | _ => exact .pure good (.literal fit)

end Analysis

end ObjectLisp
