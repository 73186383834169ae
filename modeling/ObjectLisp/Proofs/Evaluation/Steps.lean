import ObjectLisp.Proofs.Evaluation.Analysis
import ObjectLisp.Proofs.Evaluation.Library

/-!
# Steps of evaluation

One step of evaluation, case by case: with engines that match, the results match.
A variable gives a value that the state holds, a literal one that stands in the
code, and all other values come from parts.
-/

namespace ObjectLisp

open Regime

/-- What is found at an address is a slot of some frame. -/
theorem FrameStore.exists_frame_of_get? {α : Type} {store : FrameStore α} {env : Option FrameId}
    {level index : Nat} {value : α} (found : store.get? env level index = some value) :
    ∃ frame ∈ store.frames, value ∈ frame.slots := by
  unfold get? at found
  split at found
  · cases found
  · split at found
    · obtain ⟨frame, isFrame, isSlot⟩ := Option.bind_eq_some_iff.mp found
      exact ⟨frame, Array.mem_of_getElem? isFrame, Array.mem_of_getElem? isSlot⟩
    · cases found

theorem DynamicStack.mem_of_lookupIn {α : Type} {symbol : SymbolId} {value : α}
    {bindings : List (SymbolId × α)} (found : lookupIn symbol bindings = some value) :
    (symbol, value) ∈ bindings := by
  induction bindings with
  | nil => cases found
  | cons binding bindings ih =>
      obtain ⟨bound, first⟩ := binding
      unfold lookupIn at found
      split at found
      · next same =>
          cases found
          simp [same]
      · exact List.mem_cons_of_mem _ (ih found)

variable {regime : Regime} [lawful : regime.Lawful] {engine twin : Engine} {interp : Interp}

/-! ## Making closures -/

theorem Eval.close_eq (template : Template Expr) (env : Option FrameId) (interp : Interp) :
    Eval.close template env interp =
      .ok (interp.heap.newClosure { template, env }).1 (interp.closing template env) := by
  cases env <;> rfl

theorem Eval.close_keeps {expr : Expr} {env : Option FrameId} {template : Template Expr}
    (good : regime.Good interp) (ready : regime.Ready expr env interp)
    (member : template ∈ expr.templates) :
    regime.Keeps (Eval.close template env) (fun _ _ => True) interp := by
  unfold Keeps Carries
  rw [Eval.close_eq]
  exact .ok (lawful.move good (.close ready member)) trivial

namespace Evaluate

variable {env : Option FrameId} (good : regime.Good interp)

include good

/-! ## Variables and data -/

theorem localValue_keeps (env : Option FrameId) (address : Address) (name : SymbolId) :
    regime.Keeps (localValue env address name) regime.Fit interp := by
  unfold Keeps Carries localValue
  split
  · next value found =>
      obtain ⟨frame, isFrame, isSlot⟩ := FrameStore.exists_frame_of_get? found
      exact .ok (.refl good) (lawful.fit_held good (.frame isFrame isSlot))
  · exact Eval.unbound_keeps good name

theorem globalValue_keeps (name : SymbolId) :
    regime.Keeps (globalValue name) regime.Fit interp := by
  unfold Keeps Carries globalValue
  split
  · next value found => exact .ok (.refl good) (lawful.fit_held good (.global found))
  · exact Eval.unbound_keeps good name

theorem dynamicValue_keeps (name : SymbolId) :
    regime.Keeps (dynamicValue name) regime.Fit interp := by
  unfold Keeps Carries dynamicValue
  split
  · next value found =>
      exact .ok (.refl good)
        (lawful.fit_held good (.dynamic (DynamicStack.mem_of_lookupIn found)))
  · exact globalValue_keeps good name

theorem joined_keeps {parts : List Value} (fits : ∀ part ∈ parts, regime.Fit interp part) :
    regime.Keeps (joined parts) (fun after items => ∀ item ∈ items, regime.Fit after item)
      interp := by
  induction parts generalizing interp with
  | nil => exact .pure good (by simp)
  | cons part parts ih =>
      obtain ⟨partFits, partsFit⟩ := List.forall_mem_cons.mp fits
      unfold joined
      split
      · next items listed =>
          refine .bind (ih good partsFit) fun others _ step othersFit => .pure step.1 ?_
          intro item member
          rcases List.mem_append.mp member with isItem | isOther
          · exact step.fit (fitAll_of_toList? partFits listed item isItem)
          · exact othersFit item isOther
      · exact .typeError good _ _

theorem construct_keeps (construction : Construction) {values : List Value}
    (fits : ∀ value ∈ values, regime.Fit interp value) :
    regime.Keeps (construct construction values) regime.Fit interp := by
  have last : regime.Fit interp (values.getLastD .null) := by
    rw [List.getLastD_eq_getLast?]
    exact fit_getD fits fun item isLast => List.mem_of_getLast? isLast
  cases construction with
  | list => exact Eval.list_keeps good fits
  | append =>
      refine .bind (joined_keeps good fun part member => ?_) fun _ _ step itemsFit =>
        Eval.listWithTail_keeps step.1 itemsFit (step.fit last)
      exact fits part ((List.dropLast_sublist _).mem member)
  | vector =>
      unfold construct
      dsimp only
      split
      · next items listed => exact Eval.vector_keeps good (fitAll_of_toList? last listed)
      · exact .typeError good _ _

/-! ## Assignments and definitions -/

theorem setGlobal_keeps {name : SymbolId} {value : Value} (mayWrite : regime.Writable name)
    (fit : regime.Fit interp value) :
    regime.Keeps (Eval.setGlobal name value) (fun _ _ => True) interp :=
  .ok (lawful.move good (.write mayWrite fit)) trivial

theorem assignGlobal_keeps {name : SymbolId} {value : Value} (mayWrite : regime.Writable name)
    (fit : regime.Fit interp value) :
    regime.Keeps (assignGlobal name value) (fun _ _ => True) interp := by
  unfold Keeps Carries assignGlobal
  split
  · exact .ok (lawful.move good (.write mayWrite fit)) trivial
  · exact Eval.unbound_keeps good name

theorem assignDynamic_keeps {name : SymbolId} {value : Value} (mayWrite : regime.Writable name)
    (fit : regime.Fit interp value) :
    regime.Keeps (assignDynamic name value) (fun _ _ => True) interp := by
  unfold Keeps Carries assignDynamic
  split
  · next dynamic found => exact .ok (lawful.move good (.assignDynamic found fit)) trivial
  · exact assignGlobal_keeps good mayWrite fit

/-- What became a constant could be written before. -/
theorem makeConstant_keeps (name : SymbolId) :
    regime.Keeps (makeConstant name) (fun _ _ => regime.Writable name) interp := by
  unfold Keeps Carries makeConstant
  split
  · next symbols made =>
      have assignable := SymbolStore.assignmentProblem?_of_makeConstant made
      exact .ok (lawful.move good (.symbols (.single (.makeConstant made))))
        (lawful.writable good assignable)
  · exact .failure _ (.refl good)

theorem slotDefaults_keeps {expr : Expr} {slots : List (String × SlotInit Expr)}
    (ready : regime.Ready expr env interp)
    (constants : ∀ value ∈ slots.filterMap (·.2.value?), value ∈ expr.results)
    (functions : ∀ template ∈ slots.filterMap (·.2.template?), template ∈ expr.templates) :
    regime.Keeps (slotDefaults env slots)
      (fun after defaults => ∀ slot ∈ defaults, regime.Fit after slot.2.value) interp := by
  induction slots generalizing interp with
  | nil => exact .pure good (by simp)
  | cons slot slots ih =>
      obtain ⟨name, init⟩ := slot
      cases init with
      | constant value =>
          obtain ⟨isOwn, others⟩ := List.forall_mem_cons.mp constants
          have fit := lawful.ready_value ready isOwn
          exact .bind (ih good ready others functions) fun _ _ step found =>
            .pure step.1 (List.forall_mem_cons.mpr ⟨step.fit fit, found⟩)
      | computed template =>
          obtain ⟨isOwn, others⟩ := List.forall_mem_cons.mp functions
          refine .bind (Eval.close_keeps good ready isOwn) fun function _ step _ => ?_
          exact .bind (ih step.1 (step.ready ready) constants others) fun _ _ step found =>
            .pure step.1 (List.forall_mem_cons.mpr ⟨lawful.fit_atom rfl, found⟩)

theorem defineClass_keeps {name : SymbolId} {ids : List ClassId}
    {slots : List (String × SlotDefault)} (mayWrite : regime.Writable name)
    (parentsFit : ∀ id ∈ ids, regime.Fit interp (.class_ id))
    (defaults : ∀ slot ∈ slots, regime.Fit interp slot.2.value) :
    regime.Keeps (defineClass name ids slots) regime.Fit interp := by
  have tried := lawful.move good
    (.define (interp.symbols.nameOf name) parentsFit defaults)
  unfold Keeps Carries defineClass
  dsimp only
  split
  · next id made =>
      have fit := lawful.fit_defined good made
      have written := lawful.move tried.1 (.write mayWrite fit)
      exact .ok (tried.trans written) (written.fit fit)
  · exact .failure _ tried

theorem defineBehavior_keeps {expr : Expr} {method : Template Expr}
    (ready : regime.Ready expr env interp) (member : method ∈ expr.templates) (target : Value)
    (name : String) (qualifier : Qualifier) :
    regime.Keeps (defineBehavior env target name qualifier method) regime.Fit interp := by
  refine .bind (Object.target_keeps good target) fun class_ _ targeted _ => ?_
  refine .bind (Eval.close_keeps targeted.1 (targeted.ready ready) member)
    fun index _ closed _ => ?_
  exact .bind (.move closed.1 (.addBehavior class_ name qualifier (lawful.fit_atom rfl)))
    fun _ _ step _ => .atom step.1 rfl

variable (engines : regime.Engines engine twin)

include engines

/-! ## Parts one after the other -/

theorem orElse_carries {last : Value} {exprs : List Expr} (fit : regime.Fit interp last)
    (ready : ∀ expr ∈ exprs, regime.Ready expr env interp) :
    regime.Carries (orElse engine env last exprs) (orElse twin env last exprs) regime.Fit
      interp := by
  induction exprs generalizing interp last with
  | nil => exact .pure good fit
  | cons expr exprs ih =>
      obtain ⟨readyHead, readyTail⟩ := List.forall_mem_cons.mp ready
      refine .bind (engines.eval good readyHead) fun value _ step valueFits => ?_
      cases value.isTrue with
      | true => exact .pure step.1 valueFits
      | false => exact ih step.1 valueFits fun other member => step.ready (readyTail other member)

theorem andThen_carries {last : Value} {exprs : List Expr} (fit : regime.Fit interp last)
    (ready : ∀ expr ∈ exprs, regime.Ready expr env interp) :
    regime.Carries (andThen engine env last exprs) (andThen twin env last exprs) regime.Fit
      interp := by
  induction exprs generalizing interp last with
  | nil => exact .pure good fit
  | cons expr exprs ih =>
      obtain ⟨readyHead, readyTail⟩ := List.forall_mem_cons.mp ready
      refine .bind (engines.eval good readyHead) fun value _ step valueFits => ?_
      cases value.isTrue with
      | false => exact .pure step.1 valueFits
      | true => exact ih step.1 valueFits fun other member => step.ready (readyTail other member)

theorem sequence_carries {last : Value} {exprs : List Expr} (fit : regime.Fit interp last)
    (ready : ∀ expr ∈ exprs, regime.Ready expr env interp) :
    regime.Carries (sequence engine env last exprs) (sequence twin env last exprs) regime.Fit
      interp := by
  induction exprs generalizing interp last with
  | nil => exact .pure good fit
  | cons expr exprs ih =>
      obtain ⟨readyHead, readyTail⟩ := List.forall_mem_cons.mp ready
      exact .bind (engines.eval good readyHead) fun value _ step valueFits =>
        ih step.1 valueFits fun other member => step.ready (readyTail other member)

theorem loop_carries {test body : Expr} {fuel lower : Nat} (bounds : regime.Bounds fuel lower)
    (readyTest : regime.Ready test env interp) (readyBody : regime.Ready body env interp) :
    regime.Carries (loop engine env test body fuel) (loop twin env test body lower) regime.Fit
      interp := by
  induction fuel generalizing interp lower with
  | zero =>
      rw [bounds.eq_zero]
      exact .spent good
  | succ fuel ih =>
      refine .of_bounds (loop twin env test body) bounds rfl fun bounds => ?_
      refine .bind (engines.eval good readyTest) fun value _ tested _ => ?_
      cases value.isTrue with
      | false => exact .atom tested.1 rfl
      | true =>
          refine .bind (engines.eval tested.1 (tested.ready readyBody)) fun _ _ ran _ => ?_
          have step := tested.trans ran
          exact ih ran.1 bounds (step.ready readyTest) (step.ready readyBody)

theorem dynamicInits_carries {bindings : List (SymbolId × Expr)}
    (ready : ∀ init ∈ bindings.map (·.2), regime.Ready init env interp) :
    regime.Carries (dynamicInits engine env bindings) (dynamicInits twin env bindings)
      (fun after values => values.map Prod.fst = bindings.map Prod.fst ∧
        ∀ binding ∈ values, regime.Fit after binding.2) interp := by
  induction bindings generalizing interp with
  | nil => exact .pure good ⟨rfl, by simp⟩
  | cons binding bindings ih =>
      obtain ⟨readyHead, readyTail⟩ := List.forall_mem_cons.mp ready
      refine .bind (engines.eval good readyHead) fun value _ step valueFits => ?_
      refine .bind (ih step.1 fun other member => step.ready (readyTail other member))
        fun values _ step found => .pure step.1 ⟨?_, ?_⟩
      · rw [List.map_cons, List.map_cons, found.1]
      · exact List.forall_mem_cons.mpr ⟨step.fit valueFits, found.2⟩

theorem underBindings_carries {bindings : List (SymbolId × Value)} {body : Expr}
    (fits : ∀ binding ∈ bindings, regime.Fit interp binding.2)
    (ready : regime.Ready body env interp) :
    regime.Carries (underBindings engine env bindings body)
      (underBindings twin env bindings body) regime.Fit interp := by
  have bracket := lawful.bind good fits
  exact Carries.bracket bracket (fun _ => ⟨rfl, rfl, rfl, rfl⟩)
    (engines.eval bracket.good (lawful.ready_bind bindings ready))

theorem parents_carries {exprs : List Expr}
    (ready : ∀ expr ∈ exprs, regime.Ready expr env interp) :
    regime.Carries (parents engine env exprs) (parents twin env exprs)
      (fun after ids => ∀ id ∈ ids, regime.Fit after (.class_ id)) interp := by
  induction exprs generalizing interp with
  | nil => exact .pure good (by simp)
  | cons expr exprs ih =>
      obtain ⟨readyHead, readyTail⟩ := List.forall_mem_cons.mp ready
      refine .bind (engines.eval good readyHead) fun value _ step valueFits => ?_
      cases value with
      | class_ id =>
          exact .bind (ih step.1 fun other member => step.ready (readyTail other member))
            fun _ _ step idsFit =>
              .pure step.1 (List.forall_mem_cons.mpr ⟨step.fit valueFits, idsFit⟩)
      | _ => exact .fail step.1 _

theorem nextArguments_carries {exprs : Option (List Expr)}
    (ready : ∀ expr ∈ exprs.getD [], regime.Ready expr env interp) :
    regime.Carries (nextArguments engine env exprs) (nextArguments twin env exprs)
      (fun after arguments => ∀ values ∈ arguments, ∀ value ∈ values, regime.Fit after value)
      interp := by
  cases exprs with
  | none => exact .pure good (by simp)
  | some exprs =>
      exact .bind (Engine.evalAll_carries engines good ready)
        fun _ _ step found => .pure step.1 (by simpa using found.2)

/-! ## Expressions -/

/-- One step of evaluation, case by case.  Only an assignment to a member asks for a regime under
which every slot may be written. -/
theorem eval_carries {expr : Expr} (ready : regime.Ready expr env interp)
    (assigns : ∀ name object value loc, expr = .setMember name object value loc → regime.Open) :
    regime.Carries (eval engine expr env) (eval twin expr env) regime.Fit interp := by
  have readyPart := fun part (member : part ∈ expr.parts) => lawful.ready_part ready member
  have later : ∀ {after part}, regime.Step interp after → part ∈ expr.parts →
      regime.Ready part env after :=
    fun step member => step.ready (readyPart _ member)
  cases expr with
  | literal value => exact .pure good (lawful.ready_value ready (by simp [Expr.results]))
  | local_ address name => exact localValue_keeps good env address name
  | global name => exact globalValue_keeps good name
  | dynamic name => exact dynamicValue_keeps good name
  | if_ test yes no =>
      refine .bind (engines.eval good (readyPart test (by simp [Expr.parts])))
        fun value _ step _ => ?_
      cases value.isTrue with
      | true => exact engines.eval step.1 (later step (by simp [Expr.parts]))
      | false => exact engines.eval step.1 (later step (by simp [Expr.parts]))
  | or parts => exact orElse_carries good engines (lawful.fit_atom rfl) readyPart
  | and parts => exact andThen_carries good engines (lawful.fit_atom rfl) readyPart
  | block parts => exact sequence_carries good engines (lawful.fit_atom rfl) readyPart
  | while_ test body =>
      exact loop_carries good engines engines.fuel (readyPart test (by simp [Expr.parts]))
        (readyPart body (by simp [Expr.parts]))
  | lambda template =>
      exact .bind (Eval.close_keeps good ready (by simp [Expr.templates]))
        fun _ _ step _ => .atom step.1 rfl
  | defMacro name template =>
      have fit := lawful.ready_value ready (List.mem_singleton_self _)
      refine .bind (Analysis.checkAssignable_keeps good name) fun _ _ first mayWrite => ?_
      refine .bind (Eval.close_keeps first.1 (first.ready ready) (by simp [Expr.templates]))
        fun index _ second _ => ?_
      exact .bind (setGlobal_keeps second.1 mayWrite (lawful.fit_atom rfl))
        fun _ _ step _ => .pure step.1 (((first.trans second).trans step).fit fit)
  | def_ name value =>
      have fit := lawful.ready_value ready (List.mem_singleton_self _)
      refine .bind (Analysis.checkAssignable_keeps good name) fun _ _ first mayWrite => ?_
      refine .bind (engines.eval first.1 (later first (by simp [Expr.parts])))
        fun value _ second valueFits => ?_
      exact .bind (setGlobal_keeps second.1 mayWrite valueFits)
        fun _ _ step _ => .pure step.1 (((first.trans second).trans step).fit fit)
  | defConstant name value =>
      have fit := lawful.ready_value ready (List.mem_singleton_self _)
      refine .bind (engines.eval good (readyPart value (by simp [Expr.parts])))
        fun value _ first valueFits => ?_
      refine .bind (makeConstant_keeps first.1 name) fun _ _ second mayWrite => ?_
      exact .bind (setGlobal_keeps second.1 mayWrite (second.fit valueFits))
        fun _ _ step _ => .pure step.1 (((first.trans second).trans step).fit fit)
  | setLocal address value =>
      refine .bind (engines.eval good (readyPart value (by simp [Expr.parts])))
        fun value _ step valueFits => ?_
      exact .bind (.move step.1 (.assign (step.ready ready) valueFits))
        fun _ _ step _ => .pure step.1 (step.fit valueFits)
  | setGlobal name value =>
      refine .bind (engines.eval good (readyPart value (by simp [Expr.parts])))
        fun value _ step valueFits => ?_
      exact .bind (assignGlobal_keeps step.1 (lawful.ready_target ready rfl) valueFits)
        fun _ _ step _ => .pure step.1 (step.fit valueFits)
  | setDynamic name value =>
      refine .bind (engines.eval good (readyPart value (by simp [Expr.parts])))
        fun value _ step valueFits => ?_
      exact .bind (assignDynamic_keeps step.1 (lawful.ready_target ready rfl) valueFits)
        fun _ _ step _ => .pure step.1 (step.fit valueFits)
  | setMember name object value loc =>
      refine .bind (engines.eval good (readyPart object (by simp [Expr.parts])))
        fun object _ first objectFits => ?_
      exact .bind (engines.eval first.1 (later first (by simp [Expr.parts])))
        fun value _ step valueFits =>
          Member.assign_carries engines step.1 (fun _ _ _ => assigns _ _ _ _ rfl _ _ _)
            (step.fit objectFits) valueFits
  | dynamicLet bindings body =>
      refine .bind (dynamicInits_carries good engines fun init member =>
        readyPart init (List.mem_cons_of_mem _ member)) fun values _ step found => ?_
      exact underBindings_carries step.1 engines found.2 (later step (List.mem_cons_self ..))
  | let_ inits body =>
      refine .bind (Engine.evalAll_carries engines good readyPart)
        fun values _ step found => Call.inFrame_carries engines step.1 found.2 ?_
      rw [found.1]
      exact lawful.body_effect step.2 (lawful.ready_let ready)
  | apply callee arguments loc =>
      refine .bind (engines.eval good (readyPart callee (List.mem_cons_self ..)))
        fun function _ step functionFits => ?_
      exact .bind (Engine.evalAll_carries engines step.1 fun part member =>
        later step (List.mem_cons_of_mem _ member))
        fun values _ step found => engines.apply loc step.1 (step.fit functionFits) found.2
  | member name object arguments loc =>
      refine .bind (engines.eval good (readyPart object (List.mem_cons_self ..)))
        fun object _ step objectFits => ?_
      exact .bind (Engine.evalAll_carries engines step.1 fun part member =>
        later step (List.mem_cons_of_mem _ member))
        fun values _ step found =>
          Member.access_carries engines step.1 name loc (step.fit objectFits) found.2
  | callNext next arguments loc =>
      refine .bind (engines.eval good (readyPart next (List.mem_cons_self ..)))
        fun value _ step _ => ?_
      cases value with
      | nextMethod index =>
          exact .bind (nextArguments_carries step.1 engines fun part member =>
            later step (List.mem_cons_of_mem _ member))
            fun values _ step valuesFit =>
              Behavior.callNext_carries engines step.1 index loc valuesFit
      | _ => exact .fail step.1 _
  | hasNext next =>
      refine .bind (engines.eval good (readyPart next (by simp [Expr.parts])))
        fun value _ step _ => ?_
      cases value with
      | nextMethod index => exact .get_bind (.atom step.1 rfl)
      | _ => exact .atom step.1 rfl
  | construct construction parts =>
      exact .bind (Engine.evalAll_carries engines good readyPart)
        fun values _ step found => construct_keeps step.1 construction found.2
  | defClass name parentList slots =>
      refine .bind (Analysis.checkAssignable_keeps good name) fun _ _ checked mayWrite => ?_
      refine .bind (parents_carries checked.1 engines fun part member => later checked member)
        fun ids _ found idsFit => ?_
      have readyNow := (checked.trans found).ready ready
      refine .bind (slotDefaults_keeps found.1 readyNow (fun _ member => member)
        fun _ member => member) fun defaults _ step defaultsFit => ?_
      exact defineClass_keeps step.1 mayWrite (fun id member => step.fit (idsFit id member))
        defaultsFit
  | defBehavior target name qualifier method =>
      exact .bind (engines.eval good (readyPart target (by simp [Expr.parts])))
        fun value _ step _ => defineBehavior_keeps step.1 (step.ready ready)
          (by simp [Expr.templates]) value name qualifier

end Evaluate

/-! ## Calls of values -/

/-- Calls of all values but closures and the loading of texts, for which the two engines need not
stop in the same way. -/
theorem Call.value_carries (engines : regime.Engines engine twin) (good : regime.Good interp)
    {function : Value} {arguments : List Value} (loc : Option SourceLoc)
    (functionFits : regime.Fit interp function)
    (fits : ∀ argument ∈ arguments, regime.Fit interp argument)
    (mayStore : ∀ primitive index name value, function = .primitive primitive →
      primitive.Writes arguments interp index name value → regime.Storable index name value)
    (closures : ∀ index, function = .closure index →
      regime.Carries (Call.closure engine index arguments loc)
        (Call.closure twin index arguments loc) regime.Fit interp)
    (loads : function = .primitive .load → regime.Exact) :
    regime.Carries (Call.value engine function arguments loc)
      (Call.value twin function arguments loc) regime.Fit interp := by
  cases function with
  | closure index => exact closures index rfl
  | primitive primitive =>
      refine Library.call_carries engines good primitive fits
        (fun index name value => mayStore primitive index name value rfl) ?_
      rintro rfl
      exact loads rfl
  | operator id => exact Dispatch.apply_carries engines good id fits
  | nextMethod index =>
      refine Behavior.callNext_carries engines good index loc ?_
      intro values given
      split at given
      · cases given
      · cases given
        exact fits
  | class_ id => exact Object.make_carries engines good functionFits fits
  | _ => exact .bind (Eval.print_keeps good true _) fun _ _ step _ => .fail step.1 _

end ObjectLisp
