import ObjectLisp.Proofs.Evaluation.Objects

/-!
# Calls

Closures, behaviors, instances, members and operators call back into evaluation.
With engines that match, their results match.  A closure call is where two
brackets meet: the depth counter around the whole call, and the new frame around
the body.  A failure that leaves a closure call gets a note of it, so for the call
as a whole the two engines have to stop in the same way.
-/

namespace ObjectLisp

open Regime

/-- If all parameters are required, there is a slot for each required one. -/
theorem Params.required_eq_length {params : Params Expr} (simple : params.isSimple = true) :
    params.required = params.list.length := by
  unfold Params.required Params.count
  rw [List.countP_eq_length]
  simpa [Params.isSimple] using simple

/-- The value that a keyword announces is one of the arguments. -/
theorem Call.mem_of_keywordValue? {keyword : Option SymbolId} {arguments : List Value}
    {value : Value} (found : keywordValue? keyword arguments = some value) : value ∈ arguments := by
  fun_induction keywordValue? keyword arguments with
  | case1 symbol announced rest same =>
      cases found
      simp
  | case2 symbol announced rest other ih => simp [ih found]
  | case3 first second rest notSymbol ih => simp [ih found]
  | case4 => cases found

variable {regime : Regime} [lawful : regime.Lawful] {engine twin : Engine} {interp : Interp}
  (engines : regime.Engines engine twin) (good : regime.Good interp)

include engines good

/-! ## Expressions one after the other -/

namespace Engine

theorem evalAll_carries {env : Option FrameId} {exprs : List Expr}
    (ready : ∀ expr ∈ exprs, regime.Ready expr env interp) :
    regime.Carries (engine.evalAll env exprs) (twin.evalAll env exprs)
      (fun after values => values.length = exprs.length ∧
        ∀ value ∈ values, regime.Fit after value) interp := by
  induction exprs generalizing interp with
  | nil => exact .pure good ⟨rfl, by simp⟩
  | cons expr exprs ih =>
      obtain ⟨readyHead, readyTail⟩ := List.forall_mem_cons.mp ready
      refine .bind (engines.eval good readyHead) fun value middle step valueFits => ?_
      refine .bind (ih step.1 fun other member => step.ready (readyTail other member))
        fun values after step found => .pure step.1 ⟨by simp [found.1], ?_⟩
      exact List.forall_mem_cons.mpr ⟨step.fit valueFits, found.2⟩

theorem analyzeAll_carries (context : Context) {forms : List Value}
    (fits : ∀ form ∈ forms, regime.Fit interp form) :
    regime.Carries (engine.analyzeAll context forms) (twin.analyzeAll context forms)
      (fun after exprs => ∀ expr ∈ exprs, regime.Admissible context.scope.sizes after expr)
      interp := by
  induction forms generalizing interp with
  | nil => exact .pure good (by simp)
  | cons form forms ih =>
      obtain ⟨formFits, formsFit⟩ := List.forall_mem_cons.mp fits
      refine .bind (engines.analyze context good formFits) fun expr middle step admissible => ?_
      refine .bind (ih step.1 (step.fitAll formsFit)) fun exprs after step others =>
        .pure step.1 (List.forall_mem_cons.mpr ⟨step.admissible admissible, others⟩)

end Engine

/-! ## Closures -/

namespace Call

theorem defaultArgument_carries {env : Option FrameId} {init : Option Expr}
    (ready : ∀ expr ∈ init, regime.Ready expr env interp) :
    regime.Carries (defaultArgument engine env init) (defaultArgument twin env init) regime.Fit
      interp := by
  cases init with
  | none => exact .atom good rfl
  | some expr => exact engines.eval good (ready expr rfl)

omit engines in
theorem restArgument_keeps {remaining : List Value}
    (fits : ∀ value ∈ remaining, regime.Fit interp value) :
    regime.Keeps (restArgument remaining) regime.Fit interp :=
  .bind (.move good (.counters _)) fun _ _ step _ => Eval.list_keeps step.1 (step.fitAll fits)

theorem argument_carries {env : Option FrameId} {remaining : List Value}
    {positional : Option Value} {param : Param Expr}
    (remainingFit : ∀ value ∈ remaining, regime.Fit interp value)
    (positionalFits : ∀ value ∈ positional, regime.Fit interp value)
    (ready : ∀ init ∈ param.init, regime.Ready init env interp) :
    regime.Carries (argument engine env remaining positional param)
      (argument twin env remaining positional param) regime.Fit interp := by
  have default := defaultArgument_carries engines good ready
  unfold argument
  cases param.kind with
  | required =>
      cases positional with
      | none => exact .atom good rfl
      | some value => exact .pure good (positionalFits value rfl)
  | optional =>
      cases positional with
      | none => exact default
      | some value => exact .pure good (positionalFits value rfl)
  | keyword =>
      dsimp only
      cases found : keywordValue? param.keyword remaining with
      | none => exact default
      | some value => exact .pure good (remainingFit value (mem_of_keywordValue? found))
  | rest => exact restArgument_keeps good remainingFit

theorem bindAll_carries {env : Option FrameId} {remaining rest : List Value}
    {params : List (Param Expr)} (remainingFit : ∀ value ∈ remaining, regime.Fit interp value)
    (restFits : ∀ value ∈ rest, regime.Fit interp value)
    (ready : ∀ param ∈ params, ∀ init ∈ param.init, regime.Ready init env interp) :
    regime.Carries (bindAll engine env remaining rest params)
      (bindAll twin env remaining rest params)
      (fun after slots => slots.length = params.length ∧ ∀ value ∈ slots, regime.Fit after value)
      interp := by
  induction params generalizing interp rest with
  | nil => exact .pure good ⟨rfl, by simp⟩
  | cons param params ih =>
      obtain ⟨readyHead, readyTail⟩ := List.forall_mem_cons.mp ready
      refine .bind (argument_carries engines good remainingFit
        (fun value isHead => restFits value (List.mem_of_mem_head? isHead)) readyHead)
        fun value middle step valueFits => ?_
      refine .bind (ih step.1 (step.fitAll remainingFit)
        (fun value member => step.fit (restFits value (List.mem_of_mem_tail member)))
        fun other member init isInit => step.ready (readyTail other member init isInit))
        fun values after step found => .pure step.1 ⟨by simp [found.1], ?_⟩
      exact List.forall_mem_cons.mpr ⟨step.fit valueFits, found.2⟩

theorem bindGeneral_carries {closure : Closure} {arguments : List Value}
    (fits : ∀ argument ∈ arguments, regime.Fit interp argument)
    (ready : ∀ param ∈ closure.template.params.list, ∀ init ∈ param.init,
      regime.Ready init closure.env interp) :
    regime.Carries (bindGeneral engine closure arguments) (bindGeneral twin closure arguments)
      (fun after slots => slots.length = closure.template.params.list.length ∧
        ∀ value ∈ slots, regime.Fit after value) interp := by
  refine .bind (.move good (.counters _)) fun _ middle step _ => ?_
  dsimp only
  split
  · exact .failure _ (.refl step.1)
  · split
    · exact .fail step.1 _
    · exact bindAll_carries engines step.1
        (fun value member => step.fit (fits value (List.mem_of_mem_drop member)))
        (step.fitAll fits)
        fun param member init isInit => step.ready (ready param member init isInit)

/-- The slots of a call are as many as the parameters. -/
theorem bind_carries {closure : Closure} {arguments : List Value}
    (fits : ∀ argument ∈ arguments, regime.Fit interp argument)
    (ready : ∀ param ∈ closure.template.params.list, ∀ init ∈ param.init,
      regime.Ready init closure.env interp) :
    regime.Carries (bind engine closure arguments) (bind twin closure arguments)
      (fun after slots => slots.length = closure.template.params.list.length ∧
        ∀ value ∈ slots, regime.Fit after value) interp := by
  unfold bind
  dsimp only
  split
  · next simple =>
      split
      · exact .failure _ (.refl good)
      · next enough =>
          refine .bind (.move good (.counters _)) fun _ middle step _ =>
            .pure step.1 ⟨?_, step.fitAll fits⟩
          rw [← Params.required_eq_length simple]
          exact Decidable.not_not.mp enough
  · exact bindGeneral_carries engines good fits ready

/-- An expression that may be evaluated in a new frame is evaluated there, and the frame is given
back. -/
theorem inFrame_carries {slots : List Value} {parent : Option FrameId} {body : Expr}
    (fits : ∀ value ∈ slots, regime.Fit interp value)
    (ready : regime.Body body slots.length parent interp) :
    regime.Carries (inFrame engine slots parent body) (inFrame twin slots parent body) regime.Fit
      interp := by
  obtain ⟨bracket, readyInside⟩ := lawful.enter good fits ready
  exact Carries.bracket bracket (fun _ => ⟨rfl, rfl, rfl, rfl⟩)
    (engines.eval bracket.good readyInside)

theorem body_carries {closure : Closure} {arguments : List Value}
    (fits : ∀ argument ∈ arguments, regime.Fit interp argument)
    (defaults : ∀ param ∈ closure.template.params.list, ∀ init ∈ param.init,
      regime.Ready init closure.env interp)
    (ready : regime.Body closure.template.body closure.template.params.list.length closure.env
      interp) :
    regime.Carries (body engine closure arguments) (body twin closure arguments) regime.Fit
      interp := by
  refine .bind (bind_carries engines good fits defaults) fun slots middle step found =>
    inFrame_carries engines step.1 found.2 ?_
  rw [found.1]
  exact lawful.body_effect step.2 ready

/-- The body of a closure, one level deeper. -/
theorem body_deeper_carries (index : Nat) {arguments : List Value}
    (fits : ∀ argument ∈ arguments, regime.Fit interp argument)
    (mayCall : interp.depth < interp.config.maxDepth) :
    regime.Carries (body engine (interp.closure index) arguments)
      (body twin (interp.closure index) arguments) regime.Fit interp.deeper := by
  have bracket := lawful.call good mayCall
  have fitsInside : ∀ argument ∈ arguments, regime.Fit interp.deeper argument :=
    fun argument member => lawful.fit_same interp.sameData_deeper (fits argument member)
  exact body_carries engines bracket.good fitsInside (lawful.ready_default index bracket.good)
    (lawful.closure_body index bracket.good)

/-- A call runs the body one level deeper and comes back up with either outcome. -/
theorem closure_carries (exact_ : regime.Exact) (index : Nat) {arguments : List Value}
    (loc : Option SourceLoc) (fits : ∀ argument ∈ arguments, regime.Fit interp argument) :
    regime.Carries (closure engine index arguments loc) (closure twin index arguments loc)
      regime.Fit interp := by
  by_cases tooDeep : interp.config.maxDepth ≤ interp.depth
  · unfold Carries closure
    rw [if_pos tooDeep, if_pos tooDeep]
    exact .failure _ (.refl good)
  · have mayCall := Nat.lt_of_not_le tooDeep
    have ran := body_deeper_carries engines good index fits mayCall
    have bracket := lawful.call good mayCall
    unfold Carries Interp.closure Interp.deeper at ran
    unfold Carries closure
    rw [if_neg tooDeep, if_neg tooDeep]
    dsimp only
    generalize body engine (interp.heap.closures.getD index default) arguments
      { interp with depth := interp.depth + 1 } = result at ran ⊢
    generalize body twin (interp.heap.closures.getD index default) arguments
      { interp with depth := interp.depth + 1 } = other at ran ⊢
    cases ran with
    | @ok value after step fit =>
        exact .ok (bracket.closes after step) (lawful.fit_same after.sameData_shallower fit)
    | @error stop stop' after step stops =>
        obtain rfl := (exact_ _ _ _).mp stops
        have restored := bracket.closes after step
        -- The failure gets a note of the call, but the state is restored in the same way.
        cases stop' with
        | failure failure => exact .error restored ((exact_ _ _ _).mpr rfl)
        | spent => exact .error restored ((exact_ _ _ _).mpr rfl)
    | quit quits ends =>
        refine .quit quits ?_
        cases result with
        | ok value after =>
            exact ⟨bracket.closes after ends.1, lawful.fit_same after.sameData_shallower ends.2⟩
        | error stop after =>
            have restored := bracket.closes after ends
            cases stop with
            | failure failure => exact restored
            | spent => exact restored

end Call

/-! ## Behaviors -/

namespace Behavior

theorem callWith_carries {method : Value} {next : Continuation Value} {arguments : List Value}
    (loc : Option SourceLoc) (methodFits : regime.Fit interp method)
    (nextFits : ∀ value, next.Holds value → regime.Fit interp value)
    (fits : ∀ argument ∈ arguments, regime.Fit interp argument) :
    regime.Carries (callWith engine method next arguments loc)
      (callWith twin method next arguments loc) regime.Fit interp :=
  .bind (Eval.newContinuation_keeps good nextFits) fun _ _ step nextFits =>
    engines.apply loc step.1 (step.fit methodFits)
      (List.forall_mem_cons.mpr ⟨nextFits, step.fitAll fits⟩)

variable {chain : MethodChain Value} {arguments : List Value}
  (chainFits : ∀ value, chain.Holds value → regime.Fit interp value)
  (fits : ∀ argument ∈ arguments, regime.Fit interp argument)

include chainFits fits

omit lawful engines good in
theorem fit_continuation (cursor : Option Nat) (value : Value)
    (holds : Continuation.Holds { chain, cursor, arguments } value) : regime.Fit interp value := by
  rcases holds with inChain | isArgument
  · exact chainFits value inChain
  · exact fits value isArgument

theorem callAll_carries (loc : Option SourceLoc) {methods : List Value}
    (methodsFit : ∀ method ∈ methods, regime.Fit interp method) :
    regime.Carries (callAll engine chain arguments loc methods)
      (callAll twin chain arguments loc methods) (fun _ _ => True) interp := by
  induction methods generalizing interp with
  | nil => exact .done good _
  | cons method methods ih =>
      obtain ⟨methodFits, othersFit⟩ := List.forall_mem_cons.mp methodsFit
      refine .bind (callWith_carries engines good loc methodFits
        (fit_continuation chainFits fits none) fits) fun _ _ step _ => ?_
      exact ih step.1 (fun value holds => step.fit (chainFits value holds)) (step.fitAll fits)
        (step.fitAll othersFit)

theorem callAt_carries (position : Nat) (loc : Option SourceLoc) :
    regime.Carries (callAt engine chain position arguments loc)
      (callAt twin chain position arguments loc) regime.Fit interp := by
  unfold callAt
  cases found : chain.entries[position]? with
  | none => exact .atom good rfl
  | some method =>
      have methodFits := chainFits method (.inl (List.mem_of_getElem? found))
      exact callWith_carries engines good loc methodFits (fit_continuation chainFits fits _) fits

theorem runCore_carries (loc : Option SourceLoc) :
    regime.Carries (runCore engine chain arguments loc) (runCore twin chain arguments loc)
      regime.Fit interp := by
  have later : ∀ {after}, regime.Step interp after →
      ∀ value, chain.Holds value → regime.Fit after value :=
    fun step value holds => step.fit (chainFits value holds)
  refine .bind (callAll_carries engines good chainFits fits loc
    fun method member => chainFits method (.inr (.inl member))) fun _ _ before _ => ?_
  refine .bind (callAt_carries engines before.1 (later before) (before.fitAll fits) _ loc)
    fun value _ core valueFits => ?_
  have both := before.trans core
  exact .bind (callAll_carries engines core.1 (later both) (both.fitAll fits) loc
    fun method member => later both method (.inr (.inr member)))
    fun _ _ after _ => .pure after.1 (after.fit valueFits)

theorem run_carries (position : Option Nat) (loc : Option SourceLoc) :
    regime.Carries (run engine chain position arguments loc)
      (run twin chain position arguments loc) regime.Fit interp := by
  unfold run
  cases position with
  | none => exact .atom good rfl
  | some position =>
      exact .ite (runCore_carries engines good chainFits fits loc)
        (callAt_carries engines good chainFits fits position loc)

omit chainFits

theorem invoke_carries (name : String) (loc : Option SourceLoc) :
    regime.Carries (invoke engine name arguments loc) (invoke twin name arguments loc) regime.Fit
      interp := by
  refine .bind (chainFor_keeps good _ name) fun found middle step chainFits => ?_
  cases found with
  | none => exact missing_keeps step.1 _ _ _
  | some chain => exact run_carries engines step.1 (chainFits chain rfl) (step.fitAll fits) _ loc

omit fits

/-- What a continuation keeps is held by the state. -/
theorem callNext_carries (index : Nat) {arguments : Option (List Value)} (loc : Option SourceLoc)
    (fits : ∀ values ∈ arguments, ∀ value ∈ values, regime.Fit interp value) :
    regime.Carries (callNext engine index arguments loc) (callNext twin index arguments loc)
      regime.Fit interp := by
  cases found : interp.heap.continuations[index]? with
  | none =>
      unfold Carries callNext
      simp only [found]
      exact .ok (.refl good) (lawful.fit_atom rfl)
  | some next =>
      have held : ∀ value, next.Holds value → regime.Fit interp value := fun value holds =>
        lawful.fit_held good (.heap (.continuation (Array.mem_of_getElem? found) holds))
      have argumentsFit : ∀ value ∈ arguments.getD next.arguments, regime.Fit interp value := by
        cases arguments with
        | none => exact fun value member => held value (.inr member)
        | some values => exact fits values rfl
      have ran := run_carries engines good (fun value holds => held value (.inl holds))
        argumentsFit next.cursor loc
      unfold Carries callNext
      simp only [found]
      exact ran

end Behavior

/-! ## Instances and members -/

namespace Object

theorem make_carries {class_ : ClassId} {arguments : List Value}
    (classFits : regime.Fit interp (.class_ class_))
    (fits : ∀ argument ∈ arguments, regime.Fit interp argument) :
    regime.Carries (make engine class_ arguments) (make twin class_ arguments) regime.Fit
      interp := by
  unfold make
  refine .ite (.fail good _) ?_
  refine .bind (slotsOf_keeps good (fun _ member => nomatch member) fits)
    fun slots first step slotsFit => ?_
  refine .bind (newObject_keeps step.1 (step.fit classFits) slotsFit)
    fun object second step objectFits => ?_
  refine .bind (Behavior.find_keeps step.1 _ _) fun chain third step _ => ?_
  cases chain.isSome with
  | false => exact .pure step.1 (step.fit objectFits)
  | true =>
      have receiver : ∀ value ∈ [object], regime.Fit third value := by
        simpa using step.fit objectFits
      exact .bind (Behavior.invoke_carries engines step.1 receiver _ none)
        fun _ _ after _ => .pure after.1 (after.fit (step.fit objectFits))

theorem defaultValue_carries {default : SlotDefault}
    (fit : regime.Fit interp default.value) :
    regime.Carries (defaultValue engine default) (defaultValue twin default) regime.Fit
      interp := by
  cases default with
  | constant value => exact .pure good fit
  | computed function => exact engines.apply none good fit (by simp)

theorem slotValue_carries (object : Value) (name : String) :
    regime.Carries (slotValue engine object name) (slotValue twin object name) regime.Fit
      interp := by
  refine .bind (index_keeps good object) fun index first step _ => ?_
  refine .bind (Eval.instance_keeps step.1 index) fun found second step stored => ?_
  obtain ⟨slotsFit, _, rfl⟩ := stored
  cases present : second.slot? index name with
  | some value =>
      have fit := slotsFit value (Assoc.mem_values_of_find? present)
      unfold Interp.slot? at present
      rw [present]
      exact .pure step.1 fit
  | none =>
      have mayStore := fun value => lawful.storable_default value step.1 present
      unfold Interp.slot? at present
      rw [present]
      refine .bind (definition_keeps step.1 _ _) fun slot third step found => ?_
      obtain ⟨rfl, fit⟩ := found
      refine .bind (defaultValue_carries engines step.1 fit) fun value fourth step fit => ?_
      exact .bind (store_keeps step.1 (mayStore value) fit)
        fun _ _ step _ => .pure step.1 (step.fit fit)

theorem getSlot_carries {object : Value} (name : String) (fit : regime.Fit interp object) :
    regime.Carries (getSlot engine object name) (getSlot twin object name) regime.Fit interp := by
  refine .bind (effectiveClass_keeps good object) fun class_ first one _ => ?_
  refine .bind (Behavior.find_keeps one.1 _ _) fun found second two chainFits => ?_
  cases found with
  | some chain =>
      exact Behavior.run_carries engines two.1 (chainFits.2 chain rfl)
        (by simpa using two.fit (one.fit fit)) _ none
  | none => exact slotValue_carries engines two.1 object name

theorem setSlot_carries {object value : Value} {name : String}
    (mayStore : ∀ index, object = .object index → interp.WritesPlainly index name →
      regime.Storable index name value)
    (objectFits : regime.Fit interp object) (valueFits : regime.Fit interp value) :
    regime.Carries (setSlot engine object name value) (setSlot twin object name value) regime.Fit
      interp := by
  refine .bind (effectiveClass_keeps good object) fun class_ first one isClass => ?_
  obtain ⟨rfl, index, rfl, rfl⟩ := isClass
  refine .bind (Behavior.find_keeps good _ _) fun found second step chainFits => ?_
  obtain ⟨isFound, chainFits⟩ := chainFits
  cases found with
  | some chain =>
      refine .bind (Behavior.run_carries engines step.1 (chainFits chain rfl) ?_ _ none)
        fun _ _ after _ => .pure after.1 (after.fit (step.fit valueFits))
      simpa using ⟨step.fit objectFits, step.fit valueFits⟩
  | none =>
      refine setSlotValue_keeps step.1 ?_ (step.fit valueFits)
      rintro other isObject
      cases isObject
      exact mayStore index rfl isFound.symm

end Object

namespace Member

theorem access_carries {object : Value} {arguments : List Value} (name : String)
    (loc : Option SourceLoc) (objectFits : regime.Fit interp object)
    (fits : ∀ argument ∈ arguments, regime.Fit interp argument) :
    regime.Carries (access engine object name arguments loc)
      (access twin object name arguments loc) regime.Fit interp := by
  have all := List.forall_mem_cons.mpr ⟨objectFits, fits⟩
  cases object with
  | object index =>
      refine .ite ?_ (Behavior.invoke_carries engines good all name loc)
      refine .bind (Behavior.has_keeps good _ _) fun has first step _ => ?_
      cases has with
      | true =>
          exact Behavior.invoke_carries engines step.1 (by simpa using step.fit objectFits) name loc
      | false => exact Object.getSlot_carries engines step.1 name (step.fit objectFits)
  | class_ id => exact Behavior.invoke_carries engines good all name loc
  | _ => exact hostAccess_keeps good _ _ _

theorem assign_carries {object value : Value} {name : String}
    (mayStore : ∀ index, object = .object index → interp.WritesPlainly index name →
      regime.Storable index name value)
    (objectFits : regime.Fit interp object) (valueFits : regime.Fit interp value) :
    regime.Carries (assign engine object name value) (assign twin object name value) regime.Fit
      interp := by
  cases object with
  | object index => exact Object.setSlot_carries engines good mayStore objectFits valueFits
  | _ =>
      exact .bind (resolve_keeps good _ _) fun _ _ first _ =>
        .bind (set_keeps first.1 _ _ _) fun _ _ second _ =>
          .pure second.1 (second.fit (first.fit valueFits))

end Member

/-! ## Operators -/

namespace Dispatch

variable (id : OperatorId) (operator : String)

theorem binary_carries {a b : Value} (aFits : regime.Fit interp a) (bFits : regime.Fit interp b) :
    regime.Carries (binary engine id operator a b) (binary twin id operator a b) regime.Fit
      interp := by
  refine .bind (select_keeps good _ _ _) fun method first step methodFits => ?_
  cases method with
  | none => exact noMethod_keeps step.1 _ _ _
  | some method =>
      cases method with
      | native method => exact native_keeps step.1 _ _ _
      | function function =>
          exact engines.apply none step.1 (methodFits function rfl)
            (by simpa using ⟨step.fit aFits, step.fit bFits⟩)

theorem fold_carries {first : Value} {rest : List Value} (firstFits : regime.Fit interp first)
    (fits : ∀ value ∈ rest, regime.Fit interp value) :
    regime.Carries (fold engine id operator first rest) (fold twin id operator first rest)
      regime.Fit interp := by
  induction rest generalizing interp first with
  | nil => exact .pure good firstFits
  | cons next rest ih =>
      obtain ⟨nextFits, restFits⟩ := List.forall_mem_cons.mp fits
      exact .bind (binary_carries engines good id operator firstFits nextFits)
        fun value _ step valueFits => ih step.1 valueFits (step.fitAll restFits)

theorem chain_carries {first : Value} {rest : List Value} (firstFits : regime.Fit interp first)
    (fits : ∀ value ∈ rest, regime.Fit interp value) :
    regime.Carries (chain engine id operator first rest) (chain twin id operator first rest)
      regime.Fit interp := by
  induction rest generalizing interp first with
  | nil => exact .atom good rfl
  | cons next rest ih =>
      obtain ⟨nextFits, restFits⟩ := List.forall_mem_cons.mp fits
      refine .bind (binary_carries engines good id operator firstFits nextFits)
        fun value _ step _ => ?_
      cases value.isTrue with
      | true => exact ih step.1 (step.fit nextFits) (step.fitAll restFits)
      | false => exact .atom step.1 rfl

theorem applyShape_carries (shape : OperatorShape) {arguments : List Value}
    (fits : ∀ argument ∈ arguments, regime.Fit interp argument) :
    regime.Carries (applyShape engine id operator shape arguments)
      (applyShape twin id operator shape arguments) regime.Fit interp := by
  cases shape with
  | binary =>
      rcases arguments with _ | ⟨a, _ | ⟨b, _ | ⟨_, _⟩⟩⟩
      · exact .fail good _
      · exact .fail good _
      · exact binary_carries engines good id operator (fits a (by simp)) (fits b (by simp))
      · exact .fail good _
  | chain =>
      cases arguments with
      | nil => exact .fail good _
      | cons first rest =>
          obtain ⟨firstFits, restFits⟩ := List.forall_mem_cons.mp fits
          exact chain_carries engines good id operator firstFits restFits
  | fold empty unary =>
      rcases arguments with _ | ⟨first, _ | ⟨second, rest⟩⟩
      · cases empty with
        | none => exact .fail good _
        | some empty => exact .atom good rfl
      · have firstFits := fits first (by simp)
        cases unary with
        | none => cases empty <;> exact .pure good firstFits
        | some unary =>
            cases empty <;>
              exact binary_carries engines good id operator (lawful.fit_atom rfl) firstFits
      · obtain ⟨firstFits, restFits⟩ := List.forall_mem_cons.mp fits
        cases empty <;> cases unary <;>
          exact fold_carries engines good id operator firstFits restFits

omit operator in
theorem apply_carries {arguments : List Value}
    (fits : ∀ argument ∈ arguments, regime.Fit interp argument) :
    regime.Carries (apply engine id arguments) (apply twin id arguments) regime.Fit interp := by
  cases found : interp.operators.get? id with
  | none =>
      unfold Carries apply
      simp only [found]
      exact .failure _ (.refl good)
  | some operator =>
      have ran := applyShape_carries engines good id operator.name operator.shape fits
      unfold Carries apply
      simp only [found]
      exact ran

end Dispatch

end ObjectLisp
