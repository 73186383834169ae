import ObjectLisp.Proofs.Evaluation.Calls

/-!
# The library and texts

Most built-in functions do not call back into evaluation, and the engine they are
given makes no difference to them.  The others apply functions to elements of
lists, expand macros, evaluate forms and texts, or send messages; with engines
that match, their results match.  A failure in a text gets a note of its form, so
for texts the two engines have to stop in the same way.
-/

namespace ObjectLisp

open Regime

/-- Does a built-in function call back into evaluation? -/
def Primitive.callsBack : Primitive → Bool
  | map | forEach | filter | fold | apply | eval | macroexpand | load | new | getSlot | setSlot
  | slotValue | send => true
  | _ => false

/-- A call of a built-in function writes a value to a slot of an instance, past all behaviors. -/
def Primitive.Writes (primitive : Primitive) (arguments : List Value) (interp : Interp)
    (index : Nat) (name : String) (value : Value) : Prop :=
  ∃ given, arguments = [.object index, given, value] ∧
    Object.slotName given interp = .ok name interp ∧
    (primitive = .setSlotValue ∨ primitive = .setSlot ∧ interp.WritesPlainly index name)

variable {regime : Regime} [lawful : regime.Lawful] {interp : Interp}

namespace Library

/-! ## Functions that do not call back -/

section Arity

variable {engine : Engine} {primitive : Primitive} {arguments : List Value}
  (fits : ∀ argument ∈ arguments, regime.Fit interp argument)

include fits

omit lawful

theorem keeps_of_unary
    (one : ∀ a, regime.Fit interp a → regime.Keeps (run engine primitive [a]) regime.Fit interp)
    (none : regime.Keeps (run engine primitive []) regime.Fit interp)
    (more : ∀ a b rest, regime.Keeps (run engine primitive (a :: b :: rest)) regime.Fit interp) :
    regime.Keeps (run engine primitive arguments) regime.Fit interp := by
  rcases arguments with _ | ⟨a, _ | ⟨b, rest⟩⟩
  · exact none
  · exact one a (fits a (by simp))
  · exact more a b rest

theorem keeps_of_binary
    (two : ∀ a b, regime.Fit interp a → regime.Fit interp b →
      regime.Keeps (run engine primitive [a, b]) regime.Fit interp)
    (none : regime.Keeps (run engine primitive []) regime.Fit interp)
    (one : ∀ a, regime.Keeps (run engine primitive [a]) regime.Fit interp)
    (more : ∀ a b c rest,
      regime.Keeps (run engine primitive (a :: b :: c :: rest)) regime.Fit interp) :
    regime.Keeps (run engine primitive arguments) regime.Fit interp := by
  rcases arguments with _ | ⟨a, _ | ⟨b, _ | ⟨c, rest⟩⟩⟩
  · exact none
  · exact one a
  · exact two a b (fits a (by simp)) (fits b (by simp))
  · exact more a b c rest

theorem keeps_of_ternary
    (three : ∀ a b c, regime.Fit interp c →
      regime.Keeps (run engine primitive [a, b, c]) regime.Fit interp)
    (none : regime.Keeps (run engine primitive []) regime.Fit interp)
    (one : ∀ a, regime.Keeps (run engine primitive [a]) regime.Fit interp)
    (two : ∀ a b, regime.Keeps (run engine primitive [a, b]) regime.Fit interp)
    (more : ∀ a b c d rest, (∀ argument ∈ a :: b :: c :: d :: rest, regime.Fit interp argument) →
      regime.Keeps (run engine primitive (a :: b :: c :: d :: rest)) regime.Fit interp) :
    regime.Keeps (run engine primitive arguments) regime.Fit interp := by
  rcases arguments with _ | ⟨a, _ | ⟨b, _ | ⟨c, _ | ⟨d, rest⟩⟩⟩⟩
  · exact none
  · exact one a
  · exact two a b
  · exact three a b c (fits c (by simp))
  · exact more a b c d rest fits

end Arity

/-- A function that does not call back gives fitting values by moves alone. -/
theorem run_keeps {primitive : Primitive} (noCall : primitive.callsBack = false)
    (engine : Engine) {arguments : List Value} (good : regime.Good interp)
    (fits : ∀ argument ∈ arguments, regime.Fit interp argument)
    (mayStore : ∀ index name value, primitive.Writes arguments interp index name value →
      regime.Storable index name value) :
    regime.Keeps (run engine primitive arguments) regime.Fit interp := by
  have wrong : ∀ primitive arguments, regime.Keeps (wrongCount primitive arguments) regime.Fit
      interp :=
    wrongCount_keeps good
  have truth : ∀ answer : Bool, regime.Keeps (pure (.bool answer) : Eval Value) regime.Fit
      interp :=
    fun _ => .atom good rfl
  cases primitive with
  -- Any number of arguments
  | list => exact Eval.list_keeps good fits
  | append => exact join_keeps good fits
  | str => exact concatenation_keeps good arguments
  | println => exact writeLine_keeps good arguments
  | vector => exact Eval.vector_keeps good fits
  | format =>
      cases arguments with
      | nil => exact wrong _ _
      | cons control values =>
          exact .bind (Argument.text_keeps good control) fun _ _ step _ =>
            .bind (filled_keeps step.1 _ values) fun _ _ step _ => Eval.str_keeps step.1 _
  | error =>
      cases arguments with
      | nil => exact wrong _ _
      | cons message values => exact raise_keeps good message values
  | extendClass =>
      cases arguments with
      | nil => exact wrong _ _
      | cons class_ parents =>
          obtain ⟨classFits, parentsFit⟩ := List.forall_mem_cons.mp fits
          exact addParents_keeps good classFits parentsFit
  -- One argument
  | car => exact keeps_of_unary fits (fun _ => first_keeps good) (wrong _ _) fun _ _ _ => wrong _ _
  | cdr => exact keeps_of_unary fits (fun _ => rest_keeps good) (wrong _ _) fun _ _ _ => wrong _ _
  | length =>
      exact keeps_of_unary fits (fun _ => size_keeps good) (wrong _ _) fun _ _ _ => wrong _ _
  | reverse =>
      refine keeps_of_unary fits (fun list fit => ?_) (wrong _ _) fun _ _ _ => wrong _ _
      exact .bind (Argument.list_keeps good fit) fun items _ step itemsFit =>
        Eval.list_keeps step.1 fun item member => itemsFit item (List.mem_reverse.mp member)
  | isNull => exact keeps_of_unary fits (fun _ _ => truth _) (wrong _ _) fun _ _ _ => wrong _ _
  | not => exact keeps_of_unary fits (fun _ _ => truth _) (wrong _ _) fun _ _ _ => wrong _ _
  | isNumber => exact keeps_of_unary fits (fun _ _ => truth _) (wrong _ _) fun _ _ _ => wrong _ _
  | isInteger => exact keeps_of_unary fits (fun _ _ => truth _) (wrong _ _) fun _ _ _ => wrong _ _
  | isFloat => exact keeps_of_unary fits (fun _ _ => truth _) (wrong _ _) fun _ _ _ => wrong _ _
  | isString => exact keeps_of_unary fits (fun _ _ => truth _) (wrong _ _) fun _ _ _ => wrong _ _
  | isSymbol => exact keeps_of_unary fits (fun _ _ => truth _) (wrong _ _) fun _ _ _ => wrong _ _
  | isKeyword =>
      exact keeps_of_unary fits (fun _ _ => .get_bind (truth _)) (wrong _ _)
        fun _ _ _ => wrong _ _
  | isCons => exact keeps_of_unary fits (fun _ _ => truth _) (wrong _ _) fun _ _ _ => wrong _ _
  | isList => exact keeps_of_unary fits (fun _ _ => truth _) (wrong _ _) fun _ _ _ => wrong _ _
  | isVector => exact keeps_of_unary fits (fun _ _ => truth _) (wrong _ _) fun _ _ _ => wrong _ _
  | isFunction => exact keeps_of_unary fits (fun _ _ => truth _) (wrong _ _) fun _ _ _ => wrong _ _
  | stringLength =>
      refine keeps_of_unary fits (fun value _ => ?_) (wrong _ _) fun _ _ _ => wrong _ _
      exact .bind (Argument.text_keeps good value) fun _ _ step _ => .atom step.1 rfl
  | symbolToString =>
      refine keeps_of_unary fits (fun value _ => ?_) (wrong _ _) fun _ _ _ => wrong _ _
      exact .bind (Argument.symbol_keeps good value) fun _ _ step _ =>
        .bind (Eval.nameOf_keeps step.1 _) fun _ _ step _ => Eval.str_keeps step.1 _
  | stringToSymbol =>
      refine keeps_of_unary fits (fun value _ => ?_) (wrong _ _) fun _ _ _ => wrong _ _
      exact .bind (Argument.text_keeps good value) fun _ _ step _ =>
        .bind (Eval.intern_keeps step.1 _) fun _ _ step fit => .pure step.1 fit
  | gensym =>
      refine keeps_of_unary fits (fun stem _ => ?_) (generate_keeps good _) fun _ _ _ => wrong _ _
      exact .bind (Argument.name_keeps good stem) fun _ _ step _ => generate_keeps step.1 _
  | print =>
      refine keeps_of_unary fits (fun value fit => ?_) (wrong _ _) fun _ _ _ => wrong _ _
      exact .bind (Eval.print_keeps good true value) fun _ _ first _ =>
        .bind (Eval.write_keeps first.1 _) fun _ _ second _ =>
          .pure second.1 (second.fit (first.fit fit))
  | display =>
      refine keeps_of_unary fits (fun value _ => ?_) (wrong _ _) fun _ _ _ => wrong _ _
      exact .bind (Eval.print_keeps good false value) fun _ _ step _ =>
        .bind (Eval.write_keeps step.1 _) fun _ _ step _ => .atom step.1 rfl
  | vectorLength =>
      exact keeps_of_unary fits (fun value _ => vectorSize_keeps good value) (wrong _ _)
        fun _ _ _ => wrong _ _
  | listToVector =>
      refine keeps_of_unary fits (fun list fit => ?_) (wrong _ _) fun _ _ _ => wrong _ _
      exact .bind (Argument.list_keeps good fit) fun _ _ step itemsFit =>
        Eval.vector_keeps step.1 itemsFit
  | vectorToList =>
      exact keeps_of_unary fits (fun value _ => vectorItems_keeps good value) (wrong _ _)
        fun _ _ _ => wrong _ _
  | makePackage =>
      exact keeps_of_unary fits (fun value _ => newPackage_keeps good value) (wrong _ _)
        fun _ _ _ => wrong _ _
  | inPackage =>
      exact keeps_of_unary fits (fun value _ => enterPackage_keeps good value) (wrong _ _)
        fun _ _ _ => wrong _ _
  | usePackage =>
      exact keeps_of_unary fits (fun value _ => inheritPackage_keeps good value) (wrong _ _)
        fun _ _ _ => wrong _ _
  | export_ =>
      exact keeps_of_unary fits (fun _ => exported_keeps good) (wrong _ _) fun _ _ _ => wrong _ _
  | symbolPackage =>
      exact keeps_of_unary fits (fun value _ => homePackage_keeps good value) (wrong _ _)
        fun _ _ _ => wrong _ _
  | classOf =>
      exact keeps_of_unary fits (fun value _ => nominalClass_keeps good value) (wrong _ _)
        fun _ _ _ => wrong _ _
  | className =>
      exact keeps_of_unary fits (fun _ => nameOfClass_keeps good) (wrong _ _)
        fun _ _ _ => wrong _ _
  | classLinearization =>
      exact keeps_of_unary fits (fun _ => precedence_keeps good) (wrong _ _)
        fun _ _ _ => wrong _ _
  | slotNames =>
      exact keeps_of_unary fits (fun value _ => slotNameList_keeps good value) (wrong _ _)
        fun _ _ _ => wrong _ _
  -- Two arguments
  | cons =>
      exact keeps_of_binary fits (fun _ _ => Eval.cons_keeps good) (wrong _ _) (fun _ => wrong _ _)
        fun _ _ _ _ => wrong _ _
  | nth =>
      exact keeps_of_binary fits (fun position _ _ => element_keeps good position) (wrong _ _)
        (fun _ => wrong _ _) fun _ _ _ _ => wrong _ _
  | isSame =>
      exact keeps_of_binary fits (fun _ _ _ _ => truth _) (wrong _ _) (fun _ => wrong _ _)
        fun _ _ _ _ => wrong _ _
  | isEqual =>
      exact keeps_of_binary fits (fun _ _ _ _ => .get_bind (truth _)) (wrong _ _)
        (fun _ => wrong _ _) fun _ _ _ _ => wrong _ _
  | vectorRef =>
      exact keeps_of_binary fits (fun vector position _ _ => vectorItem_keeps good vector position)
        (wrong _ _) (fun _ => wrong _ _) fun _ _ _ _ => wrong _ _
  | findSymbol =>
      exact keeps_of_binary fits (fun name package _ _ => lookUp_keeps good name (some package))
        (wrong _ _) (fun name => lookUp_keeps good name none) fun _ _ _ _ => wrong _ _
  | isInstance =>
      refine keeps_of_binary fits (fun value class_ _ fit => ?_) (wrong _ _) (fun _ => wrong _ _)
        fun _ _ _ _ => wrong _ _
      exact .bind (Argument.class_keeps good fit) fun _ _ step _ =>
        .bind (Object.isInstance_keeps step.1 value _) fun _ _ step _ => .atom step.1 rfl
  | removeSlot =>
      exact keeps_of_binary fits (fun target name _ _ => forgetSlot_keeps good target name)
        (wrong _ _) (fun _ => wrong _ _) fun _ _ _ _ => wrong _ _
  | hasBehavior =>
      exact keeps_of_binary fits (fun receiver name _ _ => respondsTo_keeps good receiver name)
        (wrong _ _) (fun _ => wrong _ _) fun _ _ _ _ => wrong _ _
  -- More arguments
  | substring =>
      exact keeps_of_ternary fits
        (fun value start stop _ => slice_keeps good value start (some stop)) (wrong _ _)
        (fun _ => wrong _ _) (fun value start => slice_keeps good value start none)
        fun _ _ _ _ _ _ => wrong _ _
  | vectorSet =>
      exact keeps_of_ternary fits
        (fun vector position _ => setVectorItem_keeps good vector position) (wrong _ _)
        (fun _ => wrong _ _) (fun _ _ => wrong _ _) fun _ _ _ _ _ _ => wrong _ _
  | setSlotValue =>
      rcases arguments with _ | ⟨object, _ | ⟨given, _ | ⟨value, _ | ⟨_, _⟩⟩⟩⟩
      · exact wrong _ _
      · exact wrong _ _
      · exact wrong _ _
      · refine .bind (Object.slotName_keeps good given) fun name _ step named => ?_
        obtain ⟨rfl, named⟩ := named
        refine Object.setSlotValue_keeps good ?_ (fits value (by simp))
        rintro index rfl
        exact mayStore index name value ⟨given, rfl, named, .inl rfl⟩
      · exact wrong _ _
  | addSlot =>
      exact keeps_of_ternary fits (fun target name _ => defineSlot_keeps good target name)
        (wrong _ _) (fun _ => wrong _ _)
        (fun target name => defineSlot_keeps good target name (lawful.fit_atom rfl))
        fun _ _ _ _ _ _ => wrong _ _
  | addOperatorMethod =>
      refine keeps_of_ternary fits (fun _ _ _ _ => wrong _ _) (wrong _ _) (fun _ => wrong _ _)
        (fun _ _ => wrong _ _) ?_
      rintro operator first second function (_ | ⟨_, _⟩) fits
      · exact extendOperator_keeps good operator first second (fits function (by simp))
      · exact wrong _ _
  | map | forEach | filter | fold | apply | eval | macroexpand | load | new | getSlot | setSlot
  | slotValue | send => contradiction

/-- A function that does not call back does the same with every engine. -/
theorem run_congr {primitive : Primitive} (noCall : primitive.callsBack = false)
    (engine twin : Engine) (arguments : List Value) :
    run twin primitive arguments = run engine primitive arguments := by
  -- No built-in function looks at the shape of more than four arguments.
  rcases arguments with _ | ⟨a, _ | ⟨b, _ | ⟨c, _ | ⟨d, _ | ⟨e, rest⟩⟩⟩⟩⟩ <;>
    cases primitive <;> first | exact Bool.noConfusion noCall | rfl

end Library

variable {engine twin : Engine} (engines : regime.Engines engine twin)
  (good : regime.Good interp)

/-! ## Texts -/

namespace Source

/-- A datum whose symbols fit becomes a value that fits, and the heap changes by a move. -/
theorem embed_spec (file : String) {datum : Datum}
    (names : ∀ id ∈ datum.symbols, regime.Fit interp (.symbol id)) :
    regime.Move interp { interp with heap := (interp.heap.embed file datum).2.2 } ∧
      regime.Fit interp (interp.heap.embed file datum).1 := by
  have atom : ∀ value : Value, value.isAtom = true → regime.Fit interp value :=
    fun _ => lawful.fit_atom
  have cell : ∀ id car cdr, regime.Fit interp car → regime.Fit interp cdr →
      regime.Fit interp (.cons id car cdr) :=
    fun _ _ _ carFits cdrFits => lawful.fit_cons.mpr ⟨carFits, cdrFits⟩
  obtain ⟨fit, held, closures, objects⟩ :=
    Heap.embedInto_spec atom cell { heap := interp.heap } datum names
  exact ⟨.heap closures objects held, fit⟩

include engines good

theorem evalForm_carries {form : Value} (source : SourceMap) (fit : regime.Fit interp form) :
    regime.Carries (evalForm engine form source) (evalForm twin form source) regime.Fit interp :=
  .bind (engines.analyze { source } good fit)
    fun _ _ step admissible => engines.eval step.1 (lawful.ready_top admissible)

/-- The form that a datum becomes is evaluated in the state that has it. -/
theorem evalForm_embed_carries (file : String) {datum : Datum}
    (names : ∀ id ∈ datum.symbols, regime.Fit interp (.symbol id)) :
    regime.Matches regime.Fit interp
      (evalForm engine (interp.heap.embed file datum).1 (interp.heap.embed file datum).2.1
        { interp with heap := (interp.heap.embed file datum).2.2 })
      (evalForm twin (interp.heap.embed file datum).1 (interp.heap.embed file datum).2.1
        { interp with heap := (interp.heap.embed file datum).2.2 }) := by
  have spec : regime.Move interp _ ∧ _ := embed_spec file names
  have embedded := lawful.move good spec.1
  exact (evalForm_carries engines embedded.1 _ (embedded.fit spec.2)).trans embedded

variable (exact_ : regime.Exact)

include exact_

theorem evalDatum_carries (file : String) {datum : Datum} (line : Nat)
    (names : ∀ id ∈ datum.symbols, regime.Fit interp (.symbol id)) :
    regime.Carries (evalDatum engine file datum line) (evalDatum twin file datum line) regime.Fit
      interp := by
  have ran := evalForm_embed_carries engines good file names
  unfold Carries evalDatum
  dsimp only
  generalize evalForm engine _ _ _ = result at ran ⊢
  generalize evalForm twin _ _ _ = other at ran ⊢
  cases ran with
  | ok step fit => exact .ok step fit
  | @error stop stop' after step stops =>
      obtain rfl := (exact_ _ _ _).mp stops
      cases stop' with
      | failure failure => exact .error step ((exact_ _ _ _).mpr rfl)
      | spent => exact .error step ((exact_ _ _ _).mpr rfl)
  | quit quits ends =>
      refine .quit quits ?_
      cases result with
      | ok value after => exact ends
      | error stop after =>
          cases stop with
          | failure failure => exact ends
          | spent => exact ends

/-- Reading changes only the symbols, and each form is evaluated in the state that the forms before
it left. -/
theorem evalForms_carries (file : String) (bound line : Nat) (chars : List Char) {last : Value}
    (fit : regime.Fit interp last) :
    regime.Carries (evalForms engine file bound line chars last)
      (evalForms twin file bound line chars last) regime.Fit interp := by
  induction bound generalizing interp line chars last with
  | zero => exact .spent good
  | succ bound ih =>
      have leads := Reader.next_leads interp.table interp.package interp.symbols line chars
      unfold Carries evalForms
      cases next : Reader.next interp.table interp.package interp.symbols line chars with
      | finished line symbols =>
          rw [next] at leads
          have read := lawful.move good (.symbols leads)
          exact .ok read (read.fit fit)
      | failed problem line symbols =>
          rw [next] at leads
          exact .failure _ (lawful.move good (.symbols leads))
      | datum datum rest line symbols =>
          rw [next] at leads
          have read : regime.Step interp { interp with symbols } :=
            lawful.move good (.symbols leads)
          have names : ∀ id ∈ datum.symbols, regime.Fit { interp with symbols } (.symbol id) :=
            fun id member => lawful.fit_symbol good read fun coherent =>
              Reader.known_of_next _ _ coherent next id member
          have ran := (evalDatum_carries engines read.1 exact_ file line names).trans read
          dsimp only
          generalize evalDatum engine file datum line { interp with symbols } = result at ran ⊢
          generalize evalDatum twin file datum line { interp with symbols } = other at ran ⊢
          cases ran with
          | ok step fit => exact (ih step.1 line rest fit).trans step
          | error step stops => exact .error step stops
          | quit quits ends =>
              refine .quit quits ?_
              cases result with
              | ok value after => exact (ih ends.1.1 line rest ends.2).ends.trans ends.1
              | error stop after => exact ends

theorem evalText_carries (file text : String) :
    regime.Carries (evalText engine file text) (evalText twin file text) regime.Fit interp :=
  evalForms_carries engines good exact_ file _ 1 text.toList (lawful.fit_atom rfl)

theorem load_carries (path : String) :
    regime.Carries (load engine path) (load twin path) regime.Fit interp := by
  unfold Carries load
  dsimp only
  cases read : interp.files.read path with
  | error problem => exact .failure _ (lawful.move good (.files _))
  | ok text =>
      exact Carries.bracket (lawful.load good) (fun _ => ⟨rfl, rfl, rfl, rfl⟩)
        (evalText_carries engines good exact_ path text)

end Source

/-! ## Functions that call back -/

namespace Library

include engines good

theorem mapped_carries {function : Value} {items : List Value}
    (functionFits : regime.Fit interp function)
    (fits : ∀ item ∈ items, regime.Fit interp item) :
    regime.Carries (mapped engine function items) (mapped twin function items)
      (fun after values => ∀ value ∈ values, regime.Fit after value) interp := by
  induction items generalizing interp with
  | nil => exact .pure good (by simp)
  | cons item items ih =>
      obtain ⟨itemFits, itemsFit⟩ := List.forall_mem_cons.mp fits
      refine .bind (engines.apply none good functionFits (by simpa using itemFits))
        fun value _ step valueFits => ?_
      exact .bind (ih step.1 (step.fit functionFits) (step.fitAll itemsFit))
        fun values _ step valuesFit =>
          .pure step.1 (List.forall_mem_cons.mpr ⟨step.fit valueFits, valuesFit⟩)

theorem visited_carries {function : Value} {items : List Value}
    (functionFits : regime.Fit interp function)
    (fits : ∀ item ∈ items, regime.Fit interp item) :
    regime.Carries (visited engine function items) (visited twin function items)
      (fun _ _ => True) interp := by
  induction items generalizing interp with
  | nil => exact .done good _
  | cons item items ih =>
      obtain ⟨itemFits, itemsFit⟩ := List.forall_mem_cons.mp fits
      exact .bind (engines.apply none good functionFits (by simpa using itemFits))
        fun _ _ step _ => ih step.1 (step.fit functionFits) (step.fitAll itemsFit)

theorem kept_carries {function : Value} {items : List Value}
    (functionFits : regime.Fit interp function)
    (fits : ∀ item ∈ items, regime.Fit interp item) :
    regime.Carries (kept engine function items) (kept twin function items)
      (fun after values => ∀ value ∈ values, regime.Fit after value) interp := by
  induction items generalizing interp with
  | nil => exact .pure good (by simp)
  | cons item items ih =>
      obtain ⟨itemFits, itemsFit⟩ := List.forall_mem_cons.mp fits
      refine .bind (engines.apply none good functionFits (by simpa using itemFits))
        fun value _ step _ => ?_
      have others := ih step.1 (step.fit functionFits) (step.fitAll itemsFit)
      cases value.isTrue with
      | true =>
          exact .bind others fun values _ after valuesFit =>
            .pure after.1 (List.forall_mem_cons.mpr ⟨after.fit (step.fit itemFits), valuesFit⟩)
      | false => exact others

theorem folded_carries {function value : Value} {items : List Value}
    (functionFits : regime.Fit interp function) (valueFits : regime.Fit interp value)
    (fits : ∀ item ∈ items, regime.Fit interp item) :
    regime.Carries (folded engine function value items) (folded twin function value items)
      regime.Fit interp := by
  induction items generalizing interp value with
  | nil => exact .pure good valueFits
  | cons item items ih =>
      obtain ⟨itemFits, itemsFit⟩ := List.forall_mem_cons.mp fits
      exact .bind (engines.apply none good functionFits (by simpa using ⟨valueFits, itemFits⟩))
        fun value _ step valueFits =>
          ih step.1 (step.fit functionFits) valueFits (step.fitAll itemsFit)

theorem expandOnce_carries {form : Value} (fit : regime.Fit interp form) :
    regime.Carries (expandOnce engine form) (expandOnce twin form) regime.Fit interp := by
  unfold expandOnce
  split
  · next symbol cdr =>
      refine .get_bind ?_
      split
      · refine .bind (Argument.list_keeps good (lawful.fit_cons.mp fit).2)
          fun arguments _ step fits => ?_
        exact .bind (.move step.1 (.counters _)) fun _ _ step _ =>
          engines.apply none step.1 (lawful.fit_atom rfl) (step.fitAll fits)
      · exact .pure good fit
  · exact .pure good fit

theorem spread_carries {function : Value} {arguments : List Value}
    (functionFits : regime.Fit interp function)
    (fits : ∀ argument ∈ arguments, regime.Fit interp argument) :
    regime.Carries (spread engine function arguments) (spread twin function arguments)
      regime.Fit interp := by
  have lastFits : regime.Fit interp (arguments.getLastD .null) := by
    rw [List.getLastD_eq_getLast?]
    exact fit_getD fits fun item isLast => List.mem_of_getLast? isLast
  refine .bind (Argument.list_keeps good lastFits) fun last _ step lastFit =>
    engines.apply none step.1 (step.fit functionFits) fun argument member => ?_
  rcases List.mem_append.mp member with isFixed | isLast
  · exact step.fit (fits argument ((List.dropLast_sublist _).mem isFixed))
  · exact lastFit argument isLast

theorem sendTo_carries {receiver : Value} (name : Value) {arguments : List Value}
    (receiverFits : regime.Fit interp receiver)
    (fits : ∀ argument ∈ arguments, regime.Fit interp argument) :
    regime.Carries (sendTo engine receiver name arguments) (sendTo twin receiver name arguments)
      regime.Fit interp :=
  .bind (Argument.name_keeps good name) fun _ _ step _ =>
    Behavior.invoke_carries engines step.1
      (List.forall_mem_cons.mpr ⟨step.fit receiverFits, step.fitAll fits⟩) _ none

/-- Only a text that is loaded asks for engines that stop in the same way. -/
theorem run_carries (primitive : Primitive) {arguments : List Value}
    (fits : ∀ argument ∈ arguments, regime.Fit interp argument)
    (mayStore : ∀ index name value, primitive.Writes arguments interp index name value →
      regime.Storable index name value)
    (loads : primitive = .load → regime.Exact) :
    regime.Carries (run engine primitive arguments) (run twin primitive arguments) regime.Fit
      interp := by
  cases calls : primitive.callsBack with
  | false =>
      rw [run_congr calls engine twin]
      exact run_keeps calls engine good fits mayStore
  | true =>
      have wrong : ∀ primitive arguments, regime.Keeps (wrongCount primitive arguments) regime.Fit
          interp :=
        wrongCount_keeps good
      cases primitive with
      | map =>
          rcases arguments with _ | ⟨function, _ | ⟨list, _ | ⟨_, _⟩⟩⟩
          · exact wrong _ _
          · exact wrong _ _
          · refine .bind (Argument.list_keeps good (fits list (by simp)))
              fun items _ step itemsFit => ?_
            have functionFit := step.fit (fits function (by simp))
            exact .bind (mapped_carries engines step.1 functionFit itemsFit)
              fun _ _ step valuesFit => Eval.list_keeps step.1 valuesFit
          · exact wrong _ _
      | forEach =>
          rcases arguments with _ | ⟨function, _ | ⟨list, _ | ⟨_, _⟩⟩⟩
          · exact wrong _ _
          · exact wrong _ _
          · refine .bind (Argument.list_keeps good (fits list (by simp)))
              fun items _ step itemsFit => ?_
            exact .bind
              (visited_carries engines step.1 (step.fit (fits function (by simp))) itemsFit)
              fun _ _ step _ => .atom step.1 rfl
          · exact wrong _ _
      | filter =>
          rcases arguments with _ | ⟨function, _ | ⟨list, _ | ⟨_, _⟩⟩⟩
          · exact wrong _ _
          · exact wrong _ _
          · refine .bind (Argument.list_keeps good (fits list (by simp)))
              fun items _ step itemsFit => ?_
            exact .bind (kept_carries engines step.1 (step.fit (fits function (by simp))) itemsFit)
              fun _ _ step valuesFit => Eval.list_keeps step.1 valuesFit
          · exact wrong _ _
      | fold =>
          rcases arguments with _ | ⟨function, _ | ⟨value, _ | ⟨list, _ | ⟨_, _⟩⟩⟩⟩
          · exact wrong _ _
          · exact wrong _ _
          · exact wrong _ _
          · exact .bind (Argument.list_keeps good (fits list (by simp)))
              fun items _ step itemsFit =>
                folded_carries engines step.1 (step.fit (fits function (by simp)))
                  (step.fit (fits value (by simp))) itemsFit
          · exact wrong _ _
      | apply =>
          cases arguments with
          | nil => exact wrong _ _
          | cons function values =>
              obtain ⟨functionFits, valuesFit⟩ := List.forall_mem_cons.mp fits
              exact spread_carries engines good functionFits valuesFit
      | eval =>
          rcases arguments with _ | ⟨form, _ | ⟨_, _⟩⟩
          · exact wrong _ _
          · exact Source.evalForm_carries engines good {} (fits form (by simp))
          · exact wrong _ _
      | macroexpand =>
          rcases arguments with _ | ⟨form, _ | ⟨_, _⟩⟩
          · exact wrong _ _
          · exact expandOnce_carries engines good (fits form (by simp))
          · exact wrong _ _
      | load =>
          rcases arguments with _ | ⟨path, _ | ⟨_, _⟩⟩
          · exact wrong _ _
          · exact .bind (Argument.text_keeps good path)
              fun _ _ step _ => Source.load_carries engines step.1 (loads rfl) _
          · exact wrong _ _
      | new =>
          cases arguments with
          | nil => exact wrong _ _
          | cons class_ values =>
              obtain ⟨classFits, valuesFit⟩ := List.forall_mem_cons.mp fits
              exact .bind (Argument.class_keeps good classFits)
                fun _ _ step idFits =>
                  Object.make_carries engines step.1 idFits (step.fitAll valuesFit)
      | getSlot =>
          rcases arguments with _ | ⟨object, _ | ⟨name, _ | ⟨_, _⟩⟩⟩
          · exact wrong _ _
          · exact wrong _ _
          · exact .bind (Object.slotName_keeps good name) fun _ _ step _ =>
              Object.getSlot_carries engines step.1 _ (step.fit (fits object (by simp)))
          · exact wrong _ _
      | setSlot =>
          rcases arguments with _ | ⟨object, _ | ⟨given, _ | ⟨value, _ | ⟨_, _⟩⟩⟩⟩
          · exact wrong _ _
          · exact wrong _ _
          · exact wrong _ _
          · refine .bind (Object.slotName_keeps good given) fun name _ step named => ?_
            obtain ⟨rfl, named⟩ := named
            refine Object.setSlot_carries engines good ?_ (fits object (by simp))
              (fits value (by simp))
            rintro index rfl plainly
            exact mayStore index name value ⟨given, rfl, named, .inr ⟨rfl, plainly⟩⟩
          · exact wrong _ _
      | slotValue =>
          rcases arguments with _ | ⟨object, _ | ⟨name, _ | ⟨_, _⟩⟩⟩
          · exact wrong _ _
          · exact wrong _ _
          · exact .bind (Object.slotName_keeps good name)
              fun _ _ step _ => Object.slotValue_carries engines step.1 object _
          · exact wrong _ _
      | send =>
          rcases arguments with _ | ⟨receiver, _ | ⟨name, values⟩⟩
          · exact wrong _ _
          · exact wrong _ _
          · obtain ⟨receiverFits, others⟩ := List.forall_mem_cons.mp fits
            exact sendTo_carries engines good name receiverFits (List.forall_mem_cons.mp others).2
      | _ => exact Bool.noConfusion calls

theorem call_carries (primitive : Primitive) {arguments : List Value}
    (fits : ∀ argument ∈ arguments, regime.Fit interp argument)
    (mayStore : ∀ index name value, primitive.Writes arguments interp index name value →
      regime.Storable index name value)
    (loads : primitive = .load → regime.Exact) :
    regime.Carries (call engine primitive arguments) (call twin primitive arguments) regime.Fit
      interp :=
  .ite (run_carries engines good primitive fits mayStore loads)
    (wrongCount_keeps good primitive arguments)

end Library

end ObjectLisp
