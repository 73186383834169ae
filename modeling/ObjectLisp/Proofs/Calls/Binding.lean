import ObjectLisp.Interp.Analysis
import ObjectLisp.Interp.Call
import ObjectLisp.Interp.Run
import ObjectLisp.Proofs.Calls.Parsing
import ObjectLisp.Proofs.Evaluation.Calls
import ObjectLisp.Proofs.Evaluation.Outcome
import ObjectLisp.Proofs.Values.Lists
import ObjectLisp.Reader.All

/-!
# Arguments and parameters

A call binds its arguments to the parameters of a function.  Required and optional
parameters take the arguments by position, keyword parameters take the value that
follows their keyword, and a rest parameter takes a list of what is left.

This goes by the position of a parameter among all of them.  So it rests on the
order of the sections, in which the required parameters come first: their
positions are the numbers below the number of arguments that a call must have.
-/

namespace ObjectLisp

/-! ## Sections in order -/

namespace ParamKind

/-- The sections follow each other in their order. -/
def InOrder (kinds : List ParamKind) : Prop :=
  kinds.Pairwise fun earlier later => earlier.rank ≤ later.rank

theorem eq_required_of_rank_le {kind : ParamKind} (least : kind.rank ≤ required.rank) :
    kind = required := by
  cases kind with
  | required => rfl
  | _ => cases least

/-- Required parameters stand at the first positions, as many as there are. -/
theorem lt_count_required {kinds : List ParamKind} (ordered : InOrder kinds) {position : Nat}
    (found : kinds[position]? = some required) : position < kinds.count required := by
  induction kinds generalizing position with
  | nil => cases found
  | cons first rest ih =>
      obtain ⟨least, ordered⟩ := List.pairwise_cons.mp ordered
      cases position with
      | zero =>
          cases found
          simp
      | succ position =>
          have isRequired := eq_required_of_rank_le (least _ (List.mem_of_getElem? found))
          rw [isRequired, List.count_cons_self]
          exact Nat.succ_lt_succ (ih ordered found)

end ParamKind

/-- The sections of parameters. -/
def Param.kinds {ε : Type} (params : List (Param ε)) : List ParamKind := params.map (·.kind)

namespace Params

theorem required_eq (params : Params Expr) :
    params.required = (Param.kinds params.list).count .required := by
  rw [Param.kinds, List.count_eq_countP, List.countP_map]
  rfl

theorem kind_of_isSimple {params : Params Expr} (simple : params.isSimple = true) :
    ∀ param ∈ params.list, param.kind = .required := by
  simpa [isSimple] using simple

theorem count_eq_zero_of_isSimple {params : Params Expr} (simple : params.isSimple = true)
    {kind : ParamKind} (other : kind ≠ .required) : params.count kind = 0 := by
  refine List.countP_eq_zero.mpr ?_
  intro param member
  simpa [kind_of_isSimple simple param member] using Ne.symm other

end Params

namespace LambdaList

/-- Parameters are taken in the order of their sections, up to the current one. -/
theorem inOrder_of_parseItems {markers : Markers} {symbols : SymbolStore} {kind : ParamKind}
    {taken params : List (Param Value)} {items : List Value}
    (ordered : ParamKind.InOrder (Param.kinds taken.reverse))
    (upTo : ∀ param ∈ taken, param.kind.rank ≤ kind.rank)
    (parsed : (parseItems markers symbols kind taken items).1 = .ok params) :
    ParamKind.InOrder (Param.kinds params) := by
  induction items generalizing symbols kind taken with
  | nil =>
      obtain ⟨rfl, _⟩ := parseItems_nil_ok parsed
      exact ordered
  | cons item items ih =>
      rcases parseItems_cons_ok parsed with ⟨_, later, _, order, parsed⟩ |
        ⟨name, init, _, _, _, _, parsed⟩
      · have upTo : ∀ param ∈ taken, param.kind.rank ≤ later.rank := fun param member =>
          Nat.le_trans (upTo param member) (Nat.le_of_lt order)
        exact ih ordered upTo parsed
      · refine ih ?_ ?_ parsed
        · rw [List.reverse_cons, Param.kinds, List.map_append]
          refine List.pairwise_append.mpr ⟨ordered, List.pairwise_singleton _ _, ?_⟩
          intro earlier before later same
          obtain ⟨param, member, rfl⟩ := List.mem_map.mp before
          rw [List.mem_singleton.mp same]
          exact upTo param (List.mem_reverse.mp member)
        · exact List.forall_mem_cons.mpr ⟨Nat.le_refl _, upTo⟩

theorem inOrder_of_parse {markers : Markers} {symbols : SymbolStore} {list : Value}
    {params : List (Param Value)} (parsed : (parse markers symbols list).1 = .ok params) :
    ParamKind.InOrder (Param.kinds params) := by
  unfold parse at parsed
  split at parsed
  · have none : ParamKind.InOrder (Param.kinds ([] : List (Param Value)).reverse) := .nil
    exact inOrder_of_parseItems none (by simp) parsed
  · cases parsed

end LambdaList

namespace Analysis

variable {engine : Engine} {context : Context} {loc : Option SourceLoc} {interp after : Interp}

/-- Analysing the defaults leaves the sections as they are. -/
theorem kinds_of_parameters {written : List (Param Value)} {params : List (Param Expr)}
    (analyzed : parameters engine context loc written interp = .ok params after) :
    Param.kinds params = Param.kinds written := by
  induction written generalizing params interp with
  | nil =>
      cases analyzed
      rfl
  | cons param written ih =>
      unfold parameters at analyzed
      obtain ⟨_, _, _, analyzed⟩ := Eval.bind_eq_ok_iff.mp analyzed
      obtain ⟨_, _, _, analyzed⟩ := Eval.bind_eq_ok_iff.mp analyzed
      obtain ⟨rest, _, restAnalyzed, analyzed⟩ := Eval.bind_eq_ok_iff.mp analyzed
      cases analyzed
      exact congrArg (List.cons param.kind) (ih restAnalyzed)

/-- The parameters of a function that was analysed are in the order of their sections.  Hidden
parameters are required and come first. -/
theorem inOrder_of_function {name : Option SymbolId} {hidden : List SymbolId} {list : Value}
    {forms : List Value} {template : Template Expr}
    (analyzed : function engine context loc name hidden list forms interp = .ok template after) :
    ParamKind.InOrder (Param.kinds template.params.list) := by
  unfold function at analyzed
  obtain ⟨parsed, _, isParsed, analyzed⟩ := Eval.bind_eq_ok_iff.mp analyzed
  obtain ⟨written, _, isWritten, analyzed⟩ := Eval.bind_eq_ok_iff.mp analyzed
  obtain ⟨body, _, _, analyzed⟩ := Eval.bind_eq_ok_iff.mp analyzed
  cases analyzed
  have ordered : ParamKind.InOrder (Param.kinds parsed) := by
    unfold parameterList at isParsed
    dsimp only at isParsed
    split at isParsed
    · next result =>
        cases isParsed
        exact LambdaList.inOrder_of_parse result
    · cases isParsed
  rw [← kinds_of_parameters isWritten] at ordered
  rw [Param.kinds, List.map_append, List.map_map]
  refine List.pairwise_append.mpr ⟨?_, ordered, ?_⟩
  · rw [List.pairwise_map]
    exact List.pairwise_of_forall fun _ _ => Nat.le_refl _
  · intro earlier isHidden later _
    obtain ⟨_, _, rfl⟩ := List.mem_map.mp isHidden
    exact Nat.zero_le _

end Analysis

/-! ## What a call gives -/

namespace Call

/-- The arguments behind those that are taken by position. -/
def remaining (params : Params Expr) (arguments : List Value) : List Value :=
  arguments.drop (params.required + params.optional)

/-- The number of arguments suits the parameters. -/
def Suits (params : Params Expr) (count : Nat) : Prop :=
  params.required ≤ count ∧
    (count ≤ params.required + params.optional ∨ 0 < params.keywords ∨ params.hasRest)

/-- Where there are keyword parameters, the remaining arguments come in pairs. -/
def Paired (params : Params Expr) (arguments : List Value) : Prop :=
  0 < params.keywords → (remaining params arguments).length % 2 = 0

/-- The call gives a value to the parameter at a position: the argument at this position, or what
follows the first occurrence of its keyword in front of a pair. -/
inductive Gives (params : Params Expr) (arguments : List Value) (position : Nat)
    (param : Param Expr) : Value → Prop where
  | positional {value : Value} (kind : param.kind = .required ∨ param.kind = .optional)
      (found : arguments[position]? = some value) : Gives params arguments position param value
  | keyword {value : Value} {symbol : SymbolId} (kind : param.kind = .keyword)
      (announced : param.keyword = some symbol) (pair : Nat)
      (key : (remaining params arguments)[2 * pair]? = some (.symbol symbol))
      (found : (remaining params arguments)[2 * pair + 1]? = some value)
      (first : ∀ earlier < pair,
        (remaining params arguments)[2 * earlier]? ≠ some (.symbol symbol)) :
      Gives params arguments position param value

/-- How the slot of the parameter at a position is filled.  Only optional and keyword parameters
may go without a value; a default is evaluated where the closure was made. -/
inductive Fills (engine : Engine) (closure : Closure) (arguments : List Value) (position : Nat)
    (param : Param Expr) (interp : Interp) : EStateM.Result Stop Interp Value → Prop where
  | given {value : Value} (gives : Gives closure.template.params arguments position param value) :
      Fills engine closure arguments position param interp (.ok value interp)
  | default {init : Expr} (kind : param.kind = .optional ∨ param.kind = .keyword)
      (absent : ∀ value, ¬ Gives closure.template.params arguments position param value)
      (written : param.init = some init) :
      Fills engine closure arguments position param interp (engine.eval init closure.env interp)
  | null (kind : param.kind = .optional ∨ param.kind = .keyword)
      (absent : ∀ value, ¬ Gives closure.template.params arguments position param value)
      (unwritten : param.init = none) :
      Fills engine closure arguments position param interp (.ok .null interp)
  | rest {list : Value} {heap : Heap} {counters : Counters} (kind : param.kind = .rest)
      (made : interp.heap.listWithTail (remaining closure.template.params arguments) .null =
        (list, heap))
      (elements : list.toList? = some (remaining closure.template.params arguments)) :
      Fills engine closure arguments position param interp
        (.ok list { interp with heap, counters })

/-- How the slots from a position on are filled, one after the other. -/
inductive FillsAll (engine : Engine) (closure : Closure) (arguments : List Value) :
    (position : Nat) → List (Param Expr) → Interp →
      EStateM.Result Stop Interp (List Value) → Prop where
  | done {position : Nat} {interp : Interp} :
      FillsAll engine closure arguments position [] interp (.ok [] interp)
  | stops {position : Nat} {param : Param Expr} {params : List (Param Expr)}
      {interp after : Interp} {stop : Stop}
      (fills : Fills engine closure arguments position param interp (.error stop after)) :
      FillsAll engine closure arguments position (param :: params) interp (.error stop after)
  | stopsLater {position : Nat} {param : Param Expr} {params : List (Param Expr)}
      {interp middle after : Interp} {value : Value} {stop : Stop}
      (fills : Fills engine closure arguments position param interp (.ok value middle))
      (others : FillsAll engine closure arguments (position + 1) params middle
        (.error stop after)) :
      FillsAll engine closure arguments position (param :: params) interp (.error stop after)
  | next {position : Nat} {param : Param Expr} {params : List (Param Expr)}
      {interp middle after : Interp} {value : Value} {values : List Value}
      (fills : Fills engine closure arguments position param interp (.ok value middle))
      (others : FillsAll engine closure arguments (position + 1) params middle
        (.ok values after)) :
      FillsAll engine closure arguments position (param :: params) interp
        (.ok (value :: values) after)

/-! ### Keywords -/

variable {keyword : Option SymbolId} {pairs : List Value}

/-- A value that is found follows the first occurrence of the keyword. -/
theorem first_of_keywordValue? {value : Value} (found : keywordValue? keyword pairs = some value) :
    ∃ symbol pair, keyword = some symbol ∧ pairs[2 * pair]? = some (.symbol symbol) ∧
      pairs[2 * pair + 1]? = some value ∧
      ∀ earlier < pair, pairs[2 * earlier]? ≠ some (.symbol symbol) := by
  fun_induction keywordValue? keyword pairs with
  | case1 symbol value' rest same =>
      cases found
      exact ⟨symbol, 0, same.symm, rfl, rfl, by simp⟩
  | case2 symbol value' rest different ih =>
      obtain ⟨announced, pair, isAnnounced, key, follows, first⟩ := ih found
      refine ⟨announced, pair + 1, isAnnounced, key, follows, ?_⟩
      intro earlier less
      cases earlier with
      | zero =>
          intro same
          cases same
          exact different isAnnounced.symm
      | succ earlier => exact first earlier (Nat.lt_of_succ_lt_succ less)
  | case3 key' value' rest noSymbol ih =>
      obtain ⟨announced, pair, isAnnounced, key, follows, first⟩ := ih found
      refine ⟨announced, pair + 1, isAnnounced, key, follows, ?_⟩
      intro earlier less
      cases earlier with
      | zero =>
          intro same
          cases same
          exact noSymbol _ rfl
      | succ earlier => exact first earlier (Nat.lt_of_succ_lt_succ less)
  | case4 => cases found

/-- If no value is found among pairs, the keyword is in front of none of them. -/
theorem absent_of_keywordValue? (paired : pairs.length % 2 = 0)
    (absent : keywordValue? keyword pairs = none) {symbol : SymbolId}
    (announced : keyword = some symbol) (pair : Nat) :
    pairs[2 * pair]? ≠ some (.symbol symbol) := by
  fun_induction keywordValue? keyword pairs generalizing pair with
  | case1 => cases absent
  | case2 other value rest different ih =>
      have pairedRest : rest.length % 2 = 0 := by
        simp only [List.length_cons] at paired
        omega
      cases pair with
      | zero =>
          intro same
          cases same
          exact different announced.symm
      | succ pair => exact ih pairedRest absent pair
  | case3 key value rest noSymbol ih =>
      have pairedRest : rest.length % 2 = 0 := by
        simp only [List.length_cons] at paired
        omega
      cases pair with
      | zero =>
          intro same
          cases same
          exact noSymbol _ rfl
      | succ pair => exact ih pairedRest absent pair
  | case4 pairs _ short =>
      rcases pairs with _ | ⟨first, _ | ⟨second, rest⟩⟩
      · simp
      · cases paired
      · exact absurd rfl (short first second rest)

/-! ### Slots -/

variable {engine : Engine} {closure : Closure} {arguments : List Value} {position : Nat}
  {param : Param Expr} {interp : Interp}

/-- The default of a parameter that the call gives no value. -/
theorem fills_defaultArgument (kind : param.kind = .optional ∨ param.kind = .keyword)
    (absent : ∀ value, ¬ Gives closure.template.params arguments position param value) :
    Fills engine closure arguments position param interp
      (defaultArgument engine closure.env param.init interp) := by
  cases init : param.init with
  | none => exact .null kind absent init
  | some expr => exact .default kind absent init

theorem fills_argument
    (enough : param.kind = .required → position < arguments.length)
    (paired : param.kind = .keyword →
      (remaining closure.template.params arguments).length % 2 = 0) :
    Fills engine closure arguments position param interp
      (argument engine closure.env (remaining closure.template.params arguments)
        arguments[position]? param interp) := by
  cases kind : param.kind with
  | required =>
      have found := List.getElem?_eq_getElem (enough kind)
      simp only [argument, kind, found]
      exact .given (.positional (.inl kind) found)
  | optional =>
      cases found : arguments[position]? with
      | some value =>
          simp only [argument, kind]
          exact .given (.positional (.inr kind) found)
      | none =>
          simp only [argument, kind]
          refine fills_defaultArgument (.inl kind) ?_
          rintro value (⟨_, given⟩ | ⟨isKeyword⟩)
          · cases found.symm.trans given
          · cases kind.symm.trans isKeyword
  | keyword =>
      cases found : keywordValue? param.keyword (remaining closure.template.params arguments) with
      | some value =>
          simp only [argument, kind, found]
          obtain ⟨symbol, pair, announced, key, follows, first⟩ := first_of_keywordValue? found
          exact .given (.keyword kind announced pair key follows first)
      | none =>
          simp only [argument, kind, found]
          refine fills_defaultArgument (.inr kind) ?_
          rintro value (⟨byPosition, _⟩ | ⟨_, announced, pair, key⟩)
          · rcases byPosition with other | other <;> cases kind.symm.trans other
          · exact absent_of_keywordValue? (paired kind) found announced pair key
  | rest =>
      simp only [argument, kind]
      have lists := interp.heap.lists_listWithTail (remaining closure.template.params arguments)
        .null
      exact .rest kind rfl (Value.toList?_eq_some_iff.mpr lists)

/-- The arguments are taken off one by one, so that the first of the rest is the one at the position
of the parameter. -/
theorem fillsAll_bindAll {params : List (Param Expr)}
    (enough : ∀ offset param, params[offset]? = some param → param.kind = .required →
      position + offset < arguments.length)
    (paired : ∀ param ∈ params, param.kind = .keyword →
      (remaining closure.template.params arguments).length % 2 = 0) :
    FillsAll engine closure arguments position params interp
      (bindAll engine closure.env (remaining closure.template.params arguments)
        (arguments.drop position) params interp) := by
  induction params generalizing position interp with
  | nil => exact .done
  | cons param params ih =>
      obtain ⟨firstPaired, othersPaired⟩ := List.forall_mem_cons.mp paired
      have fills : Fills engine closure arguments position param interp _ :=
        fills_argument (enough 0 param rfl) firstPaired
      have others : ∀ middle, FillsAll engine closure arguments (position + 1) params middle
          (bindAll engine closure.env (remaining closure.template.params arguments)
            (arguments.drop (position + 1)) params middle) := by
        intro middle
        refine ih ?_ othersPaired
        intro offset param found isRequired
        have less := enough (offset + 1) param found isRequired
        omega
      unfold bindAll
      rw [List.head?_drop, List.tail_drop]
      cases first : argument engine closure.env (remaining closure.template.params arguments)
          arguments[position]? param interp with
      | error stop after =>
          rw [Eval.bind_of_error first]
          exact .stops (first ▸ fills)
      | ok value middle =>
          rw [Eval.bind_of_ok first]
          have others := others middle
          cases rest : bindAll engine closure.env (remaining closure.template.params arguments)
              (arguments.drop (position + 1)) params middle with
          | error stop after =>
              rw [Eval.bind_of_error rest]
              exact .stopsLater (first ▸ fills) (rest ▸ others)
          | ok values after =>
              rw [Eval.bind_of_ok rest]
              exact .next (first ▸ fills) (rest ▸ others)

theorem FillsAll.length_eq {params : List (Param Expr)} {values : List Value} {after : Interp}
    (fills : FillsAll engine closure arguments position params interp (.ok values after)) :
    values.length = params.length := by
  induction params generalizing position interp values with
  | nil =>
      cases fills
      rfl
  | cons param params ih =>
      cases fills with
      | next _ others => exact congrArg Nat.succ (ih others)

/-! ### The two ways of binding -/

/-- The state after one more call in which not all parameters are required. -/
def generally (interp : Interp) : Interp :=
  { interp with counters.generalCalls := interp.counters.generalCalls + 1 }

/-- The state after one more call in which all parameters are required. -/
def quickly (interp : Interp) : Interp :=
  { interp with counters.fastCalls := interp.counters.fastCalls + 1 }

theorem not_suits_iff {params : Params Expr} {count : Nat} :
    (count < params.required || (!params.isOpen && params.required + params.optional < count)) ↔
      ¬ Suits params count := by
  cases hasRest : params.hasRest with
  | false =>
      simp [Suits, Params.isOpen, hasRest]
      omega
  | true => simp [Suits, Params.isOpen, hasRest]

theorem not_paired_iff {params : Params Expr} :
    (0 < params.keywords && (remaining params arguments).length % 2 ≠ 0) ↔
      ¬ Paired params arguments := by
  simp [Paired]

/-- The three outcomes of binding in general. -/
theorem bindGeneral_eq (engine : Engine) (closure : Closure) (arguments : List Value)
    (interp : Interp) :
    bindGeneral engine closure arguments interp =
      (if arguments.length < closure.template.params.required ||
          (!closure.template.params.isOpen &&
            closure.template.params.required + closure.template.params.optional <
              arguments.length) then
        wrongArity closure arguments.length
      else if 0 < closure.template.params.keywords &&
          (remaining closure.template.params arguments).length % 2 ≠ 0 then
        Eval.fail (.unpairedKeyword (remaining closure.template.params arguments).length)
      else
        bindAll engine closure.env (remaining closure.template.params arguments) arguments
          closure.template.params.list) (generally interp) :=
  rfl

theorem bindGeneral_of_paired (suits : Suits closure.template.params arguments.length)
    (paired : Paired closure.template.params arguments) :
    bindGeneral engine closure arguments interp =
      bindAll engine closure.env (remaining closure.template.params arguments) arguments
        closure.template.params.list (generally interp) := by
  rw [bindGeneral_eq, if_neg (not_suits_iff.not.mpr (not_not_intro suits)),
    if_neg (not_paired_iff.not.mpr (not_not_intro paired))]

/-- Required parameters take just the arguments. -/
theorem bindAll_of_required {params : List (Param Expr)} {remaining rest : List Value}
    {env : Option FrameId} (required : ∀ param ∈ params, param.kind = .required)
    (lengths : rest.length = params.length) :
    bindAll engine env remaining rest params interp = .ok rest interp := by
  induction params generalizing rest with
  | nil =>
      rw [List.eq_nil_of_length_eq_zero lengths]
      rfl
  | cons param params ih =>
      obtain ⟨kind, others⟩ := List.forall_mem_cons.mp required
      cases rest with
      | nil => cases lengths
      | cons value rest =>
          have first : argument engine env remaining (some value) param interp =
              .ok value interp := by
            simp only [argument, kind]
            rfl
          unfold bindAll
          rw [List.head?_cons, Eval.bind_of_ok first, List.tail_cons,
            Eval.bind_of_ok (ih others (Nat.succ.inj lengths))]
          rfl

/-- If all parameters are required, exactly their number suits. -/
theorem suits_iff_of_isSimple {params : Params Expr} (simple : params.isSimple = true)
    {count : Nat} : Suits params count ↔ count = params.required := by
  have noKeywords : params.keywords = 0 := Params.count_eq_zero_of_isSimple simple (by decide)
  have noOptional : params.optional = 0 := Params.count_eq_zero_of_isSimple simple (by decide)
  have noRest : params.hasRest = false := by
    refine List.any_eq_false.mpr ?_
    intro param member
    simp [Params.kind_of_isSimple simple param member]
  simp only [Suits, noKeywords, noOptional, noRest, Nat.add_zero, Nat.lt_irrefl,
    Bool.false_eq_true, or_false]
  omega

theorem paired_of_isSimple {params : Params Expr} (simple : params.isSimple = true) :
    Paired params arguments := by
  have noKeywords : params.keywords = 0 := Params.count_eq_zero_of_isSimple simple (by decide)
  intro some
  omega

theorem bind_of_isSimple (simple : closure.template.params.isSimple = true) :
    bind engine closure arguments interp =
      if arguments.length ≠ closure.template.params.required then
        wrongArity closure arguments.length interp
      else .ok arguments (quickly interp) := by
  unfold bind
  rw [if_pos simple]
  split <;> rfl

theorem bind_of_not_isSimple (simple : ¬ closure.template.params.isSimple = true) :
    bind engine closure arguments interp = bindGeneral engine closure arguments interp := by
  unfold bind
  rw [if_neg simple]

theorem bind_of_not_suits (unsuited : ¬ Suits closure.template.params arguments.length) :
    ∃ counters, bind engine closure arguments interp =
      wrongArity closure arguments.length { interp with counters } := by
  by_cases simple : closure.template.params.isSimple = true
  · refine ⟨interp.counters, ?_⟩
    rw [bind_of_isSimple simple, if_pos ((suits_iff_of_isSimple simple).not.mp unsuited)]
  · refine ⟨(generally interp).counters, ?_⟩
    rw [bind_of_not_isSimple simple, bindGeneral_eq, if_pos (not_suits_iff.mpr unsuited)]
    rfl

theorem bind_of_not_paired (suits : Suits closure.template.params arguments.length)
    (unpaired : ¬ Paired closure.template.params arguments) :
    ∃ counters, bind engine closure arguments interp =
      Eval.fail (.unpairedKeyword (remaining closure.template.params arguments).length)
        { interp with counters } := by
  have simple : ¬ closure.template.params.isSimple = true :=
    fun simple => unpaired (paired_of_isSimple simple)
  refine ⟨(generally interp).counters, ?_⟩
  rw [bind_of_not_isSimple simple, bindGeneral_eq,
    if_neg (not_suits_iff.not.mpr (not_not_intro suits)), if_pos (not_paired_iff.mpr unpaired)]
  rfl

/-- Where number and pairs are right, every slot is filled in its turn. -/
theorem fillsAll_bind (ordered : ParamKind.InOrder (Param.kinds closure.template.params.list))
    (suits : Suits closure.template.params arguments.length)
    (paired : Paired closure.template.params arguments) :
    ∃ counters, FillsAll engine closure arguments 0 closure.template.params.list
      { interp with counters } (bind engine closure arguments interp) := by
  have slots : ∀ current, FillsAll engine closure arguments 0 closure.template.params.list current
      (bindAll engine closure.env (remaining closure.template.params arguments) arguments
        closure.template.params.list current) := by
    intro current
    refine fillsAll_bindAll ?_ ?_
    · intro offset param found isRequired
      have kind : (Param.kinds closure.template.params.list)[offset]? = some .required := by
        rw [Param.kinds, List.getElem?_map, found, Option.map_some, isRequired]
      have less := ParamKind.lt_count_required ordered kind
      rw [← Params.required_eq] at less
      rw [Nat.zero_add]
      exact Nat.lt_of_lt_of_le less suits.1
    · intro param member isKeyword
      exact paired (List.countP_pos_iff.mpr ⟨param, member, by simpa using isKeyword⟩)
  by_cases simple : closure.template.params.isSimple = true
  · have lengths := (suits_iff_of_isSimple simple).mp suits
    have all := Params.kind_of_isSimple simple
    rw [bind_of_isSimple simple, if_neg (not_not_intro lengths)]
    refine ⟨(quickly interp).counters, ?_⟩
    have filled := slots (quickly interp)
    rwa [bindAll_of_required all (lengths.trans (Params.required_eq_length simple))] at filled
  · rw [bind_of_not_isSimple simple, bindGeneral_of_paired suits paired]
    exact ⟨(generally interp).counters, slots (generally interp)⟩

/-- Where all parameters are required, the quick way of binding comes to what the general way would
come to. -/
theorem bind_agrees (simple : closure.template.params.isSimple = true) :
    ∃ outcome quick general,
      bind engine closure arguments interp = Eval.lift outcome { interp with counters := quick } ∧
      bindGeneral engine closure arguments interp =
        Eval.lift outcome { interp with counters := general } := by
  by_cases suits : Suits closure.template.params arguments.length
  · have lengths := (suits_iff_of_isSimple simple).mp suits
    have all := Params.kind_of_isSimple simple
    refine ⟨.ok arguments, (quickly interp).counters, (generally interp).counters, ?_, ?_⟩
    · rw [bind_of_isSimple simple, if_neg (not_not_intro lengths)]
      rfl
    · rw [bindGeneral_of_paired suits (paired_of_isSimple simple),
        bindAll_of_required all (lengths.trans (Params.required_eq_length simple))]
      rfl
  · refine ⟨.error (.wrongArity (name interp.symbols closure)
      closure.template.params.arity.text arguments.length), interp.counters,
      (generally interp).counters, ?_, ?_⟩
    · rw [bind_of_isSimple simple, if_pos ((suits_iff_of_isSimple simple).not.mp suits)]
      rfl
    · rw [bindGeneral_eq, if_pos (not_suits_iff.mpr suits)]
      rfl

/-- Arguments are bound to the parameters of every function that was analysed, with hidden
parameters or without.  A number of arguments that does not suit is an arity error, and then
remaining arguments that should come in pairs and do not are an error of their own.  Otherwise each
parameter gets its slot in turn, and nothing can fail but the evaluation of a default.  Where all
parameters are required, the quick way of binding agrees with the general one. -/
theorem arguments_bound {analyzer : Engine} {context : Context} {loc : Option SourceLoc}
    {name : Option SymbolId} {hidden : List SymbolId} {list : Value} {forms : List Value}
    {before after : Interp} {closure : Closure}
    (analyzed : Analysis.function analyzer context loc name hidden list forms before =
      .ok closure.template after)
    (engine : Engine) (arguments : List Value) (interp : Interp) :
    (¬ Suits closure.template.params arguments.length →
      ∃ counters, bind engine closure arguments interp =
        Eval.fail (.wrongArity (Call.name interp.symbols closure)
          closure.template.params.arity.text arguments.length) { interp with counters }) ∧
    (Suits closure.template.params arguments.length →
      ¬ Paired closure.template.params arguments →
        ∃ counters, bind engine closure arguments interp =
          Eval.fail (.unpairedKeyword (remaining closure.template.params arguments).length)
            { interp with counters }) ∧
    (Suits closure.template.params arguments.length → Paired closure.template.params arguments →
      (∃ counters, FillsAll engine closure arguments 0 closure.template.params.list
        { interp with counters } (bind engine closure arguments interp)) ∧
      ∀ slots after, bind engine closure arguments interp = .ok slots after →
        slots.length = closure.template.params.list.length) ∧
    (closure.template.params.isSimple → ∃ outcome quick general,
      bind engine closure arguments interp = Eval.lift outcome { interp with counters := quick } ∧
      bindGeneral engine closure arguments interp =
        Eval.lift outcome { interp with counters := general }) := by
  have ordered := Analysis.inOrder_of_function analyzed
  refine ⟨bind_of_not_suits, bind_of_not_paired, ?_, bind_agrees⟩
  intro suits paired
  obtain ⟨counters, filled⟩ := fillsAll_bind ordered suits paired
  refine ⟨⟨counters, filled⟩, ?_⟩
  intro slots after bound
  rw [bound] at filled
  exact filled.length_eq

section Sections

/-- An interpreter that knows the words of the language and nothing else. -/
private def primed : Interp :=
  { words := (Vocabulary.install .initial).1
    symbols := (Vocabulary.install .initial).2
    package := PackageId.user }

/-- The first datum of a text, with the state after it was read. -/
private def readForm (text : String) (interp : Interp) : Value × Interp :=
  match Reader.next interp.table interp.package interp.symbols 1 text.toList with
  | .datum datum _ _ symbols =>
      let (form, _, heap) := interp.heap.embed "" datum
      (form, { interp with symbols, heap })
  | _ => (.null, interp)

/-- A parameter list with all sections. -/
private def sections : Value × Interp :=
  readForm "(self &optional (depth 1) &key (color 2) &rest more)" primed

/-- The parameters of a method, which has a hidden one in front. -/
private def method : EStateM.Result Stop Interp (Template Expr) :=
  Analysis.function (.ofFuel 3) {} none none [primed.words.nextMethod] sections.1 [] sections.2

private def templateOf? : EStateM.Result Stop Interp (Template Expr) → Option (Template Expr)
  | .ok template _ => some template
  | .error .. => none

private theorem method_analyzed : ∃ template after, method = .ok template after ∧
    template.params.required = 2 ∧ template.params.optional = 1 ∧
    template.params.keywords = 1 := by
  have seen : (templateOf? method).map (fun template =>
      (template.params.required, template.params.optional, template.params.keywords)) =
        some (2, 1, 1) := by
    decide +kernel
  obtain ⟨template, found, counts⟩ := Option.map_eq_some_iff.mp seen
  cases analyzed : method with
  | ok other after =>
      rw [analyzed] at found
      cases found
      simp only [Prod.mk.injEq] at counts
      exact ⟨template, after, rfl, counts⟩
  | error stop after =>
      rw [analyzed] at found
      cases found

/-- A method with all sections of parameters refuses a call without a receiver, and one with a
keyword that has no value.  In a call with a keyword the slots are filled. -/
theorem arguments_bound_in_all_sections : ∃ template after, method = .ok template after ∧
    ∀ (closure : Closure) (interp : Interp) (next self depth key value : Value),
      closure.template = template →
        (∃ counters, bind (.ofFuel 3) closure [next] interp =
          Eval.fail (.wrongArity (name interp.symbols closure) template.params.arity.text 1)
            { interp with counters }) ∧
        (∃ counters, bind (.ofFuel 3) closure [next, self, depth, key] interp =
          Eval.fail (.unpairedKeyword 1) { interp with counters }) ∧
        ∃ counters, FillsAll (.ofFuel 3) closure [next, self, depth, key, value] 0
          template.params.list { interp with counters }
          (bind (.ofFuel 3) closure [next, self, depth, key, value] interp) := by
  obtain ⟨template, after, analyzed, required, optional, keywords⟩ := method_analyzed
  refine ⟨template, after, analyzed, ?_⟩
  rintro closure interp next self depth key value rfl
  refine ⟨?_, ?_, ?_⟩
  · refine (arguments_bound analyzed (.ofFuel 3) [next] interp).1 ?_
    simp [Suits, required]
  · obtain ⟨_, unpaired, _⟩ := arguments_bound analyzed (.ofFuel 3) [next, self, depth, key] interp
    have refused := unpaired (by simp [Suits, required, keywords])
      (by simp [Paired, remaining, required, optional, keywords])
    simpa [remaining, required, optional] using refused
  · obtain ⟨_, _, paired, _⟩ :=
      arguments_bound analyzed (.ofFuel 3) [next, self, depth, key, value] interp
    exact (paired (by simp [Suits, required, keywords])
      (by simp [Paired, remaining, required, optional])).1

end Sections

end Call

end ObjectLisp
