import ObjectLisp.Proofs.Templates.Assembly

/-!
# Templates are substituted

Analysis reads a template as a form with holes, and the expression that it makes
builds what the form is when its holes are filled.  It comes to the same value,
and it stops for the same reasons.
-/

namespace ObjectLisp.Quasi

/-! ## Templates -/

section Expansion

variable {engine : Engine} {context : Context} {fuel level : Nat} {template argument : Value}
  {symbol : SymbolId} {mark : Mark} {expr : Expr} {interp after : Interp}

theorem get_bind {α : Type} (next : Interp → Eval α) (interp : Interp) :
    ((get : Eval Interp) >>= next) interp = next interp interp :=
  rfl

theorem eq_cons_of_marked? {words : Vocabulary}
    (found : marked? words template = some (symbol, mark, argument)) :
    ∃ id car cdr, template = .cons id car cdr := by
  unfold marked? at found
  split at found
  · exact ⟨_, _, _, rfl⟩
  · cases found

theorem expand_nested (found : marked? interp.words template = some (symbol, .nested, argument)) :
    expand engine context (fuel + 1) level template interp =
      (do return rebuild symbol (← expand engine context fuel (level + 1) argument)) interp := by
  obtain ⟨id, car, cdr, rfl⟩ := eq_cons_of_marked? found
  rw [expand, get_bind, found]

theorem expand_raised (found : marked? interp.words template = some (symbol, mark, argument))
    (other : mark ≠ .nested) :
    expand engine context (fuel + 1) (level + 1) template interp =
      (do return rebuild symbol (← expand engine context fuel level argument)) interp := by
  obtain ⟨id, car, cdr, rfl⟩ := eq_cons_of_marked? found
  rw [expand, get_bind, found]
  cases mark with
  | nested => exact absurd rfl other
  | unquote | splice => rfl

theorem expand_unquote (found : marked? interp.words template = some (symbol, .unquote, argument)) :
    expand engine context (fuel + 1) 0 template interp =
      engine.analyze argument context interp := by
  obtain ⟨id, car, cdr, rfl⟩ := eq_cons_of_marked? found
  rw [expand, get_bind, found]
  rfl

theorem expand_splice (found : marked? interp.words template = some (symbol, .splice, argument)) :
    expand engine context (fuel + 1) 0 template interp =
      Eval.fail (.malformed .splicingOutside (context.locOf template)) interp := by
  obtain ⟨id, car, cdr, rfl⟩ := eq_cons_of_marked? found
  rw [expand, get_bind, found]
  rfl

theorem expand_cons {id : Identity} {car cdr : Value}
    (plain : marked? interp.words (.cons id car cdr) = none) :
    expand engine context (fuel + 1) level (.cons id car cdr) interp =
      expandList engine context fuel level (.cons id car cdr) interp := by
  rw [expand, get_bind, plain]

theorem expandElement_splice {element : Value}
    (found : marked? interp.words element = some (symbol, .splice, argument)) :
    expandElement engine context (fuel + 1) 0 element interp =
      (do return Part.splice (← engine.analyze argument context)) interp := by
  rw [expandElement, get_bind, found]
  rfl

theorem expandElement_item {element : Value}
    (whole : ∀ symbol argument,
      marked? interp.words element = some (symbol, .splice, argument) → level ≠ 0) :
    expandElement engine context (fuel + 1) level element interp =
      (do return Part.item (← expand engine context fuel level element)) interp := by
  rw [expandElement, get_bind]
  cases level with
  | succ level => rfl
  | zero =>
      cases found : marked? interp.words element with
      | none => rfl
      | some marked =>
          obtain ⟨symbol, mark, argument⟩ := marked
          cases mark with
          | splice => exact absurd rfl (whole symbol argument found)
          | unquote | nested => rfl

/-- An element of a list is read and built, or its elements are spliced in. -/
def ElementRead (engine : Engine) (context : Context) (level : Nat) (element : Value)
    (interp : Interp) (part : Part) (after : Interp) : Prop :=
  (∃ expr form, part = .item expr ∧ Builds expr form ∧
    (∀ symbol argument, marked? interp.words element = some (symbol, .splice, argument) →
      level ≠ 0) ∧
    Reads engine context .tail .whole level element interp form after) ∨
  ∃ expr symbol argument, part = .splice expr ∧ level = 0 ∧
    marked? interp.words element = some (symbol, .splice, argument) ∧
    engine.analyze argument context interp = .ok expr after

/-- What an amount of fuel is enough to analyse is read as a form, and the expression builds it. -/
structure Expands (engine : Engine) (context : Context) (fuel : Nat) : Prop where
  whole {level : Nat} {template : Value} {expr : Expr} {interp after : Interp}
    (expanded : expand engine context fuel level template interp = .ok expr after) :
    ∃ form, Reads engine context .tail .whole level template interp form after ∧ Builds expr form
  marked {level : Nat} {template : Value} {expr : Expr} {interp after : Interp} (place : Place)
    (outside : place ≠ .items) (found : (marked? interp.words template).isSome)
    (expanded : expand engine context fuel level template interp = .ok expr after) :
    ∃ form, Reads engine context .tail place level template interp form after ∧
      BuildsTail expr form
  cells {level : Nat} {id : Identity} {car cdr : Value} {expr : Expr} {interp after : Interp}
    {place : Place} (plain : place = .items ∨ marked? interp.words (.cons id car cdr) = none)
    (expanded : expandList engine context fuel level (.cons id car cdr) interp = .ok expr after) :
    ∃ form, Reads engine context .tail place level (.cons id car cdr) interp form after ∧
      Builds expr form
  items {level : Nat} {list : Value} {items : List Value} {expr : Expr} {interp after : Interp}
    (listed : Value.Lists .null items list)
    (expanded : expandList engine context fuel level list interp = .ok expr after) :
    ∃ form, Reads engine context .tail .items level list interp form after ∧ Builds expr form
  rest {level : Nat} {list : Value} {interp after : Interp} {parts : List Part × Option Expr}
    (expanded : expandRest engine context fuel level list interp = .ok parts after) :
    ∃ form, Reads engine context .tail .tail level list interp form after ∧
      Spells parts.2 parts.1 form
  element {level : Nat} {element : Value} {interp after : Interp} {part : Part}
    (expanded : expandElement engine context fuel level element interp = .ok part after) :
    ElementRead engine context level element interp part after

theorem return_eq_ok_iff {α β : Type} {action : Eval α} {f : α → β} {result : β} :
    (do return f (← action) : Eval β) interp = .ok result after ↔
      ∃ value, action interp = .ok value after ∧ f value = result := by
  rw [Eval.bind_eq_ok_iff]
  constructor
  · rintro ⟨value, middle, ran, ⟨⟩⟩
    exact ⟨value, ran, rfl⟩
  · rintro ⟨value, ran, rfl⟩
    exact ⟨value, after, ran, rfl⟩

theorem ElementRead.cell {id : Identity} {car cdr : Value} {part : Part} {parts : List Part}
    {tail : Option Expr} {rest : Form} {middle : Interp} {place : Place}
    (read : ElementRead engine context level car interp part middle)
    (plain : place = .items ∨ marked? interp.words (.cons id car cdr) = none)
    (others : Reads engine context .tail .tail level cdr middle rest after)
    (spelled : Spells tail parts rest) :
    ∃ form, Reads engine context .tail place level (.cons id car cdr) interp form after ∧
      Spells tail (part :: parts) form := by
  obtain ⟨expr, head, rfl, built, whole, first⟩ |
    ⟨expr, symbol, argument, rfl, rfl, found, analyzed⟩ := read
  · exact ⟨.cell head rest, .cell plain whole first others, .item built spelled⟩
  · exact ⟨.splice expr rest, .splice plain found analyzed others, .splice expr spelled⟩

theorem Expands.marked_succ (below : Expands engine context fuel) (place : Place)
    (outside : place ≠ .items) (found : (marked? interp.words template).isSome)
    (expanded : expand engine context (fuel + 1) level template interp = .ok expr after) :
    ∃ form, Reads engine context .tail place level template interp form after ∧
      BuildsTail expr form := by
  obtain ⟨⟨symbol, mark, argument⟩, found⟩ := Option.isSome_iff_exists.mp found
  by_cases nested : mark = .nested
  · subst nested
    rw [expand_nested found, return_eq_ok_iff] at expanded
    obtain ⟨inner, expanded, rfl⟩ := expanded
    obtain ⟨form, read, built⟩ := below.whole expanded
    exact ⟨_, .nested outside found read, builds_kept symbol built⟩
  · cases level with
    | succ level =>
        rw [expand_raised found nested, return_eq_ok_iff] at expanded
        obtain ⟨inner, expanded, rfl⟩ := expanded
        obtain ⟨form, read, built⟩ := below.whole expanded
        exact ⟨_, .raised outside found nested read, builds_kept symbol built⟩
    | zero =>
        cases mark with
        | nested => exact absurd rfl nested
        | unquote =>
            rw [expand_unquote found] at expanded
            exact ⟨_, .unquote outside found expanded, builds_hole expr⟩
        | splice =>
            rw [expand_splice found] at expanded
            cases expanded

theorem Expands.cells_succ (below : Expands engine context fuel) {id : Identity}
    {car cdr : Value} {place : Place}
    (plain : place = .items ∨ marked? interp.words (.cons id car cdr) = none)
    (expanded : expandList engine context (fuel + 1) level (.cons id car cdr) interp =
      .ok expr after) :
    ∃ form, Reads engine context .tail place level (.cons id car cdr) interp form after ∧
      Builds expr form := by
  rw [expandList, Eval.bind_eq_ok_iff] at expanded
  obtain ⟨part, middle, first, expanded⟩ := expanded
  rw [Eval.bind_eq_ok_iff] at expanded
  obtain ⟨parts, last, others, ⟨⟩⟩ := expanded
  obtain ⟨rest, read, spelled⟩ := below.rest others
  obtain ⟨form, read, spelled⟩ := (below.element first).cell plain read spelled
  exact ⟨form, read, spelled.builds⟩

theorem Expands.items_succ (below : Expands engine context fuel) {list : Value}
    {items : List Value} (listed : Value.Lists .null items list)
    (expanded : expandList engine context (fuel + 1) level list interp = .ok expr after) :
    ∃ form, Reads engine context .tail .items level list interp form after ∧ Builds expr form := by
  cases listed with
  | nil =>
      rw [expandList] at expanded
      cases expanded
      exact ⟨.datum .null, .atom rfl, (builds_datum .null).builds⟩
  | cons id item listed => exact below.cells_succ (.inl rfl) expanded

theorem Expands.rest_succ (below : Expands engine context fuel) {list : Value}
    {parts : List Part × Option Expr}
    (expanded : expandRest engine context (fuel + 1) level list interp = .ok parts after) :
    ∃ form, Reads engine context .tail .tail level list interp form after ∧
      Spells parts.2 parts.1 form := by
  cases list with
  | null =>
      rw [expandRest] at expanded
      cases expanded
      exact ⟨.datum .null, .atom rfl, .nil rfl⟩
  | cons id car cdr =>
      rw [expandRest, get_bind] at expanded
      split at expanded
      case isTrue found =>
        rw [return_eq_ok_iff] at expanded
        obtain ⟨expr, expanded, rfl⟩ := expanded
        obtain ⟨form, read, built⟩ := below.marked .tail (by decide) found expanded
        exact ⟨form, read, .tail rfl built⟩
      case isFalse unmarked =>
        rw [Eval.bind_eq_ok_iff] at expanded
        obtain ⟨part, middle, first, expanded⟩ := expanded
        rw [Eval.bind_eq_ok_iff] at expanded
        obtain ⟨parts, last, others, ⟨⟩⟩ := expanded
        obtain ⟨rest, read, spelled⟩ := below.rest others
        exact (below.element first).cell (.inr (by simpa using unmarked)) read spelled
  | vector index =>
      simp only [expandRest] at expanded
      cases expanded
      exact ⟨.datum (.vector index), .tail, .tail rfl (builds_datum _)⟩
  | _ =>
      simp only [expandRest] at expanded
      cases expanded
      exact ⟨_, .atom rfl, .tail rfl (builds_datum _)⟩

theorem Expands.element_succ (below : Expands engine context fuel) {element : Value} {part : Part}
    (expanded : expandElement engine context (fuel + 1) level element interp = .ok part after) :
    ElementRead engine context level element interp part after := by
  by_cases whole : ∀ symbol argument,
      marked? interp.words element = some (symbol, .splice, argument) → level ≠ 0
  · rw [expandElement_item whole, return_eq_ok_iff] at expanded
    obtain ⟨expr, expanded, rfl⟩ := expanded
    obtain ⟨form, read, built⟩ := below.whole expanded
    exact .inl ⟨expr, form, rfl, built, whole, read⟩
  · simp only [Classical.not_forall, ne_eq, Classical.not_not] at whole
    obtain ⟨symbol, argument, found, rfl⟩ := whole
    rw [expandElement_splice found, return_eq_ok_iff] at expanded
    obtain ⟨expr, analyzed, rfl⟩ := expanded
    exact .inr ⟨expr, symbol, argument, rfl, rfl, found, analyzed⟩

theorem Expands.whole_succ (below : Expands engine context fuel)
    (expanded : expand engine context (fuel + 1) level template interp = .ok expr after) :
    ∃ form, Reads engine context .tail .whole level template interp form after ∧
      Builds expr form := by
  cases template with
  | cons id car cdr =>
      cases found : marked? interp.words (.cons id car cdr) with
      | none =>
          rw [expand_cons found] at expanded
          exact below.cells (.inr found) expanded
      | some mark =>
          obtain ⟨form, read, built⟩ :=
            below.marked_succ .whole (by decide) (found ▸ rfl) expanded
          exact ⟨form, read, built.builds⟩
  | vector index =>
      rw [expand, get_bind] at expanded
      obtain ⟨list, listed, made⟩ :=
        Eval.listWithTail_eq_ok (interp.heap.items index).toList .null interp
      rw [Eval.list, Eval.bind_of_ok made, return_eq_ok_iff] at expanded
      obtain ⟨inner, expanded, rfl⟩ := expanded
      obtain ⟨form, read, built⟩ := below.items listed expanded
      exact ⟨_, .vector (by decide) listed read, builds_vector built⟩
  | _ =>
      simp only [expand] at expanded
      cases expanded
      exact ⟨_, .atom rfl, (builds_datum _).builds⟩

theorem expands (engine : Engine) (context : Context) (fuel : Nat) :
    Expands engine context fuel := by
  induction fuel with
  | zero =>
      constructor <;> intros <;> rename_i expanded <;>
        simp only [expand, expandList, expandRest, expandElement] at expanded <;> cases expanded
  | succ fuel ih =>
      exact
        { whole := ih.whole_succ
          marked := ih.marked_succ
          cells := ih.cells_succ
          items := ih.items_succ
          rest := ih.rest_succ
          element := ih.element_succ }

/-- Templates are substituted.  If the analysis of a template succeeds, it has read the template as
a form, and evaluating the expression comes to filling the holes of the form with the values of the
computed parts: it gives the same value, and it stops where a computed part stops, or with a type
error where what should be spliced in is no list.  A vector that is the tail of a list stands for
itself. -/
theorem analyze_substitutes (analyzed : analyze engine context template interp = .ok expr after) :
    ∃ form, Reads engine context .tail .whole 0 template interp form after ∧
      ∀ (fuel limit : Nat) (env : Option FrameId) (start : Interp), fuel + form.height ≤ limit →
        form.value (embedded fuel env) start ((Engine.ofFuel limit).eval expr env start) :=
  (expands engine context engine.fuel).whole analyzed

end Expansion

section Sample

private def number (value : Int64) : Value := .int (.fixnum value)

private def quoted (symbol : SymbolId) (argument : Value) : Value :=
  .cons 0 (.symbol symbol) (.cons 0 argument .null)

/-- An interpreter in which the symbols 1, 2 and 3 are the marks, with two vectors: `[1 ,@null]` and
`[,2]`. -/
private def workshop : Interp :=
  { words := { forms := ⟨[(1, .quasiquote), (2, .unquote), (3, .unquoteSplicing)]⟩ }
    heap := { vectors := #[#[number 1, quoted 3 .null], #[quoted 2 (number 2)]] } }

/-- The template with the form `(1 ,@null [1 ,@null] (quasiquote ,(3 ,2)) . ,2)`. -/
private def mixture : Value :=
  .cons 0 (number 1) <| .cons 0 (quoted 3 .null) <| .cons 0 (.vector 0) <|
    .cons 0 (quoted 1 (quoted 2 (.cons 0 (number 3) (.cons 0 (quoted 2 (number 2)) .null)))) <|
      quoted 2 (number 2)

private def isOk {α : Type} : EStateM.Result Stop Interp α → Bool
  | .ok .. => true
  | .error .. => false

theorem analyze_substitutes_mixture : ∃ expr after,
    analyze (.ofFuel 30) {} mixture workshop = .ok expr after ∧
      ∃ form, Reads (.ofFuel 30) {} .tail .whole 0 mixture workshop form after ∧
        ∀ fuel limit env start, fuel + form.height ≤ limit →
          form.value (embedded fuel env) start ((Engine.ofFuel limit).eval expr env start) := by
  have succeeds : isOk (analyze (.ofFuel 30) {} mixture workshop) = true := by decide +kernel
  cases analyzed : analyze (.ofFuel 30) {} mixture workshop with
  | ok expr after => exact ⟨expr, after, rfl, analyze_substitutes analyzed⟩
  | error stop after =>
      rw [analyzed] at succeeds
      cases succeeds

/-- The template `(1 . [,2])`. -/
private def dotted : Value := .cons 0 (number 1) (.vector 1)

private theorem dotted_analyzed (engine : Engine) (fuel : Nat) :
    expand engine {} (fuel + 4) 0 dotted workshop =
      .ok (.construct .append [.construct .list [.literal (number 1)], .literal (.vector 1)])
        workshop := by
  have element : expandElement engine {} (fuel + 2) 0 (number 1) workshop =
      .ok (.item (.literal (number 1))) workshop := by
    rw [expandElement, get_bind]
    simp only [number, marked?, expand]
    rfl
  have rest : expandRest engine {} (fuel + 2) 0 (.vector 1) workshop =
      .ok ([], some (.literal (.vector 1))) workshop := by
    simp only [expandRest]
    rfl
  rw [dotted, expand_cons rfl, expandList, Eval.bind_of_ok element, Eval.bind_of_ok rest]
  rfl

private theorem eq_of_atom_read {engine : Engine} {context : Context} {tails place : Place}
    {level : Nat} {value : Value} {interp after : Interp} {form : Form}
    (atomic : isAtom value = true)
    (read : Reads engine context tails place level value interp form after) :
    form = .datum value ∧ after = interp := by
  have unmarked {symbol mark argument} :
      marked? interp.words value ≠ some (symbol, mark, argument) := by
    intro found
    obtain ⟨id, car, cdr, rfl⟩ := eq_cons_of_marked? found
    cases atomic
  cases read with
  | atom => exact ⟨rfl, rfl⟩
  | nested _ found | raised _ found | unquote _ found => exact absurd found unmarked
  | cell | splice | vector | tail => cases atomic

/-- Read as a template, the tail of `(1 . [,2])` has a hole. -/
private theorem eq_of_dotted_read {form : Form} {after : Interp}
    (read : Reads (.ofFuel 30) {} .whole .whole 0 dotted workshop form after) :
    form = .cell (.datum (number 1))
      (.vector (.cell (.hole (.literal (number 2))) (.datum .null))) := by
  unfold dotted at read
  cases read with
  | atom atomic => cases atomic
  | nested _ found | unquote _ found | splice _ found => cases found
  | cell _ _ first others =>
      obtain ⟨rfl, rfl⟩ := eq_of_atom_read rfl first
      cases others with
      | atom atomic => cases atomic
      | nested _ found | unquote _ found => cases found
      | vector _ listed inner =>
          cases listed with
          | cons id _ listed =>
              cases listed
              cases inner with
              | atom atomic => cases atomic
              | nested outside | unquote outside => exact absurd rfl outside
              | splice _ found => cases found
              | cell _ _ first others =>
                  obtain ⟨rfl, rfl⟩ := eq_of_atom_read rfl others
                  cases first with
                  | atom atomic => cases atomic
                  | nested _ found => cases found
                  | splice plain | cell plain =>
                      obtain ⟨⟨⟩⟩ | unmarked := plain
                      cases unmarked
                  | unquote _ found analyzed =>
                      cases found
                      cases analyzed
                      rfl

/-- No vector is made for an atom, nor for the list of a literal. -/
private theorem vectors_of_datum {runs : Expr → Course Value} {value made : Value}
    {start after : Interp} (filled : (Form.datum value).value runs start (.ok made after)) :
    after.heap.vectors = start.heap.vectors := by
  obtain ⟨plan, middle, filled, given⟩ := Course.exists_of_bind_ok filled
  obtain ⟨_, _, ⟨count, ⟨⟩⟩, ⟨⟩⟩ := Course.exists_of_bind_ok filled
  cases given
  rfl

private theorem vectors_of_literal {value made : Value} {fuel : Nat} {start after : Interp}
    (filled : (Form.cell (.hole (.literal value)) (.datum .null)).value (embedded (fuel + 1) none)
      start (.ok made after)) : after.heap.vectors = start.heap.vectors := by
  obtain ⟨plan, _, filled, given⟩ := Course.exists_of_bind_ok filled
  obtain ⟨car, _, first, filled⟩ := Course.exists_of_bind_ok filled
  obtain ⟨_, _, filled, ⟨⟩⟩ := Course.exists_of_bind_ok filled
  obtain ⟨_, _, ⟨count, ⟨⟩⟩, ⟨⟩⟩ := Course.exists_of_bind_ok filled
  obtain ⟨_, _, filled, carGiven⟩ := Course.exists_of_bind_ok first
  obtain ⟨_, _, ⟨more, ⟨⟩⟩, filled⟩ := Course.exists_of_bind_ok filled
  obtain ⟨_, _, ⟨limit, enough, ran⟩, ⟨⟩⟩ := Course.exists_of_bind_ok filled
  cases limit with
  | zero => cases enough
  | succ limit =>
      cases ran
      cases carGiven
      cases given
      rfl

/-- A vector that is the tail of a list is no template: of `(1 . [,2])` the value is the list with
the vector that stands there, and not one with a vector of the value of `2`. -/
theorem tail_vector_not_substituted : ∃ expr after,
    analyze (.ofFuel 30) {} dotted workshop = .ok expr after ∧
      ¬ ∃ form, Reads (.ofFuel 30) {} .whole .whole 0 dotted workshop form after ∧
        ∀ fuel limit env start, fuel + form.height ≤ limit →
          form.value (embedded fuel env) start ((Engine.ofFuel limit).eval expr env start) := by
  refine ⟨_, workshop, dotted_analyzed (.ofFuel 30) 25, ?_⟩
  rintro ⟨form, read, built⟩
  cases eq_of_dotted_read read
  have filled := built 1 10 none workshop (by decide)
  obtain ⟨plan, middle, filled, made⟩ := Course.exists_of_bind_ok filled
  obtain ⟨car, _, first, filled⟩ := Course.exists_of_bind_ok filled
  obtain ⟨rest, _, filled, ⟨⟩⟩ := Course.exists_of_bind_ok filled
  obtain ⟨list, before, items, filled⟩ := Course.exists_of_bind_ok filled
  obtain ⟨vector, _, vectorMade, ⟨⟩⟩ := Course.exists_of_bind_ok filled
  have same : before.heap.vectors = workshop.heap.vectors :=
    (vectors_of_literal items).trans (vectors_of_datum first)
  unfold Form.ofItems at vectorMade
  split at vectorMade
  · cases vectorMade
    injection made with value
    injection value with _ _ tail
    injection tail with index
    rw [same] at index
    cases index
  · cases vectorMade

end Sample

end ObjectLisp.Quasi
