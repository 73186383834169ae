import ObjectLisp.Proofs.Evaluation.Fuel
import ObjectLisp.Proofs.Evaluation.Outcome
import ObjectLisp.Proofs.Values.Lists

/-!
# Forms with holes

A template is read as a form with holes: the parts that are computed are found
and analysed, and the rest is kept.  Filling the holes is a plain recursion over
the form, cell by cell.

Lists that are made on the way to a value take identities that the plain
recursion does not need, so filling a form may use up identities wherever a
computed part or an atom comes next.
-/

namespace ObjectLisp

/-- The state after identities were used up. -/
def Interp.skip (interp : Interp) (count : Nat) : Interp :=
  { interp with heap := { interp.heap with nextId := interp.heap.nextId + count } }

theorem Interp.skip_skip (interp : Interp) (count more : Nat) :
    (interp.skip count).skip more = interp.skip (count + more) := by
  simp only [skip, Nat.add_assoc]

/-- The outcomes that a computation may have in a state. -/
def Course (α : Type) : Type := Interp → EStateM.Result Stop Interp α → Prop

namespace Course

variable {α β : Type}

/-- The course of an evaluation: the one outcome that it has. -/
def of (action : Eval α) : Course α := fun interp outcome => outcome = action interp

/-- Identities may be used up. -/
def pause : Course Unit := fun interp outcome => ∃ count, outcome = .ok () (interp.skip count)

instance : Monad Course where
  pure value := fun interp outcome => outcome = .ok value interp
  bind first next := fun interp outcome =>
    (∃ value middle, first interp (.ok value middle) ∧ next value middle outcome) ∨
      ∃ stop middle, first interp (.error stop middle) ∧ outcome = .error stop middle

variable {first : Course α} {next : α → Course β} {interp middle : Interp}
  {outcome : EStateM.Result Stop Interp β}

theorem bind_of_ok {value : α} (ran : first interp (.ok value middle))
    (continued : next value middle outcome) : (first >>= next) interp outcome :=
  .inl ⟨value, middle, ran, continued⟩

theorem bind_of_error {stop : Stop} (stopped : first interp (.error stop middle)) :
    (first >>= next) interp (.error stop middle) :=
  .inr ⟨stop, middle, stopped, rfl⟩

theorem exists_of_bind_ok {value : β} {after : Interp}
    (ran : (first >>= next) interp (.ok value after)) :
    ∃ result middle, first interp (.ok result middle) ∧ next result middle (.ok value after) := by
  obtain continued | ⟨_, _, _, ⟨⟩⟩ := ran
  exact continued

theorem bind_of_imp {start : Interp} (carried : ∀ result, first interp result → first start result)
    (ran : (first >>= next) interp outcome) : (first >>= next) start outcome := by
  obtain ⟨value, middle, ran, continued⟩ | ⟨stop, middle, stopped, rfl⟩ := ran
  · exact bind_of_ok (carried _ ran) continued
  · exact bind_of_error (carried _ stopped)

theorem id_map_eq (course : Course α) : id <$> course = course := by
  funext interp outcome
  refine propext ⟨?_, ?_⟩
  · rintro (⟨value, middle, ran, rfl⟩ | ⟨stop, middle, stopped, rfl⟩)
    · exact ran
    · exact stopped
  · intro ran
    cases outcome with
    | ok value after => exact bind_of_ok ran rfl
    | error stop after => exact bind_of_error ran

theorem pure_bind_eq (value : α) (next : α → Course β) : pure value >>= next = next value := by
  funext interp outcome
  refine propext ⟨?_, bind_of_ok rfl⟩
  rintro (⟨_, _, ⟨⟩, continued⟩ | ⟨_, _, ⟨⟩, _⟩)
  exact continued

theorem bind_bind {γ : Type} (first : Course α) (next : α → Course β) (last : β → Course γ) :
    first >>= next >>= last = first >>= fun value => next value >>= last := by
  funext interp outcome
  refine propext ⟨?_, ?_⟩
  · rintro (⟨_, _, ⟨_, _, ran, continued⟩ | ⟨_, _, _, ⟨⟩⟩, ended⟩ |
      ⟨_, _, ⟨_, _, ran, stopped⟩ | ⟨_, _, stopped, ⟨⟩⟩, rfl⟩)
    · exact bind_of_ok ran (bind_of_ok continued ended)
    · exact bind_of_ok ran (bind_of_error stopped)
    · exact bind_of_error stopped
  · rintro (⟨_, _, ran, ⟨_, _, continued, ended⟩ | ⟨_, _, stopped, rfl⟩⟩ | ⟨_, _, stopped, rfl⟩)
    · exact bind_of_ok (bind_of_ok ran continued) ended
    · exact bind_of_error (bind_of_ok ran stopped)
    · exact bind_of_error (bind_of_error stopped)

instance : LawfulMonad Course := LawfulMonad.mk' Course id_map_eq pure_bind_eq bind_bind

/-- The course of a sequence is the sequence of the courses. -/
theorem of_bind (action : Eval α) (continuation : α → Eval β) :
    of (action >>= continuation) = of action >>= fun value => of (continuation value) := by
  funext interp outcome
  refine propext ⟨?_, ?_⟩
  · rintro rfl
    cases ran : action interp with
    | ok value middle => exact bind_of_ok ran.symm (Eval.bind_of_ok ran)
    | error stop middle =>
        rw [Eval.bind_of_error ran]
        exact bind_of_error ran.symm
  · rintro (⟨value, middle, ran, rfl⟩ | ⟨stop, middle, stopped, rfl⟩)
    · exact (Eval.bind_of_ok ran.symm).symm
    · exact (Eval.bind_of_error stopped.symm).symm

theorem pause_of_skip {count : Nat} (result : EStateM.Result Stop Interp Unit)
    (paused : pause (interp.skip count) result) : pause interp result := by
  obtain ⟨more, rfl⟩ := paused
  rw [Interp.skip_skip]
  exact ⟨_, rfl⟩

/-- The course may go as an outcome says, with a value that is related to the one there. -/
def Tracks {α γ : Type} (course : Course γ) (related : α → γ → Prop) (start : Interp) :
    EStateM.Result Stop Interp α → Prop
  | .ok value after => ∃ result, related value result ∧ course start (.ok result after)
  | .error stop after => course start (.error stop after)

section Tracks

variable {γ δ : Type} {course : Course γ} {rest : γ → Course δ} {related : α → γ → Prop}
  {further : β → δ → Prop} {start : Interp}

theorem tracks_eq_iff {outcome : EStateM.Result Stop Interp γ} :
    course.Tracks Eq start outcome ↔ course start outcome := by
  cases outcome with
  | error => rfl
  | ok value after =>
      constructor
      · rintro ⟨_, rfl, ran⟩
        exact ran
      · intro ran
        exact ⟨value, rfl, ran⟩

theorem tracks_of (action : Eval γ) : (of action).Tracks Eq start (action start) :=
  tracks_eq_iff.mpr rfl

theorem tracks_pure {value : α} {result : γ} (fits : related value result) :
    (pure result : Course γ).Tracks related start (.ok value start) :=
  ⟨result, fits, rfl⟩

/-- A course that tracks the parts of a sequence tracks the sequence. -/
theorem Tracks.bind {action : Eval α} {continuation : α → Eval β}
    (tracked : course.Tracks related start (action start))
    (continued : ∀ value result middle, related value result →
      (rest result).Tracks further middle (continuation value middle)) :
    (course >>= rest).Tracks further start ((action >>= continuation) start) := by
  cases ran : action start with
  | error stop after =>
      rw [ran] at tracked
      rw [Eval.bind_of_error ran]
      exact bind_of_error tracked
  | ok value middle =>
      rw [ran] at tracked
      rw [Eval.bind_of_ok ran]
      obtain ⟨result, fits, tracked⟩ := tracked
      have next := continued value result middle fits
      cases ended : continuation value middle with
      | error stop after =>
          rw [ended] at next
          exact bind_of_ok tracked next
      | ok final after =>
          rw [ended] at next
          obtain ⟨last, fits, next⟩ := next
          exact ⟨last, fits, bind_of_ok tracked next⟩

theorem Tracks.of_imp {other : Course γ} {middle : Interp}
    {outcome : EStateM.Result Stop Interp α} (tracked : course.Tracks related middle outcome)
    (carried : ∀ ended, course middle ended → other start ended) :
    other.Tracks related start outcome := by
  cases outcome with
  | error stop after => exact carried _ tracked
  | ok value after =>
      obtain ⟨result, fits, tracked⟩ := tracked
      exact ⟨result, fits, carried _ tracked⟩

theorem Tracks.pause {next : Unit → Course γ} {outcome : EStateM.Result Stop Interp α}
    (count : Nat) (tracked : (next ()).Tracks related (start.skip count) outcome) :
    (pause >>= next).Tracks related start outcome :=
  tracked.of_imp fun _ => bind_of_ok ⟨count, rfl⟩

theorem Tracks.map {action : Eval α} {function : α → β} {other : β → γ → Prop}
    (tracked : course.Tracks related start (action start))
    (fits : ∀ value result, related value result → other (function value) result) :
    course.Tracks other start ((do return function (← action)) start) := by
  cases ran : action start with
  | error stop after =>
      rw [ran] at tracked
      rwa [Eval.bind_of_error ran]
  | ok value after =>
      rw [ran] at tracked
      rw [Eval.bind_of_ok ran]
      obtain ⟨result, related, tracked⟩ := tracked
      exact ⟨result, fits value result related, tracked⟩

theorem Tracks.map_result {outcome : EStateM.Result Stop Interp α} {function : γ → δ}
    {other : α → δ → Prop} (tracked : course.Tracks related start outcome)
    (fits : ∀ value result, related value result → other value (function result)) :
    (course >>= fun result => pure (function result)).Tracks other start outcome := by
  cases outcome with
  | error stop after => exact bind_of_error tracked
  | ok value after =>
      obtain ⟨result, related, tracked⟩ := tracked
      exact ⟨function result, fits value result related, bind_of_ok tracked rfl⟩

end Tracks

end Course

/-- A new list takes identities and nothing else. -/
theorem Eval.listWithTail_eq_ok (items : List Value) (tail : Value) (interp : Interp) :
    ∃ list, Value.Lists tail items list ∧
      listWithTail items tail interp = .ok list (interp.skip items.length) := by
  refine ⟨_, interp.heap.lists_listWithTail items tail, ?_⟩
  have made : listWithTail items tail interp = .ok (interp.heap.listWithTail items tail).1
      { interp with heap := (interp.heap.listWithTail items tail).2 } := rfl
  rw [made, Heap.listWithTail_snd]
  rfl

theorem Heap.consReversed_append (heap : Heap) (tail : Value) (items more : List Value) :
    heap.consReversed tail (items ++ more) =
      (heap.consReversed tail items).2.consReversed (heap.consReversed tail items).1 more := by
  induction items generalizing heap tail with
  | nil => rfl
  | cons item items ih => exact ih _ _

/-- The end of a list is made before its beginning. -/
theorem Eval.listWithTail_append (items more : List Value) (tail : Value) :
    listWithTail (items ++ more) tail = listWithTail more tail >>= listWithTail items := by
  funext interp
  have made : listWithTail (items ++ more) tail interp =
      .ok (interp.heap.listWithTail (items ++ more) tail).1
        { interp with heap := (interp.heap.listWithTail (items ++ more) tail).2 } := rfl
  rw [made, Heap.listWithTail, List.reverse_append, Heap.consReversed_append]
  rfl

namespace Quasi

/-! ## Forms with holes -/

/-- What a template is read as. -/
inductive Form where
  /-- A value that stands for itself. -/
  | datum (value : Value)
  /-- The value of an expression. -/
  | hole (expr : Expr)
  /-- A marked form that is kept. -/
  | kept (symbol : SymbolId) (argument : Form)
  | cell (car cdr : Form)
  /-- The elements of the value of an expression, in front of the rest. -/
  | splice (expr : Expr) (rest : Form)
  /-- A vector of the elements of a list. -/
  | vector (items : Form)

/-- Where a template stands. -/
inductive Place where
  /-- By itself. -/
  | whole
  /-- As the list of the elements of a vector, which is no marked form. -/
  | items
  /-- As the tail of a list. -/
  | tail
deriving DecidableEq

/-- Does the value stand for itself wherever it is? -/
def isAtom : Value → Bool
  | .cons .. | .vector _ => false
  | _ => true

/-- A template is read as a form: the parts that are computed are analysed from left to right.
`tails` is the place at which the tails of lists are read. -/
inductive Reads (engine : Engine) (context : Context) (tails : Place) :
    Place → (level : Nat) → Value → Interp → Form → Interp → Prop where
  | atom {place : Place} {level : Nat} {value : Value} {interp : Interp}
      (atomic : isAtom value = true) :
      Reads engine context tails place level value interp (.datum value) interp
  /-- A template inside the template is one level further down. -/
  | nested {place : Place} {level : Nat} {template argument : Value} {interp after : Interp}
      {symbol : SymbolId} {form : Form} (outside : place ≠ .items)
      (found : marked? interp.words template = some (symbol, .nested, argument))
      (inner : Reads engine context tails .whole (level + 1) argument interp form after) :
      Reads engine context tails place level template interp (.kept symbol form) after
  /-- An unquote inside of such a template goes one level up. -/
  | raised {place : Place} {level : Nat} {template argument : Value} {interp after : Interp}
      {symbol : SymbolId} {mark : Mark} {form : Form} (outside : place ≠ .items)
      (found : marked? interp.words template = some (symbol, mark, argument))
      (other : mark ≠ .nested)
      (inner : Reads engine context tails .whole level argument interp form after) :
      Reads engine context tails place (level + 1) template interp (.kept symbol form) after
  | unquote {place : Place} {template argument : Value} {interp after : Interp}
      {symbol : SymbolId} {expr : Expr} (outside : place ≠ .items)
      (found : marked? interp.words template = some (symbol, .unquote, argument))
      (analyzed : engine.analyze argument context interp = .ok expr after) :
      Reads engine context tails place 0 template interp (.hole expr) after
  | cell {place : Place} {level : Nat} {id : Identity} {car cdr : Value}
      {interp middle after : Interp} {head rest : Form}
      (plain : place = .items ∨ marked? interp.words (.cons id car cdr) = none)
      (whole : ∀ symbol argument,
        marked? interp.words car = some (symbol, .splice, argument) → level ≠ 0)
      (first : Reads engine context tails .whole level car interp head middle)
      (others : Reads engine context tails tails level cdr middle rest after) :
      Reads engine context tails place level (.cons id car cdr) interp (.cell head rest) after
  | splice {place : Place} {id : Identity} {car cdr argument : Value}
      {interp middle after : Interp} {symbol : SymbolId} {expr : Expr} {rest : Form}
      (plain : place = .items ∨ marked? interp.words (.cons id car cdr) = none)
      (found : marked? interp.words car = some (symbol, .splice, argument))
      (analyzed : engine.analyze argument context interp = .ok expr middle)
      (others : Reads engine context tails tails 0 cdr middle rest after) :
      Reads engine context tails place 0 (.cons id car cdr) interp (.splice expr rest) after
  /-- A vector is read like the list of its elements. -/
  | vector {place : Place} {level index : Nat} {list : Value} {interp after : Interp}
      {form : Form} (inside : place ≠ .tail)
      (listed : Value.Lists .null (interp.heap.items index).toList list)
      (inner : Reads engine context tails .items level list
        (interp.skip (interp.heap.items index).size) form after) :
      Reads engine context tails place level (.vector index) interp (.vector form) after
  /-- A vector that is the tail of a list stands for itself. -/
  | tail {level index : Nat} {interp : Interp} :
      Reads engine context tails .tail level (.vector index) interp (.datum (.vector index)) interp

namespace Form

/-- A bound on how much deeper than its computed parts the expression for a form is nested. -/
def height : Form → Nat
  | .datum _ => 1
  | .hole _ => 0
  | .kept _ argument => argument.height + 2
  | .cell car cdr => max (car.height + 2) (cdr.height + 1)
  | .splice _ rest => rest.height + 2
  | .vector items => items.height + 1

/-- A list that is to be made: its elements and its tail, or else the first value whose elements it
should have and that is no list. -/
abbrev Plan := Except Value (List Value × Value)

/-- Elements in front of the rest of a list. -/
def Plan.before (items : List Value) : Plan → Plan
  | .ok (more, tail) => .ok (items ++ more, tail)
  | .error fault => .error fault

/-- The elements of a value in front of the rest of a list. -/
def Plan.splice (value : Value) (rest : Plan) : Plan :=
  match value.toList? with
  | some items => before items rest
  | none => .error value

/-- Make a list.  Something else takes the place of a list without elements. -/
def Plan.make : Plan → Eval Value
  | .ok (items, tail) => Eval.listWithTail items tail
  | .error fault => Eval.typeError "list" fault

theorem Plan.make_before (items : List Value) (plan : Plan) :
    (plan.before items).make = plan.make >>= Eval.listWithTail items := by
  cases plan with
  | error fault => rfl
  | ok list => exact Eval.listWithTail_append items list.1 list.2

/-- A vector of the elements of a list. -/
def ofItems (list : Value) : Eval Value :=
  match list.toList? with
  | some items => Eval.vector items
  | none => Eval.typeError "list" list

/-- Fill the holes of a form from left to right.  The elements of a list are all computed before
the list is made, so it remains to be made. -/
def fill (runs : Expr → Course Value) : Form → Course Plan
  | .datum value => do
      Course.pause
      return .ok ([], value)
  | .hole expr => do
      Course.pause
      return .ok ([], ← runs expr)
  | .kept symbol argument => do
      let argument ← argument.fill runs >>= fun plan => Course.of plan.make
      return .ok ([], ← Course.of (Eval.list [.symbol symbol, argument]))
  | .cell car cdr => do
      let car ← car.fill runs >>= fun plan => Course.of plan.make
      return (← cdr.fill runs).before [car]
  | .splice expr rest => do
      Course.pause
      let value ← runs expr
      return (← rest.fill runs).splice value
  | .vector items => do
      let list ← items.fill runs >>= fun plan => Course.of plan.make
      return .ok ([], ← Course.of (ofItems list))

/-- The value of a form. -/
def value (runs : Expr → Course Value) (form : Form) : Course Value :=
  form.fill runs >>= fun plan => Course.of plan.make

/-- A cell is made of the values of its parts, although its list is made as a whole. -/
theorem value_cell (runs : Expr → Course Value) (car cdr : Form) :
    (cell car cdr).value runs = car.value runs >>= fun first => cdr.value runs >>= fun rest =>
      Course.of (Eval.listWithTail [first] rest) := by
  simp only [value, fill, bind_assoc, pure_bind, Plan.make_before, Course.of_bind]

end Form

/-- The evaluation of expressions in a frame with no less than an amount of fuel. -/
def embedded (fuel : Nat) (env : Option FrameId) (expr : Expr) : Course Value :=
  fun interp outcome => ∃ limit, fuel ≤ limit ∧ outcome = (Engine.ofFuel limit).eval expr env interp

/-- Where the amount of fuel is enough, there is only one outcome. -/
theorem embedded_iff_of_ended {fuel : Nat} {env : Option FrameId} {expr : Expr} {interp : Interp}
    (ended : Eval.Ended ((Engine.ofFuel fuel).eval expr env interp))
    (outcome : EStateM.Result Stop Interp Value) :
    embedded fuel env expr interp outcome ↔
      outcome = (Engine.ofFuel fuel).eval expr env interp := by
  constructor
  · rintro ⟨limit, enough, rfl⟩
    exact @Command.run_of_le (.eval expr env) interp fuel limit ended enough
  · rintro rfl
    exact ⟨fuel, Nat.le_refl fuel, rfl⟩

end Quasi

end ObjectLisp
