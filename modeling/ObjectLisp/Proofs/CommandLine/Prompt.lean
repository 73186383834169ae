import ObjectLisp.CommandLine
import ObjectLisp.Proofs.Evaluation.Commands
import ObjectLisp.Proofs.Reading.Rereading

/-!
# The check of the prompt

Before it evaluates its lines the prompt reads them all, to see whether they end
inside a datum.  Evaluation then reads them again, form by form.  What the check
reads is dropped, but the symbols that it interned stay.

So the check goes unnoticed where evaluation would have interned the same symbols
before it runs the first form.  That is so if there is one form only, or if the
other forms mention nothing new.  A form that makes a package or enters one changes
how the forms behind it are read, which the check does not know yet.
-/

namespace ObjectLisp

variable {interp : Interp} {text : String}

/-! ## Reading -/

namespace Reader

theorem readAtMost_leads (table : ReadTable) (package : PackageId) (file : String)
    (bound : Nat) (symbols : SymbolStore) (line : Nat) (text : List Char) :
    symbols.Leads (readAtMost table package file bound symbols line text).symbols := by
  induction bound generalizing symbols line text with
  | zero => exact .refl
  | succ bound ih =>
      have first := next_leads table package symbols line text
      unfold readAtMost
      cases outcome : next table package symbols line text with
      | datum datum rest line symbols =>
          rw [outcome] at first
          exact first.trans (ih symbols line rest)
      | finished line symbols =>
          rw [outcome] at first
          exact first
      | failed problem line symbols =>
          rw [outcome] at first
          exact first

end Reader

namespace Interp

/-- The reading of a text in the current package. -/
def reading (interp : Interp) (text : String) : Reader.Reading :=
  Reader.readAll interp.table interp.package interp.config.sourceName interp.symbols text

/-- The reading of the first datum of a text in the current package. -/
def firstReading (interp : Interp) (text : String) : Reader.Outcome :=
  Reader.next interp.table interp.package interp.symbols 1 text.toList

theorem reading_leads (interp : Interp) (text : String) :
    interp.symbols.Leads (interp.reading text).symbols :=
  Reader.readAtMost_leads _ _ _ _ _ _ _

/-- The text is complete, and it has one datum at most or no new symbols but those of its first
datum. -/
structure Foresees (interp : Interp) (text : String) : Prop where
  complete : (interp.reading text).error? = none
  early : (interp.reading text).data.length ≤ 1 ∨
    (interp.reading text).symbols = (interp.firstReading text).symbols

theorem Foresees.symbols_eq (foresees : interp.Foresees text) :
    (interp.reading text).symbols = (interp.firstReading text).symbols := by
  rcases foresees.early with short | known
  · exact Reader.readAll_symbols_of_short _ _ foresees.complete short
  · exact known

theorem Placed.receives (placed : interp.Placed)
    (apart : ∀ package, PackageId.keyword ∉ interp.symbols.inherited package) :
    interp.symbols.Receives interp.package :=
  ⟨placed.current, Nat.lt_trans (by decide) placed.first, apart⟩

end Interp

/-! ## Evaluation -/

/-- The forms of a text are evaluated in the same way if the first one is read in the same way. -/
theorem Source.evalForms_congr (engine : Engine) (file : String) (bound line : Nat)
    (chars : List Char) (last : Value) {symbols : SymbolStore}
    (same : Reader.next interp.table interp.package symbols line chars =
      Reader.next interp.table interp.package interp.symbols line chars) :
    evalForms engine file (bound + 1) line chars last { interp with symbols } =
      evalForms engine file (bound + 1) line chars last interp := by
  simp only [evalForms, same]

namespace Session

/-- Evaluation does not notice symbols that it is about to intern. -/
theorem eval_of_known (receives : interp.symbols.Receives interp.package) (text : String) :
    eval text { interp with symbols := (interp.firstReading text).symbols } =
      eval text interp :=
  Source.evalForms_congr engine interp.config.sourceName text.toList.length 1 text.toList .null
    (Reader.next_again interp.table interp.package receives 1 text.toList)

theorem placed_eval (placed : interp.Placed) (text : String) :
    (Eval.final (eval text interp)).Placed :=
  (Discipline.placing_lawful.outcome (fun _ _ engines =>
    Source.evalText_sound engines interp.config.sourceName text placed) Engine.ample).step.1

theorem placed_define (placed : interp.Placed) (name : String) (value : Value) :
    (Eval.final (define name value interp)).Placed := by
  have := Discipline.placing_lawful.regime
  have defined : Discipline.placing.regime.Keeps (define name value) (fun _ _ => True) interp :=
    .bind (Eval.intern_keeps placed name) fun symbol _ step _ =>
      .bind (Analysis.checkAssignable_keeps step.1 symbol) fun _ _ step _ =>
        .bind (Evaluate.setGlobal_keeps step.1 trivial trivial) fun _ _ step _ =>
          .pure step.1 trivial
  exact defined.ends.step.1

end Session

/-! ## Lines -/

namespace CommandLine

theorem remember_eq (interp : Interp) (name : String) (value : Value) :
    remember interp name value = Eval.final (Session.define name value interp) := by
  unfold remember
  cases Session.define name value interp <;> rfl

theorem placed_remember (placed : interp.Placed) (name : String) (value : Value) :
    (remember interp name value).Placed := by
  rw [remember_eq]
  exact Session.placed_define placed name value

theorem placed_keepValue (placed : interp.Placed) (value : Value) :
    (keepValue interp value).Placed := by
  unfold keepValue
  have first := placed_remember placed "*1*" value
  have second := placed_remember first "*2*" (valueNamed interp "*1*")
  exact placed_remember second "*3*" (valueNamed interp "*2*")

theorem evalPending_of_ok {value : Value} {after : Interp}
    (ran : Session.eval text interp = .ok value after) :
    evalPending interp text =
      (⟨keepValue { after with output := "" } value, ""⟩,
        after.output ++ Interp.print { after with output := "" } true value ++ "\n") := by
  simp only [evalPending, ran, takeOutput]

theorem evalPending_of_error {stop : Stop} {after : Interp}
    (ran : Session.eval text interp = .error stop after) :
    evalPending interp text =
      (⟨{ after with output := "" }, ""⟩,
        after.output ++ report { after with output := "" } stop) := by
  simp only [evalPending, ran, takeOutput]

theorem placed_evalPending (placed : interp.Placed) (text : String) :
    (evalPending interp text).1.interp.Placed := by
  have evaluated := Session.placed_eval placed text
  cases ran : Session.eval text interp with
  | ok value after =>
      rw [ran] at evaluated
      have taken : Interp.Placed { after with output := "" } := evaluated.of_same rfl rfl
      rw [evalPending_of_ok ran]
      dsimp only
      exact placed_keepValue taken value
  | error stop after =>
      rw [ran] at evaluated
      rw [evalPending_of_error ran]
      exact evaluated.of_same rfl rfl

namespace Loop

variable {state : Loop} {line : String}

/-- The lines so far with one more. -/
def gathered (state : Loop) (line : String) : String := state.pending ++ line ++ "\n"

/-- The interpreter after the check. -/
def checked (state : Loop) (line : String) : Interp :=
  { state.interp with symbols := (state.interp.reading (state.gathered line)).symbols }

theorem placed_checked (placed : state.interp.Placed) (line : String) :
    (state.checked line).Placed :=
  placed.grow (state.interp.reading_leads _).size_le (.inl rfl)

theorem addLine_of_complete
    (complete : (state.interp.reading (state.gathered line)).error? = none) :
    state.addLine line = evalPending (state.checked line) (state.gathered line) := by
  have read : Session.readData (state.gathered line) state.interp =
      .ok (state.interp.reading (state.gathered line)).data (state.checked line) := by
    unfold Interp.reading at complete
    simp only [Session.readData, complete]
    rfl
  unfold addLine
  unfold gathered at read
  simp only [read]
  rfl

theorem addLine_of_problem {error : SyntaxError}
    (problem : (state.interp.reading (state.gathered line)).error? = some error) :
    (state.addLine line).1.interp = state.checked line := by
  have read : Session.readData (state.gathered line) state.interp =
      .error (.failure { cause := .unreadable error }) (state.checked line) := by
    unfold Interp.reading at problem
    simp only [Session.readData, problem]
    rfl
  unfold addLine
  unfold gathered at read
  simp only [read]
  split <;> rfl

theorem placed_addLine (placed : state.interp.Placed) (line : String) :
    (state.addLine line).1.interp.Placed := by
  have stillPlaced := placed_checked placed line
  cases problem : (state.interp.reading (state.gathered line)).error? with
  | none =>
      rw [addLine_of_complete problem]
      exact placed_evalPending stillPlaced _
  | some error =>
      rw [addLine_of_problem problem]
      exact stillPlaced

/-- The states of a prompt on a new interpreter. -/
inductive Visited (config : Config) (symbols : SymbolStore) : Loop → Prop where
  | start : Visited config symbols (Loop.start (.start config symbols))
  | line {state : Loop} (visited : Visited config symbols state) (line : String) :
      Visited config symbols (state.addLine line).1

theorem Visited.placed {config : Config} {symbols : SymbolStore} (reachable : symbols.Reachable)
    (visited : Visited config symbols state) : state.interp.Placed := by
  induction visited with
  | start =>
      have first := placed_remember (Interp.placed_start reachable config) "*1*" .null
      have second := placed_remember first "*2*" .null
      unfold Loop.start
      dsimp only
      exact placed_remember second "*3*" .null
  | line visited line placed => exact placed_addLine placed line

/-- What the check learned, evaluation would have learned before it runs the first form. -/
theorem addLine_of_foresees (placed : state.interp.Placed)
    (apart : ∀ package, PackageId.keyword ∉ state.interp.symbols.inherited package)
    (foresees : state.interp.Foresees (state.gathered line)) :
    state.addLine line = evalPending state.interp (state.gathered line) := by
  have same : Session.eval (state.gathered line) (state.checked line) =
      Session.eval (state.gathered line) state.interp := by
    unfold checked
    rw [foresees.symbols_eq]
    exact Session.eval_of_known (placed.receives apart) (state.gathered line)
  rw [addLine_of_complete foresees.complete]
  unfold evalPending
  rw [same]

/-- The check goes unnoticed.  Every state of a prompt is in a package that exists.  If besides no
package inherits the keywords, and the lines are complete and have one datum or bring no new symbols
behind the first one, then the prompt does with them what evaluation alone does.  It prints the
value and leaves the same interpreter, in which only the last values are kept.  If the evaluation
fails, it prints the report and leaves the same interpreter. -/
theorem check_unnoticed (state : Loop) (line : String) :
    (∀ config symbols, SymbolStore.Reachable symbols → Visited config symbols state →
      state.interp.Placed) ∧
    (state.interp.Placed →
      (∀ package, PackageId.keyword ∉ state.interp.symbols.inherited package) →
      state.interp.Foresees (state.gathered line) →
      (∀ value after, Session.eval (state.gathered line) state.interp = .ok value after →
        state.addLine line =
          (⟨keepValue { after with output := "" } value, ""⟩,
            after.output ++ Interp.print { after with output := "" } true value ++ "\n")) ∧
      ∀ stop after, Session.eval (state.gathered line) state.interp = .error stop after →
        state.addLine line =
          (⟨{ after with output := "" }, ""⟩,
            after.output ++ report { after with output := "" } stop)) := by
  constructor
  · intro config symbols reachable visited
    exact visited.placed reachable
  · intro placed apart foresees
    have unnoticed := addLine_of_foresees placed apart foresees
    constructor
    · intro value after ran
      exact unnoticed.trans (evalPending_of_ok ran)
    · intro stop after ran
      exact unnoticed.trans (evalPending_of_error ran)

/-! The check is not noticed on a form of two lines.  It is noticed on three other lines. -/

/-- An interpreter that knows the words of the language and two functions. -/
private def supplied : Interp :=
  Interp.defineAll
    { words := (Vocabulary.install .initial).1
      symbols := (Vocabulary.install .initial).2
      package := PackageId.user }
    [("make-package", .primitive .makePackage), ("find-symbol", .primitive .findSymbol)]

/-- The text of the value that evaluation alone gives. -/
private def printedAlone (interp : Interp) (text : String) : Option String :=
  match Session.eval text interp with
  | .ok value after => some (Interp.print { after with output := "" } true value)
  | .error .. => none

private theorem supplied_facts :
    PackageId.user < supplied.symbols.packages.size ∧
      supplied.package < supplied.symbols.packages.size ∧
      (supplied.reading "(make-package\n\"p\")\n").error?.isNone = true ∧
      (supplied.reading "(make-package\n\"p\")\n").data.length = 1 ∧
      (printedAlone supplied "(make-package\n\"p\")\n").isSome = true := by
  decide +kernel

private theorem supplied_arranged : SymbolStore.initial.SameArrangement supplied.symbols := by
  unfold SymbolStore.SameArrangement
  decide +kernel

theorem check_unnoticed_on_two_lines :
    supplied.Foresees "(make-package\n\"p\")\n" ∧
      ∃ value after, Session.eval "(make-package\n\"p\")\n" supplied = .ok value after ∧
        Loop.addLine ⟨supplied, "(make-package\n"⟩ "\"p\")" =
          (⟨keepValue { after with output := "" } value, ""⟩,
            after.output ++ Interp.print { after with output := "" } true value ++ "\n") := by
  obtain ⟨first, current, complete, single, succeeds⟩ := supplied_facts
  have foresees : supplied.Foresees "(make-package\n\"p\")\n" :=
    ⟨Option.isNone_iff_eq_none.mp complete, .inl (Nat.le_of_eq single)⟩
  have apart : ∀ package, PackageId.keyword ∉ supplied.symbols.inherited package := by
    intro package
    rw [supplied_arranged.inherited_eq]
    exact SymbolStore.keyword_not_mem_inherited package
  refine ⟨foresees, ?_⟩
  cases ran : Session.eval "(make-package\n\"p\")\n" supplied with
  | error stop after =>
      unfold printedAlone at succeeds
      rw [ran] at succeeds
      cases succeeds
  | ok value after =>
      exact ⟨value, after, rfl, ((check_unnoticed ⟨supplied, "(make-package\n"⟩ "\"p\")").2
        ⟨first, current⟩ apart foresees).1 value after ran⟩

/-- Besides, the package `user` inherits the keywords and the exported symbol of a package `q`. -/
private def inheriting : Interp :=
  { supplied with
    symbols := (((supplied.symbols.addPackage "q").2.exportName 3 "foo").2.usePackage
      PackageId.user PackageId.keyword).usePackage PackageId.user 3 }

/-- The check does not know a package that the lines make, it interns a symbol before the lines look
for it, and it makes a keyword that hides a symbol if the keywords are inherited. -/
theorem check_noticed :
    (printedAlone supplied "(make-package \"p\") 'p@x\n" = some "p@x" ∧
      (Loop.addLine ⟨supplied, ""⟩ "(make-package \"p\") 'p@x").2 =
        "error: <eval>:1: unknown package 'p'\n") ∧
    (printedAlone supplied "(def a (find-symbol \"w\")) (def b 'w) a\n" = some "null" ∧
      (Loop.addLine ⟨supplied, ""⟩ "(def a (find-symbol \"w\")) (def b 'w) a").2 = "w\n") ∧
    printedAlone inheriting "'(foo :foo)\n" = some "(q@foo :foo)" ∧
      (Loop.addLine ⟨inheriting, ""⟩ "'(foo :foo)").2 = "(:foo :foo)\n" := by
  decide +kernel

end Loop

end CommandLine

end ObjectLisp
