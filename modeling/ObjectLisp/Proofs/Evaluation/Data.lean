import ObjectLisp.Proofs.Evaluation.Regime

/-!
# Actions on data

Making and taking apart data, and the built-in functions on lists, vectors,
texts, symbols and packages.  None of them calls back into evaluation.  They give
values that were given to them, that the state held, or that they made of such
values.
-/

namespace ObjectLisp

open Regime

theorem Library.ensurePackage_leads (name : String) (symbols : SymbolStore) :
    symbols.Leads (ensurePackage name symbols).2 := by
  unfold ensurePackage
  split
  · exact .refl
  · have made : symbols.Step (symbols.addPackage name).2 := .addPackage symbols name
    exact .head made (.single (.usePackage _ _ _))

variable {regime : Regime} [lawful : regime.Lawful] {interp : Interp}
  (good : regime.Good interp)

include good

/-! ## The heap -/

namespace Eval

theorem heap_keeps {action : Heap → Value × Heap}
    (moves : regime.Move interp { interp with heap := (action interp.heap).2 })
    (fit : regime.Fit interp (action interp.heap).1) :
    regime.Keeps (heap action) regime.Fit interp := by
  have step := lawful.move good moves
  exact .ok step (step.fit fit)

theorem cons_keeps {car cdr : Value} (carFits : regime.Fit interp car)
    (cdrFits : regime.Fit interp cdr) : regime.Keeps (cons car cdr) regime.Fit interp :=
  heap_keeps good (.heap_of_eq rfl rfl rfl rfl) (lawful.fit_cons.mpr ⟨carFits, cdrFits⟩)

theorem str_keeps (text : String) : regime.Keeps (str text) regime.Fit interp :=
  heap_keeps good (.heap_of_eq rfl rfl rfl rfl) (lawful.fit_atom rfl)

theorem listWithTail_keeps {items : List Value} {tail : Value}
    (itemsFit : ∀ item ∈ items, regime.Fit interp item) (tailFits : regime.Fit interp tail) :
    regime.Keeps (listWithTail items tail) regime.Fit interp := by
  have cell : ∀ id car cdr, regime.Fit interp car → regime.Fit interp cdr →
      regime.Fit interp (.cons id car cdr) :=
    fun _ _ _ carFits cdrFits => lawful.fit_cons.mpr ⟨carFits, cdrFits⟩
  have moves : regime.Move interp
      { interp with heap := (interp.heap.listWithTail items tail).2 } := by
    rw [Heap.listWithTail_snd]
    exact .heap_of_eq rfl rfl rfl rfl
  exact heap_keeps good moves (Heap.listWithTail_fst cell tailFits itemsFit)

theorem list_keeps {items : List Value} (itemsFit : ∀ item ∈ items, regime.Fit interp item) :
    regime.Keeps (list items) regime.Fit interp :=
  listWithTail_keeps good itemsFit (lawful.fit_atom rfl)

theorem vector_keeps {items : List Value} (itemsFit : ∀ item ∈ items, regime.Fit interp item) :
    regime.Keeps (vector items) regime.Fit interp := by
  refine heap_keeps good (.heap rfl rfl fun value holds => ?_) (lawful.fit_atom rfl)
  exact (Heap.holds_newVector holds).imp_right fun member => itemsFit value (by simpa using member)

theorem newContinuation_keeps {next : Continuation Value}
    (fits : ∀ value, next.Holds value → regime.Fit interp value) :
    regime.Keeps (heap (·.newContinuation next)) regime.Fit interp :=
  heap_keeps good (.heap rfl rfl fun value holds =>
    (Heap.holds_newContinuation holds).imp_right (fits value)) (lawful.fit_atom rfl)

/-- What an instance has stored fits. -/
theorem instance_keeps (index : Nat) :
    regime.Keeps (instance_ index)
      (fun after found => (∀ value ∈ found.slots.values, regime.Fit after value) ∧
        regime.Fit after (.class_ found.membership.nominal) ∧
        found = after.heap.objects.getD index default) interp := by
  refine .ok (.refl good) ⟨?_, lawful.fit_nominal index good, rfl⟩
  intro value stored
  rw [Array.getD_eq_getD_getElem?] at stored
  cases found : interp.heap.objects[index]? with
  | none =>
      rw [found] at stored
      cases stored
  | some object =>
      rw [found] at stored
      exact lawful.fit_held good (.heap (.slot (Array.mem_of_getElem? found) stored))

theorem fit_item {index : Nat} {value : Value} (member : value ∈ interp.heap.items index) :
    regime.Fit interp value :=
  lawful.fit_held good (.heap (.item member))

/-! ## Symbols and output -/

theorem nameOf_keeps (symbol : SymbolId) :
    regime.Keeps (nameOf symbol) (fun _ _ => True) interp :=
  .ok (.refl good) trivial

theorem intern_keeps (name : String) :
    regime.Keeps (intern name) (fun after symbol => regime.Fit after (.symbol symbol)) interp := by
  unfold Keeps Carries intern
  split
  · next interned =>
      have step := lawful.move good (.symbols (.single (.intern interned)))
      exact .ok step (lawful.fit_symbol good step fun coherent => coherent.lt_count_intern interned)
  · exact .failure _ (.refl good)

theorem unbound_keeps {α : Type} {fits : Interp → α → Prop} (symbol : SymbolId) :
    regime.Keeps (unbound symbol : Eval α) fits interp :=
  .bind (nameOf_keeps good symbol) fun _ _ step _ => .fail step.1 _

theorem print_keeps (escape : Bool) (value : Value) :
    regime.Keeps (print escape value) (fun _ _ => True) interp :=
  .ok (.refl good) trivial

theorem write_keeps (text : String) : regime.Keeps (write text) (fun _ _ => True) interp :=
  .move good (.output _)

end Eval

/-! ## Arguments of built-in functions -/

namespace Argument

theorem list_keeps {value : Value} (fit : regime.Fit interp value) :
    regime.Keeps (list value) (fun after items => ∀ item ∈ items, regime.Fit after item)
      interp := by
  unfold list
  split
  · next items listed => exact .pure good (fitAll_of_toList? fit listed)
  · exact .typeError good _ _

theorem index_keeps (value : Value) : regime.Keeps (index value) (fun _ _ => True) interp := by
  unfold index
  split
  · exact .ite (.pure good trivial) (.typeError good _ _)
  · exact .typeError good _ _

theorem text_keeps (value : Value) : regime.Keeps (text value) (fun _ _ => True) interp := by
  unfold text
  split
  · exact .pure good trivial
  · exact .typeError good _ _

theorem symbol_keeps (value : Value) : regime.Keeps (symbol value) (fun _ _ => True) interp := by
  unfold symbol
  split
  · exact .pure good trivial
  · exact .typeError good _ _

theorem class_keeps {value : Value} (fit : regime.Fit interp value) :
    regime.Keeps (class_ value) (fun after id => regime.Fit after (.class_ id)) interp := by
  unfold class_
  split
  · exact .pure good fit
  · exact .typeError good _ _

theorem vector_keeps (value : Value) : regime.Keeps (vector value) (fun _ _ => True) interp := by
  unfold vector
  split
  · exact .pure good trivial
  · exact .typeError good _ _

theorem name_keeps (value : Value) : regime.Keeps (name value) (fun _ _ => True) interp := by
  unfold name
  split
  · exact .pure good trivial
  · exact Eval.nameOf_keeps good _
  · exact .typeError good _ _

end Argument

namespace Library

/-! ## Lists and vectors -/

theorem first_keeps {value : Value} (fit : regime.Fit interp value) :
    regime.Keeps (first value) regime.Fit interp := by
  unfold first
  split
  · exact .atom good rfl
  · exact .pure good (lawful.fit_cons.mp fit).1
  · exact .typeError good _ _

theorem rest_keeps {value : Value} (fit : regime.Fit interp value) :
    regime.Keeps (rest value) regime.Fit interp := by
  unfold rest
  split
  · exact .atom good rfl
  · exact .pure good (lawful.fit_cons.mp fit).2
  · exact .typeError good _ _

theorem elements_keeps {values : List Value} (fits : ∀ value ∈ values, regime.Fit interp value) :
    regime.Keeps (elements values) (fun after items => ∀ item ∈ items, regime.Fit after item)
      interp := by
  induction values generalizing interp with
  | nil => exact .pure good (by simp)
  | cons value values ih =>
      obtain ⟨valueFits, valuesFit⟩ := List.forall_mem_cons.mp fits
      refine .bind (Argument.list_keeps good valueFits) fun items _ step itemsFit => ?_
      refine .bind (ih step.1 (step.fitAll valuesFit)) fun others _ step othersFit => ?_
      refine .pure step.1 fun item member => ?_
      rcases List.mem_append.mp member with isItem | isOther
      · exact step.fit (itemsFit item isItem)
      · exact othersFit item isOther

theorem join_keeps {values : List Value} (fits : ∀ value ∈ values, regime.Fit interp value) :
    regime.Keeps (join values) regime.Fit interp := by
  unfold join
  split
  · exact .atom good rfl
  · next first others =>
      have copied : ∀ value ∈ (first :: others).dropLast, regime.Fit interp value :=
        fun value member => fits value ((List.dropLast_sublist _).mem member)
      have last : regime.Fit interp (others.getLastD first) := by
        rw [List.getLastD_eq_getLast?]
        exact fits _ (List.mem_of_getLast? List.getLast?_cons)
      exact .bind (elements_keeps good copied) fun _ _ step itemsFit =>
        Eval.listWithTail_keeps step.1 itemsFit (step.fit last)

theorem size_keeps {value : Value} (fit : regime.Fit interp value) :
    regime.Keeps (size value) regime.Fit interp := by
  unfold size
  split
  · exact .atom good rfl
  · exact .get_bind (.atom good rfl)
  · exact .bind (Argument.list_keeps good fit) fun _ _ step _ => .atom step.1 rfl

theorem element_keeps (position : Value) {list : Value} (fit : regime.Fit interp list) :
    regime.Keeps (element position list) regime.Fit interp := by
  refine .bind (Argument.index_keeps good position) fun place _ step _ => ?_
  refine .bind (Argument.list_keeps step.1 (step.fit fit)) fun items _ step itemsFit => ?_
  refine .pure step.1 ?_
  rw [List.getD_eq_getElem?_getD]
  exact fit_getD itemsFit fun item found => List.mem_of_getElem? found

theorem vectorItem_keeps (vector position : Value) :
    regime.Keeps (vectorItem vector position) regime.Fit interp := by
  refine .bind (Argument.vector_keeps good vector) fun index _ step _ => ?_
  refine .bind (Argument.index_keeps step.1 position) fun place _ step _ => .get_bind ?_
  dsimp only
  split
  · next value found => exact .pure step.1 (Eval.fit_item step.1 (Array.mem_of_getElem? found))
  · exact .fail step.1 _

theorem setVectorItem_keeps (vector position : Value) {value : Value}
    (fit : regime.Fit interp value) :
    regime.Keeps (setVectorItem vector position value) regime.Fit interp := by
  refine .bind (Argument.vector_keeps good vector) fun index _ first _ => ?_
  refine .bind (Argument.index_keeps first.1 position) fun place _ second _ => .get_bind ?_
  have fitNow := second.fit (first.fit fit)
  refine .ite (.bind (.move second.1 (.heap rfl rfl fun other holds => ?_))
    fun _ _ step _ => .pure step.1 (step.fit fitNow)) (.fail second.1 _)
  rcases Heap.holds_setItem holds with old | rfl
  · exact .inl old
  · exact .inr fitNow

theorem vectorSize_keeps (vector : Value) :
    regime.Keeps (vectorSize vector) regime.Fit interp :=
  .bind (Argument.vector_keeps good vector) fun _ _ step _ => .get_bind (.atom step.1 rfl)

theorem vectorItems_keeps (vector : Value) :
    regime.Keeps (vectorItems vector) regime.Fit interp :=
  .bind (Argument.vector_keeps good vector) fun _ _ step _ => .get_bind
    (Eval.list_keeps step.1 fun _ member => Eval.fit_item step.1 (Array.mem_toList_iff.mp member))

/-! ## Texts -/

theorem concatenation_keeps (values : List Value) :
    regime.Keeps (concatenation values) regime.Fit interp :=
  Eval.str_keeps good _

theorem slice_keeps (value start : Value) (stop : Option Value) :
    regime.Keeps (slice value start stop) regime.Fit interp := by
  refine .bind (Argument.text_keeps good value) fun text _ step _ => ?_
  refine .bind (Argument.index_keeps step.1 start) fun first _ step _ => ?_
  cases stop with
  | none =>
      exact .bind (.done step.1 _)
        fun _ _ step _ => .ite (Eval.str_keeps step.1 _) (.fail step.1 _)
  | some bound =>
      exact .bind (Argument.index_keeps step.1 bound)
        fun _ _ step _ => .ite (Eval.str_keeps step.1 _) (.fail step.1 _)

theorem filled_keeps (control : String) (arguments : List Value) :
    regime.Keeps (filled control arguments) (fun _ _ => True) interp :=
  .ok (.refl good) trivial

theorem raise_keeps (message : Value) (arguments : List Value) :
    regime.Keeps (raise message arguments) regime.Fit interp := by
  unfold raise
  split
  · exact .bind (filled_keeps good _ _) fun _ _ step _ => .fail step.1 _
  · exact .bind (Eval.print_keeps good _ _) fun _ _ step _ => .fail step.1 _

theorem writeLine_keeps (values : List Value) :
    regime.Keeps (writeLine values) regime.Fit interp :=
  .ok (lawful.move good (.output _)) (lawful.fit_atom rfl)

theorem strings_keeps (texts : List String) :
    regime.Keeps (strings texts) (fun after values => ∀ value ∈ values, regime.Fit after value)
      interp := by
  induction texts generalizing interp with
  | nil => exact .pure good (by simp)
  | cons text texts ih =>
      refine .bind (Eval.str_keeps good text) fun value _ step valueFits => ?_
      exact .bind (ih step.1) fun values _ step valuesFit =>
        .pure step.1 (List.forall_mem_cons.mpr ⟨step.fit valueFits, valuesFit⟩)

/-! ## Symbols and packages -/

theorem generate_keeps (stem : String) : regime.Keeps (generate stem) regime.Fit interp := by
  have leads : interp.symbols.Leads
      (interp.symbols.makeUninterned (stem ++ toString (interp.generated + 1))).2 :=
    .single (.makeUninterned interp.symbols _)
  have quiet : interp.Quiet { interp with
      symbols := (interp.symbols.makeUninterned (stem ++ toString (interp.generated + 1))).2
      generated := interp.generated + 1 } :=
    ⟨⟨rfl, rfl, rfl, rfl, rfl⟩, rfl, rfl, leads, .inl rfl⟩
  have step := lawful.move good (.quiet quiet rfl rfl rfl)
  refine .ok step (lawful.fit_symbol good step fun _ => ?_)
  simp [SymbolStore.count]

theorem packageNamed_keeps (value : Value) :
    regime.Keeps (packageNamed value)
      (fun after package => package < after.symbols.packages.size) interp := by
  refine .bind (Argument.name_keeps good value) fun name _ step _ => .get_bind ?_
  split
  · next found => exact .pure step.1 (Array.findIdx?_eq_some_iff_getElem.mp found).1
  · exact .fail step.1 _

theorem newPackage_keeps (value : Value) : regime.Keeps (newPackage value) regime.Fit interp :=
  .bind (Argument.name_keeps good value) fun name _ step _ =>
    .bind (.move step.1 (.symbols (ensurePackage_leads name _))) fun _ _ step _ =>
      Eval.str_keeps step.1 _

theorem enterPackage_keeps (value : Value) :
    regime.Keeps (enterPackage value) regime.Fit interp :=
  .bind (packageNamed_keeps good value) fun _ _ step inside =>
    .bind (.move step.1 (.package inside)) fun _ _ step _ => .get_bind (Eval.str_keeps step.1 _)

theorem inheritPackage_keeps (value : Value) :
    regime.Keeps (inheritPackage value) regime.Fit interp :=
  .bind (packageNamed_keeps good value) fun _ _ step _ =>
    .bind (.move step.1 (.symbols (.single (.usePackage _ _ _)))) fun _ _ step _ =>
      .atom step.1 rfl

theorem exportAll_keeps (values : List Value) :
    regime.Keeps (exportAll values) regime.Fit interp := by
  induction values generalizing interp with
  | nil => exact .atom good rfl
  | cons value values ih =>
      exact .bind (Argument.symbol_keeps good value) fun _ _ step _ =>
        .bind (.move step.1 (.symbols (.single (.exportSymbol _ _)))) fun _ _ step _ => ih step.1

theorem exported_keeps {value : Value} (fit : regime.Fit interp value) :
    regime.Keeps (exported value) regime.Fit interp := by
  unfold exported
  split
  · exact exportAll_keeps good _
  · exact .bind (Argument.list_keeps good fit) fun _ _ step _ => exportAll_keeps step.1 _

theorem lookUp_keeps (name : Value) (package : Option Value) :
    regime.Keeps (lookUp name package) regime.Fit interp := by
  refine .bind (Argument.name_keeps good name) fun text _ step _ => ?_
  have fits : ∀ {after : Interp} {home : PackageId} {symbol : SymbolId}, regime.Good after →
      after.symbols.find? text home = some symbol → regime.Fit after (.symbol symbol) :=
    fun good found => lawful.fit_symbol good (.refl good)
      fun coherent => coherent.lt_count_of_find? found
  cases package with
  | none =>
      refine .get_bind (.bind (.done step.1 _) fun home _ step _ => .get_bind ?_)
      split
      · next found => exact .pure step.1 (fits step.1 found)
      · exact .atom step.1 rfl
  | some value =>
      refine .bind (packageNamed_keeps step.1 value) fun home _ step _ => .get_bind ?_
      split
      · next found => exact .pure step.1 (fits step.1 found)
      · exact .atom step.1 rfl

theorem homePackage_keeps (value : Value) :
    regime.Keeps (homePackage value) regime.Fit interp := by
  refine .bind (Argument.symbol_keeps good value) fun symbol _ step _ => .get_bind ?_
  dsimp only
  split
  · exact Eval.str_keeps step.1 _
  · exact .atom step.1 rfl

theorem wrongCount_keeps (primitive : Primitive) (arguments : List Value) :
    regime.Keeps (wrongCount primitive arguments) regime.Fit interp :=
  .fail good _

end Library

end ObjectLisp
