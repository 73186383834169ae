import ObjectLisp.Proofs.Evaluation.Analysis
import ObjectLisp.Proofs.Templates.Forms

/-!
# Building lists from their parts

The expression for a list does not put its elements together cell by cell.  It
builds elements that follow each other as one list, and joins such lists with
those that are spliced in.  This comes to what filling the form of the list
comes to.
-/

namespace ObjectLisp.Quasi

/-- The evaluation of an expression comes to what filling a form comes to, if there is fuel for the
nesting of the expression. -/
def Builds (expr : Expr) (form : Form) : Prop :=
  ∀ (fuel limit : Nat) (env : Option FrameId) (start : Interp), fuel + form.height ≤ limit →
    form.value (embedded fuel env) start ((Engine.ofFuel limit).eval expr env start)

/-- The same for a form that is no list with parts of its own. -/
def BuildsTail (expr : Expr) (form : Form) : Prop :=
  ∀ (fuel limit : Nat) (env : Option FrameId) (start : Interp), fuel + form.height ≤ limit →
    (form.fill (embedded fuel env)).Tracks (fun value plan => plan = .ok ([], value)) start
      ((Engine.ofFuel limit).eval expr env start)

namespace Form

variable {runs : Expr → Course Value} {form : Form} {start : Interp}

/-- Identities that are used up before a form is filled may count as used by the form. -/
theorem fill_of_skip {count : Nat} {outcome : EStateM.Result Stop Interp Plan}
    (filled : form.fill runs (start.skip count) outcome) : form.fill runs start outcome := by
  induction form generalizing outcome with
  | datum | hole | splice => exact Course.bind_of_imp Course.pause_of_skip filled
  | kept _ _ ih | cell _ _ ih _ | vector _ ih =>
      exact Course.bind_of_imp (fun _ => Course.bind_of_imp fun _ => ih) filled

/-- The list of a form that is filled remains to be made. -/
theorem value_of_tracks {α : Type} {action : Eval α} {next : α → Eval Value}
    {related : α → Plan → Prop} (filled : (form.fill runs).Tracks related start (action start))
    (made : ∀ value plan, related value plan → next value = plan.make) :
    form.value runs start ((action >>= next) start) := by
  refine Course.tracks_eq_iff.mp (filled.bind fun value plan middle fits => ?_)
  rw [made value plan fits]
  exact Course.tracks_of plan.make

namespace Plan

@[simp]
theorem before_nil (plan : Plan) : plan.before [] = plan := by
  cases plan <;> rfl

@[simp]
theorem before_before (plan : Plan) (items more : List Value) :
    (plan.before more).before items = plan.before (items ++ more) := by
  cases plan <;> simp [before]

theorem splice_of_lists {list : Value} {items : List Value} (listed : Value.Lists .null items list)
    (plan : Plan) : splice list plan = plan.before items := by
  rw [splice, Value.toList?_eq_some_iff.mpr listed]

end Plan

end Form

/-! ## Lists -/

theorem joined_bind (lists items : List Value) (last : Value) :
    (Evaluate.joined lists >>= fun more => Eval.listWithTail (items ++ more) last) =
      ((lists.foldr Form.Plan.splice (.ok ([], last))).before items).make := by
  induction lists generalizing items with
  | nil => rfl
  | cons list lists ih =>
      rw [Evaluate.joined, List.foldr_cons, Form.Plan.splice]
      cases list.toList? with
      | none => rfl
      | some more =>
          rw [Form.Plan.before_before, ← ih]
          simp

/-- Lists are joined as planned. -/
theorem construct_append (lists : List Value) (last : Value) :
    Evaluate.construct .append (lists ++ [last]) =
      (lists.foldr Form.Plan.splice (.ok ([], last))).make := by
  have joined := joined_bind lists [] last
  rw [Form.Plan.before_nil] at joined
  rw [← joined, Evaluate.construct]
  simp

/-- Parts of a list and the expression for its tail, if it has one, build a form. -/
inductive Spells (tail : Option Expr) : List Part → Form → Prop where
  | nil (closed : tail = none) : Spells tail [] (.datum .null)
  | tail {expr : Expr} {form : Form} (given : tail = some expr) (built : BuildsTail expr form) :
      Spells tail [] form
  | item {parts : List Part} {expr : Expr} {head rest : Form} (built : Builds expr head)
      (others : Spells tail parts rest) : Spells tail (.item expr :: parts) (.cell head rest)
  | splice {parts : List Part} {rest : Form} (expr : Expr) (others : Spells tail parts rest) :
      Spells tail (.splice expr :: parts) (.splice expr rest)

/-- Elements that are built as one list. -/
theorem Spells.fill_of_plain {parts : List Part} {form : Form} {fuel limit : Nat}
    (spelled : Spells none parts form) (plain : parts.any Part.isSplice = false)
    (enough : fuel + form.height ≤ limit + 2) (env : Option FrameId) (start : Interp) :
    (form.fill (embedded fuel env)).Tracks (fun values plan => plan = .ok (values, .null)) start
      ((Engine.ofFuel limit).evalAll env (parts.map Part.expr) start) := by
  induction spelled generalizing start with
  | nil => exact .pause 0 (Course.tracks_pure rfl)
  | tail given => cases given
  | item built _ ih =>
      simp only [Form.height] at enough
      simp only [List.any_cons, Part.isSplice, Bool.false_or] at plain
      have first := Course.tracks_eq_iff.mpr (built fuel limit env start (by omega))
      refine first.bind ?_
      rintro car _ middle rfl
      refine (ih plain (by omega) middle).bind ?_
      rintro values _ after rfl
      exact Course.tracks_pure rfl
  | splice => cases plain

/-- The list of a group of elements, if there are any. -/
def grouped : List Value → Eval (List Value)
  | [] => pure []
  | first :: others => do return [← Eval.list (first :: others)]

/-- The lists to be joined and the tail, in one pass over the parts.  `group` are the elements since
the last list. -/
def gather (limit : Nat) (env : Option FrameId) (tail : Expr) (group : List Value) :
    List Part → Eval (List Value × Value)
  | [] => do
      let lists ← grouped group
      let last ← (Engine.ofFuel (limit + 1)).eval tail env
      return (lists, last)
  | .item expr :: parts => do
      let value ← (Engine.ofFuel limit).eval expr env
      gather limit env tail (group ++ [value]) parts
  | .splice expr :: parts => do
      let lists ← grouped group
      let value ← (Engine.ofFuel (limit + 1)).eval expr env
      let rest ← gather limit env tail [] parts
      return (lists ++ value :: rest.1, rest.2)

theorem evalAll_append (engine : Engine) (env : Option FrameId) (exprs more : List Expr) :
    engine.evalAll env (exprs ++ more) = do
      let values ← engine.evalAll env exprs
      let others ← engine.evalAll env more
      return values ++ others := by
  induction exprs with
  | nil => simp [Engine.evalAll]
  | cons expr exprs ih => simp [Engine.evalAll, ih]

theorem eval_construct (limit : Nat) (env : Option FrameId) (construction : Construction)
    (exprs : List Expr) :
    (Engine.ofFuel (limit + 1)).eval (.construct construction exprs) env =
      (Engine.ofFuel limit).evalAll env exprs >>= Evaluate.construct construction :=
  rfl

theorem grouped_concat (values : List Value) (last : Value) :
    grouped (values ++ [last]) = do return [← Eval.list (values ++ [last])] := by
  cases values with
  | nil => rfl
  | cons => rfl

/-- A group of expressions is built as one list. -/
theorem evalAll_group (limit : Nat) (env : Option FrameId) (group more : List Expr) :
    (Engine.ofFuel (limit + 1)).evalAll env
        ((if group.isEmpty then [] else [.construct .list group.reverse]) ++ more) = do
      let values ← (Engine.ofFuel limit).evalAll env group.reverse
      let lists ← grouped values
      let others ← (Engine.ofFuel (limit + 1)).evalAll env more
      return lists ++ others := by
  cases group with
  | nil => simp [Engine.evalAll, grouped]
  | cons expr group =>
      simp [Engine.evalAll, eval_construct, Evaluate.construct, evalAll_append, grouped_concat]

theorem segments_splice (group : List Expr) (expr : Expr) (parts : List Part) :
    segments group (.splice expr :: parts) =
      (if group.isEmpty then [] else [.construct .list group.reverse]) ++
        expr :: segments [] parts := by
  rw [segments]
  split <;> rfl

/-- The expressions for the lists to be joined come to what one pass over the parts comes to. -/
theorem evalAll_segments (limit : Nat) (env : Option FrameId) (tail : Expr) (group : List Expr)
    (parts : List Part) :
    (Engine.ofFuel (limit + 1)).evalAll env (segments group parts ++ [tail]) = do
      let values ← (Engine.ofFuel limit).evalAll env group.reverse
      let gathered ← gather limit env tail values parts
      return gathered.1 ++ [gathered.2] := by
  induction parts generalizing group with
  | nil =>
      rw [segments, evalAll_group]
      simp [gather, Engine.evalAll]
  | cons part parts ih =>
      cases part with
      | item expr =>
          rw [segments, ih]
          simp [gather, Engine.evalAll, evalAll_append]
      | splice expr =>
          rw [segments_splice, List.append_assoc, evalAll_group, List.cons_append,
            Engine.evalAll, ih]
          simp [gather, Engine.evalAll]

/-- The list of a group takes identities, and joined with others it puts the elements first. -/
theorem grouped_eq_ok (group : List Value) (interp : Interp) :
    ∃ lists count, grouped group interp = .ok lists (interp.skip count) ∧
      ∀ plan, lists.foldr Form.Plan.splice plan = plan.before group := by
  cases group with
  | nil => exact ⟨[], 0, rfl, by simp⟩
  | cons first group =>
      obtain ⟨list, listed, made⟩ := Eval.listWithTail_eq_ok (first :: group) .null interp
      exact ⟨[list], _, Eval.bind_of_ok made, Form.Plan.splice_of_lists listed⟩

theorem tracks_embedded {fuel limit : Nat} (enough : fuel ≤ limit) (expr : Expr)
    (env : Option FrameId) (start : Interp) :
    (embedded fuel env expr).Tracks Eq start ((Engine.ofFuel limit).eval expr env start) :=
  Course.tracks_eq_iff.mpr ⟨limit, enough, rfl⟩

/-- One pass over the parts of a list comes to what filling the form comes to, up to the elements of
the group. -/
theorem Spells.fill_tracks_gather {tail : Option Expr} {parts : List Part} {form : Form}
    {fuel limit : Nat} (spelled : Spells tail parts form)
    (enough : fuel + form.height ≤ limit + 2)
    (deep : parts = [] → fuel + form.height ≤ limit + 1) (env : Option FrameId)
    (group : List Value) (start : Interp) :
    (form.fill (embedded fuel env)).Tracks
      (fun gathered plan =>
        gathered.1.foldr Form.Plan.splice (.ok ([], gathered.2)) = plan.before group)
      start (gather limit env (tail.getD (.literal .null)) group parts start) := by
  induction spelled generalizing group start with
  | nil closed =>
      obtain ⟨lists, count, made, joined⟩ := grouped_eq_ok group start
      subst closed
      rw [gather, Eval.bind_of_ok made]
      exact .pause count (Course.tracks_pure (joined _))
  | tail given built =>
      obtain ⟨lists, count, made, joined⟩ := grouped_eq_ok group start
      subst given
      rw [gather, Eval.bind_of_ok made]
      have last := built fuel (limit + 1) env (start.skip count) (deep rfl)
      refine (last.map ?_).of_imp fun _ => Form.fill_of_skip
      rintro value _ rfl
      exact joined _
  | item built _ ih =>
      simp only [Form.height] at enough
      have first := Course.tracks_eq_iff.mpr (built fuel limit env start (by omega))
      refine first.bind ?_
      rintro car _ middle rfl
      refine (ih (by omega) (fun _ => by omega) (group ++ [car]) middle).map_result ?_
      intro gathered plan joined
      simpa using joined
  | splice expr _ ih =>
      simp only [Form.height] at enough
      obtain ⟨lists, count, made, joined⟩ := grouped_eq_ok group start
      rw [gather, Eval.bind_of_ok made]
      refine .pause count ((tracks_embedded (by omega) expr env _).bind ?_)
      rintro value _ middle rfl
      refine (ih (by omega) (fun _ => by omega) [] middle).bind ?_
      intro gathered plan after others
      rw [Form.Plan.before_nil] at others
      refine Course.tracks_pure ?_
      rw [List.foldr_append, List.foldr_cons, others, joined]

theorem segments_plain {parts : List Part} (plain : parts.any Part.isSplice = false)
    (group : List Expr) (nonempty : group ≠ [] ∨ parts ≠ []) :
    segments group parts = [.construct .list (group.reverse ++ parts.map Part.expr)] := by
  induction parts generalizing group with
  | nil =>
      have some : group ≠ [] := by simpa using nonempty
      simp [segments, some]
  | cons part parts ih =>
      cases part with
      | splice => cases plain
      | item expr =>
          simp only [List.any_cons, Part.isSplice, Bool.false_or] at plain
          rw [segments, ih plain (expr :: group) (by simp)]
          simp [Part.expr]

theorem assemble_plain {part : Part} {parts : List Part}
    (plain : (part :: parts).any Part.isSplice = false) :
    assemble (part :: parts) none = .construct .list ((part :: parts).map Part.expr) := by
  rw [assemble, if_neg (by simp [plain]), segments_plain plain [] (by simp)]
  rfl

theorem assemble_joined {parts : List Part} {tail : Option Expr}
    (joined : tail = none → parts.any Part.isSplice = true) :
    assemble parts tail =
      .construct .append (segments [] parts ++ [tail.getD (.literal .null)]) := by
  cases tail with
  | some expr => rfl
  | none => exact if_pos (joined rfl)

/-- A list is built from its parts, whether as one list or from lists that are joined. -/
theorem Spells.builds {tail : Option Expr} {part : Part} {parts : List Part} {form : Form}
    (spelled : Spells tail (part :: parts) form) : Builds (assemble (part :: parts) tail) form := by
  intro fuel limit env start enough
  have deep : 2 ≤ form.height := by
    cases spelled <;> simp only [Form.height] <;> omega
  obtain ⟨limit, rfl⟩ : ∃ below, limit = below + 2 := ⟨limit - 2, by omega⟩
  by_cases plain : tail = none ∧ (part :: parts).any Part.isSplice = false
  · obtain ⟨rfl, plain⟩ := plain
    rw [assemble_plain plain, eval_construct]
    refine Form.value_of_tracks (spelled.fill_of_plain plain (by omega) env start) ?_
    rintro values _ rfl
    rfl
  · have joined (closed : tail = none) : (part :: parts).any Part.isSplice = true :=
      (Bool.not_eq_false _).mp fun unspliced => plain ⟨closed, unspliced⟩
    rw [assemble_joined joined, eval_construct, evalAll_segments]
    simp only [List.reverse_nil, Engine.evalAll, pure_bind, bind_assoc]
    refine Form.value_of_tracks (spelled.fill_tracks_gather enough (by simp) env [] start) ?_
    intro gathered plan joined
    rw [construct_append, joined, Form.Plan.before_nil]

/-! ## Other forms -/

theorem BuildsTail.builds {expr : Expr} {form : Form} (built : BuildsTail expr form) :
    Builds expr form := by
  intro fuel limit env start enough
  have filled : form.value (embedded fuel env) start
      (((Engine.ofFuel limit).eval expr env >>= pure) start) :=
    Form.value_of_tracks (built fuel limit env start enough) (by rintro value _ rfl; rfl)
  rwa [bind_pure] at filled

theorem builds_datum (value : Value) : BuildsTail (.literal value) (.datum value) := by
  intro fuel limit env start enough
  simp only [Form.height] at enough
  obtain ⟨limit, rfl⟩ : ∃ below, limit = below + 1 := ⟨limit - 1, by omega⟩
  exact .pause 0 (Course.tracks_pure rfl)

/-- Something that is made of one value. -/
theorem tracks_made {course : Course Value} {action : Eval Value} {next : Value → Eval Value}
    {start : Interp} (ran : course start (action start)) :
    (course >>= fun value => Course.of (next value) >>= fun made =>
      (pure (.ok ([], made)) : Course Form.Plan)).Tracks (fun made plan => plan = .ok ([], made))
      start ((action >>= next) start) := by
  refine (Course.tracks_eq_iff.mpr ran).bind ?_
  rintro value _ middle rfl
  refine (Course.tracks_of (next value)).map_result ?_
  rintro made _ rfl
  rfl

theorem builds_hole (expr : Expr) : BuildsTail expr (.hole expr) := by
  intro fuel limit env start enough
  refine .pause 0 ((tracks_embedded enough expr env _).map_result ?_)
  rintro value _ rfl
  rfl

theorem builds_kept {expr : Expr} {form : Form} (symbol : SymbolId) (built : Builds expr form) :
    BuildsTail (rebuild symbol expr) (.kept symbol form) := by
  intro fuel limit env start enough
  simp only [Form.height] at enough
  obtain ⟨limit, rfl⟩ : ∃ below, limit = below + 2 := ⟨limit - 2, by omega⟩
  have literal : (Engine.ofFuel (limit + 1)).eval (.literal (.symbol symbol)) env =
      pure (.symbol symbol) := rfl
  have rebuilt : (Engine.ofFuel (limit + 2)).eval (rebuild symbol expr) env =
      (Engine.ofFuel (limit + 1)).eval expr env >>= fun argument =>
        Eval.list [.symbol symbol, argument] := by
    simp [rebuild, eval_construct, Engine.evalAll, literal, Evaluate.construct]
  rw [rebuilt]
  exact tracks_made (built fuel (limit + 1) env start (by omega))

theorem builds_vector {expr : Expr} {form : Form} (built : Builds expr form) :
    Builds (.construct .vector [expr]) (.vector form) := by
  refine BuildsTail.builds ?_
  intro fuel limit env start enough
  simp only [Form.height] at enough
  obtain ⟨limit, rfl⟩ : ∃ below, limit = below + 1 := ⟨limit - 1, by omega⟩
  have made : (Engine.ofFuel (limit + 1)).eval (.construct .vector [expr]) env =
      (Engine.ofFuel limit).eval expr env >>= Form.ofItems := by
    simp only [eval_construct, Engine.evalAll, bind_assoc, pure_bind]
    rfl
  rw [made]
  exact tracks_made (built fuel limit env start (by omega))

end ObjectLisp.Quasi
