import ObjectLisp.Interp.Engine

/-!
# Quasiquotation

A template is a form in which some parts are computed: `,form` stands for the
value of a form and `,@form` for the elements of a list.  Templates inside a
template have unquotes of their own, so a part is computed only where as many
unquotes as quasiquotes surround it.

A template becomes an expression that builds the form.  Plain elements that
follow each other are built as one list; where elements are spliced in, or the
list has a tail of its own, the lists are joined.
-/

namespace ObjectLisp.Quasi

/-- What the forms with a meaning inside templates are. -/
inductive Mark where
  | unquote
  | splice
  /-- A template inside the template. -/
  | nested
deriving Repr, DecidableEq

/-- The mark that a symbol names. -/
def markOf? (words : Vocabulary) (symbol : SymbolId) : Option Mark :=
  match words.form? symbol with
  | some .unquote => some .unquote
  | some .unquoteSplicing => some .splice
  | some .quasiquote => some .nested
  | _ => none

/-- Split a marked form, which has exactly one argument. -/
def marked? (words : Vocabulary) : Value → Option (SymbolId × Mark × Value)
  | .cons _ (.symbol symbol) (.cons _ argument .null) =>
      (markOf? words symbol).map fun mark => (symbol, mark, argument)
  | _ => none

/-- A part of a list that is built. -/
inductive Part where
  /-- One element. -/
  | item (expr : Expr)
  /-- The elements of a list. -/
  | splice (expr : Expr)

namespace Part

/-- Are elements spliced in here? -/
def isSplice : Part → Bool
  | splice _ => true
  | item _ => false

end Part

/-- The lists to be joined: plain elements that follow each other form one list. -/
def segments (group : List Expr) : List Part → List Expr
  | [] => if group.isEmpty then [] else [.construct .list group.reverse]
  | .item expr :: parts => segments (expr :: group) parts
  | .splice expr :: parts =>
      if group.isEmpty then expr :: segments [] parts
      else .construct .list group.reverse :: expr :: segments [] parts

/-- The expression that builds a list from its parts.  Joining copies all lists but the last, so
an empty list goes last where there is no other tail. -/
def assemble (parts : List Part) : Option Expr → Expr
  | some tail => .construct .append (segments [] parts ++ [tail])
  | none =>
      if parts.any Part.isSplice then
        .construct .append (segments [] parts ++ [.literal .null])
      else
        match segments [] parts with
        | [] => .literal .null
        | list :: _ => list

/-- The expression that builds a marked form again. -/
def rebuild (symbol : SymbolId) (argument : Expr) : Expr :=
  .construct .list [.literal (.symbol symbol), argument]

mutual

/-- Analyse a template.  `level` is the number of templates around it whose unquotes have not been
reached. -/
def expand (engine : Engine) (context : Context) :
    (fuel level : Nat) → Value → Eval Expr
  | 0, _, _ => throw .spent
  | fuel + 1, level, template =>
      match template with
      | .cons .. => do
          match marked? (← get).words template with
          | some (symbol, .nested, argument) =>
              return rebuild symbol (← expand engine context fuel (level + 1) argument)
          | some (symbol, mark, argument) =>
              match level with
              | level + 1 => return rebuild symbol (← expand engine context fuel level argument)
              | 0 =>
                  if mark = .unquote then engine.analyze argument context
                  else Eval.fail (.malformed .splicingOutside (context.locOf template))
          | none => expandList engine context fuel level template
      | .vector index => do
          let items ← Eval.list ((← get).heap.items index).toList
          return .construct .vector [← expandList engine context fuel level items]
      | other => pure (.literal other)

/-- Analyse a list.  A mark at its start has no meaning here. -/
def expandList (engine : Engine) (context : Context) :
    (fuel level : Nat) → Value → Eval Expr
  | 0, _, _ => throw .spent
  | fuel + 1, level, list =>
      match list with
      | .cons _ car cdr => do
          let part ← expandElement engine context fuel level car
          let (parts, tail) ← expandRest engine context fuel level cdr
          return assemble (part :: parts) tail
      | .null => pure (.literal .null)
      | other => pure (assemble [] (some (.literal other)))

/-- Analyse the rest of a list: its parts, and its tail if that is not the empty list.  A marked
form that the list ends in is a tail. -/
def expandRest (engine : Engine) (context : Context) :
    (fuel level : Nat) → Value → Eval (List Part × Option Expr)
  | 0, _, _ => throw .spent
  | fuel + 1, level, list =>
      match list with
      | .null => pure ([], none)
      | .cons _ car cdr => do
          if (marked? (← get).words list).isSome then
            return ([], some (← expand engine context fuel level list))
          else
            let part ← expandElement engine context fuel level car
            let (parts, tail) ← expandRest engine context fuel level cdr
            return (part :: parts, tail)
      | other => pure ([], some (.literal other))

/-- Analyse an element of a list. -/
def expandElement (engine : Engine) (context : Context) :
    (fuel level : Nat) → Value → Eval Part
  | 0, _, _ => throw .spent
  | fuel + 1, level, element => do
      match level, marked? (← get).words element with
      | 0, some (_, .splice, argument) => return .splice (← engine.analyze argument context)
      | _, _ => return .item (← expand engine context fuel level element)

end

/-- Analyse the template of a quasiquote form. -/
def analyze (engine : Engine) (context : Context) (template : Value) : Eval Expr :=
  expand engine context engine.fuel 0 template

end ObjectLisp.Quasi
