import ObjectLisp.Symbol.Store
import ObjectLisp.Expr
import ObjectLisp.Failure

/-!
# Parameter lists

A parameter list is a proper list of required names, followed by the sections
`&optional`, `&key` and `&rest` in this order, each of which may be missing.
Optional and keyword parameters may be written with a default.  Keyword
parameters are announced in a call by the keyword of the same name.
-/

namespace ObjectLisp.LambdaList

/-- The symbols that start a section. -/
structure Markers where
  optional : SymbolId
  key : SymbolId
  rest : SymbolId
deriving Repr, DecidableEq, Inhabited

/-- The section that a symbol starts. -/
def Markers.kindOf? (markers : Markers) (symbol : SymbolId) : Option ParamKind :=
  if symbol = markers.optional then some .optional
  else if symbol = markers.key then some .keyword
  else if symbol = markers.rest then some .rest
  else none

/-- The section that an item of the list starts. -/
def marker? (markers : Markers) : Value → Option (SymbolId × ParamKind)
  | .symbol symbol => (markers.kindOf? symbol).map (symbol, ·)
  | _ => none

/-- May parameters of this section have defaults? -/
def takesDefault : ParamKind → Bool
  | .optional | .keyword => true
  | .required | .rest => false

/-- Name and default of a parameter as written. -/
def entry (kind : ParamKind) (item : Value) : Except Malformed (SymbolId × Option Value) :=
  match item with
  | .symbol name => .ok (name, none)
  | .cons .. =>
      if takesDefault kind then
        match item.toList? with
        | some [.symbol name, init] => .ok (name, some init)
        | some [.symbol name] => .ok (name, none)
        | _ => .error .parameterDefault
      else .error (.parameter item.typeName)
  | other => .error (.parameter other.typeName)

/-- May a symbol name a parameter? -/
def isName (symbols : SymbolStore) (name : SymbolId) : Bool :=
  symbols.kindOf name = .plain

/-- The keyword that announces a parameter, for keyword parameters. -/
def announce (symbols : SymbolStore) (kind : ParamKind) (name : SymbolId) :
    Option SymbolId × SymbolStore :=
  match kind with
  | .keyword =>
      let (keyword, symbols) := symbols.internKeyword (symbols.nameOf name)
      (some keyword, symbols)
  | _ => (none, symbols)

/-- Parse the items from a section on.  `taken` are the parameters so far, latest first. -/
def parseItems (markers : Markers) (symbols : SymbolStore) (kind : ParamKind)
    (taken : List (Param Value)) :
    List Value → Except Malformed (List (Param Value)) × SymbolStore
  | [] =>
      if kind = .rest && !taken.any (·.kind = .rest) then (.error .missingRest, symbols)
      else (.ok taken.reverse, symbols)
  | item :: items =>
      match marker? markers item with
      | some (symbol, next) =>
          if next.rank ≤ kind.rank then
            (.error (.sectionOrder (symbols.nameOf symbol)), symbols)
          else parseItems markers symbols next taken items
      | none =>
          match entry kind item with
          | .error problem => (.error problem, symbols)
          | .ok (name, init) =>
              if !isName symbols name then
                (.error (.parameterName (symbols.nameOf name)), symbols)
              else if kind = .rest && taken.any (·.kind = .rest) then
                (.error .secondRest, symbols)
              else
                let (keyword, symbols) := announce symbols kind name
                parseItems markers symbols kind ({ name, kind, init, keyword } :: taken) items

/-- Parse a parameter list; defaults are not analysed yet. -/
def parse (markers : Markers) (symbols : SymbolStore) (list : Value) :
    Except Malformed (List (Param Value)) × SymbolStore :=
  match list.toList? with
  | some items => parseItems markers symbols .required [] items
  | none => (.error .parameterList, symbols)

end ObjectLisp.LambdaList
