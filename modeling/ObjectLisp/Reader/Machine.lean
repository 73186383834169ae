import ObjectLisp.ReadTable
import ObjectLisp.Reader.Token

/-!
# The reader

The reader is a pushdown machine that takes one character at a time and looks
at most one character ahead.  Its mode says inside what it stands, and a stack
of pending forms says what encloses that.  A finished datum is delivered to the
top of the stack; with an empty stack it is the result.

Every step consumes a character, so reading ends whatever the read table says.

A dot between the elements of a list starts its tail.  It is looked for only
where an element has just ended or the list has just begun: past a comment a
lone dot is a symbol.
-/

namespace ObjectLisp.Reader

/-- What a gap between data follows. -/
inductive Boundary where
  /-- An element or an opening delimiter. -/
  | element
  /-- A comment. -/
  | comment
  /-- The comma of an unquote form, which a `@` may extend. -/
  | comma
deriving Repr, DecidableEq

/-- The last character inside a block comment, as far as it can start a bracket of two. -/
inductive Mark where
  | none
  | bar
  | hash
deriving Repr, DecidableEq

/-- Inside what the reader stands. -/
inductive Mode where
  | between (boundary : Boundary)
  /-- A token that began on a line, latest character first. -/
  | token (line : Nat) (taken : List Char)
  /-- A string up to its closing character, latest character first. -/
  | string (close : Char) (taken : List Char)
  /-- A string after a backslash. -/
  | escape (close : Char) (taken : List Char)
  | lineComment
  | blockComment (depth : Nat) (mark : Mark)
  /-- After a dispatch character. -/
  | dispatch (trigger : Char)
deriving Repr, DecidableEq

/-- A form that waits for a datum or for its end.  Items stand latest first. -/
inductive Pending where
  | list (line : Nat) (items : List Datum)
  /-- A list after its dot. -/
  | tail (line : Nat) (items : List Datum)
  /-- A list after its tail, of which only the end may follow. -/
  | closing (line : Nat) (items : List Datum) (last : Datum)
  | vector (line : Nat) (items : List Datum)
  /-- A form of two elements, the first of which is implied. -/
  | wrap (head : String) (line : Nat)
deriving Repr

/-- Everything the reader remembers between two characters. -/
structure State where
  mode : Mode := .between .element
  pending : List Pending := []
  line : Nat
  symbols : SymbolStore

/-- What one character leads to. -/
inductive Step where
  | next (state : State)
  | datum (datum : Datum) (line : Nat) (symbols : SymbolStore)
  | failed (problem : SyntaxProblem) (line : Nat) (symbols : SymbolStore)

/-- The line after a character. -/
def advance (line : Nat) (c : Char) : Nat := if c = '\n' then line + 1 else line

/-- Hand a finished datum to the form that waits for it. -/
def deliver (line : Nat) (symbols : SymbolStore) (datum : Datum) : List Pending → Step
  | [] => .datum datum line symbols
  | .list start items :: outer =>
      .next { pending := .list start (datum :: items) :: outer, line, symbols }
  | .tail start items :: outer =>
      .next { pending := .closing start items datum :: outer, line, symbols }
  | .closing .. :: _ => .failed (.unexpectedChar '.') line symbols
  | .vector start items :: outer =>
      .next { pending := .vector start (datum :: items) :: outer, line, symbols }
  | .wrap head start :: outer =>
      let (symbol, symbols) := symbols.internIn head PackageId.system
      deliver line symbols (.list (some start) [.symbol symbol, datum]) outer

/-- Can the character behind this one not continue a token? -/
def endsToken (table : ReadTable) : Option Char → Bool
  | none => true
  | some c => table.isDelimiter c

/-- Go on with a token, or end it before a delimiter. -/
def continueToken (table : ReadTable) (package : PackageId) (state : State) (start : Nat)
    (taken : List Char) (line : Nat) (ahead : Option Char) : Step :=
  if endsToken table ahead then
    match Token.read package start taken.reverse state.symbols with
    | .ok datum symbols => deliver line symbols datum state.pending
    | .error problem symbols => .failed problem line symbols
  else .next { state with mode := .token start taken, line }

/-- Start what a reader macro reads.  `c` triggered it and `line` is the line behind `c`. -/
def startMacro (state : State) (line : Nat) (c : Char) : ReaderMacro → Step
  | .list => .next { state with
      mode := .between .element, pending := .list line [] :: state.pending, line }
  | .vector => .next { state with
      mode := .between .element, pending := .vector line [] :: state.pending, line }
  | .closer => .failed (.unmatchedDelimiter c) line state.symbols
  | .string => .next { state with mode := .string c [], line }
  | .quote => .next { state with
      mode := .between .element, pending := .wrap "quote" line :: state.pending, line }
  | .quasiquote => .next { state with
      mode := .between .element, pending := .wrap "quasiquote" line :: state.pending, line }
  | .unquote => .next { state with
      mode := .between .comma, pending := .wrap "unquote" line :: state.pending, line }
  | .lineComment => .next { state with mode := .lineComment, line }
  | .dispatch => .next { state with mode := .dispatch c, line }
  | .blockComment => .next { state with mode := .blockComment 1 .none, line }

/-- A character that starts a datum or a comment. -/
def start (table : ReadTable) (package : PackageId) (state : State) (c : Char)
    (ahead : Option Char) : Step :=
  let line := advance state.line c
  match table.classOf c, table.macroOf? c with
  | .terminating, some reader | .nonterminating, some reader => startMacro state line c reader
  | .terminating, none => .failed (.unexpectedChar c) state.line state.symbols
  | _, _ => continueToken table package state state.line [c] line ahead

/-- What a closing character ends, if it ends the innermost form: the datum and the forms
around it. -/
def close? (c : Char) : List Pending → Option (Datum × List Pending)
  | .list start items :: outer =>
      if c = ')' then some (.list (some start) items.reverse, outer) else none
  | .closing start items last :: outer =>
      if c = ')' then some (.chain (some start) items.reverse last, outer) else none
  | .vector start items :: outer =>
      if c = ']' then some (.vec (some start) items.reverse, outer) else none
  | _ => none

/-- A character between data, where no tail can start. -/
def element (table : ReadTable) (package : PackageId) (state : State) (c : Char)
    (ahead : Option Char) : Step :=
  match close? c state.pending with
  | some (datum, outer) => deliver (advance state.line c) state.symbols datum outer
  | none => start table package state c ahead

/-- A character between data. -/
def between (table : ReadTable) (package : PackageId) (state : State) (boundary : Boundary)
    (c : Char) (ahead : Option Char) : Step :=
  match boundary, state.pending with
  | .comma, .wrap _ line :: outer =>
      if c = '@' then
        .next { state with
          mode := .between .element, pending := .wrap "unquote-splicing" line :: outer }
      else if table.isWhitespace c then
        .next { state with mode := .between .element, line := advance state.line c }
      else element table package state c ahead
  | .element, .list line items :: outer =>
      if table.isWhitespace c then .next { state with line := advance state.line c }
      else if c = '.' && endsToken table ahead then
        if items.isEmpty then .failed (.unexpectedChar '.') state.line state.symbols
        else .next { state with mode := .between .element, pending := .tail line items :: outer }
      else element table package state c ahead
  | _, _ =>
      if table.isWhitespace c then .next { state with line := advance state.line c }
      else element table package state c ahead

/-- The character that an escape stands for. -/
def unescape? : Char → Option Char
  | 't' => some '\t'
  | 'r' => some '\r'
  | 'n' => some '\n'
  | '\\' => some '\\'
  | '"' => some '"'
  | _ => none

/-- Depth and mark of a block comment after one more character. -/
def blockStep (depth : Nat) : Mark → Char → Nat × Mark
  | .bar, '#' => (depth - 1, .none)
  | .hash, '|' => (depth + 1, .none)
  | _, '|' => (depth, .bar)
  | _, '#' => (depth, .hash)
  | _, _ => (depth, .none)

/-- Take one character; `ahead` is the one behind it. -/
def step (table : ReadTable) (package : PackageId) (state : State) (c : Char)
    (ahead : Option Char) : Step :=
  let line := advance state.line c
  match state.mode with
  | .between boundary => between table package state boundary c ahead
  | .token start taken => continueToken table package state start (c :: taken) line ahead
  | .string close taken =>
      if c = close then
        deliver line state.symbols (.str (String.ofList taken.reverse)) state.pending
      else if c = '\\' then .next { state with mode := .escape close taken, line }
      else .next { state with mode := .string close (c :: taken), line }
  | .escape close taken =>
      match unescape? c with
      | some plain => .next { state with mode := .string close (plain :: taken), line }
      | none => .failed (.malformedEscape c) line state.symbols
  | .lineComment =>
      if c = '\n' then .next { state with mode := .between .comment, line }
      else .next { state with line }
  | .blockComment depth mark =>
      match blockStep depth mark c with
      | (0, _) => .next { state with mode := .between .comment, line }
      | (depth, mark) => .next { state with mode := .blockComment depth mark, line }
  | .dispatch trigger =>
      match table.dispatchOf? trigger c with
      | some reader => startMacro state line c reader
      | none => .failed (.unknownDispatch c) line state.symbols

/-- The result of reading one datum. -/
inductive Outcome where
  | datum (datum : Datum) (rest : List Char) (line : Nat) (symbols : SymbolStore)
  /-- Nothing but blanks and comments was left. -/
  | finished (line : Nat) (symbols : SymbolStore)
  | failed (problem : SyntaxProblem) (line : Nat) (symbols : SymbolStore)

/-- The result where the text ends.  Only between data, or in the comment of a last line, may it
end, and no form may be open. -/
def atEnd (state : State) : Outcome :=
  match state.mode, state.pending with
  | .between _, [] | .lineComment, [] => .finished state.line state.symbols
  | _, _ => .failed .unexpectedEnd state.line state.symbols

/-- Read on from a state. -/
def run (table : ReadTable) (package : PackageId) : State → List Char → Outcome
  | state, [] => atEnd state
  | state, c :: rest =>
      match step table package state c rest.head? with
      | .next state => run table package state rest
      | .datum datum line symbols => .datum datum rest line symbols
      | .failed problem line symbols => .failed problem line symbols

/-- Read the next datum of a text from the given line on. -/
def next (table : ReadTable) (package : PackageId) (symbols : SymbolStore) (line : Nat)
    (text : List Char) : Outcome :=
  run table package { line, symbols } text

end ObjectLisp.Reader
