import ObjectLisp.Assoc

/-!
# Read tables

A read table gives every character a syntax class and some characters a reader
macro.  The two parts are edited separately and may disagree: a character can
have a macro class without a macro, or a macro without the class, in which case
the macro is not used.

Dispatch characters have a second table that is searched with the character
after them.
-/

namespace ObjectLisp

/-- How a character takes part in tokens. -/
inductive SyntaxClass where
  | constituent
  | whitespace
  /-- A macro character that also ends a token. -/
  | terminating
  /-- A macro character only at the start of a token. -/
  | nonterminating
deriving Repr, DecidableEq, Inhabited

/-- What the reader does at a macro character. -/
inductive ReaderMacro where
  /-- A list up to a closing parenthesis. -/
  | list
  /-- A vector up to a closing bracket. -/
  | vector
  /-- A delimiter that closes nothing. -/
  | closer
  /-- A string up to the character that opened it. -/
  | string
  | quote
  | quasiquote
  /-- Unquoting, or splicing if `@` follows. -/
  | unquote
  | lineComment
  /-- The macro of the next character in the dispatch table. -/
  | dispatch
  /-- A comment up to the matching `|#`. -/
  | blockComment
deriving Repr, DecidableEq, Inhabited

/-- Syntax classes, macros and dispatch macros of characters. -/
structure ReadTable where
  classes : Assoc Char SyntaxClass := {}
  macros : Assoc Char ReaderMacro := {}
  dispatches : Assoc (Char × Char) ReaderMacro := {}
deriving Repr, Inhabited

namespace ReadTable

/-- The syntax class of a character; characters without an entry are constituents. -/
def classOf (table : ReadTable) (c : Char) : SyntaxClass :=
  match table.classes.find? c with
  | some found => found
  | none => .constituent

/-- Does the character separate data? -/
def isWhitespace (table : ReadTable) (c : Char) : Bool :=
  table.classOf c = .whitespace

/-- Does the character end a token? -/
def isDelimiter (table : ReadTable) (c : Char) : Bool :=
  match table.classOf c with
  | .whitespace | .terminating => true
  | .constituent | .nonterminating => false

/-- The reader macro of a character. -/
def macroOf? (table : ReadTable) (c : Char) : Option ReaderMacro :=
  table.macros.find? c

/-- The reader macro of a character after a dispatch character. -/
def dispatchOf? (table : ReadTable) (trigger c : Char) : Option ReaderMacro :=
  table.dispatches.find? (trigger, c)

/-- Change the syntax class of a character. -/
def setClass (table : ReadTable) (c : Char) (syntaxClass : SyntaxClass) : ReadTable :=
  { table with classes := table.classes.insert c syntaxClass }

/-- Install a reader macro, or remove it, which makes the character a constituent again. -/
def setMacro (table : ReadTable) (c : Char) (reader? : Option ReaderMacro) (terminating : Bool) :
    ReadTable :=
  match reader? with
  | some reader =>
      { table with
        macros := table.macros.insert c reader
        classes := table.classes.insert c (if terminating then .terminating else .nonterminating) }
  | none =>
      { table with macros := table.macros.erase c, classes := table.classes.erase c }

/-- Install or remove a dispatch macro. -/
def setDispatch (table : ReadTable) (trigger c : Char) (reader? : Option ReaderMacro) :
    ReadTable :=
  match reader? with
  | some reader => { table with dispatches := table.dispatches.insert (trigger, c) reader }
  | none => { table with dispatches := table.dispatches.erase (trigger, c) }

/-- The macro characters of the standard table; all but the last end a token. -/
def standardMacros : List (Char × ReaderMacro) :=
  [('(', .list), (')', .closer), ('[', .vector), (']', .closer), ('"', .string),
    ('\'', .quote), ('\x60', .quasiquote), (',', .unquote), (';', .lineComment),
    ('#', .dispatch)]

/-- The standard table. -/
def standard : ReadTable where
  classes :=
    ⟨([' ', '\t', '\n', '\r', '\x0c'].map fun c => (c, .whitespace)) ++
      standardMacros.map fun entry =>
        (entry.1, if entry.1 = '#' then .nonterminating else .terminating)⟩
  macros := ⟨standardMacros⟩
  dispatches := ⟨[(('#', '|'), .blockComment)]⟩

end ReadTable

end ObjectLisp
