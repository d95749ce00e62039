import ScriptFront.Program
import ScriptFront.Window.Source

/-!
# The state of a parser

A parser moves a window over tokens, defines names as declarations go by, and counts how deep it is
nested. `Parse` is the monad of such computations: a failure keeps the state it was noticed in.

## Recursion

The productions of the grammar are ordinary functions that receive the parser for their parts. A
*goal* names what can be asked of it, and a `Subparser` answers every goal. The productions are
tied together in one place only, by recursion over naturals, so each of them can be read and
reasoned about with nothing but assumptions on the subparser.
-/

namespace ScriptFront

/-- The state of a parser. -/
structure ParserState where
  /-- The tokens from the current one on. -/
  tokens : Window Lexer
  symbols : SymbolTable
  /-- How many blocks are open. -/
  statementDepth : Nat
  /-- How many argument lists are open. -/
  callDepth : Nat
  /-- How many parentheses are open. -/
  parenDepth : Nat
  /-- How many operands are open. -/
  expressionDepth : Nat

/-- A state before the first token of a window, with names defined already. -/
def ParserState.initial (tokens : Window Lexer) (symbols : SymbolTable) : ParserState :=
  ⟨tokens, symbols, 0, 0, 0, 0⟩

/-- A computation of a parser. -/
abbrev Parse := EStateM ScriptError ParserState

/-- What a production may ask of the parser for its parts. -/
inductive Goal where
  /-- The next statement, if there is one. -/
  | statement
  /-- A conditional, from its first word on. -/
  | conditional
  /-- An expression; inside a group, line breaks do not end it. -/
  | expression (grouped : Bool)
  /-- An operand with its links. -/
  | operand
  /-- The expression that a section embedded in a string consists of. -/
  | embedded (tokens : List Token)

/-- What a goal yields. -/
abbrev Goal.Yield : Goal → Type
  | .statement => Option Expr
  | .conditional | .expression _ | .operand | .embedded _ => Expr

/-- A parser for every goal. -/
abbrev Subparser := (goal : Goal) → Parse goal.Yield

namespace Parse

variable {α : Type}

/-- Move the window. -/
def onTokens (f : WindowM Lexer α) : Parse α := fun s ↦
  match f s.tokens with
  | .ok a tokens => .ok a { s with tokens }
  | .error e tokens => .error e { s with tokens }

def tokens : Parse (Window Lexer) := return (← get).tokens

def current : Parse Token := return (← get).tokens.current

def is (text : String) : Parse Bool := return (← get).tokens.is text

def kind : Parse TokenKind := return (← get).tokens.kind

def isEnded : Parse Bool := return (← get).tokens.isEnded

/-- Where the current token stands. -/
def position : Parse Position := return (← get).tokens.position

/-- The current scope. -/
def scope : Parse ScopeId := return (← get).symbols.current

/-- Move over `count` tokens. -/
def advance (count : Nat) (passNewLine : Bool) : Parse Unit :=
  onTokens (Window.advance count passNewLine)

/-- Move over line breaks. -/
def skipNewLines : Parse Unit := onTokens Window.skipNewLines

/-- The token `count` places ahead. -/
def peek (count : Nat) (passNewLine : Bool) : Parse Token :=
  onTokens (Window.peek count passNewLine)

/-- Require the spelling `text` and move on. -/
def expect (text : String) (passNewLine : Bool) : Parse Unit :=
  onTokens (Window.expect text passNewLine)

def expectName (passNewLine : Bool) : Parse String := onTokens (Window.expectName passNewLine)

/-! ## Failures -/

def fail (cause : Cause) : Parse α := do throw ((← tokens).error cause)

/-- How a failure shows the token found. -/
def foundText (t : Token) : String :=
  match t.kind with
  | .endOfInput => ""
  | .newLine => "new line"
  | _ => t.text

/-- Fail because `wanted` was required at the current token. -/
def failExpected (wanted : String) : Parse α := do
  fail (.expected wanted (foundText (← current)))

/-- Fail because a bound on the recursion or on a loop was too small. -/
def failFuel : Parse α := fail .outOfFuel

/-- A bound on the number of rounds of a loop in which at least every second round moves over a
token. -/
def rounds : Parse Nat := return 2 * (← tokens).tokensLeft + 2

/-! ## Names and scopes -/

def symbols (f : SymbolTable → α) : Parse α := return f (← get).symbols

def modifySymbols (f : SymbolTable → SymbolTable) : Parse Unit :=
  modify fun s ↦ { s with symbols := f s.symbols }

/-- Open a scope and make it current. -/
def pushScope (kind : ScopeKind) : Parse ScopeId :=
  modifyGet fun s ↦ let (id, symbols) := s.symbols.push kind; (id, { s with symbols })

/-- Make the parent of the current scope current. -/
def popScope : Parse Unit := do
  match (← get).symbols.pop with
  | .ok (_, symbols) => modify fun s ↦ { s with symbols }
  | .error cause => fail cause

/-! ## Nodes -/

/-- A node in the current scope. -/
def node (form : Form) (position : Position) : Parse Expr := return .mk form position (← scope)

/-! ## Other tokens -/

/-- Parse a list of tokens, and return to the present ones whether that succeeds or not. -/
def aside (list : List Token) (p : Parse α) : Parse α := fun s ↦
  match p { s with tokens := .ofTokens list s.tokens.lookahead } with
  | .ok a s' => .ok a { s' with tokens := s.tokens }
  | .error e s' => .error e { s' with tokens := s.tokens }

/-! ## Progress -/

/-- The place of the current token in the stream and in the text. -/
def place : Parse (Nat × Nat) := do
  let t ← current
  return (t.index, t.offset)

/-- Fail if nothing was passed since `before` and tokens are left. -/
def requireProgress (before : Nat × Nat) : Parse Unit := do
  if (← place) = before && !(← isEnded) then fail (.noProgress (← current).text)

end Parse

end ScriptFront
