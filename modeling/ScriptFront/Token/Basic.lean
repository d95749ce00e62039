import ScriptFront.Number.Basic
import ScriptFront.Position

/-!
# Tokens

A *lexeme* is what was read: its kind, its spelling, and for literals its meaning. A *token* is a
lexeme with its place in the text and in the stream. A string literal that embeds expressions holds
the tokens of each embedded section, so the three types below are defined together.

The spelling of a lexeme is a function of it and not a field beside it, which is why the kinds are
constructors: a number always has a value, and a word never has one.
-/

namespace ScriptFront

/-- The kinds of tokens. -/
inductive TokenKind where
  | keyword
  | ident
  | symbol
  | number
  /-- A string literal without embedded sections. -/
  | str
  | bool
  | null
  /-- A string literal with embedded sections. -/
  | interpolated
  | comment
  | newLine
  | whitespace
  | endOfInput
deriving DecidableEq, Repr

def TokenKind.name : TokenKind → String
  | .keyword => "Keyword"
  | .ident => "Ident"
  | .symbol => "Symbol"
  | .number => "Number"
  | .str => "Str"
  | .bool => "Bool"
  | .null => "Null"
  | .interpolated => "Interpolated"
  | .comment => "Comment"
  | .newLine => "NewLine"
  | .whitespace => "Whitespace"
  | .endOfInput => "End"

/-- The kind with the given name in listings. -/
def TokenKind.ofName? (name : String) : Option TokenKind :=
  [.keyword, .ident, .symbol, .number, .str, .bool, .null, .interpolated, .comment, .newLine,
    .whitespace, .endOfInput].find? fun kind ↦ kind.name == name

mutual

/-- What was read at one place of a script. -/
inductive Lexeme where
  | keyword (text : String)
  | ident (text : String)
  | symbol (text : String)
  | number (text : String) (value : Number)
  /-- A string literal as written, quotes included, and its content. -/
  | str (raw value : String)
  | bool (value : Bool)
  | null
  /-- A string literal as written, and its parts in order. -/
  | interpolated (raw : String) (parts : List Section)
  | comment (text : String)
  | newLine (text : String)
  | whitespace (text : String)
  | endOfInput

/-- A part of a string literal with embedded sections. -/
inductive Section where
  /-- Literal text, decoded. -/
  | text (value : String)
  /-- The tokens of an embedded expression, the last one being the end of its text. -/
  | tokens (tokens : List Token)

/-- A lexeme and its place. -/
inductive Token where
  /-- The lexeme, the position of its first character, the number of characters before that one,
  and the number of tokens before this one. -/
  | mk (lexeme : Lexeme) (position : Position) (offset index : Nat)

end

instance : Inhabited Lexeme := ⟨.endOfInput⟩

namespace Lexeme

def kind : Lexeme → TokenKind
  | .keyword _ => .keyword
  | .ident _ => .ident
  | .symbol _ => .symbol
  | .number _ _ => .number
  | .str _ _ => .str
  | .bool _ => .bool
  | .null => .null
  | .interpolated _ _ => .interpolated
  | .comment _ => .comment
  | .newLine _ => .newLine
  | .whitespace _ => .whitespace
  | .endOfInput => .endOfInput

/-- The spelling of a lexeme; the end of the text has an empty one. -/
def text : Lexeme → String
  | .keyword text | .ident text | .symbol text | .number text _ | .str text _
  | .interpolated text _ | .comment text | .newLine text | .whitespace text => text
  | .bool value => if value then "true" else "false"
  | .null => "null"
  | .endOfInput => ""

/-- A string literal made up by a program: its content between double quotes. -/
def string (value : String) : Lexeme := .str ("\"" ++ value ++ "\"") value

/-- The value of a number literal. -/
def number? : Lexeme → Option Number
  | .number _ value => some value
  | _ => none

/-- The content of a string literal. -/
def string? : Lexeme → Option String
  | .str _ value => some value
  | _ => none

def is (l : Lexeme) (text : String) : Bool := l.text == text

/-- Literal constants: numbers, strings, truth values and the absent value. -/
def isLiteral (l : Lexeme) : Bool :=
  match l.kind with
  | .number | .str | .bool | .null => true
  | _ => false

/-- What a reader of tokens never stops at. -/
def isTrivia (l : Lexeme) : Bool :=
  match l.kind with
  | .comment | .whitespace => true
  | _ => false

/-- The marks that close an expression. -/
def closingMarks : List String := [";", ",", ")", "]", "\x7d", "\x7b", ":"]

/-- What closes an expression: separators, closing brackets, an opening brace, reserved words, line
breaks and the end of the text. -/
def closesExpression (l : Lexeme) : Bool :=
  match l.kind with
  | .newLine | .endOfInput | .keyword => true
  | .symbol => closingMarks.contains l.text
  | _ => false

end Lexeme

namespace Token

def lexeme : Token → Lexeme
  | .mk lexeme _ _ _ => lexeme

/-- Where the first character stands. -/
def position : Token → Position
  | .mk _ position _ _ => position

/-- How many characters stand before it. -/
def offset : Token → Nat
  | .mk _ _ offset _ => offset

/-- How many tokens stand before it. -/
def index : Token → Nat
  | .mk _ _ _ index => index

def kind (t : Token) : TokenKind := t.lexeme.kind

def text (t : Token) : String := t.lexeme.text

def is (t : Token) (text : String) : Bool := t.lexeme.is text

/-- The token with another lexeme in the same place. -/
def withLexeme (t : Token) (lexeme : Lexeme) : Token := .mk lexeme t.position t.offset t.index

/-- The token at another place of the stream. -/
def withIndex (t : Token) (index : Nat) : Token := .mk t.lexeme t.position t.offset index

/-- Whether the token is of the kind `symbol` and spelled `text`. -/
def isSymbol (t : Token) (text : String) : Bool := t.kind == .symbol && t.is text

def isEnd (t : Token) : Bool := t.kind == .endOfInput

instance : Inhabited Token := ⟨.mk .endOfInput .start 0 0⟩

end Token

end ScriptFront
