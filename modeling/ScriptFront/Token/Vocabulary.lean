import ScriptFront.Token.Basic

/-!
# Reserved words and symbols

The fixed words and marks of the language. Symbols of two characters are listed before those of
one, so the first symbol that a text starts with is also the longest.
-/

namespace ScriptFront.Lexeme

/-- The reserved words. -/
def keywords : List String :=
  ["var", "if", "else", "then", "for", "in", "while", "function", "return", "break", "continue",
    "try", "catch", "throw"]

/-- The operators and punctuation marks, longer ones first. -/
def symbols : List String :=
  ["==", "!=", "<=", ">=", "&&", "||", "++", "--", "+=", "-=", "*=", "/=", "%=", "+", "-", "*", "/",
    "%", "<", ">", "!", "=", "(", ")", "[", "]", "\x7b", "\x7d", ",", ";", ":", "."]

def keyword? (text : String) : Option Lexeme :=
  if keywords.contains text then some (.keyword text) else none

def symbol? (text : String) : Option Lexeme :=
  if symbols.contains text then some (.symbol text) else none

/-- The longest symbol that `input` starts with. -/
def longestSymbol? (input : List Char) : Option Lexeme :=
  (symbols.find? fun s ↦ s.toList.isPrefixOf input).map .symbol

/-- A word as a lexeme: a literal, a reserved word, or else a name. -/
def ofWord (word : String) : Lexeme :=
  match word with
  | "true" => .bool true
  | "false" => .bool false
  | "null" => .null
  | word => (keyword? word).getD (.ident word)

end ScriptFront.Lexeme
