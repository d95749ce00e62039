/-!
# Escapes in string literals

A string literal writes line feed, carriage return and tab as a mark followed by a letter, and the
quote and the mark itself as a mark followed by the character. Reading is more generous than
writing: a mark in front of any other character is dropped.

Reading what was written gives the text back, except where the text holds the marker of an embedded
section in front of a brace. Between double quotes the two open a section, and no escape is written
that would prevent it.
-/

namespace ScriptFront.Text

/-- The character that an escaped `c` stands for. -/
def unescape (c : Char) : Char :=
  match c with
  | 'n' => '\n'
  | 't' => '\t'
  | 'r' => '\r'
  | c => c

/-- How a character is written between double quotes. -/
def escapeChar (c : Char) : List Char :=
  match c with
  | '"' => ['\\', '"']
  | '\\' => ['\\', '\\']
  | '\n' => ['\\', 'n']
  | '\r' => ['\\', 'r']
  | '\t' => ['\\', 't']
  | c => [c]

/-- The content of a double-quoted literal for `s`. -/
def escape (s : String) : String := String.ofList (s.toList.flatMap escapeChar)

/-- The double-quoted literal for `s`. -/
def quote (s : String) : String := "\"" ++ escape s ++ "\""

end ScriptFront.Text
