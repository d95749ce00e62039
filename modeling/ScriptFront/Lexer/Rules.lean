import ScriptFront.Cursor.Basic
import ScriptFront.Error
import ScriptFront.Token.Basic

/-!
# Lexical rules and lexical extensions

A host may change how a script is cut into tokens in two ways. *Rules* are keyed by the spelling of
a token: another lexeme in its place, no token at all, or further lexemes after it. A *lexical
extension* is a program: it may claim a token that was just read and read on from there.

Rules act on one token at a time and look at nothing but its spelling, so they cannot tell where
they are in a script. What a rule puts into the stream is not looked at again: rules are not
applied to their own results. `SpellingRules.fanOut` bounds how many tokens can come of one, which
is what a lexer needs to say how many are left.
-/

namespace ScriptFront

/-- Changes to the token stream, keyed by spelling. -/
structure SpellingRules where
  /-- Lexemes that take the place of a spelling, the latest first. -/
  replacements : List (String × Lexeme)
  /-- Spellings whose tokens are dropped. -/
  removals : List String
  /-- Lexemes that follow a spelling, in the order in which they were given. -/
  insertions : List (String × Lexeme)

namespace SpellingRules

def empty : SpellingRules := ⟨[], [], []⟩

instance : Inhabited SpellingRules := ⟨empty⟩

/-- Put `lexeme` in place of every token spelled `text`. A later rule for a spelling wins. -/
def replace (r : SpellingRules) (text : String) (lexeme : Lexeme) : SpellingRules :=
  { r with replacements := (text, lexeme) :: r.replacements }

/-- Drop every token spelled `text`. -/
def remove (r : SpellingRules) (text : String) : SpellingRules :=
  { r with removals := text :: r.removals }

/-- Put `lexeme` after every token spelled `text`, behind what was put there before. -/
def insertAfter (r : SpellingRules) (text : String) (lexeme : Lexeme) : SpellingRules :=
  { r with insertions := r.insertions ++ [(text, lexeme)] }

def isEmpty (r : SpellingRules) : Bool :=
  r.replacements.isEmpty && r.removals.isEmpty && r.insertions.isEmpty

def replacement? (r : SpellingRules) (text : String) : Option Lexeme := r.replacements.lookup text

/-- The lexemes that follow `text`. -/
def insertionsAfter (r : SpellingRules) (text : String) : List Lexeme :=
  (r.insertions.filter (·.1 == text)).map (·.2)

/-- What becomes of one token. A replacement wins over a removal; insertions go by the spelling
before the replacement, and a removed token has none. -/
def apply (r : SpellingRules) (t : Token) : List Token :=
  let inserted := (r.insertionsAfter t.text).map t.withLexeme
  match r.replacement? t.text with
  | some lexeme => t.withLexeme lexeme :: inserted
  | none => if r.removals.contains t.text then [] else t :: inserted

/-- One token becomes at most this many. -/
def fanOut (r : SpellingRules) : Nat := r.insertions.length + 1

end SpellingRules

/-- A program that takes over tokens as they are read. -/
structure LexExtension where
  /-- The name it is listed under. -/
  name : String
  /-- Whether it takes over this token; the cursor is just behind it. -/
  claims : Token → Cursor → Bool
  /-- The lexeme in place of a claimed token, and where reading goes on. -/
  lex : Token → Cursor → Except ScriptError Lexeme × Cursor

end ScriptFront
