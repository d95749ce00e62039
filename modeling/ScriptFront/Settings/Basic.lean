import ScriptFront.Lexer.Basic
import ScriptFront.Window.Basic

/-!
# Settings

What a host may choose: the marker of embedded sections, how far a parser looks ahead, bounds on
the resources a script may take, and the name that failures give the script.

The bounds turn scripts that are pathological, or made to exhaust the parser, into ordinary
failures. They bound nesting and sizes only. None of them takes part in deciding how a script is
read, so a script that stays within two sets of bounds means the same under both.
-/

namespace ScriptFront

/-- Bounds that turn pathological scripts into failures. -/
structure Limits where
  maxScriptLength : Nat
  /-- Nested blocks. -/
  maxStatementDepth : Nat
  /-- Calls nested in call arguments. -/
  maxCallDepth : Nat
  /-- Links of one chain. -/
  maxMemberDepth : Nat
  /-- Parentheses open at once. -/
  maxParenDepth : Nat
  /-- Operands nested in operands. -/
  maxExpressionDepth : Nat
  /-- Embedded sections nested in strings of other sections. -/
  maxInterpolationDepth : Nat
  maxParams : Nat
  maxAliases : Nat
deriving DecidableEq, Repr

/-- The bounds unless others are chosen. -/
def Limits.standard : Limits :=
  { maxScriptLength := 1000000
    maxStatementDepth := 64
    maxCallDepth := 32
    maxMemberDepth := 32
    maxParenDepth := 32
    maxExpressionDepth := 64
    maxInterpolationDepth := Dialect.defaultNesting
    maxParams := 16
    maxAliases := 8 }

instance : Inhabited Limits := ⟨.standard⟩

/-- The choices of a host. -/
structure Settings where
  /-- The character that opens an embedded section, in front of a brace. -/
  marker : Char
  /-- How many tokens extensions may look ahead. -/
  lookahead : Nat
  limits : Limits
  /-- The name of the script in failures. -/
  file : Option String
deriving DecidableEq, Repr

namespace Settings

/-- How far a parser looks ahead unless chosen otherwise. -/
def defaultLookahead : Nat := 8

/-- The settings unless others are chosen. -/
def standard : Settings := ⟨Dialect.defaultMarker, defaultLookahead, .standard, none⟩

instance : Inhabited Settings := ⟨standard⟩

/-- Choose how far to look ahead; less than a window needs is raised to that. -/
def withLookahead (s : Settings) (k : Nat) : Settings :=
  { s with lookahead := max k Window.minLookahead }

end Settings

end ScriptFront
