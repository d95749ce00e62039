import ScriptFront.Symbols.Table
import ScriptFront.Tree.Format

/-!
# Parsed scripts

What parsing yields: the statements, and the names they defined.

The table still holds every scope that was opened, not only those that enclose the end of the
script, because the nodes of the tree refer to scopes by their numbers.
-/

namespace ScriptFront

/-- A parsed script. -/
structure Program where
  statements : List Expr
  /-- The symbols at the end of the script. -/
  symbols : SymbolTable

/-- The canonical text of a script. -/
def Program.text (p : Program) : String := scriptText p.statements

end ScriptFront
