import ScriptFront.Extension.Registry
import ScriptFront.Settings.Basic

/-!
# Limits and extensions while parsing

The surroundings of a parse that never change: the bounds, and the extensions of the host. This
module holds the counters that the bounds apply to, and the two places where extensions come in,
namely the replacement of tokens and the building of nodes.

## Counting

A bound is checked right after counting up, and a counter goes back down when the construct it
counts has been read. After a failure the counters keep what was open then, with one exception: the
count of operands is restored by `ParseContext.deeper` on failures too, so an extension that goes
on after an operand failed finds the count as it was.
-/

namespace ScriptFront

/-- What stays the same during a parse. -/
structure ParseContext where
  limits : Limits
  registry : Registry

namespace ParseContext

variable {α : Type}

/-- Fail if `depth` is beyond its bound. -/
def limit (depth max : Nat) (what : Nesting) : Parse Unit := do
  if max < depth then Parse.fail (.nestingTooDeep what max)

/-- Count one more open parenthesis. -/
def enterParen (ctx : ParseContext) : Parse Unit := do
  modify fun s ↦ { s with parenDepth := s.parenDepth + 1 }
  limit (← get).parenDepth ctx.limits.maxParenDepth .parenthesis

def leaveParen : Parse Unit := modify fun s ↦ { s with parenDepth := s.parenDepth - 1 }

/-- Count one more open argument list. -/
def enterCall (ctx : ParseContext) : Parse Unit := do
  modify fun s ↦ { s with callDepth := s.callDepth + 1 }
  limit (← get).callDepth ctx.limits.maxCallDepth .call

def leaveCall : Parse Unit := modify fun s ↦ { s with callDepth := s.callDepth - 1 }

/-- Count one more open block. -/
def enterBlock (ctx : ParseContext) : Parse Unit := do
  modify fun s ↦ { s with statementDepth := s.statementDepth + 1 }
  limit (← get).statementDepth ctx.limits.maxStatementDepth .statement

def leaveBlock : Parse Unit := modify fun s ↦ { s with statementDepth := s.statementDepth - 1 }

/-- Parse one operand deeper. The count returns to what it was, also after a failure. -/
def deeper (ctx : ParseContext) (p : Parse α) : Parse α := fun s ↦
  let limited : Parse α := do
    limit (← get).expressionDepth ctx.limits.maxExpressionDepth .expression
    p
  match limited { s with expressionDepth := s.expressionDepth + 1 } with
  | .ok a s => .ok a { s with expressionDepth := s.expressionDepth - 1 }
  | .error e s => .error e { s with expressionDepth := s.expressionDepth - 1 }

/-! ## Extensions -/

/-- The first extension of a kind that claims the tokens ahead. -/
def find (ctx : ParseContext) (kind : ExtensionKind) : Parse (Option (Match × Extension)) := do
  let symbols := (← get).symbols
  Parse.onTokens (ctx.registry.find kind symbols)

/-- Let an extension of a kind build the node at the current token, if one claims it. The node is
placed at that token and in the scope there, whatever its builder did. -/
def build? (ctx : ParseContext) (sub : Subparser) (kind : ExtensionKind) :
    Parse (Option Expr) := do
  match ← ctx.find kind with
  | none => return none
  | some (found, extension) =>
    let position ← Parse.position
    let scope ← Parse.scope
    Parse.advance found.count false
    let e ← extension.build sub found
    return some ((e.moveTo position).inScope scope)

/-- Let an extension replace the tokens at the cursor, if one claims them. -/
def replaceTokens (ctx : ParseContext) : Parse Unit := do
  match ← ctx.find .replacement with
  | none => pure ()
  | some (found, extension) =>
    match extension.replace found (← Parse.current) with
    | none => pure ()
    | some lexeme => Parse.onTokens (Window.replace found.count lexeme)

end ParseContext

end ScriptFront
